import Mathlib.Data.String.Basic
import Tonggeret.Lib.SortedMap
import Tonggeret.Types

/-!
# In-memory Prometheus registry

Collectors are created lazily, one map for each kind, with a fast path under the
read lock and a slow path under the write lock.  Of the `prometheus` crate the
model uses what it documents: building a vector may be refused for its definition,
`register` refuses a name that is taken, and `with_label_values` matches values to
the declared names by position.  It panics when their numbers differ, and when the
crate cannot make a child of the vector: the order of histogram buckets and the
reserved label `le` are checked there and not when the vector is built.  No guard is
held where a panic can happen, so the locks are never poisoned.
-/

namespace Tonggeret.Prometheus

open Tonggeret.Lib

structure Opts where
  name : String
  help : String
  buckets : Option (List F64)
deriving DecidableEq

/-- A `CounterVec`, `GaugeVec` or `HistogramVec`; its clones share the `id`. -/
structure Collector where
  id : Nat
  kind : MetricType
  opts : Opts
  labelNames : List String
deriving DecidableEq

/-- The child of a vector for one list of label values. -/
structure Series where
  collector : Nat
  labels : List (String × String)
deriving DecidableEq

inductive Sample
  | incBy (value : F64)
  | set (value : F64)
  | observe (value : F64)
deriving DecidableEq

/-- Why the crate refuses to build a vector, or to make a child of one it has built. -/
structure PrometheusCrate where
  vecError : MetricType → Opts → List String → Option String
  childError : MetricType → Opts → List String → Option String

structure PromRegistry where
  registry : SortedMap String Nat
  counters : SortedMap String Collector
  gauges : SortedMap String Collector
  histograms : SortedMap String Collector
  droppedTotal : Nat
  defaultBuckets : List F64
  created : Nat
  observations : List (Series × Sample)

def droppedTotalName : String := "tonggeret_dropped_total"

def PromRegistry.new (defaultBuckets : List F64) : PromRegistry where
  registry := SortedMap.empty.insert droppedTotalName 0
  counters := SortedMap.empty
  gauges := SortedMap.empty
  histograms := SortedMap.empty
  droppedTotal := 0
  defaultBuckets := defaultBuckets
  created := 1
  observations := []

namespace PromRegistry

def incDropped (reg : PromRegistry) : PromRegistry :=
  { reg with droppedTotal := reg.droppedTotal + 1 }

/-- The map of one kind. -/
def vecs (reg : PromRegistry) : MetricType → SortedMap String Collector
  | .counter => reg.counters
  | .gauge => reg.gauges
  | .histogram => reg.histograms

def insertVec (reg : PromRegistry) (name : String) (vec : Collector) : PromRegistry :=
  match vec.kind with
  | .counter => { reg with counters := reg.counters.insert name vec }
  | .gauge => { reg with gauges := reg.gauges.insert name vec }
  | .histogram => { reg with histograms := reg.histograms.insert name vec }

/-- `Registry::register`. -/
def register (reg : PromRegistry) (vec : Collector) : Option PromRegistry :=
  match reg.registry.get? vec.opts.name with
  | some _ => none
  | none => some { reg with registry := reg.registry.insert vec.opts.name vec.id }

end PromRegistry

/-! ## Collectors by name -/

inductive FastPath
  | found (vec : Collector)
  | mismatch
  | absent

/-- Fast path: read lock only. -/
def fastPath (labelsMatch : Collector → List String → Bool) (kind : MetricType)
    (reg : PromRegistry) (name : String) (labelNames : List String) : FastPath :=
  match (reg.vecs kind).get? name with
  | some v => if labelsMatch v labelNames then .found v else .mismatch
  | none => .absent

/-- Slow path: create and register, under the write lock. -/
def slowPath (crate : PrometheusCrate) (kind : MetricType) (opts : Opts)
    (reg : PromRegistry) (name : String) (labelNames : List String) :
    Option Collector × PromRegistry :=
  match (reg.vecs kind).get? name with
  | some v => (some v, reg)
  | none =>
      match crate.vecError kind opts labelNames with
      | some _ => (none, reg)
      | none =>
          let vec : Collector := ⟨reg.created, kind, opts, labelNames⟩
          let reg := { reg with created := reg.created + 1 }
          match reg.register vec with
          | none => (none, reg)
          | some reg => (some vec, reg.insertVec name vec)

def ensure (crate : PrometheusCrate) (labelsMatch : Collector → List String → Bool)
    (kind : MetricType) (opts : Opts) (reg : PromRegistry) (name : String)
    (labelNames : List String) : Option Collector × PromRegistry :=
  match fastPath labelsMatch kind reg name labelNames with
  | .found v => (some v, reg)
  | .mismatch => (none, reg)
  | .absent => slowPath crate kind opts reg name labelNames

def labelNamesMatch (_ : Collector) (_ : List String) : Bool := true

def gaugeLabelsMatch (_ : Collector) (_ : List String) : Bool := true

def histogramLabelsMatch (_ : Collector) (_ : List String) : Bool := true

def ensureCounter (crate : PrometheusCrate) (reg : PromRegistry) (name : String)
    (labelNames : List String) : Option Collector × PromRegistry :=
  ensure crate labelNamesMatch .counter ⟨name, "tonggeret counter " ++ name, none⟩
    reg name labelNames

def ensureGauge (crate : PrometheusCrate) (reg : PromRegistry) (name : String)
    (labelNames : List String) : Option Collector × PromRegistry :=
  ensure crate gaugeLabelsMatch .gauge ⟨name, "tonggeret gauge " ++ name, none⟩
    reg name labelNames

def ensureHistogram (crate : PrometheusCrate) (reg : PromRegistry) (name : String)
    (labelNames : List String) : Option Collector × PromRegistry :=
  ensure crate histogramLabelsMatch .histogram
    ⟨name, "tonggeret histogram " ++ name, some reg.defaultBuckets⟩ reg name labelNames

/-! ## Observations -/

/-- Split label pairs, preserving declaration order. -/
def labelNamesAndValues (labels : List (String × String)) : List String × List String :=
  labels.unzip

/-- `with_label_values`; `none` is its panic. -/
def withLabelValues (crate : PrometheusCrate) (vec : Collector) (values : List String) :
    Option Series :=
  if values.length = vec.labelNames.length then
    match crate.childError vec.kind vec.opts vec.labelNames with
    | some _ => none
    | none => some ⟨vec.id, vec.labelNames.zip values⟩
  else none

inductive Outcome
  | dropped
  | recorded
  | panicked
deriving DecidableEq

/-- What follows an `ensure_*` call: record into the series, if there is a vector. -/
def observe (crate : PrometheusCrate) (ensured : Option Collector × PromRegistry)
    (values : List String) (sample : Sample) : Outcome × PromRegistry :=
  match ensured with
  | (none, reg) => (.dropped, reg)
  | (some v, reg) =>
      match withLabelValues crate v values with
      | none => (.panicked, reg)
      | some series =>
          (.recorded, { reg with observations := reg.observations ++ [(series, sample)] })

def observeCounter (crate : PrometheusCrate) (reg : PromRegistry) (entry : MetricEntry) :
    Outcome × PromRegistry :=
  let (names, values) := labelNamesAndValues entry.labels
  observe crate (ensureCounter crate reg entry.name names) values (.incBy entry.value)

def observeGauge (crate : PrometheusCrate) (reg : PromRegistry) (entry : MetricEntry) :
    Outcome × PromRegistry :=
  let (names, values) := labelNamesAndValues entry.labels
  observe crate (ensureGauge crate reg entry.name names) values (.set entry.value)

def observeHistogram (crate : PrometheusCrate) (reg : PromRegistry) (entry : MetricEntry) :
    Outcome × PromRegistry :=
  let (names, values) := labelNamesAndValues entry.labels
  observe crate (ensureHistogram crate reg entry.name names) values (.observe entry.value)

/-- Record one observation into the matching collector (creating it lazily). -/
def update (crate : PrometheusCrate) (reg : PromRegistry) (entry : MetricEntry) :
    Outcome × PromRegistry :=
  match entry.metricType with
  | .counter => observeCounter crate reg entry
  | .gauge => observeGauge crate reg entry
  | .histogram => observeHistogram crate reg entry

/-! ## The three kinds at once -/

def vecOpts (reg : PromRegistry) (kind : MetricType) (name : String) : Opts :=
  match kind with
  | .counter => ⟨name, "tonggeret counter " ++ name, none⟩
  | .gauge => ⟨name, "tonggeret gauge " ++ name, none⟩
  | .histogram => ⟨name, "tonggeret histogram " ++ name, some reg.defaultBuckets⟩

def sampleOf (entry : MetricEntry) : Sample :=
  match entry.metricType with
  | .counter => .incBy entry.value
  | .gauge => .set entry.value
  | .histogram => .observe entry.value

/-- The three paths differ in their map, definition and sample only. -/
theorem update_eq (crate : PrometheusCrate) (reg : PromRegistry) (entry : MetricEntry) :
    update crate reg entry =
      observe crate
        (ensure crate (fun _ _ => true) entry.metricType
          (vecOpts reg entry.metricType entry.name) reg entry.name
          (entry.labels.map Prod.fst))
        (entry.labels.map Prod.snd) (sampleOf entry) := by
  have hsplit : labelNamesAndValues entry.labels =
      (entry.labels.map Prod.fst, entry.labels.map Prod.snd) := List.unzip_eq_map
  unfold update
  cases hkind : entry.metricType with
  | counter =>
      simp only [observeCounter, hsplit, sampleOf, hkind]
      rfl
  | gauge =>
      simp only [observeGauge, hsplit, sampleOf, hkind]
      rfl
  | histogram =>
      simp only [observeHistogram, hsplit, sampleOf, hkind]
      rfl

/-- What `ensure_*` returns: the collector of the name, or one just created with the
given label names, or nothing. -/
theorem ensure_cases (crate : PrometheusCrate) (kind : MetricType) (opts : Opts)
    (reg : PromRegistry) (name : String) (labelNames : List String) :
    (∃ vec, (reg.vecs kind).get? name = some vec ∧
      ensure crate (fun _ _ => true) kind opts reg name labelNames = (some vec, reg)) ∨
    (reg.vecs kind).get? name = none ∧
      ((∃ created, ensure crate (fun _ _ => true) kind opts reg name labelNames =
        (none, { reg with created })) ∨
      ensure crate (fun _ _ => true) kind opts reg name labelNames =
        (some ⟨reg.created, kind, opts, labelNames⟩,
          { reg with
            created := reg.created + 1
            registry := reg.registry.insert opts.name reg.created }.insertVec name
              ⟨reg.created, kind, opts, labelNames⟩)) := by
  unfold ensure fastPath
  cases hvec : (reg.vecs kind).get? name with
  | some vec => exact Or.inl ⟨vec, rfl, rfl⟩
  | none =>
      refine Or.inr ⟨rfl, ?_⟩
      simp only [slowPath, hvec]
      cases crate.vecError kind opts labelNames with
      | some e => exact Or.inl ⟨reg.created, rfl⟩
      | none =>
          simp only [PromRegistry.register]
          cases reg.registry.get? opts.name with
          | some id => exact Or.inl ⟨reg.created + 1, rfl⟩
          | none => exact Or.inr rfl

@[simp] theorem observations_insertVec (reg : PromRegistry) (name : String)
    (vec : Collector) : (reg.insertVec name vec).observations = reg.observations := by
  unfold PromRegistry.insertVec
  cases vec.kind <;> rfl

@[simp] theorem registry_insertVec (reg : PromRegistry) (name : String) (vec : Collector) :
    (reg.insertVec name vec).registry = reg.registry := by
  unfold PromRegistry.insertVec
  cases vec.kind <;> rfl

@[simp] theorem created_insertVec (reg : PromRegistry) (name : String) (vec : Collector) :
    (reg.insertVec name vec).created = reg.created := by
  unfold PromRegistry.insertVec
  cases vec.kind <;> rfl

theorem vecs_insertVec (reg : PromRegistry) (name : String) (vec : Collector)
    (kind : MetricType) :
    (reg.insertVec name vec).vecs kind =
      if kind = vec.kind then (reg.vecs kind).insert name vec else reg.vecs kind := by
  unfold PromRegistry.insertVec
  cases hvec : vec.kind <;> cases kind <;> rfl

end Tonggeret.Prometheus
