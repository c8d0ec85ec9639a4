import Mathlib.Data.List.Chain
import Tonggeret.Engine.Init
import Tonggeret.Prometheus.Registry
import Tonggeret.Storage.Compaction
import Tonggeret.Storage.Writer

/-!
# What a configuration asks of its consumers

Validation has lower bounds only.  The channel, the batch of the writer, the clock
arithmetic of a compaction pass and the histograms each have an upper limit or an order of
their own, and panic outside it.
-/

namespace Tonggeret

/-! ## Order of doubles -/

namespace F64

/-- `f64::is_nan`: the bits below the sign exceed those of infinity. -/
def isNan (x : F64) : Bool := 0x7ff0000000000000 < x.bits &&& 0x7fffffffffffffff

/-- Sign and magnitude as one integer; both zeros are 0. -/
def toOrdered (x : F64) : Int :=
  let magnitude : Int := (x.bits &&& 0x7fffffffffffffff).toNat
  if x.bits >>> 63 = 0 then magnitude else -magnitude

/-- `x >= y`, which is false if either is NaN. -/
def AtLeast (x y : F64) : Prop :=
  x.isNan = false ∧ y.isNan = false ∧ y.toOrdered ≤ x.toOrdered

instance : DecidableRel AtLeast := fun _ _ => inferInstanceAs (Decidable (_ ∧ _ ∧ _))

/-- `x < y`, which is false if either is NaN. -/
def Below (x y : F64) : Prop :=
  x.isNan = false ∧ y.isNan = false ∧ x.toOrdered < y.toOrdered

/-- Of two numbers, one is below or at least the other; a NaN is neither. -/
theorem not_atLeast_iff_below {x y : F64} (hx : x.isNan = false) (hy : y.isNan = false) :
    ¬ x.AtLeast y ↔ x.Below y := by
  simp [AtLeast, Below, hx, hy]

end F64

/-! ## Consumers -/

namespace Engine

open Lib Prometheus Storage

/-- With `prometheus`, whether `mpsc::channel(buffer)` of `tokio` panics. -/
structure Libraries extends PrometheusCrate where
  channelPanics : UInt64 → Bool

/-- The allocation with which `writerLoop` starts. -/
def writerBatch (entrySize : Nat) (cfg : FjallConfig) : Option Nat :=
  withCapacity entrySize cfg.batchRows.toNat

/-- No bucket bound is at least the next one: the test of `prometheus`, made when the first
series is.  Without a NaN among the bounds they are then strictly increasing. -/
def BucketsInOrder (buckets : List F64) : Prop :=
  buckets.IsChain fun x y => ¬ x.AtLeast y

instance : DecidablePred BucketsInOrder := fun buckets =>
  inferInstanceAs (Decidable (buckets.IsChain fun x y => ¬ x.AtLeast y))

theorem bucketsInOrder_iff_increasing {buckets : List F64}
    (hnan : ∀ bound ∈ buckets, bound.isNan = false) :
    BucketsInOrder buckets ↔ buckets.IsChain F64.Below := by
  rw [BucketsInOrder, List.isChain_iff_getElem, List.isChain_iff_getElem]
  have hpair : ∀ i (h : i + 1 < buckets.length),
      ¬ buckets[i].AtLeast buckets[i + 1] ↔ buckets[i].Below buckets[i + 1] := fun i h =>
    F64.not_atLeast_iff_below (hnan _ (List.getElem_mem _)) (hnan _ (List.getElem_mem _))
  exact forall_congr' fun i => forall_congr' fun h => hpair i h

/-! ## No panic -/

/-- No step that consumes the configuration panics, with a compaction pass at `now`. -/
structure NoPanic (libs : Libraries) (entrySize : Nat) (now : Instant) (config : Config) :
    Prop where
  channel : openChannel libs.channelPanics config ≠ none
  batch : ∀ cfg, config.fjall = some cfg → writerBatch entrySize cfg ≠ none
  cutoff : ∀ cfg, config.fjall = some cfg →
    ∀ message, cutoffMicros cfg.retention now ≠ .error (.panic message)
  /-- The label `le` is reserved, whatever the buckets. -/
  histogram : ∀ reg entry, reg.defaultBuckets = config.prometheus.defaultHistogramBuckets →
    reg.histograms.get? entry.name = none → "le" ∉ entry.labels.map Prod.fst →
      (observeHistogram libs.toPrometheusCrate reg entry).1 ≠ .panicked

/-- `usize::MAX >> 3`. -/
def maxPermits : UInt64 := 0x1fffffffffffffff

/-- What the libraries document. -/
structure Documented (libs : Libraries) : Prop where
  channel : ∀ buffer, 0 < buffer → (libs.channelPanics buffer = true ↔ maxPermits < buffer)
  series : ∀ name help buckets labelNames, buckets ≠ [] → "le" ∉ labelNames →
    (libs.childError .histogram ⟨name, help, some buckets⟩ labelNames = none ↔
      BucketsInOrder buckets)
  /-- Some histogram can be defined; its buckets are not looked at yet. -/
  definition : ∃ name labelNames, name ≠ droppedTotalName ∧ "le" ∉ labelNames ∧ ∀ buckets,
    libs.vecError .histogram ⟨name, "tonggeret histogram " ++ name, some buckets⟩
      labelNames = none

/-- The limits that validation leaves out. -/
structure WithinLimits (entrySize : Nat) (now : Instant) (config : Config) : Prop where
  capacity : config.fjall.isSome → config.channelCapacity ≤ maxPermits
  batch : ∀ cfg, config.fjall = some cfg → cfg.batchRows.toNat * entrySize ≤ 2 ^ 63 - 1
  /-- A retention that cannot be converted is an error, not a panic. -/
  retention : ∀ cfg, config.fjall = some cfg → cfg.retention ≤ (2 ^ 63 - 1) * 1000000 →
    minUtc ≤ now - cfg.retention ∧ now - cfg.retention ≤ maxUtc
  buckets : BucketsInOrder config.prometheus.defaultHistogramBuckets

variable {libs : Libraries} {config : Config} {entrySize : Nat} {now : Instant}

/-! ## Validation -/

theorem validate_bounds (h : config.validate = .ok ()) :
    16 ≤ config.channelCapacity ∧ config.prometheus.defaultHistogramBuckets ≠ [] := by
  rw [Config.validate] at h
  split at h
  · contradiction
  · rename_i hcapacity
    split at h
    · contradiction
    · rename_i hbuckets
      refine ⟨UInt64.not_lt.mp hcapacity, fun hnil => hbuckets ?_⟩
      rw [hnil]
      rfl

/-! ## One consumer at a time -/

theorem openChannel_ne_none (hlibs : Documented libs) (hvalid : config.validate = .ok ()) :
    openChannel libs.channelPanics config ≠ none ↔
      (config.fjall.isSome → config.channelCapacity ≤ maxPermits) := by
  have hpos : 0 < config.channelCapacity :=
    UInt64.lt_of_lt_of_le (by decide) (validate_bounds hvalid).1
  have hpanics := hlibs.channel config.channelCapacity hpos
  rw [openChannel]
  cases config.fjall with
  | none => simp
  | some cfg =>
      rw [← UInt64.not_lt, ← hpanics]
      cases libs.channelPanics config.channelCapacity <;> simp

theorem writerBatch_ne_none (cfg : FjallConfig) :
    writerBatch entrySize cfg ≠ none ↔ cfg.batchRows.toNat * entrySize ≤ 2 ^ 63 - 1 := by
  rw [writerBatch, withCapacity, ne_eq, ite_eq_right_iff, Classical.not_imp]
  simp

theorem cutoffMicros_not_panic (retention : Nat) :
    (∀ message, cutoffMicros retention now ≠ .error (.panic message)) ↔
      (retention ≤ (2 ^ 63 - 1) * 1000000 →
        minUtc ≤ now - retention ∧ now - retention ≤ maxUtc) := by
  rw [cutoffMicros, durationFromStd]
  by_cases hfits : retention ≤ (2 ^ 63 - 1) * 1000000
  · rw [if_pos hfits]
    dsimp only
    rw [subDuration]
    by_cases hrange : minUtc ≤ now - retention ∧ now - retention ≤ maxUtc
    · rw [if_pos hrange]
      exact iff_of_true (fun _ h => by contradiction) (fun _ => hrange)
    · rw [if_neg hrange]
      exact iff_of_false (fun h => h _ rfl) (fun h => hrange (h hfits))
  · rw [if_neg hfits]
    exact iff_of_true (fun _ h => by simp at h) (fun h => absurd h hfits)

theorem observeHistogram_eq (crate : PrometheusCrate) (reg : PromRegistry)
    (entry : MetricEntry) :
    observeHistogram crate reg entry =
      observe crate
        (ensure crate (fun _ _ => true) .histogram
          ⟨entry.name, "tonggeret histogram " ++ entry.name, some reg.defaultBuckets⟩ reg
          entry.name (entry.labels.map Prod.fst))
        (entry.labels.map Prod.snd) (.observe entry.value) := by
  rw [observeHistogram, labelNamesAndValues, List.unzip_eq_map]
  rfl

/-- A vector just created has the labels of its entry. -/
theorem observeHistogram_ne_panicked {crate : PrometheusCrate} {reg : PromRegistry}
    {entry : MetricEntry} (hnew : reg.histograms.get? entry.name = none)
    (hseries : crate.childError .histogram
      ⟨entry.name, "tonggeret histogram " ++ entry.name, some reg.defaultBuckets⟩
      (entry.labels.map Prod.fst) = none) :
    (observeHistogram crate reg entry).1 ≠ .panicked := by
  rw [observeHistogram_eq]
  rcases ensure_cases crate .histogram
    ⟨entry.name, "tonggeret histogram " ++ entry.name, some reg.defaultBuckets⟩ reg entry.name
    (entry.labels.map Prod.fst) with ⟨vec, hold, -⟩ | ⟨-, ⟨created, hnone⟩ | hcreated⟩
  · exact absurd (hold.symm.trans hnew) (by simp)
  · rw [hnone, observe]
    exact Outcome.noConfusion
  · rw [hcreated]
    simp only [observe, withLabelValues, hseries, List.length_map, if_true, ne_eq, reduceCtorEq,
      not_false_eq_true]

/-- A definition that is accepted and not taken makes a vector. -/
theorem ensure_of_new {crate : PrometheusCrate} {kind : MetricType} {opts : Opts}
    {reg : PromRegistry} {name : String} {labelNames : List String}
    (habsent : (reg.vecs kind).get? name = none)
    (hdefined : crate.vecError kind opts labelNames = none)
    (hfree : reg.registry.get? opts.name = none) :
    ∃ vec reg', ensure crate (fun _ _ => true) kind opts reg name labelNames =
      (some vec, reg') ∧ vec.kind = kind ∧ vec.opts = opts ∧ vec.labelNames = labelNames := by
  rw [ensure, fastPath, habsent]
  dsimp only
  rw [slowPath, habsent, hdefined]
  dsimp only
  rw [PromRegistry.register]
  dsimp only
  rw [hfree]
  exact ⟨_, _, rfl, rfl, rfl, rfl⟩

/-- A histogram that can be defined, and whose first series then cannot be made. -/
theorem exists_observeHistogram_panicked (hlibs : Documented libs) {buckets : List F64}
    (hne : buckets ≠ []) (hbuckets : ¬ BucketsInOrder buckets) :
    ∃ entry : MetricEntry, "le" ∉ entry.labels.map Prod.fst ∧
      (observeHistogram libs.toPrometheusCrate (PromRegistry.new buckets) entry).1 =
        .panicked := by
  obtain ⟨name, labelNames, hname, hle, hdefined⟩ := hlibs.definition
  obtain ⟨entry, rfl, rfl⟩ : ∃ entry : MetricEntry,
      entry.name = name ∧ entry.labels.map Prod.fst = labelNames := by
    refine ⟨⟨0, name, F64.zero, .histogram, labelNames.map fun label => (label, "")⟩, rfl, ?_⟩
    rw [List.map_map]
    exact List.map_id' labelNames
  refine ⟨entry, hle, ?_⟩
  have hfree : (PromRegistry.new buckets).registry.get? entry.name = none := by
    rw [PromRegistry.new, SortedMap.get?_insert, if_neg hname]
    rfl
  have habsent : ((PromRegistry.new buckets).vecs .histogram).get? entry.name = none := rfl
  have hdefault : (PromRegistry.new buckets).defaultBuckets = buckets := rfl
  obtain ⟨vec, reg', hensure, hkind, hopts, hlabels⟩ :=
    ensure_of_new habsent (hdefined buckets) hfree
  obtain ⟨e, herror⟩ := Option.ne_none_iff_exists'.mp
    (mt (hlibs.series entry.name ("tonggeret histogram " ++ entry.name) buckets
      (entry.labels.map Prod.fst) hne hle).mp hbuckets)
  rw [observeHistogram_eq, hdefault, hensure]
  simp only [observe, withLabelValues, hkind, hopts, hlabels, herror, ite_self]

/-! ## The configuration -/

/-- An accepted configuration panics nowhere exactly if it is within the limits. -/
theorem no_panic_iff_within_limits (hlibs : Documented libs)
    (hvalid : config.validate = .ok ()) :
    NoPanic libs entrySize now config ↔ WithinLimits entrySize now config := by
  have hchannel := openChannel_ne_none hlibs hvalid
  have hne := (validate_bounds hvalid).2
  constructor
  · intro h
    refine ⟨hchannel.mp h.channel, fun cfg hcfg => ?_, fun cfg hcfg => ?_, ?_⟩
    · exact (writerBatch_ne_none cfg).mp (h.batch cfg hcfg)
    · exact (cutoffMicros_not_panic cfg.retention).mp (h.cutoff cfg hcfg)
    · by_contra hbuckets
      obtain ⟨entry, hle, hpanicked⟩ := exists_observeHistogram_panicked hlibs hne hbuckets
      exact h.histogram _ entry rfl rfl hle hpanicked
  · intro h
    refine ⟨hchannel.mpr h.capacity, fun cfg hcfg => ?_, fun cfg hcfg => ?_, ?_⟩
    · exact (writerBatch_ne_none cfg).mpr (h.batch cfg hcfg)
    · exact (cutoffMicros_not_panic cfg.retention).mpr (h.retention cfg hcfg)
    · intro reg entry hdefault hnew hle
      apply observeHistogram_ne_panicked hnew
      rw [hdefault, hlibs.series _ _ _ _ hne hle]
      exact h.buckets

/-- The defaults are within the limits from a day after the calendar begins. -/
theorem withinLimits_defaultFull (dir : String) (hsize : entrySize ≤ 2 ^ 53)
    (hfrom : minUtc + 86400 * nanosPerSecond ≤ now) (hto : now ≤ maxUtc) :
    WithinLimits entrySize now (Config.defaultFull dir) where
  capacity := by
    intro _
    change (16384 : UInt64) ≤ maxPermits
    decide
  batch := by
    intro cfg hcfg
    obtain rfl := Option.some.inj hcfg
    change 1000 * entrySize ≤ _
    omega
  retention := by
    intro cfg hcfg _
    obtain rfl := Option.some.inj hcfg
    have hday : (((FjallConfig.new dir).retention : Nat) : Int) = 86400 * nanosPerSecond := rfl
    have hnonneg : 0 ≤ 86400 * nanosPerSecond := by decide
    rw [hday]
    exact ⟨Int.le_sub_right_of_add_le hfrom, (Int.sub_le_self now hnonneg).trans hto⟩
  buckets := by
    change BucketsInOrder PrometheusConfig.default.defaultHistogramBuckets
    decide +kernel

/-- Libraries that refuse what is documented. -/
def strictLibraries : Libraries where
  vecError := fun _ opts _ => if opts.name.isEmpty then some "invalid name" else none
  childError := fun kind opts labelNames =>
    if kind = .histogram ∧ "le" ∈ labelNames then
      some "`le` is not allowed as label name in histograms"
    else if BucketsInOrder (opts.buckets.getD []) then none
    else some "histogram buckets must be in increasing order"
  channelPanics := fun buffer => buffer = 0 || maxPermits < buffer

theorem documented_strictLibraries : Documented strictLibraries where
  channel := by
    intro buffer hpos
    have hne : buffer ≠ 0 := (UInt64.ne_of_lt hpos).symm
    simp [strictLibraries, hne]
  series := by
    intro name help buckets labelNames _ hle
    simp [strictLibraries, hle]
  definition := ⟨"latency_ms", [], by decide, List.not_mem_nil, fun _ => rfl⟩

/-- 2025-01-01. -/
def newYear : Instant := 1735689600 * nanosPerSecond

theorem default_config_does_not_panic :
    NoPanic strictLibraries 80 newYear (Config.defaultFull "./data/fjall") :=
  (no_panic_iff_within_limits documented_strictLibraries rfl).mpr
    (withinLimits_defaultFull _ (by decide) (by decide) (by decide))

def withFjall (cfg : FjallConfig) : Config := { Config.defaultLight with fjall := some cfg }

/-- 300000 years, as a retention. -/
def longRetention : Nat := 300000 * 31556952 * 1000000000

/-- 10 and 5. -/
def fallingBuckets : List F64 := [⟨0x4024000000000000⟩, ⟨0x4014000000000000⟩]

/-- Accepted, and each a panic: `usize::MAX` messages, `usize::MAX` rows, a retention of
300000 years, and two buckets in falling order. -/
theorem accepted_configs_panic :
    (∃ config : Config, config.validate = .ok () ∧ config.channelCapacity = 0xffffffffffffffff ∧
      ¬ NoPanic strictLibraries 80 newYear config) ∧
    (∃ cfg : FjallConfig, (withFjall cfg).validate = .ok () ∧
      cfg.batchRows = 0xffffffffffffffff ∧
      ¬ NoPanic strictLibraries 80 newYear (withFjall cfg)) ∧
    (∃ cfg : FjallConfig, (withFjall cfg).validate = .ok () ∧ cfg.retention = longRetention ∧
      ¬ NoPanic strictLibraries 80 newYear (withFjall cfg)) ∧
    ∃ config : Config, config.validate = .ok () ∧
      config.prometheus.defaultHistogramBuckets = fallingBuckets ∧
      ¬ NoPanic strictLibraries 80 newYear config := by
  refine ⟨⟨{ Config.defaultFull "./data/fjall" with channelCapacity := 0xffffffffffffffff },
      rfl, rfl, fun h => h.channel rfl⟩,
    ⟨{ FjallConfig.default with batchRows := 0xffffffffffffffff }, rfl, rfl,
      fun h => h.batch _ rfl (by decide +kernel)⟩,
    ⟨{ FjallConfig.default with retention := longRetention }, rfl, rfl,
      fun h => h.cutoff _ rfl "`DateTime - TimeDelta` overflowed" (by decide +kernel)⟩,
    ⟨{ Config.defaultLight with prometheus := ⟨fallingBuckets⟩ }, rfl, rfl, fun h => ?_⟩⟩
  have hpanicked : (observeHistogram strictLibraries.toPrometheusCrate (PromRegistry.new fallingBuckets)
      ⟨0, "latency_ms", F64.zero, .histogram, []⟩).1 = .panicked := by decide +kernel
  exact h.histogram _ _ rfl rfl List.not_mem_nil hpanicked

end Engine

end Tonggeret
