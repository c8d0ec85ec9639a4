import Mathlib.Data.List.Induction
import Tonggeret.Prometheus.Registry

/-!
# Label keys of a metric

The label checks of the fast path accept every call, so an entry with other label
names than its collector is not dropped: it panics, or its values are recorded
under the collector's names.  Where the number of values is all that
`with_label_values` panics on, the registry keeps the keys of a metric stable exactly
as long as its callers do.
-/

namespace Tonggeret.Prometheus

open Tonggeret.Lib

def labelNames (entry : MetricEntry) : List String := entry.labels.map Prod.fst

/-- The collector that an entry of this kind and name is observed with. -/
def collectorOf (reg : PromRegistry) (entry : MetricEntry) : Option Collector :=
  (reg.vecs entry.metricType).get? entry.name

/-- One call keeps the label keys stable. -/
structure LabelsStable (crate : PrometheusCrate) (reg : PromRegistry)
    (entry : MetricEntry) : Prop where
  noPanic : (update crate reg entry).1 ≠ .panicked
  recorded : ∀ series sample,
    (update crate reg entry).2.observations = reg.observations ++ [(series, sample)] →
      series.labels.map Prod.fst = labelNames entry
  mismatch : ∀ vec, collectorOf reg entry = some vec → vec.labelNames ≠ labelNames entry →
    (update crate reg entry).1 = .dropped ∧
      (update crate reg entry).2.observations = reg.observations

/-- The entry comes with the label names its collector was created with, if there
is one. -/
def SameKeys (reg : PromRegistry) (entry : MetricEntry) : Prop :=
  ∀ vec, collectorOf reg entry = some vec → vec.labelNames = labelNames entry

/-- `with_label_values` panics on the number of values only: every child can be made. -/
def PanicsOnCountOnly (crate : PrometheusCrate) : Prop :=
  ∀ kind opts labelNames, crate.childError kind opts labelNames = none

/-- The registry after a sequence of calls. -/
def updates (crate : PrometheusCrate) (reg : PromRegistry) (entries : List MetricEntry) :
    PromRegistry :=
  entries.foldl (fun reg entry => (update crate reg entry).2) reg

section

variable (crate : PrometheusCrate) (reg : PromRegistry) (entry : MetricEntry)

theorem withLabelValues_of_labelNames {vec : Collector}
    (hchild : crate.childError vec.kind vec.opts vec.labelNames = none)
    (h : vec.labelNames = labelNames entry) :
    ∃ series, withLabelValues crate vec (entry.labels.map Prod.snd) = some series ∧
      series.labels.map Prod.fst = labelNames entry := by
  have hlength : (entry.labels.map Prod.snd).length = vec.labelNames.length := by
    rw [h, labelNames, List.length_map, List.length_map]
  refine ⟨⟨vec.id, vec.labelNames.zip (entry.labels.map Prod.snd)⟩, ?_, ?_⟩
  · rw [withLabelValues, if_pos hlength, hchild]
  · rw [← h]
    exact List.map_fst_zip hlength.ge

/-- With an existing collector the sample goes to it, whatever its label names. -/
theorem update_of_collector {vec : Collector} (h : collectorOf reg entry = some vec) :
    update crate reg entry =
      observe crate (some vec, reg) (entry.labels.map Prod.snd) (sampleOf entry) := by
  rw [update_eq]
  rcases ensure_cases crate entry.metricType (vecOpts reg entry.metricType entry.name) reg
    entry.name (entry.labels.map Prod.fst) with ⟨v, hv, hensure⟩ | ⟨hnone, -⟩
  · obtain rfl : v = vec := Option.some.inj (hv.symm.trans h)
    rw [hensure]
  · rw [collectorOf, hnone] at h
    contradiction

/-- Without a collector the sample is dropped or recorded under its own names. -/
theorem update_of_no_collector (hcount : PanicsOnCountOnly crate)
    (h : collectorOf reg entry = none) :
    (update crate reg entry).1 = .dropped ∧
      (update crate reg entry).2.observations = reg.observations ∨
    (update crate reg entry).1 = .recorded ∧ ∃ series,
      (update crate reg entry).2.observations =
        reg.observations ++ [(series, sampleOf entry)] ∧
      series.labels.map Prod.fst = labelNames entry := by
  rw [update_eq]
  rcases ensure_cases crate entry.metricType (vecOpts reg entry.metricType entry.name) reg
    entry.name (entry.labels.map Prod.fst) with ⟨v, hv, -⟩ | ⟨-, ⟨created, hensure⟩ | hensure⟩
  · rw [collectorOf, hv] at h
    contradiction
  · rw [hensure]
    exact Or.inl ⟨rfl, rfl⟩
  · rw [hensure]
    have hkeys : Collector.labelNames ⟨reg.created, entry.metricType,
        vecOpts reg entry.metricType entry.name, entry.labels.map Prod.fst⟩ =
          labelNames entry := rfl
    obtain ⟨series, hseries, hnames⟩ :=
      withLabelValues_of_labelNames crate entry (hcount _ _ _) hkeys
    right
    simp only [observe, hseries, observations_insertVec]
    exact ⟨trivial, series, rfl, hnames⟩

theorem labelsStable_of_sameKeys (hcount : PanicsOnCountOnly crate) (h : SameKeys reg entry) :
    LabelsStable crate reg entry := by
  cases hcollector : collectorOf reg entry with
  | none =>
      rcases update_of_no_collector crate reg entry hcount hcollector with
        ⟨hdropped, hsame⟩ | ⟨hrecorded, series, hlog, hnames⟩
      · refine ⟨by simp [hdropped], ?_, fun vec hvec => by simp [hcollector] at hvec⟩
        intro series sample hlog
        rw [hsame] at hlog
        simp at hlog
      · refine ⟨by simp [hrecorded], ?_, fun vec hvec => by simp [hcollector] at hvec⟩
        intro series' sample hlog'
        rw [hlog, List.append_cancel_left_eq] at hlog'
        obtain rfl : series = series' := by simpa using congrArg (List.map Prod.fst) hlog'
        exact hnames
  | some vec =>
      have hkeys := h vec hcollector
      obtain ⟨series, hseries, hnames⟩ :=
        withLabelValues_of_labelNames crate entry (hcount _ _ _) hkeys
      have hupdate : update crate reg entry = (.recorded,
          { reg with observations := reg.observations ++ [(series, sampleOf entry)] }) := by
        rw [update_of_collector crate reg entry hcollector]
        simp only [observe, hseries]
      refine ⟨by simp [hupdate], ?_, ?_⟩
      · intro series' sample hlog
        rw [hupdate, List.append_cancel_left_eq] at hlog
        obtain rfl : series = series' := by simpa using congrArg (List.map Prod.fst) hlog
        exact hnames
      · intro vec' hvec' hne
        rw [hcollector] at hvec'
        obtain rfl := Option.some.inj hvec'
        exact absurd hkeys hne

/-- A sample whose label names differ from its collector's is never dropped. -/
theorem sameKeys_of_labelsStable (h : LabelsStable crate reg entry) :
    SameKeys reg entry := by
  intro vec hvec
  by_contra hne
  obtain ⟨hdropped, -⟩ := h.mismatch vec hvec hne
  rw [update_of_collector crate reg entry hvec, observe] at hdropped
  cases hseries : withLabelValues crate vec (entry.labels.map Prod.snd) with
  | none => simp [hseries] at hdropped
  | some series => simp [hseries] at hdropped

end

/-! ## Runs -/

section

variable (crate : PrometheusCrate)

/-- Every collector was created by an earlier entry of its kind and name. -/
def CreatedBy (entries : List MetricEntry) (reg : PromRegistry) : Prop :=
  ∀ kind name vec, (name, vec) ∈ reg.vecs kind →
    ∃ entry ∈ entries, entry.metricType = kind ∧ entry.name = name ∧
      labelNames entry = vec.labelNames

theorem createdBy_new (defaultBuckets : List F64) :
    CreatedBy [] (PromRegistry.new defaultBuckets) := by
  intro kind name vec hmem
  cases kind <;> exact absurd hmem (SortedMap.notMem_empty _)

theorem createdBy_update {entries : List MetricEntry} {reg : PromRegistry}
    (h : CreatedBy entries reg) (entry : MetricEntry) :
    CreatedBy (entries ++ [entry]) (update crate reg entry).2 := by
  have hold : CreatedBy (entries ++ [entry]) reg := by
    intro kind name vec hmem
    obtain ⟨e, he, hrest⟩ := h kind name vec hmem
    exact ⟨e, List.mem_append_left _ he, hrest⟩
  have hobserve : ∀ ensured values sample kind,
      (observe crate ensured values sample).2.vecs kind = ensured.2.vecs kind := by
    intro ensured values sample kind
    obtain ⟨_ | v, reg⟩ := ensured
    · rfl
    · simp only [observe]
      cases withLabelValues crate v values <;> cases kind <;> rfl
  intro kind name vec hmem
  rw [update_eq, hobserve] at hmem
  rcases ensure_cases crate entry.metricType (vecOpts reg entry.metricType entry.name) reg
    entry.name (entry.labels.map Prod.fst) with ⟨v, -, hensure⟩ | ⟨-, ⟨n, hensure⟩ | hensure⟩
  · rw [hensure] at hmem
    exact hold kind name vec hmem
  · rw [hensure] at hmem
    exact hold kind name vec (by cases kind <;> exact hmem)
  · rw [hensure, vecs_insertVec] at hmem
    by_cases hkind : kind = entry.metricType
    · rw [if_pos hkind, SortedMap.mem_insert] at hmem
      rcases hmem with hnew | ⟨hmem, -⟩
      · obtain ⟨rfl, rfl⟩ := Prod.mk.inj hnew
        exact ⟨entry, by simp, hkind.symm, rfl, rfl⟩
      · exact hold kind name vec (by cases kind <;> exact hmem)
    · rw [if_neg hkind] at hmem
      exact hold kind name vec (by cases kind <;> exact hmem)

theorem createdBy_updates (defaultBuckets : List F64) (entries : List MetricEntry) :
    CreatedBy entries (updates crate (PromRegistry.new defaultBuckets) entries) := by
  induction entries using List.reverseRecOn with
  | nil => exact createdBy_new defaultBuckets
  | append_singleton entries entry ih =>
      unfold updates at ih ⊢
      rw [List.foldl_append]
      exact createdBy_update crate ih entry

/-- Callers that always use one list of label names for a kind and name find a collector
with these names. -/
theorem sameKeys_of_consistent_callers (defaultBuckets : List F64)
    {entries : List MetricEntry}
    (h : ∀ e ∈ entries, ∀ e' ∈ entries, e.metricType = e'.metricType → e.name = e'.name →
      labelNames e = labelNames e')
    {done : List MetricEntry} {entry : MetricEntry} {rest : List MetricEntry}
    (hsplit : entries = done ++ entry :: rest) :
    SameKeys (updates crate (PromRegistry.new defaultBuckets) done) entry := by
  intro vec hvec
  obtain ⟨creator, hcreator, hkind, hname, hlabels⟩ :=
    createdBy_updates crate defaultBuckets done entry.metricType entry.name vec
      (SortedMap.get?_eq_some.mp hvec)
  rw [← hlabels]
  exact h creator (by simp [hsplit, hcreator]) entry (by simp [hsplit]) hkind hname

/-- Every call of the sequence keeps the label keys stable if and only if each entry
comes with the label names of the collector it finds. -/
theorem label_keys_stable_iff (hcount : PanicsOnCountOnly crate) (defaultBuckets : List F64)
    (entries : List MetricEntry) :
    (∀ done entry rest, entries = done ++ entry :: rest →
      LabelsStable crate (updates crate (PromRegistry.new defaultBuckets) done) entry) ↔
    (∀ done entry rest, entries = done ++ entry :: rest →
      SameKeys (updates crate (PromRegistry.new defaultBuckets) done) entry) := by
  constructor
  · intro h done entry rest hsplit
    exact sameKeys_of_labelsStable crate _ entry (h done entry rest hsplit)
  · intro h done entry rest hsplit
    exact labelsStable_of_sameKeys crate _ entry hcount (h done entry rest hsplit)

end

/-! ## Two observations of one name -/

/-- A crate that accepts every definition and child, as it does for those below. -/
def permissiveCrate : PrometheusCrate where
  vecError _ _ _ := none
  childError _ _ _ := none

theorem panicsOnCountOnly_permissiveCrate : PanicsOnCountOnly permissiveCrate :=
  fun _ _ _ => rfl

def requestsTotal (labels : List (String × String)) : MetricEntry :=
  ⟨0, "requests_total", F64.zero, .counter, labels⟩

/-- The second request of one caller goes to a series with its own label names. -/
theorem second_request_stable :
    LabelsStable permissiveCrate
      (updates permissiveCrate (PromRegistry.new []) [requestsTotal [("method", "GET")]])
      (requestsTotal [("method", "POST")]) := by
  refine (label_keys_stable_iff permissiveCrate panicsOnCountOnly_permissiveCrate []
    [requestsTotal [("method", "GET")], requestsTotal [("method", "POST")]]).mpr ?_
    [requestsTotal [("method", "GET")]] (requestsTotal [("method", "POST")]) [] rfl
  intro done entry rest hsplit
  refine sameKeys_of_consistent_callers permissiveCrate [] ?_ hsplit
  intro e he e' he' _ _
  simp only [List.mem_cons, List.not_mem_nil, or_false] at he he'
  rcases he with rfl | rfl <;> rcases he' with rfl | rfl <;> rfl

/-- After a sample with the label `method`, one with the label `status` is recorded as
a method, and one without labels panics. -/
theorem label_keys_unstable :
    let reg := updates permissiveCrate (PromRegistry.new [])
      [requestsTotal [("method", "GET")]]
    ¬ LabelsStable permissiveCrate reg (requestsTotal [("status", "200")]) ∧
    ¬ LabelsStable permissiveCrate reg (requestsTotal []) := by
  intro reg
  constructor
  · intro h
    have hnames := h.recorded ⟨1, [("method", "200")]⟩ (.incBy F64.zero) (by decide +kernel)
    simp [labelNames, requestsTotal] at hnames
  · intro h
    exact h.noPanic (by decide +kernel)

end Tonggeret.Prometheus
