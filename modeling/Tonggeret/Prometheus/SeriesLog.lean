import Tonggeret.Prometheus.MetricStore

/-!
# What a series holds

As long as the callers of one metric agree on its kind and its label names, each of its
series holds exactly the samples with its labels, in the order of the calls, whatever is
recorded under other names.
-/

namespace Tonggeret.Prometheus

open Tonggeret.Lib

/-- The samples logged for the series of this name and these labels. -/
def seriesLog (reg : PromRegistry) (name : String) (labels : List (String × String)) :
    List Sample :=
  (reg.observations.filter fun observed =>
    reg.registry.get? name = some observed.1.collector ∧ observed.1.labels = labels).map
      Prod.snd

/-- All samples of the name are of one kind and with one list of label names, and such a
metric may be registered and has series. -/
structure Agreed (crate : PrometheusCrate) (defaultBuckets : List F64) (name : String)
    (kind : MetricType) (keys : List String) (entries : List MetricEntry) : Prop where
  callers : ∀ entry ∈ entries, entry.name = name →
    entry.metricType = kind ∧ labelNames entry = keys
  reserved : name ≠ droppedTotalName
  defined : crate.vecError kind (vecOpts (PromRegistry.new defaultBuckets) kind name) keys = none
  observable : crate.childError kind (vecOpts (PromRegistry.new defaultBuckets) kind name) keys =
    none

/-! ## The store -/

theorem fate_of_sameKeys (entry : MetricEntry) (kind : MetricType) :
    Family.fate ⟨kind, labelNames entry, true⟩ entry = .recorded ⟨entry.name, entry.labels⟩ := by
  have hzip : (labelNames entry).zip (entry.labels.map Prod.snd) = entry.labels := by
    rw [labelNames, List.zip_map']
    exact List.map_id _
  have hlength : entry.labels.length = (labelNames entry).length := by
    rw [labelNames, List.length_map]
  rw [Family.fate, if_pos ⟨hlength, rfl⟩, hzip]

section

variable {define : MetricEntry → Option Family} {store : MetricStore} {entry : MetricEntry}

/-- A sample of another name touches neither the family nor its series. -/
theorem MetricStore.update_other {name : String} (h : entry.name ≠ name) :
    (store.update define entry).2.families name = store.families name ∧
      ∀ labels, ((store.update define entry).2.samples.filter (·.1 = ⟨name, labels⟩)) =
        store.samples.filter (·.1 = ⟨name, labels⟩) := by
  have hfate : ∀ family : Family, ∀ labels : List (String × String),
      ((family.fate entry).sample entry).filter (·.1 = ⟨name, labels⟩) = [] := by
    intro family labels
    rw [Family.fate]
    split
    · simp [Fate.sample, h]
    · rfl
  have hdropped : ∀ labels : List (String × String),
      (Fate.dropped.sample entry).filter (·.1 = ⟨name, labels⟩) = [] := fun _ => rfl
  rw [MetricStore.update]
  split
  · split
    · refine ⟨rfl, fun labels => ?_⟩
      rw [MetricStore.settle, List.filter_append, hfate, List.append_nil]
    · refine ⟨rfl, fun labels => ?_⟩
      rw [MetricStore.settle, List.filter_append, hdropped, List.append_nil]
  · split
    · refine ⟨?_, fun labels => ?_⟩
      · exact (store.families_addFamily _ _ _).trans (if_neg h.symm)
      · rw [MetricStore.settle, List.filter_append, hfate, List.append_nil]
        rfl
    · refine ⟨rfl, fun labels => ?_⟩
      rw [MetricStore.settle, List.filter_append, hdropped, List.append_nil]

/-- A sample with the label names of its family is recorded with its own labels. -/
theorem MetricStore.update_agreed
    (hdefine : define entry = some ⟨entry.metricType, labelNames entry, true⟩)
    (hfamily : store.families entry.name = none ∨
      store.families entry.name = some ⟨entry.metricType, labelNames entry, true⟩) :
    (store.update define entry).1 = .recorded ⟨entry.name, entry.labels⟩ ∧
      (store.update define entry).2.families entry.name =
        some ⟨entry.metricType, labelNames entry, true⟩ ∧
      (store.update define entry).2.samples =
        store.samples ++ [(⟨entry.name, entry.labels⟩, sampleOf entry)] := by
  have hfate := fate_of_sameKeys entry entry.metricType
  rw [MetricStore.update]
  rcases hfamily with hnone | hsome
  · simp only [hnone, hdefine, hfate, MetricStore.settle, Fate.sample]
    exact ⟨trivial, (store.families_addFamily _ _ _).trans (if_pos rfl), rfl⟩
  · simp only [hsome, if_true, hfate, MetricStore.settle, Fate.sample]
    exact ⟨trivial, trivial, trivial⟩

end

/-- The samples with this name and these labels, in order. -/
def samplesOf (entries : List MetricEntry) (name : String) (labels : List (String × String)) :
    List Sample :=
  (entries.filter fun entry => entry.name = name ∧ entry.labels = labels).map sampleOf

section

variable {crate : PrometheusCrate} {defaultBuckets : List F64} {name : String}
variable {kind : MetricType} {keys : List String} {entries : List MetricEntry}

theorem Agreed.definedFamily (h : Agreed crate defaultBuckets name kind keys entries)
    {entry : MetricEntry} (hentry : entry ∈ entries) (hname : entry.name = name) :
    Prometheus.definedFamily crate (PromRegistry.new defaultBuckets) entry =
      some ⟨entry.metricType, labelNames entry, true⟩ := by
  obtain ⟨hkind, hkeys⟩ := h.callers entry hentry hname
  simp [Prometheus.definedFamily, Collector.family, vecOf, hname, hkind, hkeys, h.reserved,
    h.defined, h.observable]

theorem Agreed.initial (h : Agreed crate defaultBuckets name kind keys entries)
    {before : List MetricEntry} (hsub : ∀ entry ∈ before, entry ∈ entries) :
    Agreed crate defaultBuckets name kind keys before :=
  ⟨fun entry hentry => h.callers entry (hsub entry hentry), h.reserved, h.defined, h.observable⟩

/-- The family of an agreed metric is as agreed, if there is one. -/
theorem Agreed.family (h : Agreed crate defaultBuckets name kind keys entries) :
    (storeAfter crate defaultBuckets entries).families name = none ∨
      (storeAfter crate defaultBuckets entries).families name = some ⟨kind, keys, true⟩ := by
  induction entries using List.reverseRecOn with
  | nil => exact Or.inl rfl
  | append_singleton entries entry ih =>
      have hbefore := ih (h.initial fun e he => List.mem_append_left _ he)
      rw [storeAfter, MetricStore.updates_append]
      by_cases hname : entry.name = name
      · have hentry : entry ∈ entries ++ [entry] := by simp
        obtain ⟨rfl, rfl⟩ := h.callers entry hentry hname
        subst hname
        exact Or.inr (MetricStore.update_agreed (h.definedFamily hentry rfl) hbefore).2.1
      · have hsame := (@MetricStore.update_other
          (Prometheus.definedFamily crate (PromRegistry.new defaultBuckets))
          (storeAfter crate defaultBuckets entries) entry name hname).1
        rw [MetricStore.updates_singleton]
        rw [← hsame] at hbefore
        exact hbefore

theorem Agreed.samples (h : Agreed crate defaultBuckets name kind keys entries)
    (labels : List (String × String)) :
    ((storeAfter crate defaultBuckets entries).samples.filter (·.1 = ⟨name, labels⟩)).map
      Prod.snd = samplesOf entries name labels := by
  induction entries using List.reverseRecOn with
  | nil => rfl
  | append_singleton entries entry ih =>
      have hagreed : Agreed crate defaultBuckets name kind keys entries :=
        h.initial fun e he => List.mem_append_left _ he
      have hbefore := ih hagreed
      rw [samplesOf, List.filter_append, List.map_append, ← samplesOf, ← hbefore, storeAfter,
        MetricStore.updates_append, MetricStore.updates_singleton, ← storeAfter]
      by_cases hname : entry.name = name
      · have hentry : entry ∈ entries ++ [entry] := by simp
        obtain ⟨rfl, rfl⟩ := h.callers entry hentry hname
        subst hname
        rw [(MetricStore.update_agreed (h.definedFamily hentry rfl) hagreed.family).2.2,
          List.filter_append, List.map_append]
        by_cases hlabels : entry.labels = labels <;> simp [hlabels]
      · rw [(MetricStore.update_other hname).2 labels]
        simp [hname]

end

/-! ## The registry -/

theorem seriesLog_of_shows {reg : PromRegistry} {samples : List (SeriesKey × Sample)}
    (hshows : Shows reg.registry reg.observations samples)
    (hunique : ∀ name name' id, reg.registry.get? name = some id →
      reg.registry.get? name' = some id → name = name')
    (name : String) (labels : List (String × String)) :
    seriesLog reg name labels =
      (samples.filter (·.1 = ⟨name, labels⟩)).map Prod.snd := by
  unfold seriesLog
  unfold Shows at hshows
  generalize reg.observations = observations at hshows
  induction hshows with
  | nil => rfl
  | @cons observed shown observations samples hshown _ ih =>
      obtain ⟨hname, hlabels, hsample⟩ := hshown
      have hiff : (reg.registry.get? name = some observed.1.collector ∧
          observed.1.labels = labels) ↔ shown.1 = ⟨name, labels⟩ := by
        rw [hlabels]
        constructor
        · rintro ⟨hget, rfl⟩
          rw [hunique name shown.1.name _ hget hname]
        · intro heq
          rw [← hname, heq]
          exact ⟨rfl, rfl⟩
      by_cases hkey : shown.1 = ⟨name, labels⟩
      · rw [List.filter_cons_of_pos (by simpa using hiff.mpr hkey),
          List.filter_cons_of_pos (by simpa using hkey), List.map_cons, List.map_cons, ih, hsample]
      · rw [List.filter_cons_of_neg (by simpa using mt hiff.mp hkey),
          List.filter_cons_of_neg (by simpa using hkey), ih]

section

variable {crate : PrometheusCrate} {defaultBuckets : List F64} {name : String}
variable {kind : MetricType} {keys : List String}

/-- A call of an agreed metric is recorded. -/
theorem Agreed.recorded {before after : List MetricEntry} {entry : MetricEntry}
    (h : Agreed crate defaultBuckets name kind keys (before ++ entry :: after))
    (hname : entry.name = name) :
    (update crate (updates crate (PromRegistry.new defaultBuckets) before) entry).1 =
      .recorded := by
  have hentry : entry ∈ before ++ entry :: after := by simp
  have hagreed : Agreed crate defaultBuckets name kind keys before :=
    h.initial fun e he => List.mem_append_left _ he
  obtain ⟨rfl, rfl⟩ := h.callers entry hentry hname
  subst hname
  rw [update_outcome,
    (MetricStore.update_agreed (h.definedFamily hentry rfl) hagreed.family).1]
  rfl

theorem Agreed.seriesLog {entries : List MetricEntry}
    (h : Agreed crate defaultBuckets name kind keys entries) (labels : List (String × String)) :
    Prometheus.seriesLog (updates crate (PromRegistry.new defaultBuckets) entries) name labels =
      samplesOf entries name labels := by
  have hsound := sound_updates crate defaultBuckets entries
  rw [seriesLog_of_shows hsound.shows fun _ _ _ => hsound.represents.name_unique, h.samples]

end

/-- An agreed metric is complete: every call is recorded, and each series holds exactly
the samples with its labels, in the order of the calls. -/
theorem agreed_metric_complete (crate : PrometheusCrate) (defaultBuckets : List F64)
    (entries : List MetricEntry) (name : String) (kind : MetricType) (keys : List String)
    (h : Agreed crate defaultBuckets name kind keys entries) :
    (∀ before entry after, entries = before ++ entry :: after → entry.name = name →
      (update crate (updates crate (PromRegistry.new defaultBuckets) before) entry).1 =
        .recorded) ∧
    ∀ labels, seriesLog (updates crate (PromRegistry.new defaultBuckets) entries) name labels =
      samplesOf entries name labels := by
  refine ⟨?_, h.seriesLog⟩
  rintro before entry after rfl hname
  exact h.recorded hname

/-- Requests that are all counted with a `method`. -/
def countedRequests : List MetricEntry :=
  [requestsTotal [("method", "GET")], requestsTotal [("method", "POST")],
    requestsTotal [("method", "GET")]]

theorem countedRequests_complete :
    seriesLog (updates permissiveCrate (PromRegistry.new []) countedRequests) "requests_total"
      [("method", "GET")] = [.incBy F64.zero, .incBy F64.zero] :=
  (agreed_metric_complete permissiveCrate [] countedRequests "requests_total" .counter
    ["method"] ⟨by decide, by decide, rfl, rfl⟩).2 [("method", "GET")]

end Tonggeret.Prometheus
