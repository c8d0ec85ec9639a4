import Mathlib.Data.List.Dedup
import Tonggeret.Visitors.Buckets

/-!
# The two visitor series

Totals are counted under the region of the call, uniques under its bucket.  The two are
the same label unless the region overflows, so the series agree on every label but
`other`, and on that as long as no sample overflows.
-/

namespace Tonggeret.Visitors

open Tonggeret.Lib

variable (hashKey : String → UInt64) (maxRegions : UInt64)

/-- The records counted under the region: while the engine records, the value of
`visitors_total{region="..."}`. -/
def visitsCounted (visits : List Visit) (region : String) : Nat :=
  (countedAll hashKey (VisitorsTracker.new maxRegions) visits).count
    ⟨visitorsTotal, ⟨0x3ff0000000000000⟩, [("region", region)]⟩

/-- The sketch exported as `unique_visitors_estimate{region="..."}` is the fold of no
more distinct keys than visits are counted under the region. -/
def SeriesAgree (visits : List Visit) (region : String) : Prop :=
  let tracker := trackerAfter hashKey maxRegions visits
  ∀ sketch, (region, sketch) ∈ tracker.inner →
    sketch = foldKeys hashKey (keysFolded tracker.inner.keys visits region) ∧
      (keysFolded tracker.inner.keys visits region).dedup.length ≤
        visitsCounted hashKey maxRegions visits region

/-- Every sketch is exported, under its key. -/
theorem mem_snapshot {estimate : Hll → F64} {tracker : VisitorsTracker} {exported : Record} :
    exported ∈ (snapshot estimate tracker).2 ↔
      ∃ region sketch, (region, sketch) ∈ tracker.inner ∧
        exported = ⟨uniqueVisitorsEstimate, estimate sketch, [("region", region)]⟩ := by
  rw [snapshot, List.mem_map]
  constructor
  · rintro ⟨⟨region, sketch⟩, hmem, rfl⟩
    exact ⟨region, sketch, hmem, rfl⟩
  · rintro ⟨region, sketch, hmem, rfl⟩
    exact ⟨(region, sketch), hmem, rfl⟩

/-- The region of the call has a sketch of its own, or gets one, or is `other`; or the
call does not get the lock. -/
def Fits (tracker : VisitorsTracker) (visit : Visit) : Prop :=
  visit.contended = true ∨ normalizeRegion visit.region = regionOther ∨
    normalizeRegion visit.region ∈ tracker.inner.keys ∨
    tracker.inner.entries.length < tracker.maxRegions

/-- Every call of the run fits where it is made. -/
def AllFit (visits : List Visit) : Prop :=
  ∀ before visit after, visits = before ++ visit :: after →
    Fits (trackerAfter hashKey maxRegions before) visit

variable {hashKey maxRegions} {visits : List Visit}

/-- A visit is counted under its own region, with or without the lock. -/
theorem countedAll_eq (tracker : VisitorsTracker) :
    countedAll hashKey tracker visits =
      visits.map fun visit =>
        ⟨visitorsTotal, ⟨0x3ff0000000000000⟩, [("region", normalizeRegion visit.region)]⟩ := by
  induction visits generalizing tracker with
  | nil => rfl
  | cons visit visits ih => rw [countedAll, ih, List.map_cons, observe_eq]

theorem visitsCounted_eq (region : String) :
    visitsCounted hashKey maxRegions visits region =
      visits.countP fun visit => normalizeRegion visit.region = region := by
  rw [visitsCounted, countedAll_eq, List.count, List.countP_map]
  apply List.countP_congr
  intro visit _
  simp

/-- The samples of a region are among its visits. -/
theorem length_samples_le (region : String) :
    ((samples visits).filter fun sample => sample.1 = region).length ≤
      visitsCounted hashKey maxRegions visits region := by
  rw [visitsCounted_eq, ← List.countP_eq_length_filter, samples, List.countP_map,
    List.countP_filter]
  apply List.countP_mono_left
  intro visit _ h
  rw [Bool.and_eq_true] at h
  exact h.1

/-- A label agrees if only samples of that region belong to its sketch. -/
theorem seriesAgree_of_own {region : String}
    (hown : ∀ sample ∈ samples visits,
      BelongsTo (trackerAfter hashKey maxRegions visits).inner.keys sample.1 region →
        sample.1 = region) :
    SeriesAgree hashKey maxRegions visits region := by
  intro sketch hsketch
  refine ⟨sketch_eq hsketch, ?_⟩
  generalize (trackerAfter hashKey maxRegions visits).inner.keys = keys at hown
  have hsub : (keysFolded keys visits region).length ≤
      ((samples visits).filter fun sample => sample.1 = region).length := by
    rw [keysFolded, List.length_map, ← List.countP_eq_length_filter,
      ← List.countP_eq_length_filter]
    apply List.countP_mono_left
    intro sample hsample h
    simpa using hown sample hsample (by simpa using h)
  calc (keysFolded keys visits region).dedup.length
      ≤ (keysFolded keys visits region).length := (List.dedup_sublist _).length_le
    _ ≤ ((samples visits).filter fun sample => sample.1 = region).length := hsub
    _ ≤ visitsCounted hashKey maxRegions visits region := length_samples_le region

theorem seriesAgree_of_ne_other {region : String} (hne : region ≠ regionOther) :
    SeriesAgree hashKey maxRegions visits region := by
  apply seriesAgree_of_own
  intro sample _ hbelongs
  rwa [BelongsTo, if_neg hne] at hbelongs

/-- A call that fits goes to the bucket of its own region. -/
theorem bucketOf_of_fits {tracker : VisitorsTracker} {visit : Visit}
    (hfree : visit.contended = false) (h : Fits tracker visit) :
    bucketOf tracker (normalizeRegion visit.region) = normalizeRegion visit.region := by
  rw [bucketOf]
  rcases h with h | h | h | h
  · rw [hfree] at h
    contradiction
  · rw [h]
    split <;> rfl
  · rw [if_neg]
    rintro ⟨hnone, -⟩
    exact SortedMap.get?_eq_none.mp hnone h
  · rw [if_neg]
    rintro ⟨-, hfull⟩
    omega

/-- A call that does not fit goes to `other`. -/
theorem bucketOf_of_not_fits {tracker : VisitorsTracker} {visit : Visit}
    (h : ¬ Fits tracker visit) :
    visit.contended = false ∧ normalizeRegion visit.region ≠ regionOther ∧
      bucketOf tracker (normalizeRegion visit.region) = regionOther := by
  simp only [Fits, not_or, Bool.not_eq_true, not_lt] at h
  obtain ⟨hfree, hne, hnew, hfull⟩ := h
  exact ⟨hfree, hne, if_pos ⟨SortedMap.get?_eq_none.mpr hnew, hfull⟩⟩

theorem seriesAgree_of_allFit (hfit : AllFit hashKey maxRegions visits) (region : String) :
    SeriesAgree hashKey maxRegions visits region := by
  have hfolded := folded_trackerAfter hashKey maxRegions visits
  by_cases hregion : region ∈ (trackerAfter hashKey maxRegions visits).inner.keys
  · apply seriesAgree_of_own
    intro sample hsample hbelongs
    obtain ⟨visit, hvisit, hfree, hsampleRegion, -⟩ := mem_samples.mp hsample
    obtain ⟨before, after, rfl⟩ := List.append_of_mem hvisit
    have hsettled := hfolded.settled sample hsample
    rw [← bucketOf_trackerAfter] at hsettled
    have hbucket := (belongsTo_iff hsettled hregion).mp hbelongs
    have hfits := bucketOf_of_fits hfree (hfit before visit after rfl)
    rw [bucketOf_eq_final before after hfree, ← hsampleRegion, hbucket] at hfits
    exact hfits.symm
  · intro sketch hsketch
    exact absurd (SortedMap.mem_keys.mpr ⟨sketch, hsketch⟩) hregion

/-- Without visits that name `other`, an overflowing sample is counted nowhere under it. -/
theorem allFit_of_seriesAgree
    (hnone : ∀ visit ∈ visits, normalizeRegion visit.region ≠ regionOther)
    (hagree : SeriesAgree hashKey maxRegions visits regionOther) :
    AllFit hashKey maxRegions visits := by
  intro before visit after hvisits
  by_contra hnot
  obtain ⟨hfree, -, hbucket⟩ := bucketOf_of_not_fits hnot
  subst hvisits
  rw [bucketOf_eq_final before after hfree] at hbucket
  have hsample : (normalizeRegion visit.region, visit.visitorKey) ∈
      samples (before ++ visit :: after) :=
    mem_samples.mpr ⟨visit, by simp, hfree, rfl, rfl⟩
  have hsettled := (folded_trackerAfter hashKey maxRegions _).settled _ hsample
  rw [← bucketOf_trackerAfter] at hsettled
  have hother : regionOther ∈
      (trackerAfter hashKey maxRegions (before ++ visit :: after)).inner.keys := by
    rw [← hbucket]
    exact hsettled
  have hbelongs := (belongsTo_iff hsettled hother).mpr hbucket
  obtain ⟨sketch, hsketch⟩ := SortedMap.mem_keys.mp hother
  have hle := (hagree sketch hsketch).2
  have hzero : visitsCounted hashKey maxRegions (before ++ visit :: after) regionOther = 0 := by
    rw [visitsCounted_eq, List.countP_eq_zero]
    intro v hv
    simpa using hnone v hv
  have hkey : visit.visitorKey ∈ (keysFolded
      (trackerAfter hashKey maxRegions (before ++ visit :: after)).inner.keys
        (before ++ visit :: after) regionOther).dedup := by
    rw [List.mem_dedup, keysFolded]
    exact List.mem_map_of_mem (f := Prod.snd)
      (List.mem_filter.mpr ⟨hsample, by simpa using hbelongs⟩)
  have hpos := List.length_pos_of_mem hkey
  omega

/-- The two series agree on every label but `other`; on that too in every run in which no
call overflows, and in no other run if no call names it. -/
theorem series_agree (hashKey : String → UInt64) (maxRegions : UInt64) (visits : List Visit) :
    (∀ region, region ≠ regionOther → SeriesAgree hashKey maxRegions visits region) ∧
    (AllFit hashKey maxRegions visits →
      ∀ region, SeriesAgree hashKey maxRegions visits region) ∧
    ((∀ visit ∈ visits, normalizeRegion visit.region ≠ regionOther) →
      (∀ region, SeriesAgree hashKey maxRegions visits region) →
        AllFit hashKey maxRegions visits) := by
  refine ⟨?_, ?_, ?_⟩
  · intro region hne
    exact seriesAgree_of_ne_other hne
  · intro hfit region
    exact seriesAgree_of_allFit hfit region
  · intro hnone hagree
    exact allFit_of_seriesAgree hnone (hagree regionOther)

/-- With room for one region the second is counted as its own visit and estimated under
`other`, where no visit is counted. -/
theorem overflow_not_counted :
    ¬ SeriesAgree (fun _ => 0) 1 [⟨"a", "AA", false⟩, ⟨"b", "BB", false⟩] regionOther := by
  intro hagree
  have hother : regionOther ∈ (trackerAfter (fun _ => 0) 1
      [⟨"a", "AA", false⟩, ⟨"b", "BB", false⟩]).inner.keys := by
    decide +kernel
  obtain ⟨sketch, hsketch⟩ := SortedMap.mem_keys.mp hother
  exact absurd (hagree sketch hsketch).2 (by decide +kernel)

end Tonggeret.Visitors
