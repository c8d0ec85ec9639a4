import Tonggeret.Visitors.Sketch

/-!
# Region buckets

The sketches are the unique samples folded by bucket, and a region's bucket is settled
by its first sample: its own if the map had room then, else that of `other`, which also
takes the samples that name it.
-/

namespace Tonggeret.Visitors

open Tonggeret.Lib

variable (hashKey : String → UInt64) (maxRegions : UInt64) (visits : List Visit)

/-- The tracker after the calls on a new one. -/
def trackerAfter : VisitorsTracker := observeAll hashKey (VisitorsTracker.new maxRegions) visits

/-- The sketch of the hashes of the visitor keys. -/
def foldKeys (visitorKeys : List String) : Hll :=
  Hll.new.addHashes (visitorKeys.map hashKey)

/-- The sample of a region belongs to the sketch of a key of the map. -/
def BelongsTo (keys : List String) (region key : String) : Prop :=
  if key = regionOther then region = regionOther ∨ region ∉ keys else region = key

instance (keys : List String) (region key : String) : Decidable (BelongsTo keys region key) := by
  unfold BelongsTo
  infer_instance

/-- The visitor keys of the samples that belong to the sketch of a key. -/
def keysFolded (keys : List String) (visits : List Visit) (key : String) : List String :=
  ((samples visits).filter fun sample => BelongsTo keys sample.1 key).map Prod.snd

/-- The folding of the samples into the tracker's sketches. -/
abbrev foldingOf : Overflow String String Hll :=
  overflow hashKey (VisitorsTracker.new maxRegions).maxRegions

theorem inner_trackerAfter :
    (trackerAfter hashKey maxRegions visits).inner =
      (foldingOf hashKey maxRegions).foldAll SortedMap.empty (samples visits) := by
  rw [trackerAfter, observeAll_eq]
  rfl

theorem maxRegions_trackerAfter :
    (trackerAfter hashKey maxRegions visits).maxRegions =
      (foldingOf hashKey maxRegions).cap := by
  rw [trackerAfter, observeAll_eq]
  rfl

theorem other_foldingOf : (foldingOf hashKey maxRegions).other = regionOther := rfl

theorem folded_trackerAfter :
    (foldingOf hashKey maxRegions).Folded (trackerAfter hashKey maxRegions visits).inner
      (samples visits) := by
  rw [inner_trackerAfter]
  exact Overflow.folded_foldAll _ _

theorem bucketOf_trackerAfter (region : String) :
    bucketOf (trackerAfter hashKey maxRegions visits) region =
      (foldingOf hashKey maxRegions).bucketOf (trackerAfter hashKey maxRegions visits).inner
        region := by
  rw [bucketOf, Overflow.bucketOf, maxRegions_trackerAfter, other_foldingOf]

theorem samples_append (l r : List Visit) : samples (l ++ r) = samples l ++ samples r := by
  rw [samples, List.filter_append, List.map_append, samples, samples]

theorem samples_cons {visit : Visit} (h : visit.contended = false) (rest : List Visit) :
    samples (visit :: rest) =
      (normalizeRegion visit.region, visit.visitorKey) :: samples rest := by
  rw [samples, List.filter_cons_of_pos (by simp [h]), List.map_cons, samples]

variable {hashKey maxRegions visits}

theorem mem_samples {sample : String × String} :
    sample ∈ samples visits ↔ ∃ visit ∈ visits, visit.contended = false ∧
      sample.1 = normalizeRegion visit.region ∧ sample.2 = visit.visitorKey := by
  rw [samples, List.mem_map]
  constructor
  · rintro ⟨visit, hvisit, rfl⟩
    obtain ⟨hmem, hfree⟩ := List.mem_filter.mp hvisit
    exact ⟨visit, hmem, by simpa using hfree, rfl, rfl⟩
  · rintro ⟨visit, hmem, hfree, hregion, hkey⟩
    exact ⟨visit, List.mem_filter.mpr ⟨hmem, by simp [hfree]⟩, Prod.ext hregion.symm hkey.symm⟩

/-- A sample belongs to the sketch of its bucket, and to no other. -/
theorem belongsTo_iff {region key : String}
    (hsettled : bucketOf (trackerAfter hashKey maxRegions visits) region ∈
      (trackerAfter hashKey maxRegions visits).inner.keys)
    (hkey : key ∈ (trackerAfter hashKey maxRegions visits).inner.keys) :
    BelongsTo (trackerAfter hashKey maxRegions visits).inner.keys region key ↔
      bucketOf (trackerAfter hashKey maxRegions visits) region = key := by
  rw [bucketOf_trackerAfter] at hsettled ⊢
  generalize (trackerAfter hashKey maxRegions visits).inner = map at *
  rw [BelongsTo]
  rcases Overflow.bucketOf_cases (foldingOf hashKey maxRegions) map region with
    ⟨hown, -⟩ | ⟨hoverflow, hnew, -⟩
  · rw [hown] at hsettled ⊢
    split
    · rename_i heq
      rw [heq]
      exact ⟨fun h => h.resolve_right fun hnew => hnew hsettled, Or.inl⟩
    · exact Iff.rfl
  · rw [hoverflow, other_foldingOf]
    split
    · rename_i heq
      exact ⟨fun _ => heq.symm, fun _ => Or.inr hnew⟩
    · rename_i hne
      constructor
      · rintro rfl
        exact absurd hkey hnew
      · exact fun h => absurd h.symm hne

/-- Adding visitor keys is adding their hashes. -/
theorem foldl_add (visitorKeys : List String) :
    visitorKeys.foldl (Hll.add hashKey) Hll.new = foldKeys hashKey visitorKeys := by
  rw [foldKeys, Hll.addHashes, List.foldl_map]
  rfl

/-- A register holds the greatest rank of the keys that have it. -/
theorem register_foldKeys (visitorKeys : List String) (i : Fin 4096) :
    (foldKeys hashKey visitorKeys).register i =
      ((visitorKeys.map hashKey).toFinset.filter fun hash => Hll.topBits hash = i).sup
        Hll.rank :=
  Hll.register_addHashes_new (visitorKeys.map hashKey) i

/-- The sketch under a key is the fold of what belongs to it. -/
theorem sketch_eq {key : String} {sketch : Hll}
    (h : (key, sketch) ∈ (trackerAfter hashKey maxRegions visits).inner) :
    sketch = foldKeys hashKey
      (keysFolded (trackerAfter hashKey maxRegions visits).inner.keys visits key) := by
  have hfolded := folded_trackerAfter hashKey maxRegions visits
  have hkey := SortedMap.mem_keys.mpr ⟨sketch, h⟩
  have hsame : keysFolded (trackerAfter hashKey maxRegions visits).inner.keys visits key =
      (foldingOf hashKey maxRegions).valuesOf (trackerAfter hashKey maxRegions visits).inner
        (samples visits) key := by
    rw [keysFolded, Overflow.valuesOf]
    congr 1
    apply List.filter_congr
    intro sample hsample
    have hsettled := hfolded.settled sample hsample
    rw [← bucketOf_trackerAfter] at hsettled ⊢
    rw [decide_eq_decide]
    exact belongsTo_iff hsettled hkey
  rw [hsame, ← foldl_add]
  exact hfolded.accumulated key sketch h

theorem length_le_filter_ne {keys : List String} (hnodup : keys.Nodup) (key : String) :
    keys.length ≤ (keys.filter (· ≠ key)).length + 1 := by
  have hcount := List.nodup_iff_count_le_one.mp hnodup key
  have hsplit := List.length_eq_countP_add_countP (fun other => other ≠ key) (l := keys)
  rw [← List.countP_eq_length_filter, hsplit]
  have hrest : keys.countP (fun other => ¬ decide (other ≠ key) = true) = keys.count key := by
    rw [List.count]
    apply List.countP_congr
    intro other _
    simp
  omega

/-- A successful sample goes to the bucket its region has in the end. -/
theorem bucketOf_eq_final (before after : List Visit) {visit : Visit}
    (hfree : visit.contended = false) :
    bucketOf (trackerAfter hashKey maxRegions before) (normalizeRegion visit.region) =
      bucketOf (trackerAfter hashKey maxRegions (before ++ visit :: after))
        (normalizeRegion visit.region) := by
  have hfinal := Overflow.bucketOf_eq_final (foldingOf hashKey maxRegions) (samples before)
    (samples after) (normalizeRegion visit.region, visit.visitorKey)
  dsimp only at hfinal
  rw [← samples_cons hfree, ← samples_append, ← inner_trackerAfter, ← inner_trackerAfter,
    ← bucketOf_trackerAfter, ← bucketOf_trackerAfter] at hfinal
  exact hfinal

/-- Region buckets are stable, capped and lossless: a sketch is that of the hashes of the
keys of its samples, each of its registers at the greatest rank among them. -/
theorem region_buckets (hashKey : String → UInt64) (maxRegions : UInt64)
    (visits : List Visit) :
    let keys := (trackerAfter hashKey maxRegions visits).inner.keys
    (∀ key ∈ keys, IsRegion key) ∧
    (keys.filter (· ≠ regionOther)).length ≤ max 1 (min maxRegions.toNat 4096) ∧
    keys.length ≤ max 1 (min maxRegions.toNat 4096) + 1 ∧
    (∀ before first between second after,
      visits = before ++ first :: (between ++ second :: after) →
      first.contended = false → second.contended = false →
      normalizeRegion first.region = normalizeRegion second.region →
        bucketOf (trackerAfter hashKey maxRegions before) (normalizeRegion first.region) =
          bucketOf (trackerAfter hashKey maxRegions (before ++ first :: between))
            (normalizeRegion second.region)) ∧
    (∀ key sketch, (key, sketch) ∈ (trackerAfter hashKey maxRegions visits).inner →
      let hashes := (keysFolded keys visits key).map hashKey
      sketch = Hll.new.addHashes hashes ∧
        ∀ i, sketch.register i =
          (hashes.toFinset.filter fun hash => Hll.topBits hash = i).sup Hll.rank) ∧
    ∀ sample ∈ samples visits, ∃! key, key ∈ keys ∧ BelongsTo keys sample.1 key := by
  have hfolded := folded_trackerAfter hashKey maxRegions visits
  refine ⟨?_, hfolded.capped, ?_, ?_, ?_, ?_⟩
  · intro key hkey
    rcases hfolded.source key hkey with hother | hsample
    · exact Or.inr (Or.inr hother)
    · obtain ⟨sample, hmem, rfl⟩ := List.mem_map.mp hsample
      obtain ⟨visit, -, -, hregion, -⟩ := mem_samples.mp hmem
      rw [hregion]
      exact isRegion_normalizeRegion visit.region
  · have hlength := length_le_filter_ne (SortedMap.nodup_keys
      (trackerAfter hashKey maxRegions visits).inner) regionOther
    exact hlength.trans (Nat.add_le_add_right hfolded.capped 1)
  · intro before first between second after hvisits hfirst hsecond hregion
    have hone : bucketOf (trackerAfter hashKey maxRegions before)
        (normalizeRegion first.region) =
          bucketOf (trackerAfter hashKey maxRegions (before ++ first :: between))
            (normalizeRegion first.region) :=
      bucketOf_eq_final before between hfirst
    rw [hone, hregion]
  · intro key sketch h
    have hsketch := sketch_eq h
    refine ⟨hsketch, fun i => ?_⟩
    rw [hsketch]
    exact register_foldKeys _ i
  · intro sample hsample
    have hsettled := hfolded.settled sample hsample
    rw [← bucketOf_trackerAfter] at hsettled
    refine ⟨_, ⟨hsettled, (belongsTo_iff hsettled hsettled).mpr rfl⟩, ?_⟩
    rintro key ⟨hkey, hbelongs⟩
    exact ((belongsTo_iff hsettled hkey).mp hbelongs).symm

end Tonggeret.Visitors
