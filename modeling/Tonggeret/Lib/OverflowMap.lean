import Mathlib.Data.List.Induction
import Tonggeret.Lib.SortedMap

/-!
# Accumulators by key, capped

Samples are folded into one accumulator for each key until a number of keys is held;
samples of further keys go to an overflow key, which lives in the same map and may also
be used directly.  Which accumulator a key is folded into depends on the history, but
only until its first sample.
-/

namespace Tonggeret.Lib

variable {κ α σ : Type} [LinearOrder κ]

/-- How samples are folded: the empty accumulator, its update, the key that takes the
overflow and the number of keys from which on it does. -/
structure Overflow (κ α σ : Type) where
  new : σ
  add : σ → α → σ
  other : κ
  cap : Nat

namespace Overflow

variable (o : Overflow κ α σ)

/-- The key whose accumulator takes the next sample of key `k`. -/
def bucketOf (m : SortedMap κ σ) (k : κ) : κ :=
  if m.get? k = none ∧ o.cap ≤ m.entries.length then o.other else k

def fold (m : SortedMap κ σ) (sample : κ × α) : SortedMap κ σ :=
  let bucket := o.bucketOf m sample.1
  m.insert bucket (o.add ((m.get? bucket).getD o.new) sample.2)

def foldAll (m : SortedMap κ σ) (samples : List (κ × α)) : SortedMap κ σ :=
  samples.foldl o.fold m

/-- The values, in order, of the samples whose key has this bucket. -/
def valuesOf (m : SortedMap κ σ) (samples : List (κ × α)) (bucket : κ) : List α :=
  (samples.filter fun sample => o.bucketOf m sample.1 = bucket).map Prod.snd

/-- What the map holds after the given samples. -/
structure Folded (m : SortedMap κ σ) (samples : List (κ × α)) : Prop where
  capped : (m.keys.filter (· ≠ o.other)).length ≤ o.cap
  source : ∀ k ∈ m.keys, k = o.other ∨ k ∈ samples.map Prod.fst
  settled : ∀ sample ∈ samples, o.bucketOf m sample.1 ∈ m.keys
  accumulated : ∀ bucket s, (bucket, s) ∈ m →
    s = (o.valuesOf m samples bucket).foldl o.add o.new

variable {o} {m : SortedMap κ σ} {samples : List (κ × α)}

theorem bucketOf_of_mem {k : κ} (h : k ∈ m.keys) : o.bucketOf m k = k := by
  rw [bucketOf, if_neg]
  rintro ⟨hnone, -⟩
  exact SortedMap.get?_eq_none.mp hnone h

theorem bucketOf_of_full {k : κ} (h : k ∉ m.keys) (hfull : o.cap ≤ m.entries.length) :
    o.bucketOf m k = o.other := if_pos ⟨SortedMap.get?_eq_none.mpr h, hfull⟩

/-- A key keeps its samples, or is new to a full map. -/
theorem bucketOf_cases (o : Overflow κ α σ) (m : SortedMap κ σ) (k : κ) :
    o.bucketOf m k = k ∧ (k ∈ m.keys ∨ m.entries.length < o.cap) ∨
      o.bucketOf m k = o.other ∧ k ∉ m.keys ∧ o.cap ≤ m.entries.length := by
  by_cases hk : k ∈ m.keys
  · exact Or.inl ⟨bucketOf_of_mem hk, Or.inl hk⟩
  · by_cases hfull : o.cap ≤ m.entries.length
    · exact Or.inr ⟨bucketOf_of_full hk hfull, hk, hfull⟩
    · exact Or.inl ⟨if_neg fun h => hfull h.2, Or.inr (by omega)⟩

theorem mem_keys_fold {x : κ × α} {k : κ} :
    k ∈ (o.fold m x).keys ↔ k = o.bucketOf m x.1 ∨ k ∈ m.keys :=
  SortedMap.mem_keys_insert

theorem length_le_fold (x : κ × α) : m.entries.length ≤ (o.fold m x).entries.length := by
  have hsub : m.keys.Subperm (o.fold m x).keys :=
    List.subperm_of_subset (SortedMap.nodup_keys m) fun k hk => mem_keys_fold.mpr (Or.inr hk)
  simpa using hsub.length_le

/-- A key that has a bucket keeps it. -/
theorem bucketOf_fold {k : κ} (h : o.bucketOf m k ∈ m.keys) (x : κ × α) :
    o.bucketOf (o.fold m x) k = o.bucketOf m k := by
  rcases bucketOf_cases o m k with ⟨heq, -⟩ | ⟨hother, hk, hfull⟩
  · rw [heq] at h ⊢
    exact bucketOf_of_mem (mem_keys_fold.mpr (Or.inr h))
  · rw [hother] at h ⊢
    apply bucketOf_of_full _ (hfull.trans (length_le_fold x))
    intro hmem
    rcases mem_keys_fold.mp hmem with hbucket | hmem
    · rcases bucketOf_cases o m x.1 with ⟨hx, -⟩ | ⟨hx, -⟩
      · obtain rfl : k = x.1 := hbucket.trans hx
        exact hk (by rwa [hbucket, hother])
      · exact hk (by rwa [hbucket, hx])
    · exact hk hmem

/-- So does the key of the sample just folded. -/
theorem bucketOf_fold_self (x : κ × α) :
    o.bucketOf (o.fold m x) x.1 = o.bucketOf m x.1 := by
  rcases bucketOf_cases o m x.1 with ⟨heq, -⟩ | ⟨hother, hk, hfull⟩
  · rw [heq]
    exact bucketOf_of_mem (mem_keys_fold.mpr (Or.inl heq.symm))
  · by_cases hx : x.1 = o.other
    · rw [hother, ← hx]
      exact bucketOf_of_mem (mem_keys_fold.mpr (Or.inl (by rw [hother, hx])))
    · rw [hother]
      apply bucketOf_of_full _ (hfull.trans (length_le_fold x))
      intro hmem
      rcases mem_keys_fold.mp hmem with hbucket | hmem
      · exact hx (hbucket.trans hother)
      · exact hk hmem

/-! ## One sample -/

theorem capped_fold (h : (m.keys.filter (· ≠ o.other)).length ≤ o.cap) (x : κ × α) :
    ((o.fold m x).keys.filter (· ≠ o.other)).length ≤ o.cap := by
  by_cases hmem : o.bucketOf m x.1 ∈ m.keys
  · have hperm := SortedMap.keys_insert_perm_of_mem hmem
      (o.add ((m.get? (o.bucketOf m x.1)).getD o.new) x.2)
    rw [fold, (hperm.filter _).length_eq]
    exact h
  · have hperm := SortedMap.keys_insert_perm_of_notMem hmem
      (o.add ((m.get? (o.bucketOf m x.1)).getD o.new) x.2)
    rw [fold, (hperm.filter _).length_eq]
    rcases bucketOf_cases o m x.1 with ⟨heq, hroom⟩ | ⟨hother, -⟩
    · rw [heq] at hmem ⊢
      have hlt := hroom.resolve_left hmem
      calc ((x.1 :: m.keys).filter (· ≠ o.other)).length
          ≤ (x.1 :: m.keys).length := List.length_filter_le _ _
        _ = m.entries.length + 1 := by rw [List.length_cons, SortedMap.length_keys]
        _ ≤ o.cap := hlt
    · rw [hother, List.filter_cons_of_neg (by simp)]
      exact h

theorem valuesOf_fold {x : κ × α} (hsettled : ∀ sample ∈ samples, o.bucketOf m sample.1 ∈ m.keys)
    (bucket : κ) :
    o.valuesOf (o.fold m x) (samples ++ [x]) bucket =
      o.valuesOf m samples bucket ++ if o.bucketOf m x.1 = bucket then [x.2] else [] := by
  have hold : samples.filter (fun sample => o.bucketOf (o.fold m x) sample.1 = bucket) =
      samples.filter fun sample => o.bucketOf m sample.1 = bucket := by
    apply List.filter_congr
    intro sample hsample
    rw [bucketOf_fold (hsettled sample hsample)]
  rw [valuesOf, List.filter_append, List.map_append, hold, valuesOf]
  congr 1
  rw [List.filter_singleton, bucketOf_fold_self]
  split <;> simp_all

theorem Folded.fold (h : o.Folded m samples) (x : κ × α) :
    o.Folded (o.fold m x) (samples ++ [x]) where
  capped := capped_fold h.capped x
  source := by
    intro k hk
    rw [List.map_append, List.mem_append]
    rcases mem_keys_fold.mp hk with rfl | hk
    · rcases bucketOf_cases o m x.1 with ⟨hx, -⟩ | ⟨hx, -⟩
      · exact Or.inr (Or.inr (by simp [hx]))
      · exact Or.inl hx
    · exact (h.source k hk).imp_right Or.inl
  settled := by
    intro sample hsample
    rcases List.mem_append.mp hsample with hold | hnew
    · rw [bucketOf_fold (h.settled sample hold)]
      exact mem_keys_fold.mpr (Or.inr (h.settled sample hold))
    · obtain rfl := List.mem_singleton.mp hnew
      rw [bucketOf_fold_self]
      exact mem_keys_fold.mpr (Or.inl rfl)
  accumulated := by
    intro bucket s hmem
    rw [valuesOf_fold h.settled]
    rcases SortedMap.mem_insert.mp hmem with heq | ⟨hmem, hne⟩
    · obtain ⟨rfl, rfl⟩ := Prod.mk.inj heq
      rw [if_pos rfl, List.foldl_append, List.foldl_cons, List.foldl_nil]
      congr 1
      cases hget : m.get? (o.bucketOf m x.1) with
      | some s => exact h.accumulated _ s (SortedMap.get?_eq_some.mp hget)
      | none =>
          have hnone : o.valuesOf m samples (o.bucketOf m x.1) = [] := by
            rw [valuesOf, List.map_eq_nil_iff, List.filter_eq_nil_iff]
            intro sample hsample heq
            have hkey := h.settled sample hsample
            rw [of_decide_eq_true heq] at hkey
            exact SortedMap.get?_eq_none.mp hget hkey
          rw [hnone]
          rfl
    · rw [if_neg (Ne.symm hne), List.append_nil]
      exact h.accumulated bucket s hmem

/-! ## All samples -/

theorem folded_foldAll (o : Overflow κ α σ) (samples : List (κ × α)) :
    o.Folded (o.foldAll SortedMap.empty samples) samples := by
  induction samples using List.reverseRecOn with
  | nil =>
      refine ⟨?_, ?_, ?_, ?_⟩
      · exact Nat.zero_le _
      · simp [foldAll]
      · simp
      · intro bucket s hmem
        exact absurd hmem (SortedMap.notMem_empty _)
  | append_singleton samples x ih =>
      rw [foldAll, List.foldl_append]
      exact ih.fold x

/-- The bucket of a key is settled by its first sample. -/
theorem bucketOf_foldAll {k : κ} (h : o.bucketOf m k ∈ m.keys) (more : List (κ × α)) :
    o.bucketOf (o.foldAll m more) k = o.bucketOf m k := by
  induction more generalizing m with
  | nil => rfl
  | cons x more ih =>
      have hstep := bucketOf_fold h x
      have hkey : o.bucketOf (o.fold m x) k ∈ (o.fold m x).keys := by
        rw [hstep]
        exact mem_keys_fold.mpr (Or.inr h)
      calc o.bucketOf (o.foldAll m (x :: more)) k
          = o.bucketOf (o.fold m x) k := ih hkey
        _ = o.bucketOf m k := hstep

/-- The bucket that a sample goes to is the one its key has after all samples. -/
theorem bucketOf_eq_final (o : Overflow κ α σ) (before after : List (κ × α)) (x : κ × α) :
    o.bucketOf (o.foldAll SortedMap.empty before) x.1 =
      o.bucketOf (o.foldAll SortedMap.empty (before ++ x :: after)) x.1 := by
  have hself := bucketOf_fold_self (o := o) (m := o.foldAll SortedMap.empty before) x
  have hkey : o.bucketOf (o.fold (o.foldAll SortedMap.empty before) x) x.1 ∈
      (o.fold (o.foldAll SortedMap.empty before) x).keys := by
    rw [hself]
    exact mem_keys_fold.mpr (Or.inl rfl)
  rw [foldAll, foldAll, List.foldl_append, List.foldl_cons]
  exact (bucketOf_foldAll hkey after).trans hself |>.symm

end Overflow

end Tonggeret.Lib
