import Mathlib.Data.List.Sort
import Mathlib.Order.Basic

/-!
# Ordered maps

A finite map kept as an association list with strictly increasing keys, as an
ordered store iterates it.  The order is part of the type, so a key has at most
one value and the content determines the representation.
-/

namespace Tonggeret.Lib

/-- A finite map stored in increasing key order. -/
structure SortedMap (κ ν : Type) [LinearOrder κ] where
  entries : List (κ × ν)
  sorted : entries.Pairwise fun a b => a.1 < b.1

namespace SortedMap

variable {κ ν : Type} [LinearOrder κ]

instance : Membership (κ × ν) (SortedMap κ ν) where
  mem m entry := entry ∈ m.entries

theorem mem_entries {m : SortedMap κ ν} {entry : κ × ν} :
    entry ∈ m.entries ↔ entry ∈ m := Iff.rfl

def empty : SortedMap κ ν := ⟨[], List.Pairwise.nil⟩

/-- Remove the value stored under `k`, if any. -/
def erase (m : SortedMap κ ν) (k : κ) : SortedMap κ ν where
  entries := m.entries.filter fun entry => entry.1 ≠ k
  sorted := m.sorted.filter _

/-- Store `v` under `k`, replacing an earlier value. -/
def insert (m : SortedMap κ ν) (k : κ) (v : ν) : SortedMap κ ν where
  entries := m.entries.filter (fun entry => entry.1 < k) ++
    (k, v) :: m.entries.filter fun entry => k < entry.1
  sorted := by
    rw [List.pairwise_append, List.pairwise_cons]
    refine ⟨m.sorted.filter _, ⟨?_, m.sorted.filter _⟩, ?_⟩
    · intro entry hentry
      simpa using (List.mem_filter.mp hentry).2
    · intro a ha b hb
      have hak : a.1 < k := by simpa using (List.mem_filter.mp ha).2
      rcases List.mem_cons.mp hb with rfl | hb
      · exact hak
      · have hkb : k < b.1 := by simpa using (List.mem_filter.mp hb).2
        exact hak.trans hkb

/-- Store several entries, the first one first. -/
def insertAll (m : SortedMap κ ν) (l : List (κ × ν)) : SortedMap κ ν :=
  l.foldl (fun m entry => m.insert entry.1 entry.2) m

/-- The value stored under `k`. -/
def get? (m : SortedMap κ ν) (k : κ) : Option ν :=
  (m.entries.find? fun entry => entry.1 = k).map Prod.snd

/-- The entries below `bound`, in increasing key order: `range(..bound)`. -/
def below (m : SortedMap κ ν) (bound : κ) : List (κ × ν) :=
  m.entries.filter fun entry => entry.1 < bound

/-- The entries that satisfy `keep`. -/
def filter (m : SortedMap κ ν) (keep : κ × ν → Bool) : SortedMap κ ν where
  entries := m.entries.filter keep
  sorted := m.sorted.filter _

/-! ## Content -/

theorem nodup_keys (m : SortedMap κ ν) : (m.entries.map Prod.fst).Nodup := by
  rw [List.Nodup, List.pairwise_map]
  exact m.sorted.imp fun h => h.ne

theorem value_unique {m : SortedMap κ ν} {k : κ} {v w : ν}
    (hv : (k, v) ∈ m) (hw : (k, w) ∈ m) : v = w := by
  have heq : ((k, v) : κ × ν) = (k, w) :=
    List.inj_on_of_nodup_map m.nodup_keys hv hw rfl
  exact congrArg Prod.snd heq

@[simp] theorem notMem_empty (entry : κ × ν) : entry ∉ (empty : SortedMap κ ν) := by
  simp [← mem_entries, empty]

theorem mem_erase {m : SortedMap κ ν} {k : κ} {entry : κ × ν} :
    entry ∈ m.erase k ↔ entry ∈ m ∧ entry.1 ≠ k := by
  simp [← mem_entries, erase]

theorem mem_insert {m : SortedMap κ ν} {k : κ} {v : ν} {entry : κ × ν} :
    entry ∈ m.insert k v ↔ entry = (k, v) ∨ entry ∈ m ∧ entry.1 ≠ k := by
  simp only [← mem_entries, insert, List.mem_append, List.mem_cons, List.mem_filter,
    decide_eq_true_eq]
  constructor
  · rintro (⟨hmem, hlt⟩ | rfl | ⟨hmem, hlt⟩)
    · exact Or.inr ⟨hmem, hlt.ne⟩
    · exact Or.inl rfl
    · exact Or.inr ⟨hmem, hlt.ne'⟩
  · rintro (rfl | ⟨hmem, hne⟩)
    · exact Or.inr (Or.inl rfl)
    · rcases lt_or_gt_of_ne hne with hlt | hgt
      · exact Or.inl ⟨hmem, hlt⟩
      · exact Or.inr (Or.inr ⟨hmem, hgt⟩)

theorem mem_below {m : SortedMap κ ν} {bound : κ} {entry : κ × ν} :
    entry ∈ m.below bound ↔ entry ∈ m ∧ entry.1 < bound := by
  simp [← mem_entries, below]

theorem mem_filter {m : SortedMap κ ν} {keep : κ × ν → Bool} {entry : κ × ν} :
    entry ∈ m.filter keep ↔ entry ∈ m ∧ keep entry = true := by
  simp [← mem_entries, filter]

theorem mem_or_mem_of_mem_insertAll {m : SortedMap κ ν} {l : List (κ × ν)} {entry : κ × ν}
    (h : entry ∈ m.insertAll l) : entry ∈ m ∨ entry ∈ l := by
  induction l generalizing m with
  | nil => exact Or.inl h
  | cons row l ih =>
      rcases ih h with hmem | hmem
      · rcases mem_insert.mp hmem with rfl | hold
        · exact Or.inr List.mem_cons_self
        · exact Or.inl hold.1
      · exact Or.inr (List.mem_cons_of_mem row hmem)

theorem mem_insertAll_of_untouched {m : SortedMap κ ν} {l : List (κ × ν)} {entry : κ × ν}
    (h : entry.1 ∉ l.map Prod.fst) : entry ∈ m.insertAll l ↔ entry ∈ m := by
  induction l generalizing m with
  | nil => exact Iff.rfl
  | cons row l ih =>
      rw [List.map_cons, List.mem_cons, not_or] at h
      have hrow : entry ≠ row := fun heq => h.1 (congrArg Prod.fst heq)
      change entry ∈ (m.insert row.1 row.2).insertAll l ↔ _
      rw [ih h.2, mem_insert]
      simp [hrow, h.1]

/-- Entries inserted under distinct keys are all kept. -/
theorem mem_insertAll_of_nodup {m : SortedMap κ ν} {l : List (κ × ν)}
    (hnodup : (l.map Prod.fst).Nodup) {entry : κ × ν} :
    entry ∈ m.insertAll l ↔ entry ∈ l ∨ entry ∈ m ∧ entry.1 ∉ l.map Prod.fst := by
  induction l generalizing m with
  | nil => simp [insertAll]
  | cons row l ih =>
      rw [List.map_cons, List.nodup_cons] at hnodup
      have hrow : ∀ other ∈ l, other.1 ≠ row.1 := by
        intro other hother heq
        exact hnodup.1 (heq ▸ List.mem_map_of_mem hother)
      change entry ∈ (m.insert row.1 row.2).insertAll l ↔ _
      rw [ih hnodup.2, mem_insert, List.map_cons, List.mem_cons, List.mem_cons]
      constructor
      · rintro (hmem | ⟨rfl | ⟨hmem, hne⟩, hfresh⟩)
        · exact Or.inl (Or.inr hmem)
        · exact Or.inl (Or.inl rfl)
        · exact Or.inr ⟨hmem, by simp [hne, hfresh]⟩
      · rintro ((rfl | hmem) | ⟨hmem, hfresh⟩)
        · exact Or.inr ⟨Or.inl rfl, hnodup.1⟩
        · exact Or.inl hmem
        · rw [not_or] at hfresh
          exact Or.inr ⟨Or.inr ⟨hmem, hfresh.1⟩, hfresh.2⟩

theorem nodup_entries (m : SortedMap κ ν) : m.entries.Nodup := m.nodup_keys.of_map Prod.fst

/-- A map built from entries with distinct keys is those entries, sorted. -/
theorem perm_insertAll_empty {l : List (κ × ν)} (hnodup : (l.map Prod.fst).Nodup) :
    (empty.insertAll l).entries.Perm l := by
  rw [List.perm_ext_iff_of_nodup (nodup_entries _) (hnodup.of_map Prod.fst)]
  intro entry
  rw [mem_entries, mem_insertAll_of_nodup hnodup]
  simp

/-- Inserted under new distinct keys, the entries are added to those of the map. -/
theorem perm_insertAll {m : SortedMap κ ν} {l : List (κ × ν)}
    (hnodup : ((m.entries ++ l).map Prod.fst).Nodup) :
    (m.insertAll l).entries.Perm (m.entries ++ l) := by
  rw [List.perm_ext_iff_of_nodup (nodup_entries _) (hnodup.of_map Prod.fst)]
  intro entry
  rw [List.map_append] at hnodup
  rw [mem_entries, mem_insertAll_of_nodup (List.Nodup.of_append_right hnodup), List.mem_append,
    mem_entries]
  constructor
  · rintro (hnew | ⟨hold, -⟩)
    · exact Or.inr hnew
    · exact Or.inl hold
  · rintro (hold | hnew)
    · exact Or.inr ⟨hold, fun hmem =>
        List.disjoint_of_nodup_append hnodup (List.mem_map_of_mem hold) hmem⟩
    · exact Or.inl hnew

/-- An insertion does not depend on what was removed under other keys. -/
theorem insertAll_congr {m m' : SortedMap κ ν} {entry : κ × ν} {l : List (κ × ν)}
    (h : entry ∈ m ↔ entry ∈ m') : entry ∈ m.insertAll l ↔ entry ∈ m'.insertAll l := by
  induction l generalizing m m' with
  | nil => exact h
  | cons row l ih =>
      apply ih
      rw [mem_insert, mem_insert, h]

/-- What stands under an inserted key does not depend on the map. -/
theorem mem_insertAll_of_touched {m m' : SortedMap κ ν} {l : List (κ × ν)} {entry : κ × ν}
    (h : entry.1 ∈ l.map Prod.fst) : entry ∈ m.insertAll l ↔ entry ∈ m'.insertAll l := by
  induction l generalizing m m' with
  | nil => contradiction
  | cons row l ih =>
      change entry ∈ (m.insert row.1 row.2).insertAll l ↔
        entry ∈ (m'.insert row.1 row.2).insertAll l
      by_cases hlater : entry.1 ∈ l.map Prod.fst
      · exact ih hlater
      · have hkey : entry.1 = row.1 := by simpa [hlater] using h
        apply insertAll_congr
        rw [mem_insert, mem_insert]
        simp [hkey]

/-- Two maps with the same content are the same map. -/
theorem ext_mem {m₁ m₂ : SortedMap κ ν} (h : ∀ entry, entry ∈ m₁ ↔ entry ∈ m₂) :
    m₁ = m₂ := by
  have hperm : m₁.entries.Perm m₂.entries :=
    (List.perm_ext_iff_of_nodup m₁.nodup_entries m₂.nodup_entries).mpr h
  have hentries : m₁.entries = m₂.entries :=
    hperm.eq_of_pairwise (fun a b _ _ hab hba => absurd hab hba.not_gt)
      m₁.sorted m₂.sorted
  cases m₁
  cases m₂
  simpa using hentries

theorem get?_eq_some {m : SortedMap κ ν} {k : κ} {v : ν} :
    m.get? k = some v ↔ (k, v) ∈ m := by
  rw [get?, Option.map_eq_some_iff]
  constructor
  · rintro ⟨⟨k', v'⟩, hfind, rfl⟩
    have hk : k' = k := by simpa using List.find?_some hfind
    rw [← hk]
    exact List.mem_of_find?_eq_some hfind
  · intro hmem
    cases hfind : m.entries.find? fun entry => entry.1 = k with
    | none =>
        have hnone := List.find?_eq_none.mp hfind (k, v) hmem
        simp at hnone
    | some entry =>
        obtain ⟨k', v'⟩ := entry
        have hk : k' = k := by simpa using List.find?_some hfind
        subst hk
        exact ⟨(k', v'), rfl, value_unique (List.mem_of_find?_eq_some hfind) hmem⟩

/-- The association-list reading of the entries. -/
theorem lookup_entries (m : SortedMap κ ν) (k : κ) : m.entries.lookup k = m.get? k := by
  rw [get?]
  induction m.entries with
  | nil => rfl
  | cons entry entries ih =>
      obtain ⟨k', v⟩ := entry
      by_cases hk : k' = k
      · subst hk
        simp
      · have hbeq : (k == k') = false := beq_false_of_ne fun h => hk h.symm
        rw [List.lookup_cons, hbeq, List.find?_cons_of_neg (by simpa using hk)]
        exact ih

/-! ## Keys -/

def keys (m : SortedMap κ ν) : List κ := m.entries.map Prod.fst

theorem get?_eq_none {m : SortedMap κ ν} {k : κ} : m.get? k = none ↔ k ∉ m.keys := by
  rw [get?, Option.map_eq_none_iff, List.find?_eq_none]
  constructor
  · intro hnone hmem
    obtain ⟨entry, hentry, rfl⟩ := List.mem_map.mp hmem
    exact hnone entry hentry (by simp)
  · intro hfresh entry hentry heq
    have hk : entry.1 = k := by simpa using heq
    exact hfresh (hk ▸ List.mem_map_of_mem hentry)

theorem get?_insert {m : SortedMap κ ν} {k k' : κ} {v : ν} :
    (m.insert k v).get? k' = if k' = k then some v else m.get? k' := by
  ext w
  rw [get?_eq_some, mem_insert, Prod.mk.injEq]
  by_cases hk : k' = k
  · simp [hk, eq_comm]
  · rw [if_neg hk, get?_eq_some]
    simp [hk]

theorem mem_keys {m : SortedMap κ ν} {k : κ} : k ∈ m.keys ↔ ∃ v, (k, v) ∈ m := by
  constructor
  · intro hmem
    obtain ⟨⟨k', v⟩, hentry, rfl⟩ := List.mem_map.mp hmem
    exact ⟨v, hentry⟩
  · rintro ⟨v, hentry⟩
    exact List.mem_map_of_mem (f := Prod.fst) (mem_entries.mpr hentry)

@[simp] theorem keys_empty : (empty : SortedMap κ ν).keys = [] := rfl

@[simp] theorem length_keys (m : SortedMap κ ν) : m.keys.length = m.entries.length :=
  List.length_map _

theorem mem_keys_insert {m : SortedMap κ ν} {k k' : κ} {v : ν} :
    k' ∈ (m.insert k v).keys ↔ k' = k ∨ k' ∈ m.keys := by
  simp only [mem_keys, mem_insert, Prod.mk.injEq]
  constructor
  · rintro ⟨w, ⟨rfl, -⟩ | ⟨hmem, -⟩⟩
    · exact Or.inl rfl
    · exact Or.inr ⟨w, hmem⟩
  · rintro (rfl | ⟨w, hmem⟩)
    · exact ⟨v, Or.inl ⟨rfl, rfl⟩⟩
    · by_cases hk : k' = k
      · exact ⟨v, Or.inl ⟨hk, rfl⟩⟩
      · exact ⟨w, Or.inr ⟨hmem, hk⟩⟩

theorem mem_keys_insertAll {m : SortedMap κ ν} {l : List (κ × ν)} {k : κ} :
    k ∈ (m.insertAll l).keys ↔ k ∈ l.map Prod.fst ∨ k ∈ m.keys := by
  induction l generalizing m with
  | nil => simp [insertAll]
  | cons row l ih =>
      change k ∈ ((m.insert row.1 row.2).insertAll l).keys ↔ _
      rw [ih, mem_keys_insert, List.map_cons, List.mem_cons]
      tauto

/-- Inserted under as many keys as there are entries, the keys were distinct. -/
theorem nodup_of_length_insertAll {l : List (κ × ν)}
    (h : (empty.insertAll l).entries.length = l.length) : (l.map Prod.fst).Nodup := by
  have hsub : (empty.insertAll l).keys.Subperm (l.map Prod.fst) := by
    apply List.subperm_of_subset (nodup_keys _)
    intro k hk
    simpa using mem_keys_insertAll.mp hk
  have hperm : (empty.insertAll l).keys.Perm (l.map Prod.fst) := by
    apply hsub.perm_of_length_le
    rw [List.length_map, length_keys, h]
  exact hperm.nodup_iff.mp (nodup_keys _)

theorem keys_insert_perm_of_mem {m : SortedMap κ ν} {k : κ} (h : k ∈ m.keys) (v : ν) :
    (m.insert k v).keys.Perm m.keys := by
  refine (List.perm_ext_iff_of_nodup (nodup_keys _) (nodup_keys _)).mpr ?_
  intro k'
  change k' ∈ (m.insert k v).keys ↔ k' ∈ m.keys
  rw [mem_keys_insert]
  constructor
  · rintro (rfl | hmem)
    · exact h
    · exact hmem
  · exact Or.inr

theorem keys_insert_perm_of_notMem {m : SortedMap κ ν} {k : κ} (h : k ∉ m.keys) (v : ν) :
    (m.insert k v).keys.Perm (k :: m.keys) := by
  refine (List.perm_ext_iff_of_nodup (nodup_keys _)
    (List.nodup_cons.mpr ⟨h, nodup_keys _⟩)).mpr ?_
  intro k'
  change k' ∈ (m.insert k v).keys ↔ k' ∈ k :: m.keys
  rw [mem_keys_insert, List.mem_cons]

end SortedMap

end Tonggeret.Lib
