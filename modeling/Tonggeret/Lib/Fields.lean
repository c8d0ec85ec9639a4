import Mathlib.Data.List.DropRight
import Mathlib.Tactic.IntervalCases

/-!
# Numbers printed between separators

A printed number is read back digit by digit, so it determines the number, and it is
made of letters and digits, so no separator occurs in it.
-/

namespace Tonggeret.Lib

/-- The value of a digit character. -/
def digitValue (c : Char) : Nat := if c.isDigit then c.toNat - 48 else c.toNat - 87

def readDigits (b : Nat) (chars : List Char) : Nat :=
  chars.foldl (fun acc c => b * acc + digitValue c) 0

theorem digitValue_digitChar {d : Nat} (h : d < 16) : digitValue d.digitChar = d := by
  interval_cases d <;> rfl

theorem isAlphanum_digitChar {d : Nat} (h : d < 16) : d.digitChar.isAlphanum = true := by
  interval_cases d <;> rfl

variable {b : Nat}

theorem readDigits_toDigits (hb : 1 < b) (hb16 : b ≤ 16) (n : Nat) :
    readDigits b (Nat.toDigits b n) = n := by
  induction n using Nat.base_induction b hb with
  | single m hm =>
      rw [Nat.toDigits_of_lt_base hm, readDigits, List.foldl_cons, List.foldl_nil,
        digitValue_digitChar (by omega)]
      omega
  | digit m k hk hm ih =>
      rw [← Nat.toDigits_append_toDigits hb hm hk, readDigits, List.foldl_append,
        ← readDigits, ih, Nat.toDigits_of_lt_base hk, List.foldl_cons, List.foldl_nil,
        digitValue_digitChar (by omega)]

theorem toDigits_injective (hb : 1 < b) (hb16 : b ≤ 16) :
    Function.Injective (Nat.toDigits b) := by
  intro n m h
  calc n = readDigits b (Nat.toDigits b n) := (readDigits_toDigits hb hb16 n).symm
    _ = readDigits b (Nat.toDigits b m) := by rw [h]
    _ = m := readDigits_toDigits hb hb16 m

theorem isAlphanum_of_mem_toDigits (hb : 1 < b) (hb16 : b ≤ 16) {n : Nat} {c : Char}
    (h : c ∈ Nat.toDigits b n) : c.isAlphanum = true := by
  induction n using Nat.base_induction b hb with
  | single m hm =>
      rw [Nat.toDigits_of_lt_base hm, List.mem_singleton] at h
      rw [h]
      exact isAlphanum_digitChar (by omega)
  | digit m k hk hm ih =>
      rw [← Nat.toDigits_append_toDigits hb hm hk, List.mem_append,
        Nat.toDigits_of_lt_base hk, List.mem_singleton] at h
      rcases h with h | h
      · exact ih h
      · rw [h]
        exact isAlphanum_digitChar (by omega)

/-- A separator occurs in no printed number. -/
theorem notMem_toDigits (hb : 1 < b) (hb16 : b ≤ 16) {sep : Char}
    (hsep : sep.isAlphanum = false) (n : Nat) : sep ∉ Nat.toDigits b n := by
  intro h
  rw [isAlphanum_of_mem_toDigits hb hb16 h] at hsep
  contradiction

/-- Texts without the separator are told apart by what precedes it. -/
theorem append_cons_inj {α : Type} {sep : α} {x y r t : List α} (hx : sep ∉ x)
    (hy : sep ∉ y) : x ++ sep :: r = y ++ sep :: t ↔ x = y ∧ r = t := by
  constructor
  · intro h
    induction x generalizing y with
    | nil =>
        cases y with
        | nil =>
            rw [List.nil_append, List.nil_append, List.cons.injEq] at h
            exact ⟨rfl, h.2⟩
        | cons c y =>
            rw [List.nil_append, List.cons_append, List.cons.injEq] at h
            exact absurd (List.mem_cons.mpr (Or.inl h.1)) hy
    | cons c x ih =>
        cases y with
        | nil =>
            rw [List.nil_append, List.cons_append, List.cons.injEq] at h
            exact absurd (List.mem_cons.mpr (Or.inl h.1.symm)) hx
        | cons d y =>
            rw [List.cons_append, List.cons_append, List.cons.injEq] at h
            rw [List.mem_cons, not_or] at hx hy
            obtain ⟨hxy, hrest⟩ := ih hx.2 hy.2 h.2
            exact ⟨by rw [h.1, hxy], hrest⟩
  · rintro ⟨rfl, rfl⟩
    rfl

/-! ## Joined fields -/

variable {α : Type}

theorem intercalate_cons_flatMap (sep : α) (first : List α) (rest : List (List α)) :
    [sep].intercalate (first :: rest) = first ++ rest.flatMap (sep :: ·) := by
  induction rest generalizing first with
  | nil => rw [List.intercalate_singleton, List.flatMap_nil, List.append_nil]
  | cons second rest ih =>
      rw [List.intercalate_cons_cons, ih, List.flatMap_cons, List.append_assoc,
        List.singleton_append, List.cons_append]

theorem mem_intercalate {sep : α} {fields : List (List α)} {c : α}
    (h : c ∈ [sep].intercalate fields) : c = sep ∨ ∃ field ∈ fields, c ∈ field := by
  cases fields with
  | nil => contradiction
  | cons first rest =>
      rw [intercalate_cons_flatMap, List.mem_append, List.mem_flatMap] at h
      rcases h with h | ⟨field, hfield, h⟩
      · exact Or.inr ⟨first, List.mem_cons_self, h⟩
      · rcases List.mem_cons.mp h with rfl | h
        · exact Or.inl rfl
        · exact Or.inr ⟨field, List.mem_cons_of_mem first hfield, h⟩

theorem mem_intercalate_of_two {sep : α} (first second : List α) (rest : List (List α)) :
    sep ∈ [sep].intercalate (first :: second :: rest) := by
  rw [List.intercalate_cons_cons, List.append_assoc, List.singleton_append]
  exact List.mem_append_right _ List.mem_cons_self

/-! ## A run left out -/

/-- `n` fields from those shown: empty fields stand where a run of `fill` was left out. -/
def restore (n : Nat) (fill : List α) (fields : List (List α)) : List (List α) :=
  let first := fields.takeWhile (!·.isEmpty)
  let last := fields.rtakeWhile (!·.isEmpty)
  if fields.all (!·.isEmpty) then fields
  else first ++ (List.replicate (n - (first.length + last.length)) fill ++ last)

variable {fields first last : List (List α)}

theorem not_isEmpty_of_mem {field : List α} (h : [] ∉ fields) (hfield : field ∈ fields) :
    (!field.isEmpty) = true := by
  have hne : field ≠ [] := fun hnil => h (hnil ▸ hfield)
  rw [Bool.not_eq_true', List.isEmpty_eq_false_iff]
  exact hne

theorem restore_of_full (n : Nat) (fill : List α) (h : [] ∉ fields) :
    restore n fill fields = fields := by
  rw [restore, if_pos]
  rw [List.all_eq_true]
  exact fun _ hfield => not_isEmpty_of_mem h hfield

theorem takeWhile_gap (h : [] ∉ first) (k : Nat) (rest : List (List α)) :
    (first ++ (List.replicate (k + 1) [] ++ rest)).takeWhile (!·.isEmpty) = first := by
  rw [List.takeWhile_append_of_pos, List.replicate_succ, List.cons_append,
    List.takeWhile_cons_of_neg (by simp), List.append_nil]
  exact fun _ hfield => not_isEmpty_of_mem h hfield

theorem rtakeWhile_gap (h : [] ∉ last) (k : Nat) (rest : List (List α)) :
    (rest ++ (List.replicate (k + 1) [] ++ last)).rtakeWhile (!·.isEmpty) = last := by
  have hreverse : [] ∉ last.reverse := fun hmem => h (List.mem_reverse.mp hmem)
  rw [List.rtakeWhile, List.reverse_append, List.reverse_append, List.reverse_replicate,
    List.append_assoc, takeWhile_gap hreverse, List.reverse_reverse]

theorem restore_gap (hfirst : [] ∉ first) (hlast : [] ∉ last) (fill : List α) (k len : Nat) :
    restore (first.length + (len + last.length)) fill
        (first ++ (List.replicate (k + 1) [] ++ last)) =
      first ++ (List.replicate len fill ++ last) := by
  have hgap : (first ++ (List.replicate (k + 1) [] ++ last)).all (!·.isEmpty) = false := by
    simp [List.replicate_succ]
  have hlen : first.length + (len + last.length) - (first.length + last.length) = len := by
    omega
  rw [restore, hgap, takeWhile_gap hfirst, rtakeWhile_gap hlast, if_neg (by simp), hlen]

variable [BEq α] [LawfulBEq α]

/-- No fields at all are read back as one empty field. -/
theorem splitOn_intercalate_pad {sep : α} (h : ∀ field ∈ fields, sep ∉ field) :
    ∃ k, ([sep].intercalate fields).splitOn sep = List.replicate k [] ++ fields ∧
      ([sep].intercalate fields).splitOn sep = fields ++ List.replicate k [] := by
  by_cases hnil : fields = []
  · rw [hnil]
    exact ⟨1, rfl, rfl⟩
  · rw [List.splitOn_intercalate sep h hnil]
    exact ⟨0, rfl, (List.append_nil _).symm⟩

theorem splitOn_gap {sep : α} (hfirst : ∀ field ∈ first, sep ∉ field)
    (hlast : ∀ field ∈ last, sep ∉ field) :
    ∃ k, ([sep].intercalate first ++ sep :: sep :: [sep].intercalate last).splitOn sep =
      first ++ (List.replicate (k + 1) [] ++ last) := by
  obtain ⟨i, -, hi⟩ := splitOn_intercalate_pad hfirst
  obtain ⟨j, hj, -⟩ := splitOn_intercalate_pad hlast
  have hempty : (sep :: [sep].intercalate last).splitOn sep =
      [] :: ([sep].intercalate last).splitOn sep :=
    List.splitOn_append_cons_self [] _
  refine ⟨i + j, ?_⟩
  calc ([sep].intercalate first ++ sep :: sep :: [sep].intercalate last).splitOn sep
      = first ++ List.replicate i [] ++ [] :: (List.replicate j [] ++ last) := by
        rw [List.splitOn_append_cons_self, hempty, hi, hj]
    _ = first ++ (List.replicate i [] ++ (List.replicate (j + 1) [] ++ last)) := by
        rw [List.append_assoc, List.replicate_succ, List.cons_append]
    _ = first ++ (List.replicate (i + j + 1) [] ++ last) := by
        rw [← List.append_assoc (List.replicate i []), List.replicate_append_replicate,
          Nat.add_assoc]

end Tonggeret.Lib
