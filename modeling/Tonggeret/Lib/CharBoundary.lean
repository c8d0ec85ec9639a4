import Mathlib.Data.String.Basic

/-!
# Cutting text at a byte

A string is a sequence of characters of one to four bytes.  Its first `n` bytes are
text only if byte `n` is a character boundary, that is, the length of some prefix.
-/

namespace Tonggeret.Lib

open String (utf8Len)

/-- `n` is the byte length of a prefix. -/
def IsCharBoundary (n : Nat) (l : List Char) : Prop := ∃ p, p <+: l ∧ utf8Len p = n

/-- The characters of the first `n` bytes, if `n` is a character boundary. -/
def takeBytes : Nat → List Char → Option (List Char)
  | 0, _ => some []
  | _ + 1, [] => none
  | n + 1, c :: l =>
      if c.utf8Size ≤ n + 1 then (takeBytes (n + 1 - c.utf8Size) l).map (c :: ·) else none

theorem utf8Len_eq_zero {p : List Char} : utf8Len p = 0 ↔ p = [] := by
  cases p with
  | nil => exact iff_of_true rfl rfl
  | cons c p =>
      have hpos := c.utf8Size_pos
      rw [String.utf8Len_cons]
      exact iff_of_false (by omega) (List.cons_ne_nil c p)

theorem takeBytes_eq_some {n : Nat} {l p : List Char} :
    takeBytes n l = some p ↔ p <+: l ∧ utf8Len p = n := by
  fun_induction takeBytes n l generalizing p with
  | case1 l =>
      rw [Option.some.injEq, utf8Len_eq_zero]
      constructor
      · intro h
        exact ⟨h ▸ List.nil_prefix, h.symm⟩
      · exact fun h => h.2.symm
  | case2 n =>
      rw [List.prefix_nil]
      refine iff_of_false (Option.some_ne_none p).symm ?_
      rintro ⟨rfl, hlen⟩
      contradiction
  | case3 n c l hfit ih =>
      rw [Option.map_eq_some_iff]
      constructor
      · rintro ⟨p', hp', rfl⟩
        obtain ⟨hinit, hlen⟩ := ih.mp hp'
        rw [List.cons_prefix_cons, String.utf8Len_cons]
        exact ⟨⟨rfl, hinit⟩, by omega⟩
      · rintro ⟨hinit, hlen⟩
        cases p with
        | nil => contradiction
        | cons d p =>
            rw [List.cons_prefix_cons] at hinit
            rw [String.utf8Len_cons] at hlen
            obtain ⟨rfl, hinit⟩ := hinit
            exact ⟨p, ih.mpr ⟨hinit, by omega⟩, rfl⟩
  | case4 n c l hlong =>
      refine iff_of_false (Option.some_ne_none p).symm ?_
      rintro ⟨hinit, hlen⟩
      cases p with
      | nil => contradiction
      | cons d p =>
          rw [List.cons_prefix_cons] at hinit
          rw [String.utf8Len_cons, hinit.1] at hlen
          omega

/-- A cut succeeds exactly at a character boundary. -/
theorem takeBytes_isSome {n : Nat} {l : List Char} :
    (takeBytes n l).isSome ↔ IsCharBoundary n l := by
  rw [Option.isSome_iff_exists]
  exact exists_congr fun _ => takeBytes_eq_some

instance (n : Nat) (l : List Char) : Decidable (IsCharBoundary n l) :=
  decidable_of_iff _ takeBytes_isSome

theorem length_le_utf8Len (l : List Char) : l.length ≤ utf8Len l := by
  induction l with
  | nil => simp
  | cons c l ih =>
      have hpos := c.utf8Size_pos
      rw [List.length_cons, String.utf8Len_cons]
      omega

theorem utf8Len_of_ascii {l : List Char} (hascii : ∀ c ∈ l, c.utf8Size = 1) :
    utf8Len l = l.length := by
  induction l with
  | nil => rfl
  | cons c l ih =>
      rw [String.utf8Len_cons, List.length_cons, hascii c (by simp),
        ih fun d hd => hascii d (by simp [hd])]

/-- One-byte characters are cut anywhere. -/
theorem takeBytes_of_ascii {n : Nat} {l : List Char} (hascii : ∀ c ∈ l, c.utf8Size = 1)
    (hn : n ≤ l.length) : takeBytes n l = some (l.take n) := by
  have htake : ∀ c ∈ l.take n, c.utf8Size = 1 := fun c hc =>
    hascii c (List.mem_of_mem_take hc)
  rw [takeBytes_eq_some, utf8Len_of_ascii htake, List.length_take]
  exact ⟨List.take_prefix n l, by omega⟩

end Tonggeret.Lib
