import Mathlib.Data.List.Induction
import Mathlib.Data.List.Lex
import Mathlib.Data.Nat.Digits.Lemmas
import Mathlib.Tactic.Ring

/-!
# Lexicographic order of fixed-width encodings

A composite sort key is a concatenation of fixed-width big-endian fields and a
variable tail.  Two general facts make its lexicographic order the order of the
tuple of fields: lists that start with blocks of equal length compare block by
block, and equally wide big-endian digit strings compare as the numbers they
write, for any strictly increasing digit alphabet.
-/

namespace Tonggeret.Lib

instance byteOrder : LinearOrder UInt8 where
  le_refl := UInt8.le_refl
  le_trans := fun _ _ _ => UInt8.le_trans
  lt_iff_le_not_ge := fun a b => by
    rw [UInt8.lt_iff_toNat_lt, UInt8.le_iff_toNat_le, UInt8.le_iff_toNat_le]
    omega
  le_antisymm := fun _ _ => UInt8.le_antisymm
  le_total := UInt8.le_total
  toDecidableLE := inferInstance
  toDecidableEq := inferInstance
  toDecidableLT := inferInstance

/-! ## Block-wise comparison -/

section Blocks

variable {α : Type} [LinearOrder α]

/-- Blocks of equal length are compared first; the rest only breaks a tie. -/
theorem append_lt_append_iff {a b : List α} (l r : List α)
    (hlength : a.length = b.length) :
    a ++ l < b ++ r ↔ a < b ∨ a = b ∧ l < r := by
  induction a generalizing b with
  | nil =>
      have hb : b = [] := List.length_eq_zero_iff.mp hlength.symm
      subst b
      simp
  | cons x a ih =>
      cases b with
      | nil => simp at hlength
      | cons y b =>
          have hlength' : a.length = b.length := by simpa using hlength
          rw [List.cons_append, List.cons_append, List.cons_lt_cons_iff,
            List.cons_lt_cons_iff, ih hlength', List.cons.injEq]
          by_cases hxy : x = y
          · simp [hxy]
          · simp [hxy]

/-- A list is below every block of its own length followed by anything exactly
when it is below the block itself: the tail never lowers the longer list. -/
theorem append_lt_iff {a b : List α} (l : List α) (hlength : a.length = b.length) :
    a ++ l < b ↔ a < b := by
  have h := append_lt_append_iff l [] hlength
  rw [List.append_nil] at h
  rw [h]
  simp

/-- A digit alphabet that increases on the values used preserves the order. -/
theorem map_lt_map_iff {β : Type} [LinearOrder β] {f : α → β} {p : α → Prop}
    (hf : ∀ a b, p a → p b → (f a < f b ↔ a < b)) {l r : List α}
    (hl : ∀ a ∈ l, p a) (hr : ∀ a ∈ r, p a) :
    l.map f < r.map f ↔ l < r := by
  induction l generalizing r with
  | nil => cases r <;> simp
  | cons a l ih =>
      cases r with
      | nil => simp
      | cons b r =>
          have ha : p a := hl a (by simp)
          have hb : p b := hr b (by simp)
          have htail := ih (r := r) (fun x hx => hl x (by simp [hx]))
            (fun x hx => hr x (by simp [hx]))
          have hab := hf a b ha hb
          have hba := hf b a hb ha
          have heq : f a = f b ↔ a = b := by
            constructor
            · intro h
              exact le_antisymm
                (not_lt.mp fun hlt => (hba.mpr hlt).ne h.symm)
                (not_lt.mp fun hlt => (hab.mpr hlt).ne h)
            · exact fun h => congrArg f h
          rw [List.map_cons, List.map_cons, List.cons_lt_cons_iff,
            List.cons_lt_cons_iff, hab, heq, htail]

end Blocks

/-! ## Fixed-width big-endian digits -/

/-- The `width` low base-`b` digits of `n`, most significant first. -/
def digitsBE (b : Nat) : Nat → Nat → List Nat
  | 0, _ => []
  | width + 1, n => n / b ^ width % b :: digitsBE b width n

@[simp] theorem length_digitsBE (b width n : Nat) :
    (digitsBE b width n).length = width := by
  induction width with
  | zero => rfl
  | succ width ih => simp [digitsBE, ih]

theorem digitsBE_lt {b width n digit : Nat} (hb : 0 < b)
    (hdigit : digit ∈ digitsBE b width n) : digit < b := by
  induction width with
  | zero => simp [digitsBE] at hdigit
  | succ width ih =>
      simp only [digitsBE, List.mem_cons] at hdigit
      rcases hdigit with rfl | hdigit
      · exact Nat.mod_lt _ hb
      · exact ih hdigit

/-- Splitting off the last digit instead of the first. -/
theorem digitsBE_succ (b width n : Nat) :
    digitsBE b (width + 1) n = digitsBE b width (n / b) ++ [n % b] := by
  induction width with
  | zero => simp [digitsBE]
  | succ width ih =>
      rw [digitsBE, ih, digitsBE, List.cons_append, Nat.div_div_eq_div_mul,
        Nat.pow_succ, Nat.mul_comm b]

theorem lt_or_eq_and_lt_iff {B a a' r r' : Nat} (hr : r < B) (hr' : r' < B) :
    (a < a' ∨ a = a' ∧ r < r') ↔ r + B * a < r' + B * a' := by
  constructor
  · rintro (hlt | ⟨rfl, hlt⟩)
    · have hmul : B * (a + 1) ≤ B * a' := Nat.mul_le_mul_left B hlt
      rw [Nat.mul_succ] at hmul
      omega
    · omega
  · intro h
    rcases Nat.lt_trichotomy a a' with hlt | rfl | hgt
    · exact Or.inl hlt
    · exact Or.inr ⟨rfl, by omega⟩
    · have hmul : B * (a' + 1) ≤ B * a := Nat.mul_le_mul_left B hgt
      rw [Nat.mul_succ] at hmul
      omega

theorem digitsBE_lt_iff_mod {b : Nat} (hb : 0 < b) (width n m : Nat) :
    digitsBE b width n < digitsBE b width m ↔ n % b ^ width < m % b ^ width := by
  induction width with
  | zero => simp [digitsBE, Nat.mod_one]
  | succ width ih =>
      have hpow : 0 < b ^ width := Nat.pow_pos hb
      rw [digitsBE, digitsBE, List.cons_lt_cons_iff, ih, Nat.mod_pow_succ,
        Nat.mod_pow_succ]
      exact lt_or_eq_and_lt_iff (Nat.mod_lt n hpow) (Nat.mod_lt m hpow)

/-- Equally wide digit strings compare as the numbers they write. -/
theorem digitsBE_lt_digitsBE_iff {b width n m : Nat} (hb : 0 < b)
    (hn : n < b ^ width) (hm : m < b ^ width) :
    digitsBE b width n < digitsBE b width m ↔ n < m := by
  rw [digitsBE_lt_iff_mod hb, Nat.mod_eq_of_lt hn, Nat.mod_eq_of_lt hm]

theorem digitsBE_congr {b : Nat} (hb : 0 < b) {width n m : Nat}
    (h : n % b ^ width = m % b ^ width) : digitsBE b width n = digitsBE b width m := by
  apply le_antisymm
  · rw [← not_lt, digitsBE_lt_iff_mod hb, h]
    exact Nat.lt_irrefl _
  · rw [← not_lt, digitsBE_lt_iff_mod hb, h]
    exact Nat.lt_irrefl _

/-- Reading the digits back from the left rebuilds the number. -/
theorem foldl_digitsBE (b width n acc : Nat) :
    (digitsBE b width n).foldl (fun acc digit => acc * b + digit) acc =
      acc * b ^ width + n % b ^ width := by
  induction width generalizing acc with
  | zero => simp [digitsBE, Nat.mod_one]
  | succ width ih =>
      rw [digitsBE, List.foldl_cons, ih, Nat.mod_pow_succ]
      ring

/-- The digits of a number are those of its high part, then those of its low part. -/
theorem digitsBE_add (b width width' n : Nat) :
    digitsBE b (width + width') n =
      digitsBE b width (n / b ^ width') ++ digitsBE b width' n := by
  induction width with
  | zero => simp [digitsBE]
  | succ width ih =>
      rw [Nat.add_right_comm, digitsBE, ih, digitsBE, List.cons_append,
        Nat.div_div_eq_div_mul, ← Nat.pow_add, Nat.add_comm width' width]

/-- Two digit strings next to each other write one number. -/
theorem digitsBE_append_digitsBE {b width width' n m : Nat} (hm : m < b ^ width') :
    digitsBE b width n ++ digitsBE b width' m =
      digitsBE b (width + width') (n * b ^ width' + m) := by
  have hpow : 0 < b ^ width' := Nat.zero_lt_of_lt hm
  have hquot : (n * b ^ width' + m) / b ^ width' = n := by
    rw [Nat.mul_comm, Nat.mul_add_div hpow, Nat.div_eq_of_lt hm, Nat.add_zero]
  have hrem : digitsBE b width' (n * b ^ width' + m) = digitsBE b width' m := by
    cases width' with
    | zero => rfl
    | succ width' =>
        have hb : 0 < b := by
          by_contra hzero
          rw [Nat.eq_zero_of_not_pos hzero, Nat.zero_pow (Nat.succ_pos width')] at hpow
          exact Nat.lt_irrefl 0 hpow
        apply digitsBE_congr hb
        rw [Nat.mul_add_mod_self_right]
  rw [digitsBE_add, hquot, hrem]

/-- Every digit string is the fixed-width string of the number it writes. -/
theorem digitsBE_foldl {b : Nat} {digits : List Nat} (hdigits : ∀ digit ∈ digits, digit < b) :
    digitsBE b digits.length (digits.foldl (fun acc digit => acc * b + digit) 0) = digits := by
  induction digits using List.reverseRecOn with
  | nil => rfl
  | append_singleton digits digit ih =>
      have hdigit : digit < b := hdigits digit (by simp)
      have hinit := ih fun d hd => hdigits d (by simp [hd])
      have hquot : (digits.foldl (fun acc digit => acc * b + digit) 0 * b + digit) / b =
          digits.foldl (fun acc digit => acc * b + digit) 0 := by
        rw [Nat.mul_comm, Nat.mul_add_div (by omega), Nat.div_eq_of_lt hdigit, Nat.add_zero]
      rw [List.length_append, List.length_singleton, digitsBE_succ, List.foldl_append,
        List.foldl_cons, List.foldl_nil, hquot, hinit, Nat.mul_add_mod_self_right,
        Nat.mod_eq_of_lt hdigit]

theorem foldl_digits_lt {b : Nat} {digits : List Nat} (hdigits : ∀ digit ∈ digits, digit < b) :
    digits.foldl (fun acc digit => acc * b + digit) 0 < b ^ digits.length := by
  induction digits using List.reverseRecOn with
  | nil => simp
  | append_singleton digits digit ih =>
      have hdigit : digit < b := hdigits digit (by simp)
      have hinit := ih fun d hd => hdigits d (by simp [hd])
      rw [List.length_append, List.length_singleton, List.foldl_append, List.foldl_cons,
        List.foldl_nil, Nat.pow_succ]
      calc digits.foldl (fun acc digit => acc * b + digit) 0 * b + digit
          < digits.foldl (fun acc digit => acc * b + digit) 0 * b + b := by omega
        _ = (digits.foldl (fun acc digit => acc * b + digit) 0 + 1) * b := by ring
        _ ≤ b ^ digits.length * b := Nat.mul_le_mul_right b hinit

theorem le_foldl_digits {b : Nat} (hb : 0 < b) (digits : List Nat) (acc : Nat) :
    acc ≤ digits.foldl (fun acc digit => acc * b + digit) acc := by
  induction digits generalizing acc with
  | nil => exact Nat.le_refl acc
  | cons digit digits ih =>
      have hmul : acc ≤ acc * b := Nat.le_mul_of_pos_right acc hb
      exact (hmul.trans (Nat.le_add_right _ digit)).trans (ih _)

/-! ## Printed digits -/

theorem leftpad_append_singleton {α : Type} (width : Nat) (a c : α) (l : List α) :
    (l ++ [c]).leftpad (width + 1) a = l.leftpad width a ++ [c] := by
  simp [List.leftpad]

/-- Printing with zero padding writes exactly the fixed-width digits. -/
theorem leftpad_toDigits {b width n : Nat} (hb : 1 < b) (hn : n < b ^ (width + 1)) :
    (Nat.toDigits b n).leftpad (width + 1) '0' =
      (digitsBE b (width + 1) n).map Nat.digitChar := by
  induction width generalizing n with
  | zero =>
      have hlt : n < b := by simpa using hn
      rw [Nat.toDigits_of_lt_base hlt]
      simp [List.leftpad, digitsBE, Nat.mod_eq_of_lt hlt]
  | succ width ih =>
      have hquot : n / b < b ^ (width + 1) := by
        rw [Nat.div_lt_iff_lt_mul (by omega), ← Nat.pow_succ]
        exact hn
      have hrem : n % b < b := Nat.mod_lt _ (by omega)
      rw [digitsBE_succ, List.map_append, ← ih hquot]
      by_cases hzero : n / b = 0
      · have hlt : n < b := (Nat.div_eq_zero_iff_lt (by omega)).mp hzero
        rw [hzero, Nat.toDigits_of_lt_base hlt,
          Nat.toDigits_of_lt_base (by omega : 0 < b), Nat.mod_eq_of_lt hlt]
        simp [List.leftpad, ← List.replicate_succ', Nat.digitChar]
      · have hsplit : Nat.toDigits b n =
            Nat.toDigits b (n / b) ++ [(n % b).digitChar] := by
          rw [← Nat.toDigits_of_lt_base hrem,
            Nat.toDigits_append_toDigits hb (Nat.pos_of_ne_zero hzero) hrem,
            Nat.div_add_mod]
        rw [hsplit, leftpad_append_singleton]
        simp

end Tonggeret.Lib
