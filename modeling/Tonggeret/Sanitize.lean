import Mathlib.Data.List.Forall2
import Tonggeret.Types

/-!
# Sanitized names and labels

Names and label keys are rewritten to the metric-name grammar, character by
character; label keys and values are then cut at a number of bytes.  A key is ASCII
after the first step, so only the cut of a value can fall inside a character.
-/

namespace Tonggeret

open Tonggeret.Lib

/-- A character kept at position `i` of a name. -/
def isNameChar (i : Nat) (c : Char) : Bool :=
  if i = 0 then c.isAlpha || c == '_' || c == ':'
  else c.isAlphanum || c == '_' || c == ':'

def maskChar (i : Nat) (c : Char) : Char := if isNameChar i c then c else '_'

/-- Prometheus exposition requires `[a-zA-Z_:][a-zA-Z0-9_:]*`.  Anything else becomes
`_`; an empty name is `_unnamed`. -/
def sanitizeMetricName (name : String) : String :=
  let out := name.toList.mapIdx maskChar
  if out.isEmpty then "_unnamed" else String.ofList out

def maxPairs : Nat := 16

def maxKey : Nat := 128

def maxVal : Nat := 256

/-- `if s.len() > max { s.truncate(max) }`. -/
def truncateLonger (max : Nat) (s : String) : Option String :=
  if s.utf8ByteSize > max then truncate max s else some s

/-- One pair, or nothing for an empty key; the outer `none` is a panic. -/
def sanitizeLabel (label : String × String) : Option (Option (String × String)) :=
  let key := sanitizeMetricName (trim label.1)
  if key.isEmpty || key == "_unnamed" && (trim label.1).isEmpty then some none
  else do
    let key ← truncateLonger maxKey key
    let val ← truncateLonger maxVal label.2
    return some (key, val)

/-- `filter_map(sanitizeLabel).take(n)`; no pair after the last one taken is looked at. -/
def takeSanitized : Nat → List (String × String) → Option (List (String × String))
  | 0, _ => some []
  | _ + 1, [] => some []
  | n + 1, label :: labels => do
      match ← sanitizeLabel label with
      | none => takeSanitized (n + 1) labels
      | some pair => return pair :: (← takeSanitized n labels)

/-- Sanitize label keys like metric names, truncate keys and values, drop empty keys,
cap at 16 pairs. -/
def sanitizeLabels (labels : List (String × String)) : Option (List (String × String)) :=
  takeSanitized maxPairs labels

/-- Build an entry, sanitizing name and labels and stamping `now`. -/
def MetricEntry.new (now : Int) (name : String) (value : F64) (metricType : MetricType)
    (labels : List (String × String)) : Option MetricEntry := do
  let labels ← sanitizeLabels labels
  return ⟨now, sanitizeMetricName name, value, metricType, labels⟩

/-! ## Keys -/

theorem utf8Size_of_isAlphanum {c : Char} (h : c.isAlphanum = true) : c.utf8Size = 1 := by
  have hbounds := isAlphanum_bounds h
  have hbound : (127 : UInt32).toNat = 127 := rfl
  rw [Char.utf8Size_eq_one_iff, UInt32.le_iff_toNat_le]
  omega

theorem maskChar_ascii (i : Nat) (c : Char) : (maskChar i c).utf8Size = 1 := by
  have hkept : ∀ d : Char, d.isAlphanum = true ∨ d = '_' ∨ d = ':' → d.utf8Size = 1 := by
    rintro d (hd | rfl | rfl)
    · exact utf8Size_of_isAlphanum hd
    · rfl
    · rfl
  rw [maskChar]
  split
  · rename_i hok
    apply hkept
    rw [isNameChar] at hok
    split at hok
    · simp only [Bool.or_eq_true, beq_iff_eq] at hok
      rcases hok with (hok | hok) | hok
      · exact Or.inl (isAlphanum_iff.mpr (Or.inl hok))
      · exact Or.inr (Or.inl hok)
      · exact Or.inr (Or.inr hok)
    · simpa [or_assoc] using hok
  · rfl

/-- What a key that is not blank becomes: its first 128 characters, masked. -/
def cleanKey (key : String) : String :=
  String.ofList (((trim key).toList.mapIdx maskChar).take maxKey)

/-- The raw pairs whose key is not blank, up to the cap. -/
def keptLabels (labels : List (String × String)) : List (String × String) :=
  (labels.filter fun label => !(trim label.1).isEmpty).take maxPairs

theorem sanitizeLabel_of_blank {label : String × String} (h : (trim label.1).isEmpty = true) :
    sanitizeLabel label = some none := by
  have hempty : trim label.1 = "" := by simpa using h
  rw [sanitizeLabel, hempty]
  rfl

theorem mapIdx_maskChar_ascii {l : List Char} :
    ∀ c ∈ l.mapIdx maskChar, c.utf8Size = 1 := by
  intro c hc
  obtain ⟨i, hi, rfl⟩ := List.mem_mapIdx.mp hc
  exact maskChar_ascii i _

theorem truncateLonger_masked (key : String) :
    truncateLonger maxKey (String.ofList ((trim key).toList.mapIdx maskChar)) =
      some (cleanKey key) := by
  have hascii := mapIdx_maskChar_ascii (l := (trim key).toList)
  have hsize := utf8Len_of_ascii hascii
  rw [truncateLonger, String.utf8ByteSize_ofList]
  split
  · rename_i hlong
    have hcut := takeBytes_of_ascii (n := maxKey) hascii (by omega)
    rw [truncate_of_lt (by rw [String.utf8ByteSize_ofList]; exact hlong), sliceTo,
      String.toList_ofList, hcut]
    rfl
  · rw [cleanKey, List.take_of_length_le (by omega)]

theorem sanitizeLabel_of_not_blank {label : String × String}
    (h : (trim label.1).isEmpty = false) :
    sanitizeLabel label = (truncateLonger maxVal label.2).map fun value =>
      some (cleanKey label.1, value) := by
  have hmasked : ((trim label.1).toList.mapIdx maskChar).isEmpty = false := by
    simpa using h
  have hname : sanitizeMetricName (trim label.1) =
      String.ofList ((trim label.1).toList.mapIdx maskChar) := by
    simp only [sanitizeMetricName, hmasked]
    rfl
  have hkey : (String.ofList ((trim label.1).toList.mapIdx maskChar)).isEmpty = false := by
    simpa using hmasked
  simp only [sanitizeLabel, hname, hkey, h, Bool.and_false, Bool.or_false,
    truncateLonger_masked, Option.bind_eq_bind, Option.bind_some]
  cases truncateLonger maxVal label.2 <;> rfl

/-- What comes out: the kept pairs, in order, with masked keys and cut values. -/
theorem takeSanitized_eq_some {n : Nat} {labels pairs : List (String × String)} :
    takeSanitized n labels = some pairs ↔
      List.Forall₂ (fun raw pair => pair.1 = cleanKey raw.1 ∧
          truncateLonger maxVal raw.2 = some pair.2)
        ((labels.filter fun label => !(trim label.1).isEmpty).take n) pairs := by
  induction labels generalizing n pairs with
  | nil =>
      rw [List.filter_nil, List.take_nil, List.forall₂_nil_left_iff]
      cases n with
      | zero => exact Option.some_inj.trans eq_comm
      | succ n => exact Option.some_inj.trans eq_comm
  | cons label labels ih =>
      cases n with
      | zero =>
          rw [List.take_zero, List.forall₂_nil_left_iff]
          exact Option.some_inj.trans eq_comm
      | succ n =>
          cases hblank : (trim label.1).isEmpty with
          | true =>
              rw [List.filter_cons_of_neg (by simp [hblank]), ← ih, takeSanitized,
                sanitizeLabel_of_blank hblank]
              rfl
          | false =>
              rw [List.filter_cons_of_pos (by simp [hblank]), List.take_succ_cons,
                takeSanitized, sanitizeLabel_of_not_blank hblank,
                List.forall₂_cons_left_iff]
              cases hvalue : truncateLonger maxVal label.2 with
              | none =>
                  constructor
                  · intro h
                    simp at h
                  · rintro ⟨pair, rest, ⟨-, hcut⟩, -⟩
                    simp at hcut
              | some value =>
                  simp only [Option.map_some, Option.bind_eq_bind, Option.bind_some,
                    Option.bind_eq_some_iff, Option.pure_def, Option.some.injEq]
                  constructor
                  · rintro ⟨rest, hrest, rfl⟩
                    exact ⟨(cleanKey label.1, value), rest, ⟨rfl, rfl⟩, ih.mp hrest, rfl⟩
                  · rintro ⟨pair, rest, ⟨hkey, hcut⟩, hrest, rfl⟩
                    have hpair : (cleanKey label.1, value) = pair :=
                      Prod.ext hkey.symm hcut
                    exact ⟨rest, ih.mpr hrest, by rw [hpair]⟩

theorem sanitizeLabels_eq_some {labels pairs : List (String × String)} :
    sanitizeLabels labels = some pairs ↔
      List.Forall₂ (fun raw pair => pair.1 = cleanKey raw.1 ∧
        truncateLonger maxVal raw.2 = some pair.2) (keptLabels labels) pairs :=
  takeSanitized_eq_some

end Tonggeret
