import Mathlib.Data.List.Basic
import Mathlib.Data.List.DropRight
import Tonggeret.Lib.CharBoundary

/-!
# Strings as UTF-8 byte sequences

The stored keys and values are byte strings; names and labels are UTF-8 text.
These are the two conversions the code uses between them, `str::as_bytes` and
`std::str::from_utf8`, and the ways it shortens text: `trim` by characters, and
`truncate` and slices by bytes.
-/

namespace Tonggeret

open Tonggeret.Lib

abbrev Bytes := List UInt8

/-- `str::as_bytes`. -/
def utf8 (s : String) : Bytes := s.toByteArray.data.toList

/-- `std::str::from_utf8(bytes).ok()`. -/
def fromUtf8 (bytes : Bytes) : Option String :=
  String.fromUTF8? ⟨bytes.toArray⟩

@[simp] theorem fromUtf8_utf8 (s : String) : fromUtf8 (utf8 s) = some s := by
  have hvalid : (ByteArray.mk (utf8 s).toArray).IsValidUTF8 := s.isValidUTF8
  rw [fromUtf8, String.fromUTF8?, dif_pos hvalid]
  rfl

theorem utf8_of_fromUtf8 {bytes : Bytes} {s : String} (h : fromUtf8 bytes = some s) :
    utf8 s = bytes := by
  rw [fromUtf8, String.fromUTF8?] at h
  split at h
  · obtain rfl : String.fromUTF8 _ _ = s := Option.some.inj h
    rfl
  · contradiction

theorem utf8_injective : Function.Injective utf8 := by
  intro s t h
  have hs := fromUtf8_utf8 s
  rw [h, fromUtf8_utf8] at hs
  exact (Option.some.inj hs).symm

@[simp] theorem utf8_append (s t : String) : utf8 (s ++ t) = utf8 s ++ utf8 t := by
  simp [utf8, String.toByteArray_append]

/-- Text made of one-byte characters is written one byte a character. -/
theorem utf8_ofList_of_ascii {chars : List Char}
    (hascii : ∀ c ∈ chars, c.val.toNat < 128) :
    utf8 (String.ofList chars) = chars.map fun c => c.val.toUInt8 := by
  have hflat : utf8 (String.ofList chars) = chars.flatMap String.utf8EncodeChar := by
    simp [utf8, List.utf8Encode]
  rw [hflat, List.map_eq_flatMap]
  apply List.flatMap_congr
  intro c hc
  have hval := hascii c hc
  rw [String.utf8EncodeChar, if_pos (by omega)]
  rfl

theorem exists_utf8_of_ascii {bytes : Bytes} (hascii : ∀ b ∈ bytes, b.toNat < 128) :
    ∃ s, utf8 s = bytes := by
  refine ⟨String.ofList (bytes.map Char.ofUInt8), ?_⟩
  rw [utf8_ofList_of_ascii, List.map_map]
  · exact List.map_id'' (fun b => UInt8.toUInt8_toUInt32 b) bytes
  · intro c hc
    obtain ⟨b, hb, rfl⟩ := List.mem_map.mp hc
    exact hascii b hb

/-! ## ASCII classes -/

theorem isUpper_iff {c : Char} : c.isUpper = true ↔ 65 ≤ c.val.toNat ∧ c.val.toNat ≤ 90 := by
  change decide ('A'.val ≤ c.val ∧ c.val ≤ 'Z'.val) = true ↔ _
  rw [decide_eq_true_eq, UInt32.le_iff_toNat_le, UInt32.le_iff_toNat_le]
  rfl

theorem isLower_iff {c : Char} : c.isLower = true ↔ 97 ≤ c.val.toNat ∧ c.val.toNat ≤ 122 := by
  change (decide ('a'.val ≤ c.val) && decide (c.val ≤ 'z'.val)) = true ↔ _
  rw [Bool.and_eq_true, decide_eq_true_eq, decide_eq_true_eq, UInt32.le_iff_toNat_le,
    UInt32.le_iff_toNat_le]
  rfl

theorem isAlpha_iff {c : Char} : c.isAlpha = true ↔ c.isUpper = true ∨ c.isLower = true := by
  change (c.isUpper || c.isLower) = true ↔ _
  rw [Bool.or_eq_true]

theorem isAlphanum_iff {c : Char} :
    c.isAlphanum = true ↔ c.isAlpha = true ∨ c.isDigit = true := by
  change (c.isAlpha || c.isDigit) = true ↔ _
  rw [Bool.or_eq_true]

/-- Letters and digits are between `0` and `z`. -/
theorem isAlphanum_bounds {c : Char} (h : c.isAlphanum = true) :
    48 ≤ c.val.toNat ∧ c.val.toNat ≤ 122 := by
  rw [isAlphanum_iff, isAlpha_iff, isUpper_iff, isLower_iff, Char.isDigit_iff_toNat] at h
  change _ ∨ 48 ≤ c.val.toNat ∧ c.val.toNat ≤ 57 at h
  omega

/-! ## Shortening -/

/-- `char::is_whitespace`: the Unicode property `White_Space`. -/
def isWhitespace (c : Char) : Bool :=
  let n := c.val.toNat
  9 ≤ n && n ≤ 13 || n == 0x20 || n == 0x85 || n == 0xa0 || n == 0x1680 ||
    0x2000 ≤ n && n ≤ 0x200a || n == 0x2028 || n == 0x2029 || n == 0x202f || n == 0x205f ||
    n == 0x3000

/-- `str::trim`. -/
def trim (s : String) : String :=
  String.ofList ((s.toList.dropWhile isWhitespace).rdropWhile isWhitespace)

/-- `&s[..n]`; `none` is its panic off a character boundary. -/
def sliceTo (n : Nat) (s : String) : Option String :=
  (takeBytes n s.toList).map String.ofList

/-- `String::truncate(n)`; `none` is its panic. -/
def truncate (n : Nat) (s : String) : Option String :=
  if n ≤ s.utf8ByteSize then sliceTo n s else some s

theorem sliceTo_eq_some {n : Nat} {s t : String} :
    sliceTo n s = some t ↔ t.toList <+: s.toList ∧ t.utf8ByteSize = n := by
  rw [sliceTo, Option.map_eq_some_iff]
  constructor
  · rintro ⟨p, hp, rfl⟩
    rw [String.toList_ofList, String.utf8ByteSize_ofList]
    exact takeBytes_eq_some.mp hp
  · rintro ⟨hinit, hsize⟩
    refine ⟨t.toList, takeBytes_eq_some.mpr ⟨hinit, ?_⟩, String.ofList_toList⟩
    rw [← String.utf8ByteSize_ofList, String.ofList_toList, hsize]

theorem sliceTo_isSome {n : Nat} {s : String} :
    (sliceTo n s).isSome ↔ IsCharBoundary n s.toList := by
  rw [sliceTo, Option.isSome_map, takeBytes_isSome]

theorem truncate_of_lt {n : Nat} {s : String} (h : n < s.utf8ByteSize) :
    truncate n s = sliceTo n s := if_pos h.le

theorem length_le_utf8ByteSize (s : String) : s.length ≤ s.utf8ByteSize := by
  rw [← String.length_toList, ← String.ofList_toList (s := s), String.utf8ByteSize_ofList,
    String.toList_ofList]
  exact length_le_utf8Len s.toList

end Tonggeret
