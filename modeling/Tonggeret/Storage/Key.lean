import Tonggeret.Lib.ByteOrder
import Tonggeret.Text

/-!
# Composite sort keys

`{:016x}:{:08x}:<metric_name>` (micros since epoch : seq : name).  The two
numeric fields have a fixed width, so the byte order of keys is chronological
and expiry is a prefix-bounded range scan.  The metric name is the rest of the
key and may itself contain the separator.
-/

namespace Tonggeret.Storage

open Tonggeret.Lib

/-- The `:` that separates the fields of a key. -/
def separator : UInt8 := 0x3a

/-- `{n:0widthx}`: lowercase hexadecimal, zero-padded on the left. -/
def formatHex (width n : Nat) : String :=
  String.ofList ((Nat.toDigits 16 n).leftpad width '0')

/-- Encode a composite sort key: `{micros:016x}:{seq:08x}:{name}`. -/
def encodeKey (tsMicros : UInt64) (seq : UInt32) (name : String) : Bytes :=
  utf8 (formatHex 16 tsMicros.toNat ++ ":" ++ formatHex 8 seq.toNat ++ ":" ++ name)

/-- Upper-bound prefix for "older than `cutoffMicros`". -/
def cutoffPrefix (cutoffMicros : UInt64) : String :=
  formatHex 16 cutoffMicros.toNat

/-- `slice::splitn(n, p)`: at most `n` pieces, the last one unsplit. -/
def splitn {α : Type} : Nat → (α → Bool) → List α → List (List α)
  | 0, _, _ => []
  | 1, _, l => [l]
  | n + 2, p, l =>
      match l.span fun a => !p a with
      | (piece, []) => [piece]
      | (piece, _ :: rest) => piece :: splitn (n + 1) p rest

/-- `char::to_digit(16)` on one byte. -/
def hexDigitValue (b : UInt8) : Option Nat :=
  if 0x30 ≤ b ∧ b ≤ 0x39 then some (b.toNat - 0x30)
  else if 0x61 ≤ b ∧ b ≤ 0x66 then some (b.toNat - 0x61 + 10)
  else if 0x41 ≤ b ∧ b ≤ 0x46 then some (b.toNat - 0x41 + 10)
  else none

/-- One digit of `from_str_radix(_, 16)`, with the overflow check of `u64`. -/
def pushHexDigit (acc : Nat) (b : UInt8) : Option Nat := do
  let digit ← hexDigitValue b
  if acc * 16 + digit < 2 ^ 64 then some (acc * 16 + digit) else none

/-- `u64::from_str_radix(src, 16).ok()`.  A leading `+` is accepted, a lone sign
is not, and both letter cases are digits. -/
def fromStrRadix16 (src : Bytes) : Option UInt64 := do
  let digits ←
    match src with
    | [] => none
    | [b] => if b = 0x2b ∨ b = 0x2d then none else some [b]
    | b :: rest => some (if b = 0x2b then rest else b :: rest)
  let value ← digits.foldlM pushHexDigit 0
  return UInt64.ofNat value

/-- Decode `(timestamp_micros, metric_name)` from a composite key. -/
def decodeKey (key : Bytes) : Option (UInt64 × String) := do
  let parts := splitn 3 (· == separator) key
  let ts ← fromUtf8 (← parts[0]?)
  let _seq ← parts[1]?
  let name ← fromUtf8 (← parts[2]?)
  let tsMicros ← fromStrRadix16 (utf8 ts)
  return (tsMicros, name)

example : decodeKey (encodeKey 2000 3 "a:b") = some (2000, "a:b") := by decide

/-! ## Printed hexadecimal fields -/

/-- The byte printed for one hexadecimal digit. -/
def hexByte (digit : Nat) : UInt8 := digit.digitChar.val.toUInt8

/-- The bytes of one fixed-width hexadecimal field. -/
def hexField (width n : Nat) : Bytes := (digitsBE 16 width n).map hexByte

@[simp] theorem length_hexField (width n : Nat) :
    (hexField width n).length = width := by
  simp [hexField]

theorem digitChar_ascii {digit : Nat} (h : digit < 16) :
    digit.digitChar.val.toNat < 128 := by
  interval_cases digit <;> decide

theorem hexByte_lt_iff (d e : Nat) (hd : d < 16) (he : e < 16) :
    hexByte d < hexByte e ↔ d < e := by
  interval_cases d <;> interval_cases e <;> decide

theorem hexDigitValue_hexByte {digit : Nat} (h : digit < 16) :
    hexDigitValue (hexByte digit) = some digit := by
  interval_cases digit <;> decide

theorem hexByte_ne_separator {digit : Nat} (h : digit < 16) :
    hexByte digit ≠ separator := by
  interval_cases digit <;> decide

theorem hexByte_ne_plus {digit : Nat} (h : digit < 16) : hexByte digit ≠ 0x2b := by
  interval_cases digit <;> decide

theorem utf8_formatHex {width n : Nat} (hn : n < 16 ^ (width + 1)) :
    utf8 (formatHex (width + 1) n) = hexField (width + 1) n := by
  rw [formatHex, leftpad_toDigits (by omega) hn, utf8_ofList_of_ascii, hexField, List.map_map]
  · rfl
  · intro c hc
    obtain ⟨digit, hdigit, rfl⟩ := List.mem_map.mp hc
    exact digitChar_ascii (digitsBE_lt (by omega) hdigit)

/-- Equally wide hexadecimal fields compare as the numbers they write. -/
theorem hexField_lt_iff {width n m : Nat} (hn : n < 16 ^ width)
    (hm : m < 16 ^ width) :
    hexField width n < hexField width m ↔ n < m := by
  rw [hexField, hexField, map_lt_map_iff hexByte_lt_iff
      (fun _ h => digitsBE_lt (by omega) h) (fun _ h => digitsBE_lt (by omega) h)]
  exact digitsBE_lt_digitsBE_iff (by omega) hn hm

theorem hexField_inj {width n m : Nat} (hn : n < 16 ^ width) (hm : m < 16 ^ width) :
    hexField width n = hexField width m ↔ n = m := by
  constructor
  · intro h
    have hnm := (hexField_lt_iff hn hm).not.mp (by rw [h]; exact lt_irrefl _)
    have hmn := (hexField_lt_iff hm hn).not.mp (by rw [h]; exact lt_irrefl _)
    omega
  · exact fun h => by rw [h]

theorem separator_notMem_hexField (width n : Nat) :
    separator ∉ hexField width n := by
  intro hmem
  obtain ⟨digit, hdigit, heq⟩ := List.mem_map.mp hmem
  exact hexByte_ne_separator (digitsBE_lt (by omega) hdigit) heq

/-! ## Byte order is chronological order -/

theorem toNat_lt_pow_hex16 (t : UInt64) : t.toNat < 16 ^ 16 := by
  have h := t.toNat_lt
  norm_num at h ⊢
  exact h

theorem toNat_lt_pow_hex8 (s : UInt32) : s.toNat < 16 ^ 8 := by
  have h := s.toNat_lt
  norm_num at h ⊢
  exact h

theorem utf8_cutoffPrefix (c : UInt64) :
    utf8 (cutoffPrefix c) = hexField 16 c.toNat :=
  utf8_formatHex (toNat_lt_pow_hex16 c)

theorem encodeKey_eq (t : UInt64) (s : UInt32) (name : String) :
    encodeKey t s name =
      hexField 16 t.toNat ++
        separator :: (hexField 8 s.toNat ++ separator :: utf8 name) := by
  have hsep : utf8 ":" = [separator] := by decide
  rw [encodeKey, utf8_append, utf8_append, utf8_append, utf8_append,
    utf8_formatHex (toNat_lt_pow_hex16 t), utf8_formatHex (toNat_lt_pow_hex8 s), hsep]
  simp

/-- The order on `(timestamp, sequence, name)` triples, names compared as bytes. -/
def KeyBefore (t₁ : UInt64) (s₁ : UInt32) (n₁ : String)
    (t₂ : UInt64) (s₂ : UInt32) (n₂ : String) : Prop :=
  t₁ < t₂ ∨ t₁ = t₂ ∧ (s₁ < s₂ ∨ s₁ = s₂ ∧ utf8 n₁ < utf8 n₂)

theorem encodeKey_lt_iff (t₁ t₂ : UInt64) (s₁ s₂ : UInt32) (n₁ n₂ : String) :
    encodeKey t₁ s₁ n₁ < encodeKey t₂ s₂ n₂ ↔ KeyBefore t₁ s₁ n₁ t₂ s₂ n₂ := by
  have ht₁ := toNat_lt_pow_hex16 t₁
  have ht₂ := toNat_lt_pow_hex16 t₂
  have hs₁ := toNat_lt_pow_hex8 s₁
  have hs₂ := toNat_lt_pow_hex8 s₂
  rw [encodeKey_eq, encodeKey_eq, append_lt_append_iff _ _ (by simp),
    List.cons_lt_cons_iff, append_lt_append_iff _ _ (by simp), List.cons_lt_cons_iff,
    hexField_lt_iff ht₁ ht₂, hexField_inj ht₁ ht₂, hexField_lt_iff hs₁ hs₂,
    hexField_inj hs₁ hs₂]
  simp [KeyBefore, UInt64.lt_iff_toNat_lt, UInt32.lt_iff_toNat_lt,
    UInt64.toNat_inj, UInt32.toNat_inj]

theorem encodeKey_lt_cutoffPrefix_iff (t c : UInt64) (s : UInt32) (name : String) :
    encodeKey t s name < utf8 (cutoffPrefix c) ↔ t < c := by
  rw [encodeKey_eq, utf8_cutoffPrefix, append_lt_iff _ (by simp),
    hexField_lt_iff (toNat_lt_pow_hex16 t) (toNat_lt_pow_hex16 c),
    UInt64.lt_iff_toNat_lt]

theorem encodeKey_inj {t₁ t₂ : UInt64} {s₁ s₂ : UInt32} {n₁ n₂ : String}
    (h : encodeKey t₁ s₁ n₁ = encodeKey t₂ s₂ n₂) :
    t₁ = t₂ ∧ s₁ = s₂ ∧ n₁ = n₂ := by
  rw [encodeKey_eq, encodeKey_eq] at h
  obtain ⟨ht, htail⟩ := List.append_inj h (by simp)
  obtain ⟨hs, hname⟩ := List.append_inj (List.cons_inj_right _ |>.mp htail) (by simp)
  refine ⟨?_, ?_, utf8_injective (List.cons_inj_right _ |>.mp hname)⟩
  · exact UInt64.toNat_inj.mp
      ((hexField_inj (toNat_lt_pow_hex16 t₁) (toNat_lt_pow_hex16 t₂)).mp ht)
  · exact UInt32.toNat_inj.mp
      ((hexField_inj (toNat_lt_pow_hex8 s₁) (toNat_lt_pow_hex8 s₂)).mp hs)

/-- Keys sort by timestamp, then sequence, then name bytes, and the cutoff bound
separates exactly the older timestamps. -/
theorem byte_order_is_chronological :
    (∀ t₁ s₁ n₁ t₂ s₂ n₂,
      encodeKey t₁ s₁ n₁ < encodeKey t₂ s₂ n₂ ↔ KeyBefore t₁ s₁ n₁ t₂ s₂ n₂) ∧
    (∀ t₁ s₁ n₁ t₂ s₂ n₂, encodeKey t₁ s₁ n₁ = encodeKey t₂ s₂ n₂ →
      t₁ = t₂ ∧ s₁ = s₂ ∧ n₁ = n₂) ∧
    (∀ c t s n, encodeKey t s n < utf8 (cutoffPrefix c) ↔ t < c) := by
  refine ⟨?_, ?_, ?_⟩
  · intro t₁ s₁ n₁ t₂ s₂ n₂
    exact encodeKey_lt_iff t₁ t₂ s₁ s₂ n₁ n₂
  · intro t₁ s₁ n₁ t₂ s₂ n₂ h
    exact encodeKey_inj h
  · intro c t s n
    exact encodeKey_lt_cutoffPrefix_iff t c s n

/-! ## Decoding a printed key -/

theorem span_separator {field rest : Bytes} (hfield : separator ∉ field) :
    (field ++ separator :: rest).span (fun b => !(b == separator)) =
      (field, separator :: rest) := by
  induction field with
  | nil => simp [List.span, List.span.loop]
  | cons b field ih =>
      have hb : b ≠ separator := fun h => hfield (by simp [h])
      have htail := ih fun h => hfield (by simp [h])
      rw [List.span_eq_takeWhile_dropWhile] at htail ⊢
      simp only [Prod.mk.injEq] at htail
      simp [hb, htail.1, htail.2]

/-- The first two separators end the numeric fields; the name keeps the rest. -/
theorem splitn_encodeKey (t : UInt64) (s : UInt32) (name : String) :
    splitn 3 (· == separator) (encodeKey t s name) =
      [hexField 16 t.toNat, hexField 8 s.toNat, utf8 name] := by
  rw [encodeKey_eq, splitn, span_separator (separator_notMem_hexField _ _)]
  simp only
  rw [splitn, span_separator (separator_notMem_hexField _ _)]
  rfl

theorem foldlM_pushHexDigit {digits : List Nat} (hdigits : ∀ d ∈ digits, d < 16)
    (acc : Nat)
    (hfit : digits.foldl (fun acc digit => acc * 16 + digit) acc < 2 ^ 64) :
    (digits.map hexByte).foldlM pushHexDigit acc =
      some (digits.foldl (fun acc digit => acc * 16 + digit) acc) := by
  induction digits generalizing acc with
  | nil => rfl
  | cons d digits ih =>
      have hd : d < 16 := hdigits d (by simp)
      have hstep : acc * 16 + d < 2 ^ 64 := by
        refine lt_of_le_of_lt ?_ hfit
        exact le_foldl_digits (by omega) digits (acc * 16 + d)
      rw [List.map_cons, List.foldlM_cons, pushHexDigit, hexDigitValue_hexByte hd]
      simp only [Option.bind_eq_bind, Option.bind_some, if_pos hstep]
      exact ih (fun x hx => hdigits x (by simp [hx])) _ hfit

/-- Reading a printed field back: its first digit is never a sign, and the
overflow check never fires below `2 ^ 64`. -/
theorem fromStrRadix16_hexField {width n : Nat} (hn : n < 16 ^ (width + 2))
    (hfit : n < 2 ^ 64) :
    fromStrRadix16 (hexField (width + 2) n) = some (UInt64.ofNat n) := by
  have hvalue : (digitsBE 16 (width + 2) n).foldl
      (fun acc digit => acc * 16 + digit) 0 = n := by
    rw [foldl_digitsBE, Nat.mod_eq_of_lt hn]
    omega
  have hdigits : ∀ d ∈ digitsBE 16 (width + 2) n, d < 16 := by
    intro d hd
    exact digitsBE_lt (by omega) hd
  have hfold := foldlM_pushHexDigit hdigits 0 (by rw [hvalue]; exact hfit)
  have hplus : hexByte (n / 16 ^ (width + 1) % 16) ≠ 0x2b :=
    hexByte_ne_plus (Nat.mod_lt _ (by omega))
  rw [hvalue, ← hexField] at hfold
  have hcons : hexField (width + 2) n =
      hexByte (n / 16 ^ (width + 1) % 16) ::
        hexByte (n / 16 ^ width % 16) :: hexField width n := rfl
  rw [hcons] at hfold ⊢
  simp [fromStrRadix16, hplus, hfold]

theorem decodeKey_encodeKey (t : UInt64) (s : UInt32) (name : String) :
    decodeKey (encodeKey t s name) = some (t, name) := by
  have hts : fromUtf8 (hexField 16 t.toNat) = some (cutoffPrefix t) := by
    rw [← utf8_cutoffPrefix, fromUtf8_utf8]
  have hread : fromStrRadix16 (hexField 16 t.toNat) = some t := by
    rw [fromStrRadix16_hexField (toNat_lt_pow_hex16 t) t.toNat_lt, UInt64.ofNat_toNat]
  rw [decodeKey, splitn_encodeKey]
  simp [hts, utf8_cutoffPrefix, hread]

/-- Decoding inverts encoding for every name, separators in it included. -/
theorem key_round_trip :
    ∀ (ts : UInt64) (seq : UInt32) (name : String),
      decodeKey (encodeKey ts seq name) = some (ts, name) := by
  intro ts seq name
  exact decodeKey_encodeKey ts seq name

end Tonggeret.Storage
