import Mathlib.Data.List.TakeWhile
import Tonggeret.Storage.Key

/-!
# What `decode_key` accepts

The timestamp is read by the standard integer parser and the sequence field is
skipped, so more byte strings decode than are ever printed: a sign, upper-case digits
and other widths are accepted in the first field, and anything in the second.  Byte
order and decoded timestamp agree as long as the first field looks printed.
-/

namespace Tonggeret.Storage

open Tonggeret.Lib

/-- The number that digits of base 16 write, read from the left. -/
def hexNumber (digits : List Nat) : Nat :=
  digits.foldl (fun acc digit => acc * 16 + digit) 0

/-- Digits of either case, at least one, after an optional `+`. -/
def HexNumeral (field : Bytes) (n : Nat) : Prop :=
  ∃ (digits : Bytes) (values : List Nat), digits ≠ [] ∧
    (field = digits ∨ field = 0x2b :: digits) ∧
    digits.map hexDigitValue = values.map some ∧ hexNumber values = n

/-- A numeral, a field without separator, and a name in UTF-8. -/
def KeyText (key : Bytes) (ts : UInt64) (name : String) : Prop :=
  ∃ field seq, key = field ++ separator :: (seq ++ separator :: utf8 name) ∧
    separator ∉ seq ∧ HexNumeral field ts.toNat

/-- One of `0-9a-f`. -/
def isLowerHex (b : UInt8) : Bool := 0x30 ≤ b && b ≤ 0x39 || 0x61 ≤ b && b ≤ 0x66

/-- The first field is at most 16 lower-case hexadecimal digits. -/
def PlainTimestamp (key : Bytes) : Prop :=
  ∃ field rest, key = field ++ separator :: rest ∧ field.length ≤ 16 ∧
    ∀ b ∈ field, isLowerHex b = true

/-! ## Numerals -/

theorem hexDigitValue_bounds {b : UInt8} {value : Nat} (h : hexDigitValue b = some value) :
    value < 16 ∧ b.toNat < 128 ∧ b ≠ separator ∧ b ≠ 0x2b := by
  have hne : b ≠ separator ∧ b ≠ 0x2b := by
    constructor
    · rintro rfl
      contradiction
    · rintro rfl
      contradiction
  refine ⟨?_, ?_, hne⟩
  · simp only [hexDigitValue, UInt8.le_iff_toNat_le, UInt8.toNat_ofNat] at h
    grind
  · simp only [hexDigitValue, UInt8.le_iff_toNat_le, UInt8.toNat_ofNat] at h
    grind

theorem foldlM_pushHexDigit_eq_some {digits : Bytes} {acc n : Nat} (hacc : acc < 2 ^ 64) :
    digits.foldlM pushHexDigit acc = some n ↔
      ∃ values : List Nat, digits.map hexDigitValue = values.map some ∧
        values.foldl (fun acc digit => acc * 16 + digit) acc = n ∧ n < 2 ^ 64 := by
  induction digits generalizing acc with
  | nil =>
      constructor
      · intro h
        obtain rfl : acc = n := Option.some.inj h
        exact ⟨[], rfl, rfl, hacc⟩
      · rintro ⟨values, hvalues, hn, -⟩
        obtain rfl : values = [] := by simpa using hvalues.symm
        exact congrArg some hn
  | cons b digits ih =>
      rw [List.foldlM_cons, Option.bind_eq_bind, Option.bind_eq_some_iff]
      constructor
      · rintro ⟨m, hpush, hrest⟩
        rw [pushHexDigit, Option.bind_eq_bind, Option.bind_eq_some_iff] at hpush
        obtain ⟨digit, hdigit, hfit⟩ := hpush
        split at hfit
        · rename_i hlt
          obtain rfl := Option.some.inj hfit
          obtain ⟨values, hvalues, hn, hbound⟩ := (ih hlt).mp hrest
          refine ⟨digit :: values, ?_, hn, hbound⟩
          rw [List.map_cons, List.map_cons, hdigit, hvalues]
        · contradiction
      · rintro ⟨values, hvalues, hn, hbound⟩
        cases values with
        | nil => simp at hvalues
        | cons digit values =>
            rw [List.map_cons, List.map_cons, List.cons.injEq] at hvalues
            have hlt : acc * 16 + digit < 2 ^ 64 := by
              refine lt_of_le_of_lt ?_ hbound
              rw [← hn]
              exact le_foldl_digits (by omega) values _
            refine ⟨acc * 16 + digit, ?_, (ih hlt).mpr ⟨values, hvalues.2, hn, hbound⟩⟩
            rw [pushHexDigit, hvalues.1]
            exact if_pos hlt

/-- All bytes are digits, and they write the number. -/
def Writes (digits : Bytes) (n : Nat) : Prop :=
  ∃ values : List Nat, digits.map hexDigitValue = values.map some ∧ hexNumber values = n

theorem not_writes_cons {b : UInt8} (h : hexDigitValue b = none) (digits : Bytes) (n : Nat) :
    ¬ Writes (b :: digits) n := by
  rintro ⟨values, hvalues, -⟩
  cases values with
  | nil => simp at hvalues
  | cons value values => simp [h] at hvalues

theorem hexNumeral_signed {digits : Bytes} {n : Nat} :
    HexNumeral (0x2b :: digits) n ↔ digits ≠ [] ∧ Writes digits n := by
  constructor
  · rintro ⟨digits', values, hne, rfl | hfield, hwrites⟩
    · exact absurd ⟨values, hwrites⟩ (not_writes_cons (by decide) digits n)
    · obtain rfl := (List.cons.inj hfield).2
      exact ⟨hne, values, hwrites⟩
  · rintro ⟨hne, values, hwrites⟩
    exact ⟨digits, values, hne, Or.inr rfl, hwrites⟩

theorem hexNumeral_unsigned {field : Bytes} {n : Nat} (hsign : field.head? ≠ some 0x2b) :
    HexNumeral field n ↔ field ≠ [] ∧ Writes field n := by
  constructor
  · rintro ⟨digits, values, hne, rfl | rfl, hwrites⟩
    · exact ⟨hne, values, hwrites⟩
    · exact absurd rfl hsign
  · rintro ⟨hne, values, hwrites⟩
    exact ⟨field, values, hne, Or.inl rfl, hwrites⟩

theorem readDigits_eq_some {digits : Bytes} {ts : UInt64} :
    ((digits.foldlM pushHexDigit 0).bind fun value => some (UInt64.ofNat value)) = some ts ↔
      Writes digits ts.toNat := by
  rw [Option.bind_eq_some_iff]
  constructor
  · rintro ⟨n, hfold, hts⟩
    obtain rfl := Option.some.inj hts
    obtain ⟨values, hvalues, hn, hbound⟩ :=
      (foldlM_pushHexDigit_eq_some (by omega)).mp hfold
    refine ⟨values, hvalues, ?_⟩
    rw [hexNumber, hn, UInt64.toNat_ofNat_of_lt' hbound]
  · rintro ⟨values, hvalues, hn⟩
    refine ⟨ts.toNat, (foldlM_pushHexDigit_eq_some (by omega)).mpr ⟨values, hvalues, hn, ?_⟩,
      congrArg some UInt64.ofNat_toNat⟩
    exact ts.toNat_lt

/-- The standard parser reads exactly the numerals below `2 ^ 64`. -/
theorem fromStrRadix16_eq_some {field : Bytes} {ts : UInt64} :
    fromStrRadix16 field = some ts ↔ HexNumeral field ts.toNat := by
  match field with
  | [] =>
      rw [hexNumeral_unsigned (by simp)]
      simp [fromStrRadix16]
  | [b] =>
      by_cases hplus : b = 0x2b
      · subst hplus
        rw [hexNumeral_signed]
        simp [fromStrRadix16]
      · rw [hexNumeral_unsigned (by simpa using hplus)]
        by_cases hminus : b = 0x2d
        · -- a sign alone
          subst hminus
          have hnone : ¬ Writes [0x2d] ts.toNat := not_writes_cons (by decide) [] ts.toNat
          simp [fromStrRadix16, hnone]
        · have hdigits : fromStrRadix16 [b] = ([b].foldlM pushHexDigit 0).bind
              fun value => some (UInt64.ofNat value) := by
            simp [fromStrRadix16, hplus, hminus]
          rw [hdigits, readDigits_eq_some]
          simp
  | b :: b' :: rest =>
      by_cases hplus : b = 0x2b
      · subst hplus
        have hdigits : fromStrRadix16 (0x2b :: b' :: rest) =
            ((b' :: rest).foldlM pushHexDigit 0).bind
              fun value => some (UInt64.ofNat value) := rfl
        rw [hdigits, readDigits_eq_some, hexNumeral_signed]
        simp
      · have hdigits : fromStrRadix16 (b :: b' :: rest) =
            ((b :: b' :: rest).foldlM pushHexDigit 0).bind
              fun value => some (UInt64.ofNat value) := by
          simp [fromStrRadix16, hplus]
        rw [hdigits, readDigits_eq_some, hexNumeral_unsigned (by simpa using hplus)]
        simp

theorem ascii_of_hexNumeral {field : Bytes} {n : Nat} (h : HexNumeral field n) :
    (∀ b ∈ field, b.toNat < 128) ∧ separator ∉ field := by
  obtain ⟨digits, values, -, hfield, hvalues, -⟩ := h
  have hdigit : ∀ b ∈ digits, b.toNat < 128 ∧ b ≠ separator := by
    intro b hb
    have hmem : hexDigitValue b ∈ values.map some := hvalues ▸ List.mem_map_of_mem hb
    obtain ⟨value, -, hvalue⟩ := List.mem_map.mp hmem
    have hbounds := hexDigitValue_bounds hvalue.symm
    exact ⟨hbounds.2.1, hbounds.2.2.1⟩
  rcases hfield with rfl | rfl
  · exact ⟨fun b hb => (hdigit b hb).1, fun hmem => (hdigit _ hmem).2 rfl⟩
  · constructor
    · intro b hb
      rcases List.mem_cons.mp hb with rfl | hb
      · decide
      · exact (hdigit b hb).1
    · intro hmem
      rcases List.mem_cons.mp hmem with heq | hmem
      · contradiction
      · exact (hdigit _ hmem).2 rfl

/-! ## Fields -/

theorem splitn_of_notMem {l : Bytes} (h : separator ∉ l) (n : Nat) :
    splitn (n + 2) (· == separator) l = [l] := by
  have hspan : l.span (fun b => !(b == separator)) = (l, []) := by
    have hall : ∀ b ∈ l, (!(b == separator)) = true := by
      intro b hb
      have hne : b ≠ separator := fun heq => h (heq ▸ hb)
      simpa using hne
    rw [List.span_eq_takeWhile_dropWhile, List.takeWhile_eq_self_iff.mpr hall,
      List.dropWhile_eq_nil_iff.mpr hall]
  rw [splitn, hspan]

theorem splitn_separator {field : Bytes} (h : separator ∉ field) (rest : Bytes) (n : Nat) :
    splitn (n + 2) (· == separator) (field ++ separator :: rest) =
      field :: splitn (n + 1) (· == separator) rest := by
  rw [splitn, span_separator h]

/-- The fields up to the first and the second separator, and the rest. -/
theorem decodeKey_fields {field seq : Bytes} (hfield : separator ∉ field)
    (hseq : separator ∉ seq) (rest : Bytes) (ts : UInt64) (name : String) :
    decodeKey (field ++ separator :: (seq ++ separator :: rest)) = some (ts, name) ↔
      HexNumeral field ts.toNat ∧ utf8 name = rest := by
  have hsplit : splitn 3 (· == separator) (field ++ separator :: (seq ++ separator :: rest)) =
      [field, seq, rest] := by
    rw [splitn_separator hfield, splitn_separator hseq]
    rfl
  rw [decodeKey, hsplit, ← fromStrRadix16_eq_some]
  simp only [List.getElem?_cons_zero, List.getElem?_cons_succ, Option.bind_eq_bind,
    Option.bind_some, Option.bind_eq_some_iff, Option.pure_def, Option.some.injEq,
    Prod.mk.injEq]
  constructor
  · rintro ⟨text, htext, name', hname, ts', hts, rfl, rfl⟩
    rw [utf8_of_fromUtf8 htext] at hts
    exact ⟨hts, utf8_of_fromUtf8 hname⟩
  · rintro ⟨hts, rfl⟩
    have hnumeral := fromStrRadix16_eq_some.mp hts
    obtain ⟨text, rfl⟩ := exists_utf8_of_ascii (ascii_of_hexNumeral hnumeral).1
    exact ⟨text, fromUtf8_utf8 text, name, fromUtf8_utf8 name, ts, hts, rfl, rfl⟩

theorem decodeKey_eq_some {key : Bytes} {ts : UInt64} {name : String} :
    decodeKey key = some (ts, name) ↔ KeyText key ts name := by
  constructor
  · intro h
    by_cases hfirst : separator ∈ key
    · obtain ⟨field, tail, rfl, hfield⟩ := List.eq_append_cons_of_mem hfirst
      by_cases hsecond : separator ∈ tail
      · obtain ⟨seq, rest, rfl, hseq⟩ := List.eq_append_cons_of_mem hsecond
        obtain ⟨hnumeral, rfl⟩ := (decodeKey_fields hfield hseq rest ts name).mp h
        exact ⟨field, seq, rfl, hseq, hnumeral⟩
      · rw [decodeKey, splitn_separator hfield, splitn_of_notMem hsecond] at h
        simp at h
    · rw [decodeKey, splitn_of_notMem hfirst] at h
      simp at h
  · rintro ⟨field, seq, rfl, hseq, hnumeral⟩
    exact (decodeKey_fields (ascii_of_hexNumeral hnumeral).2 hseq _ ts name).mpr
      ⟨hnumeral, rfl⟩

/-! ## Order of plain timestamps -/

theorem hexByte_of_isLowerHex {b : UInt8} (h : isLowerHex b = true) :
    ∃ value < 16, hexByte value = b ∧ hexDigitValue b = some value := by
  have hall : ∀ n < 256, isLowerHex (UInt8.ofNat n) = true →
      ∃ value < 16, hexByte value = UInt8.ofNat n ∧
        hexDigitValue (UInt8.ofNat n) = some value := by
    decide +kernel
  have hb := hall b.toNat b.toNat_lt
  rw [UInt8.ofNat_toNat] at hb
  exact hb h

theorem plain_digits {digits : Bytes} {values : List Nat}
    (hplain : ∀ b ∈ digits, isLowerHex b = true)
    (hvalues : digits.map hexDigitValue = values.map some) :
    digits = values.map hexByte ∧ ∀ value ∈ values, value < 16 := by
  induction digits generalizing values with
  | nil =>
      obtain rfl : values = [] := by simpa using hvalues.symm
      simp
  | cons b digits ih =>
      cases values with
      | nil => simp at hvalues
      | cons value values =>
          rw [List.map_cons, List.map_cons, List.cons.injEq] at hvalues
          obtain ⟨hrest, hlt⟩ := ih (fun c hc => hplain c (by simp [hc])) hvalues.2
          obtain ⟨value', hvalue', hbyte, hread⟩ :=
            hexByte_of_isLowerHex (hplain b (by simp))
          obtain rfl : value' = value := Option.some.inj (hread.symm.trans hvalues.1)
          refine ⟨by rw [List.map_cons, hbyte, ← hrest], ?_⟩
          intro v hv
          rcases List.mem_cons.mp hv with rfl | hv
          · exact hvalue'
          · exact hlt v hv

/-- A plain field is the printed field of its own width of the number it writes. -/
theorem plain_eq_hexField {field : Bytes} {n : Nat} (hplain : ∀ b ∈ field, isLowerHex b = true)
    (hnumeral : HexNumeral field n) :
    field = hexField field.length n ∧ n < 16 ^ field.length := by
  obtain ⟨digits, values, -, hfield, hvalues, rfl⟩ := hnumeral
  obtain rfl : digits = field := by
    rcases hfield with rfl | rfl
    · rfl
    · exact absurd (hplain 0x2b (by simp)) (by decide)
  have hlength : digits.length = values.length := by
    simpa using congrArg List.length hvalues
  obtain ⟨hbytes, hlt⟩ := plain_digits hplain hvalues
  rw [hlength, hexNumber]
  refine ⟨?_, foldl_digits_lt hlt⟩
  rw [hexField, digitsBE_foldl hlt]
  exact hbytes

/-- The separator is below a digit only if the digit is a letter. -/
theorem ten_le_of_separator_lt {digit : Nat} (hdigit : digit < 16)
    (h : separator < hexByte digit) : 10 ≤ digit := by
  interval_cases digit <;> first | omega | exact absurd h (by decide)

/-- A field of at most 16 digits followed by a separator is below the bound only if
its number is: where it is a prefix of the bound, the bound goes on with a letter. -/
theorem lt_of_field_lt {width n c : Nat} {rest : Bytes} (hwidth : width ≤ 16)
    (hn : n < 16 ^ width) (hc : c < 16 ^ 16)
    (h : hexField width n ++ separator :: rest < hexField 16 c) : n < c := by
  have hsplit : hexField 16 c =
      hexField width (c / 16 ^ (16 - width)) ++ hexField (16 - width) c := by
    have hadd := digitsBE_add 16 width (16 - width) c
    rw [Nat.add_sub_cancel' hwidth] at hadd
    rw [hexField, hadd, List.map_append, hexField, hexField]
  have hhigh : c / 16 ^ (16 - width) < 16 ^ width := by
    rw [Nat.div_lt_iff_lt_mul (Nat.pow_pos (by omega)), ← Nat.pow_add,
      Nat.add_sub_cancel' hwidth]
    exact hc
  rw [hsplit, append_lt_append_iff _ _ (by simp), hexField_lt_iff hn hhigh,
    hexField_inj hn hhigh] at h
  rcases h with hlt | ⟨heq, hrest⟩
  · exact hlt.trans_le (Nat.div_le_self _ _)
  · cases hgap : 16 - width with
    | zero => simp [hgap, hexField, digitsBE] at hrest
    | succ gap =>
        have hdigit : c / 16 ^ gap % 16 < 16 := Nat.mod_lt _ (by omega)
        have hletter : 10 ≤ c / 16 ^ gap % 16 := by
          apply ten_le_of_separator_lt hdigit
          rw [hgap, hexField, digitsBE, List.map_cons, List.cons_lt_cons_iff] at hrest
          rcases hrest with hlt | ⟨hsep, -⟩
          · exact hlt
          · exact absurd hsep.symm (hexByte_ne_separator hdigit)
        have hquot : c / 16 ^ gap / 16 = n := by
          rw [heq, hgap, Nat.pow_succ, Nat.div_div_eq_div_mul]
        have hle : c / 16 ^ gap ≤ c := Nat.div_le_self _ _
        omega

/-- What compaction exports is expired if its timestamp field is plain. -/
theorem timestamp_lt_of_plain {key : Bytes} {ts c : UInt64} {name : String}
    (hdecode : KeyText key ts name) (hplain : PlainTimestamp key)
    (h : key < utf8 (cutoffPrefix c)) : ts < c := by
  obtain ⟨field, rest, rfl, hwidth, hlower⟩ := hplain
  obtain ⟨field', seq, hkey, -, hnumeral⟩ := hdecode
  have hfield : separator ∉ field := by
    intro hmem
    exact absurd (hlower separator hmem) (by decide)
  have hspan := @span_separator field rest hfield
  rw [hkey, span_separator (ascii_of_hexNumeral hnumeral).2, Prod.mk.injEq] at hspan
  obtain rfl := hspan.1
  obtain ⟨hprinted, hbound⟩ := plain_eq_hexField hlower hnumeral
  rw [utf8_cutoffPrefix, hprinted] at h
  exact UInt64.lt_iff_toNat_lt.mpr
    (lt_of_field_lt hwidth hbound (toNat_lt_pow_hex16 c) h)

theorem plainTimestamp_encodeKey (ts : UInt64) (seq : UInt32) (name : String) :
    PlainTimestamp (encodeKey ts seq name) := by
  refine ⟨_, _, encodeKey_eq ts seq name, by simp, ?_⟩
  intro b hb
  obtain ⟨digit, hdigit, rfl⟩ := List.mem_map.mp hb
  have hall : ∀ digit < 16, isLowerHex (hexByte digit) = true := by decide
  exact hall digit (digitsBE_lt (by omega) hdigit)

/-- The accepted language: any numeral and any second field, so every printed key;
and byte order bounds the timestamps of the keys printed plainly. -/
theorem decoded_keys_are_key_texts :
    (∀ key ts name, decodeKey key = some (ts, name) ↔ KeyText key ts name) ∧
    (∀ ts seq name,
      KeyText (encodeKey ts seq name) ts name ∧ PlainTimestamp (encodeKey ts seq name)) ∧
    (∀ c key ts name, key < utf8 (cutoffPrefix c) → decodeKey key = some (ts, name) →
      PlainTimestamp key → ts < c) := by
  refine ⟨fun _ _ _ => decodeKey_eq_some, ?_, ?_⟩
  · intro ts seq name
    exact ⟨decodeKey_eq_some.mp (decodeKey_encodeKey ts seq name),
      plainTimestamp_encodeKey ts seq name⟩
  · intro c key ts name hlt hdecode hplain
    exact timestamp_lt_of_plain (decodeKey_eq_some.mp hdecode) hplain hlt

/-- `+1:0:x` decodes and is no printed key; a sign also sorts below every digit, so
`+fffffffffffffff:0:x` is scanned under a cutoff of one microsecond. -/
theorem signed_keys_decode :
    (¬ ∀ key ts name, decodeKey key = some (ts, name) ↔
      ∃ seq : UInt32, key = encodeKey ts seq name) ∧
    ¬ ∀ c key ts name, key < utf8 (cutoffPrefix c) → decodeKey key = some (ts, name) →
      ts < c := by
  constructor
  · intro h
    obtain ⟨seq, hseq⟩ := (h (utf8 "+1:0:x") 1 "x").mp (by decide +kernel)
    have hprinted : (utf8 "+1:0:x").length = 6 := by decide +kernel
    rw [hseq, encodeKey_eq] at hprinted
    simp at hprinted
    omega
  · intro h
    have hlt := h 1 (utf8 "+fffffffffffffff:0:x") 0xfffffffffffffff "x"
      (by decide +kernel) (by decide +kernel)
    exact absurd hlt (by decide)

/-! The sequence field is not read, and letters of either case are digits. -/

example : decodeKey (utf8 "000000000000000A:no seq:x") = some (10, "x") := by decide +kernel

end Tonggeret.Storage
