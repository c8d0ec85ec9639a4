import Mathlib.Data.String.Basic
import Tonggeret.Calendar
import Tonggeret.Lib.ByteOrder

/-!
# Stamps in order

In the years 0 to 9999 a stamp is eight digits of the date, a `T` and six digits of the
time of day, so stamps compare as text as their instants do.
-/

namespace Tonggeret

open Tonggeret.Lib

/-- The calendar date of an instant. -/
def utcDate (t : Instant) : Int × Nat × Nat :=
  civilFromDays ((t.fdiv nanosPerSecond).fdiv 86400)

def secondOfDay (t : Instant) : Nat := ((t.fdiv nanosPerSecond).fmod 86400).toNat

/-- The instant is in one of the years 0 to 9999. -/
def FourDigitYear (t : Instant) : Prop := 0 ≤ (utcDate t).1 ∧ (utcDate t).1 ≤ 9999

instance (t : Instant) : Decidable (FourDigitYear t) := by
  unfold FourDigitYear
  infer_instance

/-- The time of day as one number, `hhmmss`. -/
def timeNumber (second : Nat) : Nat :=
  (second / 3600 * 100 + second / 60 % 60) * 100 + second % 60

/-- The decimal digits in fixed width. -/
def decimalField (width n : Nat) : List Char := (digitsBE 10 width n).map Nat.digitChar

/-! ## Fields -/

theorem toList_formatDecimal {width n : Nat} (h : n < 10 ^ (width + 1)) :
    (formatDecimal (width + 1) n).toList = decimalField (width + 1) n := by
  rw [formatDecimal, String.toList_ofList, leftpad_toDigits (by decide) h, decimalField]

theorem decimalField_append {width width' n m : Nat} (h : m < 10 ^ width') :
    decimalField width n ++ decimalField width' m =
      decimalField (width + width') (n * 10 ^ width' + m) := by
  unfold decimalField
  rw [← List.map_append, digitsBE_append_digitsBE h]

theorem digitChar_lt_iff (d e : Nat) (hd : d < 10) (he : e < 10) :
    d.digitChar < e.digitChar ↔ d < e := by
  interval_cases d <;> interval_cases e <;> decide

theorem decimalField_lt_iff {width n m : Nat} (hn : n < 10 ^ width) (hm : m < 10 ^ width) :
    decimalField width n < decimalField width m ↔ n < m := by
  unfold decimalField
  rw [map_lt_map_iff digitChar_lt_iff (fun _ h => digitsBE_lt (by decide) h)
    (fun _ h => digitsBE_lt (by decide) h)]
  exact digitsBE_lt_digitsBE_iff (by decide) hn hm

@[simp] theorem length_decimalField (width n : Nat) :
    (decimalField width n).length = width := by
  simp [decimalField]

/-! ## Date and time -/

theorem utcDate_bounds (t : Instant) :
    1 ≤ (utcDate t).2.1 ∧ (utcDate t).2.1 ≤ 12 ∧ 1 ≤ (utcDate t).2.2 ∧ (utcDate t).2.2 ≤ 31 := by
  let date := marchDate ((t.fdiv nanosPerSecond).fdiv 86400)
  obtain ⟨y, m, d, mp, hdate, -, hm, hm12, hd, hd31, -⟩ :=
    civilOfMarch_spec date.1 (marchDate_day_le ((t.fdiv nanosPerSecond).fdiv 86400))
  have hutc : utcDate t = (y, m, d) := hdate
  rw [hutc]
  exact ⟨hm, hm12, hd, hd31⟩

theorem secondOfDay_lt (t : Instant) : secondOfDay t < 86400 := by
  unfold secondOfDay
  rw [Int.fmod_eq_emod_of_nonneg _ (by decide)]
  omega

theorem dateNumber_bounds {t : Instant} (h : FourDigitYear t) :
    0 ≤ dateNumber (utcDate t) ∧ dateNumber (utcDate t) < 10 ^ 8 := by
  obtain ⟨hm, hm12, hd, hd31⟩ := utcDate_bounds t
  obtain ⟨hy, hy9999⟩ := h
  unfold dateNumber
  omega

theorem timeNumber_lt {second : Nat} (h : second < 86400) : timeNumber second < 10 ^ 6 := by
  unfold timeNumber
  omega

theorem timeNumber_mono {second second' : Nat} (h : second ≤ second') :
    timeNumber second ≤ timeNumber second' := by
  have hhour : ∀ n, n / 3600 = n / 60 / 60 := fun n => (Nat.div_div_eq_div_mul n 60 60).symm
  have hminute : ∀ m m' : Nat, m < m' →
      m / 60 * 100 + m % 60 < m' / 60 * 100 + m' % 60 := by
    intro m m' hlt
    omega
  unfold timeNumber
  rw [hhour, hhour]
  rcases Nat.lt_or_eq_of_le (Nat.div_le_div_right (c := 60) h) with hlt | heq
  · have hstep := hminute _ _ hlt
    omega
  · rw [heq]
    omega

/-- A stamp as the digits of two numbers. -/
theorem toList_formatStamp {t : Instant} (h : FourDigitYear t) :
    (formatStamp t).toList =
      decimalField 8 (dateNumber (utcDate t)).toNat ++
        'T' :: decimalField 6 (timeNumber (secondOfDay t)) := by
  obtain ⟨hm, hm12, hd, hd31⟩ := utcDate_bounds t
  have hsecond := secondOfDay_lt t
  have hyear : (formatYear (utcDate t).1).toList = decimalField 4 (utcDate t).1.toNat := by
    have hrange : 0 ≤ (utcDate t).1 ∧ (utcDate t).1 ≤ 9999 := h
    rw [formatYear, if_pos hrange]
    apply toList_formatDecimal
    omega
  have hdate : (dateNumber (utcDate t)).toNat =
      ((utcDate t).1.toNat * 10 ^ 2 + (utcDate t).2.1) * 10 ^ 2 + (utcDate t).2.2 := by
    obtain ⟨hy, -⟩ := h
    unfold dateNumber
    omega
  have hstamp : formatStamp t = formatYear (utcDate t).1 ++ formatDecimal 2 (utcDate t).2.1 ++
      formatDecimal 2 (utcDate t).2.2 ++ "T" ++ formatDecimal 2 (secondOfDay t / 3600) ++
      formatDecimal 2 (secondOfDay t / 60 % 60) ++ formatDecimal 2 (secondOfDay t % 60) := rfl
  have htwo : ∀ n, n < 100 → (formatDecimal 2 n).toList = decimalField 2 n :=
    fun n hn => toList_formatDecimal hn
  rw [hstamp]
  simp only [String.toList_append, hyear]
  rw [htwo _ (by omega), htwo _ (by omega), htwo _ (by omega), htwo _ (by omega),
    htwo _ (by omega), decimalField_append (by omega), decimalField_append (by omega),
    ← hdate, List.append_assoc, List.append_assoc, List.append_assoc, ← List.append_assoc
      (decimalField 2 _) (decimalField 2 _), decimalField_append (by omega),
    decimalField_append (by omega)]
  rfl

/-! ## Order -/

theorem day_cases {t t' : Instant} (h : t ≤ t') :
    (t.fdiv nanosPerSecond).fdiv 86400 < (t'.fdiv nanosPerSecond).fdiv 86400 ∨
      (t.fdiv nanosPerSecond).fdiv 86400 = (t'.fdiv nanosPerSecond).fdiv 86400 ∧
        secondOfDay t ≤ secondOfDay t' := by
  have hseconds : t.fdiv nanosPerSecond ≤ t'.fdiv nanosPerSecond := by
    unfold nanosPerSecond
    rw [Int.fdiv_eq_ediv_of_nonneg _ (by decide), Int.fdiv_eq_ediv_of_nonneg _ (by decide)]
    exact Int.ediv_le_ediv (by decide) h
  unfold secondOfDay
  generalize t.fdiv nanosPerSecond = seconds at hseconds
  generalize t'.fdiv nanosPerSecond = seconds' at hseconds
  rw [Int.fdiv_eq_ediv_of_nonneg _ (by decide), Int.fdiv_eq_ediv_of_nonneg _ (by decide),
    Int.fmod_eq_emod_of_nonneg _ (by decide), Int.fmod_eq_emod_of_nonneg _ (by decide)]
  omega

theorem date_time_cases {t t' : Instant} (h : t ≤ t') :
    dateNumber (utcDate t) < dateNumber (utcDate t') ∨
      dateNumber (utcDate t) = dateNumber (utcDate t') ∧
        timeNumber (secondOfDay t) ≤ timeNumber (secondOfDay t') := by
  rcases day_cases h with hday | ⟨hday, hsecond⟩
  · exact Or.inl (dateNumber_lt hday)
  · refine Or.inr ⟨?_, timeNumber_mono hsecond⟩
    rw [utcDate, utcDate, hday]

theorem length_formatStamp {t : Instant} (h : FourDigitYear t) :
    (formatStamp t).toList.length = 15 := by
  rw [toList_formatStamp h]
  simp

/-- Stamps never go back while the clock does not. -/
theorem formatStamp_le {t t' : Instant} (h : FourDigitYear t) (h' : FourDigitYear t')
    (hle : t ≤ t') : (formatStamp t).toList ≤ (formatStamp t').toList := by
  obtain ⟨hpos, hlt⟩ := dateNumber_bounds h
  obtain ⟨hpos', hlt'⟩ := dateNumber_bounds h'
  have htime := timeNumber_lt (secondOfDay_lt t)
  have htime' := timeNumber_lt (secondOfDay_lt t')
  rw [toList_formatStamp h, toList_formatStamp h', ← not_lt, append_lt_append_iff _ _ (by simp),
    List.cons_lt_cons_iff, decimalField_lt_iff (by omega) (by omega),
    decimalField_lt_iff htime' htime]
  rintro (hdate | ⟨hdate, hchar | ⟨-, hback⟩⟩)
  · rcases date_time_cases hle with hcase | hcase
    · omega
    · omega
  · exact lt_irrefl 'T' hchar
  · have hsame : ¬ dateNumber (utcDate t) < dateNumber (utcDate t') := by
      intro hcase
      have hfield : decimalField 8 (dateNumber (utcDate t)).toNat <
          decimalField 8 (dateNumber (utcDate t')).toNat :=
        (decimalField_lt_iff (by omega) (by omega)).mpr (by omega)
      rw [hdate] at hfield
      exact lt_irrefl _ hfield
    rcases date_time_cases hle with hcase | hcase
    · exact hsame hcase
    · omega

end Tonggeret
