import Mathlib.Data.Int.Order.Basic
import Mathlib.Order.Monotone.Basic
import Tonggeret.Clock

/-!
# Calendar dates in order

A later day has a later date.  Years are first counted from March on, so that a leap day
ends its year: there the days of an era are centuries, four-year cycles, years and days,
all of fixed length but for their last one.
-/

namespace Tonggeret

/-- Year from March on and day of that year, both from 0. -/
def marchDate (days : Int) : Int × Nat :=
  let shifted := days + 719468
  let era := shifted.fdiv 146097
  let dayOfEra := (shifted.fmod 146097).toNat
  let yearOfEra :=
    (dayOfEra - dayOfEra / 1460 + dayOfEra / 36524 - dayOfEra / 146096) / 365
  (yearOfEra + era * 400, dayOfEra - (365 * yearOfEra + yearOfEra / 4 - yearOfEra / 100))

/-- The year begins on the first of January again. -/
def civilOfMarch (date : Int × Nat) : Int × Nat × Nat :=
  let monthFromMarch := (5 * date.2 + 2) / 153
  let day := date.2 - (153 * monthFromMarch + 2) / 5 + 1
  let month := if monthFromMarch < 10 then monthFromMarch + 3 else monthFromMarch - 9
  (date.1 + if month ≤ 2 then 1 else 0, month, day)

theorem civilFromDays_eq (days : Int) : civilFromDays days = civilOfMarch (marchDate days) := rfl

/-! ## Years from March on -/

/-- The days of an era before one of its years. -/
def yearStart (year : Nat) : Nat := 365 * year + year / 4 - year / 100

theorem yearStart_mono : Monotone yearStart := by
  apply monotone_nat_of_le_succ
  intro y
  unfold yearStart
  omega

theorem yearStart_eq {c k j : Nat} (hk : k ≤ 24) (hj : j ≤ 3) :
    yearStart (100 * c + 4 * k + j) = 36524 * c + 1461 * k + 365 * j := by
  unfold yearStart
  omega

/-- A day of an era by century, four-year cycle, year and day; the last day of a leap
year is the 366th. -/
structure Cycles (dayOfEra c k j i : Nat) : Prop where
  century : c ≤ 3
  cycle : k ≤ 24
  year : j ≤ 3
  day : i ≤ 365
  leap : i = 365 → j = 3 ∧ (k = 24 → c = 3)
  eq : dayOfEra = 36524 * c + 1461 * k + 365 * j + i

theorem exists_cycles {dayOfEra : Nat} (h : dayOfEra < 146097) :
    ∃ c k j i, Cycles dayOfEra c k j i := by
  obtain ⟨c, r, hc, hr, hera, hlast⟩ : ∃ c r, c ≤ 3 ∧ r ≤ 36524 ∧
      dayOfEra = 36524 * c + r ∧ (r = 36524 → c = 3) :=
    ⟨min (dayOfEra / 36524) 3, dayOfEra - 36524 * min (dayOfEra / 36524) 3,
      by omega, by omega, by omega, by omega⟩
  obtain ⟨k, q, hk, hq, hcentury⟩ : ∃ k q, k ≤ 24 ∧ q ≤ 1460 ∧ r = 1461 * k + q :=
    ⟨min (r / 1461) 24, r - 1461 * min (r / 1461) 24, by omega, by omega, by omega⟩
  obtain ⟨j, i, hj, hi, hcycle, hleap⟩ : ∃ j i, j ≤ 3 ∧ i ≤ 365 ∧ q = 365 * j + i ∧
      (i = 365 → j = 3) :=
    ⟨min (q / 365) 3, q - 365 * min (q / 365) 3, by omega, by omega, by omega, by omega⟩
  refine ⟨c, k, j, i, hc, hk, hj, hi, ?_, by omega⟩
  intro hi
  have hj := hleap hi
  exact ⟨hj, fun hk => by omega⟩

section

variable {dayOfEra c k j i : Nat}

theorem Cycles.div_century (h : Cycles dayOfEra c k j i) :
    dayOfEra / 36524 = c + dayOfEra / 146096 := by
  obtain ⟨hc, hk, hj, hi, hleap, hday⟩ := h
  have hr : 1461 * k + 365 * j + i ≤ 36524 := by omega
  have hlast : 1461 * k + 365 * j + i = 36524 → c = 3 := by omega
  have hsplit : dayOfEra = 36524 * c + (1461 * k + 365 * j + i) := by omega
  rw [hsplit]
  generalize 1461 * k + 365 * j + i = r at hr hlast
  clear hleap hday hsplit
  omega

theorem Cycles.div_cycle (h : Cycles dayOfEra c k j i) :
    dayOfEra / 1460 = 25 * c + k + (24 * c + k + 365 * j + i) / 1460 := by
  rw [h.eq]
  omega

/-- The carry makes up for the leap days. -/
theorem Cycles.div_year (h : Cycles dayOfEra c k j i) :
    (36500 * c + 1460 * k + 365 * j + i - (24 * c + k + 365 * j + i) / 1460) / 365 =
      100 * c + 4 * k + j := by
  obtain ⟨hc, hk, hj, hi, hleap, -⟩ := h
  have hj3 : i = 365 → j = 3 := fun hi => (hleap hi).1
  clear hleap
  by_cases hcarry : 24 * c + k + 365 * j + i < 1460
  · have hzero : (24 * c + k + 365 * j + i) / 1460 = 0 := Nat.div_eq_of_lt hcarry
    have hshort : i < 365 := by omega
    rw [hzero]
    omega
  · have hone : (24 * c + k + 365 * j + i) / 1460 = 1 := by omega
    have hpos : 1 ≤ i := by omega
    rw [hone]
    clear hcarry hj3 hone
    omega

theorem Cycles.yearOfEra (h : Cycles dayOfEra c k j i) :
    (dayOfEra - dayOfEra / 1460 + dayOfEra / 36524 - dayOfEra / 146096) / 365 =
      100 * c + 4 * k + j := by
  rw [← h.div_year]
  have hcentury := h.div_century
  have hcycle := h.div_cycle
  have hday := h.eq
  congr 1
  omega

theorem Cycles.lt_yearStart_succ (h : Cycles dayOfEra c k j i)
    (hlast : 100 * c + 4 * k + j < 399) :
    dayOfEra < yearStart (100 * c + 4 * k + j + 1) := by
  obtain ⟨hc, hk, hj, hi, hleap, hday⟩ := h
  by_cases hyear : j = 3
  · by_cases hcycle : k = 24
    · have hnext := yearStart_eq (c := c + 1) (k := 0) (j := 0) (by omega) (by omega)
      have hsame : 100 * (c + 1) + 4 * 0 + 0 = 100 * c + 4 * k + j + 1 := by omega
      rw [hsame] at hnext
      omega
    · have hnext := yearStart_eq (c := c) (k := k + 1) (j := 0) (by omega) (by omega)
      have hsame : 100 * c + 4 * (k + 1) + 0 = 100 * c + 4 * k + j + 1 := by omega
      rw [hsame] at hnext
      omega
  · have hnext := yearStart_eq (c := c) (k := k) (j := j + 1) hk (by omega)
    rw [← Nat.add_assoc] at hnext
    omega

end

/-- The year of a day of an era, by the days before it and before the next year. -/
theorem yearOfEra_spec {dayOfEra : Nat} (h : dayOfEra < 146097) {year : Nat}
    (hyear : year =
      (dayOfEra - dayOfEra / 1460 + dayOfEra / 36524 - dayOfEra / 146096) / 365) :
    year ≤ 399 ∧ yearStart year ≤ dayOfEra ∧ dayOfEra ≤ yearStart year + 365 ∧
      (year < 399 → dayOfEra < yearStart (year + 1)) := by
  obtain ⟨c, k, j, i, hcycles⟩ := exists_cycles h
  rw [hcycles.yearOfEra] at hyear
  subst hyear
  have hstart := yearStart_eq (c := c) hcycles.cycle hcycles.year
  have hday := hcycles.eq
  have hi := hcycles.day
  have hc := hcycles.century
  have hk := hcycles.cycle
  have hj := hcycles.year
  exact ⟨by omega, by omega, by omega, hcycles.lt_yearStart_succ⟩

theorem marchDate_spec (days : Int) :
    ∃ (era : Int) (year day : Nat), marchDate days = (year + era * 400, day) ∧
      days + 719468 = 146097 * era + (yearStart year + day) ∧ year ≤ 399 ∧ day ≤ 365 ∧
      yearStart year + day < 146097 ∧
      (year < 399 → yearStart year + day < yearStart (year + 1)) := by
  let dayOfEra := ((days + 719468).fmod 146097).toNat
  have hmod : (days + 719468).fmod 146097 = (days + 719468) % 146097 :=
    Int.fmod_eq_emod_of_nonneg _ (by omega)
  have hdiv : (days + 719468).fdiv 146097 = (days + 719468) / 146097 :=
    Int.fdiv_eq_ediv_of_nonneg _ (by omega)
  have hera : dayOfEra < 146097 := by
    show ((days + 719468).fmod 146097).toNat < 146097
    rw [hmod]
    omega
  have hsum : days + 719468 = 146097 * ((days + 719468).fdiv 146097) + dayOfEra := by
    show _ = _ + (((days + 719468).fmod 146097).toNat : Int)
    rw [hmod, hdiv]
    omega
  obtain ⟨hyear, hstart, hlong, hnext⟩ := yearOfEra_spec hera rfl
  generalize hy : (dayOfEra - dayOfEra / 1460 + dayOfEra / 36524 - dayOfEra / 146096) / 365 =
    year at hyear hstart hlong hnext
  refine ⟨(days + 719468).fdiv 146097, year, dayOfEra - yearStart year, ?_, by omega, hyear,
    by omega, by omega, by omega⟩
  rw [← hy]
  rfl

/-- Later days have a later year, or the same year and a later day. -/
theorem marchDate_lt {days days' : Int} (h : days < days') :
    (marchDate days).1 < (marchDate days').1 ∨
      (marchDate days).1 = (marchDate days').1 ∧ (marchDate days).2 < (marchDate days').2 := by
  obtain ⟨era, year, day, hdate, hsum, hyear, hday, hera, hnext⟩ := marchDate_spec days
  obtain ⟨era', year', day', hdate', hsum', hyear', hday', hera', hnext'⟩ :=
    marchDate_spec days'
  rw [hdate, hdate']
  show (year : Int) + era * 400 < year' + era' * 400 ∨
    (year : Int) + era * 400 = year' + era' * 400 ∧ day < day'
  rcases Int.lt_trichotomy era era' with hlt | heq | hgt
  · omega
  · subst heq
    rcases Nat.lt_trichotomy year year' with hlt | heq | hgt
    · omega
    · subst heq
      omega
    · -- the earlier day would be in a later year
      have hstart := yearStart_mono (show year' + 1 ≤ year from hgt)
      have hbefore := hnext' (by omega)
      omega
  · omega

theorem marchDate_day_le (days : Int) : (marchDate days).2 ≤ 365 := by
  obtain ⟨era, year, day, hdate, -, -, hday, -⟩ := marchDate_spec days
  rw [hdate]
  exact hday

/-! ## Dates -/

/-- Months are counted from March in `mp`. -/
theorem civilOfMarch_spec (year : Int) {doy : Nat} (h : doy ≤ 365) :
    ∃ (y : Int) (m d mp : Nat), civilOfMarch (year, doy) = (y, m, d) ∧
      12 * y + m = 12 * year + mp + 3 ∧ 1 ≤ m ∧ m ≤ 12 ∧ 1 ≤ d ∧ d ≤ 31 ∧
      mp = (5 * doy + 2) / 153 ∧ doy + 1 = (153 * mp + 2) / 5 + d := by
  have hmp : (5 * doy + 2) / 153 ≤ 11 := by omega
  unfold civilOfMarch
  dsimp only
  generalize hmonth : (5 * doy + 2) / 153 = mp at hmp
  by_cases hearly : mp < 10
  · rw [if_pos hearly, if_neg (by omega)]
    refine ⟨year + 0, mp + 3, _, mp, rfl, ?_, ?_⟩ <;> omega
  · rw [if_neg hearly, if_pos (by omega)]
    refine ⟨year + 1, mp - 9, _, mp, rfl, ?_, ?_⟩ <;> omega

/-- The date as one number, `yyyymmdd`. -/
def dateNumber (date : Int × Nat × Nat) : Int := (date.1 * 100 + date.2.1) * 100 + date.2.2

theorem dateNumber_civilOfMarch_lt {year year' : Int} {doy doy' : Nat} (h : doy ≤ 365)
    (h' : doy' ≤ 365) (hlt : year < year' ∨ year = year' ∧ doy < doy') :
    dateNumber (civilOfMarch (year, doy)) < dateNumber (civilOfMarch (year', doy')) := by
  obtain ⟨y, m, d, mp, hdate, hmonths, hm, hm12, hd, hd31, hmp, hday⟩ :=
    civilOfMarch_spec year h
  obtain ⟨y', m', d', mp', hdate', hmonths', hm', hm12', hd', hd31', hmp', hday'⟩ :=
    civilOfMarch_spec year' h'
  rw [hdate, hdate']
  show (y * 100 + m) * 100 + d < (y' * 100 + m') * 100 + d'
  have hmonth : 12 * y + m < 12 * y' + m' ∨ 12 * y + m = 12 * y' + m' ∧ d < d' := by
    rcases hlt with hyear | ⟨rfl, hdoy⟩
    · omega
    · have hle : mp ≤ mp' := by
        rw [hmp, hmp']
        exact Nat.div_le_div_right (by omega)
      omega
  clear hmonths hmonths' hmp hmp' hday hday' hdate hdate' hlt
  omega

theorem dateNumber_lt {days days' : Int} (h : days < days') :
    dateNumber (civilFromDays days) < dateNumber (civilFromDays days') := by
  rw [civilFromDays_eq, civilFromDays_eq]
  exact dateNumber_civilOfMarch_lt (marchDate_day_le days) (marchDate_day_le days')
    (marchDate_lt h)

end Tonggeret
