import Mathlib.Data.Int.Basic
import Tonggeret.Types

/-!
# Wall-clock readings

Instants are nanoseconds from the Unix epoch, as `chrono::DateTime<Utc>` counts
them.  A compaction pass reads the clock three times: for the retention cutoff
and for the date stamps of its temporary and final file names.
-/

namespace Tonggeret

abbrev Instant := Int

def nanosPerSecond : Int := 1000000000

/-- `DateTime::<Utc>::MIN_UTC`, the first nanosecond of year -262143. -/
def minUtc : Instant := -8334601228800 * nanosPerSecond

/-- `DateTime::<Utc>::MAX_UTC`, the last nanosecond of year 262142. -/
def maxUtc : Instant := 8210266876799 * nanosPerSecond + 999999999

/-- `chrono::Duration::from_std`: at most `i64::MAX` milliseconds. -/
def durationFromStd (nanos : Nat) : Option Nat :=
  if nanos ≤ (2 ^ 63 - 1) * 1000000 then some nanos else none

/-- `DateTime - Duration`; `none` is the panic outside the calendar range. -/
def subDuration (t : Instant) (duration : Nat) : Option Instant :=
  let result := t - duration
  if minUtc ≤ result ∧ result ≤ maxUtc then some result else none

/-- `u64::try_from(t.timestamp_micros()).unwrap_or(0)`. -/
def timestampMicrosOrZero (t : Instant) : UInt64 :=
  let micros := t.fdiv 1000
  if 0 ≤ micros then UInt64.ofNat micros.toNat else 0

/-- Proleptic Gregorian `(year, month, day)` of a day counted from 1970-01-01,
through 400-year eras that start on the first of March. -/
def civilFromDays (days : Int) : Int × Nat × Nat :=
  let shifted := days + 719468
  let era := shifted.fdiv 146097
  let dayOfEra := (shifted.fmod 146097).toNat
  let yearOfEra :=
    (dayOfEra - dayOfEra / 1460 + dayOfEra / 36524 - dayOfEra / 146096) / 365
  let dayOfYear := dayOfEra - (365 * yearOfEra + yearOfEra / 4 - yearOfEra / 100)
  let monthFromMarch := (5 * dayOfYear + 2) / 153
  let day := dayOfYear - (153 * monthFromMarch + 2) / 5 + 1
  let month := if monthFromMarch < 10 then monthFromMarch + 3 else monthFromMarch - 9
  let year := yearOfEra + era * 400 + if month ≤ 2 then 1 else 0
  (year, month, day)

/-- `{n:0width}`: decimal, zero-padded on the left. -/
def formatDecimal (width n : Nat) : String :=
  String.ofList ((Nat.toDigits 10 n).leftpad width '0')

/-- `%Y`: four digits, with a sign outside the years 0 to 9999. -/
def formatYear (year : Int) : String :=
  if 0 ≤ year ∧ year ≤ 9999 then formatDecimal 4 year.toNat
  else if 0 ≤ year then "+" ++ formatDecimal 4 year.toNat
  else "-" ++ formatDecimal 4 (-year).toNat

/-- `t.format("%Y%m%dT%H%M%S")`. -/
def formatStamp (t : Instant) : String :=
  let seconds := t.fdiv nanosPerSecond
  let (year, month, day) := civilFromDays (seconds.fdiv 86400)
  let secondOfDay := (seconds.fmod 86400).toNat
  formatYear year ++ formatDecimal 2 month ++ formatDecimal 2 day ++ "T" ++
    formatDecimal 2 (secondOfDay / 3600) ++ formatDecimal 2 (secondOfDay / 60 % 60) ++
    formatDecimal 2 (secondOfDay % 60)

example : formatStamp (951782400 * nanosPerSecond) = "20000229T000000" := by decide

end Tonggeret
