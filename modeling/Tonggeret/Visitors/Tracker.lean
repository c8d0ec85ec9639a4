import Tonggeret.Lib.OverflowMap
import Tonggeret.Sanitize

/-!
# Visitors by region

Every visit is counted under its normalized region; then, if the lock of the sketches is
free, the visitor key is folded into the sketch of the region, or into that of `other`
when the region is new and the cap is reached.
-/

namespace Tonggeret.Visitors

open Tonggeret.Lib

def visitorsTotal : String := "visitors_total"

def uniqueVisitorsEstimate : String := "unique_visitors_estimate"

def regionUnknown : String := "unknown"

def regionOther : String := "other"

/-! ## HyperLogLog -/

/-- 2¹² one-byte registers. -/
structure Hll where
  registers : Vector UInt8 4096
deriving DecidableEq

namespace Hll

def new : Hll := ⟨Vector.replicate 4096 0⟩

/-- `u64::leading_zeros`. -/
def leadingZeros (x : UInt64) : Nat := if x = 0 then 64 else 63 - x.toNat.log2

/-- Fold one pre-hashed visitor into the sketch: the top 12 bits choose the register. -/
def addHash (sketch : Hll) (hash : UInt64) : Hll :=
  let idx := (hash >>> 52).toNat
  let rho := min (leadingZeros (hash <<< 12) + 1) 255
  match sketch.registers[idx]? with
  | some slot => ⟨sketch.registers.setIfInBounds idx (max slot (UInt8.ofNat rho))⟩
  | none => sketch

/-- Fold one visitor key into the sketch; the hash is that of the standard library. -/
def add (hashKey : String → UInt64) (sketch : Hll) (visitorKey : String) : Hll :=
  sketch.addHash (hashKey visitorKey)

end Hll

/-! ## Regions -/

/-- `str::to_ascii_uppercase`. -/
def toAsciiUppercase (s : String) : String := String.ofList (s.toList.map Char.toUpper)

/-- Two ASCII letters; no byte of a longer character is one. -/
def isCountryCode (code : String) : Bool :=
  code.utf8ByteSize == 2 && code.toList.all Char.isAlpha

@[irreducible] def normalizeRegion (region : String) : String :=
  let code := toAsciiUppercase (trim region)
  if isCountryCode code then code
  else if code = toAsciiUppercase regionOther then regionOther
  else regionUnknown

/-! ## Tracker -/

/-- What is handed to `record_counter` or `record_gauge`. -/
structure Record where
  name : String
  value : F64
  labels : List (String × String)
deriving DecidableEq

structure VisitorsTracker where
  inner : SortedMap String Hll
  maxRegions : Nat

/-- At most `maxRegions` distinct regions, clamped to 1..=4096. -/
def VisitorsTracker.new (maxRegions : UInt64) : VisitorsTracker where
  inner := SortedMap.empty
  maxRegions := max 1 (min maxRegions.toNat 4096)

/-- One call of `observe`; `contended` if `try_lock` fails. -/
structure Visit where
  visitorKey : String
  region : String
  contended : Bool
deriving DecidableEq

/-- The key of the sketch that a sample of the region is folded into. -/
def bucketOf (tracker : VisitorsTracker) (region : String) : String :=
  if tracker.inner.get? region = none ∧ tracker.maxRegions ≤ tracker.inner.entries.length then
    regionOther
  else region

/-- Record one visit: total counter and unique sketch.  The result is whether the unique
sample was folded in. -/
def observe (hashKey : String → UInt64) (tracker : VisitorsTracker) (visit : Visit) :
    Bool × Record × VisitorsTracker :=
  let region := normalizeRegion visit.region
  let counted : Record := ⟨visitorsTotal, ⟨0x3ff0000000000000⟩, [("region", region)]⟩
  if visit.contended then (false, counted, tracker)
  else
    let map := tracker.inner
    let bucket := bucketOf tracker region
    let sketch := ((map.get? bucket).getD Hll.new).add hashKey visit.visitorKey
    (true, counted, { tracker with inner := map.insert bucket sketch })

/-- Export every region's estimate, with the number of regions. -/
def snapshot (estimate : Hll → F64) (tracker : VisitorsTracker) : Nat × List Record :=
  (tracker.inner.entries.length,
    tracker.inner.entries.map fun (region, sketch) =>
      ⟨uniqueVisitorsEstimate, estimate sketch, [("region", region)]⟩)

/-- The tracker after a sequence of calls. -/
def observeAll (hashKey : String → UInt64) (tracker : VisitorsTracker)
    (visits : List Visit) : VisitorsTracker :=
  visits.foldl (fun tracker visit => (observe hashKey tracker visit).2.2) tracker

/-- What a sequence of calls counted. -/
def countedAll (hashKey : String → UInt64) : VisitorsTracker → List Visit → List Record
  | _, [] => []
  | tracker, visit :: visits =>
      (observe hashKey tracker visit).2.1 ::
        countedAll hashKey (observe hashKey tracker visit).2.2 visits

/-! ## Normalized regions -/

/-- A code of two upper-case ASCII letters, `unknown` or `other`. -/
def IsRegion (region : String) : Prop :=
  (∃ a b : Char, a.isUpper = true ∧ b.isUpper = true ∧ region = String.ofList [a, b]) ∨
    region = regionUnknown ∨ region = regionOther

theorem isUpper_toUpper {c : Char} (h : c.toUpper.isAlpha = true) : c.toUpper.isUpper = true := by
  by_cases hlower : 'a'.val ≤ c.val ∧ c.val ≤ 'z'.val
  · have hval : c.toUpper.val = c.val + ('A'.val - 'a'.val) := by
      delta Char.toUpper
      rw [dif_pos hlower]
    have hshift : ('A'.val - 'a'.val).toNat = 2 ^ 32 - 32 := rfl
    have ha : 'a'.val.toNat = 97 := rfl
    have hz : 'z'.val.toNat = 122 := rfl
    have hlt := c.val.toNat_lt
    rw [UInt32.le_iff_toNat_le, UInt32.le_iff_toNat_le] at hlower
    rw [isUpper_iff, hval, UInt32.toNat_add, hshift]
    omega
  · have hsame : c.toUpper = c := dif_neg hlower
    rw [hsame] at h ⊢
    rcases isAlpha_iff.mp h with h | h
    · exact h
    · rw [isLower_iff] at h
      exact absurd ⟨UInt32.le_iff_toNat_le.mpr h.1, UInt32.le_iff_toNat_le.mpr h.2⟩ hlower

theorem isCountryCode_toAsciiUppercase {s : String}
    (h : isCountryCode (toAsciiUppercase s) = true) :
    ∃ a b : Char, a.isUpper = true ∧ b.isUpper = true ∧
      toAsciiUppercase s = String.ofList [a, b] := by
  rw [isCountryCode, toAsciiUppercase, Bool.and_eq_true, beq_iff_eq,
    String.utf8ByteSize_ofList, String.toList_ofList, List.all_eq_true] at h
  obtain ⟨hsize, hletters⟩ := h
  have hascii : ∀ c ∈ s.toList.map Char.toUpper, c.utf8Size = 1 := by
    intro c hc
    exact utf8Size_of_isAlphanum (isAlphanum_iff.mpr (Or.inl (hletters c hc)))
  rw [utf8Len_of_ascii hascii, List.length_map, List.length_eq_two] at hsize
  obtain ⟨a, b, hchars⟩ := hsize
  have hupper : ∀ c ∈ [a, b], c.toUpper.isUpper = true := by
    intro c hc
    exact isUpper_toUpper (hletters c.toUpper (List.mem_map_of_mem (hchars ▸ hc)))
  refine ⟨a.toUpper, b.toUpper, hupper a (by simp), hupper b (by simp), ?_⟩
  rw [toAsciiUppercase, hchars]
  rfl

theorem isRegion_normalizeRegion (region : String) : IsRegion (normalizeRegion region) := by
  rw [normalizeRegion]
  split
  · rename_i hcode
    exact Or.inl (isCountryCode_toAsciiUppercase hcode)
  · split
    · exact Or.inr (Or.inr rfl)
    · exact Or.inr (Or.inl rfl)

example : normalizeRegion " de " = "DE" ∧ normalizeRegion "Other" = "other" ∧
    normalizeRegion "deu" = "unknown" := by decide +kernel

/-! ## Folding by region -/

/-- The sketches as accumulators by region. -/
def overflow (hashKey : String → UInt64) (maxRegions : Nat) : Overflow String String Hll where
  new := Hll.new
  add := Hll.add hashKey
  other := regionOther
  cap := maxRegions

/-- The unique samples of the calls that got the lock. -/
def samples (visits : List Visit) : List (String × String) :=
  (visits.filter fun visit => !visit.contended).map fun visit =>
    (normalizeRegion visit.region, visit.visitorKey)

theorem observe_eq (hashKey : String → UInt64) (tracker : VisitorsTracker) (visit : Visit) :
    observe hashKey tracker visit =
      (!visit.contended,
        ⟨visitorsTotal, ⟨0x3ff0000000000000⟩, [("region", normalizeRegion visit.region)]⟩,
        { tracker with
          inner := (overflow hashKey tracker.maxRegions).foldAll tracker.inner
            (samples [visit]) }) := by
  rw [observe]
  cases hcontended : visit.contended with
  | true => simp [samples, hcontended, Overflow.foldAll]
  | false =>
      have hsample : samples [visit] =
          [(normalizeRegion visit.region, visit.visitorKey)] := by
        simp [samples, hcontended]
      simp only [hsample, Overflow.foldAll, List.foldl_cons, List.foldl_nil, Overflow.fold,
        Overflow.bucketOf, overflow, Bool.not_false]
      rfl

/-- The sketches are the samples, folded; the lock decides only what is a sample. -/
theorem observeAll_eq (hashKey : String → UInt64) (tracker : VisitorsTracker)
    (visits : List Visit) :
    observeAll hashKey tracker visits =
      { tracker with
        inner := (overflow hashKey tracker.maxRegions).foldAll tracker.inner
          (samples visits) } := by
  induction visits generalizing tracker with
  | nil => rfl
  | cons visit visits ih =>
      have hsamples : samples (visit :: visits) = samples [visit] ++ samples visits := by
        simp only [samples, ← List.map_append, ← List.filter_append, List.singleton_append]
      rw [observeAll, List.foldl_cons, ← observeAll, ih, observe_eq, hsamples]
      simp only [Overflow.foldAll, List.foldl_append]

end Tonggeret.Visitors
