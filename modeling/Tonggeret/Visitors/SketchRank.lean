import Tonggeret.Visitors.Sketch

/-!
# The rank of a hash

The rank of HyperLogLog is the position of the first 1 among the 52 bits below the index.
The code looks for it in the hash shifted left, where the 12 vacated bits count as well:
if the 52 bits are all 0, it finds 65 where the rank is 53.
-/

namespace Tonggeret.Visitors.Hll

open Tonggeret.Lib

/-- Position, from 1, of the first 1 among the 52 bits below the index; 53 if all are 0. -/
def firstOne (hash : UInt64) : Nat :=
  (List.range 52).findIdx (fun k => hash.toNat.testBit (51 - k)) + 1

theorem firstOne_le (hash : UInt64) : firstOne hash ≤ 53 := by
  have h : (List.range 52).findIdx (fun k => hash.toNat.testBit (51 - k)) ≤
      (List.range 52).length := List.findIdx_le_length
  rw [List.length_range] at h
  unfold firstOne
  omega

/-- The shift keeps the 52 bits and vacates 12 below them. -/
theorem toNat_shiftLeft (hash : UInt64) :
    (hash <<< 12).toNat = hash.toNat % 2 ^ 52 * 2 ^ 12 := by
  rw [UInt64.toNat_shiftLeft, show (12 : UInt64).toNat % 64 = 12 from rfl, Nat.shiftLeft_eq]
  omega

theorem log2_mul_two_pow {n : Nat} (k : Nat) (h : n ≠ 0) : (n * 2 ^ k).log2 = n.log2 + k := by
  have hlo := Nat.log2_self_le h
  have hhi := Nat.lt_log2_self (n := n)
  have hpos := Nat.two_pow_pos k
  have hne : n * 2 ^ k ≠ 0 := Nat.mul_ne_zero h (Nat.pos_iff_ne_zero.mp hpos)
  rw [Nat.log2_eq_iff hne]
  constructor
  · rw [Nat.pow_add]
    exact Nat.mul_le_mul_right (2 ^ k) hlo
  · rw [show n.log2 + k + 1 = (n.log2 + 1) + k by omega, Nat.pow_add]
    exact Nat.mul_lt_mul_of_pos_right hhi hpos

theorem rank_of_low_ne_zero {hash : UInt64} (h : hash.toNat % 2 ^ 52 ≠ 0) :
    rank hash = 52 - (hash.toNat % 2 ^ 52).log2 := by
  have hshift := toNat_shiftLeft hash
  have hlog : (hash.toNat % 2 ^ 52).log2 < 52 :=
    (Nat.log2_lt h).mpr (Nat.mod_lt _ (Nat.two_pow_pos 52))
  have hne : hash <<< 12 ≠ 0 := by
    intro hzero
    rw [hzero, show (0 : UInt64).toNat = 0 from rfl] at hshift
    omega
  unfold rank leadingZeros
  rw [if_neg hne, hshift, log2_mul_two_pow 12 h]
  omega

theorem rank_of_low_eq_zero {hash : UInt64} (h : hash.toNat % 2 ^ 52 = 0) :
    rank hash = 65 := by
  have hzero : hash <<< 12 = 0 := by
    apply UInt64.toNat_inj.mp
    rw [toNat_shiftLeft, h]
    rfl
  unfold rank
  rw [hzero]
  rfl

theorem firstOne_of_low_ne_zero {hash : UInt64} (h : hash.toNat % 2 ^ 52 ≠ 0) :
    firstOne hash = 52 - (hash.toNat % 2 ^ 52).log2 := by
  have hlog : (hash.toNat % 2 ^ 52).log2 < 52 :=
    (Nat.log2_lt h).mpr (Nat.mod_lt _ (Nat.two_pow_pos 52))
  have hbit : ∀ b, b < 52 → hash.toNat.testBit b = (hash.toNat % 2 ^ 52).testBit b := by
    intro b hb
    rw [Nat.testBit_mod_two_pow, decide_eq_true hb, Bool.true_and]
  have hlen : 51 - (hash.toNat % 2 ^ 52).log2 < (List.range 52).length := by
    rw [List.length_range]
    omega
  have hfound : (List.range 52).findIdx (fun k => hash.toNat.testBit (51 - k)) =
      51 - (hash.toNat % 2 ^ 52).log2 := by
    rw [List.findIdx_eq hlen]
    constructor
    · have hback : 51 - (51 - (hash.toNat % 2 ^ 52).log2) = (hash.toNat % 2 ^ 52).log2 := by
        omega
      rw [List.getElem_range, hback, hbit _ hlog]
      exact Nat.testBit_log2 h
    · -- the bits above the highest 1 are 0
      intro j hj
      rw [List.getElem_range, hbit _ (by omega)]
      apply Nat.testBit_lt_two_pow
      rw [← Nat.log2_lt h]
      omega
  unfold firstOne
  rw [hfound]
  omega

theorem rank_eq_firstOne {hash : UInt64} (h : hash.toNat % 2 ^ 52 ≠ 0) :
    rank hash = firstOne hash := by
  rw [rank_of_low_ne_zero h, firstOne_of_low_ne_zero h]

/-- Adding a hash as HyperLogLog has it. -/
def reference : Raising UInt64 (Fin 4096) Nat where
  index := topBits
  rank := firstOne

/-- The registers are those of HyperLogLog, and at most 53, exactly if no hash has all of
its 52 bits 0. -/
theorem addHashes_ranks_iff (hashes : List UInt64) :
    (∀ i, (new.addHashes hashes).register i =
        (hashes.toFinset.filter fun hash => topBits hash = i).sup firstOne ∧
      (new.addHashes hashes).register i ≤ 53) ↔
    ∀ hash ∈ hashes, hash.toNat % 2 ^ 52 ≠ 0 := by
  constructor
  · intro h hash hmem hlow
    have hraised := Raising.rank_le_join (r := raising) hmem
    rw [← register_addHashes_new] at hraised
    have hbound := (h (topBits hash)).2
    have hrank : raising.rank hash = 65 := rank_of_low_eq_zero hlow
    have hsame : raising.index hash = topBits hash := rfl
    rw [hrank, hsame] at hraised
    omega
  · intro h i
    have hjoin : reference.join hashes i = raising.join hashes i := by
      have hindex : reference.index = raising.index := rfl
      apply Raising.join_congr_rank hindex
      intro hash hmem
      exact (rank_eq_firstOne (h hash hmem)).symm
    rw [register_addHashes_new, ← hjoin]
    exact ⟨rfl, Raising.join_le fun hash _ => firstOne_le hash⟩

/-- A hash of 0 raises register 0 to 65, where its rank is 53. -/
theorem not_addHashes_zero :
    (new.addHashes [0]).register 0 = 65 ∧ firstOne 0 = 53 ∧
      ¬∀ i, (new.addHashes [0]).register i =
          (([0] : List UInt64).toFinset.filter fun hash => topBits hash = i).sup firstOne ∧
        (new.addHashes [0]).register i ≤ 53 := by
  have hregister : (new.addHashes [0]).register 0 = 65 := by decide +kernel
  refine ⟨hregister, by decide +kernel, fun h => ?_⟩
  have hbound := (h 0).2
  omega

end Tonggeret.Visitors.Hll
