import Tonggeret.Lib.MaxRegisters
import Tonggeret.Visitors.Tracker

/-!
# What a sketch holds

A sketch is its registers, and adding a hash raises one of them: the index is always in
range, and the rank is positive and always fits into the register.
-/

namespace Tonggeret.Visitors.Hll

open Tonggeret.Lib

/-! ## Index and rank -/

theorem shiftRight_lt (hash : UInt64) : (hash >>> 52).toNat < 4096 := by
  have h := hash.toNat_lt
  rw [UInt64.toNat_shiftRight, show (52 : UInt64).toNat % 64 = 52 from rfl,
    Nat.shiftRight_eq_div_pow]
  omega

/-- The register of a hash. -/
def topBits (hash : UInt64) : Fin 4096 := ⟨(hash >>> 52).toNat, shiftRight_lt hash⟩

/-- What the hash raises its register to. -/
def rank (hash : UInt64) : Nat := leadingZeros (hash <<< 12) + 1

theorem leadingZeros_le (x : UInt64) : leadingZeros x ≤ 64 := by
  unfold leadingZeros
  split
  · exact le_refl 64
  · omega

theorem rank_pos (hash : UInt64) : 0 < rank hash := Nat.succ_pos _

theorem rank_le (hash : UInt64) : rank hash ≤ 65 := by
  have h := leadingZeros_le (hash <<< 12)
  unfold rank
  omega

/-! ## Registers -/

def register (sketch : Hll) (i : Fin 4096) : Nat := sketch.registers[i].toNat

theorem ext_register {sketch sketch' : Hll} (h : sketch.register = sketch'.register) :
    sketch = sketch' := by
  obtain ⟨registers⟩ := sketch
  obtain ⟨registers'⟩ := sketch'
  have hregisters : registers = registers' := by
    ext i hi
    exact congrFun h ⟨i, hi⟩
  rw [hregisters]

theorem register_new (i : Fin 4096) : new.register i = 0 := by
  unfold register new
  rw [Fin.getElem_fin, Vector.getElem_replicate]
  rfl

theorem toNat_max (a b : UInt8) : (max a b).toNat = max a.toNat b.toNat := by
  rw [show max a b = if a ≤ b then b else a from rfl]
  by_cases h : a ≤ b
  · rw [if_pos h]
    rw [UInt8.le_iff_toNat_le] at h
    omega
  · rw [if_neg h]
    rw [UInt8.le_iff_toNat_le] at h
    omega

/-- Adding a hash as raising a register. -/
def raising : Raising UInt64 (Fin 4096) Nat where
  index := topBits
  rank := rank

theorem addHash_eq (sketch : Hll) (hash : UInt64) :
    sketch.addHash hash =
      ⟨sketch.registers.set (topBits hash)
        (max sketch.registers[topBits hash] (UInt8.ofNat (rank hash)))⟩ := by
  have hidx : (hash >>> 52).toNat = (topBits hash).val := rfl
  have hrho : min (leadingZeros (hash <<< 12) + 1) 255 = rank hash := by
    have h := rank_le hash
    unfold rank at h ⊢
    omega
  have hset : ∀ r : UInt8, sketch.registers.setIfInBounds (topBits hash).val r =
      sketch.registers.set (topBits hash) r := by
    intro r
    apply Vector.ext
    intro i hi
    rw [Vector.getElem_setIfInBounds hi, Vector.getElem_set]
  simp only [addHash, hrho, hidx, Vector.getElem?_eq_getElem (topBits hash).isLt, hset]
  rfl

theorem register_addHash (sketch : Hll) (hash : UInt64) :
    (sketch.addHash hash).register = raising.raise sketch.register hash := by
  have hrank : (UInt8.ofNat (rank hash)).toNat = rank hash := by
    have h := rank_le hash
    rw [UInt8.toNat_ofNat_of_lt']
    show rank hash < 256
    omega
  ext i
  rw [addHash_eq]
  unfold register
  by_cases h : topBits hash = i
  · have hindex : raising.index hash = i := h
    subst h
    rw [Raising.raise_of_eq hindex, Fin.getElem_fin, Vector.getElem_set_self, toNat_max, hrank]
    rfl
  · have hval : (topBits hash).val ≠ i.val := fun heq => h (Fin.ext heq)
    have hindex : raising.index hash ≠ i := h
    rw [Raising.raise_of_ne hindex, Fin.getElem_fin, Vector.getElem_set_ne _ _ hval]
    rfl

/-- The sketch after a sequence of hashes. -/
def addHashes (sketch : Hll) (hashes : List UInt64) : Hll := hashes.foldl addHash sketch

theorem register_addHashes (sketch : Hll) (hashes : List UInt64) :
    (sketch.addHashes hashes).register = hashes.foldl raising.raise sketch.register := by
  induction hashes generalizing sketch with
  | nil => rfl
  | cons hash hashes ih =>
      rw [addHashes, List.foldl_cons, ← addHashes, ih, register_addHash, List.foldl_cons]

theorem register_addHashes_new (hashes : List UInt64) (i : Fin 4096) :
    (new.addHashes hashes).register i = raising.join hashes i := by
  rw [register_addHashes, Raising.foldl_raise, register_new]
  exact Nat.zero_max (raising.join hashes i)

/-- The sketch of the hashes is a function of their set: the greatest rank for each
index.  It only grows, and is empty only of nothing. -/
theorem addHashes_of_set (hashes : List UInt64) :
    (∀ hashes', (∀ hash, hash ∈ hashes' ↔ hash ∈ hashes) →
      new.addHashes hashes' = new.addHashes hashes) ∧
    (∀ i, (new.addHashes hashes).register i =
      (hashes.toFinset.filter fun hash => topBits hash = i).sup rank) ∧
    (∀ more i, (new.addHashes hashes).register i ≤
      (new.addHashes (hashes ++ more)).register i) ∧
    ((∀ i, (new.addHashes hashes).register i = 0) ↔ hashes = []) := by
  refine ⟨fun hashes' hsame => ?_, fun i => ?_, fun more i => ?_, ?_⟩
  · apply ext_register
    ext i
    rw [register_addHashes_new, register_addHashes_new, Raising.join_congr hsame]
  · rw [register_addHashes_new]
    rfl
  · rw [register_addHashes_new, register_addHashes_new]
    exact Raising.join_mono (List.subset_append_left hashes more)
  · constructor
    · intro hzero
      cases hashes with
      | nil => rfl
      | cons hash hashes =>
          have hraised := Raising.rank_le_join (r := raising) (List.mem_cons_self (a := hash)
            (l := hashes))
          rw [← register_addHashes_new, hzero] at hraised
          have hpos := rank_pos hash
          exact absurd hraised (Nat.not_le_of_lt hpos)
    · intro hnil i
      rw [hnil, register_addHashes_new, Raising.join_nil]
      rfl

theorem addHashes_reordered :
    new.addHashes [0x8000000000000000, 5, 5] = new.addHashes [5, 0x8000000000000000] := by
  have hsame : ∀ hash, hash ∈ [(0x8000000000000000 : UInt64), 5, 5] ↔
      hash ∈ [5, 0x8000000000000000] := by
    intro hash
    simp only [List.mem_cons, List.not_mem_nil, or_false, or_self]
    exact or_comm
  exact (addHashes_of_set [5, 0x8000000000000000]).1 [0x8000000000000000, 5, 5] hsame

end Tonggeret.Visitors.Hll
