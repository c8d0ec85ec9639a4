import Mathlib.Data.Finset.Lattice.Fold
import Mathlib.Logic.Function.Basic
import Mathlib.Order.Lattice.Nat

/-!
# Registers that are raised

Every sample has one register and raises it to at least the sample's rank.  A register
is then the join of the ranks of its samples, so the order and the multiplicity of the
samples leave no trace.
-/

namespace Tonggeret.Lib

variable {σ ι ρ : Type} [DecidableEq ι] [SemilatticeSup ρ]

/-- Which register a sample raises, and to what. -/
structure Raising (σ ι ρ : Type) where
  index : σ → ι
  rank : σ → ρ

namespace Raising

variable (r : Raising σ ι ρ)

def raise (registers : ι → ρ) (sample : σ) : ι → ρ :=
  Function.update registers (r.index sample) (registers (r.index sample) ⊔ r.rank sample)

variable {r} {registers : ι → ρ} {samples samples' : List σ} {sample : σ} {i : ι}

theorem raise_of_eq (h : r.index sample = i) :
    r.raise registers sample i = registers i ⊔ r.rank sample := by
  subst h
  unfold raise
  rw [Function.update_self]

theorem raise_of_ne (h : r.index sample ≠ i) :
    r.raise registers sample i = registers i := by
  unfold raise
  rw [Function.update_of_ne (Ne.symm h)]

variable [DecidableEq σ] [OrderBot ρ]

/-- The join of the ranks of the samples of register `i`. -/
def join (r : Raising σ ι ρ) (samples : List σ) (i : ι) : ρ :=
  (samples.toFinset.filter fun sample => r.index sample = i).sup r.rank

theorem join_nil : r.join [] i = ⊥ := by
  simp [join]

theorem join_cons_of_eq (h : r.index sample = i) :
    r.join (sample :: samples) i = r.rank sample ⊔ r.join samples i := by
  unfold join
  rw [List.toFinset_cons, Finset.filter_insert, if_pos h, Finset.sup_insert]

theorem join_cons_of_ne (h : r.index sample ≠ i) :
    r.join (sample :: samples) i = r.join samples i := by
  unfold join
  rw [List.toFinset_cons, Finset.filter_insert, if_neg h]

theorem foldl_raise :
    samples.foldl r.raise registers i = registers i ⊔ r.join samples i := by
  induction samples generalizing registers with
  | nil => rw [List.foldl_nil, join_nil, sup_bot_eq]
  | cons sample samples ih =>
      rw [List.foldl_cons, ih]
      by_cases h : r.index sample = i
      · rw [raise_of_eq h, join_cons_of_eq h, sup_assoc]
      · rw [raise_of_ne h, join_cons_of_ne h]

theorem join_congr (h : ∀ sample, sample ∈ samples ↔ sample ∈ samples') :
    r.join samples i = r.join samples' i := by
  have hset : samples.toFinset = samples'.toFinset := by
    ext sample
    rw [List.mem_toFinset, List.mem_toFinset, h sample]
  unfold join
  rw [hset]

theorem rank_le_join (h : sample ∈ samples) :
    r.rank sample ≤ r.join samples (r.index sample) := by
  unfold join
  apply Finset.le_sup
  rw [Finset.mem_filter, List.mem_toFinset]
  exact ⟨h, rfl⟩

theorem join_mono (h : samples ⊆ samples') : r.join samples i ≤ r.join samples' i := by
  unfold join
  apply Finset.sup_mono
  intro sample hsample
  rw [Finset.mem_filter, List.mem_toFinset] at hsample ⊢
  exact ⟨h hsample.1, hsample.2⟩

/-- The join reads the ranks of the samples only. -/
theorem join_congr_rank {s : Raising σ ι ρ} (hindex : s.index = r.index)
    (hrank : ∀ sample ∈ samples, s.rank sample = r.rank sample) :
    s.join samples i = r.join samples i := by
  unfold join
  rw [hindex]
  apply Finset.sup_congr rfl
  intro sample hsample
  rw [Finset.mem_filter, List.mem_toFinset] at hsample
  exact hrank sample hsample.1

theorem join_le {bound : ρ} (h : ∀ sample ∈ samples, r.rank sample ≤ bound) :
    r.join samples i ≤ bound := by
  unfold join
  apply Finset.sup_le
  intro sample hsample
  rw [Finset.mem_filter, List.mem_toFinset] at hsample
  exact h sample hsample.1

end Raising

end Tonggeret.Lib
