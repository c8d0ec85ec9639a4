import Mathlib.Order.Defs.Unbundled
import Tonggeret.Lib.Trace

/-!
# Relations from one moment to a later one

A triple speaks of the states of an execution one by one.  That a journal is only added to,
or that a quantity does not fall, speaks of every two of them: it is a preorder in which
each state stands to the later ones.
-/

namespace Tonggeret.Lib.Prog

variable {σ ε α β : Type}

/-- Every state of the execution is related to each later one. -/
def Rises (R : σ → σ → Prop) (m : Prog σ ε α) : Prop :=
  ∀ s, (s :: (m s).reached).Pairwise R

namespace Rises

variable {R : σ → σ → Prop} [IsPreorder σ R] {m : Prog σ ε α}

theorem pure {a : α} : Rises R (Pure.pure a : Prog σ ε α) := by
  intro s
  show [s, s].Pairwise R
  exact List.pairwise_pair.mpr (refl s)

theorem fail {e : ε} : Rises R (Prog.fail e : Prog σ ε α) := by
  intro s
  show [s, s].Pairwise R
  exact List.pairwise_pair.mpr (refl s)

theorem read : Rises R (Prog.read : Prog σ ε σ) := by
  intro s
  show [s, s].Pairwise R
  exact List.pairwise_pair.mpr (refl s)

theorem update {f : σ → σ} (h : ∀ s, R s (f s)) : Rises R (Prog.update f : Prog σ ε Unit) := by
  intro s
  show [s, f s, f s].Pairwise R
  rw [List.pairwise_cons]
  constructor
  · intro t ht
    obtain rfl : t = f s := by simpa using ht
    exact h s
  · exact List.pairwise_pair.mpr (refl (f s))

/-- Nothing falls across the seam: the first part ends where the second begins. -/
theorem bind {f : α → Prog σ ε β} (hm : Rises R m) (hf : ∀ a, Rises R (f a)) :
    Rises R (m >>= f) := by
  intro s
  have hrise := hm s
  rcases hrun : m s with ⟨visited, outcome, t⟩
  rw [hrun] at hrise
  cases outcome with
  | error e =>
      have hbind : (m >>= f) s = ⟨visited, .error e, t⟩ := by
        change Prog.bind m f s = _
        simp only [Prog.bind, hrun]
      rw [hbind]
      exact hrise
  | ok a =>
      have hbind : (m >>= f) s =
          ⟨visited ++ (f a t).visited, (f a t).outcome, (f a t).final⟩ := by
        change Prog.bind m f s = _
        simp only [Prog.bind, hrun]
      have hfirst : ((s :: visited) ++ [t]).Pairwise R := hrise
      obtain ⟨hbefore, -, hseam⟩ := List.pairwise_append.mp hfirst
      obtain ⟨hseam', hafter⟩ := List.pairwise_cons.mp (hf a t)
      rw [hbind]
      show (s :: (visited ++ (f a t).visited ++ [(f a t).final])).Pairwise R
      rw [List.append_assoc, ← List.cons_append]
      refine List.pairwise_append.mpr ⟨hbefore, hafter, ?_⟩
      intro u hu v hv
      exact IsTrans.trans _ _ _ (hseam u hu t (List.mem_singleton_self t)) (hseam' v hv)

end Rises

end Tonggeret.Lib.Prog
