import Tonggeret.Lib.Trace

/-!
# What a program does not look at

Two states that differ only in what a program does not look at are related.  From related
states the program ends in the same way, and in related states.
-/

namespace Tonggeret.Lib.Prog

variable {σ ε α β : Type}

/-- From related states the executions end alike. -/
def Alike (E : σ → σ → Prop) (m : Prog σ ε α) : Prop :=
  ∀ s t, E s t → (m s).outcome = (m t).outcome ∧ E (m s).final (m t).final

namespace Alike

variable {E : σ → σ → Prop} {m : Prog σ ε α}

theorem pure {a : α} : Alike E (Pure.pure a : Prog σ ε α) := fun _ _ h => ⟨rfl, h⟩

theorem fail {e : ε} : Alike E (Prog.fail e : Prog σ ε α) := fun _ _ h => ⟨rfl, h⟩

theorem update {f : σ → σ} (h : ∀ s t, E s t → E (f s) (f t)) :
    Alike E (Prog.update f : Prog σ ε Unit) := fun s t hst => ⟨rfl, h s t hst⟩

theorem bind {f : α → Prog σ ε β} (hm : Alike E m) (hf : ∀ a, Alike E (f a)) :
    Alike E (m >>= f) := by
  intro s t h
  obtain ⟨houtcome, hfinal⟩ := hm s t h
  show (Prog.bind m f s).outcome = (Prog.bind m f t).outcome ∧
    E (Prog.bind m f s).final (Prog.bind m f t).final
  unfold Prog.bind
  rcases hs : m s with ⟨visited, outcome, s'⟩
  rcases ht : m t with ⟨visited', outcome', t'⟩
  rw [hs, ht] at houtcome hfinal
  obtain rfl : outcome = outcome' := houtcome
  cases outcome with
  | error e => exact ⟨rfl, hfinal⟩
  | ok a => exact hf a s' t' hfinal

/-- What is done with the state that is read must not depend on what is not looked at. -/
theorem read_bind {f : σ → Prog σ ε α} (hsame : ∀ s t, E s t → f s = f t)
    (hf : ∀ a, Alike E (f a)) : Alike E (Prog.read >>= f) := by
  intro s t h
  have hst := hf s s t h
  show (f s s).outcome = (f t t).outcome ∧ E (f s s).final (f t t).final
  rw [← hsame s t h]
  exact hst

end Alike

end Tonggeret.Lib.Prog
