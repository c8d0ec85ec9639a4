import Tonggeret.Lib.Trace

/-!
# States that are passed through

A triple says what holds of every state on the way.  Its counterpart says that some
state on the way has a property; what comes before that state must not fail.
-/

namespace Tonggeret.Lib.Prog

variable {σ ε α β ι : Type}

theorem visited_bind_left (m : Prog σ ε α) (f : α → Prog σ ε β) (s : σ) :
    (m s).visited ⊆ ((m >>= f) s).visited := by
  intro t ht
  change t ∈ (Prog.bind m f s).visited
  unfold Prog.bind
  rcases hrun : m s with ⟨visited, outcome, last⟩
  rw [hrun] at ht
  cases outcome with
  | error e => exact ht
  | ok a => exact List.mem_append_left _ ht

theorem visited_bind_right {m : Prog σ ε α} (f : α → Prog σ ε β) {s : σ} {a : α}
    (h : (m s).outcome = .ok a) :
    (f a (m s).final).visited ⊆ ((m >>= f) s).visited := by
  intro t ht
  change t ∈ (Prog.bind m f s).visited
  rcases hrun : m s with ⟨visited, outcome, last⟩
  rw [hrun] at h ht
  obtain rfl : outcome = .ok a := h
  simp only [Prog.bind, hrun]
  exact List.mem_append_right _ ht

/-- Starting from `P`, some visited state satisfies `R`. -/
def Visits (P : σ → Prop) (m : Prog σ ε α) (R : σ → Prop) : Prop :=
  ∀ s, P s → ∃ t ∈ (m s).visited, R t

/-- Starting from `P`, the program succeeds, and ends in `Q`. -/
def Succeeds (P : σ → Prop) (m : Prog σ ε α) (Q : α → σ → Prop) : Prop :=
  Triple P m (fun _ => True) Q fun _ _ => False

namespace Visits

variable {P P' R : σ → Prop} {m : Prog σ ε α}

theorem precondition (h : Visits P m R) (hP : ∀ s, P' s → P s) : Visits P' m R :=
  fun s hs => h s (hP s hs)

theorem update {f : σ → σ} (h : ∀ s, P s → R (f s)) :
    Visits P (Prog.update f : Prog σ ε Unit) R := by
  intro s hs
  exact ⟨f s, List.mem_singleton_self _, h s hs⟩

/-- The first part passes through such a state. -/
theorem bind_left {f : α → Prog σ ε β} (h : Visits P m R) : Visits P (m >>= f) R := by
  intro s hs
  obtain ⟨t, ht, hR⟩ := h s hs
  exact ⟨t, visited_bind_left m f s ht, hR⟩

/-- The second part does, and the first succeeds. -/
theorem bind_right {Q : α → σ → Prop} {f : α → Prog σ ε β} (hm : Succeeds P m Q)
    (hf : ∀ a, Visits (Q a) (f a) R) : Visits P (m >>= f) R := by
  intro s hs
  obtain ⟨-, hend⟩ := hm s hs
  cases houtcome : (m s).outcome with
  | error e =>
      rw [houtcome] at hend
      exact hend.elim
  | ok a =>
      rw [houtcome] at hend
      obtain ⟨t, ht, hR⟩ := hf a (m s).final hend
      exact ⟨t, visited_bind_right f houtcome ht, hR⟩

theorem read_bind {f : σ → Prog σ ε α} (h : ∀ s, P s → Visits (fun t => t = s) (f s) R) :
    Visits P (Prog.read >>= f) R := by
  intro s hs
  exact h s hs s rfl

/-- The loop passes through such a state in the round of `x`. -/
theorem forEach {body : ι → Prog σ ε Unit} {J : List ι → σ → Prop} {l done rest : List ι}
    {x : ι} (hsplit : l = done ++ x :: rest)
    (hbody : ∀ before y after, l = before ++ y :: after →
      Succeeds (J before) (body y) fun _ => J (before ++ [y]))
    (hx : Visits (J done) (body x) R) : Visits (J []) (Prog.forEach body l) R := by
  have hsuffix : ∀ middle before, done = before ++ middle →
      Visits (J before) (Prog.forEach body (middle ++ x :: rest)) R := by
    intro middle
    induction middle with
    | nil =>
        intro before hdone
        rw [List.append_nil] at hdone
        rw [← hdone]
        exact bind_left hx
    | cons y middle ih =>
        intro before hdone
        have hy : l = before ++ y :: (middle ++ x :: rest) := by
          rw [hsplit, hdone]
          simp
        apply bind_right (hbody before y _ hy)
        intro _
        apply ih
        rw [hdone]
        simp
  rw [hsplit]
  exact hsuffix done [] rfl

end Visits

end Tonggeret.Lib.Prog
