import Mathlib.Data.List.Basic

/-!
# Programs that may stop between any two steps

A program over a state `σ` that can fail with an error `ε`, together with every
state it passes through.  A crash between two steps leaves one of the visited
states, so a law that must survive any interruption is an assertion about all
of them, and the triples below carry it next to the postconditions of success
and failure.
-/

namespace Tonggeret.Lib

/-- One execution: the states passed through, oldest first, how it ended, and
the state it ended in. -/
structure Run (σ ε α : Type) where
  visited : List σ
  outcome : Except ε α
  final : σ

/-- Every state that a crash or the end of the execution can leave behind. -/
def Run.reached {σ ε α : Type} (run : Run σ ε α) : List σ := run.visited ++ [run.final]

theorem Run.final_mem_reached {σ ε α : Type} (run : Run σ ε α) : run.final ∈ run.reached :=
  List.mem_append_right _ (List.mem_singleton_self _)

def Prog (σ ε α : Type) : Type := σ → Run σ ε α

namespace Prog

variable {σ ε α β ι : Type}

protected def pure (a : α) : Prog σ ε α := fun s => ⟨[], .ok a, s⟩

protected def bind (m : Prog σ ε α) (f : α → Prog σ ε β) : Prog σ ε β := fun s =>
  match m s with
  | ⟨visited, .ok a, t⟩ =>
      let next := f a t
      ⟨visited ++ next.visited, next.outcome, next.final⟩
  | ⟨visited, .error e, t⟩ => ⟨visited, .error e, t⟩

instance : Monad (Prog σ ε) where
  pure := Prog.pure
  bind := Prog.bind

/-- Stop with an error. -/
def fail (e : ε) : Prog σ ε α := fun s => ⟨[], .error e, s⟩

/-- The current state. -/
def read : Prog σ ε σ := fun s => ⟨[], .ok s, s⟩

/-- One step: a new state, which a crash can leave behind. -/
def update (f : σ → σ) : Prog σ ε Unit := fun s => ⟨[f s], .ok (), f s⟩

/-- Run the body for every element in order, stopping at the first error. -/
def forEach (body : ι → Prog σ ε Unit) : List ι → Prog σ ε Unit
  | [] => pure ()
  | x :: l => do
      body x
      forEach body l

/-- Starting from `P`, every visited state satisfies `I`, success ends in `Q`
and failure in `E`. -/
def Triple (P : σ → Prop) (m : Prog σ ε α) (I : σ → Prop)
    (Q : α → σ → Prop) (E : ε → σ → Prop) : Prop :=
  ∀ s, P s → (∀ t ∈ (m s).visited, I t) ∧
    match (m s).outcome with
    | .ok a => Q a (m s).final
    | .error e => E e (m s).final

namespace Triple

variable {P P' : σ → Prop} {I I' : σ → Prop} {E E' : ε → σ → Prop}
variable {Q Q' : α → σ → Prop} {m : Prog σ ε α}

theorem pure {a : α} (h : ∀ s, P s → Q a s) : Triple P (Pure.pure a) I Q E := by
  intro s hs
  exact ⟨fun _ ht => absurd ht List.not_mem_nil, h s hs⟩

theorem fail {e : ε} (h : ∀ s, P s → E e s) : Triple P (Prog.fail e) I Q E := by
  intro s hs
  exact ⟨fun _ ht => absurd ht List.not_mem_nil, h s hs⟩

theorem read : Triple P (Prog.read : Prog σ ε σ) I (fun t s => t = s ∧ P s) E := by
  intro s hs
  exact ⟨fun _ ht => absurd ht List.not_mem_nil, rfl, hs⟩

theorem update {f : σ → σ} {Q : Unit → σ → Prop}
    (h : ∀ s, P s → I (f s) ∧ Q () (f s)) : Triple P (Prog.update f) I Q E := by
  intro s hs
  obtain ⟨hI, hQ⟩ := h s hs
  refine ⟨?_, hQ⟩
  intro t ht
  obtain rfl := List.mem_singleton.mp ht
  exact hI

/-- Sequencing: the intermediate assertion is the success postcondition of the
first part. -/
theorem bind {R : β → σ → Prop} {f : α → Prog σ ε β}
    (hm : Triple P m I Q E) (hf : ∀ a, Triple (Q a) (f a) I R E) :
    Triple P (m >>= f) I R E := by
  intro s hs
  obtain ⟨hvisited, hend⟩ := hm s hs
  rcases hrun : m s with ⟨visited, outcome, t⟩
  rw [hrun] at hvisited hend
  cases outcome with
  | error e =>
      have hbind : (m >>= f) s = ⟨visited, .error e, t⟩ := by
        change Prog.bind m f s = _
        simp only [Prog.bind, hrun]
      rw [hbind]
      exact ⟨hvisited, hend⟩
  | ok a =>
      obtain ⟨hnext, hdone⟩ := hf a t hend
      have hbind : (m >>= f) s =
          ⟨visited ++ (f a t).visited, (f a t).outcome, (f a t).final⟩ := by
        change Prog.bind m f s = _
        simp only [Prog.bind, hrun]
      rw [hbind]
      refine ⟨?_, hdone⟩
      intro u hu
      rcases List.mem_append.mp hu with hu | hu
      · exact hvisited u hu
      · exact hnext u hu

/-- Continue from a state that was just read. -/
theorem read_bind {f : σ → Prog σ ε α}
    (h : ∀ s, P s → Triple (fun t => t = s) (f s) I Q E) :
    Triple P (Prog.read >>= f) I Q E := by
  apply bind (read (P := P))
  intro s t ht
  obtain ⟨rfl, hs⟩ := ht
  exact h s hs s rfl

theorem consequence (h : Triple P m I Q E) (hP : ∀ s, P' s → P s)
    (hI : ∀ s, I s → I' s) (hQ : ∀ a s, Q a s → Q' a s)
    (hE : ∀ e s, E e s → E' e s) : Triple P' m I' Q' E' := by
  intro s hs
  obtain ⟨hvisited, hend⟩ := h s (hP s hs)
  refine ⟨fun t ht => hI t (hvisited t ht), ?_⟩
  cases houtcome : (m s).outcome with
  | ok a =>
      rw [houtcome] at hend
      exact hQ a _ hend
  | error e =>
      rw [houtcome] at hend
      exact hE e _ hend

/-- A law implied by both postconditions holds in every state reached. -/
theorem reached (h : Triple P m I Q E) (hQ : ∀ a s, Q a s → I s)
    (hE : ∀ e s, E e s → I s) {s t : σ} (hs : P s) (ht : t ∈ (m s).reached) : I t := by
  obtain ⟨hvisited, hend⟩ := h s hs
  rcases List.mem_append.mp ht with ht | ht
  · exact hvisited t ht
  · rw [List.mem_singleton.mp ht]
    cases houtcome : (m s).outcome with
    | ok a =>
        rw [houtcome] at hend
        exact hQ a _ hend
    | error e =>
        rw [houtcome] at hend
        exact hE e _ hend

/-- Strengthen the precondition, keep the rest. -/
theorem precondition (h : Triple P m I Q E) (hP : ∀ s, P' s → P s) :
    Triple P' m I Q E :=
  h.consequence hP (fun _ h => h) (fun _ _ h => h) (fun _ _ h => h)

/-- Weaken the success postcondition, keep the rest. -/
theorem postcondition (h : Triple P m I Q E) (hQ : ∀ a s, Q a s → Q' a s) :
    Triple P m I Q' E :=
  h.consequence (fun _ h => h) (fun _ h => h) hQ (fun _ _ h => h)

/-- Two laws of one program hold together. -/
theorem and (h : Triple P m I Q E) (h' : Triple P' m I' Q' E') :
    Triple (fun s => P s ∧ P' s) m (fun s => I s ∧ I' s) (fun a s => Q a s ∧ Q' a s)
      (fun e s => E e s ∧ E' e s) := by
  rintro s ⟨hs, hs'⟩
  obtain ⟨hvisited, hend⟩ := h s hs
  obtain ⟨hvisited', hend'⟩ := h' s hs'
  refine ⟨fun t ht => ⟨hvisited t ht, hvisited' t ht⟩, ?_⟩
  cases houtcome : (m s).outcome with
  | ok a =>
      rw [houtcome] at hend hend'
      exact ⟨hend, hend'⟩
  | error e =>
      rw [houtcome] at hend hend'
      exact ⟨hend, hend'⟩

/-- A fact in the precondition that is not about the state. -/
theorem of_and {p : Prop} (h : p → Triple P m I Q E) :
    Triple (fun s => p ∧ P s) m I Q E := by
  rintro s ⟨hp, hs⟩
  exact h hp s hs

/-- The loop rule.  The invariant is indexed by the elements already treated. -/
theorem forEach {body : ι → Prog σ ε Unit} {J : List ι → σ → Prop} (l : List ι)
    (hbody : ∀ done x rest, l = done ++ x :: rest →
      Triple (J done) (body x) I (fun _ => J (done ++ [x])) E) :
    Triple (J []) (Prog.forEach body l) I (fun _ => J l) E := by
  have hsuffix : ∀ rest done, l = done ++ rest →
      Triple (J done) (Prog.forEach body rest) I (fun _ => J l) E := by
    intro rest
    induction rest with
    | nil =>
        intro done hsplit
        have hdone : l = done := by simpa using hsplit
        rw [hdone]
        exact pure fun _ h => h
    | cons x rest ih =>
        intro done hsplit
        refine bind (hbody done x rest hsplit) fun _ => ih (done ++ [x]) ?_
        simpa using hsplit
  exact hsuffix l [] rfl

end Triple

end Prog

end Tonggeret.Lib
