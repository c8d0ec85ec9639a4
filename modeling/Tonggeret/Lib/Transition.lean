/-!
# Runs of a step function

A machine is a function that takes a state and an action to the next state, or
to `none` where the action is not enabled.  Any interleaving of several parties
is a run of one machine whose actions name the party that moves.
-/

namespace Tonggeret.Lib

variable {σ α : Type} {step : σ → α → Option σ} {ok : σ → α → Prop}

/-- `t` is reached from `s` by enabled actions that all meet `ok` where they are
taken. -/
inductive Reaches (step : σ → α → Option σ) (ok : σ → α → Prop) : σ → σ → Prop
  | refl (s : σ) : Reaches step ok s s
  | next {s t u : σ} {a : α} :
      Reaches step ok s t → ok t a → step t a = some u → Reaches step ok s u

/-- Perform the actions in order, if each is enabled in its turn. -/
def exec (step : σ → α → Option σ) : σ → List α → Option σ
  | s, [] => some s
  | s, a :: actions => (step s a).bind fun t => exec step t actions

theorem exec_append {s t : σ} {first : List α} (h : exec step s first = some t)
    (actions : List α) : exec step s (first ++ actions) = exec step t actions := by
  induction first generalizing s with
  | nil =>
      obtain rfl : s = t := by simpa [exec] using h
      rfl
  | cons a first ih =>
      obtain ⟨u, hstep, hrest⟩ := Option.bind_eq_some_iff.mp h
      simp only [List.cons_append, exec, hstep, Option.bind_some]
      exact ih hrest

/-- What is noted at each step while the actions are performed. -/
def transcript {β : Type} (step : σ → α → Option σ) (note : σ → α → List β) :
    σ → List α → List β
  | _, [] => []
  | s, a :: actions =>
      note s a ++ (step s a).elim [] fun t => transcript step note t actions

theorem transcript_append {β : Type} {note : σ → α → List β} {s t : σ} {first : List α}
    (h : exec step s first = some t) (second : List α) :
    transcript step note s (first ++ second) =
      transcript step note s first ++ transcript step note t second := by
  induction first generalizing s with
  | nil =>
      obtain rfl : s = t := by simpa [exec] using h
      rfl
  | cons a first ih =>
      obtain ⟨u, hstep, hrest⟩ := Option.bind_eq_some_iff.mp h
      simp only [List.cons_append, transcript, hstep, Option.elim_some, ih hrest,
        List.append_assoc]

/-- What was noted was noted at one of the actions. -/
theorem mem_transcript {β : Type} {note : σ → α → List β} {s : σ} {actions : List α} {b : β}
    (h : b ∈ transcript step note s actions) : ∃ t, ∃ a ∈ actions, b ∈ note t a := by
  induction actions generalizing s with
  | nil => exact absurd h List.not_mem_nil
  | cons a actions ih =>
      rcases List.mem_append.mp h with hhere | hlater
      · exact ⟨s, a, List.mem_cons_self, hhere⟩
      · cases hstep : step s a with
        | none =>
            rw [hstep] at hlater
            exact absurd hlater List.not_mem_nil
        | some t =>
            rw [hstep] at hlater
            obtain ⟨u, b, hb, hnoted⟩ := ih hlater
            exact ⟨u, b, List.mem_cons_of_mem _ hb, hnoted⟩

/-- The actions themselves, noted one by one. -/
theorem transcript_actions {s t : σ} {actions : List α} (h : exec step s actions = some t) :
    transcript step (fun _ a => [a]) s actions = actions := by
  induction actions generalizing s with
  | nil => rfl
  | cons a actions ih =>
      obtain ⟨u, hstep, hrest⟩ := Option.bind_eq_some_iff.mp h
      simp only [transcript, hstep, Option.elim_some, ih hrest, List.singleton_append]

/-- Each action meets the condition in the state in which it is taken. -/
def Throughout (step : σ → α → Option σ) (ok : σ → α → Prop) : σ → List α → Prop
  | _, [] => True
  | s, a :: actions => ok s a ∧ ∀ t, step s a = some t → Throughout step ok t actions

theorem throughout_of_mem {s : σ} {actions : List α} (h : ∀ a ∈ actions, ∀ t, ok t a) :
    Throughout step ok s actions := by
  induction actions generalizing s with
  | nil => trivial
  | cons a actions ih =>
      obtain ⟨ha, hactions⟩ := List.forall_mem_cons.mp h
      exact ⟨ha s, fun _ _ => ih hactions⟩

/-- A relation between what was noted and the state that every permitted step keeps holds
at the end of a run. -/
theorem exec_history_of {β : Type} {note : σ → α → List β} {I : List β → σ → Prop}
    (hkeep : ∀ done s a t, I done s → ok s a → step s a = some t → I (done ++ note s a) t)
    {s t : σ} {actions : List α} (h : exec step s actions = some t)
    (hok : Throughout step ok s actions) (hs : I [] s) :
    I (transcript step note s actions) t := by
  have hall : ∀ (actions : List α) (done : List β) (s : σ), I done s →
      Throughout step ok s actions → exec step s actions = some t →
      I (done ++ transcript step note s actions) t := by
    intro actions
    induction actions with
    | nil =>
        intro done s hs _ h
        obtain rfl : s = t := by simpa [exec] using h
        simpa [transcript] using hs
    | cons a actions ih =>
        intro done s hs hok h
        obtain ⟨u, hstep, hrest⟩ := Option.bind_eq_some_iff.mp h
        have hnext := ih (done ++ note s a) u (hkeep done s a u hs hok.1 hstep)
          (hok.2 u hstep) hrest
        simpa only [transcript, hstep, Option.elim_some, List.append_assoc] using hnext
  simpa using hall actions [] s hs hok h

/-- A relation between what was noted and the state that every step keeps holds at the
end of a run. -/
theorem exec_history {β : Type} {note : σ → α → List β} {I : List β → σ → Prop}
    (hkeep : ∀ done s a t, I done s → step s a = some t → I (done ++ note s a) t)
    {s t : σ} {actions : List α} (h : exec step s actions = some t) (hs : I [] s) :
    I (transcript step note s actions) t := by
  have hok : Throughout step (fun _ _ => True) s actions :=
    throughout_of_mem fun _ _ _ => trivial
  exact exec_history_of (fun done s a t hs _ hstep => hkeep done s a t hs hstep) h hok hs

/-- If counted steps lower the rank and no step raises it, a run has at most as many of them
as the rank falls. -/
theorem exec_rank {I : σ → Prop} {rank : σ → Nat} {counted : α → Bool}
    (hkeep : ∀ s a t, I s → step s a = some t →
      I t ∧ rank t + (if counted a = true then 1 else 0) ≤ rank s)
    {s t : σ} {actions : List α} (h : exec step s actions = some t) (hs : I s) :
    I t ∧ rank t + actions.countP counted ≤ rank s := by
  induction actions generalizing s with
  | nil =>
      obtain rfl : s = t := by simpa [exec] using h
      exact ⟨hs, Nat.le_refl _⟩
  | cons a actions ih =>
      obtain ⟨u, hstep, hrest⟩ := Option.bind_eq_some_iff.mp h
      obtain ⟨hu, hle⟩ := hkeep s a u hs hstep
      obtain ⟨ht, hle'⟩ := ih hrest hu
      refine ⟨ht, ?_⟩
      rw [List.countP_cons]
      omega

/-- A function of the state and of what is still to be noted that no step changes is
the same at both ends of a run. -/
theorem exec_conserves {β γ : Type} {note : σ → α → List β} (total : List β → σ → γ)
    (hkeep : ∀ s a t rest, step s a = some t → total (note s a ++ rest) s = total rest t)
    {s t : σ} {actions : List α} (h : exec step s actions = some t) (rest : List β) :
    total (transcript step note s actions ++ rest) s = total rest t := by
  induction actions generalizing s with
  | nil =>
      obtain rfl : s = t := by simpa [exec] using h
      rfl
  | cons a actions ih =>
      obtain ⟨u, hstep, hrest⟩ := Option.bind_eq_some_iff.mp h
      have htranscript : transcript step note s (a :: actions) =
          note s a ++ transcript step note u actions := by
        simp [transcript, hstep]
      calc total (transcript step note s (a :: actions) ++ rest) s
          = total (note s a ++ (transcript step note u actions ++ rest)) s := by
            rw [htranscript, List.append_assoc]
        _ = total (transcript step note u actions ++ rest) u := hkeep s a u _ hstep
        _ = total rest t := ih hrest

namespace Reaches

theorem trans {s t u : σ} (hst : Reaches step ok s t) (htu : Reaches step ok t u) :
    Reaches step ok s u := by
  induction htu with
  | refl => exact hst
  | next _ hok hstep ih => exact next ih hok hstep

theorem head {s t u : σ} {a : α} (hok : ok s a) (hstep : step s a = some t)
    (h : Reaches step ok t u) : Reaches step ok s u :=
  (next (refl s) hok hstep).trans h

theorem of_exec {s t : σ} {actions : List α} (h : exec step s actions = some t) :
    Reaches step (fun _ _ => True) s t := by
  induction actions generalizing s with
  | nil =>
      obtain rfl : s = t := by simpa [exec] using h
      exact refl s
  | cons a actions ih =>
      obtain ⟨u, hstep, hrest⟩ := Option.bind_eq_some_iff.mp h
      exact head trivial hstep (ih hrest)

theorem of_exec_mem {s t : σ} {actions : List α} (h : exec step s actions = some t)
    (hok : ∀ a ∈ actions, ∀ u, ok u a) : Reaches step ok s t := by
  induction actions generalizing s with
  | nil =>
      obtain rfl : s = t := by simpa [exec] using h
      exact refl s
  | cons a actions ih =>
      obtain ⟨u, hstep, hrest⟩ := Option.bind_eq_some_iff.mp h
      obtain ⟨ha, hactions⟩ := List.forall_mem_cons.mp hok
      exact head (ha s) hstep (ih hrest hactions)

/-- What holds at the start and is kept by every permitted step holds in every
state reached. -/
theorem invariant {I : σ → Prop}
    (hkeep : ∀ s a t, I s → ok s a → step s a = some t → I t)
    {s t : σ} (h : Reaches step ok s t) (hs : I s) : I t := by
  induction h with
  | refl => exact hs
  | next _ hok hstep ih => exact hkeep _ _ _ ih hok hstep

end Reaches

end Tonggeret.Lib
