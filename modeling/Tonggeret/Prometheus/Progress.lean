import Tonggeret.Prometheus.ConcurrentUpdate

/-!
# Progress of the calls

A call of `update` takes at most five steps of its own, and in no state are the calls
deadlocked: the call that holds the write lock of a map can release it by steps of its own,
and then any one call of this map can end by its own.
-/

namespace Tonggeret.Prometheus

open Tonggeret.Lib

/-- The steps of `ensure_*` that may still come. -/
def EnsurePc.stepsLeft : EnsurePc → Nat
  | .start => 4
  | .missed => 3
  | .building _ => 2
  | .registered _ => 1
  | .returned _ => 0

/-- The call holds a write lock. -/
def EnsurePc.holds : EnsurePc → Bool
  | .building _ | .registered _ => true
  | _ => false

/-- The call is about to look at its map, for which nobody may be writing to it. -/
def EnsurePc.looks : EnsurePc → Bool
  | .start | .missed => true
  | _ => false

/-- The call that takes the step. -/
def UpdateAction.caller : UpdateAction → Nat
  | .ensure action => action.caller
  | .observe i => i

/-- The steps of the call that may still come. -/
def Updating.stepsLeft (s : Updating) (i : Nat) : Nat :=
  (s.ensuring.pc i).stepsLeft + if (s.outcome i).isSome then 0 else 1

/-- A lock is held by a call of its kind that works under it. -/
def HeldByWorker (calls : Nat → EnsureCall) (s : Ensuring) : Prop :=
  ∀ kind holder, s.writer kind = some holder →
    (calls holder).kind = kind ∧ (s.pc holder).holds = true

section

variable {crate : PrometheusCrate} {calls : Nat → EnsureCall} {e e' : Ensuring}

/-- A step moves its caller on, and no other call. -/
theorem EnsureEffect.moves {action : EnsureAction} (h : EnsureEffect crate calls e action e') :
    (e'.pc action.caller).stepsLeft < (e.pc action.caller).stepsLeft ∧
    ∀ j, j ≠ action.caller → e'.pc j = e.pc j := by
  have hmoved : ∀ {u : Ensuring} {i : Nat} {pc : EnsurePc}, u.pc = e.pc →
      pc.stepsLeft < (e.pc i).stepsLeft →
      ((u.setPc i pc).pc i).stepsLeft < (e.pc i).stepsLeft ∧
      ∀ j, j ≠ i → (u.setPc i pc).pc j = e.pc j := by
    intro u i pc hu hlt
    constructor
    · rw [Ensuring.setPc_self]
      exact hlt
    · intro j hj
      rw [Ensuring.pc_setPc, if_neg hj, hu]
  cases h with
  | @hit i vec _ haction hpc hget =>
      have hlt : EnsurePc.stepsLeft (.returned (some vec)) < (e.pc i).stepsLeft := by
        rcases hpc with hpc | hpc <;> rw [hpc] <;> exact Nat.succ_pos _
      rcases haction with rfl | rfl
      · exact hmoved rfl hlt
      · exact hmoved rfl hlt
  | miss hpc => exact hmoved rfl (by rw [hpc]; decide)
  | refuse hpc hfree hget herror => exact hmoved rfl (by rw [hpc]; decide)
  | build hpc herror => exact hmoved rfl (by rw [hpc]; exact Nat.lt_succ_self 2)
  | taken hpc hid => exact hmoved rfl (by rw [hpc]; exact Nat.succ_pos 1)
  | register hpc hid => exact hmoved rfl (by rw [hpc]; exact Nat.lt_succ_self 1)
  | insert hpc => exact hmoved rfl (by rw [hpc]; exact Nat.succ_pos 0)

/-- A call without a lock moves, and the locks stay as they are. -/
theorem HeldByWorker.setPc (h : HeldByWorker calls e) {i : Nat} {pc : EnsurePc}
    (hold : (e.pc i).holds = false) : HeldByWorker calls (e.setPc i pc) := by
  intro kind holder hwriter
  obtain ⟨hkind, hholds⟩ := h kind holder hwriter
  refine ⟨hkind, ?_⟩
  have hne : holder ≠ i := by
    rintro rfl
    rw [hold] at hholds
    contradiction
  rw [Ensuring.pc_setPc, if_neg hne]
  exact hholds

/-- The lock of the call's kind is released, or taken by the call to work under it. -/
theorem HeldByWorker.setWriter (h : HeldByWorker calls e) {i : Nat} {pc : EnsurePc}
    {reg : PromRegistry} {writer : Option Nat}
    (hworker : ∀ holder, writer = some holder → holder = i ∧ pc.holds = true) :
    HeldByWorker calls (({ e with reg }.setWriter (calls i).kind writer).setPc i pc) := by
  intro kind holder hwriter
  change Function.update e.writer (calls i).kind writer kind = some holder at hwriter
  by_cases hkind : kind = (calls i).kind
  · rw [hkind, Function.update_self] at hwriter
    obtain ⟨rfl, hholds⟩ := hworker holder hwriter
    refine ⟨hkind.symm, ?_⟩
    rw [Ensuring.setPc_self]
    exact hholds
  · rw [Function.update_of_ne hkind] at hwriter
    obtain ⟨hof, hholds⟩ := h kind holder hwriter
    have hne : holder ≠ i := by
      rintro rfl
      exact hkind hof.symm
    refine ⟨hof, ?_⟩
    rw [Ensuring.pc_setPc, if_neg hne]
    exact hholds

theorem HeldByWorker.release (h : HeldByWorker calls e) {i : Nat} {pc : EnsurePc}
    {reg : PromRegistry} :
    HeldByWorker calls (({ e with reg }.setWriter (calls i).kind none).setPc i pc) :=
  h.setWriter fun _ => nofun

theorem HeldByWorker.step {action : EnsureAction} (h : HeldByWorker calls e)
    (heffect : EnsureEffect crate calls e action e') : HeldByWorker calls e' := by
  cases heffect with
  | hit haction hpc hget =>
      apply h.setPc
      rcases hpc with hpc | hpc <;> rw [hpc] <;> rfl
  | miss hpc => exact h.setPc (by rw [hpc]; rfl)
  | refuse hpc hfree hget herror => exact h.setPc (by rw [hpc]; rfl)
  | build hpc herror =>
      apply h.setWriter
      intro holder hholder
      exact ⟨(Option.some.inj hholder).symm, rfl⟩
  | taken hpc hid => exact h.release
  | @register i vec hpc hid =>
      intro kind holder hwriter
      obtain ⟨hof, hholds⟩ := h kind holder hwriter
      refine ⟨hof, ?_⟩
      rw [Ensuring.enroll, Ensuring.pc_setPc]
      split
      · rfl
      · exact hholds
  | insert hpc => exact h.release

end

section

variable {crate : PrometheusCrate} {entries : Nat → MetricEntry} {s t : Updating}

/-- The locks are held by calls of their kinds that work under them. -/
def Updating.Held (entries : Nat → MetricEntry) (s : Updating) : Prop :=
  HeldByWorker (fun i => ensureCall (entries i)) s.ensuring

theorem held_init (defaultBuckets : List F64) : (Updating.init defaultBuckets).Held entries := by
  intro kind holder hwriter
  contradiction

/-- What a recording changes of the calls. -/
theorem observe_cases {j : Nat} (hstep : updateStep crate entries s (.observe j) = some t) :
    s.outcome j = none ∧ t.ensuring.pc = s.ensuring.pc ∧
      t.ensuring.writer = s.ensuring.writer ∧
      ∃ outcome, t.outcome = Function.update s.outcome j (some outcome) := by
  rw [updateStep] at hstep
  split at hstep
  · rename_i hnone
    obtain rfl := Option.some.inj hstep
    exact ⟨hnone, rfl, rfl, _, rfl⟩
  · contradiction

theorem Updating.Held.step {action : UpdateAction} (h : s.Held entries)
    (hstep : updateStep crate entries s action = some t) : t.Held entries := by
  cases action with
  | ensure action =>
      obtain ⟨e, he, rfl⟩ := Option.map_eq_some_iff.mp hstep
      exact HeldByWorker.step h (ensureStep_cases he)
  | observe i =>
      obtain ⟨-, hpc, hwriter, -⟩ := observe_cases hstep
      rw [Updating.Held, HeldByWorker, hpc, hwriter]
      exact h

/-- A step of a call brings it nearer to its end, and no other call further from its own. -/
theorem stepsLeft_step (i : Nat) {action : UpdateAction}
    (hstep : updateStep crate entries s action = some t) :
    t.stepsLeft i + (if (action.caller == i) = true then 1 else 0) ≤ s.stepsLeft i := by
  cases action with
  | ensure action =>
      obtain ⟨e, he, rfl⟩ := Option.map_eq_some_iff.mp hstep
      obtain ⟨hlt, hothers⟩ := (ensureStep_cases he).moves
      simp only [Updating.stepsLeft, UpdateAction.caller, beq_iff_eq]
      by_cases hi : action.caller = i
      · subst hi
        rw [if_pos rfl]
        omega
      · rw [if_neg hi, hothers i (Ne.symm hi)]
        omega
  | observe j =>
      obtain ⟨hnone, hpc, -, outcome, houtcome⟩ := observe_cases hstep
      simp only [Updating.stepsLeft, UpdateAction.caller, beq_iff_eq, hpc, houtcome]
      by_cases hi : j = i
      · subst hi
        simp [hnone]
      · rw [if_neg hi, Function.update_of_ne (Ne.symm hi)]
        omega

/-! ## A call alone -/

/-- Nobody keeps the call from its next step. -/
def Updating.FreeFor (entries : Nat → MetricEntry) (s : Updating) (i : Nat) : Prop :=
  (s.ensuring.pc i).looks = true → s.ensuring.writer (entries i).metricType = none

variable (crate)

/-- A call that nobody keeps from its next step takes it, and is as free after it. -/
theorem own_step {i : Nat} (hfree : s.FreeFor entries i) (hunfinished : s.outcome i = none) :
    ∃ action u, action.caller = i ∧ updateStep crate entries s action = some u ∧
      u.FreeFor entries i := by
  have hensure : ∀ (action : EnsureAction) (e : Ensuring), action.caller = i →
      ensureStep crate (fun i => ensureCall (entries i)) s.ensuring action = some e →
      ((e.pc i).looks = true → e.writer (entries i).metricType = none) →
      ∃ action u, action.caller = i ∧ updateStep crate entries s action = some u ∧
        u.FreeFor entries i := by
    intro action e hcaller hstep hnext
    exact ⟨.ensure action, { s with ensuring := e }, hcaller,
      Option.map_eq_some_iff.mpr ⟨e, hstep, rfl⟩, hnext⟩
  -- a call that has returned, or goes on under its lock, looks no more
  have hpast : ∀ {u : Ensuring} {pc : EnsurePc}, pc.looks = false →
      ((u.setPc i pc).pc i).looks = true →
        (u.setPc i pc).writer (entries i).metricType = none := by
    intro u pc hpc hlooks
    rw [Ensuring.setPc_self, hpc] at hlooks
    contradiction
  cases hpc : s.ensuring.pc i with
  | start =>
      have hwriter := hfree (by rw [hpc]; rfl)
      apply hensure (.read i) _ rfl (if_pos ⟨hpc, hwriter⟩)
      intro _
      rw [Ensuring.read]
      split <;> exact hwriter
  | missed =>
      have hwriter := hfree (by rw [hpc]; rfl)
      apply hensure (.lock i) _ rfl (if_pos ⟨hpc, hwriter⟩)
      rw [Ensuring.lock]
      split
      · exact hpast rfl
      · simp only
        split
        · exact hpast rfl
        · exact hpast rfl
  | building vec =>
      have hstep : ensureStep crate (fun i => ensureCall (entries i)) s.ensuring (.register i) =
          some (s.ensuring.register i (ensureCall (entries i)) vec) := by
        rw [ensureStep, hpc]
      apply hensure (.register i) _ rfl hstep
      rw [Ensuring.register]
      split
      · exact hpast rfl
      · exact hpast rfl
  | registered vec =>
      have hstep : ensureStep crate (fun i => ensureCall (entries i)) s.ensuring (.insert i) =
          some (s.ensuring.insert i (ensureCall (entries i)) vec) := by
        rw [ensureStep, hpc]
      apply hensure (.insert i) _ rfl hstep
      exact hpast rfl
  | returned result =>
      refine ⟨.observe i, _, rfl, by rw [updateStep, hpc, hunfinished], ?_⟩
      intro hlooks
      change (s.ensuring.pc i).looks = true at hlooks
      rw [hpc] at hlooks
      contradiction

/-- A call that nobody keeps from its next step ends by its own steps alone. -/
theorem ends_alone {i : Nat} (hfree : s.FreeFor entries i) :
    ∃ actions t, exec (updateStep crate entries) s actions = some t ∧
      (t.outcome i).isSome = true ∧ actions.length ≤ s.stepsLeft i ∧
      ∀ action ∈ actions, action.caller = i := by
  generalize hleft : s.stepsLeft i = left
  induction left using Nat.strong_induction_on generalizing s with
  | _ left ih =>
      cases houtcome : s.outcome i with
      | some outcome =>
          exact ⟨[], s, rfl, by rw [houtcome]; rfl, Nat.zero_le _, by simp⟩
      | none =>
          obtain ⟨action, u, hcaller, hstep, hnext⟩ :=
            own_step crate hfree houtcome
          have hfewer := stepsLeft_step i hstep
          rw [hcaller, beq_self_eq_true, if_pos rfl, hleft] at hfewer
          obtain ⟨actions, t, hrun, hended, hlength, hown⟩ :=
            ih (u.stepsLeft i) (by omega) hnext rfl
          refine ⟨action :: actions, t, ?_, hended, ?_, ?_⟩
          · rw [exec, hstep]
            exact hrun
          · rw [List.length_cons]
            omega
          · exact List.forall_mem_cons.mpr ⟨hcaller, hown⟩

/-! ## The holder of a lock -/

variable (entries)

/-- The last step under the lock. -/
theorem release_registered {i : Nat} {vec : Collector}
    (hpc : s.ensuring.pc i = .registered vec) :
    ∃ t, updateStep crate entries s (.ensure (.insert i)) = some t ∧
      t.ensuring.writer (entries i).metricType = none := by
  have hstep : ensureStep crate (fun i => ensureCall (entries i)) s.ensuring (.insert i) =
      some (s.ensuring.insert i (ensureCall (entries i)) vec) := by
    rw [ensureStep, hpc]
  exact ⟨_, Option.map_eq_some_iff.mpr ⟨_, hstep, rfl⟩, Function.update_self ..⟩

/-- A call that works under a lock releases it in at most two steps of its own, which
nobody can keep it from. -/
theorem holder_releases {i : Nat} (hholds : (s.ensuring.pc i).holds = true) :
    ∃ actions t, exec (updateStep crate entries) s actions = some t ∧
      t.ensuring.writer (entries i).metricType = none ∧ actions.length ≤ 2 ∧
      ∀ action ∈ actions, action.caller = i := by
  cases hpc : s.ensuring.pc i with
  | registered vec =>
      obtain ⟨t, hstep, hreleased⟩ := release_registered crate entries hpc
      refine ⟨[.ensure (.insert i)], t, ?_, hreleased, by simp, ?_⟩
      · rw [exec, hstep]
        rfl
      · simp [UpdateAction.caller, EnsureAction.caller]
  | building vec =>
      have hstep : updateStep crate entries s (.ensure (.register i)) =
          some { s with ensuring := s.ensuring.register i (ensureCall (entries i)) vec } := by
        rw [updateStep, ensureStep, hpc]
        rfl
      cases hid : s.ensuring.reg.registry.get? vec.opts.name with
      | some id =>
          let released := (s.ensuring.setWriter (entries i).metricType none).setPc i
            (.returned none)
          have hgiven : s.ensuring.register i (ensureCall (entries i)) vec = released := by
            rw [Ensuring.register, PromRegistry.register, hid]
            rfl
          rw [hgiven] at hstep
          refine ⟨[.ensure (.register i)], { s with ensuring := released }, ?_,
            Function.update_self .., by simp, ?_⟩
          · rw [exec, hstep]
            rfl
          · simp [UpdateAction.caller, EnsureAction.caller]
      | none =>
          have hkept : s.ensuring.register i (ensureCall (entries i)) vec =
              s.ensuring.enroll i vec := by
            rw [Ensuring.register, PromRegistry.register, hid]
            rfl
          rw [hkept] at hstep
          have hregistered : (s.ensuring.enroll i vec).pc i = .registered vec :=
            Ensuring.setPc_self _ _ _
          obtain ⟨t, hinsert, hreleased⟩ :=
            @release_registered crate entries { s with ensuring := s.ensuring.enroll i vec } i vec
              hregistered
          refine ⟨[.ensure (.register i), .ensure (.insert i)], t, ?_, hreleased, by simp, ?_⟩
          · rw [exec, hstep, Option.bind_some, exec, hinsert]
            rfl
          · simp [UpdateAction.caller, EnsureAction.caller]
  | start => rw [hpc] at hholds; contradiction
  | missed => rw [hpc] at hholds; contradiction
  | returned result => rw [hpc] at hholds; contradiction

theorem EnsurePc.stepsLeft_le (pc : EnsurePc) : pc.stepsLeft ≤ 4 := by
  cases pc with
  | start => exact Nat.le_refl 4
  | missed => exact Nat.le_succ 3
  | building vec => exact Nat.le_add_left 2 2
  | registered vec => exact Nat.le_add_left 1 3
  | returned result => exact Nat.zero_le 4

theorem Updating.stepsLeft_le (s : Updating) (i : Nat) : s.stepsLeft i ≤ 5 := by
  have hle := (s.ensuring.pc i).stepsLeft_le
  rw [Updating.stepsLeft]
  split <;> omega

/-- No run deadlocks: each call takes at most five steps of its own, and from every state
reached it can be ended by at most two steps of the call that holds the write lock of its
map, if another does, followed by at most five of its own. -/
theorem updates_make_progress (defaultBuckets : List F64) {actions : List UpdateAction}
    (h : exec (updateStep crate entries) (Updating.init defaultBuckets) actions = some s) :
    (∀ i, actions.countP (fun action => action.caller == i) ≤ 5) ∧
    ∀ i, ∃ release rest t, exec (updateStep crate entries) s (release ++ rest) = some t ∧
      (t.outcome i).isSome = true ∧ release.length ≤ 2 ∧ rest.length ≤ 5 ∧
      (∀ action ∈ release, action.caller ≠ i ∧
        s.ensuring.writer (entries i).metricType = some action.caller) ∧
      ∀ action ∈ rest, action.caller = i := by
  constructor
  · intro i
    obtain ⟨-, hrank⟩ : True ∧ s.stepsLeft i +
        actions.countP (fun action => action.caller == i) ≤
          (Updating.init defaultBuckets).stepsLeft i :=
      @exec_rank _ _ _ (fun _ => True) (fun u => u.stepsLeft i) _
        (fun _ _ _ _ hstep => ⟨trivial, stepsLeft_step i hstep⟩) _ _ _ h trivial
    have hstart := (Updating.init defaultBuckets).stepsLeft_le i
    omega
  · intro i
    have hheld : s.Held entries :=
      (Reaches.of_exec h).invariant (fun _ _ _ hu _ hstep => hu.step hstep)
        (held_init defaultBuckets)
    by_cases hfree : s.FreeFor entries i
    · obtain ⟨rest, t, hrun, hended, hlength, hown⟩ := ends_alone crate hfree
      exact ⟨[], rest, t, hrun, hended, Nat.zero_le 2, hlength.trans (s.stepsLeft_le i),
        fun _ => nofun, hown⟩
    · obtain ⟨hlooks, hwriter⟩ := Classical.not_imp.mp hfree
      obtain ⟨holder, hholder⟩ := Option.ne_none_iff_exists'.mp hwriter
      obtain ⟨hkind, hholds⟩ := hheld _ _ hholder
      have hne : holder ≠ i := by
        intro heq
        rw [heq] at hholds
        cases hpc : s.ensuring.pc i <;> rw [hpc] at hlooks hholds <;> contradiction
      obtain ⟨release, mid, hrelease, hreleased, hlength, hby⟩ :=
        holder_releases crate entries hholds
      have hfree' : mid.FreeFor entries i := fun _ => hkind ▸ hreleased
      obtain ⟨rest, t, hrun, hended, hlength', hown⟩ := ends_alone crate hfree'
      refine ⟨release, rest, t, (exec_append hrelease rest).trans hrun, hended, hlength,
        hlength'.trans (mid.stepsLeft_le i), ?_, hown⟩
      intro action ha
      rw [hby action ha]
      exact ⟨hne, hholder⟩

end

/-- One of two gauges of one name has taken the lock when the other comes for it. -/
def waitingRun : List UpdateAction :=
  [.ensure (.read 1), .ensure (.read 2), .ensure (.lock 1)]

/-- The other waits, and ends once the first has released the lock. -/
theorem waitingRun_progresses :
    ∃ s, exec (updateStep acceptAll racing) (Updating.init []) waitingRun = some s ∧
      updateStep acceptAll racing s (.ensure (.lock 2)) = none ∧
      ∃ release rest t, exec (updateStep acceptAll racing) s (release ++ rest) = some t ∧
        (t.outcome 2).isSome = true ∧ release.length ≤ 2 ∧ rest.length ≤ 5 ∧
        (∀ action ∈ release, action.caller ≠ 2 ∧
          s.ensuring.writer (racing 2).metricType = some action.caller) ∧
        ∀ action ∈ rest, action.caller = 2 :=
  ⟨_, rfl, rfl, (@updates_make_progress acceptAll racing _ [] waitingRun rfl).2 2⟩

end Tonggeret.Prometheus
