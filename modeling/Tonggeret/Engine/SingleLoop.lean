import Tonggeret.Engine.Lifecycle

/-!
# One compaction loop

`spawn_compaction_task` replaces the handle in the slot without looking at it and
without consulting the shutdown flag, and `abort` does not stop a pass.  The lifecycle
is safe in the runs whose callers spawn once, before the shutdown, and shut down
between two passes.
-/

namespace Tonggeret.Engine

open Tonggeret.Lib

namespace Lifecycle

def AtMostOneLoop (s : Lifecycle) : Prop :=
  ∀ t t', (s.tasks t).live = true → (s.tasks t').live = true → t = t'

/-- After a shutdown that was performed has returned, no pass can take a step. -/
def NoPassAfterShutdown (s : Lifecycle) : Prop :=
  (∃ k, s.calls k = .shutDown) → ∀ p, lifecycleStep s (.passStep p) = none

/-- Some shutdown call has emptied the slot. -/
def SlotTaken (s : Lifecycle) : Prop := ∃ k, s.calls k = .aborted ∨ s.calls k = .shutDown

end Lifecycle

/-- A loop is spawned only while none is live and the slot was not taken by a shutdown,
and the slot is taken only while no handle is on its way to it, no loop is being polled
and no pass is in flight. -/
def LifecyclePermitted (s : Lifecycle) : LifecycleAction → Prop
  | .spawnTask k inRuntime => ∀ db, s.calls k = .checking db →
      s.maySpawn db inRuntime = true →
        (∀ t, (s.tasks t).live = false) ∧ ¬ s.SlotTaken
  | .abortTask _ => (∀ k t, s.calls k ≠ .spawned t) ∧ (∀ t b, s.tasks t ≠ .polling b) ∧
      ∀ p, s.passes p ≠ .queued ∧ s.passes p ≠ .running
  | _ => True

/-- Every live loop is in the slot or about to be stored, and every pass in flight
belongs to a live loop. -/
structure OneLoop (s : Lifecycle) : Prop where
  single : s.AtMostOneLoop
  calm : ∀ t, s.tasks t ≠ .polling true
  pending : ∀ k t, s.calls k = .spawned t → (s.tasks t).live = true
  held : ∀ t, (s.tasks t).live = true → s.compactionTask = some t ∨ ∃ k, s.calls k = .spawned t
  inFlight : ∀ p, s.passes p = .queued ∨ s.passes p = .running → ∃ t, s.tasks t = .waiting p
  ended : s.SlotTaken → ∀ t, (s.tasks t).live = false

theorem oneLoop_init : OneLoop Lifecycle.init where
  single := fun _ _ h => by contradiction
  calm := fun _ => TaskPc.noConfusion
  pending := fun _ _ h => by contradiction
  held := fun _ h => by contradiction
  inFlight := fun _ h => by rcases h with h | h <;> contradiction
  ended := fun _ _ => rfl

section

variable {s u : Lifecycle} {a : LifecycleAction}

theorem Lifecycle.tasks_setTask (s : Lifecycle) (t : Nat) (pc : TaskPc) (x : Nat) :
    (s.setTask t pc).tasks x = if x = t then pc else s.tasks x :=
  Function.update_apply s.tasks t pc x

theorem Lifecycle.passes_setPass (s : Lifecycle) (p : Nat) (pc : PassPc) (x : Nat) :
    (s.setPass p pc).passes x = if x = p then pc else s.passes x :=
  Function.update_apply s.passes p pc x

theorem Lifecycle.calls_of_setCall {k x : Nat} {pc q : CallPc}
    (h : (s.setCall k pc).calls x = q) (hne : pc ≠ q) : s.calls x = q := by
  rw [Lifecycle.calls_setCall] at h
  by_cases hx : x = k
  · rw [if_pos hx] at h
    contradiction
  · rw [if_neg hx] at h
    exact h

theorem Lifecycle.SlotTaken.of_setCall {k : Nat} {pc : CallPc}
    (h : (s.setCall k pc).SlotTaken) (haborted : pc ≠ .aborted) (hshutDown : pc ≠ .shutDown) :
    s.SlotTaken := by
  obtain ⟨x, hx⟩ := h
  refine ⟨x, ?_⟩
  rcases hx with hx | hx
  · exact Or.inl (Lifecycle.calls_of_setCall hx haborted)
  · exact Or.inr (Lifecycle.calls_of_setCall hx hshutDown)

theorem CallPc.ne_of_quiet {pc q : CallPc} (h : pc.quiet = true) (hq : q.quiet = false) :
    pc ≠ q := by
  rintro rfl
  rw [h] at hq
  contradiction

/-- A call between two quiet places. -/
theorem OneLoop.call (h : OneLoop s) {k : Nat} {pc : CallPc} {global : Option Bool}
    {flag : Bool} (hold : (s.calls k).quiet = true) (hnew : pc.quiet = true) :
    OneLoop ({ s with global, shutdownFlag := flag }.setCall k pc) where
  single := h.single
  calm := h.calm
  pending := by
    intro x t hx
    exact h.pending x t (Lifecycle.calls_of_setCall hx (CallPc.ne_of_quiet hnew rfl))
  held := by
    intro t ht
    rcases h.held t ht with hslot | ⟨x, hx⟩
    · exact Or.inl hslot
    · refine Or.inr ⟨x, ?_⟩
      have hxk : x ≠ k := by
        intro heq
        rw [← heq, hx] at hold
        contradiction
      rw [Lifecycle.calls_setCall, if_neg hxk]
      exact hx
  inFlight := h.inFlight
  ended := by
    intro htaken
    exact h.ended (htaken.of_setCall (CallPc.ne_of_quiet hnew rfl)
      (CallPc.ne_of_quiet hnew rfl))

/-- The only live loop is a new one, on its way to the slot. -/
theorem OneLoop.spawn (h : OneLoop s) (k : Nat)
    (hnone : ∀ t, (s.tasks t).live = false) (huntaken : ¬ s.SlotTaken) :
    OneLoop (s.spawn.setCall k (.spawned s.nextTask)) := by
  have htasks : ∀ t, (s.spawn.setCall k (.spawned s.nextTask)).tasks t =
      if t = s.nextTask then .ready else s.tasks t :=
    Lifecycle.tasks_setTask s s.nextTask .ready
  have hlive : ∀ t, ((s.spawn.setCall k (.spawned s.nextTask)).tasks t).live = true →
      t = s.nextTask := by
    intro t ht
    rw [htasks] at ht
    by_contra hne
    rw [if_neg hne, hnone] at ht
    contradiction
  have hcalls : ∀ x, (s.spawn.setCall k (.spawned s.nextTask)).calls x =
      if x = k then .spawned s.nextTask else s.calls x :=
    Lifecycle.calls_setCall s.spawn k _
  refine ⟨?_, ?_, ?_, ?_, ?_, ?_⟩
  · intro t t' ht ht'
    rw [hlive t ht, hlive t' ht']
  · intro t
    rw [htasks]
    by_cases ht : t = s.nextTask
    · rw [if_pos ht]
      exact TaskPc.noConfusion
    · rw [if_neg ht]
      exact h.calm t
  · intro x t hx
    rw [hcalls] at hx
    by_cases hxk : x = k
    · rw [if_pos hxk] at hx
      rw [htasks, if_pos (CallPc.spawned.inj hx).symm]
      rfl
    · rw [if_neg hxk] at hx
      have hlive := h.pending x t hx
      rw [hnone] at hlive
      contradiction
  · intro t ht
    refine Or.inr ⟨k, ?_⟩
    rw [hcalls, if_pos rfl, hlive t ht]
  · intro p hp
    obtain ⟨t, ht⟩ := h.inFlight p hp
    have hdead := hnone t
    rw [ht] at hdead
    contradiction
  · intro htaken
    exact absurd (htaken.of_setCall CallPc.noConfusion CallPc.noConfusion) huntaken

theorem OneLoop.store (h : OneLoop s) {k t : Nat} (hpc : s.calls k = .spawned t) :
    OneLoop ({ s with compactionTask := some t }.setCall k .returned) where
  single := h.single
  calm := h.calm
  pending := by
    intro x t' hx
    exact h.pending x t' (Lifecycle.calls_of_setCall hx CallPc.noConfusion)
  held := by
    intro t' ht'
    have heq : t = t' := h.single t t' (h.pending k t hpc) ht'
    exact Or.inl (congrArg some heq)
  inFlight := h.inFlight
  ended := by
    intro htaken
    exact h.ended (htaken.of_setCall CallPc.noConfusion CallPc.noConfusion)

theorem Lifecycle.tasks_abortSlot (s : Lifecycle) (x : Nat) :
    s.abortSlot.tasks x =
      if s.compactionTask = some x then (s.tasks x).abort else s.tasks x := by
  unfold Lifecycle.abortSlot
  cases s.compactionTask with
  | none => simp
  | some t =>
      by_cases hx : x = t
      · rw [hx]
        simp [Lifecycle.setTask]
      · simp [Lifecycle.setTask, Function.update_of_ne hx, Ne.symm hx]

/-- Between two passes the loop in the slot is the only one, and it is cancelled. -/
theorem OneLoop.dead_of_abortSlot (h : OneLoop s) (hstored : ∀ k t, s.calls k ≠ .spawned t)
    (hasleep : ∀ t b, s.tasks t ≠ .polling b) (x : Nat) :
    (s.abortSlot.tasks x).live = false := by
  rw [Lifecycle.tasks_abortSlot]
  by_cases hslot : s.compactionTask = some x
  · rw [if_pos hslot]
    cases hpc : s.tasks x with
    | polling b => exact absurd hpc (hasleep x b)
    | _ => rfl
  · rw [if_neg hslot]
    by_contra hlive
    rcases h.held x (by simpa using hlive) with hheld | ⟨k, hk⟩
    · exact hslot hheld
    · exact hstored k x hk

theorem abortSlot_frame (s : Lifecycle) :
    s.abortSlot.calls = s.calls ∧ s.abortSlot.passes = s.passes := by
  unfold Lifecycle.abortSlot
  cases s.compactionTask <;> exact ⟨rfl, rfl⟩

theorem OneLoop.abort (h : OneLoop s) (k : Nat) (hstored : ∀ k t, s.calls k ≠ .spawned t)
    (hasleep : ∀ t b, s.tasks t ≠ .polling b)
    (hflight : ∀ p, s.passes p ≠ .queued ∧ s.passes p ≠ .running) :
    OneLoop (s.abortSlot.setCall k .aborted) := by
  have hdead := h.dead_of_abortSlot hstored hasleep
  obtain ⟨hcalls, hpasses⟩ := abortSlot_frame s
  refine ⟨?_, ?_, ?_, ?_, ?_, fun _ => hdead⟩
  · intro t t' ht
    exact absurd ht (by simp [show ((s.abortSlot.setCall k .aborted).tasks t).live = false
      from hdead t])
  · intro t hpc
    have hlive := hdead t
    rw [show s.abortSlot.tasks t = .polling true from hpc] at hlive
    contradiction
  · intro x t hx
    have hold : s.abortSlot.calls x = .spawned t :=
      Lifecycle.calls_of_setCall hx CallPc.noConfusion
    rw [hcalls] at hold
    exact absurd hold (hstored x t)
  · intro t ht
    exact absurd ht (by simp [show ((s.abortSlot.setCall k .aborted).tasks t).live = false
      from hdead t])
  · intro p hp
    rw [show (s.abortSlot.setCall k .aborted).passes = s.passes from hpasses] at hp
    rcases hp with hp | hp
    · exact absurd hp (hflight p).1
    · exact absurd hp (hflight p).2

theorem OneLoop.persist (h : OneLoop s) {k : Nat} (hpc : s.calls k = .aborted) :
    OneLoop (s.setCall k .shutDown) where
  single := h.single
  calm := h.calm
  pending := by
    intro x t hx
    exact h.pending x t (Lifecycle.calls_of_setCall hx CallPc.noConfusion)
  held := by
    intro t ht
    rw [show (s.setCall k .shutDown).tasks = s.tasks from rfl,
      h.ended ⟨k, Or.inl hpc⟩] at ht
    contradiction
  inFlight := h.inFlight
  ended := fun _ => h.ended ⟨k, Or.inl hpc⟩

/-- A live loop goes on to another live place. -/
theorem OneLoop.loop (h : OneLoop s) {t : Nat} (pc : TaskPc) (passes : Nat → PassPc)
    (nextPass : Nat) (hlive : (s.tasks t).live = true) (hpc : pc.live = true)
    (hcalm : pc ≠ .polling true)
    (hflight : ∀ p, passes p = .queued ∨ passes p = .running →
      ∃ x, (s.setTask t pc).tasks x = .waiting p) :
    OneLoop { s.setTask t pc with passes, nextPass } := by
  have hsame : ∀ x, ((s.setTask t pc).tasks x).live = (s.tasks x).live := by
    intro x
    rw [Lifecycle.tasks_setTask]
    by_cases hx : x = t
    · rw [if_pos hx, hx, hpc, hlive]
    · rw [if_neg hx]
  refine ⟨?_, ?_, ?_, ?_, hflight, ?_⟩
  · intro x y hx hy
    exact h.single x y ((hsame x).symm.trans hx) ((hsame y).symm.trans hy)
  · intro x hx
    change (s.setTask t pc).tasks x = _ at hx
    rw [Lifecycle.tasks_setTask] at hx
    by_cases hxt : x = t
    · rw [if_pos hxt] at hx
      exact hcalm hx
    · rw [if_neg hxt] at hx
      exact h.calm x hx
  · intro k x hx
    exact (hsame x).trans (h.pending k x hx)
  · intro x hx
    exact h.held x ((hsame x).symm.trans hx)
  · intro hover x
    exact (hsame x).trans (h.ended hover x)

/-- A pass that was in flight goes on. -/
theorem OneLoop.pass (h : OneLoop s) {p : Nat} (pc : PassPc)
    (hpc : s.passes p = .queued ∨ s.passes p = .running) : OneLoop (s.setPass p pc) :=
  { h with
    inFlight := by
      intro x hx
      rw [Lifecycle.passes_setPass] at hx
      by_cases hxp : x = p
      · rw [hxp]
        exact h.inFlight p hpc
      · rw [if_neg hxp] at hx
        exact h.inFlight x hx }

theorem oneLoop_step (h : OneLoop s) (hok : LifecyclePermitted s a)
    (hstep : lifecycleStep s a = some u) : OneLoop u := by
  cases lifecycleStep_cases hstep with
  | call hold hnew => exact h.call hold hnew
  | @spawn k inRuntime db hpc hmay =>
      obtain ⟨hnone, huntaken⟩ := hok db hpc hmay
      exact h.spawn k hnone huntaken
  | store hpc => exact h.store hpc
  | @abort k hpc =>
      obtain ⟨hstored, hasleep, hflight⟩ := hok
      exact h.abort k hstored hasleep hflight
  | persist hpc => exact h.persist hpc
  | @loop _ t pc hlive hpc hdone =>
      have hnew : pc.live = true ∧ pc ≠ .polling true := by
        rcases hpc with rfl | rfl <;> simp [TaskPc.live]
      refine h.loop pc s.passes s.nextPass hlive hnew.1 hnew.2 ?_
      intro p hp
      obtain ⟨x, hx⟩ := h.inFlight p hp
      refine ⟨x, ?_⟩
      have hxt : x ≠ t := by
        rintro rfl
        rw [hdone p hx] at hp
        rcases hp with hp | hp <;> contradiction
      rw [Lifecycle.tasks_setTask, if_neg hxt]
      exact hx
  | @queue t abortPending hpc =>
      obtain rfl : abortPending = false := by
        cases abortPending with
        | false => rfl
        | true => exact absurd hpc (h.calm t)
      refine h.loop (.waiting s.nextPass) (s.setPass s.nextPass .queued).passes
        (s.nextPass + 1) (by rw [hpc]; rfl) rfl TaskPc.noConfusion ?_
      intro p hp
      rw [Lifecycle.passes_setPass] at hp
      by_cases hnext : p = s.nextPass
      · refine ⟨t, ?_⟩
        rw [Lifecycle.tasks_setTask, if_pos rfl, hnext]
      · rw [if_neg hnext] at hp
        obtain ⟨x, hx⟩ := h.inFlight p hp
        refine ⟨x, ?_⟩
        have hxt : x ≠ t := by
          rintro rfl
          rw [hpc] at hx
          contradiction
        rw [Lifecycle.tasks_setTask, if_neg hxt]
        exact hx
  | startPass hpc => exact h.pass _ (Or.inl hpc)
  | passStep => exact h
  | finishPass hpc => exact h.pass _ (Or.inr hpc)

theorem oneLoop_of_reaches
    (h : Reaches lifecycleStep LifecyclePermitted Lifecycle.init s) : OneLoop s :=
  h.invariant (fun _ _ _ hinv hok hstep => oneLoop_step hinv hok hstep) oneLoop_init

theorem OneLoop.noPassAfterShutdown (h : OneLoop s) : s.NoPassAfterShutdown := by
  rintro ⟨k, hk⟩ p
  have hidle : s.passes p ≠ .running := by
    intro hp
    obtain ⟨t, ht⟩ := h.inFlight p (Or.inr hp)
    have hdead := h.ended ⟨k, Or.inr hk⟩ t
    rw [ht] at hdead
    contradiction
  simp [lifecycleStep, loopStep, hidle]

/-- In every run whose loops are spawned one at a time before the shutdown, and whose
shutdown empties the slot between two passes, at most one loop is ever live and no pass
takes a step after the shutdown. -/
theorem compaction_lifecycle_safe
    (h : Reaches lifecycleStep LifecyclePermitted Lifecycle.init s) :
    s.AtMostOneLoop ∧ s.NoPassAfterShutdown :=
  ⟨(oneLoop_of_reaches h).single, (oneLoop_of_reaches h).noPassAfterShutdown⟩

end

/-! ## Runs -/

def fullConfig : Config := .defaultFull "./data/fjall"

/-- `init` inside a runtime, with the compaction loop it spawns. -/
def initRun : List LifecycleAction :=
  [.beginInit 0 fullConfig, .publish 0, .startWriter 0 true, .spawnTask 0 true, .storeTask 0,
    .startSleep 0]

def passRun (t p : Nat) : List LifecycleAction := [.wake t, .spawnPass t, .startPass p]

def shutdownRun (k : Nat) : List LifecycleAction :=
  [.swapFlag k, .joinWriter k, .abortTask k, .finalPersist k]

def manualSpawnRun (k : Nat) : List LifecycleAction :=
  [.callSpawn k .default, .spawnTask k true, .storeTask k]

theorem init_then_shutdown_safe :
    ∃ s, exec lifecycleStep Lifecycle.init (initRun ++ shutdownRun 1) = some s ∧
      s.AtMostOneLoop ∧ s.NoPassAfterShutdown := by
  refine ⟨_, rfl, compaction_lifecycle_safe ?_⟩
  refine .head (a := .beginInit 0 fullConfig) trivial rfl ?_
  refine .head (a := .publish 0) trivial rfl ?_
  refine .head (a := .startWriter 0 true) trivial rfl ?_
  refine .head (a := .spawnTask 0 true) (fun _ _ _ => ⟨fun _ => rfl, ?_⟩) rfl ?_
  · rintro ⟨k, hk⟩
    by_cases hk0 : k = 0
    · subst hk0
      rcases hk with hk | hk <;> exact CallPc.noConfusion hk
    · simp [Lifecycle.setCall, Function.update_of_ne hk0, Lifecycle.init] at hk
  refine .head (a := .storeTask 0) trivial rfl ?_
  refine .head (a := .startSleep 0) trivial rfl ?_
  refine .head (a := .swapFlag 1) trivial rfl ?_
  refine .head (a := .joinWriter 1) trivial rfl ?_
  refine .head (a := .abortTask 1) ⟨?_, ?_, fun p => ⟨PassPc.noConfusion, PassPc.noConfusion⟩⟩
    rfl ?_
  · intro k t hk
    match k with
    | 0 | 1 | _ + 2 => exact CallPc.noConfusion hk
  · intro t b ht
    match t with
    | 0 | _ + 1 => exact TaskPc.noConfusion ht
  exact .head (a := .finalPersist 1) trivial rfl (.refl _)

/-- Three schedules break the lifecycle: a manual spawn next to the loop of `init`, a
spawn after the shutdown, and a shutdown during a pass. -/
theorem compaction_lifecycle_broken :
    (∃ s, exec lifecycleStep Lifecycle.init (initRun ++ manualSpawnRun 1) = some s ∧
      ¬ s.AtMostOneLoop) ∧
    (∃ s, exec lifecycleStep Lifecycle.init
        (initRun ++ shutdownRun 1 ++ manualSpawnRun 2 ++ .startSleep 1 :: passRun 1 0) =
          some s ∧ ¬ s.NoPassAfterShutdown) ∧
    ∃ s, exec lifecycleStep Lifecycle.init (initRun ++ passRun 0 0 ++ shutdownRun 1) =
      some s ∧ ¬ s.NoPassAfterShutdown := by
  refine ⟨⟨_, rfl, fun h => ?_⟩, ⟨_, rfl, fun h => ?_⟩, ⟨_, rfl, fun h => ?_⟩⟩
  · exact Nat.zero_ne_one (h 0 1 rfl rfl)
  · have hstep : some _ = none := h ⟨1, rfl⟩ 0
    contradiction
  · have hstep : some _ = none := h ⟨1, rfl⟩ 0
    contradiction

end Tonggeret.Engine
