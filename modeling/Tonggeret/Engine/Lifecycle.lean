import Mathlib.Logic.Function.Basic
import Tonggeret.Config
import Tonggeret.Lib.Transition

/-!
# Global lifecycle

Calls of `init`, `spawn_compaction_task` and `shutdown`, the spawned compaction
loops and their `spawn_blocking` passes as one machine over `GLOBAL`, `SHUTDOWN` and
`COMPACTION_TASK`.  Dropping a `JoinHandle` detaches its task; `abort` cancels a task
at its next await point and has no effect on a pass.  Of a shutdown call the delivery
of the sentinel and the join of the writer are one step here.
-/

namespace Tonggeret.Engine

/-- Where a call of the public interface stands. -/
inductive CallPc
  | idle
  | preparing (config : Config)
  | initialized (db : FjallConfig)
  | checking (db : FjallConfig)
  | spawned (task : Nat)
  | performing
  | joined
  | aborted
  | returned
  | shutDown

/-- Where a compaction loop stands.  A loop that is being polled when `abort` is called
runs on until it awaits. -/
inductive TaskPc
  | absent
  | ready
  | sleeping
  | polling (abortPending : Bool)
  | waiting (pass : Nat)
  | cancelled
deriving DecidableEq

inductive PassPc
  | absent
  | queued
  | running
  | done
deriving DecidableEq

/-- `global` says of the published handle whether it has a Fjall keyspace. -/
structure Lifecycle where
  global : Option Bool
  shutdownFlag : Bool
  compactionTask : Option Nat
  calls : Nat → CallPc
  tasks : Nat → TaskPc
  nextTask : Nat
  passes : Nat → PassPc
  nextPass : Nat

inductive LifecycleAction
  | beginInit (k : Nat) (config : Config)
  | failInit (k : Nat)
  | publish (k : Nat)
  | startWriter (k : Nat) (started : Bool)
  | callSpawn (k : Nat) (db : FjallConfig)
  | spawnTask (k : Nat) (inRuntime : Bool)
  | storeTask (k : Nat)
  | swapFlag (k : Nat)
  | joinWriter (k : Nat)
  | abortTask (k : Nat)
  | finalPersist (k : Nat)
  | startSleep (t : Nat)
  | wake (t : Nat)
  | spawnPass (t : Nat)
  | resume (t : Nat)
  | startPass (p : Nat)
  | passStep (p : Nat)
  | finishPass (p : Nat)

namespace TaskPc

/-- The loop has not been cancelled. -/
def live : TaskPc → Bool
  | .ready | .sleeping | .polling _ | .waiting _ => true
  | .absent | .cancelled => false

/-- `JoinHandle::abort`. -/
def abort : TaskPc → TaskPc
  | .absent => .absent
  | .polling _ => .polling true
  | .ready | .sleeping | .waiting _ | .cancelled => .cancelled

end TaskPc

namespace Lifecycle

def init : Lifecycle :=
  ⟨none, false, none, fun _ => .idle, fun _ => .absent, 0, fun _ => .absent, 0⟩

def setCall (s : Lifecycle) (k : Nat) (pc : CallPc) : Lifecycle :=
  { s with calls := Function.update s.calls k pc }

def setTask (s : Lifecycle) (t : Nat) (pc : TaskPc) : Lifecycle :=
  { s with tasks := Function.update s.tasks t pc }

def setPass (s : Lifecycle) (p : Nat) (pc : PassPc) : Lifecycle :=
  { s with passes := Function.update s.passes p pc }

/-- `rt.spawn(compaction_loop)`. -/
def spawn (s : Lifecycle) : Lifecycle :=
  { s.setTask s.nextTask .ready with nextTask := s.nextTask + 1 }

/-- `guard.take()` and `task.abort()`. -/
def abortSlot (s : Lifecycle) : Lifecycle :=
  match s.compactionTask with
  | some t => { s.setTask t (s.tasks t).abort with compactionTask := none }
  | none => s

/-- `spawn_blocking`, after which the loop awaits the pass or is cancelled. -/
def queuePass (s : Lifecycle) (t : Nat) (abortPending : Bool) : Lifecycle :=
  { (s.setPass s.nextPass .queued).setTask t
      (if abortPending then .cancelled else .waiting s.nextPass) with
    nextPass := s.nextPass + 1 }

/-- `spawn_compaction_task` passes its checks. -/
def maySpawn (s : Lifecycle) (db : FjallConfig) (inRuntime : Bool) : Bool :=
  db.enableCompaction && s.global == some true && inRuntime

theorem calls_setCall (s : Lifecycle) (k : Nat) (pc : CallPc) (x : Nat) :
    (s.setCall k pc).calls x = if x = k then pc else s.calls x :=
  Function.update_apply s.calls k pc x

@[simp] theorem calls_setCall_self (s : Lifecycle) (k : Nat) (pc : CallPc) :
    (s.setCall k pc).calls k = pc :=
  Function.update_self ..

end Lifecycle

/-- One step of `init`. -/
def initStep (s : Lifecycle) : LifecycleAction → Option Lifecycle
  | .beginInit k config =>
      match s.calls k with
      | .idle =>
          match config.validate with
          | .error _ => some (s.setCall k .returned)
          | .ok () => some (s.setCall k (.preparing config))
      | _ => none
  | .failInit k =>
      match s.calls k with
      | .preparing _ => some (s.setCall k .returned)
      | _ => none
  | .publish k =>
      match s.calls k with
      | .preparing config =>
          match s.global with
          | some _ => some (s.setCall k .returned)
          | none =>
              some ({ s with global := some config.fjall.isSome }.setCall k
                (match config.fjall with
                | some db => .initialized db
                | none => .returned))
      | _ => none
  | .startWriter k started =>
      match s.calls k with
      | .initialized db => some (s.setCall k (if started then .checking db else .returned))
      | _ => none
  | _ => none

/-- One step of `spawn_compaction_task`. -/
def spawnStep (s : Lifecycle) : LifecycleAction → Option Lifecycle
  | .callSpawn k db =>
      match s.calls k with
      | .idle => some (s.setCall k (.checking db))
      | _ => none
  | .spawnTask k inRuntime =>
      match s.calls k with
      | .checking db =>
          if s.maySpawn db inRuntime then some (s.spawn.setCall k (.spawned s.nextTask))
          else some (s.setCall k .returned)
      | _ => none
  | .storeTask k =>
      match s.calls k with
      | .spawned t => some ({ s with compactionTask := some t }.setCall k .returned)
      | _ => none
  | _ => none

/-- One step of `shutdown`. -/
def shutdownCallStep (s : Lifecycle) : LifecycleAction → Option Lifecycle
  | .swapFlag k =>
      match s.calls k with
      | .idle =>
          if s.global.isNone || s.shutdownFlag then some (s.setCall k .returned)
          else some ({ s with shutdownFlag := true }.setCall k .performing)
      | _ => none
  | .joinWriter k =>
      match s.calls k with
      | .performing => some (s.setCall k .joined)
      | _ => none
  | .abortTask k =>
      match s.calls k with
      | .joined => some (s.abortSlot.setCall k .aborted)
      | _ => none
  | .finalPersist k =>
      match s.calls k with
      | .aborted => some (s.setCall k .shutDown)
      | _ => none
  | _ => none

/-- One step of `compaction_loop` or of one of its passes. -/
def loopStep (s : Lifecycle) : LifecycleAction → Option Lifecycle
  | .startSleep t =>
      match s.tasks t with
      | .ready => some (s.setTask t .sleeping)
      | _ => none
  | .wake t =>
      match s.tasks t with
      | .sleeping => some (s.setTask t (.polling false))
      | _ => none
  | .spawnPass t =>
      match s.tasks t with
      | .polling abortPending => some (s.queuePass t abortPending)
      | _ => none
  | .resume t =>
      match s.tasks t with
      | .waiting p => if s.passes p = .done then some (s.setTask t .sleeping) else none
      | _ => none
  | .startPass p => if s.passes p = .queued then some (s.setPass p .running) else none
  | .passStep p => if s.passes p = .running then some s else none
  | .finishPass p => if s.passes p = .running then some (s.setPass p .done) else none
  | _ => none

def lifecycleStep (s : Lifecycle) (a : LifecycleAction) : Option Lifecycle :=
  match a with
  | .beginInit .. | .failInit _ | .publish _ | .startWriter .. => initStep s a
  | .callSpawn .. | .spawnTask .. | .storeTask _ => spawnStep s a
  | .swapFlag _ | .joinWriter _ | .abortTask _ | .finalPersist _ => shutdownCallStep s a
  | .startSleep _ | .wake _ | .spawnPass _ | .resume _ | .startPass _ | .passStep _
  | .finishPass _ => loopStep s a

/-! ## What a step can do -/

/-- The call has no task to store and has not got as far as aborting one. -/
def CallPc.quiet : CallPc → Bool
  | .spawned _ | .aborted | .shutDown => false
  | _ => true

/-- The effects of a step on the loops, the passes and the slot, with their guards. -/
inductive Effect (s : Lifecycle) : LifecycleAction → Lifecycle → Prop
  | call {a : LifecycleAction} {k : Nat} {pc : CallPc} {global : Option Bool} {flag : Bool}
      (hold : (s.calls k).quiet = true) (hnew : pc.quiet = true) :
      Effect s a ({ s with global, shutdownFlag := flag }.setCall k pc)
  | spawn {k : Nat} {inRuntime : Bool} {db : FjallConfig} (hpc : s.calls k = .checking db)
      (hmay : s.maySpawn db inRuntime = true) :
      Effect s (.spawnTask k inRuntime) (s.spawn.setCall k (.spawned s.nextTask))
  | store {k t : Nat} (hpc : s.calls k = .spawned t) :
      Effect s (.storeTask k) ({ s with compactionTask := some t }.setCall k .returned)
  | abort {k : Nat} (hpc : s.calls k = .joined) :
      Effect s (.abortTask k) (s.abortSlot.setCall k .aborted)
  | persist {k : Nat} (hpc : s.calls k = .aborted) :
      Effect s (.finalPersist k) (s.setCall k .shutDown)
  | loop {a : LifecycleAction} {t : Nat} {pc : TaskPc} (hlive : (s.tasks t).live = true)
      (hpc : pc = .sleeping ∨ pc = .polling false)
      (hdone : ∀ p, s.tasks t = .waiting p → s.passes p = .done) :
      Effect s a (s.setTask t pc)
  | queue {t : Nat} {abortPending : Bool} (hpc : s.tasks t = .polling abortPending) :
      Effect s (.spawnPass t) (s.queuePass t abortPending)
  | startPass {p : Nat} (hpc : s.passes p = .queued) :
      Effect s (.startPass p) (s.setPass p .running)
  | passStep {p : Nat} (hpc : s.passes p = .running) : Effect s (.passStep p) s
  | finishPass {p : Nat} (hpc : s.passes p = .running) :
      Effect s (.finishPass p) (s.setPass p .done)

section

variable {s u : Lifecycle} {a : LifecycleAction}

/-- A quiet call that moves to a quiet place without touching anything else. -/
theorem Effect.move {k : Nat} {pc : CallPc} (hold : (s.calls k).quiet = true)
    (hnew : pc.quiet = true) : Effect s a (s.setCall k pc) :=
  @Effect.call s a k pc s.global s.shutdownFlag hold hnew

theorem initStep_cases (h : initStep s a = some u) : Effect s a u := by
  cases a with
  | beginInit k config =>
      simp only [initStep] at h
      split at h
      · rename_i hpc
        split at h <;> obtain rfl := Option.some.inj h
        · exact .move (by rw [hpc]; rfl) rfl
        · exact .move (by rw [hpc]; rfl) rfl
      · contradiction
  | failInit k =>
      simp only [initStep] at h
      split at h
      · rename_i hpc
        obtain rfl := Option.some.inj h
        exact .move (by rw [hpc]; rfl) rfl
      · contradiction
  | publish k =>
      simp only [initStep] at h
      split at h
      · rename_i config hpc
        split at h <;> obtain rfl := Option.some.inj h
        · exact .move (by rw [hpc]; rfl) rfl
        · apply Effect.call (by rw [hpc]; rfl)
          cases config.fjall <;> rfl
      · contradiction
  | startWriter k started =>
      simp only [initStep] at h
      split at h
      · rename_i hpc
        obtain rfl := Option.some.inj h
        apply Effect.move (by rw [hpc]; rfl)
        cases started <;> rfl
      · contradiction
  | _ => simp [initStep] at h

theorem spawnStep_cases (h : spawnStep s a = some u) : Effect s a u := by
  cases a with
  | callSpawn k db =>
      simp only [spawnStep] at h
      split at h
      · rename_i hpc
        obtain rfl := Option.some.inj h
        exact .move (by rw [hpc]; rfl) rfl
      · contradiction
  | spawnTask k inRuntime =>
      simp only [spawnStep] at h
      split at h
      · rename_i db hpc
        by_cases hmay : s.maySpawn db inRuntime = true
        · rw [if_pos hmay] at h
          obtain rfl := Option.some.inj h
          exact .spawn hpc hmay
        · rw [if_neg hmay] at h
          obtain rfl := Option.some.inj h
          exact .move (by rw [hpc]; rfl) rfl
      · contradiction
  | storeTask k =>
      simp only [spawnStep] at h
      split at h
      · obtain rfl := Option.some.inj h
        exact .store ‹_›
      · contradiction
  | _ => simp [spawnStep] at h

theorem shutdownCallStep_cases (h : shutdownCallStep s a = some u) : Effect s a u := by
  cases a with
  | swapFlag k =>
      simp only [shutdownCallStep] at h
      split at h
      · rename_i hpc
        split at h <;> obtain rfl := Option.some.inj h
        · exact .move (by rw [hpc]; rfl) rfl
        · exact .call (by rw [hpc]; rfl) rfl
      · contradiction
  | joinWriter k =>
      simp only [shutdownCallStep] at h
      split at h
      · rename_i hpc
        obtain rfl := Option.some.inj h
        exact .move (by rw [hpc]; rfl) rfl
      · contradiction
  | abortTask k =>
      simp only [shutdownCallStep] at h
      split at h
      · obtain rfl := Option.some.inj h
        exact .abort ‹_›
      · contradiction
  | finalPersist k =>
      simp only [shutdownCallStep] at h
      split at h
      · obtain rfl := Option.some.inj h
        exact .persist ‹_›
      · contradiction
  | _ => simp [shutdownCallStep] at h

theorem loopStep_cases (h : loopStep s a = some u) : Effect s a u := by
  cases a with
  | startSleep t =>
      simp only [loopStep] at h
      split at h
      · rename_i hpc
        obtain rfl := Option.some.inj h
        exact .loop (by rw [hpc]; rfl) (Or.inl rfl) (by simp [hpc])
      · contradiction
  | wake t =>
      simp only [loopStep] at h
      split at h
      · rename_i hpc
        obtain rfl := Option.some.inj h
        exact .loop (by rw [hpc]; rfl) (Or.inr rfl) (by simp [hpc])
      · contradiction
  | spawnPass t =>
      simp only [loopStep] at h
      split at h
      · obtain rfl := Option.some.inj h
        exact .queue ‹_›
      · contradiction
  | resume t =>
      simp only [loopStep] at h
      split at h
      · rename_i p hpc
        by_cases hdone : s.passes p = .done
        · rw [if_pos hdone] at h
          obtain rfl := Option.some.inj h
          refine .loop (by rw [hpc]; rfl) (Or.inl rfl) ?_
          intro q hq
          rw [hpc] at hq
          rw [← TaskPc.waiting.inj hq]
          exact hdone
        · rw [if_neg hdone] at h
          contradiction
      · contradiction
  | startPass p =>
      by_cases hpc : s.passes p = .queued
      · simp only [loopStep, hpc, if_true] at h
        obtain rfl := Option.some.inj h
        exact .startPass hpc
      · simp [loopStep, hpc] at h
  | passStep p =>
      by_cases hpc : s.passes p = .running
      · simp only [loopStep, hpc, if_true] at h
        obtain rfl := Option.some.inj h
        exact .passStep hpc
      · simp [loopStep, hpc] at h
  | finishPass p =>
      by_cases hpc : s.passes p = .running
      · simp only [loopStep, hpc, if_true] at h
        obtain rfl := Option.some.inj h
        exact .finishPass hpc
      · simp [loopStep, hpc] at h
  | _ => simp [loopStep] at h

/-- Inversion: an enabled action has one of the effects. -/
theorem lifecycleStep_cases (h : lifecycleStep s a = some u) : Effect s a u := by
  cases a with
  | beginInit => exact initStep_cases h
  | failInit => exact initStep_cases h
  | publish => exact initStep_cases h
  | startWriter => exact initStep_cases h
  | callSpawn => exact spawnStep_cases h
  | spawnTask => exact spawnStep_cases h
  | storeTask => exact spawnStep_cases h
  | swapFlag => exact shutdownCallStep_cases h
  | joinWriter => exact shutdownCallStep_cases h
  | abortTask => exact shutdownCallStep_cases h
  | finalPersist => exact shutdownCallStep_cases h
  | startSleep => exact loopStep_cases h
  | wake => exact loopStep_cases h
  | spawnPass => exact loopStep_cases h
  | resume => exact loopStep_cases h
  | startPass => exact loopStep_cases h
  | passStep => exact loopStep_cases h
  | finishPass => exact loopStep_cases h

end

end Tonggeret.Engine
