import Mathlib.Logic.Function.Basic
import Tonggeret.Visitors.Tracker

/-!
# Visitor calls as steps

Any number of `observe` and `snapshot` calls, and of the calls that only read, over one
tracker.  Each takes the lock of the sketches with `try_lock` or goes without; a snapshot
holds it while it exports, region by region.
-/

namespace Tonggeret.Visitors

open Tonggeret.Lib

/-- `read` is `estimate` or `region_count`. -/
inductive Call
  | observe (visitorKey region : String)
  | snapshot
  | read
deriving DecidableEq

/-- Where a call stands; `exporting` keeps what is left of the iteration. -/
inductive CallPc
  | idle
  | counted
  | holding
  | exporting (todo : List (String × Hll))
  | reading
  | returned
deriving DecidableEq

/-- The call holds the lock. -/
def CallPc.holds : CallPc → Bool
  | .holding | .exporting _ | .reading => true
  | _ => false

structure Visiting where
  calls : Nat → CallPc
  holder : Option Nat
  poisoned : Bool
  tracker : VisitorsTracker

/-- `order` is the order in which the hash map is iterated; `panic` is one of
`record_gauge`, which poisons the lock. -/
inductive VisitAction
  | count (i : Nat)
  | tryLock (i : Nat) (order : List (String × Hll))
  | fold (i : Nat)
  | exportNext (i : Nat)
  | panic (i : Nat)
  | release (i : Nat)

namespace Visiting

def new (maxRegions : UInt64) : Visiting :=
  ⟨fun _ => .idle, none, false, VisitorsTracker.new maxRegions⟩

def setCall (s : Visiting) (i : Nat) (pc : CallPc) : Visiting :=
  { s with calls := Function.update s.calls i pc }

theorem calls_setCall (s : Visiting) (i : Nat) (pc : CallPc) (x : Nat) :
    (s.setCall i pc).calls x = if x = i then pc else s.calls x :=
  Function.update_apply s.calls i pc x

/-- `try_lock` succeeds. -/
def free (s : Visiting) : Bool := s.holder.isNone && !s.poisoned

def lock (s : Visiting) (i : Nat) (pc : CallPc) : Visiting :=
  { s with holder := some i }.setCall i pc

/-- The guard is dropped. -/
def unlock (s : Visiting) (i : Nat) : Visiting :=
  { s with holder := none }.setCall i .returned

end Visiting

section

variable (hashKey : String → UInt64) (call : Nat → Call)

def visitStep (s : Visiting) : VisitAction → Option Visiting
  | .count i =>
      match call i, s.calls i with
      | .observe _ _, .idle => some (s.setCall i .counted)
      | _, _ => none
  | .tryLock i order =>
      match call i, s.calls i with
      | .observe _ _, .counted =>
          some (if s.free then s.lock i .holding else s.setCall i .returned)
      | .snapshot, .idle =>
          if s.free then
            if order.Perm s.tracker.inner.entries then some (s.lock i (.exporting order))
            else none
          else some (s.setCall i .returned)
      | .read, .idle => some (if s.free then s.lock i .reading else s.setCall i .returned)
      | _, _ => none
  | .fold i =>
      match call i, s.calls i with
      | .observe visitorKey region, .holding =>
          some ({ s with
            tracker := (observe hashKey s.tracker ⟨visitorKey, region, false⟩).2.2 }.unlock i)
      | _, _ => none
  | .exportNext i =>
      match s.calls i with
      | .exporting (_ :: todo) => some (s.setCall i (.exporting todo))
      | _ => none
  | .panic i =>
      match s.calls i with
      | .exporting (_ :: _) => some ({ s with poisoned := true }.unlock i)
      | _ => none
  | .release i =>
      match s.calls i with
      | .exporting [] => some (s.unlock i)
      | .reading => some (s.unlock i)
      | _ => none

/-- Every branch of a step with its guard and its effect. -/
inductive VisitEffect (s : Visiting) : VisitAction → Visiting → Prop
  | count {i : Nat} {visitorKey region : String} (hcall : call i = .observe visitorKey region)
      (hpc : s.calls i = .idle) : VisitEffect s (.count i) (s.setCall i .counted)
  | lockObserve {i : Nat} {order : List (String × Hll)} {visitorKey region : String}
      (hcall : call i = .observe visitorKey region) (hpc : s.calls i = .counted)
      (hfree : s.free = true) : VisitEffect s (.tryLock i order) (s.lock i .holding)
  | contend {i : Nat} {order : List (String × Hll)} {visitorKey region : String}
      (hcall : call i = .observe visitorKey region) (hpc : s.calls i = .counted)
      (hfree : s.free = false) : VisitEffect s (.tryLock i order) (s.setCall i .returned)
  | lockSnapshot {i : Nat} {order : List (String × Hll)} (hcall : call i = .snapshot)
      (hpc : s.calls i = .idle) (hfree : s.free = true)
      (horder : order.Perm s.tracker.inner.entries) :
      VisitEffect s (.tryLock i order) (s.lock i (.exporting order))
  | lockRead {i : Nat} {order : List (String × Hll)} (hcall : call i = .read)
      (hpc : s.calls i = .idle) (hfree : s.free = true) :
      VisitEffect s (.tryLock i order) (s.lock i .reading)
  | giveUp {i : Nat} {order : List (String × Hll)} (hcall : call i = .snapshot ∨ call i = .read)
      (hpc : s.calls i = .idle) (hfree : s.free = false) :
      VisitEffect s (.tryLock i order) (s.setCall i .returned)
  | fold {i : Nat} {visitorKey region : String} (hcall : call i = .observe visitorKey region)
      (hpc : s.calls i = .holding) :
      VisitEffect s (.fold i) ({ s with
        tracker := (observe hashKey s.tracker ⟨visitorKey, region, false⟩).2.2 }.unlock i)
  | exportNext {i : Nat} {entry : String × Hll} {todo : List (String × Hll)}
      (hpc : s.calls i = .exporting (entry :: todo)) :
      VisitEffect s (.exportNext i) (s.setCall i (.exporting todo))
  | panic {i : Nat} {entry : String × Hll} {todo : List (String × Hll)}
      (hpc : s.calls i = .exporting (entry :: todo)) :
      VisitEffect s (.panic i) ({ s with poisoned := true }.unlock i)
  | exported {i : Nat} (hpc : s.calls i = .exporting []) :
      VisitEffect s (.release i) (s.unlock i)
  | read {i : Nat} (hpc : s.calls i = .reading) : VisitEffect s (.release i) (s.unlock i)

variable {hashKey call} {s t : Visiting}

/-- Inversion: an enabled action is one of the branches. -/
theorem visitStep_cases {action : VisitAction} (h : visitStep hashKey call s action = some t) :
    VisitEffect hashKey call s action t := by
  cases action with
  | count i =>
      simp only [visitStep] at h
      split at h
      · obtain rfl := Option.some.inj h
        exact .count ‹_› ‹_›
      · contradiction
  | tryLock i order =>
      simp only [visitStep] at h
      split at h
      · by_cases hfree : s.free = true
        · rw [if_pos hfree] at h
          obtain rfl := Option.some.inj h
          exact .lockObserve ‹_› ‹_› hfree
        · rw [if_neg hfree] at h
          obtain rfl := Option.some.inj h
          exact .contend ‹_› ‹_› (eq_false_of_ne_true hfree)
      · by_cases hfree : s.free = true
        · rw [if_pos hfree] at h
          split at h
          · obtain rfl := Option.some.inj h
            exact .lockSnapshot ‹_› ‹_› hfree ‹_›
          · contradiction
        · rw [if_neg hfree] at h
          obtain rfl := Option.some.inj h
          exact .giveUp (Or.inl ‹_›) ‹_› (eq_false_of_ne_true hfree)
      · by_cases hfree : s.free = true
        · rw [if_pos hfree] at h
          obtain rfl := Option.some.inj h
          exact .lockRead ‹_› ‹_› hfree
        · rw [if_neg hfree] at h
          obtain rfl := Option.some.inj h
          exact .giveUp (Or.inr ‹_›) ‹_› (eq_false_of_ne_true hfree)
      · contradiction
  | fold i =>
      simp only [visitStep] at h
      split at h
      · obtain rfl := Option.some.inj h
        exact .fold ‹_› ‹_›
      · contradiction
  | exportNext i =>
      simp only [visitStep] at h
      split at h
      · obtain rfl := Option.some.inj h
        exact .exportNext ‹_›
      · contradiction
  | panic i =>
      simp only [visitStep] at h
      split at h
      · obtain rfl := Option.some.inj h
        exact .panic ‹_›
      · contradiction
  | release i =>
      simp only [visitStep] at h
      split at h
      · obtain rfl := Option.some.inj h
        exact .exported ‹_›
      · obtain rfl := Option.some.inj h
        exact .read ‹_›
      · contradiction

end

end Tonggeret.Visitors
