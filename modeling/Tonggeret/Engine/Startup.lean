import Tonggeret.Engine.JoinSafety

/-!
# Starting the pipeline

Any number of `init` calls beside the calls of an engine with a Fjall store: `init`
publishes the handle, then spawns the writer, then stores its `JoinHandle` in
`WRITER_JOIN`, from which `shutdown` takes it.  Record and shutdown calls find the handle
as soon as it is published.
-/

namespace Tonggeret.Engine

open Tonggeret.Lib

/-- Where an `init` call stands; a `prepared` one has its handle and the open keyspace. -/
inductive InitPc
  | idle
  | prepared
  | published
  | spawned
  | returned (ok : Bool)
deriving DecidableEq

/-- `joinLock` is the shutdown call that joins the writer while it holds the lock of
`WRITER_JOIN`. -/
structure Startup where
  globalHandle : Option Nat
  inits : Nat → InitPc
  running : Bool
  writerJoin : Option Nat
  joinLock : Option Nat
  pipeline : Pipeline

inductive StartupAction
  | prepare (k : Nat) (ok : Bool)
  | publish (k : Nat)
  | spawnWriter (k : Nat) (ok : Bool)
  | storeJoin (k : Nat)
  | takeJoin (c : Nat)
  | pipeline (a : Action)

namespace Startup

def init : Startup := ⟨none, fun _ => .idle, false, none, none, Pipeline.init⟩

def setInit (s : Startup) (k : Nat) (pc : InitPc) : Startup :=
  { s with inits := Function.update s.inits k pc }

theorem inits_setInit (s : Startup) (k : Nat) (pc : InitPc) (x : Nat) :
    (s.setInit k pc).inits x = if x = k then pc else s.inits x :=
  Function.update_apply s.inits k pc x

/-- The parties of the pipeline that exist: calls that find the handle, the writer once
it is spawned, and the join of a call that took the `JoinHandle`. -/
def mayAct (s : Startup) : Action → Bool
  | .loadFlag _ | .swapFlag _ => s.globalHandle.isSome
  | .blockingRecv | .tryRecv | .insert | .flushed | .exit => s.running
  | .joined c => s.joinLock == some c
  | _ => true

end Startup

/-- The closure of a thread that cannot be spawned is dropped, and the receiver with it. -/
def Pipeline.dropReceiver (p : Pipeline) : Pipeline :=
  { p with writer := .exited, chan := [], discarded := p.discarded ++ p.chan }

/-- The lock of `WRITER_JOIN` is released when the join returns. -/
def lockAfter (lock : Option Nat) : Action → Option Nat
  | .joined _ => none
  | _ => lock

section

variable (cfg : PipelineConfig)

def startupStep (s : Startup) : StartupAction → Option Startup
  | .prepare k ok =>
      match s.inits k with
      | .idle => some (s.setInit k (if ok then .prepared else .returned false))
      | _ => none
  | .publish k =>
      match s.inits k with
      | .prepared =>
          match s.globalHandle with
          | some _ => some (s.setInit k (.returned false))
          | none => some ({ s with globalHandle := some k }.setInit k .published)
      | _ => none
  | .spawnWriter k ok =>
      match s.inits k with
      | .published =>
          if ok then some ({ s with running := true }.setInit k .spawned)
          else some ({ s with pipeline := s.pipeline.dropReceiver }.setInit k (.returned false))
      | _ => none
  | .storeJoin k =>
      match s.inits k, s.joinLock with
      | .spawned, none => some ({ s with writerJoin := some k }.setInit k (.returned true))
      | _, _ => none
  | .takeJoin c =>
      match s.pipeline.calls c, s.joinLock, s.writerJoin with
      | .join _, none, some _ => some { s with writerJoin := none, joinLock := some c }
      | .join _, none, none => some { s with pipeline := s.pipeline.setCall c .finishing }
      | _, _, _ => none
  | .pipeline a =>
      if s.mayAct a then
        (step cfg s.pipeline a).map fun p =>
          { s with pipeline := p, joinLock := lockAfter s.joinLock a }
      else none

/-- Every branch of a step with its guard and its effect. -/
inductive StartupEffect (s : Startup) : StartupAction → Startup → Prop
  | prepare {k : Nat} {ok : Bool} (hpc : s.inits k = .idle) :
      StartupEffect s (.prepare k ok)
        (s.setInit k (if ok then .prepared else .returned false))
  | alreadyInitialized {k other : Nat} (hpc : s.inits k = .prepared)
      (hglobal : s.globalHandle = some other) :
      StartupEffect s (.publish k) (s.setInit k (.returned false))
  | publish {k : Nat} (hpc : s.inits k = .prepared) (hglobal : s.globalHandle = none) :
      StartupEffect s (.publish k) ({ s with globalHandle := some k }.setInit k .published)
  | spawnWriter {k : Nat} (hpc : s.inits k = .published) :
      StartupEffect s (.spawnWriter k true) ({ s with running := true }.setInit k .spawned)
  | spawnFails {k : Nat} (hpc : s.inits k = .published) :
      StartupEffect s (.spawnWriter k false)
        ({ s with pipeline := s.pipeline.dropReceiver }.setInit k (.returned false))
  | storeJoin {k : Nat} (hpc : s.inits k = .spawned) (hlock : s.joinLock = none) :
      StartupEffect s (.storeJoin k)
        ({ s with writerJoin := some k }.setInit k (.returned true))
  | takeJoin {c k : Nat} {delivered : Bool} (hpc : s.pipeline.calls c = .join delivered)
      (hlock : s.joinLock = none) (hjoin : s.writerJoin = some k) :
      StartupEffect s (.takeJoin c) { s with writerJoin := none, joinLock := some c }
  | nothingToJoin {c : Nat} {delivered : Bool} (hpc : s.pipeline.calls c = .join delivered)
      (hlock : s.joinLock = none) (hjoin : s.writerJoin = none) :
      StartupEffect s (.takeJoin c) { s with pipeline := s.pipeline.setCall c .finishing }
  | pipeline {a : Action} {p : Pipeline} (hmay : s.mayAct a = true)
      (hstep : step cfg s.pipeline a = some p) :
      StartupEffect s (.pipeline a)
        { s with pipeline := p, joinLock := lockAfter s.joinLock a }

variable {cfg} {s t : Startup}

/-- Inversion: an enabled action is one of the branches. -/
theorem startupStep_cases {action : StartupAction} (h : startupStep cfg s action = some t) :
    StartupEffect cfg s action t := by
  cases action with
  | prepare k ok =>
      simp only [startupStep] at h
      split at h
      · obtain rfl := Option.some.inj h
        exact .prepare ‹_›
      · contradiction
  | publish k =>
      simp only [startupStep] at h
      split at h
      · split at h
        · obtain rfl := Option.some.inj h
          exact .alreadyInitialized ‹_› ‹_›
        · obtain rfl := Option.some.inj h
          exact .publish ‹_› ‹_›
      · contradiction
  | spawnWriter k ok =>
      simp only [startupStep] at h
      split at h
      · cases ok with
        | true =>
            obtain rfl := Option.some.inj h
            exact .spawnWriter ‹_›
        | false =>
            obtain rfl := Option.some.inj h
            exact .spawnFails ‹_›
      · contradiction
  | storeJoin k =>
      simp only [startupStep] at h
      split at h
      · obtain rfl := Option.some.inj h
        exact .storeJoin ‹_› ‹_›
      · contradiction
  | takeJoin c =>
      simp only [startupStep] at h
      split at h
      · obtain rfl := Option.some.inj h
        exact .takeJoin ‹_› ‹_› ‹_›
      · obtain rfl := Option.some.inj h
        exact .nothingToJoin ‹_› ‹_› ‹_›
      · contradiction
  | pipeline a =>
      simp only [startupStep] at h
      split at h
      · obtain ⟨p, hstep, rfl⟩ := Option.map_eq_some_iff.mp h
        exact .pipeline ‹_› hstep
      · contradiction

end

/-! ## The pipeline's calls -/

/-- The call is past the join. -/
def ShutdownPc.pastJoin : ShutdownPc → Bool
  | .finishing | .returned true => true
  | .idle | .attempt _ | .join _ | .returned false => false

theorem ShutdownPc.performing_of_pastJoin {pc : ShutdownPc} (h : pc.pastJoin = true) :
    pc.performing = true := by
  cases pc with
  | finishing => rfl
  | returned performed =>
      cases performed with
      | true => rfl
      | false => contradiction
  | idle => contradiction
  | attempt k => contradiction
  | join delivered => contradiction

/-- One call performs the shutdown. -/
structure Sole (p : Pipeline) : Prop where
  single : ∀ c c', (p.calls c).performing = true → (p.calls c').performing = true → c = c'
  raised : ∀ c, (p.calls c).performing = true → p.flag = true

section

variable {cfg : PipelineConfig} {p q : Pipeline} {a : Action}

theorem Sole.setCall (h : Sole p) {c : Nat} {pc : ShutdownPc}
    (hperforming : pc.performing = (p.calls c).performing) : Sole (p.setCall c pc) := by
  have hsame := Pipeline.apply_calls_setCall ShutdownPc.performing hperforming
  constructor
  · simp only [hsame]
    exact h.single
  · simp only [hsame]
    exact h.raised

/-- Nobody performs while the flag is down, so the call that raises it is alone. -/
theorem Sole.perform (h : Sole p) (c : Nat) (hflag : p.flag = false) :
    Sole ({ p with flag := true }.setCall c (.attempt 0)) := by
  have hnobody : ∀ x, ¬ (p.calls x).performing = true := by
    intro x hx
    have hraised := h.raised x hx
    rw [hflag] at hraised
    contradiction
  have hself : ∀ x, (({ p with flag := true }.setCall c (.attempt 0)).calls x).performing = true →
      x = c := by
    intro x hx
    rw [Pipeline.calls_setCall] at hx
    by_cases hxc : x = c
    · exact hxc
    · rw [if_neg hxc] at hx
      exact absurd hx (hnobody x)
  exact ⟨fun x y hx hy => (hself x hx).trans (hself y hy).symm, fun _ _ => rfl⟩

theorem Sole.step (h : Sole p) (hstep : Step cfg p a q) : Sole q := by
  cases hstep with
  | perform hpc hflag => exact h.perform _ hflag
  | returnEarly hpc _ => exact h.setCall (by rw [hpc]; rfl)
  | findClosed hpc _ => exact h.setCall (by rw [hpc]; rfl)
  | deliver hpc _ _ =>
      have hpushed : Sole (p.push .shutdown) := ⟨h.single, h.raised⟩
      exact hpushed.setCall (by rw [Pipeline.push, hpc]; rfl)
  | retry hpc _ _ _ => exact h.setCall (by rw [hpc]; rfl)
  | giveUp hpc _ _ _ => exact h.setCall (by rw [hpc]; rfl)
  | joined hpc _ => exact h.setCall (by rw [hpc]; rfl)
  | finish hpc => exact h.setCall (by rw [hpc]; rfl)
  | _ => exact ⟨h.single, h.raised⟩

theorem Step.stays_exited (h : Step cfg p a q) (hexited : p.writer = .exited) :
    q.writer = .exited := by
  cases h with
  | recvMetric hpc _ => exact absurd (hexited.symm.trans hpc) WriterPc.noConfusion
  | recvShutdown hpc _ => exact absurd (hexited.symm.trans hpc) WriterPc.noConfusion
  | drainMetric hpc _ _ => exact absurd (hexited.symm.trans hpc) WriterPc.noConfusion
  | drainShutdown hpc _ _ => exact absurd (hexited.symm.trans hpc) WriterPc.noConfusion
  | drainEnd hpc _ => exact absurd (hexited.symm.trans hpc) WriterPc.noConfusion
  | insert hpc => exact absurd (hexited.symm.trans hpc) WriterPc.noConfusion
  | flushed hpc => exact absurd (hexited.symm.trans hpc) WriterPc.noConfusion
  | exit hpc => rfl
  | _ => exact hexited

theorem Step.pastJoin_eq (h : Step cfg p a q) (hjoined : ∀ c, a ≠ .joined c) (c : Nat) :
    (q.calls c).pastJoin = (p.calls c).pastJoin := by
  have hmove : ∀ {u : Pipeline} {x : Nat} {pc : ShutdownPc}, u.calls = p.calls →
      pc.pastJoin = (p.calls x).pastJoin →
      ((u.setCall x pc).calls c).pastJoin = (p.calls c).pastJoin := by
    intro u x pc hu hpc
    rw [Pipeline.apply_calls_setCall ShutdownPc.pastJoin (by rw [hu]; exact hpc), hu]
  cases h with
  | joined hpc _ => exact absurd rfl (hjoined _)
  | perform hpc _ => exact hmove rfl (by rw [hpc]; rfl)
  | returnEarly hpc _ => exact hmove rfl (by rw [hpc]; rfl)
  | findClosed hpc _ => exact hmove rfl (by rw [hpc]; rfl)
  | deliver hpc _ _ => exact hmove rfl (by rw [hpc]; rfl)
  | retry hpc _ _ _ => exact hmove rfl (by rw [hpc]; rfl)
  | giveUp hpc _ _ _ => exact hmove rfl (by rw [hpc]; rfl)
  | finish hpc => exact hmove rfl (by rw [hpc]; rfl)
  | _ => rfl

/-- A call gets past the join only when the writer has exited. -/
theorem Step.pastJoin_cases (h : Step cfg p a q) {c : Nat} (hpast : (q.calls c).pastJoin = true) :
    (p.calls c).pastJoin = true ∨ q.writer = .exited := by
  by_cases hjoined : ∀ x, a ≠ .joined x
  · left
    rwa [h.pastJoin_eq hjoined] at hpast
  · right
    obtain ⟨x, hx⟩ := not_forall_not.mp hjoined
    subst hx
    cases h with
    | joined hpc hexited => exact hexited

/-- A call that is past the join stays so. -/
theorem Step.stays_pastJoin (h : Step cfg p a q) {c : Nat}
    (hpast : (p.calls c).pastJoin = true) : (q.calls c).pastJoin = true := by
  by_cases hjoined : ∀ x, a ≠ .joined x
  · rwa [h.pastJoin_eq hjoined]
  · obtain ⟨x, hx⟩ := not_forall_not.mp hjoined
    subst hx
    cases h with
    | joined hpc hexited =>
        rw [Pipeline.calls_setCall]
        by_cases hx : c = x
        · rw [if_pos hx]
          rfl
        · rw [if_neg hx]
          exact hpast

/-- The join of a call ends past it. -/
theorem Step.pastJoin_of_joined {c : Nat} (h : Step cfg p (.joined c) q) :
    (q.calls c).pastJoin = true := by
  cases h with
  | joined hpc hexited =>
      rw [Pipeline.calls_setCall, if_pos rfl]
      rfl

end

/-! ## The join handle -/

/-- The call has passed the publication and has not failed. -/
def InitPc.publishing : InitPc → Bool
  | .published | .spawned | .returned true => true
  | .idle | .prepared | .returned false => false

/-- The shutdown call looked for the `JoinHandle` before any `init` stored one. -/
def TookEarly (done : List StartupAction) (c : Nat) : Prop :=
  ∃ before after, done = before ++ .takeJoin c :: after ∧ ∀ k, .storeJoin k ∉ before

/-- The `JoinHandle` is in its place, or the performing call has it, or has joined with it. -/
def HandleAccounted (s : Startup) : Prop :=
  s.writerJoin.isSome = true ∨
    ∃ c, s.joinLock = some c ∨ (s.pipeline.calls c).pastJoin = true

structure Started (done : List StartupAction) (s : Startup) : Prop where
  sole : Sole s.pipeline
  publisher : ∀ k, (s.inits k).publishing = true → s.globalHandle = some k
  stored : ∀ k, .storeJoin k ∈ done → s.inits k = .returned true ∧ HandleAccounted s
  past : ∀ c, (s.pipeline.calls c).pastJoin = true →
    s.pipeline.writer = .exited ∨ TookEarly done c

theorem started_init : Started [] Startup.init := by
  refine ⟨⟨?_, ?_⟩, ?_, ?_, ?_⟩
  · intro c c' hc
    contradiction
  · intro c hc
    contradiction
  · intro k hk
    contradiction
  · intro k hk
    exact absurd hk List.not_mem_nil
  · intro c hc
    contradiction

section

variable {cfg : PipelineConfig} {done : List StartupAction} {s t : Startup}

theorem TookEarly.mono {c : Nat} (h : TookEarly done c) (action : StartupAction) :
    TookEarly (done ++ [action]) c := by
  obtain ⟨before, after, hdone, hstored⟩ := h
  refine ⟨before, after ++ [action], ?_, hstored⟩
  rw [hdone, List.append_assoc, List.cons_append]

/-- A step of an `init` call that stores nothing. -/
theorem Started.setInit (h : Started done s) {action : StartupAction} {k : Nat} {pc : InitPc}
    (hstore : ∀ j, action ≠ .storeJoin j) {globalHandle : Option Nat}
    (hpublishing : pc.publishing = true → globalHandle = some k)
    (hglobal : s.globalHandle ≠ globalHandle → s.globalHandle = none)
    (hreturned : s.inits k ≠ .returned true) (running : Bool) :
    Started (done ++ [action])
      ({ s with globalHandle := globalHandle, running := running }.setInit k pc) where
  sole := h.sole
  publisher := by
    intro j hj
    rw [Startup.inits_setInit] at hj
    by_cases hjk : j = k
    · rw [if_pos hjk] at hj
      rw [hjk]
      exact hpublishing hj
    · rw [if_neg hjk] at hj
      have hold := h.publisher j hj
      by_contra hne
      have hnone := hglobal (fun heq => hne (heq ▸ hold))
      rw [hold] at hnone
      contradiction
  stored := by
    intro j hj
    rcases List.mem_append.mp hj with hj | hj
    · obtain ⟨hdone, haccounted⟩ := h.stored j hj
      refine ⟨?_, haccounted⟩
      rw [Startup.inits_setInit]
      by_cases hjk : j = k
      · rw [hjk] at hdone
        exact absurd hdone hreturned
      · rw [if_neg hjk]
        exact hdone
    · exact absurd (List.mem_singleton.mp hj).symm (hstore j)
  past := fun c hc => (h.past c hc).imp id (TookEarly.mono · action)

/-- The publisher stores the `JoinHandle`. -/
theorem Started.storeJoin (h : Started done s) {k : Nat} (hpc : s.inits k = .spawned) :
    Started (done ++ [.storeJoin k])
      ({ s with writerJoin := some k }.setInit k (.returned true)) where
  sole := h.sole
  publisher := by
    intro j hj
    rw [Startup.inits_setInit] at hj
    by_cases hjk : j = k
    · rw [hjk]
      exact h.publisher k (by rw [hpc]; rfl)
    · rw [if_neg hjk] at hj
      exact h.publisher j hj
  stored := by
    intro j hj
    refine ⟨?_, Or.inl rfl⟩
    rw [Startup.inits_setInit]
    by_cases hjk : j = k
    · rw [if_pos hjk]
    · rw [if_neg hjk]
      rcases List.mem_append.mp hj with hj | hj
      · exact (h.stored j hj).1
      · exact absurd (StartupAction.storeJoin.inj (List.mem_singleton.mp hj)) hjk
  past := fun c hc => (h.past c hc).imp id (TookEarly.mono · _)

/-- A call that finds nothing to join came before the store. -/
theorem Started.tookEarly (h : Started done s) {c : Nat} {delivered : Bool}
    (hpc : s.pipeline.calls c = .join delivered) (hlock : s.joinLock = none)
    (hjoin : s.writerJoin = none) : TookEarly (done ++ [.takeJoin c]) c := by
  refine ⟨done, [], rfl, ?_⟩
  intro k hk
  rcases (h.stored k hk).2 with hsome | ⟨c', hlocked | hpast⟩
  · rw [hjoin] at hsome
    contradiction
  · rw [hlock] at hlocked
    contradiction
  · have hperforming : (s.pipeline.calls c).performing = true := by
      rw [hpc]
      rfl
    rw [h.sole.single c' c (ShutdownPc.performing_of_pastJoin hpast) hperforming, hpc] at hpast
    contradiction

theorem Started.nothingToJoin (h : Started done s) {c : Nat} {delivered : Bool}
    (hpc : s.pipeline.calls c = .join delivered) (hlock : s.joinLock = none)
    (hjoin : s.writerJoin = none) :
    Started (done ++ [.takeJoin c])
      { s with pipeline := s.pipeline.setCall c .finishing } := by
  have hself : ((s.pipeline.setCall c .finishing).calls c).pastJoin = true := by
    rw [Pipeline.calls_setCall, if_pos rfl]
    rfl
  refine ⟨h.sole.setCall (by rw [hpc]; rfl), h.publisher, ?_, ?_⟩
  · intro k hk
    rcases List.mem_append.mp hk with hk | hk
    · exact ⟨(h.stored k hk).1, Or.inr ⟨c, Or.inr hself⟩⟩
    · exact StartupAction.noConfusion (List.mem_singleton.mp hk)
  · intro x hx
    change ((s.pipeline.setCall c .finishing).calls x).pastJoin = true at hx
    by_cases hxc : x = c
    · rw [hxc]
      exact Or.inr (h.tookEarly hpc hlock hjoin)
    · rw [Pipeline.calls_setCall, if_neg hxc] at hx
      exact (h.past x hx).imp id (TookEarly.mono · _)

/-- A step of the pipeline; the call that joins has the `JoinHandle`. -/
theorem Started.pipeline (h : Started done s) {a : Action} {p : Pipeline}
    (hmay : s.mayAct a = true) (hstep : Step cfg s.pipeline a p) :
    Started (done ++ [.pipeline a])
      { s with pipeline := p, joinLock := lockAfter s.joinLock a } := by
  refine ⟨h.sole.step hstep, h.publisher, ?_, ?_⟩
  · intro k hk
    rcases List.mem_append.mp hk with hk | hk
    · obtain ⟨hreturned, haccounted⟩ := h.stored k hk
      refine ⟨hreturned, haccounted.imp id ?_⟩
      rintro ⟨c, hlocked | hpast⟩
      · refine ⟨c, ?_⟩
        cases a with
        | joined x =>
            have hx : s.joinLock = some x := beq_iff_eq.mp hmay
            rw [hlocked] at hx
            obtain rfl := Option.some.inj hx
            exact Or.inr hstep.pastJoin_of_joined
        | _ => exact Or.inl hlocked
      · exact ⟨c, Or.inr (hstep.stays_pastJoin hpast)⟩
    · exact StartupAction.noConfusion (List.mem_singleton.mp hk)
  · intro c hc
    rcases hstep.pastJoin_cases hc with hpast | hexited
    · exact (h.past c hpast).imp hstep.stays_exited (TookEarly.mono · _)
    · exact Or.inl hexited

theorem started_step {action : StartupAction} (h : Started done s)
    (hstep : startupStep cfg s action = some t) : Started (done ++ [action]) t := by
  cases startupStep_cases hstep with
  | @prepare k ok hpc =>
      apply h.setInit (fun _ => StartupAction.noConfusion) _ (fun hne => absurd rfl hne) (by rw [hpc]; simp)
      intro hpublishing
      cases ok <;> contradiction
  | alreadyInitialized hpc hglobal =>
      apply h.setInit (fun _ => StartupAction.noConfusion) _ (fun hne => absurd rfl hne) (by rw [hpc]; simp)
      intro hpublishing
      contradiction
  | publish hpc hglobal =>
      exact h.setInit (fun _ => StartupAction.noConfusion) (fun _ => rfl) (fun _ => hglobal)
        (by rw [hpc]; simp) s.running
  | spawnWriter hpc =>
      exact h.setInit (fun _ => StartupAction.noConfusion) (fun _ => h.publisher _ (by rw [hpc]; rfl))
        (fun hne => absurd rfl hne) (by rw [hpc]; simp) true
  | spawnFails hpc =>
      have hdropped : Started done { s with pipeline := s.pipeline.dropReceiver } :=
        ⟨⟨h.sole.single, h.sole.raised⟩, h.publisher, h.stored, fun _ _ => Or.inl rfl⟩
      apply hdropped.setInit (fun _ => StartupAction.noConfusion) _ (fun hne => absurd rfl hne)
        (by rw [hpc]; simp)
      intro hpublishing
      contradiction
  | storeJoin hpc hlock => exact h.storeJoin hpc
  | @takeJoin c k delivered hpc hlock hjoin =>
      refine ⟨h.sole, h.publisher, ?_, fun x hx => (h.past x hx).imp id (TookEarly.mono · _)⟩
      intro j hj
      rcases List.mem_append.mp hj with hj | hj
      · exact ⟨(h.stored j hj).1, Or.inr ⟨c, Or.inl rfl⟩⟩
      · exact StartupAction.noConfusion (List.mem_singleton.mp hj)
  | nothingToJoin hpc hlock hjoin => exact h.nothingToJoin hpc hlock hjoin
  | pipeline hmay hpipeline => exact h.pipeline hmay (step_cases hpipeline)

/-! ## The pipeline by itself -/

/-- What the parties of the pipeline do. -/
def pipelineActions (actions : List StartupAction) : List Action :=
  actions.filterMap fun
    | .pipeline a => some a
    | _ => none

/-- No writer fails to start, and nobody looks for the `JoinHandle` before it is stored. -/
structure Orderly (actions : List StartupAction) : Prop where
  starts : ∀ k, .spawnWriter k false ∉ actions
  waits : ∀ before after c, actions = before ++ .takeJoin c :: after → ∃ k, .storeJoin k ∈ before

theorem Orderly.before {action : StartupAction} (h : Orderly (done ++ [action])) :
    Orderly done where
  starts := fun k hk => h.starts k (List.mem_append_left _ hk)
  waits := by
    intro before after c hdone
    apply h.waits before (after ++ [action]) c
    rw [hdone, List.append_assoc, List.cons_append]

theorem Orderly.not_tookEarly (h : Orderly done) (c : Nat) : ¬ TookEarly done c := by
  rintro ⟨before, after, hdone, hnone⟩
  obtain ⟨k, hk⟩ := h.waits before after c hdone
  exact hnone k hk

/-- What follows once the `JoinHandle` is stored, with nobody having looked for it, is
orderly. -/
theorem orderly_of_stored {first second : List StartupAction} {k : Nat}
    (hstarts : ∀ j, .spawnWriter j false ∉ first ++ second) (hfirst : ∀ c, .takeJoin c ∉ first)
    (hstored : .storeJoin k ∈ first) : Orderly (first ++ second) where
  starts := hstarts
  waits := by
    intro before after c hsplit
    refine ⟨k, ?_⟩
    rcases List.append_eq_append_iff.mp hsplit with ⟨rest, hbefore, -⟩ | ⟨rest, hrest, htake⟩
    · rw [hbefore]
      exact List.mem_append_left _ hstored
    · cases rest with
      | nil =>
          rw [List.append_nil] at hrest
          rwa [← hrest]
      | cons action rest =>
          obtain ⟨rfl, -⟩ := List.cons.inj htake
          have hmem : .takeJoin c ∈ first := by
            rw [hrest]
            exact List.mem_append_right _ List.mem_cons_self
          exact absurd hmem (hfirst c)

/-- The pipeline part of an orderly run is a run of the pipeline machine. -/
theorem projected_step {action : StartupAction} (h : Started done s)
    (hrun : Orderly done → exec (step cfg) Pipeline.init (pipelineActions done) = some s.pipeline)
    (hstep : startupStep cfg s action = some t) (horderly : Orderly (done ++ [action])) :
    exec (step cfg) Pipeline.init (pipelineActions (done ++ [action])) = some t.pipeline := by
  have hbefore := hrun horderly.before
  have hskip : ∀ p : Pipeline, p = s.pipeline → pipelineActions [action] = [] →
      exec (step cfg) Pipeline.init (pipelineActions (done ++ [action])) = some p := by
    intro p hp hnone
    rw [pipelineActions, List.filterMap_append]
    change exec _ _ (pipelineActions done ++ pipelineActions [action]) = _
    rw [hnone, List.append_nil, hp]
    exact hbefore
  cases startupStep_cases hstep with
  | prepare hpc => exact hskip _ rfl rfl
  | alreadyInitialized hpc hglobal => exact hskip _ rfl rfl
  | publish hpc hglobal => exact hskip _ rfl rfl
  | spawnWriter hpc => exact hskip _ rfl rfl
  | spawnFails hpc => exact absurd (List.mem_append_right _ List.mem_cons_self) (horderly.starts _)
  | storeJoin hpc hlock => exact hskip _ rfl rfl
  | takeJoin hpc hlock hjoin => exact hskip _ rfl rfl
  | @nothingToJoin c delivered hpc hlock hjoin =>
      exact absurd (h.tookEarly hpc hlock hjoin) (horderly.not_tookEarly c)
  | @pipeline a p hmay hpipeline =>
      rw [pipelineActions, List.filterMap_append]
      change exec _ _ (pipelineActions done ++ [a]) = _
      rw [exec_append hbefore]
      simp only [exec, hpipeline, Option.bind_some]

variable (cfg)

/-- A shutdown that returns has seen the writer exit, unless it looked for the
`JoinHandle` before any `init` had stored one, and at most one `init` does.  Runs without such
an early look, and in which no spawn of the writer thread fails, are, of the pipeline, runs of
the machine that begins with a running writer. -/
theorem startup_refines_pipeline {actions : List StartupAction}
    (h : exec (startupStep cfg) Startup.init actions = some s) :
    (∀ c, s.pipeline.calls c = .returned true →
      s.pipeline.writer = .exited ∨ TookEarly actions c) ∧
    (∀ k k', .storeJoin k ∈ actions → .storeJoin k' ∈ actions → k = k') ∧
    (Orderly actions →
      exec (step cfg) Pipeline.init (pipelineActions actions) = some s.pipeline ∧
      ∀ c, s.pipeline.calls c = .returned true → s.pipeline.writer = .exited) := by
  let projected (done : List StartupAction) (u : Startup) : Prop := Orderly done →
    exec (step cfg) Pipeline.init (pipelineActions done) = some u.pipeline
  have hall : Started (transcript (startupStep cfg) (fun _ a => [a]) Startup.init actions) s ∧
      projected (transcript (startupStep cfg) (fun _ a => [a]) Startup.init actions) s :=
    exec_history (I := fun done u => Started done u ∧ projected done u)
      (fun _ _ _ _ hu hstep => ⟨started_step hu.1 hstep, projected_step hu.1 hu.2 hstep⟩)
      h ⟨started_init, fun _ => rfl⟩
  rw [transcript_actions h] at hall
  obtain ⟨hstarted, hprojected⟩ := hall
  have hexited : ∀ c, s.pipeline.calls c = .returned true →
      s.pipeline.writer = .exited ∨ TookEarly actions c := by
    intro c hc
    exact hstarted.past c (by rw [hc]; rfl)
  refine ⟨hexited, ?_, ?_⟩
  · intro k k' hk hk'
    have hpublished := hstarted.publisher k (by rw [(hstarted.stored k hk).1]; rfl)
    rw [hstarted.publisher k' (by rw [(hstarted.stored k' hk').1]; rfl)] at hpublished
    exact (Option.some.inj hpublished).symm
  · intro horderly
    refine ⟨hprojected horderly, ?_⟩
    intro c hc
    exact (hexited c hc).resolve_right (horderly.not_tookEarly c)

end

/-- One `init` wins over another, and the shutdown comes after its return. -/
def startedRun : List StartupAction :=
  [.prepare 0 true, .prepare 1 true, .publish 0, .pipeline (.loadFlag 0), .publish 1,
    .spawnWriter 0 true, .storeJoin 0] ++
  [.pipeline (.swapFlag 0), .pipeline (.sendShutdown 0), .pipeline .blockingRecv, .takeJoin 0,
    .pipeline .exit, .pipeline (.joined 0), .pipeline (.finish 0)]

theorem startedRun_refines :
    ∃ s, exec (startupStep smallPipeline) Startup.init startedRun = some s ∧
      exec (step smallPipeline) Pipeline.init (pipelineActions startedRun) = some s.pipeline ∧
      s.pipeline.writer = .exited := by
  have horderly : Orderly startedRun :=
    orderly_of_stored (k := 0) (by simp) (by simp) (by simp)
  obtain ⟨s, hrun⟩ : ∃ s, exec (startupStep smallPipeline) Startup.init startedRun = some s :=
    ⟨_, rfl⟩
  have hreturned : s.pipeline.calls 0 = .returned true := by
    have hfinal : (exec (startupStep smallPipeline) Startup.init startedRun).map
        (fun u => u.pipeline.calls 0) = some (.returned true) := by decide +kernel
    rw [hrun] at hfinal
    exact Option.some.inj hfinal
  obtain ⟨-, -, hrefines⟩ := startup_refines_pipeline smallPipeline hrun
  exact ⟨s, hrun, (hrefines horderly).1, (hrefines horderly).2 0 hreturned⟩

/-- The shutdown comes between the publication and the spawn, and returns first. -/
def hastyRun : List StartupAction :=
  [.prepare 0 true, .publish 0, .pipeline (.swapFlag 0), .pipeline (.sendShutdown 0),
    .takeJoin 0, .pipeline (.finish 0), .spawnWriter 0 true, .storeJoin 0]

example : (exec (startupStep smallPipeline) Startup.init hastyRun).map
    (fun s => (s.pipeline.calls 0, s.pipeline.writer)) = some (.returned true, .recv) := by
  decide +kernel

end Tonggeret.Engine
