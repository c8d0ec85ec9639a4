import Mathlib.Data.List.Induction
import Tonggeret.Engine.Lifecycle

/-!
# Initialization

`init` prepares the handle and opens the keyspace before it publishes the handle, so
that a failure leaves the globals untouched, and starts the writer thread after.  Calls
run one after another; what each fallible step meets is part of the call, the panic of
`mpsc::channel` included.  A sequence of calls is a run of the lifecycle machine.
-/

namespace Tonggeret.Engine

open Tonggeret.Lib

/-- Of `EngineHandle` what `init` sets: the keyspace is named by its directory. -/
structure EngineHandle where
  hasSender : Bool
  fjall : Option String
  hasFjall : Bool
deriving DecidableEq

/-- The process globals, with the writer threads and compaction tasks started so far. -/
structure Globals where
  global : Option EngineHandle
  writerJoin : Option Nat
  compactionTask : Option Nat
  threads : Nat
  tasks : Nat

def Globals.start : Globals := ⟨none, none, none, 0, 0⟩

/-- One call of `init`, the error of each step that fails, and the capacities on which
`mpsc::channel` panics. -/
structure InitCall where
  config : Config
  registryError : Option String
  channelPanics : UInt64 → Bool
  createDirError : Option String
  createColdDirError : Option String
  keyspaceError : Option String
  partitionError : Option String
  threadError : Option String
  inRuntime : Bool

/-- What a call returns, unless it panics, what it leaves behind and what it has opened. -/
structure InitOutcome where
  result : Option (Except Error Unit)
  globals : Globals
  opened : Option String

/-- The channel of `EngineHandle::new`, made if there is a writer to feed; `none` is the
panic of its constructor. -/
def openChannel (channelPanics : UInt64 → Bool) (config : Config) : Option (Option UInt64) :=
  match config.fjall with
  | none => some none
  | some _ =>
      if channelPanics config.channelCapacity then none
      else some (some config.channelCapacity)

/-- `EngineHandle::new`; `none` is its panic. -/
def EngineHandle.new (call : InitCall) : Option (Except Error EngineHandle) :=
  match call.registryError with
  | some e => some (.error (.prometheus e))
  | none =>
      (openChannel call.channelPanics call.config).map fun sender =>
        .ok ⟨sender.isSome, none, false⟩

/-- Open (creating if needed) the keyspace and its partition; first the directory of a
keyspace that was opened, even if its partition was not. -/
def openHandles (call : InitCall) (cfg : FjallConfig) :
    Option String × Except Error String :=
  match call.createDirError, call.createColdDirError, call.keyspaceError,
    call.partitionError with
  | some e, _, _, _ => (none, .error (.io e))
  | none, some e, _, _ => (none, .error (.io e))
  | none, none, some e, _ =>
      (none, .error (.storage ("fjall open " ++ cfg.dir ++ ": " ++ e)))
  | none, none, none, some e =>
      (some cfg.dir, .error (.storage ("fjall open partition: " ++ e)))
  | none, none, none, none => (some cfg.dir, .ok cfg.dir)

/-- Start the compaction background task. -/
def spawnCompactionTask (cfg : FjallConfig) (inRuntime : Bool) (g : Globals) : Globals :=
  if !cfg.enableCompaction then g
  else
    match g.global with
    | some ⟨_, some _, _⟩ =>
        if inRuntime then { g with compactionTask := some g.tasks, tasks := g.tasks + 1 } else g
    | _ => g

/-- From the publication of the handle on. -/
def publish (call : InitCall) (handle : EngineHandle) (opened : Option String) (g : Globals) :
    InitOutcome :=
  match g.global with
  | some _ => ⟨some (.error .alreadyInitialized), g, opened⟩
  | none =>
      let g := { g with global := some handle }
      match call.config.fjall with
      | none => ⟨some (.ok ()), g, opened⟩
      | some cfg =>
          match call.threadError with
          | some e => ⟨some (.error (.storage ("spawn writer thread: " ++ e))), g, opened⟩
          | none =>
              let g := { g with writerJoin := some g.threads, threads := g.threads + 1 }
              ⟨some (.ok ()), spawnCompactionTask cfg call.inRuntime g, opened⟩

/-- Initialize global telemetry once per process. -/
def init (g : Globals) (call : InitCall) : InitOutcome :=
  match call.config.validate with
  | .error e => ⟨some (.error e), g, none⟩
  | .ok () =>
      match EngineHandle.new call with
      | none => ⟨none, g, none⟩
      | some (.error e) => ⟨some (.error e), g, none⟩
      | some (.ok handle) =>
          match call.config.fjall with
          | none => publish call handle none g
          | some cfg =>
              match openHandles call cfg with
              | (opened, .error e) => ⟨some (.error e), g, opened⟩
              | (opened, .ok dir) =>
                  publish call { handle with fjall := some dir, hasFjall := true } opened g

/-- The globals after a sequence of calls. -/
def globalsAfter (calls : List InitCall) : Globals :=
  calls.foldl (fun g call => (init g call).globals) Globals.start

/-! ## What a call may do -/

/-- A call that returns an error leaves the handle as it was and starts nothing. -/
def AtomicCall (g : Globals) (call : InitCall) : Prop :=
  ∀ e, (init g call).result = some (.error e) →
    (init g call).globals.global = g.global ∧ (init g call).globals.threads = g.threads ∧
      (init g call).globals.tasks = g.tasks

/-- A handle on the directory is held. -/
def Globals.Holds (g : Globals) (dir : String) : Prop :=
  ∃ handle, g.global = some handle ∧ handle.fjall = some dir

/-- No call opens the directory of a keyspace that an earlier successful call has opened
and that is still held. -/
def SingleOpen {δ : Type} (directoryOf : String → δ) (calls : List InitCall) : Prop :=
  ∀ before earlier between later after,
    calls = before ++ earlier :: (between ++ later :: after) →
    (init (globalsAfter before) earlier).result = some (.ok ()) →
    ∀ dir dir', (init (globalsAfter before) earlier).opened = some dir →
      (globalsAfter (before ++ earlier :: between)).Holds dir →
      (init (globalsAfter (before ++ earlier :: between)) later).opened = some dir' →
        directoryOf dir' ≠ directoryOf dir

/-- Every call is atomic, and no directory is opened twice. -/
def InitSafe {δ : Type} (directoryOf : String → δ) (calls : List InitCall) : Prop :=
  (∀ before call after, calls = before ++ call :: after →
    AtomicCall (globalsAfter before) call) ∧
  SingleOpen directoryOf calls

/-- The steps up to the keyspace of the directory succeed. -/
def KeyspaceOpens (call : InitCall) (dir : String) : Prop :=
  call.config.validate = .ok () ∧ call.registryError = none ∧
    openChannel call.channelPanics call.config ≠ none ∧ (∃ cfg, call.config.fjall = some cfg ∧ cfg.dir = dir) ∧
    call.createDirError = none ∧ call.createColdDirError = none ∧ call.keyspaceError = none

/-- The thread starts if the handle it serves is published, and the directory that the
call opens is not the one of the handle published before. -/
structure Fits {δ : Type} (directoryOf : String → δ) (g : Globals) (call : InitCall) :
    Prop where
  thread : g.global = none → (∃ dir, KeyspaceOpens call dir) → call.partitionError = none →
    call.threadError = none
  directory : ∀ dir dir', g.Holds dir → KeyspaceOpens call dir' →
    directoryOf dir' ≠ directoryOf dir

def AllFit {δ : Type} (directoryOf : String → δ) (calls : List InitCall) : Prop :=
  ∀ before call after, calls = before ++ call :: after →
    Fits directoryOf (globalsAfter before) call

/-! ## One call -/

variable {g : Globals} {call : InitCall}

theorem openHandles_cases (call : InitCall) (cfg : FjallConfig) :
    (∃ opened e, openHandles call cfg = (opened, .error e) ∧
      (∀ dir, opened = some dir ↔ cfg.dir = dir ∧ call.createDirError = none ∧
        call.createColdDirError = none ∧ call.keyspaceError = none) ∧
      (opened ≠ none → call.partitionError ≠ none)) ∨
    (openHandles call cfg = (some cfg.dir, .ok cfg.dir) ∧ call.createDirError = none ∧
      call.createColdDirError = none ∧ call.keyspaceError = none ∧
      call.partitionError = none) := by
  unfold openHandles
  split <;> simp_all

theorem publish_opened (handle : EngineHandle) (opened : Option String) :
    (publish call handle opened g).opened = opened := by
  unfold publish
  dsimp only
  repeat' split
  all_goals rfl

theorem spawnCompactionTask_global (cfg : FjallConfig) (inRuntime : Bool) :
    (spawnCompactionTask cfg inRuntime g).global = g.global := by
  unfold spawnCompactionTask
  repeat' split
  all_goals rfl

/-- What `publish` does with a handle on the directory `opened`. -/
theorem publish_cases (g : Globals) (call : InitCall) (handle : EngineHandle)
    (opened : Option String) :
    (g.global ≠ none ∧ (∃ e, (publish call handle opened g).result = some (.error e)) ∧
      (publish call handle opened g).globals = g) ∨
    (g.global = none ∧ call.config.fjall ≠ none ∧ call.threadError ≠ none ∧
      (∃ e, (publish call handle opened g).result = some (.error e)) ∧
      (publish call handle opened g).globals = { g with global := some handle }) ∨
    (g.global = none ∧ (call.config.fjall ≠ none → call.threadError = none) ∧
      (publish call handle opened g).result = some (.ok ()) ∧
      (publish call handle opened g).globals.global = some handle) := by
  unfold publish
  cases hg : g.global with
  | some _ => exact .inl ⟨Option.some_ne_none _, ⟨_, rfl⟩, rfl⟩
  | none =>
      cases hfjall : call.config.fjall with
      | none => exact .inr (.inr ⟨rfl, fun h => absurd rfl h, rfl, rfl⟩)
      | some cfg =>
          cases hthread : call.threadError with
          | some e =>
              exact .inr (.inl ⟨rfl, Option.some_ne_none _, Option.some_ne_none _, ⟨_, rfl⟩, rfl⟩)
          | none => exact .inr (.inr ⟨rfl, fun _ => rfl, rfl, spawnCompactionTask_global _ _⟩)

/-- The calls that come to publish a handle, and the others. -/
theorem init_publishes (g : Globals) (call : InitCall) :
    (∃ opened result, init g call = ⟨result, g, opened⟩ ∧ result ≠ some (.ok ()) ∧
      (∀ dir, opened = some dir ↔ KeyspaceOpens call dir) ∧
      (opened ≠ none → call.partitionError ≠ none)) ∨
    (∃ handle, init g call = publish call handle handle.fjall g ∧
      call.config.validate = .ok () ∧ handle.hasFjall = handle.fjall.isSome ∧
      (∀ dir, handle.fjall = some dir ↔ KeyspaceOpens call dir) ∧
      (handle.fjall ≠ none → call.partitionError = none) ∧
      (handle.fjall = none ↔ call.config.fjall = none)) := by
  unfold init
  cases hvalid : call.config.validate with
  | error e =>
      exact .inl ⟨none, _, rfl, by simp, by simp [KeyspaceOpens, hvalid],
        fun h => absurd rfl h⟩
  | ok _ =>
      cases hregistry : call.registryError with
      | some e =>
          refine .inl ⟨none, some (.error (.prometheus e)), ?_, by simp,
            by simp [KeyspaceOpens, hregistry], fun h => absurd rfl h⟩
          simp [EngineHandle.new, hregistry]
      | none =>
          simp only [EngineHandle.new, hregistry]
          cases hchannel : openChannel call.channelPanics call.config with
          | none =>
              exact .inl ⟨none, none, rfl, by simp, by simp [KeyspaceOpens, hchannel],
                fun h => absurd rfl h⟩
          | some sender =>
              simp only [Option.map_some]
              cases hfjall : call.config.fjall with
              | none =>
                  exact .inr ⟨_, rfl, trivial, rfl, by simp [KeyspaceOpens, hfjall], by simp,
                    by simp⟩
              | some cfg =>
                  rcases openHandles_cases call cfg with
                    ⟨opened, e, hopen, hdir, hpart⟩ | ⟨hopen, h⟩
                  · refine .inl ⟨opened, some (.error e), by simp only [hopen], by simp, ?_,
                      hpart⟩
                    intro dir
                    simp [KeyspaceOpens, hvalid, hregistry, hchannel, hfjall, hdir]
                  · refine .inr ⟨⟨sender.isSome, some cfg.dir, true⟩, by simp [hopen], trivial,
                      rfl, ?_, fun _ => h.2.2.2, ?_⟩
                    · intro dir
                      simp [KeyspaceOpens, hvalid, hregistry, hchannel, hfjall, h]
                    · simp

theorem opened_iff {dir : String} :
    (init g call).opened = some dir ↔ KeyspaceOpens call dir := by
  rcases init_publishes g call with
    ⟨opened, result, heq, -, hdir, -⟩ | ⟨handle, heq, -, -, hdir, -⟩
  · rw [heq]
    exact hdir dir
  · rw [heq, publish_opened]
    exact hdir dir

/-- The outcomes of a call: it returns an error, or panics, before it publishes anything; it
publishes a handle and cannot start the thread; or it succeeds. -/
theorem init_cases (g : Globals) (call : InitCall) :
    ((init g call).result ≠ some (.ok ()) ∧ (init g call).globals = g ∧
      (g.global = none → ∀ dir, KeyspaceOpens call dir → call.partitionError ≠ none)) ∨
    (g.global = none ∧ call.partitionError = none ∧ call.threadError ≠ none ∧
      (∃ e, (init g call).result = some (.error e)) ∧
      ∃ handle dir, (init g call).globals = { g with global := some handle } ∧
        KeyspaceOpens call dir) ∨
    (g.global = none ∧
      ((∃ dir, KeyspaceOpens call dir) → call.threadError = none) ∧
      (init g call).result = some (.ok ()) ∧
      ∃ handle, (init g call).globals.global = some handle ∧
        handle.fjall = (init g call).opened) := by
  rcases init_publishes g call with ⟨opened, result, heq, hresult, hdir, hpart⟩ |
    ⟨handle, heq, -, -, hdir, hpart, hnone⟩
  · rw [heq]
    refine .inl ⟨hresult, rfl, fun _ dir hopens => hpart ?_⟩
    exact (hdir dir).mpr hopens ▸ Option.some_ne_none dir
  rw [heq]
  rcases publish_cases g call handle handle.fjall with
    ⟨hg, ⟨e, herror⟩, hglobals⟩ | ⟨hg, hfjall, hthread, hresult, hglobals⟩ |
    ⟨hg, hthread, hresult, hglobal⟩
  · exact .inl ⟨by rw [herror]; simp, hglobals, fun h => absurd h hg⟩
  · obtain ⟨dir, hhandle⟩ := Option.ne_none_iff_exists'.mp (mt hnone.mp hfjall)
    refine .inr (.inl ⟨hg, ?_, hthread, hresult, handle, dir, hglobals, (hdir dir).mp hhandle⟩)
    exact hpart (hhandle ▸ Option.some_ne_none dir)
  · refine .inr (.inr ⟨hg, ?_, hresult, handle, hglobal, publish_opened _ _ |>.symm⟩)
    rintro ⟨dir, -, -, -, ⟨cfg, hfjall, -⟩, -⟩
    exact hthread (hfjall ▸ Option.some_ne_none cfg)

/-- A call is atomic unless it publishes a handle whose thread it cannot start. -/
theorem atomicCall_iff :
    AtomicCall g call ↔ (g.global = none → (∃ dir, KeyspaceOpens call dir) →
      call.partitionError = none → call.threadError = none) := by
  rcases init_cases g call with ⟨-, hglobals, hpart⟩ |
    ⟨hg, hpartition, hthread, ⟨e, hresult⟩, handle, dir, hglobals, hopens⟩ |
    ⟨hg, hthread, hresult, -⟩
  · constructor
    · rintro - hg ⟨dir, hopens⟩ hpartition
      exact absurd hpartition (hpart hg dir hopens)
    · rintro - e -
      rw [hglobals]
      exact ⟨rfl, rfl, rfl⟩
  · constructor
    · intro hatomic
      have hsame := (hatomic e hresult).1
      rw [hglobals, hg] at hsame
      exact absurd hsame (Option.some_ne_none handle)
    · intro h
      exact absurd (h hg ⟨dir, hopens⟩ hpartition) hthread
  · constructor
    · rintro - - hopens -
      exact hthread hopens
    · intro _ e herror
      rw [hresult] at herror
      cases herror

/-! ## Sequences of calls -/

theorem globalsAfter_concat (before : List InitCall) (call : InitCall) :
    globalsAfter (before ++ [call]) = (init (globalsAfter before) call).globals := by
  simp [globalsAfter]

/-- While every call is atomic, a keyspace that is held was opened by a successful
call. -/
theorem opened_of_holds {calls : List InitCall} {dir : String}
    (hatomic : ∀ before call after, calls = before ++ call :: after →
      AtomicCall (globalsAfter before) call)
    (hholds : (globalsAfter calls).Holds dir) :
    ∃ before earlier between, calls = before ++ earlier :: between ∧
      (init (globalsAfter before) earlier).result = some (.ok ()) ∧
      (init (globalsAfter before) earlier).opened = some dir := by
  induction calls using List.reverseRecOn with
  | nil =>
      obtain ⟨handle, hglobal, -⟩ := hholds
      exact absurd hglobal.symm (Option.some_ne_none handle)
  | append_singleton calls call ih =>
      have hbefore : ∀ before c after, calls = before ++ c :: after →
          AtomicCall (globalsAfter before) c := by
        intro before c after hsplit
        exact hatomic before c (after ++ [call]) (by simp [hsplit])
      have hcall := hatomic calls call [] rfl
      obtain ⟨handle, hglobal, hdir⟩ := hholds
      rw [globalsAfter_concat] at hglobal
      have hkept : (globalsAfter calls).global = some handle → ∃ before earlier between,
          calls ++ [call] = before ++ earlier :: between ∧
          (init (globalsAfter before) earlier).result = some (.ok ()) ∧
          (init (globalsAfter before) earlier).opened = some dir := by
        intro hsame
        obtain ⟨before, earlier, between, hsplit, hrest⟩ := ih hbefore ⟨handle, hsame, hdir⟩
        exact ⟨before, earlier, between ++ [call], by simp [hsplit], hrest⟩
      rcases init_cases (globalsAfter calls) call with ⟨-, hsame, -⟩ |
        ⟨-, -, -, ⟨e, herror⟩, -⟩ | ⟨-, -, hok, published, hpublished, hopened⟩
      · rw [hsame] at hglobal
        exact hkept hglobal
      · rw [(hcall e herror).1] at hglobal
        exact hkept hglobal
      · rw [hpublished, Option.some_inj] at hglobal
        rw [hglobal, hdir] at hopened
        exact ⟨calls, call, [], rfl, hok, hopened.symm⟩

/-- Exactly when initialization is atomic and opens no directory twice. -/
theorem initSafe_iff_allFit {δ : Type} (directoryOf : String → δ) (calls : List InitCall) :
    InitSafe directoryOf calls ↔ AllFit directoryOf calls := by
  constructor
  · rintro ⟨hatomic, hsingle⟩ before call after hsplit
    refine ⟨atomicCall_iff.mp (hatomic before call after hsplit), ?_⟩
    intro dir dir' hholds hopens
    have hbefore : ∀ b c a, before = b ++ c :: a → AtomicCall (globalsAfter b) c := by
      intro b c a hb
      exact hatomic b c (a ++ call :: after) (by simp [hsplit, hb])
    obtain ⟨first, earlier, between, hb, hok, hopened⟩ := opened_of_holds hbefore hholds
    refine hsingle first earlier between call after (by simp [hsplit, hb]) hok dir dir' hopened
      (hb ▸ hholds) ?_
    exact hb ▸ opened_iff.mpr hopens
  · intro hfit
    refine ⟨?_, ?_⟩
    · intro before call after hsplit
      exact atomicCall_iff.mpr (hfit before call after hsplit).thread
    · intro before earlier between later after hsplit _ dir dir' _ hholds hopened
      have hlater := hfit (before ++ earlier :: between) later after (by simp [hsplit])
      exact hlater.directory dir dir' hholds (opened_iff.mp hopened)

/-! ## The calls as runs of the lifecycle machine -/

/-- The globals as the lifecycle machine sees them. -/
structure Agrees (g : Globals) (s : Lifecycle) : Prop where
  global : s.global = g.global.map EngineHandle.hasFjall
  compactionTask : s.compactionTask = g.compactionTask
  tasks : s.nextTask = g.tasks
  handle : ∀ handle, g.global = some handle → handle.hasFjall = handle.fjall.isSome

theorem Agrees.setCall {s : Lifecycle} {k : Nat} {pc : CallPc} (h : Agrees g s) :
    Agrees g (s.setCall k pc) := ⟨h.global, h.compactionTask, h.tasks, h.handle⟩

/-- The machine gets from `s` to `u` by steps of the call `k` only. -/
def Alone (k : Nat) (s u : Lifecycle) : Prop :=
  ∃ actions, exec lifecycleStep s actions = some u ∧ ∀ j, j ≠ k → u.calls j = s.calls j

theorem Alone.trans {k : Nat} {s t u : Lifecycle} (hst : Alone k s t) (htu : Alone k t u) :
    Alone k s u := by
  obtain ⟨first, hfirst, hcalls⟩ := hst
  obtain ⟨second, hsecond, hcalls'⟩ := htu
  refine ⟨first ++ second, (exec_append hfirst second).trans hsecond, ?_⟩
  intro j hj
  rw [hcalls' j hj, hcalls j hj]

theorem Alone.single {k : Nat} {s t : Lifecycle} {pc : CallPc} (a : LifecycleAction)
    (hstep : lifecycleStep s a = some (t.setCall k pc)) (hcalls : t.calls = s.calls) :
    Alone k s (t.setCall k pc) := by
  refine ⟨[a], by simp [exec, hstep], ?_⟩
  intro j hj
  rw [Lifecycle.calls_setCall, if_neg hj, hcalls]

/-- `spawn_compaction_task` on a handle that has a keyspace. -/
theorem spawn_simulated {s : Lifecycle} {k : Nat} {cfg : FjallConfig} (inRuntime : Bool)
    (h : Agrees g s) (hpc : s.calls k = .checking cfg) {handle : EngineHandle}
    (hglobal : g.global = some handle) {dir : String} (hdir : handle.fjall = some dir) :
    ∃ u, Alone k s u ∧ Agrees (spawnCompactionTask cfg inRuntime g) u := by
  have hhas : handle.hasFjall = true := by rw [h.handle handle hglobal, hdir, Option.isSome_some]
  have hmay : s.maySpawn cfg inRuntime = (cfg.enableCompaction && inRuntime) := by
    simp [Lifecycle.maySpawn, h.global, hglobal, hhas]
  obtain ⟨hasSender, fjall, hasFjall⟩ := handle
  subst hdir
  by_cases hspawn : (cfg.enableCompaction && inRuntime) = true
  · obtain ⟨henabled, hruntime⟩ := Bool.and_eq_true_iff.mp hspawn
    have hspawned : Alone k s (s.spawn.setCall k (.spawned s.nextTask)) :=
      .single (.spawnTask k inRuntime) (by simp [lifecycleStep, spawnStep, hpc, hmay, hspawn]) rfl
    let t := s.spawn.setCall k (.spawned s.nextTask)
    have hstored : Alone k t ({ t with compactionTask := some s.nextTask }.setCall k .returned) :=
      .single (.storeTask k) (by simp [lifecycleStep, spawnStep, t]) rfl
    refine ⟨_, hspawned.trans hstored, ?_⟩
    have hnew : spawnCompactionTask cfg inRuntime g =
        { g with compactionTask := some g.tasks, tasks := g.tasks + 1 } := by
      simp [spawnCompactionTask, henabled, hglobal, hruntime]
    rw [hnew]
    exact ⟨h.global, congrArg some h.tasks, congrArg (· + 1) h.tasks, h.handle⟩
  · have hrefused : Alone k s (s.setCall k .returned) :=
      .single (.spawnTask k inRuntime) (by simp [lifecycleStep, spawnStep, hpc, hmay, hspawn]) rfl
    have hsame : spawnCompactionTask cfg inRuntime g = g := by
      simp only [spawnCompactionTask, hglobal]
      cases henabled : cfg.enableCompaction with
      | false => rfl
      | true =>
          rw [henabled, Bool.true_and] at hspawn
          simp [hspawn]
    refine ⟨_, hrefused, ?_⟩
    rw [hsame]
    exact h.setCall

/-- The writer thread starts, and then the task, as its conditions say. -/
theorem startWriter_simulated {t : Lifecycle} {k : Nat} {cfg : FjallConfig} (inRuntime : Bool)
    (h : Agrees g t) (hpc : t.calls k = .initialized cfg) {handle : EngineHandle}
    (hglobal : g.global = some handle) {dir : String} (hdir : handle.fjall = some dir) :
    ∃ u, Alone k t u ∧
      Agrees (spawnCompactionTask cfg inRuntime
        { g with writerJoin := some g.threads, threads := g.threads + 1 }) u := by
  have hstarted : Alone k t (t.setCall k (.checking cfg)) :=
    .single (.startWriter k true) (by simp [lifecycleStep, initStep, hpc]) rfl
  have hagree : Agrees { g with writerJoin := some g.threads, threads := g.threads + 1 }
      (t.setCall k (.checking cfg)) := ⟨h.global, h.compactionTask, h.tasks, h.handle⟩
  obtain ⟨u, halone, hspawned⟩ := spawn_simulated inRuntime hagree
    (Lifecycle.calls_setCall_self t k _) hglobal hdir
  exact ⟨u, hstarted.trans halone, hspawned⟩

/-- From the publication on, with the handle of a valid configuration. -/
theorem publish_simulated {s : Lifecycle} {k : Nat} {handle : EngineHandle} (h : Agrees g s)
    (hpc : s.calls k = .preparing call.config)
    (hhas : handle.hasFjall = handle.fjall.isSome)
    (hfjall : handle.fjall = none ↔ call.config.fjall = none) :
    ∃ u, Alone k s u ∧ Agrees (publish call handle handle.fjall g).globals u := by
  unfold publish
  cases hg : g.global with
  | some old =>
      refine ⟨s.setCall k .returned, .single (.publish k) ?_ rfl, h.setCall⟩
      simp [lifecycleStep, initStep, hpc, h.global, hg]
  | none =>
      have hunset : s.global = none := by rw [h.global, hg, Option.map_none]
      have hkind : handle.hasFjall = call.config.fjall.isSome := by
        rw [hhas, Bool.eq_iff_iff, Option.isSome_iff_ne_none, Option.isSome_iff_ne_none,
          not_iff_not, hfjall]
      have hpublished : ∀ pc, Agrees { g with global := some handle }
          ({ s with global := some call.config.fjall.isSome }.setCall k pc) := by
        intro pc
        refine ⟨congrArg some hkind.symm, h.compactionTask, h.tasks, ?_⟩
        intro handle' hhandle
        rw [← Option.some.inj hhandle]
        exact hhas
      cases hconfig : call.config.fjall with
      | none =>
          rw [hconfig] at hpublished
          have hpublish : Alone k s ({ s with global := some false }.setCall k .returned) :=
            .single (.publish k) (by simp [lifecycleStep, initStep, hpc, hunset, hconfig]) rfl
          exact ⟨_, hpublish, hpublished _⟩
      | some cfg =>
          rw [hconfig] at hpublished
          let t := { s with global := some true }.setCall k (.initialized cfg)
          have hpublish : Alone k s t :=
            .single (.publish k) (by simp [lifecycleStep, initStep, hpc, hunset, hconfig]) rfl
          cases hthread : call.threadError with
          | some e =>
              have hfailed : Alone k t (t.setCall k .returned) :=
                .single (.startWriter k false) (by simp [lifecycleStep, initStep, t]) rfl
              exact ⟨_, hpublish.trans hfailed, (hpublished _).setCall⟩
          | none =>
              obtain ⟨dir, hdir⟩ : ∃ dir, handle.fjall = some dir := by
                rw [← Option.ne_none_iff_exists', ne_eq, hfjall, hconfig]
                exact Option.some_ne_none cfg
              obtain ⟨u, halone, hspawned⟩ := startWriter_simulated call.inRuntime
                (hpublished (.initialized cfg)) (Lifecycle.calls_setCall_self _ k _) rfl hdir
              exact ⟨u, hpublish.trans halone, hspawned⟩

/-- The call goes through the machine without another one between its steps. -/
theorem init_simulated (call : InitCall) {s : Lifecycle} {k : Nat} (h : Agrees g s)
    (hidle : s.calls k = .idle) :
    ∃ u, Alone k s u ∧ Agrees (init g call).globals u := by
  have hinvalid : ∀ e, call.config.validate = .error e →
      Alone k s (s.setCall k .returned) := by
    intro e he
    exact .single (.beginInit k call.config) (by simp [lifecycleStep, initStep, hidle, he]) rfl
  have hvalid : call.config.validate = .ok () →
      Alone k s (s.setCall k (.preparing call.config)) := by
    intro hok
    exact .single (.beginInit k call.config) (by simp [lifecycleStep, initStep, hidle, hok]) rfl
  rcases init_publishes g call with
    ⟨opened, result, heq, -⟩ | ⟨handle, heq, hok, hhas, -, -, hfjall⟩
  · rw [heq]
    cases hconfig : call.config.validate with
    | error e => exact ⟨_, hinvalid e hconfig, h.setCall⟩
    | ok _ =>
        let t := s.setCall k (.preparing call.config)
        have hfailed : Alone k t (t.setCall k .returned) :=
          .single (.failInit k) (by simp [lifecycleStep, initStep, t]) rfl
        exact ⟨_, (hvalid hconfig).trans hfailed, h.setCall.setCall⟩
  · rw [heq]
    obtain ⟨u, halone, hagree⟩ := publish_simulated h.setCall
      (Lifecycle.calls_setCall_self s k (.preparing call.config)) hhas hfjall
    exact ⟨u, (hvalid hok).trans halone, hagree⟩

theorem agrees_start : Agrees Globals.start Lifecycle.init :=
  ⟨rfl, rfl, rfl, fun _ h => by contradiction⟩

/-- Calls one after another are a run of the lifecycle machine, so what holds in all its
runs holds of them. -/
theorem globalsAfter_simulated (calls : List InitCall) :
    ∃ u, Reaches lifecycleStep (fun _ _ => True) Lifecycle.init u ∧
      Agrees (globalsAfter calls) u ∧ ∀ k, calls.length ≤ k → u.calls k = .idle := by
  induction calls using List.reverseRecOn with
  | nil => exact ⟨Lifecycle.init, .refl _, agrees_start, fun _ _ => rfl⟩
  | append_singleton calls call ih =>
      obtain ⟨s, hreach, hagree, hidle⟩ := ih
      obtain ⟨u, ⟨actions, hexec, hcalls⟩, hagree'⟩ :=
        init_simulated call hagree (hidle calls.length le_rfl)
      refine ⟨u, hreach.trans (Reaches.of_exec hexec), ?_, ?_⟩
      · rw [globalsAfter_concat]
        exact hagree'
      · intro k hk
        rw [List.length_append, List.length_singleton] at hk
        rw [hcalls k (by omega), hidle k (by omega)]

/-- A call that meets no error. -/
def InitCall.succeeding (config : Config) : InitCall :=
  ⟨config, none, fun _ => false, none, none, none, none, none, false⟩

/-- A writer thread that cannot be started leaves the handle behind, and a second call
opens the directory before it finds the handle of the first. -/
theorem handle_left_and_second_open :
    (¬ InitSafe id [{ InitCall.succeeding (Config.defaultFull "data") with
      threadError := some "thread limit" }]) ∧
    ¬ InitSafe id [InitCall.succeeding (Config.defaultFull "data"),
      InitCall.succeeding (Config.defaultFull "data")] := by
  constructor
  · rintro ⟨hatomic, -⟩
    have hsame := (hatomic [] _ [] rfl _ rfl).1
    exact absurd hsame (Option.some_ne_none _)
  · rintro ⟨-, hsingle⟩
    exact hsingle [] _ [] _ [] rfl rfl "data" "data" rfl ⟨_, rfl, rfl⟩ rfl rfl

end Tonggeret.Engine
