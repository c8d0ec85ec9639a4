import Mathlib.Logic.Function.Basic
import Tonggeret.Lib.Transition
import Tonggeret.Types

/-!
# The ingestion pipeline

Record calls, the writer thread and shutdown calls as one machine over the shared
flag and the bounded channel; an action is one atomic step of one party.  Calls
are numbered, and the sample of a record call goes by the number of the call.  The
global handle keeps a sender alive, so only the writer's exit closes the channel.  The
writer is running: its batch could be allocated, and its inserts return.
-/

namespace Tonggeret.Engine

/-- Where a `record` call stands. -/
inductive RecordPc
  | idle
  | skipped
  | passed
  | updated
  | refused
  | sent
  | dropped
deriving DecidableEq

/-- Where the writer stands: parked in `blocking_recv`, draining with `try_recv`,
inserting a batch (after which it may stop), before its final persist, or gone. -/
inductive WriterPc
  | recv
  | drain (batch : List Nat)
  | flush (todo : List Nat) (stop : Bool)
  | persist
  | exited
deriving DecidableEq

/-- Where a `shutdown` call stands.  A call in `join` has left the retry loop, with
the sentinel delivered (or the channel found closed) or not. -/
inductive ShutdownPc
  | idle
  | attempt (k : Nat)
  | join (delivered : Bool)
  | finishing
  | returned (performed : Bool)
deriving DecidableEq

structure PipelineConfig where
  channelCapacity : Nat
  batchRows : Nat

/-- `inserted` are the inserts with their sequence numbers, `dropped` the calls that
counted themselves in `dropped_total`, and `discarded` what was still in the channel
when the writer dropped its receiver. -/
structure Pipeline where
  flag : Bool
  chan : List (PipelineMsg Nat)
  records : Nat → RecordPc
  writer : WriterPc
  seq : UInt32
  calls : Nat → ShutdownPc
  inserted : List (UInt32 × Nat)
  dropped : List Nat
  discarded : List (PipelineMsg Nat)

def Pipeline.init : Pipeline :=
  ⟨false, [], fun _ => .idle, .recv, 0, fun _ => .idle, [], [], []⟩

inductive Action
  | loadFlag (r : Nat)
  | updatePrometheus (r : Nat)
  | trySend (r : Nat)
  | countDropped (r : Nat)
  | blockingRecv
  | tryRecv
  | insert
  | flushed
  | exit
  | swapFlag (c : Nat)
  | sendShutdown (c : Nat)
  | joined (c : Nat)
  | finish (c : Nat)

namespace Pipeline

def setRecord (s : Pipeline) (r : Nat) (pc : RecordPc) : Pipeline :=
  { s with records := Function.update s.records r pc }

def setCall (s : Pipeline) (c : Nat) (pc : ShutdownPc) : Pipeline :=
  { s with calls := Function.update s.calls c pc }

/-- A message enters the channel. -/
def push (s : Pipeline) (msg : PipelineMsg Nat) : Pipeline :=
  { s with chan := s.chan ++ [msg] }

section

variable (s : Pipeline) (r c : Nat) (rpc : RecordPc) (cpc : ShutdownPc) (msg : PipelineMsg Nat)

@[simp] theorem chan_setRecord : (s.setRecord r rpc).chan = s.chan := rfl

@[simp] theorem writer_setRecord : (s.setRecord r rpc).writer = s.writer := rfl

@[simp] theorem dropped_setRecord : (s.setRecord r rpc).dropped = s.dropped := rfl

@[simp] theorem chan_setCall : (s.setCall c cpc).chan = s.chan := rfl

@[simp] theorem writer_setCall : (s.setCall c cpc).writer = s.writer := rfl

@[simp] theorem writer_push : (s.push msg).writer = s.writer := rfl

@[simp] theorem dropped_push : (s.push msg).dropped = s.dropped := rfl

@[simp] theorem chan_push : (s.push msg).chan = s.chan ++ [msg] := rfl

theorem records_setRecord (x : Nat) :
    (s.setRecord r rpc).records x = if x = r then rpc else s.records x :=
  Function.update_apply s.records r rpc x

theorem calls_setCall (x : Nat) :
    (s.setCall c cpc).calls x = if x = c then cpc else s.calls x :=
  Function.update_apply s.calls c cpc x

end

end Pipeline

/-- Attempts to deliver the sentinel, 10 ms apart. -/
def shutdownAttempts : Nat := 100

section

variable (cfg : PipelineConfig)

/-- `try_send` succeeds: the receiver is there and a permit is free. -/
def Pipeline.accepts (s : Pipeline) : Bool :=
  s.writer ≠ .exited && s.chan.length < cfg.channelCapacity

/-- One step of `EngineHandle::record`. -/
def recordStep (s : Pipeline) (r : Nat) : Action → Option Pipeline
  | .loadFlag _ =>
      if s.records r = .idle then
        some (s.setRecord r (if s.flag then .skipped else .passed))
      else none
  | .updatePrometheus _ =>
      if s.records r = .passed then some (s.setRecord r .updated) else none
  | .trySend _ =>
      if s.records r = .updated then
        if s.accepts cfg then
          some ((s.push (.metric r)).setRecord r .sent)
        else some (s.setRecord r .refused)
      else none
  | .countDropped _ =>
      if s.records r = .refused then
        some ({ s with dropped := s.dropped ++ [r] }.setRecord r .dropped)
      else none
  | _ => none

/-- One step of `writer_loop`. -/
def writerStep (s : Pipeline) : Action → Option Pipeline
  | .blockingRecv =>
      match s.writer, s.chan with
      | .recv, .metric e :: rest => some { s with writer := .drain [e], chan := rest }
      | .recv, .shutdown :: rest => some { s with writer := .persist, chan := rest }
      | _, _ => none
  | .tryRecv =>
      match s.writer with
      | .drain batch =>
          if batch.length < cfg.batchRows then
            match s.chan with
            | .metric e :: rest => some { s with writer := .drain (batch ++ [e]), chan := rest }
            | .shutdown :: rest => some { s with writer := .flush batch true, chan := rest }
            | [] => some { s with writer := .flush batch false }
          else some { s with writer := .flush batch false }
      | _ => none
  | .insert =>
      match s.writer with
      | .flush (e :: todo) stop =>
          some { s with
            writer := .flush todo stop
            seq := s.seq + 1
            inserted := s.inserted ++ [(s.seq, e)] }
      | _ => none
  | .flushed =>
      match s.writer with
      | .flush [] stop => some { s with writer := if stop then .persist else .recv }
      | _ => none
  | .exit =>
      match s.writer with
      | .persist =>
          some { s with writer := .exited, chan := [], discarded := s.discarded ++ s.chan }
      | _ => none
  | _ => none

/-- One step of `shutdown` on an initialized engine. -/
def shutdownStep (s : Pipeline) (c : Nat) : Action → Option Pipeline
  | .swapFlag _ =>
      if s.calls c = .idle then
        if s.flag then some (s.setCall c (.returned false))
        else some ({ s with flag := true }.setCall c (.attempt 0))
      else none
  | .sendShutdown _ =>
      match s.calls c with
      | .attempt k =>
          if s.writer = .exited then some (s.setCall c (.join true))
          else if s.chan.length < cfg.channelCapacity then
            some ((s.push .shutdown).setCall c (.join true))
          else if k + 1 < shutdownAttempts then some (s.setCall c (.attempt (k + 1)))
          else some (s.setCall c (.join false))
      | _ => none
  | .joined _ =>
      match s.calls c with
      | .join _ => if s.writer = .exited then some (s.setCall c .finishing) else none
      | _ => none
  | .finish _ =>
      if s.calls c = .finishing then some (s.setCall c (.returned true)) else none
  | _ => none

def step (s : Pipeline) (a : Action) : Option Pipeline :=
  match a with
  | .loadFlag r | .updatePrometheus r | .trySend r | .countDropped r => recordStep cfg s r a
  | .blockingRecv | .tryRecv | .insert | .flushed | .exit => writerStep cfg s a
  | .swapFlag c | .sendShutdown c | .joined c | .finish c => shutdownStep cfg s c a

/-! ## What a step can do -/

/-- Every branch of a step with its guard and its effect. -/
inductive Step (s : Pipeline) : Action → Pipeline → Prop
  | skip {r : Nat} (hpc : s.records r = .idle) (hflag : s.flag = true) :
      Step s (.loadFlag r) (s.setRecord r .skipped)
  | pass {r : Nat} (hpc : s.records r = .idle) (hflag : s.flag = false) :
      Step s (.loadFlag r) (s.setRecord r .passed)
  | update {r : Nat} (hpc : s.records r = .passed) :
      Step s (.updatePrometheus r) (s.setRecord r .updated)
  | send {r : Nat} (hpc : s.records r = .updated) (haccepts : s.accepts cfg = true) :
      Step s (.trySend r) ((s.push (.metric r)).setRecord r .sent)
  | refuse {r : Nat} (hpc : s.records r = .updated) (haccepts : s.accepts cfg = false) :
      Step s (.trySend r) (s.setRecord r .refused)
  | countDrop {r : Nat} (hpc : s.records r = .refused) :
      Step s (.countDropped r) ({ s with dropped := s.dropped ++ [r] }.setRecord r .dropped)
  | recvMetric {e : Nat} {rest : List (PipelineMsg Nat)} (hpc : s.writer = .recv)
      (hchan : s.chan = .metric e :: rest) :
      Step s .blockingRecv { s with writer := .drain [e], chan := rest }
  | recvShutdown {rest : List (PipelineMsg Nat)} (hpc : s.writer = .recv)
      (hchan : s.chan = .shutdown :: rest) :
      Step s .blockingRecv { s with writer := .persist, chan := rest }
  | drainMetric {batch : List Nat} {e : Nat} {rest : List (PipelineMsg Nat)}
      (hpc : s.writer = .drain batch) (hroom : batch.length < cfg.batchRows)
      (hchan : s.chan = .metric e :: rest) :
      Step s .tryRecv { s with writer := .drain (batch ++ [e]), chan := rest }
  | drainShutdown {batch : List Nat} {rest : List (PipelineMsg Nat)}
      (hpc : s.writer = .drain batch) (hroom : batch.length < cfg.batchRows)
      (hchan : s.chan = .shutdown :: rest) :
      Step s .tryRecv { s with writer := .flush batch true, chan := rest }
  | drainEnd {batch : List Nat} (hpc : s.writer = .drain batch)
      (hend : batch.length < cfg.batchRows → s.chan = []) :
      Step s .tryRecv { s with writer := .flush batch false }
  | insert {e : Nat} {todo : List Nat} {stop : Bool}
      (hpc : s.writer = .flush (e :: todo) stop) :
      Step s .insert { s with
        writer := .flush todo stop
        seq := s.seq + 1
        inserted := s.inserted ++ [(s.seq, e)] }
  | flushed {stop : Bool} (hpc : s.writer = .flush [] stop) :
      Step s .flushed { s with writer := if stop then .persist else .recv }
  | exit (hpc : s.writer = .persist) :
      Step s .exit
        { s with writer := .exited, chan := [], discarded := s.discarded ++ s.chan }
  | perform {c : Nat} (hpc : s.calls c = .idle) (hflag : s.flag = false) :
      Step s (.swapFlag c) ({ s with flag := true }.setCall c (.attempt 0))
  | returnEarly {c : Nat} (hpc : s.calls c = .idle) (hflag : s.flag = true) :
      Step s (.swapFlag c) (s.setCall c (.returned false))
  | findClosed {c k : Nat} (hpc : s.calls c = .attempt k) (hclosed : s.writer = .exited) :
      Step s (.sendShutdown c) (s.setCall c (.join true))
  | deliver {c k : Nat} (hpc : s.calls c = .attempt k) (hopen : s.writer ≠ .exited)
      (hroom : s.chan.length < cfg.channelCapacity) :
      Step s (.sendShutdown c)
        ((s.push .shutdown).setCall c (.join true))
  | retry {c k : Nat} (hpc : s.calls c = .attempt k) (hopen : s.writer ≠ .exited)
      (hfull : ¬ s.chan.length < cfg.channelCapacity) (hmore : k + 1 < shutdownAttempts) :
      Step s (.sendShutdown c) (s.setCall c (.attempt (k + 1)))
  | giveUp {c k : Nat} (hpc : s.calls c = .attempt k) (hopen : s.writer ≠ .exited)
      (hfull : ¬ s.chan.length < cfg.channelCapacity) (hlast : ¬ k + 1 < shutdownAttempts) :
      Step s (.sendShutdown c) (s.setCall c (.join false))
  | joined {c : Nat} {delivered : Bool} (hpc : s.calls c = .join delivered)
      (hexited : s.writer = .exited) :
      Step s (.joined c) (s.setCall c .finishing)
  | finish {c : Nat} (hpc : s.calls c = .finishing) :
      Step s (.finish c) (s.setCall c (.returned true))

variable {cfg} {s t : Pipeline}

theorem recordStep_cases {r : Nat} {a : Action}
    (ha : a = .loadFlag r ∨ a = .updatePrometheus r ∨ a = .trySend r ∨ a = .countDropped r)
    (h : recordStep cfg s r a = some t) : Step cfg s a t := by
  rcases ha with rfl | rfl | rfl | rfl
  · by_cases hpc : s.records r = .idle
    · cases hflag : s.flag <;>
        simp only [recordStep, hpc, hflag, if_true, Bool.false_eq_true, if_false,
          Option.some.injEq] at h <;> subst h
      · exact .pass hpc hflag
      · exact .skip hpc hflag
    · simp [recordStep, hpc] at h
  · by_cases hpc : s.records r = .passed
    · simp only [recordStep, hpc, if_true, Option.some.injEq] at h
      subst h
      exact .update hpc
    · simp [recordStep, hpc] at h
  · by_cases hpc : s.records r = .updated
    · cases haccepts : s.accepts cfg <;>
        simp only [recordStep, hpc, haccepts, if_true, Bool.false_eq_true, if_false,
          Option.some.injEq] at h <;> subst h
      · exact .refuse hpc haccepts
      · exact .send hpc haccepts
    · simp [recordStep, hpc] at h
  · by_cases hpc : s.records r = .refused
    · simp only [recordStep, hpc, if_true, Option.some.injEq] at h
      subst h
      exact .countDrop hpc
    · simp [recordStep, hpc] at h

theorem writerStep_cases {a : Action} (h : writerStep cfg s a = some t) : Step cfg s a t := by
  cases a with
  | blockingRecv =>
      simp only [writerStep] at h
      split at h
      · obtain rfl := Option.some.inj h
        exact .recvMetric ‹_› ‹_›
      · obtain rfl := Option.some.inj h
        exact .recvShutdown ‹_› ‹_›
      · contradiction
  | tryRecv =>
      simp only [writerStep] at h
      split at h
      · rename_i batch hpc
        by_cases hroom : batch.length < cfg.batchRows
        · rw [if_pos hroom] at h
          split at h
          · obtain rfl := Option.some.inj h
            exact .drainMetric hpc hroom ‹_›
          · obtain rfl := Option.some.inj h
            exact .drainShutdown hpc hroom ‹_›
          · obtain rfl := Option.some.inj h
            exact .drainEnd hpc fun _ => ‹_›
        · rw [if_neg hroom] at h
          obtain rfl := Option.some.inj h
          exact .drainEnd hpc fun hlt => absurd hlt hroom
      · contradiction
  | insert =>
      simp only [writerStep] at h
      split at h
      · obtain rfl := Option.some.inj h
        exact .insert ‹_›
      · contradiction
  | flushed =>
      simp only [writerStep] at h
      split at h
      · obtain rfl := Option.some.inj h
        exact .flushed ‹_›
      · contradiction
  | exit =>
      simp only [writerStep] at h
      split at h
      · obtain rfl := Option.some.inj h
        exact .exit ‹_›
      · contradiction
  | _ => simp [writerStep] at h

theorem shutdownStep_cases {c : Nat} {a : Action}
    (ha : a = .swapFlag c ∨ a = .sendShutdown c ∨ a = .joined c ∨ a = .finish c)
    (h : shutdownStep cfg s c a = some t) : Step cfg s a t := by
  rcases ha with rfl | rfl | rfl | rfl
  · by_cases hpc : s.calls c = .idle
    · cases hflag : s.flag <;>
        simp only [shutdownStep, hpc, hflag, if_true, Bool.false_eq_true, if_false,
          Option.some.injEq] at h <;> subst h
      · exact .perform hpc hflag
      · exact .returnEarly hpc hflag
    · simp [shutdownStep, hpc] at h
  · simp only [shutdownStep] at h
    split at h
    · rename_i k hpc
      by_cases hclosed : s.writer = .exited
      · rw [if_pos hclosed] at h
        obtain rfl := Option.some.inj h
        exact .findClosed hpc hclosed
      · rw [if_neg hclosed] at h
        by_cases hroom : s.chan.length < cfg.channelCapacity
        · rw [if_pos hroom] at h
          obtain rfl := Option.some.inj h
          exact .deliver hpc hclosed hroom
        · rw [if_neg hroom] at h
          by_cases hmore : k + 1 < shutdownAttempts
          · rw [if_pos hmore] at h
            obtain rfl := Option.some.inj h
            exact .retry hpc hclosed hroom hmore
          · rw [if_neg hmore] at h
            obtain rfl := Option.some.inj h
            exact .giveUp hpc hclosed hroom hmore
    · contradiction
  · simp only [shutdownStep] at h
    split at h
    · by_cases hexited : s.writer = .exited
      · rw [if_pos hexited] at h
        obtain rfl := Option.some.inj h
        exact .joined ‹_› hexited
      · rw [if_neg hexited] at h
        contradiction
    · contradiction
  · by_cases hpc : s.calls c = .finishing
    · simp only [shutdownStep, hpc, if_true, Option.some.injEq] at h
      subst h
      exact .finish hpc
    · simp [shutdownStep, hpc] at h

/-- Inversion: an enabled action is one of the branches. -/
theorem step_cases {a : Action} (h : step cfg s a = some t) : Step cfg s a t := by
  cases a with
  | loadFlag r => exact recordStep_cases (by simp) h
  | updatePrometheus r => exact recordStep_cases (by simp) h
  | trySend r => exact recordStep_cases (by simp) h
  | countDropped r => exact recordStep_cases (by simp) h
  | blockingRecv => exact writerStep_cases h
  | tryRecv => exact writerStep_cases h
  | insert => exact writerStep_cases h
  | flushed => exact writerStep_cases h
  | exit => exact writerStep_cases h
  | swapFlag c => exact shutdownStep_cases (by simp) h
  | sendShutdown c => exact shutdownStep_cases (by simp) h
  | joined c => exact shutdownStep_cases (by simp) h
  | finish c => exact shutdownStep_cases (by simp) h

end

end Tonggeret.Engine
