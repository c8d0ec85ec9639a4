import Mathlib.Data.List.Count
import Tonggeret.Engine.Pipeline

/-!
# Where a sample is

A sample that passed the flag check is to be inserted once or counted as dropped
once.  The ledger below follows it through the channel and the writer's hands.  Two
kinds of steps break it: a send behind the sentinel, and a shutdown call that
returns while another one is still draining.
-/

namespace Tonggeret.Engine

open Tonggeret.Lib

/-- The samples in the channel, in order. -/
def metricsOf (chan : List (PipelineMsg Nat)) : List Nat :=
  chan.filterMap fun
    | .metric e => some e
    | .shutdown => none

/-- The samples the writer has received and not inserted yet. -/
def held : WriterPc → List Nat
  | .drain batch => batch
  | .flush todo _ => todo
  | _ => []

/-- The writer has received a sentinel. -/
def stopping : WriterPc → Bool
  | .flush _ stop => stop
  | .persist => true
  | .exited => true
  | _ => false

namespace Pipeline

def SentinelSent (s : Pipeline) : Prop := .shutdown ∈ s.chan ∨ stopping s.writer = true

/-- No sample is in the channel or in the writer's hands. -/
def Settled (s : Pipeline) : Prop := metricsOf s.chan = [] ∧ held s.writer = []

def ShutdownReturned (s : Pipeline) : Prop := ∃ c performed, s.calls c = .returned performed

/-- The sample's record call passed the flag check. -/
def PassedCheck (s : Pipeline) (r : Nat) : Prop :=
  s.records r ≠ .idle ∧ s.records r ≠ .skipped

def InProgress (s : Pipeline) (r : Nat) : Prop :=
  s.records r = .passed ∨ s.records r = .updated ∨ s.records r = .refused

/-- How often the sample was passed to an insert. -/
def insertCount (s : Pipeline) (r : Nat) : Nat := (s.inserted.map Prod.snd).count r

/-- Once a shutdown has returned and no record call is in progress, every sample that
passed the check was inserted exactly once or dropped exactly once. -/
def NoSilentLoss (s : Pipeline) : Prop :=
  s.ShutdownReturned → (∀ r, ¬ s.InProgress r) → ∀ r, s.PassedCheck r →
    s.insertCount r = 1 ∧ s.dropped.count r = 0 ∨
    s.insertCount r = 0 ∧ s.dropped.count r = 1

end Pipeline

/-- The two conditions: a sample is sent before the sentinel and before any shutdown
has returned, and a shutdown call returns early only when no sample is underway. -/
def Permitted (cfg : PipelineConfig) (s : Pipeline) : Action → Prop
  | .trySend _ => s.accepts cfg = true → ¬ s.SentinelSent ∧ ¬ s.ShutdownReturned
  | .swapFlag _ => s.flag = true → s.Settled
  | _ => True

/-! ## Messages behind a sentinel -/

/-- No sample stands behind a sentinel. -/
def SealedChan (chan : List (PipelineMsg Nat)) : Prop :=
  ∀ pre post, chan = pre ++ .shutdown :: post → metricsOf post = []

@[simp] theorem metricsOf_nil : metricsOf [] = [] := rfl

@[simp] theorem metricsOf_cons_metric (e : Nat) (chan : List (PipelineMsg Nat)) :
    metricsOf (.metric e :: chan) = e :: metricsOf chan := rfl

@[simp] theorem metricsOf_cons_shutdown (chan : List (PipelineMsg Nat)) :
    metricsOf (.shutdown :: chan) = metricsOf chan := rfl

@[simp] theorem metricsOf_append (l r : List (PipelineMsg Nat)) :
    metricsOf (l ++ r) = metricsOf l ++ metricsOf r := List.filterMap_append

theorem SealedChan.tail {msg : PipelineMsg Nat} {chan : List (PipelineMsg Nat)}
    (h : SealedChan (msg :: chan)) : SealedChan chan := by
  intro pre post hsplit
  exact h (msg :: pre) post (by rw [hsplit, List.cons_append])

theorem SealedChan.behind {chan : List (PipelineMsg Nat)}
    (h : SealedChan (.shutdown :: chan)) : metricsOf chan = [] :=
  h [] chan rfl

theorem SealedChan.push_metric {chan : List (PipelineMsg Nat)} (h : .shutdown ∉ chan)
    (e : Nat) : SealedChan (chan ++ [.metric e]) := by
  intro pre post hsplit
  have hmem : PipelineMsg.shutdown ∈ chan ++ [.metric e] := by
    rw [hsplit]
    simp
  have hchan : PipelineMsg.shutdown ∈ chan := by simpa using hmem
  contradiction

theorem SealedChan.push_shutdown {chan : List (PipelineMsg Nat)} (h : SealedChan chan) :
    SealedChan (chan ++ [.shutdown]) := by
  intro pre post hsplit
  rcases List.eq_nil_or_concat post with rfl | ⟨init, last, rfl⟩
  · rfl
  · rw [List.concat_eq_append] at hsplit ⊢
    have hinit : chan = pre ++ .shutdown :: init ∧ [PipelineMsg.shutdown] = [last] := by
      apply List.append_inj'
      · simpa using hsplit
      · rfl
    obtain ⟨hchan, hlast⟩ := hinit
    rw [metricsOf_append, h pre init hchan, ← hlast]
    rfl

/-! ## The ledger -/

/-- Each sent sample is in exactly one place, each dropped one is counted once, and
nothing is sent once the outcome is decided. -/
structure Accounted (s : Pipeline) : Prop where
  sentOnce : ∀ r, (metricsOf s.chan).count r + (held s.writer).count r + s.insertCount r =
    if s.records r = .sent then 1 else 0
  droppedOnce : ∀ r, s.dropped.count r = if s.records r = .dropped then 1 else 0
  sealed : SealedChan s.chan
  stopped : stopping s.writer = true → metricsOf s.chan = []
  settled : s.ShutdownReturned → s.Settled
  finishing : ∀ c, s.calls c = .finishing → s.writer = .exited

theorem accounted_init : Accounted Pipeline.init := by
  refine ⟨fun _ => rfl, fun _ => rfl, ?_, fun _ => rfl, ?_, fun _ h => by contradiction⟩
  · intro pre post h
    simp [Pipeline.init] at h
  · exact fun _ => ⟨rfl, rfl⟩

section

variable {cfg : PipelineConfig} {s t : Pipeline}

/-- A call that neither was at `q` nor gets there changes nobody's being at `q`. -/
theorem Pipeline.records_setRecord_iff {r : Nat} {pc q : RecordPc}
    (hold : s.records r ≠ q) (hnew : pc ≠ q) (x : Nat) :
    (s.setRecord r pc).records x = q ↔ s.records x = q := by
  rw [Pipeline.records_setRecord]
  by_cases hx : x = r
  · rw [if_pos hx, hx]
    exact iff_of_false hnew hold
  · rw [if_neg hx]

/-- A record call that moves between two states in which it is neither sent nor
dropped. -/
theorem Accounted.setRecord (h : Accounted s) {r : Nat} {pc : RecordPc}
    (hold : s.records r ≠ .sent ∧ s.records r ≠ .dropped)
    (hnew : pc ≠ .sent ∧ pc ≠ .dropped) : Accounted (s.setRecord r pc) where
  sentOnce := by
    intro x
    simp only [Pipeline.records_setRecord_iff hold.1 hnew.1]
    exact h.sentOnce x
  droppedOnce := by
    intro x
    simp only [Pipeline.records_setRecord_iff hold.2 hnew.2]
    exact h.droppedOnce x
  sealed := h.sealed
  stopped := h.stopped
  settled := h.settled
  finishing := h.finishing

theorem Accounted.send (h : Accounted s) {r : Nat} (hpc : s.records r = .updated)
    (hunsent : ¬ s.SentinelSent) (hunreturned : ¬ s.ShutdownReturned) :
    Accounted ((s.push (.metric r)).setRecord r .sent) where
  sentOnce := by
    intro x
    have hx := h.sentOnce x
    have hcount : (metricsOf (s.chan ++ [.metric r])).count x =
        (metricsOf s.chan).count x + if r = x then 1 else 0 := by
      simp [List.count_singleton]
    change (metricsOf (s.chan ++ [.metric r])).count x + _ + s.insertCount x = _
    rw [hcount, Pipeline.records_setRecord]
    by_cases hxr : x = r
    · subst hxr
      simp only [hpc, reduceCtorEq, if_false] at hx
      simp only [if_true, Pipeline.writer_setRecord, Pipeline.writer_push]
      omega
    · have hne : r ≠ x := fun heq => hxr heq.symm
      rw [if_neg hne, if_neg hxr]
      exact hx
  droppedOnce := by
    intro x
    have hold : (s.push (.metric r)).records r ≠ .dropped := by
      change s.records r ≠ .dropped
      simp [hpc]
    have hnew : RecordPc.sent ≠ .dropped := RecordPc.noConfusion
    simp only [Pipeline.records_setRecord_iff hold hnew]
    exact h.droppedOnce x
  sealed := SealedChan.push_metric (fun hmem => hunsent (Or.inl hmem)) r
  stopped := fun hstop => absurd (Or.inr hstop) hunsent
  settled := fun hreturned => absurd hreturned hunreturned
  finishing := h.finishing

theorem Accounted.countDrop (h : Accounted s) {r : Nat} (hpc : s.records r = .refused) :
    Accounted ({ s with dropped := s.dropped ++ [r] }.setRecord r .dropped) where
  sentOnce := by
    intro x
    have hold : ({ s with dropped := s.dropped ++ [r] } : Pipeline).records r ≠ .sent := by
      change s.records r ≠ .sent
      simp [hpc]
    have hnew : RecordPc.dropped ≠ .sent := RecordPc.noConfusion
    simp only [Pipeline.records_setRecord_iff hold hnew]
    exact h.sentOnce x
  droppedOnce := by
    intro x
    have hx := h.droppedOnce x
    rw [Pipeline.records_setRecord]
    by_cases hxr : x = r
    · subst hxr
      simp only [hpc, reduceCtorEq, if_false] at hx
      simp [List.count_append, hx]
    · have hne : r ≠ x := fun heq => hxr heq.symm
      rw [if_neg hxr]
      simpa [List.count_append, List.count_singleton, hne] using hx
  sealed := h.sealed
  stopped := h.stopped
  settled := h.settled
  finishing := h.finishing

/-- A step of the writer: the samples only change hands in order. -/
theorem Accounted.writerStep (h : Accounted s) {writer : WriterPc}
    {chan : List (PipelineMsg Nat)} {inserted : List (UInt32 × Nat)} {seq : UInt32}
    {discarded : List (PipelineMsg Nat)}
    (hmoved : ∀ x, (metricsOf chan).count x + (held writer).count x +
        (inserted.map Prod.snd).count x =
      (metricsOf s.chan).count x + (held s.writer).count x + s.insertCount x)
    (hsealed : SealedChan chan) (hstopped : stopping writer = true → metricsOf chan = [])
    (hsettled : s.Settled → metricsOf chan = [] ∧ held writer = [])
    (hexited : s.writer = .exited → writer = .exited) :
    Accounted { s with writer, chan, inserted, seq, discarded } where
  sentOnce := fun x => (hmoved x).trans (h.sentOnce x)
  droppedOnce := h.droppedOnce
  sealed := hsealed
  stopped := hstopped
  settled := fun hreturned => hsettled (h.settled hreturned)
  finishing := fun c hc => hexited (h.finishing c hc)

/-- The writer takes a sample from the channel into its hands. -/
theorem Accounted.takeMetric (h : Accounted s) {r : Nat} {rest : List (PipelineMsg Nat)}
    {writer : WriterPc} (hchan : s.chan = .metric r :: rest)
    (hheld : ∀ x, (held writer).count x = (held s.writer).count x + [r].count x)
    (hstop : stopping writer = false) (hrunning : s.writer ≠ .exited) :
    Accounted { s with writer, chan := rest } := by
  have hsealed := h.sealed
  rw [hchan] at hsealed
  apply h.writerStep
  · intro x
    have htaken := hheld x
    simp only [hchan, metricsOf_cons_metric, List.count_cons, List.count_nil,
      Pipeline.insertCount] at htaken ⊢
    omega
  · exact hsealed.tail
  · intro hstopping
    rw [hstop] at hstopping
    contradiction
  · intro hsettled
    simp [Pipeline.Settled, hchan] at hsettled
  · exact fun hexited => absurd hexited hrunning

/-- The writer takes the sentinel; no sample is behind it. -/
theorem Accounted.takeShutdown (h : Accounted s) {rest : List (PipelineMsg Nat)}
    {writer : WriterPc} (hchan : s.chan = .shutdown :: rest)
    (hheld : held writer = held s.writer) (hrunning : s.writer ≠ .exited) :
    Accounted { s with writer, chan := rest } := by
  have hsealed := h.sealed
  rw [hchan] at hsealed
  apply h.writerStep
  · intro x
    rw [hheld, hchan, metricsOf_cons_shutdown]
    rfl
  · exact hsealed.tail
  · exact fun _ => hsealed.behind
  · exact fun hsettled => ⟨hsealed.behind, hheld.trans hsettled.2⟩
  · exact fun hexited => absurd hexited hrunning

/-- A shutdown call that neither returns nor passes the join. -/
theorem Accounted.setCall (h : Accounted s) {c : Nat} {pc : ShutdownPc}
    (hreturned : ∀ performed, pc = .returned performed → s.Settled)
    (hfinishing : pc = .finishing → s.writer = .exited) : Accounted (s.setCall c pc) where
  sentOnce := h.sentOnce
  droppedOnce := h.droppedOnce
  sealed := h.sealed
  stopped := h.stopped
  settled := by
    rintro ⟨x, performed, hx⟩
    rw [Pipeline.calls_setCall] at hx
    by_cases hxc : x = c
    · rw [if_pos hxc] at hx
      exact hreturned performed hx
    · rw [if_neg hxc] at hx
      exact h.settled ⟨x, performed, hx⟩
  finishing := by
    intro x hx
    rw [Pipeline.calls_setCall] at hx
    by_cases hxc : x = c
    · rw [if_pos hxc] at hx
      exact hfinishing hx
    · rw [if_neg hxc] at hx
      exact h.finishing x hx

/-- Every permitted step keeps the ledger. -/
theorem accounted_step {a : Action} (h : Accounted s) (hok : Permitted cfg s a)
    (hstep : step cfg s a = some t) : Accounted t := by
  cases step_cases hstep with
  | skip hpc _ => exact h.setRecord (by simp [hpc]) (by simp)
  | pass hpc _ => exact h.setRecord (by simp [hpc]) (by simp)
  | update hpc => exact h.setRecord (by simp [hpc]) (by simp)
  | send hpc haccepts =>
      obtain ⟨hunsent, hunreturned⟩ := hok haccepts
      exact h.send hpc hunsent hunreturned
  | refuse hpc _ => exact h.setRecord (by simp [hpc]) (by simp)
  | countDrop hpc => exact h.countDrop hpc
  | recvMetric hpc hchan => exact h.takeMetric hchan (by simp [hpc, held]) rfl (by simp [hpc])
  | recvShutdown hpc hchan => exact h.takeShutdown hchan (by rw [hpc]; rfl) (by simp [hpc])
  | drainMetric hpc hroom hchan =>
      exact h.takeMetric hchan (by simp [hpc, held]) rfl (by simp [hpc])
  | drainShutdown hpc hroom hchan =>
      exact h.takeShutdown hchan (by rw [hpc]; rfl) (by simp [hpc])
  | drainEnd hpc hend =>
      apply h.writerStep
      · intro x
        simp only [hpc, held, Pipeline.insertCount]
      · exact h.sealed
      · intro hstop
        simp [stopping] at hstop
      · intro hsettled
        simpa [Pipeline.Settled, hpc, held] using hsettled
      · intro hexited
        simp [hpc] at hexited
  | insert hpc =>
      apply h.writerStep
      · intro x
        simp only [hpc, held, List.map_append, List.map_cons, List.map_nil,
          List.count_append, List.count_cons, List.count_nil, Pipeline.insertCount]
        omega
      · exact h.sealed
      · intro hstop
        exact h.stopped (by rw [hpc]; exact hstop)
      · intro hsettled
        simp [Pipeline.Settled, hpc, held] at hsettled
      · intro hexited
        simp [hpc] at hexited
  | @flushed stop hpc =>
      have hheld : ∀ b : Bool, held (if b then .persist else .recv) = [] := by
        intro b
        cases b <;> rfl
      have hbatch : held s.writer = [] := by
        rw [hpc]
        rfl
      apply h.writerStep
      · intro x
        rw [hheld, hbatch]
        rfl
      · exact h.sealed
      · intro hstop
        cases stop with
        | true => exact h.stopped (by rw [hpc]; rfl)
        | false => simp [stopping] at hstop
      · intro hsettled
        exact ⟨hsettled.1, hheld stop⟩
      · intro hexited
        simp [hpc] at hexited
  | exit hpc =>
      have hempty : metricsOf s.chan = [] := h.stopped (by rw [hpc]; rfl)
      apply h.writerStep
      · intro x
        simp only [hpc, held, hempty, metricsOf_nil, Pipeline.insertCount]
      · intro pre post hsplit
        simp at hsplit
      · exact fun _ => rfl
      · exact fun _ => ⟨rfl, rfl⟩
      · exact fun _ => rfl
  | perform hpc hflag =>
      have hraised : Accounted { s with flag := true } :=
        ⟨h.sentOnce, h.droppedOnce, h.sealed, h.stopped, h.settled, h.finishing⟩
      exact hraised.setCall (by simp) (by simp)
  | returnEarly hpc hflag => exact h.setCall (fun _ _ => hok hflag) (by simp)
  | findClosed hpc hclosed => exact h.setCall (by simp) (by simp)
  | deliver hpc hopen hroom =>
      have hmetrics : metricsOf (s.chan ++ [.shutdown]) = metricsOf s.chan := by simp
      have hpushed : Accounted (s.push .shutdown) := by
        apply h.writerStep
        · intro x
          rw [hmetrics]
          rfl
        · exact h.sealed.push_shutdown
        · rw [hmetrics]
          exact h.stopped
        · intro hsettled
          exact ⟨hmetrics.trans hsettled.1, hsettled.2⟩
        · exact id
      exact hpushed.setCall (by simp) (by simp)
  | retry hpc hopen hfull hmore => exact h.setCall (by simp) (by simp)
  | giveUp hpc hopen hfull hlast => exact h.setCall (by simp) (by simp)
  | joined hpc hexited => exact h.setCall (by simp) (fun _ => hexited)
  | finish hpc =>
      apply h.setCall _ (by simp)
      intro performed _
      have hexited := h.finishing _ hpc
      exact ⟨h.stopped (by rw [hexited]; rfl), by rw [hexited]; rfl⟩

theorem accounted_of_reaches (h : Reaches (step cfg) (Permitted cfg) Pipeline.init s) :
    Accounted s :=
  h.invariant (fun _ _ _ hinv hok hstep => accounted_step hinv hok hstep) accounted_init

theorem Accounted.noSilentLoss (h : Accounted s) : s.NoSilentLoss := by
  intro hreturned hidle r hpassed
  obtain ⟨hchan, hheld⟩ := h.settled hreturned
  have hsent := h.sentOnce r
  have hdropped := h.droppedOnce r
  rw [hchan, hheld, List.count_nil, Nat.zero_add] at hsent
  have hprogress := hidle r
  cases hpc : s.records r with
  | idle => exact absurd hpc hpassed.1
  | skipped => exact absurd hpc hpassed.2
  | passed => exact absurd (Or.inl hpc) hprogress
  | updated => exact absurd (Or.inr (Or.inl hpc)) hprogress
  | refused => exact absurd (Or.inr (Or.inr hpc)) hprogress
  | sent =>
      rw [hpc] at hsent hdropped
      exact Or.inl ⟨hsent, hdropped⟩
  | dropped =>
      rw [hpc] at hsent hdropped
      exact Or.inr ⟨hsent, hdropped⟩

/-- In every run whose sends come before the sentinel and before any return, and whose
early returns find nothing underway, no sample is lost. -/
theorem no_silent_loss (h : Reaches (step cfg) (Permitted cfg) Pipeline.init s) :
    s.NoSilentLoss :=
  (accounted_of_reaches h).noSilentLoss

end

/-! ## Runs with and without loss -/

def smallPipeline : PipelineConfig := ⟨16, 1000⟩

/-- One sample is recorded, written and flushed by a shutdown. -/
def orderlyRun : List Action :=
  [.loadFlag 0, .updatePrometheus 0, .trySend 0, .swapFlag 0, .sendShutdown 0,
    .blockingRecv, .tryRecv, .insert, .flushed, .exit, .joined 0, .finish 0]

/-- The sample's call passes the check, then the sentinel overtakes it. -/
def overtakenRun : List Action :=
  [.loadFlag 0, .swapFlag 0, .sendShutdown 0, .updatePrometheus 0, .trySend 0,
    .blockingRecv, .exit, .joined 0, .finish 0]

/-- A second shutdown call returns while the sample waits in the channel. -/
def earlyReturnRun : List Action :=
  [.loadFlag 0, .updatePrometheus 0, .trySend 0, .swapFlag 0, .swapFlag 1]

theorem orderly_run_loses_nothing :
    ∃ s, exec (step smallPipeline) Pipeline.init orderlyRun = some s ∧ s.NoSilentLoss := by
  refine ⟨_, rfl, @no_silent_loss smallPipeline _ ?_⟩
  refine .head (a := .loadFlag 0) trivial rfl ?_
  refine .head (a := .updatePrometheus 0) trivial rfl ?_
  refine .head (a := .trySend 0) (fun _ => ⟨?_, ?_⟩) rfl ?_
  · rintro (hmem | hstop)
    · exact List.not_mem_nil hmem
    · exact Bool.noConfusion hstop
  · rintro ⟨c, performed, hc⟩
    exact ShutdownPc.noConfusion hc
  refine .head (a := .swapFlag 0) (fun hflag => Bool.noConfusion hflag) rfl ?_
  refine .head (a := .sendShutdown 0) trivial rfl ?_
  refine .head (a := .blockingRecv) trivial rfl ?_
  refine .head (a := .tryRecv) trivial rfl ?_
  refine .head (a := .insert) trivial rfl ?_
  refine .head (a := .flushed) trivial rfl ?_
  refine .head (a := .exit) trivial rfl ?_
  refine .head (a := .joined 0) trivial rfl ?_
  exact .head (a := .finish 0) trivial rfl (.refl _)

/-- With all calls done and one sample sent, that sample is lost while it is neither
inserted nor dropped. -/
theorem not_noSilentLoss {s : Pipeline} {r : Nat} (hreturned : s.ShutdownReturned)
    (hsent : s.records r = .sent) (hothers : ∀ x, x ≠ r → s.records x = .idle)
    (hinserted : s.insertCount r = 0) (hdropped : s.dropped.count r = 0) :
    ¬ s.NoSilentLoss := by
  intro h
  have hidle : ∀ x, ¬ s.InProgress x := by
    intro x
    by_cases hx : x = r
    · simp [Pipeline.InProgress, hx, hsent]
    · simp [Pipeline.InProgress, hothers x hx]
  have hlost := h hreturned hidle r ⟨by simp [hsent], by simp [hsent]⟩
  omega

/-- Both defects lose a sample: it is neither inserted nor counted as dropped. -/
theorem sample_silently_lost :
    (∃ s, exec (step smallPipeline) Pipeline.init overtakenRun = some s ∧
      ¬ s.NoSilentLoss) ∧
    ∃ s, exec (step smallPipeline) Pipeline.init earlyReturnRun = some s ∧
      ¬ s.NoSilentLoss := by
  have hothers : ∀ a b c x, x ≠ 0 →
      Function.update (Function.update (Function.update (fun _ => RecordPc.idle) 0 a) 0 b)
        0 c x = .idle := by
    intro a b c x hx
    rw [Function.update_of_ne hx, Function.update_of_ne hx, Function.update_of_ne hx]
  constructor
  · exact ⟨_, rfl, not_noSilentLoss ⟨0, true, rfl⟩ rfl (hothers _ _ _) rfl rfl⟩
  · exact ⟨_, rfl, not_noSilentLoss ⟨1, false, rfl⟩ rfl (hothers _ _ _) rfl rfl⟩

end Tonggeret.Engine
