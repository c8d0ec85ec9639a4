import Tonggeret.Engine.Fifo
import Tonggeret.Engine.JoinSafety

/-!
# The writer stops at the sentinel

Once a sentinel is sent, nothing that the other parties do keeps the writer from its exit:
it always has a step to take, the number of its steps is bounded, and by then it has
inserted exactly the samples sent before the sentinel.
-/

namespace Tonggeret.Engine

open Tonggeret.Lib

/-- The samples in the channel before the first sentinel. -/
def ahead : List (PipelineMsg Nat) → List Nat
  | .metric e :: rest => e :: ahead rest
  | _ => []

def isWriterStep : Action → Bool
  | .blockingRecv | .tryRecv | .insert | .flushed | .exit => true
  | _ => false

/-- A bound on the writer's steps up to its exit, when a sentinel is sent: receive and
insert each sample ahead, leave and flush its burst, and receive the sentinel. -/
def work (s : Pipeline) : Nat :=
  match s.writer with
  | .recv => 4 * (ahead s.chan).length + 2
  | .drain batch => 4 * (ahead s.chan).length + batch.length + 4
  | .flush todo false => 4 * (ahead s.chan).length + todo.length + 3
  | .flush todo true => todo.length + 2
  | .persist => 1
  | .exited => 0

/-- The samples that are inserted by the writer's exit. -/
def due (s : Pipeline) : List Nat :=
  s.inserted.map Prod.snd ++ held s.writer ++
    if stopping s.writer then [] else ahead s.chan

theorem ahead_of_unsent {chan : List (PipelineMsg Nat)} (h : .shutdown ∉ chan)
    (behind : List (PipelineMsg Nat)) :
    ahead (chan ++ .shutdown :: behind) = metricsOf chan := by
  induction chan with
  | nil => rfl
  | cons msg chan ih =>
      cases msg with
      | metric e =>
          rw [List.cons_append, ahead, metricsOf_cons_metric,
            ih fun hmem => h (List.mem_cons_of_mem _ hmem)]
      | shutdown => exact absurd List.mem_cons_self h

/-- What is sent behind a sentinel is not ahead. -/
theorem ahead_append {chan : List (PipelineMsg Nat)} (h : .shutdown ∈ chan)
    (behind : List (PipelineMsg Nat)) : ahead (chan ++ behind) = ahead chan := by
  induction chan with
  | nil => exact absurd h List.not_mem_nil
  | cons msg chan ih =>
      cases msg with
      | metric e =>
          have hrest : .shutdown ∈ chan := by
            simpa using h
          rw [List.cons_append, ahead, ih hrest, ahead]
      | shutdown => rfl

theorem length_ahead_le (chan : List (PipelineMsg Nat)) :
    (ahead chan).length ≤ chan.length := by
  induction chan with
  | nil => exact Nat.zero_le _
  | cons msg chan ih =>
      cases msg with
      | metric e => exact Nat.succ_le_succ ih
      | shutdown => exact Nat.zero_le _

section

variable {cfg : PipelineConfig} {s t u : Pipeline}

/-- A message pushed behind a sentinel changes neither the work nor what is due. -/
theorem push_behind (h : s.SentinelSent) (msg : PipelineMsg Nat) :
    (s.push msg).SentinelSent ∧ work (s.push msg) = work s ∧ due (s.push msg) = due s := by
  rcases h with hmem | hstop
  · refine ⟨Or.inl (List.mem_append_left _ hmem), ?_, ?_⟩
    · simp only [work, Pipeline.writer_push, Pipeline.chan_push, ahead_append hmem]
    · simp only [due, Pipeline.writer_push, Pipeline.chan_push, ahead_append hmem]
      rfl
  · refine ⟨Or.inr hstop, ?_, ?_⟩
    · cases hpc : s.writer with
      | flush todo stop =>
          rw [hpc, stopping] at hstop
          rw [work, work, Pipeline.writer_push, hpc, hstop]
      | persist => rw [work, work, Pipeline.writer_push, hpc]
      | exited => rw [work, work, Pipeline.writer_push, hpc]
      | _ =>
          rw [hpc] at hstop
          contradiction
    · simp only [due, Pipeline.writer_push, hstop, if_true]
      rfl

/-- The writer comes nearer to its exit by each of its steps, and by no other step away
from it; what is due by then stays the same. -/
theorem work_step {a : Action} (h : s.SentinelSent) (hstep : step cfg s a = some t) :
    t.SentinelSent ∧ due t = due s ∧
      work t + (if isWriterStep a = true then 1 else 0) ≤ work s := by
  have hqueued : stopping s.writer = false → .shutdown ∈ s.chan := by
    intro hstop
    rcases h with hmem | hstopping
    · exact hmem
    · rw [hstop] at hstopping
      contradiction
  cases step_cases hstep with
  | @send r hpc haccepts =>
      obtain ⟨hsent, hwork, hdue⟩ := push_behind h (.metric r)
      exact ⟨hsent, hdue, hwork.le⟩
  | deliver hpc hopen hroom =>
      obtain ⟨hsent, hwork, hdue⟩ := push_behind h .shutdown
      exact ⟨hsent, hdue, hwork.le⟩
  | recvMetric hpc hchan =>
      have hmem := hqueued (by rw [hpc]; rfl)
      rw [hchan] at hmem
      refine ⟨Or.inl (by simpa using hmem), ?_, ?_⟩
      · simp [due, hpc, hchan, held, stopping, ahead]
      · simp only [work, hpc, hchan, ahead, isWriterStep, List.length_cons, List.length_nil,
          if_true]
        omega
  | recvShutdown hpc hchan =>
      refine ⟨Or.inr rfl, ?_, ?_⟩
      · simp [due, hpc, hchan, held, stopping, ahead]
      · simp [work, hpc, isWriterStep]
  | drainMetric hpc hroom hchan =>
      have hmem := hqueued (by rw [hpc]; rfl)
      rw [hchan] at hmem
      refine ⟨Or.inl (by simpa using hmem), ?_, ?_⟩
      · simp [due, hpc, hchan, held, stopping, ahead]
      · simp only [work, hpc, hchan, ahead, isWriterStep, List.length_cons, List.length_append,
          List.length_nil, if_true]
        omega
  | drainShutdown hpc hroom hchan =>
      refine ⟨Or.inr rfl, ?_, ?_⟩
      · simp [due, hpc, hchan, held, stopping, ahead]
      · simp only [work, hpc, hchan, ahead, isWriterStep, List.length_nil, if_true]
        omega
  | drainEnd hpc hend =>
      refine ⟨Or.inl (hqueued (by rw [hpc]; rfl)), ?_, ?_⟩
      · simp [due, hpc, held, stopping]
      · simp only [work, hpc, isWriterStep, if_true]
        omega
  | @insert r todo stop hpc =>
      refine ⟨?_, ?_, ?_⟩
      · rcases h with hmem | hstopping
        · exact Or.inl hmem
        · rw [hpc] at hstopping
          exact Or.inr hstopping
      · cases stop <;> simp [due, hpc, held, stopping]
      · cases stop <;> simp only [work, hpc, isWriterStep, List.length_cons, if_true] <;> omega
  | @flushed stop hpc =>
      cases stop with
      | true =>
          refine ⟨Or.inr rfl, ?_, ?_⟩
          · simp [due, hpc, held, stopping]
          · simp [work, hpc, isWriterStep]
      | false =>
          refine ⟨Or.inl (hqueued (by rw [hpc]; rfl)), ?_, ?_⟩
          · simp [due, hpc, held, stopping]
          · simp [work, hpc, isWriterStep]
  | exit hpc =>
      refine ⟨Or.inr rfl, ?_, ?_⟩
      · simp [due, hpc, held, stopping]
      · simp [work, hpc, isWriterStep]
  | _ => exact ⟨h, rfl, le_refl _⟩

/-- The writer is never blocked. -/
theorem exists_writerStep (h : s.SentinelSent) (hrunning : s.writer ≠ .exited) :
    ∃ a, isWriterStep a = true ∧ (step cfg s a).isSome = true := by
  obtain ⟨a, ha, henabled⟩ := @writer_enabled cfg s h hrunning
  refine ⟨a, ?_, henabled⟩
  simp only [List.mem_cons, List.not_mem_nil, or_false] at ha
  rcases ha with rfl | rfl | rfl | rfl | rfl <;> rfl

theorem writer_run {actions : List Action} (hsent : s.SentinelSent)
    (h : exec (step cfg) s actions = some t) :
    t.SentinelSent ∧ due t = due s ∧ work t + actions.countP isWriterStep ≤ work s := by
  have hkeep : ∀ x a y, x.SentinelSent ∧ due x = due s → step cfg x a = some y →
      (y.SentinelSent ∧ due y = due s) ∧
        work y + (if isWriterStep a = true then 1 else 0) ≤ work x := by
    rintro x a y ⟨hx, hdue⟩ hstep
    obtain ⟨hy, hsame, hwork⟩ := work_step hx hstep
    exact ⟨⟨hy, hsame.trans hdue⟩, hwork⟩
  obtain ⟨⟨ht, hdue⟩, hwork⟩ := exec_rank hkeep h ⟨hsent, rfl⟩
  exact ⟨ht, hdue, hwork⟩

theorem work_le {sent : List Nat} (h : InOrder cfg sent s) :
    work s ≤ 4 * cfg.channelCapacity + max 1 cfg.batchRows + 4 := by
  have hahead := (length_ahead_le s.chan).trans h.room
  have hbatch := h.batch
  cases hpc : s.writer with
  | flush todo stop =>
      rw [hpc, held] at hbatch
      cases stop <;> simp only [work, hpc] <;> omega
  | drain batch =>
      rw [hpc, held] at hbatch
      simp only [work, hpc]
      omega
  | _ =>
      simp only [work, hpc]
      omega

/-- The first sentinel enters the channel. -/
theorem due_of_first_sentinel {sent : List Nat} {c : Nat} (horder : InOrder cfg sent s)
    (hunsent : ¬ s.SentinelSent) (hsend : step cfg s (.sendShutdown c) = some u)
    (hsent : u.SentinelSent) : due u = sent := by
  have hstop : stopping s.writer = false := Bool.eq_false_iff.mpr fun h => hunsent (Or.inr h)
  have hrunning : s.writer ≠ .exited := by
    intro hpc
    rw [hpc] at hstop
    contradiction
  cases step_cases hsend with
  | findClosed hpc hclosed => exact absurd hclosed hrunning
  | deliver hpc hopen hroom =>
      have hahead : ahead (s.chan ++ [.shutdown]) = metricsOf s.chan :=
        ahead_of_unsent (fun hmem => hunsent (Or.inl hmem)) []
      have hdiscarded : metricsOf s.discarded = [] := by
        rw [horder.kept hrunning]
        rfl
      rw [horder.order, hdiscarded, List.append_nil, due]
      simp only [Pipeline.writer_setCall, Pipeline.chan_setCall, Pipeline.writer_push,
        Pipeline.chan_push, hstop, hahead]
      rfl
  | retry => exact absurd hsent hunsent
  | giveUp => exact absurd hsent hunsent

/-- The first sentinel cuts the run: after it the writer takes at most
`4 * channel_capacity + max(1, batch_rows) + 4` steps, has one to take until it exits,
whatever the other parties do, and exits when exactly the samples sent before the
sentinel are inserted, in order, and all sent after it discarded. -/
theorem sentinel_cuts {before after : List Action} {c : Nat}
    (hbefore : exec (step cfg) Pipeline.init before = some s) (hunsent : ¬ s.SentinelSent)
    (hsend : step cfg s (.sendShutdown c) = some u) (hsent : u.SentinelSent)
    (hafter : exec (step cfg) u after = some t) :
    after.countP isWriterStep ≤ 4 * cfg.channelCapacity + max 1 cfg.batchRows + 4 ∧
    (t.writer ≠ .exited → ∃ a, isWriterStep a = true ∧ (step cfg t a).isSome = true) ∧
    (t.writer = .exited →
      t.inserted.map Prod.snd = transcript (step cfg) (sends cfg) Pipeline.init before ∧
      metricsOf t.discarded = transcript (step cfg) (sends cfg) u after) := by
  have horder := inOrder_run hbefore
  obtain ⟨hsent', hdue, hwork⟩ := writer_run hsent hafter
  refine ⟨?_, exists_writerStep hsent', fun hexited => ?_⟩
  · have hbound := work_le (inOrder_step horder hsend)
    omega
  · have hrest : exec (step cfg) s (.sendShutdown c :: after) = some t := by
      rw [exec, hsend]
      exact hafter
    have hwhole : exec (step cfg) Pipeline.init (before ++ .sendShutdown c :: after) = some t := by
      rw [exec_append hbefore, hrest]
    have hsplit : transcript (step cfg) (sends cfg) Pipeline.init
        (before ++ .sendShutdown c :: after) = _ := transcript_append hbefore _
    have htail : transcript (step cfg) (sends cfg) s (.sendShutdown c :: after) =
        transcript (step cfg) (sends cfg) u after := by
      rw [transcript, hsend]
      rfl
    have hall := inOrder_run hwhole
    have hinserted : t.inserted.map Prod.snd =
        transcript (step cfg) (sends cfg) Pipeline.init before := by
      rw [← due_of_first_sentinel horder hunsent hsend hsent, ← hdue, due, hexited]
      simp [held, stopping]
    have hplaces := hall.order
    rw [hsplit, htail, hinserted, hexited, hall.closed hexited, List.append_assoc,
      List.append_assoc] at hplaces
    exact ⟨hinserted, (List.append_cancel_left hplaces).symm⟩

end

/-- One sample is sent before the sentinel and one after it. -/
def beforeSentinel : List Action :=
  [.loadFlag 0, .loadFlag 1, .updatePrometheus 0, .trySend 0, .swapFlag 0]

def afterSentinel : List Action :=
  [.updatePrometheus 1, .trySend 1, .blockingRecv, .tryRecv, .insert, .flushed, .exit]

theorem sentinel_cuts_small :
    ∃ s u t, exec (step smallPipeline) Pipeline.init beforeSentinel = some s ∧
      step smallPipeline s (.sendShutdown 0) = some u ∧
      exec (step smallPipeline) u afterSentinel = some t ∧
      t.inserted.map Prod.snd = [0] ∧ metricsOf t.discarded = [1] := by
  refine ⟨_, _, _, rfl, rfl, rfl, ?_⟩
  refine (@sentinel_cuts smallPipeline _ _ _ beforeSentinel afterSentinel 0 rfl ?_ rfl ?_
    rfl).2.2 rfl
  · rintro (hmem | hstop)
    · exact absurd hmem (by decide)
    · contradiction
  · exact Or.inl (by decide)

end Tonggeret.Engine
