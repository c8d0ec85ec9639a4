import Mathlib.Data.List.Nodup
import Tonggeret.Engine.Accounting

/-!
# The order of the samples

Whatever the interleaving, the channel and the writer keep the samples in the order of
their sends, none twice, and number the inserts one after another.  What is sent and not
inserted is in the writer's hands, in the channel, or was discarded with it; each of the
first two is bounded by the configuration.
-/

namespace Tonggeret.Engine

open Tonggeret.Lib

section

variable (cfg : PipelineConfig)

/-- The sample that enters the channel by the step. -/
def sends (s : Pipeline) : Action → List Nat
  | .trySend r => if s.records r = .updated ∧ s.accepts cfg then [r] else []
  | _ => []

/-- The samples sent so far are where they were sent to, in order. -/
structure InOrder (sent : List Nat) (s : Pipeline) : Prop where
  order : sent = s.inserted.map Prod.snd ++ held s.writer ++ metricsOf s.chan ++
    metricsOf s.discarded
  once : sent.Nodup
  calls : ∀ r, r ∈ sent ↔ s.records r = .sent
  numbered : s.inserted.map Prod.fst = (List.range s.inserted.length).map UInt32.ofNat
  next : s.seq = UInt32.ofNat s.inserted.length
  kept : s.writer ≠ .exited → s.discarded = []
  closed : s.writer = .exited → s.chan = []
  room : s.chan.length ≤ cfg.channelCapacity
  batch : (held s.writer).length ≤ max 1 cfg.batchRows
  droppedOnce : s.dropped.Nodup
  drops : ∀ r, r ∈ s.dropped ↔ s.records r = .dropped

theorem inOrder_init : InOrder cfg [] Pipeline.init := by
  refine ⟨rfl, .nil, ?_, rfl, rfl, fun _ => rfl, fun _ => rfl, Nat.zero_le _, Nat.zero_le _, .nil,
    ?_⟩
  · simp [Pipeline.init]
  · simp [Pipeline.init]

variable {cfg} {sent : List Nat} {s t : Pipeline}

/-- A record call moves, and is neither sent nor dropped before or after. -/
theorem InOrder.setRecord (h : InOrder cfg sent s) {r : Nat} {pc : RecordPc}
    (hold : s.records r ≠ .sent ∧ s.records r ≠ .dropped)
    (hnew : pc ≠ .sent ∧ pc ≠ .dropped) : InOrder cfg sent (s.setRecord r pc) where
  order := h.order
  once := h.once
  calls := by
    intro x
    rw [h.calls, Pipeline.records_setRecord_iff hold.1 hnew.1]
  numbered := h.numbered
  next := h.next
  kept := h.kept
  closed := h.closed
  room := h.room
  batch := h.batch
  droppedOnce := h.droppedOnce
  drops := by
    intro x
    rw [Pipeline.records_setRecord_iff hold.2 hnew.2]
    exact h.drops x

/-- A sample enters the channel behind all others. -/
theorem InOrder.send (h : InOrder cfg sent s) {r : Nat} (hpc : s.records r = .updated)
    (haccepts : s.accepts cfg = true) :
    InOrder cfg (sent ++ [r]) ((s.push (.metric r)).setRecord r .sent) := by
  have hopen : s.writer ≠ .exited ∧ s.chan.length < cfg.channelCapacity := by
    simpa [Pipeline.accepts] using haccepts
  have hunsent : r ∉ sent := by
    rw [h.calls, hpc]
    exact RecordPc.noConfusion
  have hplace : ∀ x, ((s.push (.metric r)).setRecord r .sent).records x =
      if x = r then .sent else s.records x := fun x => Pipeline.records_setRecord _ r _ x
  refine ⟨?_, ?_, ?_, h.numbered, h.next, h.kept, ?_, ?_, h.batch, h.droppedOnce, ?_⟩
  · have hdiscarded : metricsOf s.discarded = [] := by
      rw [h.kept hopen.1]
      rfl
    have horder := h.order
    rw [hdiscarded, List.append_nil] at horder
    change sent ++ [r] = s.inserted.map Prod.snd ++ held s.writer ++
      metricsOf (s.chan ++ [.metric r]) ++ metricsOf s.discarded
    rw [hdiscarded, metricsOf_append, List.append_nil, horder]
    exact List.append_assoc _ _ _
  · rw [← List.concat_eq_append]
    exact h.once.concat hunsent
  · intro x
    rw [hplace, List.mem_append, List.mem_singleton]
    by_cases hx : x = r
    · simp [hx]
    · rw [if_neg hx, h.calls]
      simp [hx]
  · intro hexited
    exact absurd hexited hopen.1
  · change (s.chan ++ [PipelineMsg.metric r]).length ≤ cfg.channelCapacity
    rw [List.length_append, List.length_singleton]
    exact hopen.2
  · intro x
    rw [hplace]
    by_cases hx : x = r
    · have hnot : r ∉ s.dropped := by
        rw [h.drops, hpc]
        exact RecordPc.noConfusion
      rw [if_pos hx, hx]
      exact iff_of_false hnot RecordPc.noConfusion
    · rw [if_neg hx]
      exact h.drops x

theorem InOrder.countDrop (h : InOrder cfg sent s) {r : Nat} (hpc : s.records r = .refused) :
    InOrder cfg sent ({ s with dropped := s.dropped ++ [r] }.setRecord r .dropped) := by
  have hplace : ∀ x, ({ s with dropped := s.dropped ++ [r] }.setRecord r .dropped).records x =
      if x = r then .dropped else s.records x := fun x => Pipeline.records_setRecord _ r _ x
  have hnot : r ∉ s.dropped := by
    rw [h.drops, hpc]
    exact RecordPc.noConfusion
  refine ⟨h.order, h.once, ?_, h.numbered, h.next, h.kept, h.closed, h.room, h.batch, ?_, ?_⟩
  · intro x
    rw [h.calls, hplace]
    by_cases hx : x = r
    · rw [if_pos hx, hx, hpc]
      exact iff_of_false RecordPc.noConfusion RecordPc.noConfusion
    · rw [if_neg hx]
  · change (s.dropped ++ [r]).Nodup
    rw [← List.concat_eq_append]
    exact h.droppedOnce.concat hnot
  · intro x
    change x ∈ s.dropped ++ [r] ↔ _
    rw [hplace, List.mem_append, List.mem_singleton]
    by_cases hx : x = r
    · simp [hx]
    · rw [if_neg hx, h.drops]
      simp [hx]

/-- The running writer moves samples on in their order. -/
theorem InOrder.writerMoves (h : InOrder cfg sent s) {writer : WriterPc}
    {chan : List (PipelineMsg Nat)} (hrunning : s.writer ≠ .exited) (hstays : writer ≠ .exited)
    (hmoved : held s.writer ++ metricsOf s.chan = held writer ++ metricsOf chan)
    (hroom : chan.length ≤ s.chan.length)
    (hbatch : (held writer).length ≤ max 1 cfg.batchRows) :
    InOrder cfg sent { s with writer, chan } where
  order := by
    rw [h.order, List.append_assoc _ (held s.writer), hmoved, ← List.append_assoc]
  once := h.once
  calls := h.calls
  numbered := h.numbered
  next := h.next
  kept := fun _ => h.kept hrunning
  closed := fun hexited => absurd hexited hstays
  room := hroom.trans h.room
  batch := hbatch
  droppedOnce := h.droppedOnce
  drops := h.drops

/-- The next sample of the batch is inserted under the next number. -/
theorem InOrder.insert (h : InOrder cfg sent s) {r : Nat} {todo : List Nat} {stop : Bool}
    (hpc : s.writer = .flush (r :: todo) stop) :
    InOrder cfg sent { s with
      writer := .flush todo stop
      seq := s.seq + 1
      inserted := s.inserted ++ [(s.seq, r)] } := by
  have hrunning : s.writer ≠ .exited := by
    rw [hpc]
    exact WriterPc.noConfusion
  have hbatch := h.batch
  rw [hpc, held, List.length_cons] at hbatch
  refine ⟨?_, h.once, h.calls, ?_, ?_, fun _ => h.kept hrunning, fun hexited => ?_, h.room, ?_,
    h.droppedOnce, h.drops⟩
  · rw [h.order, hpc]
    simp [held]
  · change (s.inserted ++ [(s.seq, r)]).map Prod.fst = _
    rw [List.map_append, h.numbered, h.next, List.length_append, List.length_singleton,
      List.range_succ, List.map_append]
    rfl
  · change s.seq + 1 = UInt32.ofNat (s.inserted ++ [(s.seq, r)]).length
    rw [h.next, List.length_append, List.length_singleton, UInt32.ofNat_add]
    rfl
  · contradiction
  · exact (Nat.le_succ _).trans hbatch

/-- The writer leaves: what is in the channel is discarded with it. -/
theorem InOrder.exit (h : InOrder cfg sent s) (hpc : s.writer = .persist) :
    InOrder cfg sent
      { s with writer := .exited, chan := [], discarded := s.discarded ++ s.chan } := by
  have hrunning : s.writer ≠ .exited := by
    rw [hpc]
    exact WriterPc.noConfusion
  refine ⟨?_, h.once, h.calls, h.numbered, h.next, fun hstays => absurd rfl hstays, fun _ => rfl,
    Nat.zero_le _, Nat.zero_le _, h.droppedOnce, h.drops⟩
  rw [h.order, h.kept hrunning, hpc]
  simp [held]

/-- Every step keeps the order; a send is behind all others. -/
theorem inOrder_step {a : Action} (h : InOrder cfg sent s) (hstep : step cfg s a = some t) :
    InOrder cfg (sent ++ sends cfg s a) t := by
  have hframe : ∀ {u : Pipeline}, sends cfg s a = [] → InOrder cfg sent u →
      InOrder cfg (sent ++ sends cfg s a) u := by
    intro u hnone hu
    rw [hnone, List.append_nil]
    exact hu
  cases step_cases hstep with
  | skip hpc _ => exact hframe rfl (h.setRecord (by simp [hpc]) (by simp))
  | pass hpc _ => exact hframe rfl (h.setRecord (by simp [hpc]) (by simp))
  | update hpc => exact hframe rfl (h.setRecord (by simp [hpc]) (by simp))
  | @send r hpc haccepts =>
      have hsends : sends cfg s (.trySend r) = [r] := if_pos ⟨hpc, haccepts⟩
      rw [hsends]
      exact h.send hpc haccepts
  | refuse hpc haccepts =>
      exact hframe (by simp [sends, haccepts]) (h.setRecord (by simp [hpc]) (by simp))
  | countDrop hpc => exact hframe rfl (h.countDrop hpc)
  | recvMetric hpc hchan =>
      refine hframe rfl (h.writerMoves (by simp [hpc]) (by simp) ?_ ?_ ?_)
      · rw [hpc, hchan]
        rfl
      · rw [hchan]
        exact Nat.le_succ _
      · exact Nat.le_max_left _ _
  | recvShutdown hpc hchan =>
      refine hframe rfl (h.writerMoves (by simp [hpc]) (by simp) ?_ ?_ (Nat.zero_le _))
      · rw [hpc, hchan]
        rfl
      · rw [hchan]
        exact Nat.le_succ _
  | @drainMetric batch r rest hpc hroom hchan =>
      refine hframe rfl (h.writerMoves (by simp [hpc]) (by simp) ?_ ?_ ?_)
      · rw [hpc, hchan]
        simp [held]
      · rw [hchan]
        exact Nat.le_succ _
      · simp only [held, List.length_append, List.length_singleton]
        omega
  | drainShutdown hpc hroom hchan =>
      refine hframe rfl (h.writerMoves (by simp [hpc]) (by simp) ?_ ?_ ?_)
      · rw [hpc, hchan]
        rfl
      · rw [hchan]
        exact Nat.le_succ _
      · have hbatch := h.batch
        rw [hpc] at hbatch
        exact hbatch
  | drainEnd hpc hend =>
      refine hframe rfl (h.writerMoves (by simp [hpc]) (by simp) ?_ (le_refl _) ?_)
      · rw [hpc]
        rfl
      · have hbatch := h.batch
        rw [hpc] at hbatch
        exact hbatch
  | insert hpc => exact hframe rfl (h.insert hpc)
  | @flushed stop hpc =>
      have hheld : held (if stop then .persist else .recv) = [] := by
        cases stop <;> rfl
      refine hframe rfl (h.writerMoves (by simp [hpc]) (by cases stop <;> simp) ?_ (le_refl _) ?_)
      · rw [hheld, hpc]
        rfl
      · rw [hheld]
        exact Nat.zero_le _
  | exit hpc => exact hframe rfl (h.exit hpc)
  | deliver hpc hopen hroom =>
      refine hframe rfl ?_
      refine ⟨?_, h.once, h.calls, h.numbered, h.next, h.kept, fun hexited => absurd hexited hopen,
        ?_, h.batch, h.droppedOnce, h.drops⟩
      · have hmetrics : metricsOf (s.chan ++ [.shutdown]) = metricsOf s.chan := by simp
        change sent = _ ++ metricsOf (s.chan ++ [.shutdown]) ++ _
        rw [hmetrics, h.order]
        rfl
      · change (s.chan ++ [PipelineMsg.shutdown]).length ≤ cfg.channelCapacity
        rw [List.length_append, List.length_singleton]
        exact hroom
  | _ =>
      exact hframe rfl ⟨h.order, h.once, h.calls, h.numbered, h.next, h.kept, h.closed, h.room,
        h.batch, h.droppedOnce, h.drops⟩

theorem inOrder_run {actions : List Action}
    (h : exec (step cfg) Pipeline.init actions = some s) :
    InOrder cfg (transcript (step cfg) (sends cfg) Pipeline.init actions) s :=
  exec_history (fun _ _ _ _ hs hstep => inOrder_step hs hstep) h (inOrder_init cfg)

/-- In every run the samples are inserted in the order of their sends, each at most once
and under the next sequence number; those sent and not inserted are, in order, in the
writer's hands, in the channel and among the discarded; the channel never exceeds its
capacity and a batch never `batch_rows`. -/
theorem pipeline_fifo {actions : List Action}
    (h : exec (step cfg) Pipeline.init actions = some s) :
    let sent := transcript (step cfg) (sends cfg) Pipeline.init actions
    sent = s.inserted.map Prod.snd ++ held s.writer ++ metricsOf s.chan ++
      metricsOf s.discarded ∧
    sent.Nodup ∧ (∀ r, r ∈ sent ↔ s.records r = .sent) ∧
    s.inserted.map Prod.fst = (List.range s.inserted.length).map UInt32.ofNat ∧
    s.chan.length ≤ cfg.channelCapacity ∧ (held s.writer).length ≤ max 1 cfg.batchRows := by
  have horder := inOrder_run h
  exact ⟨horder.order, horder.once, horder.calls, horder.numbered, horder.room, horder.batch⟩

end

/-- Two calls send while the writer inserts the sample of the first. -/
def overlappingRun : List Action :=
  [.loadFlag 7, .loadFlag 3, .updatePrometheus 3, .trySend 3, .blockingRecv, .updatePrometheus 7,
    .trySend 7, .tryRecv, .tryRecv, .insert]

theorem overlapping_run_in_order :
    ∃ s, exec (step smallPipeline) Pipeline.init overlappingRun = some s ∧
      [3, 7] = s.inserted.map Prod.snd ++ held s.writer ++ metricsOf s.chan ++
        metricsOf s.discarded :=
  ⟨_, rfl, (@pipeline_fifo smallPipeline _ overlappingRun rfl).1⟩

end Tonggeret.Engine
