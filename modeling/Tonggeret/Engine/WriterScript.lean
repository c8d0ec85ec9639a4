import Tonggeret.Engine.Pipeline
import Tonggeret.Storage.Writer

/-!
# The writer of the pipeline

The machine interleaves the steps of the writer with those of its producers.  What
its receive calls meet along a run is a script for `writerLoop`, and the keyspace
calls of the run are those of `writerLoop` on this script.  The writer of the machine is
one whose batch could be allocated and whose inserts return.
-/

namespace Tonggeret.Engine

open Tonggeret.Lib Tonggeret.Storage

section

variable (fjall : Fjall) (serde : SerdeJson) (cfg : PipelineConfig)
variable (entryOf : Nat → MetricEntry)

/-- The message with the entry of the record call in it. -/
def payload : PipelineMsg Nat → PipelineMsg MetricEntry
  | .metric r => .metric (entryOf r)
  | .shutdown => .shutdown

/-- What the receive call of a step meets. -/
def met (s : Pipeline) : Action → Receiver
  | .blockingRecv => [s.chan.head?.map (payload entryOf)]
  | .tryRecv =>
      match s.writer with
      | .drain batch =>
          if batch.length < cfg.batchRows then [s.chan.head?.map (payload entryOf)] else []
      | _ => []
  | _ => []

def storeCall (insert : UInt32 × Nat) : StoreCall :=
  .insert (encodeKey (entryMicros (entryOf insert.2)) insert.1 (entryOf insert.2).name)
    (encodeValue serde (entryOf insert.2))

/-- The keyspace calls the writer has made. -/
def performed (s : Pipeline) : List StoreCall :=
  s.inserted.map (storeCall serde entryOf) ++
    if s.writer = .exited then [.persist] else []

def lastPersist : WriterRun := ⟨[.persist], .returned⟩

/-- What follows a drained burst. -/
def afterDrain (seq : UInt32) : List MetricEntry × DrainEnd × Receiver → WriterRun
  | (batch, .shutdown, _) => (flushBatch fjall serde batch seq).andThen fun _ => lastPersist
  | (batch, _, rx) =>
      (flushBatch fjall serde batch seq).andThen fun seq' =>
        writerBursts fjall serde cfg.batchRows rx seq'

/-- What is still to come from where the writer stands, on what it will still meet. -/
def upcoming (rx : Receiver) (s : Pipeline) : WriterRun :=
  match s.writer with
  | .recv => writerBursts fjall serde cfg.batchRows rx s.seq
  | .drain batch =>
      afterDrain fjall serde cfg s.seq (drain cfg.batchRows (batch.map entryOf) rx)
  | .flush todo stop =>
      (flushBatch fjall serde (todo.map entryOf) s.seq).andThen fun seq' =>
        if stop then lastPersist else writerBursts fjall serde cfg.batchRows rx seq'
  | .persist => lastPersist
  | .exited => ⟨[], .returned⟩

/-- The writer's lifetime, as far as the rest of the script tells. -/
def lifetime (rx : Receiver) (s : Pipeline) : WriterRun :=
  let rest := upcoming fjall serde cfg entryOf rx s
  { rest with calls := performed serde entryOf s ++ rest.calls }

variable {fjall serde cfg entryOf}

theorem writerBursts_shutdown (rx : Receiver) (seq : UInt32) :
    writerBursts fjall serde cfg.batchRows (some .shutdown :: rx) seq = lastPersist := by
  rw [writerBursts]
  simp [blockingRecv, lastPersist]

theorem writerBursts_metric (entry : MetricEntry) (rx : Receiver) (seq : UInt32) :
    writerBursts fjall serde cfg.batchRows (some (.metric entry) :: rx) seq =
      afterDrain fjall serde cfg seq (drain cfg.batchRows [entry] rx) := by
  rw [writerBursts]
  simp only [blockingRecv]
  rcases drain cfg.batchRows [entry] rx with ⟨batch, ending, rest⟩
  cases ending <;> rfl

/-- An insert that returns is one call, and the batch goes on. -/
theorem andThen_flushBatch_cons (hreturns : ∀ key value, fjall.insertReturns key value = true)
    (r : Nat) (todo : List Nat) (seq : UInt32) (rest : UInt32 → WriterRun) :
    (flushBatch fjall serde ((r :: todo).map entryOf) seq).andThen rest =
      let flushed := (flushBatch fjall serde (todo.map entryOf) (seq + 1)).andThen rest
      { flushed with calls := storeCall serde entryOf (seq, r) :: flushed.calls } := by
  rw [List.map_cons, flushBatch_cons (hreturns _ _), Flushed.andThen_cons]
  rfl

theorem performed_insert (s : Pipeline) {r : Nat} {todo : List Nat} {stop : Bool}
    (hpc : s.writer = .flush (r :: todo) stop) :
    performed serde entryOf { s with
      writer := .flush todo stop
      seq := s.seq + 1
      inserted := s.inserted ++ [(s.seq, r)] } =
    performed serde entryOf s ++ [storeCall serde entryOf (s.seq, r)] := by
  simp [performed, hpc]

/-- No step changes what the writer does in its lifetime. -/
theorem lifetime_step (hreturns : ∀ key value, fjall.insertReturns key value = true)
    {s t : Pipeline} {a : Action} (rest : Receiver) (h : step cfg s a = some t) :
    lifetime fjall serde cfg entryOf (met cfg entryOf s a ++ rest) s =
      lifetime fjall serde cfg entryOf rest t := by
  cases step_cases h with
  | recvMetric hpc hchan =>
      simp [lifetime, performed, upcoming, met, hpc, hchan, payload, writerBursts_metric]
  | recvShutdown hpc hchan =>
      simp [lifetime, performed, upcoming, met, hpc, hchan, payload, writerBursts_shutdown]
  | drainMetric hpc hroom hchan =>
      simp [lifetime, performed, upcoming, met, hpc, hchan, hroom, payload, drain]
  | drainShutdown hpc hroom hchan =>
      simp [lifetime, performed, upcoming, met, hpc, hchan, hroom, payload, drain, afterDrain]
  | @drainEnd batch hpc hend =>
      by_cases hroom : batch.length < cfg.batchRows
      · simp [lifetime, performed, upcoming, met, hpc, hend hroom, hroom, drain, afterDrain]
      · cases rest <;>
          simp [lifetime, performed, upcoming, met, hpc, hroom, drain, afterDrain]
  | @insert r todo stop hpc =>
      simp only [lifetime, upcoming, met, hpc, List.nil_append, performed_insert s hpc,
        andThen_flushBatch_cons hreturns, List.append_assoc, List.singleton_append]
  | @flushed stop hpc =>
      cases stop <;>
        simp [lifetime, performed, upcoming, met, hpc, flushBatch, Flushed.andThen]
  | exit hpc => simp [lifetime, performed, upcoming, lastPersist, hpc]
  | _ => rfl

/-- Over a complete run of the writer, whatever the other parties do, its keyspace calls
are those of `writer_loop` on what its receive calls met. -/
theorem performed_eq_writerLoop (hreturns : ∀ key value, fjall.insertReturns key value = true)
    {entrySize : Nat} (hbatch : cfg.batchRows * entrySize ≤ 2 ^ 63 - 1) {t : Pipeline}
    {actions : List Action} (h : exec (step cfg) Pipeline.init actions = some t)
    (hexited : t.writer = .exited) :
    (⟨t.inserted.map (storeCall serde entryOf) ++ [.persist], .returned⟩ : WriterRun) =
      writerLoop fjall serde entrySize cfg.batchRows
        (transcript (step cfg) (met cfg entryOf) Pipeline.init actions) := by
  have hconserved := exec_conserves (lifetime fjall serde cfg entryOf)
    (fun _ _ _ rest hstep => lifetime_step hreturns rest hstep) h []
  have hcapacity : withCapacity entrySize cfg.batchRows = some cfg.batchRows := if_pos hbatch
  calc (⟨t.inserted.map (storeCall serde entryOf) ++ [.persist], .returned⟩ : WriterRun)
      = lifetime fjall serde cfg entryOf [] t := by
        simp [lifetime, performed, upcoming, hexited]
    _ = lifetime fjall serde cfg entryOf
          (transcript (step cfg) (met cfg entryOf) Pipeline.init actions) Pipeline.init := by
        rw [← hconserved, List.append_nil]
    _ = writerBursts fjall serde cfg.batchRows
          (transcript (step cfg) (met cfg entryOf) Pipeline.init actions) 0 := rfl
    _ = writerLoop fjall serde entrySize cfg.batchRows
          (transcript (step cfg) (met cfg entryOf) Pipeline.init actions) := by
        rw [writerLoop, hcapacity]

end

end Tonggeret.Engine
