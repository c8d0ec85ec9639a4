import Mathlib.Data.List.ReduceOption
import Tonggeret.Storage.Key
import Tonggeret.Storage.Value

/-!
# Dedicated writer thread

The first message of a burst comes from a blocking receive, the rest of the
burst from non-blocking receives up to `batch_rows`.  The receiver is a script
of what the thread's receive calls meet: a message, or `none` where a
non-blocking call finds the channel empty.  A blocking call parks through every
`none`, and the end of the script is the closed channel.  The thread panics where its
batch cannot be allocated and where `fjall` panics on an insert.
-/

namespace Tonggeret.Storage

abbrev Receiver := List (Option (PipelineMsg MetricEntry))

/-- Calls the writer makes on the keyspace, and which return. -/
inductive StoreCall
  | insert (key value : Bytes)
  | persist
deriving DecidableEq

/-- Whether an insert returns, stored or with an error that is logged.  One that does not
panics, as on a key of more than `u16::MAX` bytes. -/
structure Fjall where
  insertReturns : Bytes → Bytes → Bool

inductive ThreadEnd
  | returned
  | panicked
deriving DecidableEq

/-- One lifetime of the writer. -/
structure WriterRun where
  calls : List StoreCall
  ending : ThreadEnd
deriving DecidableEq

/-- The calls of a batch and the sequence number it leaves, if it does not panic. -/
structure Flushed where
  calls : List StoreCall
  next : Option UInt32

/-- What the writer does after a batch; a panic ends it. -/
def Flushed.andThen (flushed : Flushed) (rest : UInt32 → WriterRun) : WriterRun :=
  match flushed.next with
  | none => ⟨flushed.calls, .panicked⟩
  | some seq => { rest seq with calls := flushed.calls ++ (rest seq).calls }

/-- `Vec::with_capacity(n)`; `none` is its panic above `isize::MAX` bytes. -/
def withCapacity (elementSize n : Nat) : Option Nat :=
  if n * elementSize ≤ 2 ^ 63 - 1 then some n else none

/-- Micros since the Unix epoch for an entry (saturates at 0 on clock skew). -/
def entryMicros (entry : MetricEntry) : UInt64 :=
  if entry.timestamp < 0 then 0
  else
    let micros := entry.timestamp.toNat / 1000
    if micros < 2 ^ 64 then UInt64.ofNat micros else UInt64.ofNat (2 ^ 64 - 1)

/-- `rx.blocking_recv()`; `none` when the channel is closed. -/
def blockingRecv : Receiver → Option (PipelineMsg MetricEntry × Receiver)
  | [] => none
  | none :: rx => blockingRecv rx
  | some msg :: rx => some (msg, rx)

def flushBatch (fjall : Fjall) (serde : SerdeJson) : List MetricEntry → UInt32 → Flushed
  | [], seq => ⟨[], some seq⟩
  | entry :: batch, seq =>
      let key := encodeKey (entryMicros entry) seq entry.name
      let value := encodeValue serde entry
      if fjall.insertReturns key value then
        let flushed := flushBatch fjall serde batch (seq + 1)
        { flushed with calls := .insert key value :: flushed.calls }
      else ⟨[], none⟩

/-- How the inner drain of a burst ends. -/
inductive DrainEnd
  | full
  | empty
  | shutdown
deriving DecidableEq

/-- `while batch.len() < batch_rows { match rx.try_recv() .. }`. -/
def drain (batchRows : Nat) (batch : List MetricEntry) :
    Receiver → List MetricEntry × DrainEnd × Receiver
  | [] => (batch, if batch.length < batchRows then .empty else .full, [])
  | msg :: rx =>
      if batch.length < batchRows then
        match msg with
        | some (.metric entry) => drain batchRows (batch ++ [entry]) rx
        | some .shutdown => (batch, .shutdown, rx)
        | none => (batch, .empty, rx)
      else (batch, .full, msg :: rx)

theorem length_drain_le (batchRows : Nat) (batch : List MetricEntry) (rx : Receiver) :
    (drain batchRows batch rx).2.2.length ≤ rx.length := by
  induction rx generalizing batch with
  | nil => simp [drain]
  | cons msg rx ih =>
      unfold drain
      split
      · split
        · exact (ih _).trans (by simp)
        · simp
        · simp
      · simp

theorem length_blockingRecv_lt {rx rest : Receiver} {msg : PipelineMsg MetricEntry}
    (h : blockingRecv rx = some (msg, rest)) : rest.length < rx.length := by
  induction rx with
  | nil => simp [blockingRecv] at h
  | cons head rx ih =>
      cases head with
      | none => exact (ih h).trans (by simp)
      | some m =>
          simp only [blockingRecv, Option.some.injEq, Prod.mk.injEq] at h
          simp [h.2]

/-- The bursts of the writer from sequence number `seq`, and its last persist. -/
def writerBursts (fjall : Fjall) (serde : SerdeJson) (batchRows : Nat) (rx : Receiver)
    (seq : UInt32) : WriterRun :=
  match _hrecv : blockingRecv rx with
  | none => ⟨[.persist], .returned⟩
  | some (.shutdown, _) => ⟨[.persist], .returned⟩
  | some (.metric entry, rest) =>
      match _hdrain : drain batchRows [entry] rest with
      | (batch, .shutdown, _) =>
          (flushBatch fjall serde batch seq).andThen fun _ => ⟨[.persist], .returned⟩
      | (batch, _, rest') =>
          (flushBatch fjall serde batch seq).andThen fun seq' =>
            writerBursts fjall serde batchRows rest' seq'
termination_by rx.length
decreasing_by
  have hle := length_drain_le batchRows [entry] rest
  rw [_hdrain] at hle
  exact hle.trans_lt (length_blockingRecv_lt _hrecv)

/-- One lifetime of the writer, for metrics of `entrySize` bytes each. -/
def writerLoop (fjall : Fjall) (serde : SerdeJson) (entrySize batchRows : Nat)
    (rx : Receiver) : WriterRun :=
  match withCapacity entrySize batchRows with
  | none => ⟨[], .panicked⟩
  | some _ => writerBursts fjall serde batchRows rx 0

/-! ## One insert per metric, in arrival order -/

/-- The metrics sent before the first shutdown message. -/
def metricsBefore {ε : Type} : List (PipelineMsg ε) → List ε
  | [] => []
  | .metric entry :: msgs => entry :: metricsBefore msgs
  | .shutdown :: _ => []

/-- The key the one-at-a-time writer gives to its `i`-th metric. -/
def writerKey (i : Nat) (entry : MetricEntry) : Bytes :=
  encodeKey (entryMicros entry) (UInt32.ofNat i) entry.name

section

variable {fjall : Fjall} {serde : SerdeJson}

theorem Flushed.andThen_some {flushed : Flushed} {seq : UInt32}
    (h : flushed.next = some seq) (rest : UInt32 → WriterRun) :
    flushed.andThen rest = ⟨flushed.calls ++ (rest seq).calls, (rest seq).ending⟩ := by
  rw [Flushed.andThen, h]

theorem Flushed.andThen_cons (call : StoreCall) (flushed : Flushed)
    (rest : UInt32 → WriterRun) :
    Flushed.andThen { flushed with calls := call :: flushed.calls } rest =
      { flushed.andThen rest with calls := call :: (flushed.andThen rest).calls } := by
  unfold Flushed.andThen
  cases flushed.next <;> rfl

theorem flushBatch_cons {entry : MetricEntry} {seq : UInt32}
    (h : fjall.insertReturns (encodeKey (entryMicros entry) seq entry.name)
      (encodeValue serde entry) = true) (batch : List MetricEntry) :
    flushBatch fjall serde (entry :: batch) seq =
      { flushBatch fjall serde batch (seq + 1) with
        calls := .insert (encodeKey (entryMicros entry) seq entry.name)
          (encodeValue serde entry) :: (flushBatch fjall serde batch (seq + 1)).calls } :=
  if_pos h

theorem flushBatch_panics {entry : MetricEntry} {seq : UInt32}
    (h : ¬ fjall.insertReturns (encodeKey (entryMicros entry) seq entry.name)
      (encodeValue serde entry) = true) (batch : List MetricEntry) :
    flushBatch fjall serde (entry :: batch) seq = ⟨[], none⟩ := if_neg h

/-- Two batches one after the other are one batch. -/
theorem flushBatch_append_andThen (l r : List MetricEntry) (seq : UInt32)
    (rest : UInt32 → WriterRun) :
    (flushBatch fjall serde (l ++ r) seq).andThen rest =
      (flushBatch fjall serde l seq).andThen fun seq' =>
        (flushBatch fjall serde r seq').andThen rest := by
  induction l generalizing seq with
  | nil => simp [flushBatch, Flushed.andThen]
  | cons entry l ih =>
      rw [List.cons_append]
      by_cases hreturns : fjall.insertReturns (encodeKey (entryMicros entry) seq entry.name)
          (encodeValue serde entry) = true
      · rw [flushBatch_cons hreturns, flushBatch_cons hreturns, Flushed.andThen_cons,
          Flushed.andThen_cons, ih]
      · rw [flushBatch_panics hreturns, flushBatch_panics hreturns]
        rfl

end

/-- Draining only moves metrics from the channel to the batch. -/
theorem drain_spec (batchRows : Nat) (batch : List MetricEntry) (rx : Receiver) :
    match drain batchRows batch rx with
    | (batch', .shutdown, _) => batch' = batch ++ metricsBefore rx.reduceOption
    | (batch', _, rest) =>
        batch' ++ metricsBefore rest.reduceOption =
          batch ++ metricsBefore rx.reduceOption := by
  induction rx generalizing batch with
  | nil =>
      unfold drain
      split <;> rename_i heq <;> simp only [Prod.mk.injEq] at heq
      · split at heq <;> simp at heq
      · simp [heq.1, heq.2.2]
  | cons msg rx ih =>
      unfold drain
      by_cases hroom : batch.length < batchRows
      · rw [if_pos hroom]
        match msg with
        | some (.metric entry) =>
            have h := ih (batch ++ [entry])
            simpa [metricsBefore, List.reduceOption_cons_of_some] using h
        | some .shutdown => simp [metricsBefore, List.reduceOption_cons_of_some]
        | none => simp [List.reduceOption_cons_of_none]
      · rw [if_neg hroom]

theorem blockingRecv_none {rx : Receiver} (h : blockingRecv rx = none) :
    rx.reduceOption = [] := by
  induction rx with
  | nil => rfl
  | cons msg rx ih =>
      cases msg with
      | none => simpa [List.reduceOption_cons_of_none] using ih h
      | some m => simp [blockingRecv] at h

theorem blockingRecv_some {rx rest : Receiver} {msg : PipelineMsg MetricEntry}
    (h : blockingRecv rx = some (msg, rest)) :
    rx.reduceOption = msg :: rest.reduceOption := by
  induction rx with
  | nil => simp [blockingRecv] at h
  | cons head rx ih =>
      cases head with
      | none => simpa [List.reduceOption_cons_of_none] using ih h
      | some m =>
          simp only [blockingRecv, Option.some.injEq, Prod.mk.injEq] at h
          simp [List.reduceOption_cons_of_some, h.1, h.2]

/-- The bursts equal one flush of everything sent before the first shutdown. -/
theorem writerBursts_eq_flushBatch (fjall : Fjall) (serde : SerdeJson) (batchRows : Nat)
    (rx : Receiver) (seq : UInt32) :
    writerBursts fjall serde batchRows rx seq =
      (flushBatch fjall serde (metricsBefore rx.reduceOption) seq).andThen fun _ =>
        ⟨[.persist], .returned⟩ := by
  fun_induction writerBursts fjall serde batchRows rx seq with
  | case1 rx seq h =>
      simp [blockingRecv_none h, metricsBefore, flushBatch, Flushed.andThen]
  | case2 rx seq rest h =>
      simp [blockingRecv_some h, metricsBefore, flushBatch, Flushed.andThen]
  | case3 rx seq entry rest h batch rest' hdrain =>
      have hspec := drain_spec batchRows [entry] rest
      rw [hdrain] at hspec
      rw [blockingRecv_some h, metricsBefore, hspec]
      rfl
  | case4 rx seq entry rest h batch ending rest' hne hdrain ih =>
      have hspec : batch ++ metricsBefore rest'.reduceOption =
          [entry] ++ metricsBefore rest.reduceOption := by
        have hdrained := drain_spec batchRows [entry] rest
        rw [hdrain] at hdrained
        cases ending with
        | full => exact hdrained
        | empty => exact hdrained
        | shutdown => exact absurd rfl hne
      have hbatch : metricsBefore rx.reduceOption =
          batch ++ metricsBefore rest'.reduceOption := by
        rw [hspec, blockingRecv_some h]
        rfl
      rw [hbatch, flushBatch_append_andThen]
      exact congrArg _ (funext ih)

/-- The entries before the first on whose insert the thread panics. -/
def written (fjall : Fjall) (serde : SerdeJson) : List MetricEntry → UInt32 → List MetricEntry
  | [], _ => []
  | entry :: entries, seq =>
      if fjall.insertReturns (encodeKey (entryMicros entry) seq entry.name)
          (encodeValue serde entry) then
        entry :: written fjall serde entries (seq + 1)
      else []

theorem ofNat_succ (start : Nat) : UInt32.ofNat start + 1 = UInt32.ofNat (start + 1) := by
  rw [UInt32.ofNat_add]
  rfl

/-- Each written entry is one insert, numbered by its position. -/
theorem calls_flushBatch (fjall : Fjall) (serde : SerdeJson) (entries : List MetricEntry)
    (start : Nat) :
    (flushBatch fjall serde entries (UInt32.ofNat start)).calls =
      (written fjall serde entries (UInt32.ofNat start)).mapIdx fun i entry =>
        .insert (writerKey (start + i) entry) (encodeValue serde entry) := by
  induction entries generalizing start with
  | nil => rfl
  | cons entry entries ih =>
      rw [written]
      by_cases hreturns : fjall.insertReturns (encodeKey (entryMicros entry)
          (UInt32.ofNat start) entry.name) (encodeValue serde entry) = true
      · rw [if_pos hreturns, flushBatch_cons hreturns, List.mapIdx_cons, ofNat_succ, ih]
        simp only [Nat.add_zero, writerKey, Nat.add_assoc, Nat.add_comm 1]
      · rw [if_neg hreturns, flushBatch_panics hreturns]
        rfl

/-- Where every insert returns, every entry is written. -/
theorem written_eq_self {fjall : Fjall} {serde : SerdeJson} {entries : List MetricEntry}
    {start : Nat} (h : ∀ i entry, entries[i]? = some entry →
      fjall.insertReturns (writerKey (start + i) entry) (encodeValue serde entry) = true) :
    written fjall serde entries (UInt32.ofNat start) = entries ∧
      ∃ seq, (flushBatch fjall serde entries (UInt32.ofNat start)).next = some seq := by
  induction entries generalizing start with
  | nil => exact ⟨rfl, _, rfl⟩
  | cons entry entries ih =>
      have hfirst := h 0 entry rfl
      obtain ⟨hwritten, seq, hseq⟩ := @ih (start + 1) fun i e he => by
        have hnext := h (i + 1) e he
        rwa [Nat.add_assoc, Nat.add_comm 1]
      rw [Nat.add_zero, writerKey] at hfirst
      rw [written, if_pos hfirst, flushBatch_cons hfirst, ofNat_succ]
      exact ⟨congrArg _ hwritten, seq, hseq⟩

/-- Fewer than `2 ^ 32` steps apart, the wrapping sequence tells keys apart. -/
theorem writerKey_ne {i j : Nat} (hi : i < 2 ^ 32) (hj : j < 2 ^ 32) (hij : i ≠ j)
    (e f : MetricEntry) : writerKey i e ≠ writerKey j f := by
  intro h
  have hseq : UInt32.ofNat i = UInt32.ofNat j := (encodeKey_inj h).2.1
  apply hij
  have hnat := congrArg UInt32.toNat hseq
  rwa [UInt32.toNat_ofNat_of_lt' hi, UInt32.toNat_ofNat_of_lt' hj] at hnat

theorem nodup_writerKeys {entries : List MetricEntry} (hlength : entries.length ≤ 2 ^ 32) :
    (entries.mapIdx writerKey).Nodup := by
  unfold List.Nodup
  rw [List.pairwise_iff_getElem]
  intro i j hi hj hij
  rw [List.length_mapIdx] at hi hj
  rw [List.getElem_mapIdx, List.getElem_mapIdx]
  exact writerKey_ne (by omega) (by omega) (by omega) _ _

/-- Batching is unobservable: where the batch can be allocated and the inserts return, the
writer makes the inserts of the one-at-a-time writer, then persists once, whatever the
batch size and the arrival timing. -/
theorem batching_unobservable (fjall : Fjall) (serde : SerdeJson) (entrySize batchRows : Nat)
    (rx : Receiver) (hbatch : batchRows * entrySize ≤ 2 ^ 63 - 1)
    (hinserts : ∀ i entry, (metricsBefore rx.reduceOption)[i]? = some entry →
      fjall.insertReturns (writerKey i entry) (encodeValue serde entry) = true) :
    writerLoop fjall serde entrySize batchRows rx =
        ⟨(metricsBefore rx.reduceOption).mapIdx (fun i entry =>
          .insert (writerKey i entry) (encodeValue serde entry)) ++ [.persist], .returned⟩ ∧
      ((metricsBefore rx.reduceOption).length ≤ 2 ^ 32 →
        ((metricsBefore rx.reduceOption).mapIdx writerKey).Nodup) := by
  have hzero : UInt32.ofNat 0 = 0 := rfl
  constructor
  · have hreturn : ∀ i entry, (metricsBefore rx.reduceOption)[i]? = some entry →
        fjall.insertReturns (writerKey (0 + i) entry) (encodeValue serde entry) = true := by
      simpa only [Nat.zero_add] using hinserts
    obtain ⟨hwritten, seq, hseq⟩ := written_eq_self hreturn
    have hcalls := calls_flushBatch fjall serde (metricsBefore rx.reduceOption) 0
    simp only [Nat.zero_add, hwritten] at hcalls
    rw [writerLoop, withCapacity, if_pos hbatch]
    simp only [writerBursts_eq_flushBatch, ← hzero]
    rw [Flushed.andThen_some hseq, hcalls]
  · exact nodup_writerKeys

/-! ## A small batch, and two panics -/

/-- Keys are stored up to `u16::MAX` bytes. -/
def shortKeys : Fjall := ⟨fun key _ => key.length ≤ 65535⟩

/-- A serializer for rows that nobody reads. -/
def printNull : SerdeJson := ⟨fun _ => none, fun _ => "null", fun _ => none⟩

def hit (name : String) : MetricEntry := ⟨0, name, F64.zero, .counter, []⟩

theorem two_hits_unbatched :
    writerLoop shortKeys printNull 80 1000
        [some (.metric (hit "a")), none, some (.metric (hit "b")), some .shutdown] =
      ⟨[.insert (encodeKey 0 0 "a") (encodeValue printNull (hit "a")),
        .insert (encodeKey 0 1 "b") (encodeValue printNull (hit "b")), .persist], .returned⟩ := by
  refine (batching_unobservable shortKeys printNull 80 1000
    [some (.metric (hit "a")), none, some (.metric (hit "b")), some .shutdown] (by decide)
    ?_).1
  intro i entry hentry
  match i with
  | 0 =>
      obtain rfl := Option.some.inj hentry
      decide +kernel
  | 1 =>
      obtain rfl := Option.some.inj hentry
      decide +kernel
  | i + 2 => contradiction

theorem shortKeys_panics {key : Bytes} (h : 65535 < key.length) (value : Bytes) :
    ¬ shortKeys.insertReturns key value = true := by
  rw [shortKeys, decide_eq_true_eq]
  omega

/-- On a first metric whose name alone is too long, the writer panics. -/
theorem writerLoop_longName {name : String} (hname : 65535 < (utf8 name).length)
    (rx : Receiver) :
    writerLoop shortKeys printNull 80 1000 (some (.metric (hit name)) :: rx) =
      ⟨[], .panicked⟩ := by
  have hlength : 65535 < (encodeKey (entryMicros (hit name)) 0 (hit name).name).length := by
    rw [encodeKey_eq]
    simp only [List.length_append, List.length_cons]
    change 65535 < _ + (_ + (utf8 name).length + 1) + 1
    omega
  have hcapacity : withCapacity 80 1000 = some 1000 := rfl
  rw [writerLoop, hcapacity]
  simp only [writerBursts_eq_flushBatch, List.reduceOption_cons_of_some, metricsBefore]
  rw [flushBatch_panics (shortKeys_panics hlength _)]
  rfl

/-- A batch that cannot be allocated, and a key too long for an insert: the writer panics,
and persists nothing. -/
theorem writer_panics :
    writerLoop shortKeys printNull 80 (2 ^ 64 - 1) [some .shutdown] = ⟨[], .panicked⟩ ∧
    writerLoop shortKeys printNull 80 1000
      [some (.metric (hit (String.ofList (List.replicate 65536 'a')))), some .shutdown] =
        ⟨[], .panicked⟩ := by
  constructor
  · rfl
  · apply writerLoop_longName
    rw [utf8_ofList_of_ascii, List.length_map, List.length_replicate]
    · decide
    · intro c hc
      rw [List.eq_of_mem_replicate hc]
      decide

end Tonggeret.Storage
