import Tonggeret.Clock
import Tonggeret.Config
import Tonggeret.Lib.Trace
import Tonggeret.Storage.Key
import Tonggeret.Storage.Value

/-!
# Parquet compaction

One hot-to-cold pass: scan the expired keys of a snapshot in chunks, write each
chunk to a temporary Parquet file, remove its keys, and in the end close and
rename the file.  Every I/O operation has an index; before it takes effect the
writer thread may insert rows, and it may fail.  The environment says which.
-/

namespace Tonggeret.Storage

open Tonggeret.Lib

/-- One row of the export schema `ts, name, value, metric_type, labels`. -/
structure Row where
  ts : Int
  name : String
  value : F64
  metricType : String
  labels : String
deriving DecidableEq

/-- A file of the cold directory; it is a readable Parquet file once closed. -/
structure ColdFile where
  rows : List Row
  closed : Bool
deriving DecidableEq

structure Disk where
  partition : SortedMap Bytes Bytes
  cold : SortedMap String ColdFile

/-- What a pass does to the cold directory. -/
inductive ColdChange
  | write (name : String) (file : ColdFile)
  | rename (source target : String)

/-- Chunk-bounded column builders plus the keys to remove once flushed. -/
structure PendingBatch where
  ts : List Int
  names : List String
  values : List F64
  kinds : List String
  labels : List String
  removals : List Bytes

def PendingBatch.new : PendingBatch := ⟨[], [], [], [], [], []⟩

def PendingBatch.len (batch : PendingBatch) : Nat := batch.ts.length

/-- `i64::try_from(ts).unwrap_or(i64::MAX)`. -/
def saturateI64 (ts : UInt64) : Int :=
  if ts.toNat < 2 ^ 63 then ts.toNat else 2 ^ 63 - 1

def PendingBatch.push (batch : PendingBatch) (rowTs : UInt64) (name : String)
    (value : F64) (kind labels : String) (key : Bytes) : PendingBatch where
  ts := batch.ts ++ [saturateI64 rowTs]
  names := batch.names ++ [name]
  values := batch.values ++ [value]
  kinds := batch.kinds ++ [kind]
  labels := batch.labels ++ [labels]
  removals := batch.removals ++ [key]

/-- The builders after `finish()`: empty columns, removals untouched. -/
def PendingBatch.finish (batch : PendingBatch) : PendingBatch :=
  { PendingBatch.new with removals := batch.removals }

/-- `RecordBatch::try_new` on the finished columns. -/
def PendingBatch.recordBatch (batch : PendingBatch) : Except String (List Row) :=
  if batch.names.length = batch.ts.length ∧ batch.values.length = batch.ts.length ∧
      batch.kinds.length = batch.ts.length ∧ batch.labels.length = batch.ts.length then
    .ok ((batch.ts.zip (batch.names.zip (batch.values.zip
      (batch.kinds.zip batch.labels)))).map fun (ts, name, value, kind, labels) =>
        ⟨ts, name, value, kind, labels⟩)
  else .error "all columns in a record batch must have the same length"

/-- The open temp file and its `ArrowWriter` with the rows written so far. -/
structure ExportWriter where
  tmp : String
  rows : List Row

/-- What happened to the partition since the pass began, oldest first. -/
inductive PartitionEvent
  | inserted (key value : Bytes)
  | removed (key : Bytes)

structure PassState where
  disk : Disk
  exporter : Option ExportWriter
  pending : PendingBatch
  moved : Nat
  ops : Nat
  log : List PartitionEvent
  /-- What the pass has done to the cold directory, oldest first. -/
  changes : List ColdChange
  /-- The file that the rename has put under its final name. -/
  published : Option ColdFile

def PassState.start (disk : Disk) : PassState :=
  ⟨disk, none, PendingBatch.new, 0, 0, [], [], none⟩

inductive PassStop
  | error (e : Error)
  | panic (message : String)
deriving DecidableEq

abbrev Pass := Prog PassState PassStop

inductive IoOp
  | createColdDir
  | scan
  | createTmp
  | openWriter
  | arrowBatch
  | parquetWrite
  | removeKey
  | close
  | writeRest
  | rename
  | persist
deriving DecidableEq

/-- The surroundings of one pass: its clock readings, the rows the writer inserts
just before each operation, and the error text of the operations that fail. -/
structure Env where
  cutoffClock : Instant
  openClock : Instant
  finalizeClock : Instant
  inserts : Nat → List (Bytes × Bytes)
  fault : Nat → IoOp → Option String

def parquetFilePrefix : String := "metrics_cold_"

def tmpName (stamp : String) : String :=
  "." ++ parquetFilePrefix ++ stamp ++ ".parquet.tmp"

def finalName (stamp : String) : String :=
  parquetFilePrefix ++ stamp ++ ".parquet"

/-- `std::fs::rename` inside the cold directory: an existing target is replaced. -/
def renameFile (cold : SortedMap String ColdFile) (source target : String) :
    SortedMap String ColdFile :=
  match cold.get? source with
  | some file => (cold.erase source).insert target file
  | none => cold

def applyChange (cold : SortedMap String ColdFile) : ColdChange → SortedMap String ColdFile
  | .write name file => cold.insert name file
  | .rename source target => renameFile cold source target

/-! ## Operations of a pass -/

section

variable (serde : SerdeJson) (rowsPerBatch : Nat) (env : Env)

/-- The rows the writer thread inserted before this operation. -/
def PassState.arrive (s : PassState) : PassState :=
  let rows := env.inserts s.ops
  { s with
    disk := { s.disk with partition := s.disk.partition.insertAll rows }
    log := s.log ++ rows.map fun row => .inserted row.1 row.2
    ops := s.ops + 1 }

/-- Begin an operation; its error text if it fails. -/
def attempt (op : IoOp) : Pass (Option String) := do
  let s ← Prog.read
  Prog.update (PassState.arrive env)
  return env.fault s.ops op

/-- An operation whose failure is returned with `?`. -/
def io (op : IoOp) (wrap : String → Error) (effect : PassState → PassState) :
    Pass Unit := do
  match ← attempt env op with
  | some e => Prog.fail (.error (wrap e))
  | none => Prog.update effect

/-- An operation whose failure is only logged, or not noticed. -/
def ioOrWarn (op : IoOp) (effect : PassState → PassState) : Pass Unit := do
  match ← attempt env op with
  | some _ => pure ()
  | none => Prog.update effect

def PassState.changeCold (s : PassState) (change : ColdChange) : PassState :=
  { s with
    disk := { s.disk with cold := applyChange s.disk.cold change }
    changes := s.changes ++ [change] }

/-- Create the temp-file ZSTD `ArrowWriter` for one export pass. -/
def openExportWriter : Pass ExportWriter := do
  let tmp := tmpName (formatStamp env.openClock)
  io env .createTmp (fun e => .storage ("create tmp parquet: " ++ e))
    fun s => s.changeCold (.write tmp ⟨[], false⟩)
  io env .openWriter (fun e => .storage ("parquet writer: " ++ e)) id
  return ⟨tmp, []⟩

def PassState.removeKey (s : PassState) (key : Bytes) : PassState :=
  { s with
    disk := { s.disk with partition := s.disk.partition.erase key }
    log := s.log ++ [.removed key] }

/-- One round of `for key in self.removals.drain(..)`. -/
def purgeKey (key : Bytes) : Pass Unit := do
  Prog.update fun s =>
    { s with pending := { s.pending with removals := s.pending.removals.tail } }
  ioOrWarn env .removeKey fun s => s.removeKey key

/-- Write buffered rows as one `RecordBatch` and remove their keys.
Returns rows exported (0 when empty). -/
def flush : Pass Nat := do
  let s ← Prog.read
  if s.pending.len = 0 then
    Prog.update fun s => { s with pending := { s.pending with removals := [] } }
    return 0
  else
    Prog.update fun s => { s with pending := s.pending.finish }
    match s.pending.recordBatch with
    | .error e => Prog.fail (.error (.storage ("arrow batch: " ++ e)))
    | .ok batch =>
        io env .arrowBatch (fun e => .storage ("arrow batch: " ++ e)) id
        match s.exporter with
        | none => Prog.fail (.error (.storage "parquet writer missing"))
        | some writer =>
            io env .parquetWrite (fun e => .storage ("parquet write: " ++ e)) fun s =>
              { s with exporter := some ⟨writer.tmp, writer.rows ++ batch⟩ }
            Prog.forEach (purgeKey env) s.pending.removals
            return batch.length

/-- `moved += pending.flush(..)?`. -/
def flushAndCount : Pass Unit := do
  let n ← flush env
  Prog.update fun s => { s with moved := s.moved + n }

/-- The body of the scan loop. -/
def scanItem (item : Bytes × Bytes) : Pass Unit := do
  let (key, value) := item
  io env .scan (fun e => .storage ("fjall scan: " ++ e)) id
  match decodeKey key with
  | none =>
      Prog.update fun s =>
        { s with pending := { s.pending with removals := s.pending.removals ++ [key] } }
  | some (rowTs, rowName) =>
      let (rowValue, rowKind, rowLabels) := decodeValue serde value
      let s ← Prog.read
      if s.exporter.isNone then
        let writer ← openExportWriter env
        Prog.update fun s => { s with exporter := some writer }
      Prog.update fun s =>
        { s with pending := s.pending.push rowTs rowName rowValue rowKind rowLabels key }
      let s ← Prog.read
      if rowsPerBatch ≤ s.pending.len then flushAndCount env

/-- Close the writer and atomically publish the export.  The file's last bytes are written
when the closed writer is dropped, which ignores an error: then the temp file stays
unreadable and is renamed all the same. -/
def finalizeExport (writer : ExportWriter) : Pass Unit := do
  io env .close (fun e => .storage ("parquet close: " ++ e)) id
  ioOrWarn env .writeRest fun s => s.changeCold (.write writer.tmp ⟨writer.rows, true⟩)
  let target := finalName (formatStamp env.finalizeClock)
  io env .rename (fun e => .storage ("parquet rename: " ++ e)) fun s =>
    { s.changeCold (.rename writer.tmp target) with
      published := s.disk.cold.get? writer.tmp }

/-- The retention cutoff in micros, saturating at the epoch. -/
def cutoffMicros (retention : Nat) (now : Instant) : Except PassStop UInt64 :=
  match durationFromStd retention with
  | none =>
      .error (.error (.storage
        "invalid retention: Source duration value is out of range for the target type"))
  | some duration =>
      match subDuration now duration with
      | none => .error (.panic "`DateTime - TimeDelta` overflowed")
      | some t => .ok (timestampMicrosOrZero t)

/-- Publish the export, if one was opened, and persist the keyspace. -/
def finishPass : Pass Unit := do
  let s ← Prog.read
  match s.exporter with
  | none => pure ()
  | some writer =>
      finalizeExport env writer
      ioOrWarn env .persist id

/-- Run a single hot→cold pass synchronously. Returns rows exported. -/
def runCompactionOnceBlocking (cfg : FjallConfig) : Pass Nat := do
  match cutoffMicros cfg.retention env.cutoffClock with
  | .error stop => Prog.fail stop
  | .ok cutoff =>
      let bound := utf8 (cutoffPrefix cutoff)
      io env .createColdDir .io id
      let s ← Prog.read
      Prog.forEach (scanItem serde rowsPerBatch env) (s.disk.partition.below bound)
      flushAndCount env
      finishPass env
      let s ← Prog.read
      return s.moved

end

/-- `ROWS_PER_BATCH`. -/
def rowsPerBatch : Nat := 5000

end Tonggeret.Storage
