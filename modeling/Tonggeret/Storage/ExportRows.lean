import Tonggeret.Storage.Compaction

/-!
# Rows of a chunk and the history of the partition

The column builders of a pass are the projections of the rows decoded so far,
and the partition is its initial content replayed with the logged events.  Both
views are closed under the operations of a pass.
-/

namespace Tonggeret.Storage

open Tonggeret.Lib

variable (serde : SerdeJson)

/-- The exported row of one stored item, when its key decodes. -/
def exportRow (item : Bytes × Bytes) : Option Row :=
  (decodeKey item.1).map fun (ts, name) =>
    let (value, kind, labels) := decodeValue serde item.2
    ⟨saturateI64 ts, name, value, kind, labels⟩

def exportRows (items : List (Bytes × Bytes)) : List Row :=
  items.filterMap (exportRow serde)

@[simp] theorem exportRows_nil : exportRows serde [] = [] := rfl

@[simp] theorem exportRows_append (l r : List (Bytes × Bytes)) :
    exportRows serde (l ++ r) = exportRows serde l ++ exportRows serde r :=
  List.filterMap_append

theorem exportRows_eq_nil {items : List (Bytes × Bytes)} :
    exportRows serde items = [] ↔ ∀ item ∈ items, decodeKey item.1 = none := by
  unfold exportRows
  rw [List.filterMap_eq_nil_iff]
  simp [exportRow]

/-- The key of the item decodes. -/
def decodable (item : Bytes × Bytes) : Bool := (decodeKey item.1).isSome

theorem length_exportRows (items : List (Bytes × Bytes)) :
    (exportRows serde items).length = items.countP decodable := by
  induction items with
  | nil => rfl
  | cons item items ih =>
      have hcons : exportRows serde (item :: items) =
          (exportRow serde item).toList ++ exportRows serde items := by
        simp only [exportRows, List.filterMap_cons]
        cases exportRow serde item <;> rfl
      rw [hcons, List.length_append, ih, List.countP_cons, Nat.add_comm]
      cases hdecode : decodeKey item.1 <;> simp [exportRow, decodable, hdecode]

theorem countP_decodable_eq_zero {items : List (Bytes × Bytes)} :
    items.countP decodable = 0 ↔ exportRows serde items = [] := by
  rw [← length_exportRows serde, List.length_eq_zero_iff]

/-! ## Column builders -/

/-- The builders after pushing the given items. -/
def PendingBatch.of (items : List (Bytes × Bytes)) : PendingBatch where
  ts := (exportRows serde items).map Row.ts
  names := (exportRows serde items).map Row.name
  values := (exportRows serde items).map Row.value
  kinds := (exportRows serde items).map Row.metricType
  labels := (exportRows serde items).map Row.labels
  removals := items.map Prod.fst

theorem PendingBatch.len_of (items : List (Bytes × Bytes)) :
    (PendingBatch.of serde items).len = (exportRows serde items).length := by
  simp [PendingBatch.of, PendingBatch.len]

theorem PendingBatch.of_append_undecodable {item : Bytes × Bytes}
    (h : decodeKey item.1 = none) (items : List (Bytes × Bytes)) :
    PendingBatch.of serde (items ++ [item]) =
      { PendingBatch.of serde items with
        removals := (PendingBatch.of serde items).removals ++ [item.1] } := by
  simp [PendingBatch.of, exportRows, exportRow, h]

theorem PendingBatch.of_append_decodable {item : Bytes × Bytes} {ts : UInt64}
    {name : String} (h : decodeKey item.1 = some (ts, name))
    (items : List (Bytes × Bytes)) :
    PendingBatch.of serde (items ++ [item]) =
      (PendingBatch.of serde items).push ts name (decodeValue serde item.2).1
        (decodeValue serde item.2).2.1 (decodeValue serde item.2).2.2 item.1 := by
  simp [PendingBatch.of, PendingBatch.push, exportRows, exportRow, h]

theorem zip_columns (rows : List Row) :
    ((rows.map Row.ts).zip ((rows.map Row.name).zip ((rows.map Row.value).zip
        ((rows.map Row.metricType).zip (rows.map Row.labels))))).map
      (fun (ts, name, value, kind, labels) =>
        (⟨ts, name, value, kind, labels⟩ : Row)) = rows := by
  induction rows with
  | nil => rfl
  | cons row rows ih => simp [ih]

/-- The columns of pushed items always have equal length, so the batch is built. -/
theorem PendingBatch.recordBatch_of (items : List (Bytes × Bytes)) :
    (PendingBatch.of serde items).recordBatch = .ok (exportRows serde items) := by
  unfold PendingBatch.recordBatch
  rw [if_pos (by simp [PendingBatch.of])]
  exact congrArg Except.ok (zip_columns _)

/-! ## File names -/

/-- A published export: `metrics_cold_*.parquet`. -/
def isColdFileName (name : String) : Bool :=
  parquetFilePrefix.toList.isPrefixOf name.toList &&
    ".parquet".toList.isSuffixOf name.toList

@[simp] theorem isColdFileName_finalName (stamp : String) :
    isColdFileName (finalName stamp) = true := by
  simp only [isColdFileName, finalName, String.toList_append, Bool.and_eq_true,
    List.isPrefixOf_iff_prefix, List.isSuffixOf_iff_suffix]
  constructor
  · exact ⟨stamp.toList ++ ".parquet".toList, by simp⟩
  · exact List.suffix_append _ _

@[simp] theorem isColdFileName_tmpName (stamp : String) :
    isColdFileName (tmpName stamp) = false := by
  simp [isColdFileName, tmpName, parquetFilePrefix]

/-- The row is in a closed file under a final name. -/
def Disk.Published (disk : Disk) (row : Row) : Prop :=
  ∃ entry ∈ disk.cold.entries,
    isColdFileName entry.1 = true ∧ entry.2.closed = true ∧ row ∈ entry.2.rows

instance (disk : Disk) (row : Row) : Decidable (disk.Published row) := by
  unfold Disk.Published
  infer_instance

/-! ## Partition history -/

def applyEvent (m : SortedMap Bytes Bytes) : PartitionEvent → SortedMap Bytes Bytes
  | .inserted key value => m.insert key value
  | .removed key => m.erase key

def replay (m : SortedMap Bytes Bytes) (log : List PartitionEvent) :
    SortedMap Bytes Bytes :=
  log.foldl applyEvent m

def insertedRows (log : List PartitionEvent) : List (Bytes × Bytes) :=
  log.filterMap fun
    | .inserted key value => some (key, value)
    | .removed _ => none

def removedKeys (log : List PartitionEvent) : List Bytes :=
  log.filterMap fun
    | .inserted _ _ => none
    | .removed key => some key

def insertEvents (rows : List (Bytes × Bytes)) : List PartitionEvent :=
  rows.map fun row => .inserted row.1 row.2

@[simp] theorem removedKeys_append (l r : List PartitionEvent) :
    removedKeys (l ++ r) = removedKeys l ++ removedKeys r := List.filterMap_append

@[simp] theorem insertedRows_append (l r : List PartitionEvent) :
    insertedRows (l ++ r) = insertedRows l ++ insertedRows r := List.filterMap_append

@[simp] theorem removedKeys_insertEvents (rows : List (Bytes × Bytes)) :
    removedKeys (insertEvents rows) = [] := by
  simp [removedKeys, insertEvents]

@[simp] theorem insertedRows_insertEvents (rows : List (Bytes × Bytes)) :
    insertedRows (insertEvents rows) = rows := by
  simp [insertedRows, insertEvents]

theorem replay_append (m : SortedMap Bytes Bytes) (l r : List PartitionEvent) :
    replay m (l ++ r) = replay (replay m l) r := List.foldl_append

theorem replay_insertEvents (m : SortedMap Bytes Bytes) (rows : List (Bytes × Bytes)) :
    replay m (insertEvents rows) = m.insertAll rows := by
  induction rows generalizing m with
  | nil => rfl
  | cons row rows ih => exact ih (m.insert row.1 row.2)

/-- Without a removal of its key, an entry is there as if nothing was removed. -/
theorem mem_replay_of_notMem_removedKeys {m : SortedMap Bytes Bytes}
    {log : List PartitionEvent} {entry : Bytes × Bytes}
    (hremoved : entry.1 ∉ removedKeys log) :
    entry ∈ replay m log ↔ entry ∈ m.insertAll (insertedRows log) := by
  induction log generalizing m with
  | nil => exact Iff.rfl
  | cons event log ih =>
      cases event with
      | inserted key value => exact ih hremoved
      | removed key =>
          obtain ⟨hne, htail⟩ : entry.1 ≠ key ∧ entry.1 ∉ removedKeys log := by
            simpa [removedKeys] using hremoved
          change entry ∈ replay (m.erase key) log ↔ entry ∈ m.insertAll (insertedRows log)
          rw [ih htail]
          apply SortedMap.insertAll_congr
          simp [SortedMap.mem_erase, hne]

/-- A removed key that is not inserted is gone. -/
theorem notMem_replay_of_mem_removedKeys {m : SortedMap Bytes Bytes}
    {log : List PartitionEvent} {entry : Bytes × Bytes}
    (hinserted : entry.1 ∉ (insertedRows log).map Prod.fst)
    (h : entry ∉ m ∨ entry.1 ∈ removedKeys log) : entry ∉ replay m log := by
  induction log generalizing m with
  | nil =>
      have hm : entry ∉ m := by simpa [removedKeys] using h
      exact hm
  | cons event log ih =>
      cases event with
      | inserted key value =>
          obtain ⟨hne, htail⟩ : entry.1 ≠ key ∧
              entry.1 ∉ (insertedRows log).map Prod.fst := by
            simpa [insertedRows] using hinserted
          apply ih htail
          apply h.imp _ id
          intro hm hmem
          rcases SortedMap.mem_insert.mp hmem with heq | hold
          · exact hne (congrArg Prod.fst heq)
          · exact hm hold.1
      | removed key =>
          apply ih hinserted
          by_cases heq : entry.1 = key
          · exact Or.inl fun hmem => (SortedMap.mem_erase.mp hmem).2 heq
          · apply h.imp
            · exact fun hm hmem => hm (SortedMap.mem_erase.mp hmem).1
            · intro hmem
              simpa [removedKeys, heq] using hmem

end Tonggeret.Storage
