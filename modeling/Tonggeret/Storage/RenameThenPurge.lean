import Mathlib.Data.Set.Basic
import Tonggeret.Storage.PassOutcome

/-!
# Rename-then-purge

The documented order is to rename the export first and to remove its keys
afterwards.  The pass removes the keys of a chunk as soon as the chunk is written
to the temp file, so until the rename its rows are in no place that survives.

Two rows of one name, time and value look alike in an export, so the law says of
which stored rows a file has been made.
-/

namespace Tonggeret.Storage

open Tonggeret.Lib Tonggeret.Lib.Prog

/-- The rows that were taken out, with what was stored under each key at that moment. -/
def removedRows (m : SortedMap Bytes Bytes) : List PartitionEvent → List (Bytes × Bytes)
  | [] => []
  | .inserted key value :: log => removedRows (m.insert key value) log
  | .removed key :: log =>
      (m.get? key).toList.map (fun value => (key, value)) ++ removedRows (m.erase key) log

section

variable (serde : SerdeJson)

/-- A published file that is not among the replaced ones contains the row: it is readable,
and it is the export of stored rows this one is among. -/
def Held (replaced : Set String) (madeOf : String → List (Bytes × Bytes))
    (cold : SortedMap String ColdFile) (row : Bytes × Bytes) : Prop :=
  ∃ entry ∈ cold, entry.1 ∉ replaced ∧ isColdFileName entry.1 = true ∧
    entry.2.closed = true ∧ entry.2.rows = exportRows serde (madeOf entry.1) ∧
    row ∈ madeOf entry.1

variable (env : Env) (cfg : FjallConfig) (disk₀ : Disk)

/-- The rows of the snapshot from before the cutoff. -/
def scannedRows : List (Bytes × Bytes) :=
  match cutoffMicros cfg.retention env.cutoffClock with
  | .ok cutoff => expired env disk₀ cutoff
  | .error _ => []

/-- What the partition would hold if nothing had been removed. -/
def recorded (s : PassState) : SortedMap Bytes Bytes :=
  disk₀.partition.insertAll (insertedRows s.log)

variable (source : String → List (Bytes × Bytes))

/-- Of which stored rows the files are made: the one the pass has published of those it
scanned, the others as `source` tells of the start. -/
def madeOf (s : PassState) (name : String) : List (Bytes × Bytes) :=
  if s.published.isSome ∧ name = finalFile env then scannedRows env cfg disk₀ else source name

/-- No row has been removed unless a published file contains it; so every recorded row is
in the partition or in a published file. -/
structure RowsKept (s : PassState) : Prop where
  removed : ∀ row ∈ removedRows disk₀.partition s.log, decodable row = true →
    Held serde ∅ (madeOf env cfg disk₀ source s) s.disk.cold row
  recorded : ∀ row ∈ recorded disk₀ s, decodable row = true →
    row ∈ s.disk.partition ∨ Held serde ∅ (madeOf env cfg disk₀ source s) s.disk.cold row

/-- Every row that the scan finds under a key that decodes, and every row that may arrive
under such a key meanwhile, was in a published file when the pass began, and not only in
one whose name the pass takes. -/
def ExpiredHeld (arrivals : Set (Bytes × Bytes)) : Prop :=
  ∀ row ∈ scannedRows env cfg disk₀, decodable row = true →
    ∀ value, value = row.2 ∨ (row.1, value) ∈ arrivals →
      Held serde {finalFile env} source disk₀.cold (row.1, value)

end

/-! ## Removed rows -/

section

variable {m : SortedMap Bytes Bytes} {log : List PartitionEvent} {row : Bytes × Bytes}

theorem removedRows_append (l r : List PartitionEvent) :
    removedRows m (l ++ r) = removedRows m l ++ removedRows (replay m l) r := by
  induction l generalizing m with
  | nil => rfl
  | cons event l ih =>
      cases event with
      | inserted key value => exact ih
      | removed key =>
          show _ ++ removedRows (m.erase key) (l ++ r) = _
          rw [ih, ← List.append_assoc]
          rfl

@[simp] theorem removedRows_insertEvents (rows : List (Bytes × Bytes)) :
    removedRows m (insertEvents rows) = [] := by
  induction rows generalizing m with
  | nil => rfl
  | cons row rows ih => exact ih

/-- What is removed was there or has arrived. -/
theorem of_mem_removedRows (h : row ∈ removedRows m log) :
    row.1 ∈ removedKeys log ∧ (row ∈ m ∨ row ∈ insertedRows log) := by
  induction log generalizing m with
  | nil => contradiction
  | cons event log ih =>
      cases event with
      | inserted key value =>
          obtain ⟨hkey, hrow | hrow⟩ := ih h
          · refine ⟨hkey, ?_⟩
            rcases SortedMap.mem_insert.mp hrow with rfl | ⟨hold, -⟩
            · exact Or.inr List.mem_cons_self
            · exact Or.inl hold
          · exact ⟨hkey, Or.inr (List.mem_cons_of_mem _ hrow)⟩
      | removed key =>
          rcases List.mem_append.mp h with hhere | hlater
          · obtain ⟨value, hvalue, rfl⟩ := List.mem_map.mp hhere
            have hget : m.get? key = some value := by simpa using hvalue
            exact ⟨List.mem_cons_self, Or.inl (SortedMap.get?_eq_some.mp hget)⟩
          · obtain ⟨hkey, hrow | hrow⟩ := ih hlater
            · exact ⟨List.mem_cons_of_mem _ hkey, Or.inl (SortedMap.mem_erase.mp hrow).1⟩
            · exact ⟨List.mem_cons_of_mem _ hkey, Or.inr hrow⟩

/-- A row that would be there if nothing had been removed, and is not, was removed. -/
theorem mem_removedRows_of_missing (hrow : row ∈ m.insertAll (insertedRows log))
    (hmissing : row ∉ replay m log) : row ∈ removedRows m log := by
  induction log generalizing m with
  | nil => exact absurd hrow hmissing
  | cons event log ih =>
      cases event with
      | inserted key value => exact ih hrow hmissing
      | removed key =>
          have hrow : row ∈ m.insertAll (insertedRows log) := hrow
          by_cases hkey : row.1 = key
          · by_cases hagain : row ∈ (m.erase key).insertAll (insertedRows log)
            · exact List.mem_append_right _ (ih hagain hmissing)
            · have hfresh : row.1 ∉ (insertedRows log).map Prod.fst := by
                intro hmem
                apply hagain
                exact (SortedMap.mem_insertAll_of_touched hmem).mp hrow
              have hold : row ∈ m := (SortedMap.mem_insertAll_of_untouched hfresh).mp hrow
              have hget : m.get? key = some row.2 := by
                rw [SortedMap.get?_eq_some, ← hkey]
                exact hold
              apply List.mem_append_left
              rw [hget, ← hkey]
              exact List.mem_singleton_self row
          · apply List.mem_append_right
            have hkept : row ∈ m.erase key ↔ row ∈ m := by simp [SortedMap.mem_erase, hkey]
            exact ih ((SortedMap.insertAll_congr hkept).mpr hrow) hmissing

end

/-! ## While a pass runs -/

section

variable {serde : SerdeJson} {env : Env} {disk₀ : Disk}
variable {items : List (Bytes × Bytes)} {s : PassState}

/-- The history from the snapshot on. -/
theorem History.since_snapshot (h : History env disk₀ items s) :
    ∃ rest, s.log = insertEvents (env.inserts 0) ++ rest ∧
      s.disk.partition = replay (snapshot env disk₀) rest ∧
      insertedRows rest =
        (List.range (s.ops - 1)).flatMap fun i => env.inserts (i + 1) := by
  obtain ⟨rest, hlog⟩ := h.begun.snapshot
  refine ⟨rest, hlog.symm, ?_, ?_⟩
  · rw [h.ledger, ← hlog, replay_append, replay_insertEvents]
    rfl
  · have harrived := h.arrived
    have hpos := h.begun.ops
    obtain ⟨n, hn⟩ : ∃ n, s.ops = n + 1 := ⟨s.ops - 1, by omega⟩
    rw [← hlog, insertedRows_append, insertedRows_insertEvents, hn, List.range_succ_eq_map,
      List.flatMap_cons, List.append_cancel_left_eq] at harrived
    rw [harrived, hn, List.flatMap_map]
    rfl

/-- Where something was removed, what arrived just after the snapshot came before it. -/
theorem History.since_second (h : History env disk₀ items s) (hremoved : removedKeys s.log ≠ []) :
    ∃ rest, s.log = insertEvents (env.inserts 0) ++ insertEvents (env.inserts 1) ++ rest ∧
      insertedRows rest = (List.range (s.ops - 2)).flatMap fun i => env.inserts (i + 2) := by
  have hmore : 1 < s.ops := by
    by_contra hfew
    have hpos := h.begun.ops
    apply hremoved
    rw [h.begun.first (by omega), removedKeys_insertEvents]
  obtain ⟨rest, hlog⟩ := h.begun.second hmore
  refine ⟨rest, hlog.symm, ?_⟩
  have harrived := h.arrived
  obtain ⟨n, hn⟩ : ∃ n, s.ops = n + 2 := ⟨s.ops - 2, by omega⟩
  rw [← hlog, insertedRows_append, insertedRows_append, insertedRows_insertEvents,
    insertedRows_insertEvents, hn, List.range_succ_eq_map, List.range_succ_eq_map,
    List.flatMap_cons, List.map_cons, List.flatMap_cons, List.append_assoc,
    List.append_cancel_left_eq, List.append_cancel_left_eq] at harrived
  rw [harrived, hn, List.map_map, List.flatMap_map]
  rfl

theorem Mid.published_iff (h : Mid env disk₀ items s) {row : Row} :
    s.disk.Published row ↔ disk₀.Published row := by
  constructor
  · rintro ⟨entry, hmem, hname, hrest⟩
    exact ⟨entry, (h.published entry hname).mp hmem, hname, hrest⟩
  · rintro ⟨entry, hmem, hname, hrest⟩
    exact ⟨entry, (h.published entry hname).mpr hmem, hname, hrest⟩

variable {cfg : FjallConfig} {source : String → List (Bytes × Bytes)} {row : Bytes × Bytes}

/-- An export that the pass does not replace is there to the end, made of the same rows. -/
theorem Mid.held (h : Mid env disk₀ items s)
    (hrow : Held serde {finalFile env} source disk₀.cold row) :
    Held serde ∅ (madeOf env cfg disk₀ source s) s.disk.cold row := by
  obtain ⟨entry, hmem, hother, hname, hclosed, hrows, hsource⟩ := hrow
  have hmade : madeOf env cfg disk₀ source s entry.1 = source entry.1 :=
    if_neg fun hown => hother hown.2
  refine ⟨entry, (h.published entry hname).mpr hmem, Set.notMem_empty _, hname, hclosed, ?_⟩
  rw [hmade]
  exact ⟨hrows, hsource⟩

theorem Finished.held (h : Finished serde env disk₀ items s)
    (hrow : Held serde {finalFile env} source disk₀.cold row) :
    Held serde ∅ (madeOf env cfg disk₀ source s) s.disk.cold row := by
  obtain ⟨entry, hmem, hother, hname, hclosed, hrows, hsource⟩ := hrow
  have hmade : madeOf env cfg disk₀ source s entry.1 = source entry.1 :=
    if_neg fun hown => hother hown.2
  have hkept : entry ∈ s.disk.cold := by
    by_cases hnone : exportRows serde items = []
    · rw [(h.idle hnone).1]
      exact hmem
    · obtain ⟨file, -, -, hcold, -⟩ := h.exported hnone
      have htmp : entry.1 ≠ tmpFile env := by
        intro heq
        rw [heq, tmpFile, isColdFileName_tmpName] at hname
        contradiction
      rw [hcold, SortedMap.mem_insert, SortedMap.mem_erase]
      exact Or.inr ⟨⟨hmem, htmp⟩, hother⟩
  refine ⟨entry, hkept, Set.notMem_empty _, hname, hclosed, ?_⟩
  rw [hmade]
  exact ⟨hrows, hsource⟩

/-- What is scanned depends on the clock and on what arrived before the snapshot. -/
theorem scannedRows_congr {env' : Env} (hclock : env'.cutoffClock = env.cutoffClock)
    (hbefore : env'.inserts 0 = env.inserts 0) :
    scannedRows env' cfg disk₀ = scannedRows env cfg disk₀ := by
  have hsnapshot : snapshot env' disk₀ = snapshot env disk₀ := by
    rw [snapshot, snapshot, hbefore]
  unfold scannedRows expired
  rw [hclock, hsnapshot]

/-- A scanned row is in the snapshot. -/
theorem mem_snapshot_of_scanned (h : row ∈ scannedRows env cfg disk₀) :
    row ∈ snapshot env disk₀ := by
  unfold scannedRows at h
  split at h
  · exact (SortedMap.mem_below.mp h).1
  · contradiction

/-- A removed row was scanned, or it arrived under a scanned key. -/
theorem History.of_removed {cutoff : UInt64} {arrivals : Set (Bytes × Bytes)}
    (h : History env disk₀ (expired env disk₀ cutoff) s)
    (harrivals : ∀ i, ∀ row ∈ env.inserts (i + 1), row ∈ arrivals)
    (hrow : row ∈ removedRows disk₀.partition s.log) :
    ∃ scanned ∈ expired env disk₀ cutoff, scanned.1 = row.1 ∧
      (row.2 = scanned.2 ∨ row ∈ arrivals) := by
  obtain ⟨rest, hlog, -, hinserted⟩ := h.since_snapshot
  have hremoved := of_mem_removedRows hrow
  rw [hlog, removedRows_append, removedRows_insertEvents, List.nil_append,
    replay_insertEvents] at hrow
  obtain ⟨scanned, hscanned, hkey⟩ := List.mem_map.mp (h.removed _ hremoved.1)
  refine ⟨scanned, hscanned, hkey, ?_⟩
  rcases (of_mem_removedRows hrow).2 with hold | harrived
  · have hsnapshot : scanned ∈ snapshot env disk₀ := (SortedMap.mem_below.mp hscanned).1
    left
    apply SortedMap.value_unique hold
    rw [← hkey]
    exact hsnapshot
  · right
    rw [hinserted] at harrived
    obtain ⟨i, -, hi⟩ := List.mem_flatMap.mp harrived
    exact harrivals i row hi

/-- If no removed row is missing from the exports, none of the recorded ones is lost. -/
theorem RowsKept.of_removed
    (hledger : s.disk.partition = replay disk₀.partition s.log)
    (h : ∀ row ∈ removedRows disk₀.partition s.log, decodable row = true →
      Held serde ∅ (madeOf env cfg disk₀ source s) s.disk.cold row) :
    RowsKept serde env cfg disk₀ source s where
  removed := h
  recorded := by
    intro row hrow hdecode
    by_cases hmem : row ∈ s.disk.partition
    · exact Or.inl hmem
    · right
      rw [hledger] at hmem
      exact h row (mem_removedRows_of_missing hrow hmem) hdecode

end

section

variable (serde : SerdeJson) (rowsPerBatch : Nat) (env : Env) (cfg : FjallConfig)
variable (disk₀ : Disk)

/-- The states a pass can leave behind when it is stopped at any point. -/
def passStates : List PassState :=
  (runCompactionOnceBlocking serde rowsPerBatch env cfg (PassState.start disk₀)).reached

variable {serde rowsPerBatch env cfg disk₀} in
theorem passStates_of_error {stop : PassStop}
    (hcutoff : cutoffMicros cfg.retention env.cutoffClock = .error stop) :
    passStates serde rowsPerBatch env cfg disk₀ = [PassState.start disk₀] := by
  unfold passStates runCompactionOnceBlocking
  rw [hcutoff]
  rfl

variable (source : String → List (Bytes × Bytes)) (arrivals : Set (Bytes × Bytes))

theorem rowsKept_of_expiredHeld (h : ExpiredHeld serde env cfg disk₀ source arrivals)
    (harrivals : ∀ i, ∀ row ∈ env.inserts (i + 1), row ∈ arrivals) {s : PassState}
    (hs : s ∈ passStates serde rowsPerBatch env cfg disk₀) :
    RowsKept serde env cfg disk₀ source s := by
  cases hcutoff : cutoffMicros cfg.retention env.cutoffClock with
  | error stop =>
      rw [passStates_of_error hcutoff, List.mem_singleton] at hs
      rw [hs]
      exact .of_removed rfl fun row hrow => absurd hrow List.not_mem_nil
  | ok cutoff =>
      have hscan : scannedRows env cfg disk₀ = expired env disk₀ cutoff := by
        rw [scannedRows, hcutoff]
      have hbefore : ∀ {items : List (Bytes × Bytes)}, items = expired env disk₀ cutoff →
          History env disk₀ items s → ∀ row ∈ removedRows disk₀.partition s.log,
          decodable row = true → Held serde {finalFile env} source disk₀.cold row := by
        rintro _ rfl hhistory row hrow hdecode
        obtain ⟨scanned, hscanned, hkey, hvalue⟩ := hhistory.of_removed harrivals hrow
        have hdecode' : decodable scanned = true := by
          rw [decodable, hkey]
          exact hdecode
        have hheld := h scanned (hscan ▸ hscanned) hdecode' row.2
        rw [hkey] at hheld
        exact hheld hvalue
      have hpass := runCompactionOnceBlocking_triple serde env disk₀ rowsPerBatch cfg hcutoff
      rcases hpass.reached (fun _ _ h => Or.inr h.2) (fun _ _ h => Or.inl h.1) rfl hs with
        hmid | hdone
      · apply RowsKept.of_removed hmid.history.ledger
        exact fun row hrow hdecode => hmid.held (hbefore rfl hmid.history row hrow hdecode)
      · apply RowsKept.of_removed hdone.history.ledger
        exact fun row hrow hdecode => hdone.held (hbefore rfl hdone.history row hrow hdecode)

/-- Only the last bytes of the temp file cannot be written. -/
def restFails (_ : Nat) (op : IoOp) : Option String :=
  if op = .writeRest then some "No space left on device" else none

/-- The snapshot is that of the day, and one more time the writer stores just after it. -/
def insertsAfter (rows : List (Bytes × Bytes)) : Nat → List (Bytes × Bytes)
  | 0 => env.inserts 0
  | 1 => rows
  | _ => []

/-- A pass whose last bytes are not written publishes a file that cannot be read, with all
scanned rows removed. -/
theorem restFails_final (hfault : env.fault = restFails) {cutoff : UInt64}
    (hcutoff : cutoffMicros cfg.retention env.cutoffClock = .ok cutoff)
    (hrows : exportRows serde (expired env disk₀ cutoff) ≠ []) :
    ∃ s ∈ passStates serde rowsPerBatch env cfg disk₀,
      Finished serde env disk₀ (expired env disk₀ cutoff) s ∧
      s.disk.cold = (disk₀.cold.erase (tmpFile env)).insert (finalFile env) ⟨[], false⟩ := by
  have hpass := runCompactionOnceBlocking_triple serde env disk₀ rowsPerBatch cfg hcutoff
  obtain ⟨-, hend⟩ := hpass (PassState.start disk₀) rfl
  have hother : ∀ i op e, env.fault i op = some e → op = .writeRest := by
    intro i op e hi
    by_contra hne
    rw [hfault, restFails, if_neg hne] at hi
    contradiction
  refine ⟨_, Run.final_mem_reached _, ?_⟩
  revert hend
  split
  · rintro ⟨-, hdone⟩
    obtain ⟨file, ⟨-, i, hi⟩ | ⟨rfl, -⟩, -, hcold, -⟩ := hdone.exported hrows
    · rw [hfault, restFails, if_pos rfl] at hi
      contradiction
    · exact ⟨hdone, hcold⟩
  · rintro ⟨-, ⟨op, hop, i, e, hi⟩ | ⟨-, op, hop, i, e, hi⟩⟩
    all_goals
      rw [hother i op e hi] at hop
      simp [scanOps] at hop

/-- The row that is stored under a scanned key when the scan begins is removed. -/
theorem Finished.mem_removedRows {rows : List (Bytes × Bytes)}
    (hlater : ∀ i, env.inserts (i + 2) = []) (hone : env.inserts 1 = rows)
    (hfree : ∀ i, env.fault i .removeKey = none) {items : List (Bytes × Bytes)} {s : PassState}
    (h : Finished serde env disk₀ items s) {scanned row : Bytes × Bytes} (hscanned : scanned ∈ items)
    (hdecode : decodable scanned = true) (hkey : row.1 = scanned.1)
    (hrow : row ∈ (snapshot env disk₀).insertAll rows) :
    row ∈ removedRows disk₀.partition s.log := by
  obtain ⟨flushed, dropped, hsplit, hdropped, hremoved⟩ := h.swept.purgedAll hfree
  have hflushed : scanned ∈ flushed := by
    rw [← hsplit, List.mem_append] at hscanned
    apply hscanned.resolve_right
    intro hdrop
    rw [decodable, (exportRows_eq_nil serde).mp hdropped scanned hdrop] at hdecode
    contradiction
  have hgone : row.1 ∈ removedKeys s.log := by
    rw [hremoved, hkey]
    exact List.mem_map_of_mem hflushed
  obtain ⟨rest, hlog, hinserted⟩ := h.history.since_second (List.ne_nil_of_mem hgone)
  have hnone : insertedRows rest = [] := by
    rw [hinserted]
    exact List.flatMap_eq_nil_iff.mpr fun i _ => hlater i
  have hkeyRest : row.1 ∈ removedKeys rest := by
    rw [hlog] at hgone
    simpa using hgone
  rw [hlog, removedRows_append, replay_append, replay_insertEvents, replay_insertEvents, hone]
  apply List.mem_append_right
  have hfresh : row.1 ∉ (insertedRows rest).map Prod.fst := by
    rw [hnone]
    exact List.not_mem_nil
  apply mem_removedRows_of_missing
  · rw [hnone]
    exact hrow
  · exact notMem_replay_of_mem_removedKeys hfresh (Or.inr hkeyRest)

/-- When the last bytes are not written, a row that was not published elsewhere is lost. -/
theorem lost_of_restFails (hfault : env.fault = restFails) {rows : List (Bytes × Bytes)}
    (hlater : ∀ i, env.inserts (i + 2) = []) (hone : env.inserts 1 = rows)
    {scanned row : Bytes × Bytes} (hscanned : scanned ∈ scannedRows env cfg disk₀)
    (hdecode : decodable scanned = true) (hkey : row.1 = scanned.1)
    (hrow : row ∈ (snapshot env disk₀).insertAll rows)
    (hnot : ¬ Held serde {finalFile env} source disk₀.cold row) :
    ∃ s ∈ passStates serde rowsPerBatch env cfg disk₀, ¬ RowsKept serde env cfg disk₀ source s := by
  cases hcutoff : cutoffMicros cfg.retention env.cutoffClock with
  | error stop =>
      rw [scannedRows, hcutoff] at hscanned
      contradiction
  | ok cutoff =>
      rw [scannedRows, hcutoff] at hscanned
      have hexports : exportRows serde (expired env disk₀ cutoff) ≠ [] := by
        intro hnone
        rw [decodable, (exportRows_eq_nil serde).mp hnone scanned hscanned] at hdecode
        contradiction
      obtain ⟨s, hs, hdone, hcold⟩ :=
        restFails_final serde rowsPerBatch env cfg disk₀ hfault hcutoff hexports
      have hfree : ∀ i, env.fault i .removeKey = none := fun i => by rw [hfault]; rfl
      have hremoved := hdone.mem_removedRows serde env disk₀ hlater hone hfree hscanned hdecode
        hkey hrow
      refine ⟨s, hs, fun hkept => hnot ?_⟩
      have hdecodeRow : decodable row = true := by
        rw [decodable, hkey]
        exact hdecode
      obtain ⟨entry, hmem, -, hname, hclosed, hsource⟩ := hkept.removed row hremoved hdecodeRow
      rw [hcold, SortedMap.mem_insert, SortedMap.mem_erase] at hmem
      rcases hmem with rfl | ⟨⟨hold, -⟩, hother⟩
      · exact absurd hclosed Bool.false_ne_true
      · have hmade : madeOf env cfg disk₀ source s entry.1 = source entry.1 :=
          if_neg fun hown => hother hown.2
        rw [hmade] at hsource
        exact ⟨entry, hold, hother, hname, hclosed, hsource⟩

/-- Stopped at any point, with any failures and with the writer storing at any moments, a
pass keeps every row if and only if what it may remove was published before. -/
theorem rows_kept_iff_expired_held :
    (∀ fault inserts, inserts 0 = env.inserts 0 →
      (∀ i, ∀ row ∈ inserts (i + 1), row ∈ arrivals) →
      ∀ s ∈ passStates serde rowsPerBatch { env with fault, inserts } cfg disk₀,
        RowsKept serde { env with fault, inserts } cfg disk₀ source s) ↔
      ExpiredHeld serde env cfg disk₀ source arrivals := by
  have hscan : ∀ fault inserts, inserts 0 = env.inserts 0 →
      scannedRows { env with fault, inserts } cfg disk₀ = scannedRows env cfg disk₀ :=
    fun fault inserts hzero => scannedRows_congr rfl hzero
  constructor
  · intro hkept scanned hscanned hdecode value hvalue
    by_contra hnot
    have hnever : ∀ rows, (∀ row ∈ rows, row ∈ arrivals) →
        (scanned.1, value) ∉ (snapshot env disk₀).insertAll rows := by
      intro rows hrows hrow
      have hday : ∀ i, ∀ row ∈ insertsAfter env rows (i + 1), row ∈ arrivals := by
        intro i row hi
        cases i with
        | zero => exact hrows row hi
        | succ i => contradiction
      have hkey : (scanned.1, value).1 = scanned.1 := rfl
      have hscanned' := hscanned
      rw [← hscan restFails (insertsAfter env rows) rfl] at hscanned'
      obtain ⟨s, hs, hlost⟩ := lost_of_restFails serde rowsPerBatch
        { env with fault := restFails, inserts := insertsAfter env rows } cfg disk₀ source rfl
        (fun _ => rfl) rfl hscanned' hdecode hkey hrow hnot
      exact hlost (hkept restFails (insertsAfter env rows) rfl hday s hs)
    rcases hvalue with rfl | harrival
    · apply hnever []
      · exact fun row hrow => absurd hrow List.not_mem_nil
      · exact mem_snapshot_of_scanned hscanned
    · apply hnever [(scanned.1, value)]
      · intro row hrow
        rw [List.mem_singleton.mp hrow]
        exact harrival
      · exact SortedMap.mem_insert.mpr (Or.inl rfl)
  · intro h fault inserts hzero harrivals s hs
    apply rowsKept_of_expiredHeld serde rowsPerBatch { env with fault, inserts } cfg disk₀ source
      arrivals _ harrivals hs
    intro scanned hscanned
    rw [hscan fault inserts hzero] at hscanned
    exact h scanned hscanned

end

/-! ## A row lost to a failing rename -/

/-- A parser that rejects its input, as `serde_json` does on an empty payload. -/
def rejectAll : SerdeJson := ⟨fun _ => none, fun _ => "", fun _ => none⟩

/-- Two days after the epoch, nobody inserts and nothing fails. -/
def quietDay : Env :=
  let now := 2 * 86400 * nanosPerSecond
  ⟨now, now, now, fun _ => [], fun _ _ => none⟩

/-- Only the rename of the temp file fails. -/
def renameFails (_ : Nat) (op : IoOp) : Option String :=
  if op = .rename then some "Permission denied" else none

def staleKey : Bytes := encodeKey 0 0 "stale_total"

/-- A store with one row from the epoch and no exports. -/
def oneStaleRow : Disk := ⟨SortedMap.empty.insert staleKey [], SortedMap.empty⟩

theorem stale_row_lost :
    let lossyDay := { quietDay with fault := renameFails }
    ∃ s ∈ passStates rejectAll rowsPerBatch lossyDay FjallConfig.default oneStaleRow,
      removedRows oneStaleRow.partition s.log = [(staleKey, [])] ∧
      (∀ entry ∈ s.disk.cold.entries, isColdFileName entry.1 = false) ∧
      ∀ source, ¬ RowsKept rejectAll lossyDay FjallConfig.default oneStaleRow source s := by
  intro lossyDay
  let run := runCompactionOnceBlocking rejectAll rowsPerBatch lossyDay FjallConfig.default
    (PassState.start oneStaleRow)
  have hremoved : removedRows oneStaleRow.partition run.final.log = [(staleKey, [])] := by
    decide +kernel
  have hnone : ∀ entry ∈ run.final.disk.cold.entries, isColdFileName entry.1 = false := by
    decide +kernel
  have hdecode : decodable (staleKey, []) = true := by decide +kernel
  refine ⟨run.final, Run.final_mem_reached run, hremoved, hnone, ?_⟩
  intro source hkept
  have hmem : (staleKey, []) ∈ removedRows oneStaleRow.partition run.final.log := by
    rw [hremoved]
    exact List.mem_singleton_self _
  obtain ⟨entry, hentry, -, hname, -⟩ := hkept.removed _ hmem hdecode
  rw [hnone entry hentry] at hname
  exact Bool.false_ne_true hname

end Tonggeret.Storage
