import Tonggeret.Lib.Chunks
import Tonggeret.Storage.ScanInvariant

/-!
# Steps of the scan loop

One triple for each operation between the start of the scan and the close of the
temp file, and from them the loop itself.
-/

namespace Tonggeret.Storage

open Tonggeret.Lib Tonggeret.Lib.Prog

section

variable (serde : SerdeJson) (env : Env) (disk₀ : Disk) (items : List (Bytes × Bytes))

/-- The state while the temp file exists: the writer and the column builders are
arbitrary, `treated` are the keys the purge loop has gone through. -/
structure Writing (writer : Option ExportWriter) (batch : PendingBatch)
    (treated : List Bytes) (count : Nat) (s : PassState) : Prop where
  mid : Mid env disk₀ items s
  exporter : s.exporter = writer
  pending : s.pending = batch
  cold : s.disk.cold = disk₀.cold.insert (tmpFile env) ⟨[], false⟩
  changes : s.changes = [.write (tmpFile env) ⟨[], false⟩]
  purged : (removedKeys s.log).Sublist treated
  purgedAll : (∀ i, env.fault i .removeKey = none) → removedKeys s.log = treated
  moved : s.moved = count

variable {serde env disk₀ items}
variable {flushed buffered : List (Bytes × Bytes)} {s : PassState}
variable {writer : Option ExportWriter} {batch : PendingBatch}
variable {treated : List Bytes} {count : Nat}

theorem Writing.arrive (h : Writing env disk₀ items writer batch treated count s) :
    Writing env disk₀ items writer batch treated count (s.arrive env) :=
  { h with
    mid := h.mid.arrive
    purged := by rw [arrive_removedKeys]; exact h.purged
    purgedAll := by rw [arrive_removedKeys]; exact h.purgedAll }

/-- With a decodable item seen, the loop state is the writing state. -/
theorem scanning_iff_writing (hrows : exportRows serde (flushed ++ buffered) ≠ []) :
    Scanning serde env disk₀ items flushed buffered s ↔
      Writing env disk₀ items (some ⟨tmpFile env, exportRows serde flushed⟩)
        (PendingBatch.of serde buffered) (flushed.map Prod.fst)
        (exportRows serde flushed).length s := by
  constructor
  · rintro ⟨hmid, hchunk, hmoved⟩
    exact ⟨hmid, by rw [hchunk.exporter, if_neg hrows], hchunk.pending,
      by rw [hchunk.cold, if_neg hrows], by rw [hchunk.changes, if_neg hrows],
      hchunk.purged, hchunk.purgedAll, hmoved⟩
  · intro h
    exact ⟨h.mid, ⟨h.pending, by rw [h.exporter, if_neg hrows],
      by rw [h.cold, if_neg hrows], by rw [h.changes, if_neg hrows], h.purged, h.purgedAll⟩,
      h.moved⟩

end

section

variable (serde : SerdeJson) (env : Env) (disk₀ : Disk) (items : List (Bytes × Bytes))
variable (flushed : List (Bytes × Bytes)) {buffered : List (Bytes × Bytes)}
variable (writer : Option ExportWriter) (batch : PendingBatch)
variable (treated : List Bytes) (count : Nat)

/-- An operation of the scan whose failure is returned. -/
theorem scan_io_rule {op : IoOp} (hop : op ∈ scanOps) {wrap : String → Error}
    {effect : PassState → PassState} {P Q : PassState → Prop}
    (hmid : ∀ s, P s → Mid env disk₀ items s)
    (harrive : ∀ s, P s → P (s.arrive env))
    (hok : ∀ s, P s → Q (effect s)) (hmid' : ∀ s, Q s → Mid env disk₀ items s) :
    Triple P (io env op wrap effect) (Mid env disk₀ items) (fun _ => Q)
      (ScanError env disk₀ items) := by
  apply io_rule (R := P)
  · intro s hs
    exact ⟨harrive s hs, (hmid s hs).arrive⟩
  · intro s _ hs _
    exact ⟨hmid' _ (hok s hs), hok s hs⟩
  · intro s i e hs hfault
    exact ⟨hmid s hs, op, hop, i, e, hfault⟩

theorem purgeKey_triple (removals : List Bytes) {key : Bytes}
    (hkey : key ∈ items.map Prod.fst) {E : PassStop → PassState → Prop} :
    Triple
      (Writing env disk₀ items writer { batch with removals } treated count)
      (purgeKey env key) (Mid env disk₀ items)
      (fun _ => Writing env disk₀ items writer
        { batch with removals := removals.tail } (treated ++ [key]) count) E := by
  unfold purgeKey
  apply Triple.bind (Q := fun _ => Writing env disk₀ items writer
    { batch with removals := removals.tail } treated count)
  · apply Triple.update
    intro s hs
    have hmid : Mid env disk₀ items { s with
        pending := { s.pending with removals := s.pending.removals.tail } } :=
      hs.mid.locals rfl rfl rfl rfl rfl
    exact ⟨hmid, { hs with mid := hmid, pending := by rw [hs.pending] }⟩
  · intro _
    apply ioOrWarn_rule (R := fun s => 1 < s.ops ∧ Writing env disk₀ items writer
      { batch with removals := removals.tail } treated count s)
    · intro s hs
      exact ⟨⟨Nat.succ_lt_succ hs.mid.history.begun.ops, hs.arrive⟩, hs.mid.arrive⟩
    · rintro s i ⟨hmore, hs⟩ -
      have hmid := hs.mid.removeKey hmore hkey
      have hlog : removedKeys (s.removeKey key).log = removedKeys s.log ++ [key] :=
        removedKeys_append _ _
      refine ⟨hmid, { hs with mid := hmid, purged := ?_, purgedAll := ?_ }⟩
      · rw [hlog]
        exact hs.purged.append (List.Sublist.refl _)
      · intro hfree
        rw [hlog, hs.purgedAll hfree]
    · rintro s i e ⟨-, hs⟩ hfault
      refine { hs with purged := ?_, purgedAll := ?_ }
      · exact hs.purged.trans (List.sublist_append_left _ _)
      · intro hfree
        rw [hfree i] at hfault
        contradiction

theorem purgeKeys_triple {keys : List Bytes} (hkeys : ∀ key ∈ keys, key ∈ items.map Prod.fst)
    {E : PassStop → PassState → Prop} :
    Triple
      (Writing env disk₀ items writer { batch with removals := keys } treated count)
      (Prog.forEach (purgeKey env) keys) (Mid env disk₀ items)
      (fun _ => Writing env disk₀ items writer { batch with removals := [] }
        (treated ++ keys) count) E := by
  let loopAt (done : List Bytes) : PassState → Prop :=
    Writing env disk₀ items writer { batch with removals := keys.drop done.length }
      (treated ++ done) count
  have hstep : ∀ done key rest, keys = done ++ key :: rest →
      Triple (loopAt done) (purgeKey env key) (Mid env disk₀ items)
        (fun _ => loopAt (done ++ [key])) E := by
    intro done key rest hsplit
    have hkey : key ∈ items.map Prod.fst := hkeys key (by simp [hsplit])
    have hpurge := purgeKey_triple env disk₀ items writer batch (treated ++ done) count
      (keys.drop done.length) hkey (E := E)
    simpa [loopAt, List.append_assoc] using hpurge
  have hloop := Triple.forEach keys hstep
  simpa [loopAt] using hloop

/-- A flush without any buffered row only forgets the buffered keys. -/
theorem flush_forgets_triple (hrows : exportRows serde buffered = []) :
    Triple (Scanning serde env disk₀ items flushed buffered) (flush env)
      (Mid env disk₀ items)
      (fun n s => Scanning serde env disk₀ items flushed [] { s with moved := s.moved + n })
      (ScanError env disk₀ items) := by
  unfold flush
  apply Triple.read_bind
  intro t ht
  have hlen : t.pending.len = 0 := by
    rw [ht.2.1.pending, PendingBatch.len_of, hrows]
    rfl
  rw [if_pos hlen]
  apply Triple.bind (Q := fun _ => Scanning serde env disk₀ items flushed [])
  · apply Triple.update
    rintro s rfl
    have hmid : Mid env disk₀ items
        { s with pending := { s.pending with removals := [] } } :=
      ht.1.locals rfl rfl rfl rfl rfl
    have hforget : { s.pending with removals := [] } = PendingBatch.of serde [] := by
      rw [ht.2.1.pending]
      simp [PendingBatch.of, hrows]
    refine ⟨hmid, hmid, ⟨hforget, ?_, ?_, ?_, ht.2.1.purged, ht.2.1.purgedAll⟩, ht.2.2⟩
    · simpa [hrows] using ht.2.1.exporter
    · simpa [hrows] using ht.2.1.cold
    · simpa [hrows] using ht.2.1.changes
  · intro _
    apply Triple.pure
    exact fun s hs => hs

/-- A flush with a buffered row writes the chunk and purges its keys. -/
theorem flush_writes_triple (hrows : exportRows serde buffered ≠ [])
    (hkeys : ∀ item ∈ buffered, item.1 ∈ items.map Prod.fst) :
    Triple (Scanning serde env disk₀ items flushed buffered) (flush env)
      (Mid env disk₀ items)
      (fun n s => Scanning serde env disk₀ items (flushed ++ buffered) []
        { s with moved := s.moved + n })
      (ScanError env disk₀ items) := by
  unfold flush
  apply Triple.read_bind
  intro t ht
  have hlen : t.pending.len ≠ 0 := by
    rw [ht.2.1.pending, PendingBatch.len_of]
    simpa using hrows
  have hboth : exportRows serde (flushed ++ buffered) ≠ [] := by
    simp [hrows]
  have hwriting := (scanning_iff_writing hboth).mp ht
  have hbatch : t.pending.recordBatch = .ok (exportRows serde buffered) := by
    rw [hwriting.pending, PendingBatch.recordBatch_of]
  have hremovals : t.pending.removals = buffered.map Prod.fst := by
    rw [hwriting.pending]
    rfl
  rw [if_neg hlen]
  simp only [hbatch, hwriting.exporter, hremovals]
  let chunk : PendingBatch :=
    { PendingBatch.new with removals := buffered.map Prod.fst }
  let written : Option ExportWriter :=
    some ⟨tmpFile env, exportRows serde flushed ++ exportRows serde buffered⟩
  apply Triple.bind (Q := fun _ => Writing env disk₀ items
    (some ⟨tmpFile env, exportRows serde flushed⟩) chunk
    (flushed.map Prod.fst) (exportRows serde flushed).length)
  · apply Triple.update
    rintro s rfl
    have hmid : Mid env disk₀ items { s with pending := s.pending.finish } :=
      hwriting.mid.locals rfl rfl rfl rfl rfl
    refine ⟨hmid, { hwriting with mid := hmid, pending := ?_ }⟩
    rw [hwriting.pending]
    rfl
  intro _
  apply Triple.bind
  · exact scan_io_rule env disk₀ items (by decide) (fun s hs => hs.mid)
      (fun s hs => hs.arrive) (fun s hs => hs) (fun s hs => hs.mid)
  intro _
  apply Triple.bind (Q := fun _ => Writing env disk₀ items written chunk
    (flushed.map Prod.fst) (exportRows serde flushed).length)
  · apply scan_io_rule env disk₀ items (by decide)
    · exact fun s hs => hs.mid
    · exact fun s hs => hs.arrive
    · intro s hs
      exact { hs with mid := hs.mid.locals rfl rfl rfl rfl rfl, exporter := rfl }
    · exact fun s hs => hs.mid
  intro _
  apply Triple.bind
  · apply purgeKeys_triple env disk₀ items written PendingBatch.new
    simpa using hkeys
  intro _
  apply Triple.pure
  intro s hs
  refine (scanning_iff_writing ?_).mpr ?_
  · simpa using hboth
  · have hmid : Mid env disk₀ items
        { s with moved := s.moved + (exportRows serde buffered).length } :=
      hs.mid.locals rfl rfl rfl rfl rfl
    refine { hs with mid := hmid, exporter := ?_, purged := ?_, purgedAll := ?_, moved := ?_ }
    · simpa using hs.exporter
    · simpa using hs.purged
    · simpa using hs.purgedAll
    · simp [hs.moved]

/-- A flush writes and purges the buffered chunk; a chunk without any decodable
item is only forgotten. -/
theorem flush_triple
    (hkeys : ∀ item ∈ buffered, item.1 ∈ items.map Prod.fst) :
    Triple (Scanning serde env disk₀ items flushed buffered) (flush env)
      (Mid env disk₀ items)
      (fun n s => Scanning serde env disk₀ items (Chunks.close decodable (flushed, buffered)) []
        { s with moved := s.moved + n })
      (ScanError env disk₀ items) := by
  by_cases hrows : exportRows serde buffered = []
  · have hclose : Chunks.close decodable (flushed, buffered) = flushed :=
      if_pos ((countP_decodable_eq_zero serde).mpr hrows)
    rw [hclose]
    exact flush_forgets_triple serde env disk₀ items flushed hrows
  · have hclose : Chunks.close decodable (flushed, buffered) = flushed ++ buffered :=
      if_neg (mt (countP_decodable_eq_zero serde).mp hrows)
    rw [hclose]
    exact flush_writes_triple serde env disk₀ items flushed hrows hkeys

theorem flushAndCount_triple
    (hkeys : ∀ item ∈ buffered, item.1 ∈ items.map Prod.fst) :
    Triple (Scanning serde env disk₀ items flushed buffered) (flushAndCount env)
      (Mid env disk₀ items)
      (fun _ => Scanning serde env disk₀ items (Chunks.close decodable (flushed, buffered)) [])
      (ScanError env disk₀ items) := by
  unfold flushAndCount
  apply Triple.bind (flush_triple serde env disk₀ items flushed hkeys)
  intro n
  apply Triple.update
  intro s hs
  exact ⟨hs.1, hs⟩

/-- Opening the writer creates an empty temp file. -/
theorem openExportWriter_triple (h : exportRows serde (flushed ++ buffered) = []) :
    Triple (Scanning serde env disk₀ items flushed buffered) (openExportWriter env)
      (Mid env disk₀ items)
      (fun writer s => writer = ⟨tmpFile env, []⟩ ∧
        Writing env disk₀ items none (PendingBatch.of serde buffered)
          (flushed.map Prod.fst) 0 s)
      (ScanError env disk₀ items) := by
  unfold openExportWriter
  have hflushed : exportRows serde flushed = [] := by
    rw [exportRows_append, List.append_eq_nil_iff] at h
    exact h.1
  apply Triple.bind (Q := fun _ => Writing env disk₀ items none
    (PendingBatch.of serde buffered) (flushed.map Prod.fst) 0)
  · apply scan_io_rule env disk₀ items (by decide)
    · exact fun s hs => hs.1
    · exact fun s hs => hs.arrive
    · rintro s ⟨hmid, hchunk, hmoved⟩
      refine ⟨hmid.writeTmp _, ?_, hchunk.pending, ?_, ?_, hchunk.purged, hchunk.purgedAll, ?_⟩
      · exact hchunk.exporter.trans (if_pos h)
      · show s.disk.cold.insert _ _ = _
        rw [hchunk.cold, if_pos h]
        rfl
      · show s.changes ++ _ = _
        rw [hchunk.changes, if_pos h, List.nil_append]
        rfl
      · exact hmoved.trans (by rw [hflushed]; rfl)
    · exact fun s hs => hs.mid
  intro _
  apply Triple.bind
  · exact scan_io_rule env disk₀ items (by decide) (fun s hs => hs.mid)
      (fun s hs => hs.arrive) (fun s hs => hs) (fun s hs => hs.mid)
  intro _
  apply Triple.pure
  exact fun s hs => ⟨rfl, hs⟩

/-- A key that does not decode only joins those to be removed. -/
theorem bufferKey_triple {key value : Bytes} (hdecode : decodeKey key = none) :
    Triple (Scanning serde env disk₀ items flushed buffered)
      (Prog.update fun s => { s with
        pending := { s.pending with removals := s.pending.removals ++ [key] } })
      (Mid env disk₀ items)
      (fun _ => Scanning serde env disk₀ items flushed (buffered ++ [(key, value)]))
      (ScanError env disk₀ items) := by
  have hrows : ∀ l, exportRows serde (l ++ [(key, value)]) = exportRows serde l := by
    simp [exportRows, exportRow, hdecode]
  apply Triple.update
  rintro s ⟨hmid, hchunk, hmoved⟩
  have hmid' : Mid env disk₀ items { s with
      pending := { s.pending with removals := s.pending.removals ++ [key] } } :=
    hmid.locals rfl rfl rfl rfl rfl
  refine ⟨hmid', hmid', ?_, hmoved⟩
  refine { hchunk with pending := ?_, exporter := ?_, cold := ?_, changes := ?_ }
  · rw [PendingBatch.of_append_undecodable serde hdecode, ← hchunk.pending]
  · rw [← List.append_assoc, hrows]
    exact hchunk.exporter
  · rw [← List.append_assoc, hrows]
    exact hchunk.cold
  · rw [← List.append_assoc, hrows]
    exact hchunk.changes

/-- The end of the loop body, once the writer is open. -/
theorem pushRow_triple {key value : Bytes} {ts : UInt64} {name : String}
    (hdecode : decodeKey key = some (ts, name)) (rowsPerBatch : Nat)
    (hkeys : ∀ entry ∈ buffered ++ [(key, value)], entry.1 ∈ items.map Prod.fst) :
    Triple
      (Writing env disk₀ items (some ⟨tmpFile env, exportRows serde flushed⟩)
        (PendingBatch.of serde buffered) (flushed.map Prod.fst)
        (exportRows serde flushed).length)
      (do
        Prog.update fun s => { s with
          pending := s.pending.push ts name (decodeValue serde value).1
            (decodeValue serde value).2.1 (decodeValue serde value).2.2 key }
        let s ← Prog.read
        if rowsPerBatch ≤ s.pending.len then flushAndCount env)
      (Mid env disk₀ items)
      (fun _ =>
        let chunks := Chunks.push decodable rowsPerBatch (flushed, buffered) (key, value)
        Scanning serde env disk₀ items chunks.1 chunks.2)
      (ScanError env disk₀ items) := by
  have hdecodable : decodable (key, value) = true := by simp [decodable, hdecode]
  have hrows : ∀ l, exportRows serde (l ++ [(key, value)]) ≠ [] := by
    simp [exportRows, exportRow, hdecode]
  apply Triple.bind (Q := fun _ =>
    Scanning serde env disk₀ items flushed (buffered ++ [(key, value)]))
  · apply Triple.update
    intro s hs
    have hmid : Mid env disk₀ items { s with
        pending := s.pending.push ts name (decodeValue serde value).1
          (decodeValue serde value).2.1 (decodeValue serde value).2.2 key } :=
      hs.mid.locals rfl rfl rfl rfl rfl
    refine ⟨hmid, (scanning_iff_writing ?_).mpr { hs with mid := hmid, pending := ?_ }⟩
    · rw [← List.append_assoc]
      exact hrows _
    · rw [PendingBatch.of_append_decodable serde hdecode, ← hs.pending]
  intro _
  apply Triple.read_bind
  intro t ht
  have hlen : t.pending.len = (buffered ++ [(key, value)]).countP decodable := by
    rw [ht.2.1.pending, PendingBatch.len_of, length_exportRows]
  by_cases hfull : rowsPerBatch ≤ t.pending.len
  · have hpush : Chunks.push decodable rowsPerBatch (flushed, buffered) (key, value) =
        (flushed ++ (buffered ++ [(key, value)]), []) :=
      Chunks.push_of_full hdecodable (hlen ▸ hfull)
    have hclose : Chunks.close decodable (flushed, buffered ++ [(key, value)]) =
        flushed ++ (buffered ++ [(key, value)]) :=
      if_neg (mt (countP_decodable_eq_zero serde).mp (hrows buffered))
    have hflush := flushAndCount_triple serde env disk₀ items flushed hkeys
    rw [if_pos hfull, hpush, ← hclose]
    apply hflush.precondition
    rintro s rfl
    exact ht
  · have hpush : Chunks.push decodable rowsPerBatch (flushed, buffered) (key, value) =
        (flushed, buffered ++ [(key, value)]) := Chunks.push_of_room (hlen ▸ hfull)
    rw [if_neg hfull, hpush]
    apply Triple.pure
    rintro s rfl
    exact ht

/-- One item of the scan: it joins the open chunk, which is flushed when it is full. -/
theorem scanItem_triple {item : Bytes × Bytes} (rowsPerBatch : Nat)
    (hkeys : ∀ entry ∈ buffered ++ [item], entry.1 ∈ items.map Prod.fst) :
    Triple (Scanning serde env disk₀ items flushed buffered)
      (scanItem serde rowsPerBatch env item) (Mid env disk₀ items)
      (fun _ =>
        let chunks := Chunks.push decodable rowsPerBatch (flushed, buffered) item
        Scanning serde env disk₀ items chunks.1 chunks.2)
      (ScanError env disk₀ items) := by
  obtain ⟨key, value⟩ := item
  unfold scanItem
  apply Triple.bind (Q := fun _ => Scanning serde env disk₀ items flushed buffered)
  · exact scan_io_rule env disk₀ items (by decide) (fun s hs => hs.1)
      (fun s hs => hs.arrive) (fun s hs => hs) (fun s hs => hs.1)
  intro _
  cases hdecode : decodeKey key with
  | none =>
      have hpush : Chunks.push decodable rowsPerBatch (flushed, buffered) (key, value) =
          (flushed, buffered ++ [(key, value)]) :=
        Chunks.push_of_not (by simp [decodable, hdecode])
      rw [hpush]
      exact bufferKey_triple serde env disk₀ items flushed hdecode
  | some decoded =>
      obtain ⟨ts, name⟩ := decoded
      have hpush := pushRow_triple serde env disk₀ items flushed hdecode rowsPerBatch hkeys
      apply Triple.read_bind
      intro t ht
      by_cases hopen : t.exporter.isNone = true
      · rw [if_pos hopen]
        have hempty : exportRows serde (flushed ++ buffered) = [] := by
          by_contra hne
          rw [ht.2.1.exporter, if_neg hne] at hopen
          simp at hopen
        have hflushed : exportRows serde flushed = [] := by
          rw [exportRows_append, List.append_eq_nil_iff] at hempty
          exact hempty.1
        apply Triple.bind
          ((openExportWriter_triple serde env disk₀ items flushed hempty).precondition ?_)
        · intro writer
          refine Triple.bind ?_ fun _ => hpush
          apply Triple.update
          rintro s ⟨rfl, hs⟩
          have hmid : Mid env disk₀ items
              { s with exporter := some ⟨tmpFile env, []⟩ } := hs.mid.locals rfl rfl rfl rfl rfl
          refine ⟨hmid, { hs with mid := hmid, exporter := ?_, moved := ?_ }⟩
          · rw [hflushed]
          · rw [hflushed]
            exact hs.moved
        · rintro s rfl
          exact ht
      · rw [if_neg hopen]
        apply hpush.precondition
        rintro s rfl
        apply (scanning_iff_writing ?_).mp ht
        intro hempty
        rw [ht.2.1.exporter, if_pos hempty] at hopen
        exact hopen rfl

/-- The whole scan: what is flushed and buffered are the chunks of the items read. -/
theorem scanLoop_triple (rowsPerBatch : Nat) :
    Triple (Scanning serde env disk₀ items [] [])
      (Prog.forEach (scanItem serde rowsPerBatch env) items) (Mid env disk₀ items)
      (fun _ =>
        let chunks := Chunks.split decodable rowsPerBatch items
        Scanning serde env disk₀ items chunks.1 chunks.2)
      (ScanError env disk₀ items) := by
  let loopAt (done : List (Bytes × Bytes)) : PassState → Prop :=
    let chunks := Chunks.split decodable rowsPerBatch done
    Scanning serde env disk₀ items chunks.1 chunks.2
  have hstep : ∀ done item rest, items = done ++ item :: rest →
      Triple (loopAt done) (scanItem serde rowsPerBatch env item) (Mid env disk₀ items)
        (fun _ => loopAt (done ++ [item])) (ScanError env disk₀ items) := by
    intro done item rest hsplit
    have hread := Chunks.split_append (p := decodable) (n := rowsPerBatch) done
    simp only [loopAt, Chunks.split_concat]
    apply scanItem_triple serde env disk₀ items _ rowsPerBatch
    intro entry hentry
    apply List.mem_map_of_mem
    rw [hsplit, ← hread]
    rcases List.mem_append.mp hentry with h | h
    · simp [h]
    · simp [List.mem_singleton.mp h]
  exact Triple.forEach items hstep

/-- The last flush: the open chunk is kept if it holds a row. -/
theorem lastFlush_triple (rowsPerBatch : Nat) :
    Triple
      (Scanning serde env disk₀ items (Chunks.split decodable rowsPerBatch items).1
        (Chunks.split decodable rowsPerBatch items).2)
      (flushAndCount env) (Mid env disk₀ items)
      (fun _ => Scanning serde env disk₀ items (Chunks.kept decodable rowsPerBatch items) [])
      (ScanError env disk₀ items) := by
  apply flushAndCount_triple
  intro item hitem
  apply List.mem_map_of_mem
  rw [← Chunks.split_append (p := decodable) (n := rowsPerBatch) items]
  exact List.mem_append_right _ hitem

end

end Tonggeret.Storage
