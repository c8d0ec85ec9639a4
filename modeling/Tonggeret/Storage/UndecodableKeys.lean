import Tonggeret.Storage.MovedRows

/-!
# Undecodable keys

An undecodable key joins the removals of the open chunk and is not counted as a row.
It goes when its chunk is flushed with a row; a last chunk without any row is only
forgotten, and its keys stay.
-/

namespace Tonggeret.Storage

open Tonggeret.Lib Tonggeret.Lib.Prog

section

variable (serde : SerdeJson) (env : Env) (disk₀ : Disk) (cutoff : UInt64)

/-- No key of the snapshot below the bound remains; what is still stored under such a
key was inserted after its removal. -/
structure Cleared (s : PassState) : Prop where
  removed : ∀ entry ∈ expired env disk₀ cutoff, entry.1 ∈ removedKeys s.log
  gone : ∀ entry ∈ expired env disk₀ cutoff, ∀ value,
    (entry.1, value) ∈ s.disk.partition → (entry.1, value) ∈ survivors s.log
  exported : ∀ entry ∈ expired env disk₀ cutoff, ∀ row,
    exportRow serde entry = some row → s.disk.Published row
  unchanged : ∀ entry : Bytes × Bytes, ¬ entry.1 < utf8 (cutoffPrefix cutoff) →
    (entry ∈ s.disk.partition ↔
      entry ∈ (snapshot env disk₀).insertAll (insertedMeanwhile env s))

variable {serde env disk₀ cutoff} {s : PassState}

/-- Under a removed key only a row inserted afterwards is stored. -/
theorem History.mem_survivors {items : List (Bytes × Bytes)} (h : History env disk₀ items s)
    {key value : Bytes} (hremoved : key ∈ removedKeys s.log)
    (hmem : (key, value) ∈ s.disk.partition) : (key, value) ∈ survivors s.log := by
  rw [h.ledger, replay_eq_insertAll_survivors, foldl_erase_eq_filter] at hmem
  rcases SortedMap.mem_or_mem_of_mem_insertAll hmem with hold | hnew
  · obtain ⟨-, hkept⟩ := SortedMap.mem_filter.mp hold
    simp [hremoved] at hkept
  · exact hnew

/-- Only keys below the bound are removed. -/
theorem History.mem_iff_of_not_lt (h : History env disk₀ (expired env disk₀ cutoff) s)
    {entry : Bytes × Bytes} (hbound : ¬ entry.1 < utf8 (cutoffPrefix cutoff)) :
    entry ∈ s.disk.partition ↔
      entry ∈ (snapshot env disk₀).insertAll (insertedMeanwhile env s) := by
  obtain ⟨log, hlog, hpartition, hinserted⟩ := h.since_snapshot
  have hnot : entry.1 ∉ removedKeys log := by
    intro hmem
    have hall : entry.1 ∈ removedKeys s.log := by
      rw [hlog, removedKeys_append]
      exact List.mem_append_right _ hmem
    obtain ⟨item, hitem, hkey⟩ := List.mem_map.mp (h.removed _ hall)
    exact hbound (hkey ▸ (SortedMap.mem_below.mp hitem).2)
  rw [hpartition, mem_replay_of_notMem_removedKeys hnot, hinserted]
  rfl

/-- A finished pass whose export is whole has published all the rows it scanned. -/
theorem Finished.published {items : List (Bytes × Bytes)} (h : Finished serde env disk₀ items s)
    (hwritten : ∀ i, env.fault i .writeRest = none) {entry : Bytes × Bytes}
    (hentry : entry ∈ items) {row : Row} (hrow : exportRow serde entry = some row) :
    s.disk.Published row := by
  have hmem : row ∈ exportRows serde items := List.mem_filterMap.mpr ⟨entry, hentry, hrow⟩
  have hne : exportRows serde items ≠ [] := List.ne_nil_of_mem hmem
  refine ⟨(finalFile env, ⟨exportRows serde items, true⟩), ?_, ?_, rfl, hmem⟩
  · rw [SortedMap.mem_entries, h.cold hwritten, coldAfter, if_neg hne, SortedMap.mem_insert]
    exact Or.inl rfl
  · exact isColdFileName_finalName _

/-- A finished pass has cleared the partition once every scanned key is removed. -/
theorem Finished.cleared_iff (h : Finished serde env disk₀ (expired env disk₀ cutoff) s)
    (hwritten : ∀ i, env.fault i .writeRest = none) :
    Cleared serde env disk₀ cutoff s ↔
      ∀ entry ∈ expired env disk₀ cutoff, entry.1 ∈ removedKeys s.log := by
  constructor
  · exact Cleared.removed
  · intro hremoved
    exact {
      removed := hremoved
      gone := fun entry hentry _ hmem => h.history.mem_survivors (hremoved entry hentry) hmem
      exported := fun _ hentry _ hrow => h.published hwritten hentry hrow
      unchanged := fun _ hbound => h.history.mem_iff_of_not_lt hbound }

/-- The keys of a part are those of the whole only if nothing is left out. -/
theorem keys_subset_iff {part rest : List (Bytes × Bytes)}
    (hnodup : ((part ++ rest).map Prod.fst).Nodup) :
    (∀ entry ∈ part ++ rest, entry.1 ∈ part.map Prod.fst) ↔ rest = [] := by
  constructor
  · intro hall
    rw [List.eq_nil_iff_forall_not_mem]
    intro entry hentry
    rw [List.map_append] at hnodup
    have hpart := hall entry (List.mem_append_right _ hentry)
    exact (List.nodup_append.mp hnodup).2.2 _ hpart _ (List.mem_map_of_mem hentry) rfl
  · rintro rfl entry hentry
    rw [List.append_nil] at hentry
    exact List.mem_map_of_mem hentry

end

section

variable (serde : SerdeJson) (env : Env) (cfg : FjallConfig) (disk₀ : Disk)

/-- A fault-free pass succeeds and clears the partition up to the bound, except when
the scan ends, after a full chunk or none, with undecodable keys. -/
theorem expired_cleared_iff (hfree : ∀ i op, env.fault i op = none) {cutoff : UInt64}
    (hcutoff : cutoffMicros cfg.retention env.cutoffClock = .ok cutoff) :
    let run := runCompactionOnceBlocking serde rowsPerBatch env cfg (PassState.start disk₀)
    run.outcome = .ok (exportRows serde (expired env disk₀ cutoff)).length ∧
    (Cleared serde env disk₀ cutoff run.final ↔
      ¬ Chunks.EndsBetween decodable rowsPerBatch (expired env disk₀ cutoff)) := by
  intro run
  obtain ⟨houtcome, hdone, hremoved⟩ :=
    fault_free_pass_succeeds serde env disk₀ rowsPerBatch cfg hfree hcutoff
  obtain ⟨dropped, hsplit, -⟩ := Chunks.exists_kept_append (p := decodable)
    (n := rowsPerBatch) (expired env disk₀ cutoff)
  have hnodup : ((expired env disk₀ cutoff).map Prod.fst).Nodup :=
    (snapshot env disk₀).nodup_keys.sublist (List.filter_sublist.map _)
  have hkept : Chunks.kept decodable rowsPerBatch (expired env disk₀ cutoff) =
      expired env disk₀ cutoff ↔ dropped = [] := by
    conv => lhs; rhs; rw [← hsplit]
    exact List.self_eq_append_right
  refine ⟨houtcome, ?_⟩
  rw [hdone.cleared_iff fun i => hfree i .writeRest, hremoved, ← Chunks.kept_eq_self_iff (by decide), hkept,
    ← keys_subset_iff (hsplit.symm ▸ hnodup), hsplit]

end

theorem cutoffMicros_quietDay :
    cutoffMicros FjallConfig.default.retention quietDay.cutoffClock = .ok 86400000000 := by
  decide

/-- A stale row, and the key `0` in front of it. -/
def rowAndUndecodableKey : Disk :=
  ⟨(SortedMap.empty.insert staleKey []).insert [48] [], SortedMap.empty⟩

theorem stale_row_cleared :
    (expired quietDay rowAndUndecodableKey 86400000000).map decodable = [false, true] ∧
    Cleared rejectAll quietDay rowAndUndecodableKey 86400000000
      (runCompactionOnceBlocking rejectAll rowsPerBatch quietDay FjallConfig.default
        (PassState.start rowAndUndecodableKey)).final := by
  have hcount : (expired quietDay rowAndUndecodableKey 86400000000).countP decodable = 1 := by
    decide +kernel
  refine ⟨by decide +kernel, ?_⟩
  apply (expired_cleared_iff rejectAll quietDay FjallConfig.default rowAndUndecodableKey
    (fun _ _ => rfl) cutoffMicros_quietDay).2.mpr
  rintro ⟨hfull, -⟩
  rw [hcount] at hfull
  exact absurd hfull (by decide)

/-- The only key is `0`. -/
def oneUndecodableKey : Disk := ⟨SortedMap.empty.insert [48] [], SortedMap.empty⟩

/-- Nothing is exported and the key stays. -/
theorem undecodable_key_stays :
    (∀ i op, quietDay.fault i op = none) ∧
    cutoffMicros FjallConfig.default.retention quietDay.cutoffClock = .ok 86400000000 ∧
    ¬ Cleared rejectAll quietDay oneUndecodableKey 86400000000
      (runCompactionOnceBlocking rejectAll rowsPerBatch quietDay FjallConfig.default
        (PassState.start oneUndecodableKey)).final := by
  refine ⟨fun _ _ => rfl, cutoffMicros_quietDay, ?_⟩
  intro hcleared
  have hexpired : ([48], []) ∈ expired quietDay oneUndecodableKey 86400000000 := by
    decide +kernel
  have hnothing : removedKeys (runCompactionOnceBlocking rejectAll rowsPerBatch quietDay
      FjallConfig.default (PassState.start oneUndecodableKey)).final.log = [] := by
    decide +kernel
  have hremoved := hcleared.removed _ hexpired
  rw [hnothing] at hremoved
  contradiction

end Tonggeret.Storage
