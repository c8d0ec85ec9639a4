import Tonggeret.Storage.ScanSteps

/-!
# Outcome of a pass

The end of a pass, from the last flush to the return, and the triple of
`run_compaction_once_blocking` as a whole: what every state on the way satisfies,
what a success leaves, and where a failure can come from.
-/

namespace Tonggeret.Storage

open Tonggeret.Lib Tonggeret.Lib.Prog

section

variable (serde : SerdeJson) (env : Env) (disk₀ : Disk) (items : List (Bytes × Bytes))

/-- All scanned items are counted and, up to undecodable ones and failed
removals, removed. -/
structure Swept (s : PassState) : Prop where
  purged : (removedKeys s.log).Sublist (items.map Prod.fst)
  purgedAll : (∀ i, env.fault i .removeKey = none) →
    ∃ flushed dropped, flushed ++ dropped = items ∧ exportRows serde dropped = [] ∧
      removedKeys s.log = flushed.map Prod.fst
  moved : s.moved = (exportRows serde items).length

/-- The file a pass publishes. -/
def finalFile : String := finalName (formatStamp env.finalizeClock)

/-- The cold directory after a pass whose export is whole. -/
def coldAfter : SortedMap String ColdFile :=
  if exportRows serde items = [] then disk₀.cold
  else (disk₀.cold.erase (tmpFile env)).insert (finalFile env) ⟨exportRows serde items, true⟩

/-- What the temp file holds when it is renamed: all rows, or nothing readable if its last
bytes could not be written. -/
def WrittenAs (rows : List Row) (file : ColdFile) : Prop :=
  (file = ⟨rows, true⟩ ∧ ∃ i, env.fault i .writeRest = none) ∨
    (file = ⟨[], false⟩ ∧ ∃ i e, env.fault i .writeRest = some e)

/-- The changes of a pass that renames its temp file once it holds this file. -/
def Publishes (file : ColdFile) (changes : List ColdChange) : Prop :=
  ∃ writes, changes =
      writes ++ [.write (tmpFile env) file, .rename (tmpFile env) (finalFile env)] ∧
    ∀ change ∈ writes, WritesTmp env change

structure Finished (s : PassState) : Prop where
  history : History env disk₀ items s
  swept : Swept serde env items s
  idle : exportRows serde items = [] →
    s.disk.cold = disk₀.cold ∧ s.published = none ∧ s.changes = []
  exported : exportRows serde items ≠ [] →
    ∃ file, WrittenAs env (exportRows serde items) file ∧ s.published = some file ∧
      s.disk.cold = (disk₀.cold.erase (tmpFile env)).insert (finalFile env) file ∧
      Publishes env file s.changes

/-- How a failure of the close or the rename leaves a pass. -/
def FinishError (_ : PassStop) (s : PassState) : Prop :=
  Mid env disk₀ items s ∧ Swept serde env items s ∧ Faulted env [.close, .rename]

/-- The writer is gone and the temp file waits to be renamed. -/
structure Complete (s : PassState) : Prop where
  mid : Mid env disk₀ items s
  swept : Swept serde env items s
  written : ∃ file, WrittenAs env (exportRows serde items) file ∧
    s.disk.cold = disk₀.cold.insert (tmpFile env) file ∧
    ∃ writes, s.changes = writes ++ [.write (tmpFile env) file]

variable {serde env disk₀ items}
variable {s : PassState}

theorem Swept.locals (h : Swept serde env items s) {t : PassState}
    (hlog : removedKeys t.log = removedKeys s.log) (hmoved : t.moved = s.moved) :
    Swept serde env items t := by
  constructor
  · rw [hlog]
    exact h.purged
  · rw [hlog]
    exact h.purgedAll
  · rw [hmoved]
    exact h.moved

theorem Finished.arrive (h : Finished serde env disk₀ items s) :
    Finished serde env disk₀ items (s.arrive env) where
  history := h.history.arrive
  swept := h.swept.locals (arrive_removedKeys env s) rfl
  idle := h.idle
  exported := h.exported

/-- A file whose last bytes were written is whole. -/
theorem WrittenAs.whole {rows : List Row} {file : ColdFile} (h : WrittenAs env rows file)
    (hwritten : ∀ i, env.fault i .writeRest = none) : file = ⟨rows, true⟩ := by
  rcases h with ⟨hfile, -⟩ | ⟨-, i, e, hfault⟩
  · exact hfile
  · rw [hwritten i] at hfault
    contradiction

theorem Finished.cold (h : Finished serde env disk₀ items s)
    (hwritten : ∀ i, env.fault i .writeRest = none) :
    s.disk.cold = coldAfter serde env disk₀ items := by
  unfold coldAfter
  by_cases hrows : exportRows serde items = []
  · rw [if_pos hrows]
    exact (h.idle hrows).1
  · obtain ⟨file, hfile, -, hcold, -⟩ := h.exported hrows
    rw [if_neg hrows, hcold, hfile.whole hwritten]

theorem Complete.arrive (h : Complete serde env disk₀ items s) :
    Complete serde env disk₀ items (s.arrive env) where
  mid := h.mid.arrive
  swept := h.swept.locals (arrive_removedKeys env s) rfl
  written := h.written

/-- The rename publishes the temp file, over an earlier one of that name. -/
theorem Complete.rename (h : Complete serde env disk₀ items s)
    (hrows : exportRows serde items ≠ []) :
    Finished serde env disk₀ items { s.changeCold (.rename (tmpFile env) (finalFile env)) with
      published := s.disk.cold.get? (tmpFile env) } where
  history := h.mid.history.locals rfl rfl rfl
  swept := h.swept.locals rfl rfl
  idle := fun hnone => absurd hnone hrows
  exported := by
    intro _
    obtain ⟨file, hfile, hcold, writes, hchanges⟩ := h.written
    have hget : s.disk.cold.get? (tmpFile env) = some file := by
      rw [SortedMap.get?_eq_some, hcold, SortedMap.mem_insert]
      exact Or.inl rfl
    have herase : s.disk.cold.erase (tmpFile env) = disk₀.cold.erase (tmpFile env) := by
      apply SortedMap.ext_mem
      intro entry
      rw [hcold, SortedMap.mem_erase, SortedMap.mem_erase, SortedMap.mem_insert]
      constructor
      · rintro ⟨rfl | hmem, hne⟩
        · exact absurd rfl hne
        · exact hmem
      · intro hmem
        exact ⟨Or.inr hmem, hmem.2⟩
    refine ⟨file, hfile, hget, ?_, writes, ?_, ?_⟩
    · show renameFile s.disk.cold (tmpFile env) (finalFile env) = _
      rw [renameFile, hget, herase]
    · show s.changes ++ [.rename (tmpFile env) (finalFile env)] = _
      rw [hchanges, List.append_assoc]
      rfl
    · intro change hchange
      apply h.mid.changes
      rw [hchanges]
      exact List.mem_append_left _ hchange

end

section

variable (serde : SerdeJson) (env : Env) (disk₀ : Disk) (items : List (Bytes × Bytes))

theorem finalizeExport_triple (hrows : exportRows serde items ≠ []) :
    Triple (fun s => Mid env disk₀ items s ∧ Swept serde env items s ∧
        s.disk.cold = disk₀.cold.insert (tmpFile env) ⟨[], false⟩ ∧
        s.changes = [.write (tmpFile env) ⟨[], false⟩])
      (finalizeExport env ⟨tmpFile env, exportRows serde items⟩)
      (fun s => Mid env disk₀ items s ∨ Finished serde env disk₀ items s)
      (fun _ => Finished serde env disk₀ items)
      (FinishError serde env disk₀ items) := by
  let unwritten (s : PassState) : Prop := Mid env disk₀ items s ∧ Swept serde env items s ∧
    s.disk.cold = disk₀.cold.insert (tmpFile env) ⟨[], false⟩ ∧
    s.changes = [.write (tmpFile env) ⟨[], false⟩]
  have harrive : ∀ s, unwritten s → unwritten (s.arrive env) ∧
      (Mid env disk₀ items (s.arrive env) ∨ Finished serde env disk₀ items (s.arrive env)) := by
    rintro s ⟨hmid, hswept, hwriter⟩
    exact ⟨⟨hmid.arrive, hswept.locals (arrive_removedKeys env s) rfl, hwriter⟩,
      Or.inl hmid.arrive⟩
  unfold finalizeExport
  apply Triple.bind (Q := fun _ => unwritten)
  · apply io_rule env harrive
    · exact fun s i hs _ => ⟨Or.inl hs.1, hs⟩
    · rintro s i e ⟨hmid, hswept, -⟩ hfault
      exact ⟨hmid, hswept, .close, by simp, i, e, hfault⟩
  intro _
  apply Triple.bind (Q := fun _ => Complete serde env disk₀ items)
  · apply ioOrWarn_rule env harrive
    · rintro s i ⟨hmid, hswept, hcold, -⟩ hfault
      have hmid' := hmid.writeTmp ⟨exportRows serde items, true⟩
      refine ⟨Or.inl hmid', hmid', hswept.locals rfl rfl, _, Or.inl ⟨rfl, i, hfault⟩, ?_,
        s.changes, rfl⟩
      show s.disk.cold.insert _ _ = _
      rw [hcold]
      apply SortedMap.ext_mem
      intro entry
      simp only [SortedMap.mem_insert]
      grind
    · rintro s i e ⟨hmid, hswept, hcold, hchanges⟩ hfault
      exact ⟨hmid, hswept, _, Or.inr ⟨rfl, i, e, hfault⟩, hcold, [], hchanges⟩
  intro _
  apply io_rule (R := Complete serde env disk₀ items)
  · intro s hs
    exact ⟨hs.arrive, Or.inl hs.mid.arrive⟩
  · intro s _ hs _
    have hdone := hs.rename hrows
    exact ⟨Or.inr hdone, hdone⟩
  · intro s i e hs hfault
    exact ⟨hs.mid, hs.swept, .rename, by simp, i, e, hfault⟩

theorem finishPass_triple (rowsPerBatch : Nat) :
    Triple (Scanning serde env disk₀ items (Chunks.kept decodable rowsPerBatch items) [])
      (finishPass env)
      (fun s => Mid env disk₀ items s ∨ Finished serde env disk₀ items s)
      (fun _ => Finished serde env disk₀ items)
      (FinishError serde env disk₀ items) := by
  obtain ⟨dropped, hsplit, hcount⟩ :=
    Chunks.exists_kept_append (p := decodable) (n := rowsPerBatch) items
  generalize Chunks.kept decodable rowsPerBatch items = flushed at hsplit ⊢
  have hdropped : exportRows serde dropped = [] := (countP_decodable_eq_zero serde).mp hcount
  have hrows : exportRows serde (flushed ++ []) = exportRows serde items := by
    rw [← hsplit, exportRows_append, exportRows_append, hdropped]
    rfl
  have hrows' : exportRows serde flushed = exportRows serde items := by
    rw [← hrows, List.append_nil]
  unfold finishPass
  apply Triple.read_bind
  rintro t ⟨hmid, hchunk, hmoved⟩
  have hswept : Swept serde env items t := by
    refine ⟨?_, ?_, ?_⟩
    · rw [← hsplit, List.map_append]
      exact hchunk.purged.trans (List.sublist_append_left _ _)
    · intro hfree
      exact ⟨flushed, dropped, hsplit, hdropped, hchunk.purgedAll hfree⟩
    · rw [hmoved, hrows']
  have hexporter := hchunk.exporter
  have hcold := hchunk.cold
  have hchanges := hchunk.changes
  by_cases hempty : exportRows serde items = []
  · rw [hrows, if_pos hempty] at hexporter hcold hchanges
    rw [hexporter]
    apply Triple.pure
    rintro s rfl
    exact ⟨hmid.history, hswept, fun _ => ⟨hcold, hmid.unpublished, hchanges⟩,
      fun h => absurd hempty h⟩
  · rw [hrows, if_neg hempty, hrows'] at hexporter
    rw [hrows, if_neg hempty] at hcold hchanges
    rw [hexporter]
    apply Triple.bind ((finalizeExport_triple serde env disk₀ items hempty).precondition ?_)
    · intro _
      apply ioOrWarn_rule
      · intro s hs
        exact ⟨hs.arrive, Or.inr hs.arrive⟩
      · intro s _ hs _
        exact ⟨Or.inr hs, hs⟩
      · intro s i e hs _
        exact hs
    · rintro s rfl
      exact ⟨hmid, hswept, hcold, hchanges⟩

/-- After the last flush no key is removed. -/
theorem finishPass_removes_nothing (K : List Bytes → Prop) :
    Triple (fun s => K (removedKeys s.log)) (finishPass env) (fun _ => True)
      (fun _ s => K (removedKeys s.log)) (fun _ _ => True) := by
  have harrive : ∀ s : PassState, K (removedKeys s.log) →
      K (removedKeys (s.arrive env).log) ∧ True := by
    intro s hs
    rw [arrive_removedKeys]
    exact ⟨hs, trivial⟩
  have hlocal : ∀ s : PassState, K (removedKeys s.log) → True ∧ K (removedKeys s.log) :=
    fun _ hs => ⟨trivial, hs⟩
  unfold finishPass
  apply Triple.read_bind
  intro t ht
  cases t.exporter with
  | none =>
      apply Triple.pure
      rintro s rfl
      exact ht
  | some writer =>
      apply Triple.bind (Q := fun _ s => K (removedKeys s.log))
      · unfold finalizeExport
        apply Triple.bind (Q := fun _ s => K (removedKeys s.log))
        · apply io_rule (R := fun s => K (removedKeys s.log))
          · rintro s rfl
            exact harrive s ht
          · exact fun s _ hs _ => hlocal s hs
          · exact fun _ _ _ _ _ => trivial
        intro _
        apply Triple.bind (Q := fun _ s => K (removedKeys s.log))
        · exact ioOrWarn_rule env harrive (fun s _ hs _ => hlocal s hs) fun _ _ _ hs _ => hs
        intro _
        exact io_rule env harrive (fun s _ hs _ => hlocal s hs) fun _ _ _ _ _ => trivial
      · intro _
        exact ioOrWarn_rule env harrive (fun s _ hs _ => hlocal s hs) fun _ _ _ hs _ => hs

end

/-! ## The whole pass -/

section

variable (serde : SerdeJson) (env : Env) (disk₀ : Disk)

/-- What the partition holds when the scan takes its snapshot. -/
def snapshot : SortedMap Bytes Bytes := disk₀.partition.insertAll (env.inserts 0)

/-- The rows of the snapshot that a pass with this cutoff scans. -/
def expired (cutoff : UInt64) : List (Bytes × Bytes) :=
  (snapshot env disk₀).below (utf8 (cutoffPrefix cutoff))

/-- How a pass with this cutoff fails. -/
def PassError (items : List (Bytes × Bytes)) (_ : PassStop) (s : PassState) : Prop :=
  Mid env disk₀ items s ∧
    (Faulted env scanOps ∨ Swept serde env items s ∧ Faulted env [.close, .rename])

theorem start_arrive_mid (items : List (Bytes × Bytes)) :
    Mid env disk₀ items ((PassState.start disk₀).arrive env) := by
  have hevents : ((PassState.start disk₀).arrive env).log =
      insertEvents (env.inserts 0) := rfl
  refine ⟨⟨?_, ?_, ⟨Nat.one_pos, fun _ => hevents, ?_⟩, ?_⟩, fun _ _ => Iff.rfl,
    fun _ hchange => absurd hchange List.not_mem_nil, rfl⟩
  · rw [hevents, replay_insertEvents]
    rfl
  · rw [hevents, insertedRows_insertEvents]
    simp [PassState.arrive, PassState.start]
  · intro hmore
    exact absurd hmore (lt_irrefl 1)
  · rw [hevents]
    simp

theorem start_arrive_scanning (items : List (Bytes × Bytes)) :
    Scanning serde env disk₀ items [] [] ((PassState.start disk₀).arrive env) := by
  have hremoved : removedKeys ((PassState.start disk₀).arrive env).log = [] :=
    arrive_removedKeys env _
  refine ⟨start_arrive_mid env disk₀ items, ⟨rfl, rfl, rfl, rfl, ?_, ?_⟩, rfl⟩
  · rw [hremoved]
    exact List.Sublist.refl _
  · intro _
    exact hremoved

/-- The pass, and which keys it removes if no removal fails. -/
theorem runCompactionOnceBlocking_removes (rowsPerBatch : Nat) (cfg : FjallConfig)
    {cutoff : UInt64} (hcutoff : cutoffMicros cfg.retention env.cutoffClock = .ok cutoff) :
    Triple (fun s => s = PassState.start disk₀)
      (runCompactionOnceBlocking serde rowsPerBatch env cfg)
      (fun s => Mid env disk₀ (expired env disk₀ cutoff) s ∨
        Finished serde env disk₀ (expired env disk₀ cutoff) s)
      (fun n s => (n = (exportRows serde (expired env disk₀ cutoff)).length ∧
        Finished serde env disk₀ (expired env disk₀ cutoff) s) ∧
        ((∀ i, env.fault i .removeKey = none) → removedKeys s.log =
          (Chunks.kept decodable rowsPerBatch (expired env disk₀ cutoff)).map Prod.fst))
      (PassError serde env disk₀ (expired env disk₀ cutoff)) := by
  have hclean : ∀ m : Pass Unit, ∀ P Q : PassState → Prop,
      Triple P m (Mid env disk₀ (expired env disk₀ cutoff)) (fun _ => Q)
        (ScanError env disk₀ (expired env disk₀ cutoff)) →
      Triple P m
        (fun s => Mid env disk₀ (expired env disk₀ cutoff) s ∨
          Finished serde env disk₀ (expired env disk₀ cutoff) s) (fun _ => Q)
        (PassError serde env disk₀ (expired env disk₀ cutoff)) := by
    intro m P Q h
    exact h.consequence (fun _ h => h) (fun _ h => Or.inl h) (fun _ _ h => h)
      fun _ _ h => ⟨h.1, Or.inl h.2⟩
  unfold runCompactionOnceBlocking
  simp only [hcutoff]
  apply Triple.bind (Q := fun _ s => s = (PassState.start disk₀).arrive env)
  · apply hclean
    apply io_rule (R := fun s => s = (PassState.start disk₀).arrive env)
    · rintro s rfl
      exact ⟨rfl, start_arrive_mid env disk₀ _⟩
    · rintro s i rfl _
      exact ⟨start_arrive_mid env disk₀ _, rfl⟩
    · rintro s i e rfl hfault
      exact ⟨start_arrive_mid env disk₀ _, .createColdDir, by simp [scanOps], i, e, hfault⟩
  intro _
  apply Triple.read_bind
  rintro t rfl
  have hitems : ((PassState.start disk₀).arrive env).disk.partition.below
      (utf8 (cutoffPrefix cutoff)) = expired env disk₀ cutoff := rfl
  rw [hitems]
  apply Triple.bind
  · apply hclean
    apply (scanLoop_triple serde env disk₀ _ rowsPerBatch).precondition
    rintro s rfl
    exact start_arrive_scanning serde env disk₀ _
  intro _
  apply Triple.bind
  · exact hclean _ _ _ (lastFlush_triple serde env disk₀ _ rowsPerBatch)
  intro _
  let removes (keys : List Bytes) : Prop := (∀ i, env.fault i .removeKey = none) →
    keys = (Chunks.kept decodable rowsPerBatch (expired env disk₀ cutoff)).map Prod.fst
  apply Triple.bind
  · exact ((finishPass_triple serde env disk₀ (expired env disk₀ cutoff) rowsPerBatch).and
      (finishPass_removes_nothing env removes)).consequence
        (fun _ h => ⟨h, h.2.1.purgedAll⟩) (fun _ h => h.1) (fun _ _ h => h)
        fun _ _ h => ⟨h.1.1, Or.inr h.1.2⟩
  intro _
  apply Triple.read_bind
  intro t ht
  apply Triple.pure
  rintro s rfl
  exact ⟨⟨ht.1.swept.moved, ht.1⟩, ht.2⟩

/-- The pass: every state on the way is before the rename or finished, a success
returns the number of exported rows. -/
theorem runCompactionOnceBlocking_triple (rowsPerBatch : Nat) (cfg : FjallConfig)
    {cutoff : UInt64} (hcutoff : cutoffMicros cfg.retention env.cutoffClock = .ok cutoff) :
    Triple (fun s => s = PassState.start disk₀)
      (runCompactionOnceBlocking serde rowsPerBatch env cfg)
      (fun s => Mid env disk₀ (expired env disk₀ cutoff) s ∨
        Finished serde env disk₀ (expired env disk₀ cutoff) s)
      (fun n s => n = (exportRows serde (expired env disk₀ cutoff)).length ∧
        Finished serde env disk₀ (expired env disk₀ cutoff) s)
      (PassError serde env disk₀ (expired env disk₀ cutoff)) :=
  (runCompactionOnceBlocking_removes serde env disk₀ rowsPerBatch cfg hcutoff).postcondition
    fun _ _ h => h.1

/-- Without faults the pass succeeds and removes the keys of all flushed chunks. -/
theorem fault_free_pass_succeeds (rowsPerBatch : Nat) (cfg : FjallConfig)
    (hfree : ∀ i op, env.fault i op = none) {cutoff : UInt64}
    (hcutoff : cutoffMicros cfg.retention env.cutoffClock = .ok cutoff) :
    let run := runCompactionOnceBlocking serde rowsPerBatch env cfg (PassState.start disk₀)
    let items := expired env disk₀ cutoff
    run.outcome = .ok (exportRows serde items).length ∧
      Finished serde env disk₀ items run.final ∧
      removedKeys run.final.log = (Chunks.kept decodable rowsPerBatch items).map Prod.fst := by
  intro run items
  obtain ⟨-, hend⟩ := runCompactionOnceBlocking_removes serde env disk₀ rowsPerBatch cfg hcutoff
    (PassState.start disk₀) rfl
  cases houtcome : (runCompactionOnceBlocking serde rowsPerBatch env cfg
    (PassState.start disk₀)).outcome with
  | error stop =>
      rw [houtcome] at hend
      obtain ⟨-, ⟨op, -, i, e, hfault⟩ | ⟨-, op, -, i, e, hfault⟩⟩ := hend
      all_goals
        rw [hfree] at hfault
        contradiction
  | ok n =>
      rw [houtcome] at hend
      obtain ⟨⟨hn, hdone⟩, hremoves⟩ := hend
      exact ⟨congrArg Except.ok hn, hdone, hremoves fun i => hfree i .removeKey⟩

end

end Tonggeret.Storage
