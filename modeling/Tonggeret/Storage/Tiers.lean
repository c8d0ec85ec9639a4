import Tonggeret.Storage.ColdDirectory

/-!
# The two tiers

A recorded row is in the hot partition until a pass moves it to a cold file.  Where the
passes meet no failure and find their target names unused, and no key is used twice, each
recorded row is in the end in exactly one place of the two tiers.
-/

namespace Tonggeret.Storage

open Tonggeret.Lib

def Disk.empty : Disk := ⟨SortedMap.empty, SortedMap.empty⟩

/-- The file is one that readers of the cold directory take for an export. -/
def isExport (entry : String × ColdFile) : Bool := isColdFileName entry.1 && entry.2.closed

/-- The published rows, file by file. -/
def coldRows (cold : SortedMap String ColdFile) : List Row :=
  (cold.entries.filter isExport).flatMap fun entry => entry.2.rows

section

variable (serde : SerdeJson)

/-- The rows of both tiers; a hot row is shown as it would be exported. -/
def Disk.rows (disk : Disk) : List Row :=
  exportRows serde disk.partition.entries ++ coldRows disk.cold

variable (rowsPerBatch : Nat)

/-- The state in which a pass that began on the disk ends. -/
def passEnd (env : Env) (cfg : FjallConfig) (disk : Disk) : PassState :=
  (runCompactionOnceBlocking serde rowsPerBatch env cfg (PassState.start disk)).final

/-- What the writer inserted before these many operations of the pass. -/
def arrivals (env : Env) (ops : Nat) : List (Bytes × Bytes) :=
  (List.range ops).flatMap env.inserts

/-- The disk after the rows were inserted in this order, with passes between and around
the inserts that meet no failure and find their target names unused. -/
inductive StoredAs : List (Bytes × Bytes) → Disk → Prop
  | empty : StoredAs [] .empty
  | insert {rows : List (Bytes × Bytes)} {disk : Disk} (h : StoredAs rows disk)
      (more : List (Bytes × Bytes)) :
      StoredAs (rows ++ more) { disk with partition := disk.partition.insertAll more }
  | pass {rows : List (Bytes × Bytes)} {disk : Disk} (h : StoredAs rows disk) (env : Env)
      (cfg : FjallConfig) (hfree : ∀ i op, env.fault i op = none)
      (hfresh : FreshTarget serde disk (.pass env cfg)) :
      StoredAs (rows ++ arrivals env (passEnd serde rowsPerBatch env cfg disk).ops)
        (passEnd serde rowsPerBatch env cfg disk).disk

end

/-! ## The hot tier -/

/-- What is left of a partition and what was removed from it are what it held and what
was inserted, if each key was there once. -/
theorem replay_perm {m : SortedMap Bytes Bytes} {log : List PartitionEvent}
    {gone : List (Bytes × Bytes)} (hgone : removedKeys log = gone.map Prod.fst)
    (hheld : ∀ entry ∈ gone, entry ∈ m) (hnodup : gone.Nodup)
    (hkeys : ((m.entries ++ insertedRows log).map Prod.fst).Nodup) :
    ((replay m log).entries ++ gone).Perm (m.entries ++ insertedRows log) := by
  have hsplit := hkeys
  rw [List.map_append] at hsplit
  have hnew : ∀ entry ∈ m, entry.1 ∉ (insertedRows log).map Prod.fst := fun entry hentry =>
    List.disjoint_of_nodup_append hsplit (List.mem_map_of_mem hentry)
  have hremoved : ∀ entry ∈ gone, entry.1 ∈ removedKeys log := by
    intro entry hentry
    rw [hgone]
    exact List.mem_map_of_mem hentry
  have hkept : ∀ {entry}, entry.1 ∉ removedKeys log →
      (entry ∈ replay m log ↔ entry ∈ m ∨ entry ∈ insertedRows log) := by
    intro entry hentry
    rw [mem_replay_of_notMem_removedKeys hentry,
      SortedMap.mem_insertAll_of_nodup (List.Nodup.of_append_right hsplit)]
    constructor
    · rintro (hins | ⟨hold, -⟩)
      · exact Or.inr hins
      · exact Or.inl hold
    · rintro (hold | hins)
      · exact Or.inr ⟨hold, hnew entry hold⟩
      · exact Or.inl hins
  have habsent : ∀ {entry}, entry.1 ∈ removedKeys log → entry ∉ replay m log := by
    intro entry hentry
    apply notMem_replay_of_mem_removedKeys _ (Or.inr hentry)
    rw [hgone] at hentry
    obtain ⟨held, hmem, hkey⟩ := List.mem_map.mp hentry
    rw [← hkey]
    exact hnew held (hheld held hmem)
  have hall : ((replay m log).entries ++ gone).Nodup := by
    rw [List.nodup_append']
    refine ⟨SortedMap.nodup_entries _, hnodup, fun entry hentry hmem => ?_⟩
    exact habsent (hremoved entry hmem) hentry
  rw [List.perm_ext_iff_of_nodup hall (hkeys.of_map Prod.fst)]
  intro entry
  rw [List.mem_append, List.mem_append, SortedMap.mem_entries, SortedMap.mem_entries]
  by_cases hentry : entry.1 ∈ removedKeys log
  · have hiff : entry ∈ gone ↔ entry ∈ m ∨ entry ∈ insertedRows log := by
      constructor
      · exact fun hmem => Or.inl (hheld entry hmem)
      · rw [hgone] at hentry
        obtain ⟨⟨key, value⟩, hmem, hkey⟩ := List.mem_map.mp hentry
        obtain rfl : key = entry.1 := hkey
        have hold := hheld _ hmem
        rintro (hsame | hins)
        · obtain rfl := SortedMap.value_unique hsame hold
          exact hmem
        · have hmem : entry.1 ∈ (insertedRows log).map Prod.fst := List.mem_map_of_mem hins
          exact (hnew _ hold hmem).elim
    rw [hiff]
    simp [habsent hentry]
  · rw [hkept hentry]
    have hnot : entry ∉ gone := fun hmem => hentry (hremoved entry hmem)
    simp [hnot]

/-! ## The cold tier -/

section

variable {serde : SerdeJson} {rowsPerBatch : Nat}
variable {env : Env} {cfg : FjallConfig} {disk : Disk}

/-- A pass adds its export to what is published. -/
theorem coldRows_coldAfter {items : List (Bytes × Bytes)}
    (hfresh : exportRows serde items ≠ [] → finalFile env ∉ disk.cold.entries.map Prod.fst) :
    (coldRows (coldAfter serde env disk items)).Perm
      (coldRows disk.cold ++ exportRows serde items) := by
  by_cases hrows : exportRows serde items = []
  · rw [coldAfter, if_pos hrows, hrows, List.append_nil]
  · have hkeys : (((disk.cold.erase (tmpFile env)).entries ++
        [(finalFile env, (⟨exportRows serde items, true⟩ : ColdFile))]).map Prod.fst).Nodup := by
      rw [List.map_append, List.nodup_append']
      refine ⟨SortedMap.nodup_keys _, List.nodup_singleton _, fun name hname hfinal => ?_⟩
      obtain rfl := List.mem_singleton.mp hfinal
      obtain ⟨entry, hentry, hsame⟩ := List.mem_map.mp hname
      have hold := (SortedMap.mem_erase.mp (SortedMap.mem_entries.mp hentry)).1
      exact hfresh hrows (List.mem_map.mpr ⟨entry, hold, hsame⟩)
    have htmp : (disk.cold.erase (tmpFile env)).entries.filter isExport =
        disk.cold.entries.filter isExport := by
      rw [SortedMap.erase, List.filter_filter]
      apply List.filter_congr
      intro entry _
      by_cases hname : entry.1 = tmpFile env
      · simp [isExport, hname, tmpFile]
      · simp [hname]
    have hexport : isExport (finalFile env, ⟨exportRows serde items, true⟩) = true := by
      simp [isExport, finalFile]
    have hadded := ((SortedMap.perm_insertAll hkeys).filter isExport).flatMap_right
      fun entry => entry.2.rows
    rw [List.filter_append, htmp, List.flatMap_append,
      List.filter_cons_of_pos hexport] at hadded
    simp only [List.filter_nil, List.flatMap_cons, List.flatMap_nil, List.append_nil] at hadded
    rw [coldAfter, if_neg hrows]
    exact hadded

/-! ## A pass -/

/-- A pass without failures moves rows from the one tier to the other. -/
theorem passEnd_moves (hfree : ∀ i op, env.fault i op = none)
    (hfresh : FreshTarget serde disk (.pass env cfg))
    (hkeys : ((disk.partition.entries ++
      arrivals env (passEnd serde rowsPerBatch env cfg disk).ops).map Prod.fst).Nodup) :
    ∃ gone, ((passEnd serde rowsPerBatch env cfg disk).disk.partition.entries ++ gone).Perm
        (disk.partition.entries ++
          arrivals env (passEnd serde rowsPerBatch env cfg disk).ops) ∧
      (coldRows (passEnd serde rowsPerBatch env cfg disk).disk.cold).Perm
        (coldRows disk.cold ++ exportRows serde gone) := by
  cases hcutoff : cutoffMicros cfg.retention env.cutoffClock with
  | error stop =>
      have hend : passEnd serde rowsPerBatch env cfg disk = PassState.start disk := by
        have hmem : passEnd serde rowsPerBatch env cfg disk ∈
            passStates serde rowsPerBatch env cfg disk := Run.final_mem_reached _
        rwa [passStates_of_error hcutoff, List.mem_singleton] at hmem
      rw [hend]
      exact ⟨[], by simp [PassState.start, arrivals], by simp [PassState.start]⟩
  | ok cutoff =>
      obtain ⟨-, hdone, -⟩ :=
        fault_free_pass_succeeds serde env disk rowsPerBatch cfg hfree hcutoff
      change Finished serde env disk _ (passEnd serde rowsPerBatch env cfg disk) at hdone
      generalize passEnd serde rowsPerBatch env cfg disk = s at hdone hkeys ⊢
      obtain ⟨gone, dropped, hsplit, hnone, hremoved⟩ :=
        hdone.swept.purgedAll fun i => hfree i .removeKey
      obtain ⟨rest, hlog, hpartition, hinserted⟩ := hdone.history.since_snapshot
      have harrived := hdone.history.arrived
      rw [hlog, insertedRows_append, insertedRows_insertEvents] at harrived
      change _ = arrivals env s.ops at harrived
      have hrest : removedKeys rest = gone.map Prod.fst := by
        rw [hlog, removedKeys_append, removedKeys_insertEvents] at hremoved
        exact hremoved
      have hbelow : gone.Sublist (snapshot env disk).entries := by
        have hprefix : gone.Sublist (expired env disk cutoff) := by
          rw [← hsplit]
          exact List.sublist_append_left _ _
        exact hprefix.trans List.filter_sublist
      rw [← harrived, ← List.append_assoc] at hkeys ⊢
      have hsnapshot : (snapshot env disk).entries.Perm
          (disk.partition.entries ++ env.inserts 0) := by
        apply SortedMap.perm_insertAll
        rw [List.map_append] at hkeys
        exact List.Nodup.of_append_left hkeys
      have hgone := replay_perm hrest (m := snapshot env disk)
        (fun entry hentry => SortedMap.mem_entries.mp (hbelow.subset hentry))
        (hbelow.nodup (SortedMap.nodup_entries _))
        ((((hsnapshot.append_right _).map Prod.fst).nodup_iff).mpr hkeys)
      rw [← hpartition] at hgone
      refine ⟨gone, hgone.trans (hsnapshot.append_right _), ?_⟩
      have hexports : exportRows serde (expired env disk cutoff) = exportRows serde gone := by
        rw [← hsplit, exportRows_append, hnone, List.append_nil]
      rw [hdone.cold fun i => hfree i .writeRest, ← hexports]
      exact coldRows_coldAfter fun hrows => hfresh ⟨cutoff, hcutoff, hrows⟩

/-- Rows behind those that are hot or moved go behind the hot ones. -/
theorem append_perm {hot moved rows : List (Bytes × Bytes)} (hrows : (hot ++ moved).Perm rows)
    (more : List (Bytes × Bytes)) : ((hot ++ more) ++ moved).Perm (rows ++ more) := by
  have hswap : ((hot ++ more) ++ moved).Perm ((hot ++ moved) ++ more) := by
    rw [List.append_assoc, List.append_assoc]
    exact List.perm_append_comm.append_left hot
  exact hswap.trans (hrows.append_right more)

theorem nodup_hot_keys {hot moved rows more : List (Bytes × Bytes)}
    (hrows : (hot ++ moved).Perm rows) (hkeys : ((rows ++ more).map Prod.fst).Nodup) :
    ((hot ++ more).map Prod.fst).Nodup := by
  have hall : (((hot ++ more) ++ moved).map Prod.fst).Nodup :=
    (((append_perm hrows more).map Prod.fst).nodup_iff).mpr hkeys
  rw [List.map_append] at hall
  exact List.Nodup.of_append_left hall

/-- The hot rows and those moved are the recorded ones, and the published rows are the exports
of those moved. -/
theorem StoredAs.split {rows : List (Bytes × Bytes)}
    (h : StoredAs serde rowsPerBatch rows disk) (hkeys : (rows.map Prod.fst).Nodup) :
    ∃ moved, (disk.partition.entries ++ moved).Perm rows ∧
      (coldRows disk.cold).Perm (exportRows serde moved) := by
  induction h with
  | empty => exact ⟨[], .nil, .nil⟩
  | @insert rows disk h more ih =>
      have hbefore : (rows.map Prod.fst).Nodup := by
        rw [List.map_append] at hkeys
        exact List.Nodup.of_append_left hkeys
      obtain ⟨moved, hrows, hcold⟩ := ih hbefore
      have hadded := SortedMap.perm_insertAll (nodup_hot_keys hrows hkeys)
      exact ⟨moved, (hadded.append_right moved).trans (append_perm hrows more), hcold⟩
  | @pass rows disk h env cfg hfree hfresh ih =>
      have hbefore : (rows.map Prod.fst).Nodup := by
        rw [List.map_append] at hkeys
        exact List.Nodup.of_append_left hkeys
      obtain ⟨moved, hrows, hcold⟩ := ih hbefore
      obtain ⟨gone, hgone, hpublished⟩ := passEnd_moves hfree hfresh (nodup_hot_keys hrows hkeys)
      refine ⟨gone ++ moved, ?_, ?_⟩
      · rw [← List.append_assoc]
        exact (hgone.append_right moved).trans (append_perm hrows _)
      · rw [exportRows_append]
        exact hpublished.trans ((hcold.append_right _).trans List.perm_append_comm)

end

end Tonggeret.Storage
