import Tonggeret.Storage.RenameThenPurge

/-!
# A fault-free pass moves the expired rows

Without failures a pass returns the number of expired rows, publishes them in key
order, and leaves the other rows together with what the writer inserted.  A row
inserted under the key of an expired one is removed with it when it arrives before
the removal.
-/

namespace Tonggeret.Storage

open Tonggeret.Lib Tonggeret.Lib.Prog

/-! ## What the pass is meant to do -/

/-- `now - retention` is computed without an error or a panic. -/
structure InChronoRange (now : Instant) (retention : Nat) : Prop where
  duration : retention ≤ (2 ^ 63 - 1) * 1000000
  lower : minUtc ≤ now - retention
  upper : now - retention ≤ maxUtc

/-- Microseconds of `now - retention`, at least 0. -/
def cutoffAt (now : Instant) (retention : Nat) : Nat :=
  (Int.fdiv (now - retention) 1000).toNat

def EncodedKeys (m : SortedMap Bytes Bytes) : Prop :=
  ∀ entry ∈ m, ∃ ts seq name, entry.1 = encodeKey ts seq name

/-- The timestamp of the stored row lies before the cutoff. -/
def isOlder (cutoff : Nat) (entry : Bytes × Bytes) : Bool :=
  match decodeKey entry.1 with
  | some (ts, _) => ts.toNat < cutoff
  | none => false

/-- The cold row of a stored row, its timestamp taken as it is. -/
def coldRow (serde : SerdeJson) (entry : Bytes × Bytes) : Option Row :=
  (decodeKey entry.1).map fun (ts, name) =>
    let (value, kind, labels) := decodeValue serde entry.2
    ⟨ts.toNat, name, value, kind, labels⟩

/-- The inserted rows whose key is not removed later on. -/
def survivors : List PartitionEvent → List (Bytes × Bytes)
  | [] => []
  | .inserted key value :: log =>
      if key ∈ removedKeys log then survivors log else (key, value) :: survivors log
  | .removed _ :: log => survivors log

/-- No key is removed after the last row inserted under it. -/
def LastKept : List PartitionEvent → Prop
  | [] => True
  | .inserted key _ :: log =>
      (key ∈ removedKeys log → key ∈ (insertedRows log).map Prod.fst) ∧ LastKept log
  | .removed _ :: log => LastKept log

/-! ## The cutoff -/

/-- No instant of the calendar overflows `i64` microseconds. -/
theorem toNat_micros_lt {x : Int} (h : x ≤ maxUtc) : (x.fdiv 1000).toNat < 2 ^ 63 := by
  have hupper : x ≤ 8210266876799 * 1000000000 + 999999999 := h
  rw [Int.fdiv_eq_ediv_of_nonneg _ (by decide)]
  omega

theorem toNat_timestampMicrosOrZero {x : Int} (h : x ≤ maxUtc) :
    (timestampMicrosOrZero x).toNat = (x.fdiv 1000).toNat := by
  have hmicros := toNat_micros_lt h
  unfold timestampMicrosOrZero
  by_cases hsign : 0 ≤ x.fdiv 1000
  · simp only [hsign, if_true, UInt64.toNat_ofNat']
    omega
  · simp only [hsign, if_false]
    rw [Int.toNat_of_nonpos (by omega)]
    rfl

theorem cutoffMicros_eq {now : Instant} {retention : Nat} (h : InChronoRange now retention) :
    ∃ cutoff, cutoffMicros retention now = .ok cutoff ∧
      cutoff.toNat = cutoffAt now retention ∧ cutoff.toNat < 2 ^ 63 := by
  refine ⟨timestampMicrosOrZero (now - retention), ?_, ?_⟩
  · unfold cutoffMicros
    rw [durationFromStd, if_pos h.duration]
    simp [subDuration, h.lower, h.upper]
  · rw [toNat_timestampMicrosOrZero h.upper]
    exact ⟨rfl, toNat_micros_lt h.upper⟩

section

variable {serde : SerdeJson} {cutoff : UInt64} {m : SortedMap Bytes Bytes}

theorem isOlder_iff_lt_bound (hkeys : EncodedKeys m) {entry : Bytes × Bytes}
    (hentry : entry ∈ m) :
    isOlder cutoff.toNat entry = true ↔ entry.1 < utf8 (cutoffPrefix cutoff) := by
  obtain ⟨ts, seq, name, hkey⟩ := hkeys entry hentry
  rw [isOlder, hkey, decodeKey_encodeKey, encodeKey_lt_cutoffPrefix_iff,
    UInt64.lt_iff_toNat_lt]
  simp

theorem below_eq_filter_isOlder (hkeys : EncodedKeys m) :
    m.below (utf8 (cutoffPrefix cutoff)) = m.entries.filter (isOlder cutoff.toNat) := by
  unfold SortedMap.below
  apply List.filter_congr
  intro entry hentry
  have holder : isOlder cutoff.toNat entry = true ↔ entry.1 < utf8 (cutoffPrefix cutoff) :=
    isOlder_iff_lt_bound hkeys hentry
  by_cases hlt : entry.1 < utf8 (cutoffPrefix cutoff)
  · simp [hlt, holder.mpr hlt]
  · simp [hlt, mt holder.mp hlt]

/-- The saturation to `i64::MAX` is never taken below the cutoff. -/
theorem exportRow_eq_coldRow (hcutoff : cutoff.toNat < 2 ^ 63) {entry : Bytes × Bytes}
    (hentry : isOlder cutoff.toNat entry = true) :
    exportRow serde entry = coldRow serde entry := by
  unfold exportRow coldRow
  cases hdecode : decodeKey entry.1 with
  | none => rfl
  | some decoded =>
      obtain ⟨ts, name⟩ := decoded
      have hts : ts.toNat < 2 ^ 63 := by
        rw [isOlder, hdecode] at hentry
        have hlt : ts.toNat < cutoff.toNat := by simpa using hentry
        omega
      have hsaturate : saturateI64 ts = ts.toNat := if_pos hts
      simp [hsaturate]

theorem map_some_exportRows (hcutoff : cutoff.toNat < 2 ^ 63)
    {items : List (Bytes × Bytes)} (hitems : ∀ item ∈ items, isOlder cutoff.toNat item = true) :
    (exportRows serde items).map some = items.map (coldRow serde) := by
  induction items with
  | nil => rfl
  | cons item items ih =>
      have hitem := hitems item List.mem_cons_self
      have hrow : exportRow serde item = coldRow serde item := exportRow_eq_coldRow hcutoff hitem
      have htail := ih fun x hx => hitems x (List.mem_cons_of_mem _ hx)
      cases hexport : exportRow serde item with
      | none =>
          have hdecode : decodeKey item.1 = none := by simpa [exportRow] using hexport
          rw [isOlder, hdecode] at hitem
          contradiction
      | some row =>
          have hcons : exportRows serde (item :: items) = row :: exportRows serde items := by
            simp [exportRows, hexport]
          rw [hcons, List.map_cons, List.map_cons, htail, ← hrow, hexport]

/-! ## The partition -/

theorem foldl_erase_eq_filter {keys : List Bytes} :
    keys.foldl SortedMap.erase m = m.filter fun entry => !keys.contains entry.1 := by
  induction keys generalizing m with
  | nil =>
      apply SortedMap.ext_mem
      intro entry
      simp [SortedMap.mem_filter]
  | cons key keys ih =>
      rw [List.foldl_cons, ih]
      apply SortedMap.ext_mem
      intro entry
      simp only [SortedMap.mem_filter, SortedMap.mem_erase, List.contains_cons]
      by_cases hkey : entry.1 = key <;> simp [hkey]

/-- The partition is what was not removed, overlaid with the rows that survive. -/
theorem replay_eq_insertAll_survivors (log : List PartitionEvent) :
    replay m log = ((removedKeys log).foldl SortedMap.erase m).insertAll (survivors log) := by
  induction log generalizing m with
  | nil => rfl
  | cons event log ih =>
      cases event with
      | removed key => exact ih
      | inserted key value =>
          change replay (m.insert key value) log = _
          rw [ih]
          have hremoved : removedKeys (.inserted key value :: log) = removedKeys log := rfl
          rw [hremoved, foldl_erase_eq_filter, foldl_erase_eq_filter, survivors]
          by_cases hkey : key ∈ removedKeys log
          · rw [if_pos hkey]
            congr 1
            apply SortedMap.ext_mem
            intro entry
            simp only [SortedMap.mem_filter, SortedMap.mem_insert]
            by_cases hentry : entry.1 = key
            · simp [hentry, hkey]
            · have hpair : entry ≠ (key, value) := fun h => hentry (congrArg Prod.fst h)
              simp [hentry, hpair]
          · rw [if_neg hkey]
            change _ = SortedMap.insertAll (SortedMap.insert _ key value) _
            congr 1
            apply SortedMap.ext_mem
            intro entry
            simp only [SortedMap.mem_filter, SortedMap.mem_insert]
            by_cases hentry : entry.1 = key
            · by_cases hpair : entry = (key, value)
              · simp [hpair, hkey]
              · simp [hentry, hpair]
            · have hpair : entry ≠ (key, value) := fun h => hentry (congrArg Prod.fst h)
              simp [hentry, hpair]

theorem survivors_sublist (log : List PartitionEvent) :
    (survivors log).Sublist (insertedRows log) := by
  induction log with
  | nil => exact List.Sublist.refl _
  | cons event log ih =>
      cases event with
      | removed key => exact ih
      | inserted key value =>
          rw [survivors]
          by_cases hkey : key ∈ removedKeys log
          · rw [if_pos hkey]
            exact ih.cons (key, value)
          · rw [if_neg hkey]
            exact ih.cons_cons (key, value)

/-- A row is not seen any more once another one is inserted under its key. -/
theorem insert_insertAll_of_touched {rows : List (Bytes × Bytes)} {key value : Bytes}
    (h : key ∈ rows.map Prod.fst) : (m.insert key value).insertAll rows = m.insertAll rows := by
  apply SortedMap.ext_mem
  intro entry
  by_cases hentry : entry.1 = key
  · exact SortedMap.mem_insertAll_of_touched (hentry ▸ h)
  · have hpair : entry ≠ (key, value) := fun heq => hentry (congrArg Prod.fst heq)
    apply SortedMap.insertAll_congr
    rw [SortedMap.mem_insert]
    simp [hentry, hpair]

/-- The rows that survive are, as a map, those inserted if and only if the last one under
each key survives. -/
theorem insertAll_survivors_iff {log : List PartitionEvent}
    (hremoved : ∀ entry ∈ m, entry.1 ∉ removedKeys log) :
    m.insertAll (survivors log) = m.insertAll (insertedRows log) ↔ LastKept log := by
  induction log generalizing m with
  | nil => exact iff_of_true rfl trivial
  | cons event log ih =>
      cases event with
      | removed key =>
          apply ih
          intro entry hentry hmem
          exact hremoved entry hentry (List.mem_cons_of_mem _ hmem)
      | inserted key value =>
          have htail : ∀ entry ∈ m, entry.1 ∉ removedKeys log := hremoved
          show _ = (m.insert key value).insertAll (insertedRows log) ↔ _
          rw [survivors, LastKept]
          by_cases hkey : key ∈ removedKeys log
          · rw [if_pos hkey]
            by_cases hagain : key ∈ (insertedRows log).map Prod.fst
            · rw [insert_insertAll_of_touched hagain, ih htail]
              simp [hagain]
            · -- the row was the last one under its key, and it is gone
              apply iff_of_false _ fun hkept => hagain (hkept.1 hkey)
              intro heq
              have hmem : (key, value) ∈ m.insertAll (survivors log) := by
                rw [heq, SortedMap.mem_insertAll_of_untouched hagain]
                exact SortedMap.mem_insert.mpr (Or.inl rfl)
              have hfresh : key ∉ (survivors log).map Prod.fst := by
                intro hsurvives
                exact hagain (((survivors_sublist log).map Prod.fst).subset hsurvives)
              rw [SortedMap.mem_insertAll_of_untouched hfresh] at hmem
              exact htail _ hmem hkey
          · rw [if_neg hkey]
            have hnew : ∀ entry ∈ m.insert key value, entry.1 ∉ removedKeys log := by
              intro entry hentry
              rcases SortedMap.mem_insert.mp hentry with rfl | ⟨hold, -⟩
              · exact hkey
              · exact htail entry hold
            show (m.insert key value).insertAll (survivors log) = _ ↔ _
            rw [ih hnew]
            simp [hkey]

theorem survivors_eq_insertedRows {log : List PartitionEvent}
    (h : ∀ row ∈ insertedRows log, row.1 ∉ removedKeys log) :
    survivors log = insertedRows log := by
  induction log with
  | nil => rfl
  | cons event log ih =>
      cases event with
      | removed key =>
          apply ih
          intro row hrow hmem
          exact h row hrow (List.mem_cons_of_mem _ hmem)
      | inserted key value =>
          have hkey : key ∉ removedKeys log := h (key, value) List.mem_cons_self
          have htail := ih fun row hrow => h row (List.mem_cons_of_mem _ hrow)
          rw [survivors, if_neg hkey, htail]
          rfl

end

/-! ## The pass -/

section

variable (serde : SerdeJson) (rowsPerBatch : Nat) (env : Env) (cfg : FjallConfig)
variable (disk₀ : Disk)

/-- The rows of the snapshot from before the cutoff, in key order. -/
def olderRows : List (Bytes × Bytes) :=
  (snapshot env disk₀).entries.filter (isOlder (cutoffAt env.cutoffClock cfg.retention))

/-- The rest of the snapshot. -/
def youngerRows : SortedMap Bytes Bytes :=
  (snapshot env disk₀).filter fun entry =>
    !isOlder (cutoffAt env.cutoffClock cfg.retention) entry

/-- The rows the writer inserted between the snapshot and this state. -/
def insertedMeanwhile (s : PassState) : List (Bytes × Bytes) :=
  (List.range (s.ops - 1)).flatMap fun i => env.inserts (i + 1)

/-- Whether a row is older depends on its key only. -/
theorem mem_older_keys_iff {entry : Bytes × Bytes} (hentry : entry ∈ snapshot env disk₀) :
    entry.1 ∈ (olderRows env cfg disk₀).map Prod.fst ↔
      isOlder (cutoffAt env.cutoffClock cfg.retention) entry = true := by
  constructor
  · intro hmem
    obtain ⟨⟨key, value⟩, hold, hkey⟩ := List.mem_map.mp hmem
    obtain ⟨hsnapshot, htime⟩ := List.mem_filter.mp hold
    simp only [isOlder] at htime ⊢
    rw [← hkey]
    exact htime
  · intro htime
    exact List.mem_map_of_mem (List.mem_filter.mpr ⟨hentry, htime⟩)

theorem notMem_older_of_younger {entry : Bytes × Bytes}
    (hentry : entry ∈ youngerRows env cfg disk₀) :
    entry.1 ∉ (olderRows env cfg disk₀).map Prod.fst := by
  obtain ⟨hsnapshot, hyoung⟩ := SortedMap.mem_filter.mp hentry
  rw [mem_older_keys_iff env cfg disk₀ hsnapshot]
  simpa using hyoung

theorem foldl_erase_olderRows :
    ((olderRows env cfg disk₀).map Prod.fst).foldl SortedMap.erase (snapshot env disk₀) =
      youngerRows env cfg disk₀ := by
  rw [foldl_erase_eq_filter]
  apply SortedMap.ext_mem
  intro entry
  simp only [youngerRows, SortedMap.mem_filter]
  refine and_congr_right fun hentry => ?_
  have holder := mem_older_keys_iff env cfg disk₀ hentry
  by_cases htime : isOlder (cutoffAt env.cutoffClock cfg.retention) entry = true
  · simp [htime, holder.mpr htime]
  · simp [htime, mt holder.mp htime]

/-- A fault-free pass succeeds, in a finished state with every expired key removed. -/
theorem fault_free_pass_finishes (hfree : ∀ i op, env.fault i op = none)
    (hkeys : EncodedKeys (snapshot env disk₀))
    (hrange : InChronoRange env.cutoffClock cfg.retention) :
    let run := runCompactionOnceBlocking serde rowsPerBatch env cfg (PassState.start disk₀)
    let older := olderRows env cfg disk₀
    run.outcome = .ok older.length ∧ Finished serde env disk₀ older run.final ∧
      (exportRows serde older).map some = older.map (coldRow serde) ∧
      removedKeys run.final.log = older.map Prod.fst := by
  intro run older
  obtain ⟨cutoff, hcutoff, hnat, hsmall⟩ := cutoffMicros_eq hrange
  have holder : expired env disk₀ cutoff = older := by
    unfold expired
    rw [below_eq_filter_isOlder hkeys, hnat]
    rfl
  have hdecodes : ∀ item ∈ older, isOlder cutoff.toNat item = true := by
    intro item hitem
    rw [hnat]
    exact (List.mem_filter.mp hitem).2
  have hrows : (exportRows serde older).map some = older.map (coldRow serde) :=
    map_some_exportRows hsmall hdecodes
  have hlength : (exportRows serde older).length = older.length := by
    simpa using congrArg List.length hrows
  obtain ⟨houtcome, hdone, hremoved⟩ :=
    fault_free_pass_succeeds serde env disk₀ rowsPerBatch cfg hfree hcutoff
  obtain ⟨dropped, hsplit, hcount⟩ := Chunks.exists_kept_append (p := decodable)
    (n := rowsPerBatch) older
  rw [holder] at houtcome hdone hremoved
  refine ⟨by rw [← hlength]; exact houtcome, hdone, hrows, ?_⟩
  have hnone : dropped = [] := by
    rw [List.eq_nil_iff_forall_not_mem]
    intro item hitem
    have hdecode := (exportRows_eq_nil serde).mp
      ((countP_decodable_eq_zero serde).mp hcount) item hitem
    have holditem := hdecodes item (hsplit ▸ List.mem_append_right _ hitem)
    rw [isOlder, hdecode] at holditem
    contradiction
  rw [hnone, List.append_nil] at hsplit
  rw [hremoved, hsplit]

/-- What a fault-free pass returns, publishes and leaves, for every chunk size. -/
theorem fault_free_pass_moves_older_rows (hfree : ∀ i op, env.fault i op = none)
    (hkeys : EncodedKeys (snapshot env disk₀))
    (hrange : InChronoRange env.cutoffClock cfg.retention) :
    let run := runCompactionOnceBlocking serde rowsPerBatch env cfg (PassState.start disk₀)
    let older := olderRows env cfg disk₀
    run.outcome = .ok older.length ∧
    (older = [] → run.final.disk.cold = disk₀.cold) ∧
    (older ≠ [] → ∃ rows : List Row, rows.map some = older.map (coldRow serde) ∧
      run.final.disk.cold =
        (disk₀.cold.erase (tmpFile env)).insert (finalFile env) ⟨rows, true⟩) ∧
    older.Pairwise (fun a b => a.1 < b.1) ∧
    ∃ log, run.final.log = insertEvents (env.inserts 0) ++ log ∧
      insertedRows log = insertedMeanwhile env run.final ∧
      removedKeys log = older.map Prod.fst ∧
      run.final.disk.partition = (youngerRows env cfg disk₀).insertAll (survivors log) ∧
      ((∀ row ∈ insertedRows log, row.1 ∉ older.map Prod.fst) →
        survivors log = insertedRows log) ∧
      (run.final.disk.partition =
          (youngerRows env cfg disk₀).insertAll (insertedMeanwhile env run.final) ↔
        LastKept log) := by
  intro run older
  obtain ⟨houtcome, hdone, hrows, hremoved⟩ :=
    fault_free_pass_finishes serde rowsPerBatch env cfg disk₀ hfree hkeys hrange
  have hempty : exportRows serde older = [] ↔ older = [] := by
    rw [← List.map_eq_nil_iff (f := some), hrows, List.map_eq_nil_iff]
  obtain ⟨log, hlog, hpartition, hinserted⟩ := hdone.history.since_snapshot
  have hkeysRemoved : removedKeys log = older.map Prod.fst := by
    have hall : removedKeys run.final.log = older.map Prod.fst := hremoved
    rw [hlog, removedKeys_append, removedKeys_insertEvents] at hall
    exact hall
  have hcold : run.final.disk.cold = coldAfter serde env disk₀ older :=
    hdone.cold fun i => hfree i .writeRest
  have hleft : run.final.disk.partition =
      (youngerRows env cfg disk₀).insertAll (survivors log) := by
    rw [hpartition, replay_eq_insertAll_survivors, hkeysRemoved, foldl_erase_olderRows]
  refine ⟨houtcome, ?_, ?_, ?_, log, hlog, hinserted, hkeysRemoved, hleft, ?_, ?_⟩
  · intro hnone
    rw [hcold, coldAfter, if_pos (hempty.mpr hnone)]
  · intro hsome
    refine ⟨exportRows serde older, hrows, ?_⟩
    rw [hcold, coldAfter, if_neg (mt hempty.mp hsome)]
  · exact (snapshot env disk₀).sorted.filter _
  · intro hfresh
    apply survivors_eq_insertedRows
    rw [hkeysRemoved]
    exact hfresh
  · have hmeanwhile : insertedMeanwhile env run.final = insertedRows log := hinserted.symm
    rw [hleft, hmeanwhile]
    apply insertAll_survivors_iff
    rw [hkeysRemoved]
    exact fun entry hentry => notMem_older_of_younger env cfg disk₀ hentry

end

/-! ## One stale row -/

theorem encodedKeys_oneStaleRow : EncodedKeys oneStaleRow.partition := by
  intro entry hentry
  rcases SortedMap.mem_insert.mp hentry with rfl | ⟨hmem, -⟩
  · exact ⟨0, 0, "stale_total", rfl⟩
  · exact absurd hmem (SortedMap.notMem_empty entry)

theorem inChronoRange_quietDay :
    InChronoRange quietDay.cutoffClock FjallConfig.default.retention :=
  ⟨by decide, by decide, by decide⟩

theorem stale_row_moved :
    (runCompactionOnceBlocking rejectAll rowsPerBatch quietDay FjallConfig.default
      (PassState.start oneStaleRow)).outcome =
        .ok (olderRows quietDay FjallConfig.default oneStaleRow).length :=
  (fault_free_pass_moves_older_rows rejectAll rowsPerBatch quietDay FjallConfig.default
    oneStaleRow (fun _ _ => rfl) encodedKeys_oneStaleRow inChronoRange_quietDay).1

/-- The writer stores under the expired key just after the snapshot. -/
def overwritingDay : Env :=
  { quietDay with inserts := fun i => if i = 1 then [(staleKey, [1])] else [] }

/-- Its row is removed together with the one that was exported. -/
theorem overwriting_row_removed :
    let s := (runCompactionOnceBlocking rejectAll rowsPerBatch overwritingDay
      FjallConfig.default (PassState.start oneStaleRow)).final
    (∀ i op, overwritingDay.fault i op = none) ∧
    EncodedKeys (snapshot overwritingDay oneStaleRow) ∧
    InChronoRange overwritingDay.cutoffClock FjallConfig.default.retention ∧
    insertedMeanwhile overwritingDay s = [(staleKey, [1])] ∧
    s.disk.partition ≠ (youngerRows overwritingDay FjallConfig.default
      oneStaleRow).insertAll (insertedMeanwhile overwritingDay s) := by
  intro s
  have hinserted : insertedMeanwhile overwritingDay s = [(staleKey, [1])] := by
    decide +kernel
  refine ⟨fun _ _ => rfl, encodedKeys_oneStaleRow, inChronoRange_quietDay, hinserted, ?_⟩
  rw [hinserted]
  have hempty : s.disk.partition.entries = [] := by decide +kernel
  intro hclaim
  have hmem : (staleKey, [1]) ∈ s.disk.partition := by
    rw [hclaim]
    exact SortedMap.mem_insert.mpr (Or.inl rfl)
  rw [← SortedMap.mem_entries, hempty] at hmem
  contradiction

end Tonggeret.Storage
