import Tonggeret.Storage.ExportRows

/-!
# Invariant of the scan loop

What one pass maintains until its temp file is renamed, under any faults and any
rows inserted meanwhile.  `Mid` is what a crash at any moment leaves behind;
`Chunk` ties the column builders, the removal list, the optional writer and the
cold directory to the items flushed and buffered so far.
-/

namespace Tonggeret.Storage

open Tonggeret.Lib Tonggeret.Lib.Prog

section

variable (env : Env)

theorem arrive_log (s : PassState) :
    (s.arrive env).log = s.log ++ insertEvents (env.inserts s.ops) := rfl

@[simp] theorem arrive_removedKeys (s : PassState) :
    removedKeys (s.arrive env).log = removedKeys s.log := by
  simp [arrive_log]

/-- Before an operation the writer's rows arrive; then it is known to fail or not. -/
theorem attempt_rule {op : IoOp} {P R I : PassState → Prop}
    {E : PassStop → PassState → Prop}
    (harrive : ∀ s, P s → R (s.arrive env) ∧ I (s.arrive env)) :
    Triple P (attempt env op) I (fun r s => (∃ i, r = env.fault i op) ∧ R s) E := by
  unfold attempt
  apply Triple.read_bind
  intro t ht
  apply Triple.bind (Q := fun _ => R)
  · apply Triple.update
    rintro s rfl
    exact (harrive s ht).symm
  · intro _
    apply Triple.pure
    exact fun s hs => ⟨⟨t.ops, rfl⟩, hs⟩

/-- The rule for an operation that returns its error. -/
theorem io_rule {op : IoOp} {wrap : String → Error} {effect : PassState → PassState}
    {P R I Q : PassState → Prop} {E : PassStop → PassState → Prop}
    (harrive : ∀ s, P s → R (s.arrive env) ∧ I (s.arrive env))
    (hok : ∀ s i, R s → env.fault i op = none → I (effect s) ∧ Q (effect s))
    (hfail : ∀ s i e, R s → env.fault i op = some e → E (.error (wrap e)) s) :
    Triple P (io env op wrap effect) I (fun _ => Q) E := by
  unfold io
  apply Triple.bind (attempt_rule env harrive)
  intro r
  apply Triple.of_and
  rintro ⟨i, rfl⟩
  cases hfault : env.fault i op with
  | some e =>
      apply Triple.fail
      exact fun s hs => hfail s i e hs hfault
  | none =>
      apply Triple.update
      exact fun s hs => hok s i hs hfault

/-- The rule for an operation whose failure is not returned. -/
theorem ioOrWarn_rule {op : IoOp} {effect : PassState → PassState}
    {P R I Q : PassState → Prop} {E : PassStop → PassState → Prop}
    (harrive : ∀ s, P s → R (s.arrive env) ∧ I (s.arrive env))
    (hok : ∀ s i, R s → env.fault i op = none → I (effect s) ∧ Q (effect s))
    (hfail : ∀ s i e, R s → env.fault i op = some e → Q s) :
    Triple P (ioOrWarn env op effect) I (fun _ => Q) E := by
  unfold ioOrWarn
  apply Triple.bind (attempt_rule env harrive)
  intro r
  apply Triple.of_and
  rintro ⟨i, rfl⟩
  cases hfault : env.fault i op with
  | some e =>
      apply Triple.pure
      exact fun s hs => hfail s i e hs hfault
  | none =>
      apply Triple.update
      exact fun s hs => hok s i hs hfault

/-- Some operation of one of these kinds is made to fail. -/
def Faulted (ops : List IoOp) : Prop := ∃ op ∈ ops, ∃ i e, env.fault i op = some e

end

/-- The operations of a pass before its temp file is closed that can stop it. -/
def scanOps : List IoOp :=
  [.createColdDir, .scan, .createTmp, .openWriter, .arrowBatch, .parquetWrite]

section

variable (serde : SerdeJson) (env : Env) (disk₀ : Disk) (items : List (Bytes × Bytes))

def tmpFile : String := tmpName (formatStamp env.openClock)

/-- The change writes the temp file of the pass. -/
def WritesTmp (change : ColdChange) : Prop := ∃ file, change = .write (tmpFile env) file

/-- Between the first and the second operation of a pass nothing is removed. -/
structure Begun (s : PassState) : Prop where
  ops : 0 < s.ops
  first : s.ops = 1 → s.log = insertEvents (env.inserts 0)
  second : 1 < s.ops → insertEvents (env.inserts 0) ++ insertEvents (env.inserts 1) <+: s.log

/-- The partition is its history: rows only arrive from the writer, and only
scanned keys are removed. -/
structure History (s : PassState) : Prop where
  ledger : s.disk.partition = replay disk₀.partition s.log
  arrived : insertedRows s.log = (List.range s.ops).flatMap env.inserts
  begun : Begun env s
  removed : ∀ key ∈ removedKeys s.log, key ∈ items.map Prod.fst

/-- What holds at every moment before the rename: the published files are those
of the start. -/
structure Mid (s : PassState) : Prop where
  history : History env disk₀ items s
  published : ∀ entry, isColdFileName entry.1 = true →
    (entry ∈ s.disk.cold ↔ entry ∈ disk₀.cold)
  changes : ∀ change ∈ s.changes, WritesTmp env change
  unpublished : s.published = none

/-- Loop state: `flushed` items are written and purged, `buffered` ones pending. -/
structure Chunk (flushed buffered : List (Bytes × Bytes)) (s : PassState) : Prop where
  pending : s.pending = PendingBatch.of serde buffered
  exporter : s.exporter =
    if exportRows serde (flushed ++ buffered) = [] then none
    else some ⟨tmpFile env, exportRows serde flushed⟩
  cold : s.disk.cold =
    if exportRows serde (flushed ++ buffered) = [] then disk₀.cold
    else disk₀.cold.insert (tmpFile env) ⟨[], false⟩
  changes : s.changes =
    if exportRows serde (flushed ++ buffered) = [] then []
    else [.write (tmpFile env) ⟨[], false⟩]
  purged : (removedKeys s.log).Sublist (flushed.map Prod.fst)
  purgedAll : (∀ i, env.fault i .removeKey = none) →
    removedKeys s.log = flushed.map Prod.fst

def Scanning (flushed buffered : List (Bytes × Bytes)) (s : PassState) : Prop :=
  Mid env disk₀ items s ∧ Chunk serde env disk₀ flushed buffered s ∧
    s.moved = (exportRows serde flushed).length

/-- How an error leaves a pass before its temp file is closed. -/
def ScanError (_ : PassStop) (s : PassState) : Prop :=
  Mid env disk₀ items s ∧ Faulted env scanOps

variable {serde env disk₀ items}
variable {flushed buffered : List (Bytes × Bytes)} {s : PassState}

/-- What arrived before the snapshot comes first. -/
theorem Begun.snapshot (h : Begun env s) : insertEvents (env.inserts 0) <+: s.log := by
  by_cases hone : s.ops = 1
  · rw [h.first hone]
  · have hpos := h.ops
    have hmore : 1 < s.ops := by omega
    exact (List.prefix_append _ _).trans (h.second hmore)

theorem Begun.arrive (h : Begun env s) : Begun env (s.arrive env) where
  ops := Nat.succ_pos s.ops
  first := by
    intro hone
    have hops : s.ops + 1 = 1 := hone
    have hpos := h.ops
    omega
  second := by
    intro _
    rw [arrive_log]
    by_cases hone : s.ops = 1
    · rw [h.first hone, hone]
    · have hpos := h.ops
      have hmore : 1 < s.ops := by omega
      exact (h.second hmore).trans (List.prefix_append _ _)

theorem Begun.removeKey (h : Begun env s) (hmore : 1 < s.ops) (key : Bytes) :
    Begun env (s.removeKey key) where
  ops := h.ops
  first := by
    intro hone
    have hops : s.ops = 1 := hone
    omega
  second := fun _ => (h.second hmore).trans (List.prefix_append _ _)

theorem History.arrive (h : History env disk₀ items s) :
    History env disk₀ items (s.arrive env) where
  ledger := by
    rw [arrive_log, replay_append, replay_insertEvents, ← h.ledger]
    rfl
  arrived := by
    rw [arrive_log, insertedRows_append, insertedRows_insertEvents, h.arrived]
    change _ = (List.range (s.ops + 1)).flatMap env.inserts
    rw [List.range_succ, List.flatMap_append]
    simp
  begun := h.begun.arrive
  removed := by simpa using h.removed

theorem History.removeKey (h : History env disk₀ items s) (hmore : 1 < s.ops) {key : Bytes}
    (hkey : key ∈ items.map Prod.fst) : History env disk₀ items (s.removeKey key) where
  ledger := by
    change s.disk.partition.erase key = replay disk₀.partition (s.log ++ [.removed key])
    rw [replay_append, ← h.ledger]
    rfl
  arrived := by
    change insertedRows (s.log ++ [.removed key]) = _
    rw [insertedRows_append, h.arrived]
    exact List.append_nil _
  begun := h.begun.removeKey hmore key
  removed := by
    intro k hk
    change k ∈ removedKeys (s.log ++ [.removed key]) at hk
    rw [removedKeys_append, List.mem_append] at hk
    rcases hk with hk | hk
    · exact h.removed k hk
    · obtain rfl : k = key := by simpa [removedKeys] using hk
      exact hkey

/-- A step that touches neither the partition nor the clockwork. -/
theorem History.locals (h : History env disk₀ items s) {t : PassState}
    (hpartition : t.disk.partition = s.disk.partition) (hlog : t.log = s.log)
    (hops : t.ops = s.ops) : History env disk₀ items t where
  ledger := by rw [hpartition, hlog]; exact h.ledger
  arrived := by rw [hlog, hops]; exact h.arrived
  begun := ⟨by rw [hops]; exact h.begun.ops, by rw [hops, hlog]; exact h.begun.first,
    by rw [hops, hlog]; exact h.begun.second⟩
  removed := by rw [hlog]; exact h.removed

theorem Mid.arrive (h : Mid env disk₀ items s) : Mid env disk₀ items (s.arrive env) :=
  ⟨h.history.arrive, h.published, h.changes, h.unpublished⟩

theorem Mid.removeKey (h : Mid env disk₀ items s) (hmore : 1 < s.ops) {key : Bytes}
    (hkey : key ∈ items.map Prod.fst) : Mid env disk₀ items (s.removeKey key) :=
  ⟨h.history.removeKey hmore hkey, h.published, h.changes, h.unpublished⟩

/-- A step that only changes local variables. -/
theorem Mid.locals (h : Mid env disk₀ items s) {t : PassState} (hdisk : t.disk = s.disk)
    (hlog : t.log = s.log) (hops : t.ops = s.ops) (hchanges : t.changes = s.changes)
    (hpublished : t.published = s.published) : Mid env disk₀ items t where
  history := h.history.locals (by rw [hdisk]) hlog hops
  published := by rw [hdisk]; exact h.published
  changes := by rw [hchanges]; exact h.changes
  unpublished := hpublished.trans h.unpublished

theorem Mid.writeTmp (h : Mid env disk₀ items s) (file : ColdFile) :
    Mid env disk₀ items (s.changeCold (.write (tmpFile env) file)) where
  history := h.history.locals rfl rfl rfl
  changes := by
    intro change hchange
    rcases List.mem_append.mp hchange with hold | hnew
    · exact h.changes change hold
    · exact ⟨file, List.mem_singleton.mp hnew⟩
  published := by
    intro entry hcold
    have hne : entry.1 ≠ tmpFile env := by
      intro heq
      rw [heq] at hcold
      simp [tmpFile] at hcold
    have hpair : entry ≠ (tmpFile env, file) := fun heq => hne (congrArg Prod.fst heq)
    change entry ∈ s.disk.cold.insert (tmpFile env) file ↔ _
    rw [SortedMap.mem_insert, ← h.published entry hcold]
    simp [hpair, hne]
  unpublished := h.unpublished

theorem Chunk.arrive (h : Chunk serde env disk₀ flushed buffered s) :
    Chunk serde env disk₀ flushed buffered (s.arrive env) where
  pending := h.pending
  exporter := h.exporter
  cold := h.cold
  changes := h.changes
  purged := by rw [arrive_removedKeys]; exact h.purged
  purgedAll := by rw [arrive_removedKeys]; exact h.purgedAll

theorem Scanning.arrive (h : Scanning serde env disk₀ items flushed buffered s) :
    Scanning serde env disk₀ items flushed buffered (s.arrive env) :=
  ⟨h.1.arrive, h.2.1.arrive, h.2.2⟩

end

end Tonggeret.Storage
