import Tonggeret.Lib.Visits
import Tonggeret.Storage.RenameThenPurge

/-!
# How much a pass buffers

The scan loop flushes by the number of buffered rows.  An undecodable key waits for
removal as well but is not counted, and the branch that adds it does not flush, so the
rows are bounded and the keys are not.
-/

namespace Tonggeret.Storage

open Tonggeret.Lib Tonggeret.Lib.Prog

/-- At most `n` rows and `n` keys are buffered, in columns of equal length, and there is
a writer for the rows. -/
structure Bounded (n : Nat) (s : PassState) : Prop where
  rows : s.pending.len ≤ n
  keys : s.pending.removals.length ≤ n
  columns : s.pending.names.length = s.pending.len ∧ s.pending.values.length = s.pending.len ∧
    s.pending.kinds.length = s.pending.len ∧ s.pending.labels.length = s.pending.len
  opened : s.pending.len ≠ 0 → s.exporter.isSome

/-- The buffer holds this many rows and keys. -/
structure Buffered (rows keys : Nat) (s : PassState) : Prop where
  len : s.pending.len = rows
  removals : s.pending.removals.length = keys
  columns : s.pending.names.length = s.pending.len ∧ s.pending.values.length = s.pending.len ∧
    s.pending.kinds.length = s.pending.len ∧ s.pending.labels.length = s.pending.len
  opened : rows ≠ 0 → s.exporter.isSome

/-- At most `n` rows and `k` keys are buffered. -/
def Within (n k : Nat) (s : PassState) : Prop :=
  ∃ rows keys, rows ≤ n ∧ keys ≤ k ∧ Buffered rows keys s

section

variable (serde : SerdeJson) (env : Env) (n k : Nat)

/-- How an error leaves the loop. -/
def BufferError (_ : PassStop) (s : PassState) : Prop :=
  Within n k s ∧ ∃ i op e, env.fault i op = some e

variable {serde env n k} {rows keys : Nat} {s : PassState}

theorem within_self_iff : Within n n s ↔ Bounded n s := by
  constructor
  · rintro ⟨rows, keys, hrows, hkeys, hs⟩
    rw [← hs.len] at hrows
    rw [← hs.removals] at hkeys
    refine ⟨hrows, hkeys, hs.columns, ?_⟩
    intro hne
    rw [hs.len] at hne
    exact hs.opened hne
  · intro hs
    exact ⟨_, _, hs.rows, hs.keys, rfl, rfl, hs.columns, hs.opened⟩

theorem Buffered.within (h : Buffered rows keys s) (hrows : rows ≤ n) (hkeys : keys ≤ k) :
    Within n k s := ⟨rows, keys, hrows, hkeys, h⟩

/-- A step that leaves the buffer alone and closes no writer. -/
theorem Buffered.locals (h : Buffered rows keys s) {t : PassState}
    (hpending : t.pending = s.pending) (hopened : s.exporter.isSome → t.exporter.isSome) :
    Buffered rows keys t where
  len := by rw [hpending]; exact h.len
  removals := by rw [hpending]; exact h.removals
  columns := by rw [hpending]; exact h.columns
  opened := fun hne => hopened (h.opened hne)

theorem Buffered.arrive (h : Buffered rows keys s) : Buffered rows keys (s.arrive env) :=
  h.locals rfl id

/-! ## Operations -/

variable (env)

theorem buffered_io (hrows : rows ≤ n) (hkeys : keys ≤ k) {op : IoOp}
    {wrap : String → Error} {effect : PassState → PassState}
    (hpending : ∀ s, (effect s).pending = s.pending)
    (hopened : ∀ s : PassState, s.exporter.isSome → (effect s).exporter.isSome) :
    Triple (Buffered rows keys) (io env op wrap effect) (Within n k)
      (fun _ => Buffered rows keys) (BufferError env n k) := by
  apply io_rule (R := Buffered rows keys)
  · intro s hs
    exact ⟨hs.arrive, hs.arrive.within hrows hkeys⟩
  · intro s i hs _
    have hs' := hs.locals (hpending s) (hopened s)
    exact ⟨hs'.within hrows hkeys, hs'⟩
  · intro s i e hs hfault
    exact ⟨hs.within hrows hkeys, i, op, e, hfault⟩

theorem openExportWriter_buffered (hrows : rows ≤ n) (hkeys : keys ≤ k) :
    Triple (Buffered rows keys) (openExportWriter env) (Within n k)
      (fun _ => Buffered rows keys) (BufferError env n k) := by
  unfold openExportWriter
  apply Triple.bind (Q := fun _ => Buffered rows keys)
  · exact buffered_io env hrows hkeys (fun _ => rfl) (fun _ h => h)
  intro _
  apply Triple.bind (Q := fun _ => Buffered rows keys)
  · exact buffered_io env hrows hkeys (fun _ => rfl) (fun _ h => h)
  intro _
  apply Triple.pure
  exact fun s hs => hs

theorem purgeKey_buffered (hrows : rows ≤ n) (hkeys : keys ≤ k) (key : Bytes) :
    Triple (Buffered rows keys) (purgeKey env key) (Within n k)
      (fun _ => Buffered rows (keys - 1)) (BufferError env n k) := by
  have hkeys' : keys - 1 ≤ k := by omega
  unfold purgeKey
  apply Triple.bind (Q := fun _ => Buffered rows (keys - 1))
  · apply Triple.update
    intro s hs
    have hs' : Buffered rows (keys - 1) { s with
        pending := { s.pending with removals := s.pending.removals.tail } } :=
      ⟨hs.len, by rw [List.length_tail, hs.removals], hs.columns, hs.opened⟩
    exact ⟨hs'.within hrows hkeys', hs'⟩
  · intro _
    apply ioOrWarn_rule (R := Buffered rows (keys - 1))
    · intro s hs
      exact ⟨hs.arrive, hs.arrive.within hrows hkeys'⟩
    · intro s _ hs _
      have hs' : Buffered rows (keys - 1) (s.removeKey key) := hs.locals rfl id
      exact ⟨hs'.within hrows hkeys', hs'⟩
    · exact fun s _ _ hs _ => hs

theorem purgeKeys_buffered (hrows : rows ≤ n) (hkeys : keys ≤ k) (l : List Bytes) :
    Triple (Buffered rows keys) (Prog.forEach (purgeKey env) l) (Within n k)
      (fun _ => Buffered rows (keys - l.length)) (BufferError env n k) := by
  let loopAt (done : List Bytes) : PassState → Prop := Buffered rows (keys - done.length)
  have hstep : ∀ done key rest, l = done ++ key :: rest →
      Triple (loopAt done) (purgeKey env key) (Within n k)
        (fun _ => loopAt (done ++ [key])) (BufferError env n k) := by
    intro done key rest _
    have hleft : keys - done.length ≤ k := by omega
    have hpurge := purgeKey_buffered env hrows hleft key
    have hcount : keys - (done ++ [key]).length = keys - done.length - 1 := by
      rw [List.length_append, List.length_singleton]
      omega
    simpa only [loopAt, hcount] using hpurge
  exact Triple.forEach l hstep

/-- A flush empties the buffer, whichever way it goes. -/
theorem flush_buffered (hkeys : keys ≤ k) :
    Triple (Buffered rows keys) (flush env) (Within n k)
      (fun _ => Buffered 0 0) (BufferError env n k) := by
  unfold flush
  apply Triple.read_bind
  intro t ht
  by_cases hlen : t.pending.len = 0
  · rw [if_pos hlen]
    apply Triple.bind (Q := fun _ => Buffered 0 0)
    · apply Triple.update
      rintro s rfl
      have hs : Buffered 0 0 { s with pending := { s.pending with removals := [] } } :=
        ⟨hlen, rfl, ht.columns, fun h => absurd rfl h⟩
      exact ⟨hs.within (Nat.zero_le n) (Nat.zero_le k), hs⟩
    · intro _
      apply Triple.pure
      exact fun s hs => hs
  · have hbatch : ∃ batch, t.pending.recordBatch = .ok batch := by
      unfold PendingBatch.recordBatch
      exact ⟨_, if_pos ht.columns⟩
    obtain ⟨batch, hbatch⟩ := hbatch
    have hopened : t.exporter.isSome := by
      apply ht.opened
      rw [← ht.len]
      exact hlen
    obtain ⟨writer, hwriter⟩ := Option.isSome_iff_exists.mp hopened
    rw [if_neg hlen]
    simp only [hbatch, hwriter]
    apply Triple.bind (Q := fun _ => Buffered 0 keys)
    · apply Triple.update
      rintro s rfl
      have hs : Buffered 0 keys { s with pending := s.pending.finish } :=
        ⟨rfl, ht.removals, ⟨rfl, rfl, rfl, rfl⟩, fun h => absurd rfl h⟩
      exact ⟨hs.within (Nat.zero_le n) hkeys, hs⟩
    intro _
    apply Triple.bind (Q := fun _ => Buffered 0 keys)
    · exact buffered_io env (Nat.zero_le n) hkeys (fun _ => rfl) (fun _ h => h)
    intro _
    apply Triple.bind (Q := fun _ => Buffered 0 keys)
    · exact buffered_io env (Nat.zero_le n) hkeys (fun _ => rfl) (fun _ _ => rfl)
    intro _
    apply Triple.bind (purgeKeys_buffered env (Nat.zero_le n) hkeys t.pending.removals)
    intro _
    apply Triple.pure
    intro s hs
    rw [ht.removals, Nat.sub_self] at hs
    exact hs

theorem flushAndCount_buffered (hkeys : keys ≤ k) :
    Triple (Buffered rows keys) (flushAndCount env) (Within n k)
      (fun _ => Buffered 0 0) (BufferError env n k) := by
  unfold flushAndCount
  apply Triple.bind (flush_buffered env hkeys)
  intro moved
  apply Triple.update
  intro s hs
  have hs' : Buffered 0 0 { s with moved := s.moved + moved } := hs.locals rfl id
  exact ⟨hs'.within (Nat.zero_le n) (Nat.zero_le k), hs'⟩

/-! ## The scan loop -/

/-- The buffer holds the items and the writer is open. -/
def Ready (buffered : List (Bytes × Bytes)) (s : PassState) : Prop :=
  Buffered (buffered.countP decodable) buffered.length s ∧ s.exporter.isSome

variable (closed : List (Bytes × Bytes)) {buffered : List (Bytes × Bytes)}

/-- A key that does not decode takes up room for a key only. -/
theorem bufferKey_buffered {key value : Bytes} (hdecode : decodeKey key = none)
    (hrows : buffered.countP decodable ≤ n) (hkeys : buffered.length < k) :
    Triple (Buffered (buffered.countP decodable) buffered.length)
      (Prog.update fun s => { s with
        pending := { s.pending with removals := s.pending.removals ++ [key] } })
      (Within n k)
      (fun _ => Buffered ((buffered ++ [(key, value)]).countP decodable)
        (buffered ++ [(key, value)]).length)
      (BufferError env n k) := by
  have hcount : (buffered ++ [(key, value)]).countP decodable =
      buffered.countP decodable := by
    rw [List.countP_append, List.countP_singleton]
    simp [decodable, hdecode]
  rw [hcount, List.length_append, List.length_singleton]
  apply Triple.update
  intro s hs
  have hs' : Buffered (buffered.countP decodable) (buffered.length + 1) { s with
      pending := { s.pending with removals := s.pending.removals ++ [key] } } :=
    ⟨hs.len, by rw [List.length_append, hs.removals]; rfl, hs.columns, hs.opened⟩
  exact ⟨hs'.within hrows hkeys, hs'⟩

theorem push_buffered {item : Bytes × Bytes} (hdecodable : decodable item = true)
    {s : PassState} (hs : Ready buffered s) (ts : UInt64) (name : String) (value : F64)
    (kind labels : String) :
    Ready (buffered ++ [item]) { s with
      pending := s.pending.push ts name value kind labels item.1 } := by
  obtain ⟨hs, hopened⟩ := hs
  obtain ⟨hnames, hvalues, hkinds, hlabels⟩ := hs.columns
  have hlen : (s.pending.push ts name value kind labels item.1).len = s.pending.len + 1 :=
    List.length_append
  refine ⟨⟨?_, ?_, ⟨?_, ?_, ?_, ?_⟩, fun _ => hopened⟩, hopened⟩
  · rw [hlen, hs.len, List.countP_append, List.countP_singleton, if_pos hdecodable]
  · rw [List.length_append, ← hs.removals]
    exact List.length_append
  · rw [hlen, ← hnames]
    exact List.length_append
  · rw [hlen, ← hvalues]
    exact List.length_append
  · rw [hlen, ← hkinds]
    exact List.length_append
  · rw [hlen, ← hlabels]
    exact List.length_append

/-- The end of the loop body, once the writer is open. -/
theorem pushRow_buffered {key value : Bytes} (hdecodable : decodable (key, value) = true)
    (hrows : buffered.countP decodable < n) (hkeys : buffered.length < k)
    (ts : UInt64) (name : String) (rowValue : F64) (kind labels : String) :
    Triple (Ready buffered)
      (do
        Prog.update fun s => { s with
          pending := s.pending.push ts name rowValue kind labels key }
        let s ← Prog.read
        if n ≤ s.pending.len then flushAndCount env)
      (Within n k)
      (fun _ =>
        let chunks := Chunks.push decodable n (closed, buffered) (key, value)
        Buffered (chunks.2.countP decodable) chunks.2.length)
      (BufferError env n k) := by
  have hcount : (buffered ++ [(key, value)]).countP decodable =
      buffered.countP decodable + 1 := by
    rw [List.countP_append, List.countP_singleton, if_pos hdecodable]
  have hlength : (buffered ++ [(key, value)]).length = buffered.length + 1 := by
    rw [List.length_append, List.length_singleton]
  apply Triple.bind (Q := fun _ => Ready (buffered ++ [(key, value)]))
  · apply Triple.update
    intro s hs
    have hpush := push_buffered hdecodable hs ts name rowValue kind labels
    exact ⟨hpush.1.within (by omega) (by omega), hpush⟩
  intro _
  apply Triple.read_bind
  intro t ht
  by_cases hfull : n ≤ t.pending.len
  · have hpush : Chunks.push decodable n (closed, buffered) (key, value) =
        (closed ++ (buffered ++ [(key, value)]), []) := by
      rw [ht.1.len] at hfull
      exact Chunks.push_of_full hdecodable hfull
    rw [if_pos hfull, hpush]
    have hroom : (buffered ++ [(key, value)]).length ≤ k := by omega
    apply (flushAndCount_buffered env hroom).precondition
    rintro s rfl
    exact ht.1
  · have hpush : Chunks.push decodable n (closed, buffered) (key, value) =
        (closed, buffered ++ [(key, value)]) := by
      rw [ht.1.len] at hfull
      exact Chunks.push_of_room hfull
    rw [if_neg hfull, hpush]
    apply Triple.pure
    rintro s rfl
    exact ht.1

/-- One item of the scan keeps the rows within a chunk, and the keys if there is room. -/
theorem scanItem_buffered (item : Bytes × Bytes) (hrows : buffered.countP decodable < n)
    (hkeys : buffered.length < k) :
    Triple (Buffered (buffered.countP decodable) buffered.length) (scanItem serde n env item)
      (Within n k)
      (fun _ =>
        let chunks := Chunks.push decodable n (closed, buffered) item
        Buffered (chunks.2.countP decodable) chunks.2.length)
      (BufferError env n k) := by
  obtain ⟨key, value⟩ := item
  have hrows' := Nat.le_of_lt hrows
  have hkeys' := Nat.le_of_lt hkeys
  unfold scanItem
  apply Triple.bind (Q := fun _ => Buffered (buffered.countP decodable) buffered.length)
  · exact buffered_io env hrows' hkeys' (fun _ => rfl) (fun _ h => h)
  intro _
  cases hdecode : decodeKey key with
  | none =>
      have hpush : Chunks.push decodable n (closed, buffered) (key, value) =
          (closed, buffered ++ [(key, value)]) :=
        Chunks.push_of_not (by simp [decodable, hdecode])
      rw [hpush]
      exact bufferKey_buffered env hdecode hrows' hkeys
  | some decoded =>
      obtain ⟨ts, name⟩ := decoded
      have hdecodable : decodable (key, value) = true := by simp [decodable, hdecode]
      have hpush := pushRow_buffered env closed hdecodable hrows hkeys ts name
        (decodeValue serde value).1 (decodeValue serde value).2.1 (decodeValue serde value).2.2
      apply Triple.read_bind
      intro t ht
      by_cases hopen : t.exporter.isNone = true
      · rw [if_pos hopen]
        apply Triple.bind ((openExportWriter_buffered env hrows' hkeys').precondition ?_)
        · intro writer
          refine Triple.bind ?_ fun _ => hpush
          apply Triple.update
          intro s hs
          have hs' : Buffered (buffered.countP decodable) buffered.length
              { s with exporter := some writer } := hs.locals rfl fun _ => rfl
          exact ⟨hs'.within hrows' hkeys', hs', rfl⟩
        · rintro s rfl
          exact ht
      · rw [if_neg hopen]
        apply hpush.precondition
        rintro s rfl
        exact ⟨ht, by simpa [Option.isSome_iff_ne_none] using hopen⟩

/-- The buffer holds the open chunk of the items. -/
def Open (n : Nat) (items : List (Bytes × Bytes)) : PassState → Prop :=
  Buffered ((Chunks.split decodable n items).2.countP decodable)
    (Chunks.split decodable n items).2.length

/-- There is room for one more key before every item. -/
def Room (n k : Nat) (items : List (Bytes × Bytes)) : Prop :=
  ∀ done item rest, items = done ++ item :: rest →
    (Chunks.split decodable n done).2.length < k

theorem scanStep_buffered (hn : 0 < n) {done : List (Bytes × Bytes)} (item : Bytes × Bytes)
    (hkeys : (Chunks.split decodable n done).2.length < k) :
    Triple (Open n done) (scanItem serde n env item) (Within n k)
      (fun _ => Open n (done ++ [item])) (BufferError env n k) := by
  unfold Open
  rw [Chunks.split_concat]
  exact scanItem_buffered env _ item (Chunks.split_whole hn done).room hkeys

theorem scanLoop_buffered {items : List (Bytes × Bytes)} (hn : 0 < n)
    (hroom : Room n k items) :
    Triple (Open n []) (Prog.forEach (scanItem serde n env) items) (Within n k)
      (fun _ => Open n items) (BufferError env n k) := by
  apply Triple.forEach
  intro done item rest hsplit
  exact scanStep_buffered env hn item (hroom done item rest hsplit)

end

/-! ## States of the scan loop -/

section

variable (serde : SerdeJson) (n : Nat) (env : Env) (disk₀ : Disk) (cutoff : UInt64)

/-- The states of the scan loop, from the one it begins in. -/
def scanStates : List PassState :=
  let entry := (PassState.start disk₀).arrive env
  entry :: (Prog.forEach (scanItem serde n env) (expired env disk₀ cutoff) entry).visited

variable {serde n env disk₀ cutoff}

/-- They are states of the pass, once the cold directory is there. -/
theorem mem_passStates_of_mem_scanStates {cfg : FjallConfig}
    (hcutoff : cutoffMicros cfg.retention env.cutoffClock = .ok cutoff)
    (hdir : env.fault 0 .createColdDir = none) {s : PassState}
    (hs : s ∈ scanStates serde n env disk₀ cutoff) :
    s ∈ passStates serde n env cfg disk₀ := by
  let entry := (PassState.start disk₀).arrive env
  have hbegin : io env .createColdDir .io id (PassState.start disk₀) =
      ⟨[entry, entry], .ok (), entry⟩ := by
    have hattempt : attempt env .createColdDir (PassState.start disk₀) =
        ⟨[entry], .ok (env.fault 0 .createColdDir), entry⟩ := rfl
    rw [hdir] at hattempt
    unfold io
    change Prog.bind _ _ _ = _
    simp only [Prog.bind, hattempt]
    rfl
  unfold passStates runCompactionOnceBlocking
  simp only [hcutoff]
  apply List.mem_append_left
  rcases List.mem_cons.mp hs with rfl | hs
  · apply visited_bind_left
    rw [hbegin]
    exact List.mem_cons_self
  · apply visited_bind_right _ (by rw [hbegin])
    rw [hbegin]
    apply visited_bind_right _ rfl
    apply visited_bind_left
    exact hs

theorem buffered_entry : Buffered 0 0 ((PassState.start disk₀).arrive env) :=
  ⟨rfl, rfl, ⟨rfl, rfl, rfl, rfl⟩, fun h => absurd rfl h⟩

theorem within_of_room {k : Nat} (hn : 0 < n) (hroom : Room n k (expired env disk₀ cutoff))
    {s : PassState} (hs : s ∈ scanStates serde n env disk₀ cutoff) : Within n k s := by
  unfold scanStates at hs
  rcases List.mem_cons.mp hs with rfl | hs
  · exact buffered_entry.within (Nat.zero_le n) (Nat.zero_le k)
  · exact (scanLoop_buffered env hn hroom _ buffered_entry).1 s hs

/-- Whatever the keys are, the rows fill at most one chunk, in columns of equal length,
and have a writer. -/
theorem scan_rows_bounded (hn : 0 < n) {s : PassState}
    (hs : s ∈ scanStates serde n env disk₀ cutoff) :
    s.pending.len ≤ n ∧
    (s.pending.names.length = s.pending.len ∧ s.pending.values.length = s.pending.len ∧
      s.pending.kinds.length = s.pending.len ∧ s.pending.labels.length = s.pending.len) ∧
    (s.pending.len ≠ 0 → s.exporter.isSome) := by
  have hroom : Room n (expired env disk₀ cutoff).length (expired env disk₀ cutoff) := by
    intro done item rest hsplit
    have happend := Chunks.split_append (p := decodable) (n := n) done
    have hle : (Chunks.split decodable n done).2.length ≤ done.length := by
      conv => rhs; rw [← happend, List.length_append]
      exact Nat.le_add_left _ _
    have hlt : done.length < (expired env disk₀ cutoff).length := by
      rw [hsplit]
      simp
    omega
  obtain ⟨rows, keys, hrows, -, hbuffered⟩ := within_of_room hn hroom hs
  refine ⟨by rw [hbuffered.len]; exact hrows, hbuffered.columns, ?_⟩
  rw [hbuffered.len]
  exact hbuffered.opened

/-! ## Keys beyond the bound -/

theorem succeeds_of_free (hfree : ∀ i op, env.fault i op = none) {k : Nat} {α : Type}
    {P : PassState → Prop} {m : Pass α} {Q : α → PassState → Prop}
    (h : Triple P m (Within n k) Q (BufferError env n k)) : Succeeds P m Q := by
  apply h.consequence (fun _ hs => hs) (fun _ _ => trivial) (fun _ _ hs => hs)
  rintro _ s ⟨-, i, op, e, hfault⟩
  rw [hfree i op] at hfault
  contradiction

/-- Without failures, the key of an item is added to those of the open chunk before any
of them is removed. -/
theorem scanItem_visits (hfree : ∀ i op, env.fault i op = none) {rows keys : Nat}
    (item : Bytes × Bytes) :
    Visits (Buffered rows keys) (scanItem serde n env item)
      fun s => s.pending.removals.length = keys + 1 := by
  obtain ⟨key, value⟩ := item
  have hadd : ∀ s : PassState, Buffered rows keys s →
      (s.pending.removals ++ [key]).length = keys + 1 := by
    intro s hs
    rw [List.length_append, hs.removals]
    rfl
  unfold scanItem
  apply Visits.bind_right
  · exact succeeds_of_free hfree
      (buffered_io env (le_refl rows) (le_refl keys) (fun _ => rfl) (fun _ h => h))
  intro _
  cases decodeKey key with
  | none => exact Visits.update hadd
  | some decoded =>
      obtain ⟨ts, name⟩ := decoded
      apply Visits.read_bind
      intro t ht
      have hpush := Visits.update (ε := PassStop) (R := fun s =>
        s.pending.removals.length = keys + 1) (f := fun s : PassState => { s with
          pending := s.pending.push ts name (decodeValue serde value).1
            (decodeValue serde value).2.1 (decodeValue serde value).2.2 key }) hadd
      by_cases hopen : t.exporter.isNone = true
      · rw [if_pos hopen]
        apply Visits.precondition (P := Buffered rows keys)
        · apply Visits.bind_right
          · exact succeeds_of_free hfree
              (openExportWriter_buffered env (le_refl rows) (le_refl keys))
          · intro writer
            apply Visits.bind_right (Q := fun _ => Buffered rows keys)
            · apply Triple.update
              intro s hs
              exact ⟨trivial, hs.locals rfl fun _ => rfl⟩
            · intro _
              exact hpush.bind_left
        · rintro s rfl
          exact ht
      · rw [if_neg hopen]
        apply hpush.bind_left.precondition
        rintro s rfl
        exact ht

theorem not_room_visits (hfree : ∀ i op, env.fault i op = none) (hn : 0 < n)
    {done rest : List (Bytes × Bytes)} {item : Bytes × Bytes}
    (hsplit : expired env disk₀ cutoff = done ++ item :: rest)
    (hfull : n ≤ (Chunks.split decodable n done).2.length) :
    ∃ s ∈ scanStates serde n env disk₀ cutoff, ¬ Bounded n s := by
  have hloop : Visits (Open n [])
      (Prog.forEach (scanItem serde n env) (expired env disk₀ cutoff))
      fun s => s.pending.removals.length =
        (Chunks.split decodable n done).2.length + 1 := by
    apply Visits.forEach hsplit
    · intro before y after hy
      exact succeeds_of_free hfree (scanStep_buffered env hn y (Nat.lt_succ_self _))
    · exact scanItem_visits hfree item
  obtain ⟨s, hs, hkeys⟩ := hloop _ buffered_entry
  refine ⟨s, List.mem_cons_of_mem _ hs, ?_⟩
  intro hbounded
  have hle := hbounded.keys
  omega

variable (serde env) in
theorem exists_not_bounded (hfree : ∀ i op, env.fault i op = none) (hn : 0 < n)
    (hlong : ((expired env disk₀ cutoff).takeWhile decodable).length / n * n + n <
      (expired env disk₀ cutoff).length) :
    ∃ s ∈ scanStates serde n env disk₀ cutoff, ¬ Bounded n s := by
  have hroom : ¬ Room n n (expired env disk₀ cutoff) := by
    intro hroom
    have hshort := (Chunks.room_iff hn).mp hroom
    rw [Nat.succ_mul] at hshort
    omega
  unfold Room at hroom
  push Not at hroom
  obtain ⟨done, item, rest, hsplit, hfull⟩ := hroom
  exact not_room_visits hfree hn hsplit hfull

end

section

variable (serde : SerdeJson) (env : Env) (disk₀ : Disk) (cutoff : UInt64)

/-- The buffer is bounded, whatever fails, exactly if at most one chunk of keys follows
the last full chunk before the first undecodable one. -/
theorem scan_bounded_iff :
    (∀ fault, ∀ s ∈ scanStates serde rowsPerBatch { env with fault } disk₀ cutoff,
      Bounded rowsPerBatch s) ↔
    (expired env disk₀ cutoff).length ≤
      ((expired env disk₀ cutoff).takeWhile decodable).length / rowsPerBatch * rowsPerBatch +
        rowsPerBatch := by
  have hn : 0 < rowsPerBatch := by decide
  constructor
  · intro hbounded
    by_contra hlong
    obtain ⟨s, hs, hnot⟩ := exists_not_bounded serde { env with fault := fun _ _ => none }
      (fun _ _ => rfl) hn (Nat.lt_of_not_le hlong)
    exact hnot (hbounded _ s hs)
  · intro hshort fault s hs
    rw [← Nat.succ_mul] at hshort
    have hroom : Room rowsPerBatch rowsPerBatch (expired { env with fault } disk₀ cutoff) :=
      (Chunks.room_iff hn).mpr hshort
    exact within_self_iff.mp (within_of_room hn hroom hs)

end

/-! ## A partition of undecodable keys -/

/-- Runs of zero bytes. -/
def zeroKey (i : Nat) : Bytes := List.replicate i 0

theorem zeroKey_lt {i j : Nat} (h : i < j) : zeroKey i < zeroKey j := by
  induction i generalizing j with
  | zero =>
      cases j with
      | zero => exact absurd h (Nat.lt_irrefl 0)
      | succ j => exact List.nil_lt_cons 0 _
  | succ i ih =>
      cases j with
      | zero => exact absurd h (Nat.not_lt_zero _)
      | succ j => exact List.cons_lt_cons_iff.mpr (Or.inr ⟨rfl, ih (Nat.lt_of_succ_lt_succ h)⟩)

/-- The runs of lengths 1 to `count`. -/
def zeroKeys (count : Nat) : Disk where
  partition := {
    entries := (List.range count).map fun i => (zeroKey (i + 1), [])
    sorted := by
      rw [List.pairwise_map]
      exact List.pairwise_lt_range.imp fun h => zeroKey_lt (Nat.succ_lt_succ h) }
  cold := SortedMap.empty

theorem decodeKey_zeroKey (i : Nat) : decodeKey (zeroKey i) = none := by
  have hspan : (zeroKey i).span (fun b => !(b == separator)) = (zeroKey i, []) := by
    have hzero : ∀ b ∈ zeroKey i, (!(b == separator)) = true := by
      intro b hb
      rw [List.eq_of_mem_replicate hb]
      rfl
    rw [List.span_eq_takeWhile_dropWhile, List.takeWhile_eq_self_iff.mpr hzero,
      List.dropWhile_eq_nil_iff.mpr hzero]
  have hsplit : splitn 3 (· == separator) (zeroKey i) = [zeroKey i] := by
    rw [splitn, hspan]
  unfold decodeKey
  rw [hsplit]
  cases fromUtf8 (zeroKey i) with
  | none => simp
  | some ts => simp

theorem zeroKey_lt_bound (i : Nat) (cutoff : UInt64) : zeroKey i < utf8 (cutoffPrefix cutoff) := by
  rw [utf8_cutoffPrefix]
  cases i with
  | zero => exact List.nil_lt_cons _ _
  | succ i =>
      have hpos : ∀ digit, digit < 16 → 0 < hexByte digit := by
        intro digit hdigit
        interval_cases digit <;> decide
      exact List.cons_lt_cons_iff.mpr (Or.inl (hpos _ (Nat.mod_lt _ (by omega))))

theorem expired_zeroKeys {env : Env} (hinserts : env.inserts 0 = []) (count : Nat)
    (cutoff : UInt64) :
    expired env (zeroKeys count) cutoff = (zeroKeys count).partition.entries := by
  unfold expired snapshot
  rw [hinserts]
  apply List.filter_eq_self.mpr
  intro entry hentry
  obtain ⟨i, -, rfl⟩ := List.mem_map.mp hentry
  simpa using zeroKey_lt_bound (i + 1) cutoff

theorem zeroKeys_not_bounded (serde : SerdeJson) {env : Env} (hinserts : env.inserts 0 = [])
    (hfree : ∀ i op, env.fault i op = none) {count : Nat} (hcount : rowsPerBatch < count)
    (cutoff : UInt64) :
    ∃ s ∈ scanStates serde rowsPerBatch env (zeroKeys count) cutoff,
      ¬ Bounded rowsPerBatch s := by
  apply exists_not_bounded serde env hfree (by decide)
  rw [expired_zeroKeys hinserts]
  have hnone : (zeroKeys count).partition.entries.takeWhile decodable = [] := by
    rw [List.takeWhile_eq_nil_iff]
    intro hpos
    have hlen : 0 < count := by omega
    simp [zeroKeys, decodable, decodeKey_zeroKey]
  have hlength : (zeroKeys count).partition.entries.length = count := by
    simp [zeroKeys]
  rw [hnone, hlength, List.length_nil, Nat.zero_div, Nat.zero_mul]
  omega

/-- One key more than a chunk, none of them decodable, and nothing fails. -/
theorem zero_keys_exceed :
    ∃ s ∈ scanStates rejectAll rowsPerBatch quietDay (zeroKeys 5001) 86400000000,
      ¬ Bounded rowsPerBatch s :=
  zeroKeys_not_bounded rejectAll rfl (fun _ _ => rfl) (by decide) 86400000000

end Tonggeret.Storage
