import Tonggeret.Storage.Writer

/-!
# Restarts of the writer

The sequence number of a key starts at 0 in every process, so across restarts rows are
told apart by timestamp and name only where their positions agree.
-/

namespace Tonggeret.Storage

open Tonggeret.Lib

/-- One run of `writer_loop`: its batch size and what its receive calls meet. -/
structure Lifetime where
  batchRows : Nat
  rx : Receiver

section

variable (fjall : Fjall) (serde : SerdeJson) (entrySize : Nat)

/-- The entries the run writes: those sent before the shutdown, or none if its batch cannot be
allocated, and only those before an insert that panics. -/
def Lifetime.entries (lifetime : Lifetime) : List MetricEntry :=
  match withCapacity entrySize lifetime.batchRows with
  | none => []
  | some _ => written fjall serde (metricsBefore lifetime.rx.reduceOption) 0

def Lifetime.calls (lifetime : Lifetime) : List StoreCall :=
  (writerLoop fjall serde entrySize lifetime.batchRows lifetime.rx).calls

/-- The keyspace calls of the runs, one after the other. -/
def callsOf (lifetimes : List Lifetime) : List StoreCall :=
  lifetimes.flatMap (·.calls fjall serde entrySize)

end

def applyCall (rows : SortedMap Bytes Bytes) : StoreCall → SortedMap Bytes Bytes
  | .insert key value => rows.insert key value
  | .persist => rows

/-- The partition after the calls on an empty one. -/
def stored (calls : List StoreCall) : SortedMap Bytes Bytes :=
  calls.foldl applyCall SortedMap.empty

section

variable (fjall : Fjall) (serde : SerdeJson) (entrySize : Nat)

/-- No insert finds its key in the partition, and every entry is a row in the end. -/
def NoOverwrite (lifetimes : List Lifetime) : Prop :=
  (∀ before key value after,
    callsOf fjall serde entrySize lifetimes = before ++ .insert key value :: after →
      key ∉ (stored before).keys) ∧
  (stored (callsOf fjall serde entrySize lifetimes)).entries.length =
    (lifetimes.map fun lifetime => (lifetime.entries fjall serde entrySize).length).sum

/-- No later run writes an entry of the same microsecond and name at the same position. -/
def DistinctAcross (lifetimes : List Lifetime) : Prop :=
  lifetimes.Pairwise fun (earlier later : Lifetime) => ∀ (i : Nat) e f,
    (earlier.entries fjall serde entrySize)[i]? = some e →
      (later.entries fjall serde entrySize)[i]? = some f →
        ¬ (entryMicros e = entryMicros f ∧ e.name = f.name)

end

/-! ## Rows -/

/-- The rows that calls insert. -/
def writtenRows (calls : List StoreCall) : List (Bytes × Bytes) :=
  calls.filterMap fun
    | .insert key value => some (key, value)
    | .persist => none

theorem stored_eq (calls : List StoreCall) :
    stored calls = SortedMap.empty.insertAll (writtenRows calls) := by
  have hfold : ∀ rows : SortedMap Bytes Bytes,
      calls.foldl applyCall rows = rows.insertAll (writtenRows calls) := by
    induction calls with
    | nil => exact fun _ => rfl
    | cons call calls ih =>
        intro rows
        cases call with
        | insert key value => exact ih _
        | persist => exact ih _
  exact hfold SortedMap.empty

variable {fjall : Fjall} {serde : SerdeJson} {entrySize : Nat} {lifetimes : List Lifetime}

theorem writtenRows_append (l r : List StoreCall) :
    writtenRows (l ++ r) = writtenRows l ++ writtenRows r := List.filterMap_append

theorem writtenRows_mapIdx {α : Type} (row : Nat → α → Bytes × Bytes) (l : List α) :
    writtenRows (l.mapIdx fun i a => .insert (row i a).1 (row i a).2) = l.mapIdx row := by
  induction l generalizing row with
  | nil => rfl
  | cons a l ih =>
      rw [List.mapIdx_cons, List.mapIdx_cons]
      exact congrArg _ (ih fun i => row (i + 1))

/-- The rows of one run: sequence numbers are positions. -/
theorem writtenRows_calls (lifetime : Lifetime) :
    writtenRows (lifetime.calls fjall serde entrySize) =
      (lifetime.entries fjall serde entrySize).mapIdx fun i entry =>
        (writerKey i entry, encodeValue serde entry) := by
  rw [Lifetime.calls, Lifetime.entries, writerLoop]
  cases withCapacity entrySize lifetime.batchRows with
  | none => rfl
  | some capacity =>
      have hcalls := calls_flushBatch fjall serde (metricsBefore lifetime.rx.reduceOption) 0
      simp only [Nat.zero_add] at hcalls
      have hzero : UInt32.ofNat 0 = 0 := rfl
      have hwritten : writtenRows (flushBatch fjall serde
          (metricsBefore lifetime.rx.reduceOption) 0).calls =
            (written fjall serde (metricsBefore lifetime.rx.reduceOption) 0).mapIdx
              fun i entry => (writerKey i entry, encodeValue serde entry) := by
        rw [← hzero, hcalls]
        exact writtenRows_mapIdx
          (fun i entry => (writerKey i entry, encodeValue serde entry)) _
      simp only [writerBursts_eq_flushBatch, Flushed.andThen]
      split
      · exact hwritten
      · have hpersist : writtenRows [.persist] = [] := rfl
        rw [writtenRows_append, hpersist, List.append_nil, hwritten]

theorem writtenRows_callsOf :
    writtenRows (callsOf fjall serde entrySize lifetimes) =
      lifetimes.flatMap fun lifetime => (lifetime.entries fjall serde entrySize).mapIdx
        fun i entry => (writerKey i entry, encodeValue serde entry) := by
  induction lifetimes with
  | nil => rfl
  | cons lifetime lifetimes ih =>
      rw [callsOf, List.flatMap_cons, ← callsOf, writtenRows_append, ih, writtenRows_calls,
        List.flatMap_cons]

theorem keys_callsOf :
    (writtenRows (callsOf fjall serde entrySize lifetimes)).map Prod.fst =
      lifetimes.flatMap fun lifetime =>
        (lifetime.entries fjall serde entrySize).mapIdx writerKey := by
  rw [writtenRows_callsOf, List.map_flatMap]
  apply List.flatMap_congr
  intro lifetime _
  apply List.ext_getElem
  · simp
  · intro i _ _
    rw [List.getElem_map, List.getElem_mapIdx, List.getElem_mapIdx]

theorem length_writtenRows_callsOf :
    (writtenRows (callsOf fjall serde entrySize lifetimes)).length =
      (lifetimes.map fun lifetime => (lifetime.entries fjall serde entrySize).length).sum := by
  rw [writtenRows_callsOf, List.length_flatMap]
  simp

/-! ## Distinct keys -/

/-- Nothing is overwritten exactly if all keys are distinct. -/
theorem noOverwrite_iff_nodup :
    NoOverwrite fjall serde entrySize lifetimes ↔
      ((writtenRows (callsOf fjall serde entrySize lifetimes)).map Prod.fst).Nodup := by
  rw [NoOverwrite, ← length_writtenRows_callsOf]
  constructor
  · rintro ⟨-, hlength⟩
    rw [stored_eq] at hlength
    exact SortedMap.nodup_of_length_insertAll hlength
  · intro hnodup
    constructor
    · intro before key value after hcalls
      have hrows : writtenRows (callsOf fjall serde entrySize lifetimes) =
          writtenRows before ++ (key, value) :: writtenRows after := by
        rw [hcalls, writtenRows_append]
        rfl
      rw [hrows, List.map_append, List.map_cons] at hnodup
      rw [stored_eq, SortedMap.mem_keys_insertAll]
      rintro (hmem | hempty)
      · exact List.disjoint_of_nodup_append hnodup hmem List.mem_cons_self
      · exact List.not_mem_nil hempty
    · rw [stored_eq]
      exact (SortedMap.perm_insertAll_empty hnodup).length_eq

theorem writerKey_eq_iff {i j : Nat} (hi : i < 2 ^ 32) (hj : j < 2 ^ 32) {e f : MetricEntry} :
    writerKey i e = writerKey j f ↔ i = j ∧ entryMicros e = entryMicros f ∧ e.name = f.name := by
  constructor
  · intro h
    obtain ⟨hmicros, -, hname⟩ := encodeKey_inj h
    refine ⟨?_, hmicros, hname⟩
    by_contra hne
    exact writerKey_ne hi hj hne e f h
  · rintro ⟨rfl, hmicros, hname⟩
    rw [writerKey, writerKey, hmicros, hname]

/-- Two runs share no key exactly if they agree nowhere. -/
theorem disjoint_keys_iff {l r : List MetricEntry} (hl : l.length ≤ 2 ^ 32)
    (hr : r.length ≤ 2 ^ 32) :
    List.Disjoint (l.mapIdx writerKey) (r.mapIdx writerKey) ↔
      ∀ (i : Nat) e f, l[i]? = some e → r[i]? = some f →
        ¬ (entryMicros e = entryMicros f ∧ e.name = f.name) := by
  constructor
  · intro hdisjoint i e f he hf hsame
    obtain ⟨hi, rfl⟩ := List.getElem?_eq_some_iff.mp he
    obtain ⟨hj, rfl⟩ := List.getElem?_eq_some_iff.mp hf
    refine hdisjoint (List.mem_mapIdx.mpr ⟨i, hi, rfl⟩) (List.mem_mapIdx.mpr ⟨i, hj, ?_⟩)
    exact ((writerKey_eq_iff (by omega) (by omega)).mpr ⟨rfl, hsame⟩).symm
  · intro hdistinct key hkey hkey'
    obtain ⟨i, hi, rfl⟩ := List.mem_mapIdx.mp hkey
    obtain ⟨j, hj, hsame⟩ := List.mem_mapIdx.mp hkey'
    obtain ⟨rfl, hmicros, hname⟩ := (writerKey_eq_iff (by omega) (by omega)).mp hsame
    exact hdistinct j _ _ (List.getElem?_eq_getElem hi) (List.getElem?_eq_getElem hj)
      ⟨hmicros.symm, hname.symm⟩

/-- No stored row is overwritten across restarts exactly if no two runs have an entry of
the same microsecond and name at the same position. -/
theorem restarts_keep_rows_iff (fjall : Fjall) (serde : SerdeJson) (entrySize : Nat)
    (lifetimes : List Lifetime)
    (hlength : ∀ lifetime ∈ lifetimes,
      (lifetime.entries fjall serde entrySize).length ≤ 2 ^ 32) :
    NoOverwrite fjall serde entrySize lifetimes ↔
      DistinctAcross fjall serde entrySize lifetimes := by
  rw [noOverwrite_iff_nodup, keys_callsOf, List.nodup_flatMap, DistinctAcross]
  have hown : ∀ lifetime ∈ lifetimes,
      ((lifetime.entries fjall serde entrySize).mapIdx writerKey).Nodup :=
    fun lifetime hmem => nodup_writerKeys (hlength lifetime hmem)
  rw [and_iff_right hown]
  apply List.Pairwise.iff_of_mem
  intro earlier later hearlier hlater
  exact disjoint_keys_iff (hlength earlier hearlier) (hlength later hlater)

/-! ## Two runs -/

/-- A run that writes one count of the given name, `nanos` after the epoch. -/
def oneCount (nanos : Int) (name : String) : Lifetime :=
  ⟨1000, [some (.metric ⟨nanos, name, F64.zero, .counter, []⟩), some .shutdown]⟩

theorem two_runs_keep_rows :
    NoOverwrite shortKeys printNull 80 [oneCount 0 "hits", oneCount 1000 "hits"] := by
  refine (restarts_keep_rows_iff shortKeys printNull 80 _ ?_).mpr ?_
  · intro lifetime hmem
    simp only [List.mem_cons, List.not_mem_nil, or_false] at hmem
    rcases hmem with rfl | rfl
    · decide +kernel
    · decide +kernel
  · rw [DistinctAcross, List.pairwise_pair]
    rintro i e f he hf ⟨hmicros, -⟩
    match i with
    | 0 =>
        obtain rfl := Option.some.inj he
        obtain rfl := Option.some.inj hf
        exact absurd hmicros (by decide)
    | i + 1 => contradiction

/-- Two starts before the epoch, seconds apart by a clock that runs backwards, write one
key. -/
theorem restart_overwrites_row :
    (∀ lifetime ∈ [oneCount (-1000000000) "hits", oneCount (-3000000000) "hits"],
      (lifetime.entries shortKeys printNull 80).length ≤ 2 ^ 32) ∧
      ¬ NoOverwrite shortKeys printNull 80
        [oneCount (-1000000000) "hits", oneCount (-3000000000) "hits"] := by
  constructor
  · intro lifetime hmem
    simp only [List.mem_cons, List.not_mem_nil, or_false] at hmem
    rcases hmem with rfl | rfl
    · decide +kernel
    · decide +kernel
  · rw [noOverwrite_iff_nodup, keys_callsOf]
    decide +kernel

end Tonggeret.Storage
