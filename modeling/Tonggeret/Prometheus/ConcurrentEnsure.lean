import Mathlib.Logic.Function.Basic
import Tonggeret.Lib.Transition
import Tonggeret.Prometheus.Registry

/-!
# Concurrent `ensure_*` calls

Each call looks its name up under the read lock of its map and, if the name is absent,
takes the write lock, looks again, builds the vector, registers it and inserts it.  The
three maps have a lock each but share one registry, so the work under a write lock is
three steps here, with calls of the other kinds between them; `Registry::register` is
one step.
-/

namespace Tonggeret.Prometheus

open Tonggeret.Lib

structure EnsureCall where
  kind : MetricType
  name : String
  labelNames : List String

/-- Where a call is; the vector is one it has built. -/
inductive EnsurePc
  | start
  | missed
  | building (vec : Collector)
  | registered (vec : Collector)
  | returned (result : Option Collector)
deriving DecidableEq

/-- The registry, who holds the write lock of each map, and the calls. -/
structure Ensuring where
  reg : PromRegistry
  writer : MetricType → Option Nat
  pc : Nat → EnsurePc

inductive EnsureAction
  | read (i : Nat)
  | lock (i : Nat)
  | register (i : Nat)
  | insert (i : Nat)
deriving DecidableEq

def labelsMatchOf : MetricType → Collector → List String → Bool
  | .counter => labelNamesMatch
  | .gauge => gaugeLabelsMatch
  | .histogram => histogramLabelsMatch

namespace Ensuring

def init (defaultBuckets : List F64) : Ensuring where
  reg := PromRegistry.new defaultBuckets
  writer := fun _ => none
  pc := fun _ => .start

def setPc (s : Ensuring) (i : Nat) (pc : EnsurePc) : Ensuring :=
  { s with pc := Function.update s.pc i pc }

def setWriter (s : Ensuring) (kind : MetricType) (holder : Option Nat) : Ensuring :=
  { s with writer := Function.update s.writer kind holder }

@[simp] theorem setPc_reg (s : Ensuring) (i : Nat) (pc : EnsurePc) :
    (s.setPc i pc).reg = s.reg := rfl

@[simp] theorem setPc_self (s : Ensuring) (i : Nat) (pc : EnsurePc) :
    (s.setPc i pc).pc i = pc := Function.update_self ..

theorem pc_setPc (s : Ensuring) (i j : Nat) (pc : EnsurePc) :
    (s.setPc i pc).pc j = if j = i then pc else s.pc j :=
  Function.update_apply s.pc i pc j

/-- The lookup under the read lock. -/
def read (s : Ensuring) (i : Nat) (call : EnsureCall) : Ensuring :=
  match fastPath (labelsMatchOf call.kind) call.kind s.reg call.name call.labelNames with
  | .found vec => s.setPc i (.returned (some vec))
  | .mismatch => s.setPc i (.returned none)
  | .absent => s.setPc i .missed

/-- The second lookup and the building of the vector; the lock is kept for a vector. -/
def lock (crate : PrometheusCrate) (s : Ensuring) (i : Nat) (call : EnsureCall) : Ensuring :=
  match (s.reg.vecs call.kind).get? call.name with
  | some vec => s.setPc i (.returned (some vec))
  | none =>
      let opts := vecOpts s.reg call.kind call.name
      match crate.vecError call.kind opts call.labelNames with
      | some _ => s.setPc i (.returned none)
      | none =>
          let vec : Collector := ⟨s.reg.created, call.kind, opts, call.labelNames⟩
          ({ s with reg := { s.reg with created := s.reg.created + 1 } }.setWriter call.kind
            (some i)).setPc i (.building vec)

/-- A vector that is not registered is given up, with the lock. -/
def register (s : Ensuring) (i : Nat) (call : EnsureCall) (vec : Collector) : Ensuring :=
  match s.reg.register vec with
  | none => (s.setWriter call.kind none).setPc i (.returned none)
  | some reg => { s with reg }.setPc i (.registered vec)

def insert (s : Ensuring) (i : Nat) (call : EnsureCall) (vec : Collector) : Ensuring :=
  ({ s with reg := s.reg.insertVec call.name vec }.setWriter call.kind none).setPc i
    (.returned (some vec))

end Ensuring

/-- One step of one call.  A map is looked at only while nobody writes to it. -/
def ensureStep (crate : PrometheusCrate) (calls : Nat → EnsureCall) (s : Ensuring) :
    EnsureAction → Option Ensuring
  | .read i =>
      if s.pc i = .start ∧ s.writer (calls i).kind = none then some (s.read i (calls i))
      else none
  | .lock i =>
      if s.pc i = .missed ∧ s.writer (calls i).kind = none then
        some (s.lock crate i (calls i))
      else none
  | .register i =>
      match s.pc i with
      | .building vec => some (s.register i (calls i) vec)
      | _ => none
  | .insert i =>
      match s.pc i with
      | .registered vec => some (s.insert i (calls i) vec)
      | _ => none

/-- Three steps that nothing comes between are the slow path of one call. -/
theorem slowPath_uninterrupted (crate : PrometheusCrate) (calls : Nat → EnsureCall)
    (s : Ensuring) (i : Nat) (hpc : s.pc i = .missed)
    (hfree : s.writer (calls i).kind = none) :
    ∃ actions t, exec (ensureStep crate calls) s actions = some t ∧ t.writer = s.writer ∧
      slowPath crate (calls i).kind (vecOpts s.reg (calls i).kind (calls i).name) s.reg
          (calls i).name (calls i).labelNames =
        (match t.pc i with | .returned result => result | _ => none, t.reg) := by
  have hlock : ensureStep crate calls s (.lock i) = some (s.lock crate i (calls i)) :=
    if_pos ⟨hpc, hfree⟩
  have hwriter : Function.update (Function.update s.writer (calls i).kind (some i))
      (calls i).kind none = s.writer := by
    rw [Function.update_idem, ← hfree, Function.update_eq_self]
  cases hget : (s.reg.vecs (calls i).kind).get? (calls i).name with
  | some vec =>
      refine ⟨[.lock i], s.setPc i (.returned (some vec)), ?_, rfl, ?_⟩
      · simp [exec, hlock, Ensuring.lock, hget]
      · simp [slowPath, hget]
  | none =>
      cases herror : crate.vecError (calls i).kind
          (vecOpts s.reg (calls i).kind (calls i).name) (calls i).labelNames with
      | some e =>
          refine ⟨[.lock i], s.setPc i (.returned none), ?_, rfl, ?_⟩
          · simp [exec, hlock, Ensuring.lock, hget, herror]
          · simp [slowPath, hget, herror]
      | none =>
          let vec : Collector := ⟨s.reg.created, (calls i).kind,
            vecOpts s.reg (calls i).kind (calls i).name, (calls i).labelNames⟩
          let built := ({ s with reg.created := s.reg.created + 1 }.setWriter (calls i).kind
            (some i)).setPc i (.building vec)
          have hbuilt : s.lock crate i (calls i) = built := by
            rw [Ensuring.lock, hget]
            simp only [herror]
            rfl
          have hregister : ensureStep crate calls built (.register i) =
              some (built.register i (calls i) vec) := by
            rw [ensureStep, Ensuring.setPc_self]
          have hslow : slowPath crate (calls i).kind
              (vecOpts s.reg (calls i).kind (calls i).name) s.reg (calls i).name
              (calls i).labelNames =
                match built.reg.register vec with
                | none => (none, built.reg)
                | some reg => (some vec, reg.insertVec (calls i).name vec) := by
            simp only [slowPath, hget, herror]
            rfl
          cases hreg : built.reg.register vec with
          | none =>
              have hgiven : built.register i (calls i) vec =
                  (built.setWriter (calls i).kind none).setPc i (.returned none) := by
                rw [Ensuring.register, hreg]
              refine ⟨[.lock i, .register i], built.register i (calls i) vec, ?_, ?_, ?_⟩
              · simp [exec, hlock, hbuilt, hregister]
              · rw [hgiven]
                exact hwriter
              · rw [hslow, hreg, hgiven, Ensuring.setPc_self]
                rfl
          | some reg =>
              let kept := { built with reg }.setPc i (.registered vec)
              have hkept : built.register i (calls i) vec = kept := by
                rw [Ensuring.register, hreg]
              have hinsert : ensureStep crate calls kept (.insert i) =
                  some (kept.insert i (calls i) vec) := by
                rw [ensureStep, Ensuring.setPc_self]
              refine ⟨[.lock i, .register i, .insert i], kept.insert i (calls i) vec, ?_,
                hwriter, ?_⟩
              · simp [exec, hlock, hbuilt, hregister, hkept, hinsert]
              · rw [hslow, hreg, Ensuring.insert, Ensuring.setPc_self]
                rfl

/-! ## The invariant -/

section

variable {crate : PrometheusCrate} {calls : Nat → EnsureCall} {s t : Ensuring}

/-- The vector is kept under this kind and name, or on its way there. -/
inductive Known (calls : Nat → EnsureCall) (s : Ensuring) (kind : MetricType) (name : String)
    (vec : Collector) : Prop
  | kept (h : (name, vec) ∈ s.reg.vecs kind)
  | building (i : Nat) (h : s.pc i = .building vec) (hkind : (calls i).kind = kind)
      (hname : (calls i).name = name)
  | registered (i : Nat) (h : s.pc i = .registered vec) (hkind : (calls i).kind = kind)
      (hname : (calls i).name = name)

/-- The vector of the call is not in its map yet, which the call keeps locked. -/
def Exclusive (s : Ensuring) (i : Nat) (call : EnsureCall) : Prop :=
  s.writer call.kind = some i ∧ (s.reg.vecs call.kind).get? call.name = none

structure Consistent (calls : Nat → EnsureCall) (s : Ensuring) : Prop where
  shape : ∀ kind name vec, Known calls s kind name vec →
    vec.kind = kind ∧ vec.opts.name = name
  made : ∀ kind name vec, Known calls s kind name vec → 0 < vec.id ∧ vec.id < s.reg.created
  unique : ∀ kind name vec kind' name' vec', Known calls s kind name vec →
    Known calls s kind' name' vec' → vec.id = vec'.id → vec = vec'
  kept : ∀ kind name vec, (name, vec) ∈ s.reg.vecs kind →
    s.reg.registry.get? name = some vec.id
  registered : ∀ i vec, s.pc i = .registered vec →
    s.reg.registry.get? (calls i).name = some vec.id
  exclusive : ∀ i vec, s.pc i = .building vec ∨ s.pc i = .registered vec →
    Exclusive s i (calls i)
  dropped : s.reg.registry.get? droppedTotalName = some 0
  next : 0 < s.reg.created
  returned : ∀ i vec, s.pc i = .returned (some vec) →
    ((calls i).name, vec) ∈ s.reg.vecs (calls i).kind

/-- The vector of a call that has built one is known. -/
theorem Known.of_pc {i : Nat} {vec : Collector}
    (h : s.pc i = .building vec ∨ s.pc i = .registered vec) :
    Known calls s (calls i).kind (calls i).name vec := by
  rcases h with h | h
  · exact .building i h rfl rfl
  · exact .registered i h rfl rfl

/-- After a step of one call, what is known is in a map, or on its way there by this
call, or was known before. -/
theorem Known.after_step {i : Nat} {pc : EnsurePc}
    (hpc : ∀ j, t.pc j = if j = i then pc else s.pc j) {kind : MetricType} {name : String}
    {vec : Collector} (hk : Known calls t kind name vec) :
    (name, vec) ∈ t.reg.vecs kind ∨
      ((pc = .building vec ∨ pc = .registered vec) ∧ (calls i).kind = kind ∧
        (calls i).name = name) ∨
      Known calls s kind name vec := by
  cases hk with
  | kept hk => exact .inl hk
  | building j hj hkind hname =>
      rw [hpc] at hj
      split at hj
      · rename_i heq
        subst heq
        exact .inr (.inl ⟨.inl hj, hkind, hname⟩)
      · exact .inr (.inr (.building j hj hkind hname))
  | registered j hj hkind hname =>
      rw [hpc] at hj
      split at hj
      · rename_i heq
        subst heq
        exact .inr (.inl ⟨.inr hj, hkind, hname⟩)
      · exact .inr (.inr (.registered j hj hkind hname))

/-- The laws about what is known hold after a step by which nothing becomes known. -/
theorem Consistent.of_known (h : Consistent calls s)
    (hknown : ∀ kind name vec, Known calls t kind name vec → Known calls s kind name vec)
    (hcreated : t.reg.created = s.reg.created) :
    (∀ kind name vec, Known calls t kind name vec → vec.kind = kind ∧ vec.opts.name = name) ∧
    (∀ kind name vec, Known calls t kind name vec → 0 < vec.id ∧ vec.id < t.reg.created) ∧
    ∀ kind name vec kind' name' vec', Known calls t kind name vec →
      Known calls t kind' name' vec' → vec.id = vec'.id → vec = vec' := by
  refine ⟨?_, ?_, ?_⟩
  · intro kind name vec hk
    exact h.shape kind name vec (hknown kind name vec hk)
  · intro kind name vec hk
    rw [hcreated]
    exact h.made kind name vec (hknown kind name vec hk)
  · intro kind name vec kind' name' vec' hk hk'
    exact h.unique _ _ _ _ _ _ (hknown _ _ _ hk) (hknown _ _ _ hk')

/-- What the invariant says of one call, at its place. -/
structure Placed (s : Ensuring) (i : Nat) (call : EnsureCall) (pc : EnsurePc) : Prop where
  registered : ∀ vec, pc = .registered vec → s.reg.registry.get? call.name = some vec.id
  exclusive : ∀ vec, pc = .building vec ∨ pc = .registered vec → Exclusive s i call
  returned : ∀ vec, pc = .returned (some vec) → (call.name, vec) ∈ s.reg.vecs call.kind

theorem Consistent.placed (h : Consistent calls s) (i : Nat) :
    Placed s i (calls i) (s.pc i) :=
  ⟨h.registered i, h.exclusive i, h.returned i⟩

/-- One call moves to a place that fits it, and the places of the others still fit them. -/
theorem Consistent.placed_after (h : Consistent calls s) {i : Nat} {pc : EnsurePc}
    (hpc : ∀ j, t.pc j = if j = i then pc else s.pc j) (hself : Placed t i (calls i) pc)
    (hothers : ∀ j, j ≠ i → Placed s j (calls j) (s.pc j) → Placed t j (calls j) (s.pc j))
    (j : Nat) : Placed t j (calls j) (t.pc j) := by
  rw [hpc]
  split
  · rename_i heq
    rw [heq]
    exact hself
  · rename_i hne
    exact hothers j hne (h.placed j)

theorem consistent_init (defaultBuckets : List F64) :
    Consistent calls (Ensuring.init defaultBuckets) := by
  have hvecs : ∀ kind, (Ensuring.init defaultBuckets).reg.vecs kind = SortedMap.empty := by
    intro kind
    cases kind <;> rfl
  have hknown : ∀ kind name vec, ¬ Known calls (Ensuring.init defaultBuckets) kind name vec := by
    intro kind name vec h
    cases h with
    | kept h =>
        rw [hvecs] at h
        exact SortedMap.notMem_empty _ h
    | building i h => exact EnsurePc.noConfusion h
    | registered i h => exact EnsurePc.noConfusion h
  refine ⟨?_, ?_, ?_, ?_, ?_, ?_, rfl, Nat.one_pos, ?_⟩
  · intro kind name vec h
    exact absurd h (hknown kind name vec)
  · intro kind name vec h
    exact absurd h (hknown kind name vec)
  · intro kind name vec _ _ _ h
    exact absurd h (hknown kind name vec)
  · intro kind name vec h
    exact absurd (.kept h) (hknown kind name vec)
  · intro i vec h
    exact EnsurePc.noConfusion h
  · intro i vec h
    rcases h with h | h
    · exact EnsurePc.noConfusion h
    · exact EnsurePc.noConfusion h
  · intro i vec h
    exact EnsurePc.noConfusion h

/-- A call moves to a place where it has no vector of its own; locks of other calls
stay as they are. -/
theorem Consistent.leave (h : Consistent calls s) (i : Nat) {pc : EnsurePc}
    {writer : MetricType → Option Nat}
    (hbuilding : ∀ vec, pc ≠ .building vec) (hregistered : ∀ vec, pc ≠ .registered vec)
    (hreturned : ∀ vec, pc = .returned (some vec) →
      ((calls i).name, vec) ∈ s.reg.vecs (calls i).kind)
    (hwriter : ∀ j, j ≠ i → s.writer (calls j).kind = some j →
      writer (calls j).kind = some j) :
    Consistent calls ({ s with writer }.setPc i pc) := by
  have hpc : ∀ j, ({ s with writer }.setPc i pc).pc j = if j = i then pc else s.pc j :=
    fun j => Ensuring.pc_setPc { s with writer } i j pc
  have hknown : ∀ kind name vec, Known calls ({ s with writer }.setPc i pc) kind name vec →
      Known calls s kind name vec := by
    intro kind name vec hk
    rcases hk.after_step hpc with hkept | ⟨hnew | hnew, -⟩ | hold
    · exact .kept hkept
    · exact absurd hnew (hbuilding vec)
    · exact absurd hnew (hregistered vec)
    · exact hold
  obtain ⟨hshape, hmade, hunique⟩ := h.of_known hknown rfl
  have hself : Placed ({ s with writer }.setPc i pc) i (calls i) pc := by
    refine ⟨fun vec hv => absurd hv (hregistered vec), fun vec hv => ?_, hreturned⟩
    rcases hv with hv | hv
    · exact absurd hv (hbuilding vec)
    · exact absurd hv (hregistered vec)
  have hplaced := h.placed_after hpc hself fun j hne hj =>
    ⟨hj.registered, fun vec hv => (hj.exclusive vec hv).imp_left (hwriter j hne), hj.returned⟩
  exact ⟨hshape, hmade, hunique, h.kept, fun j => (hplaced j).registered,
    fun j => (hplaced j).exclusive, h.dropped, h.next, fun j => (hplaced j).returned⟩

/-- The lock is free, the name absent: the call takes the lock and builds a vector. -/
theorem Consistent.build (h : Consistent calls s) (i : Nat)
    (hfree : s.writer (calls i).kind = none)
    (hnone : (s.reg.vecs (calls i).kind).get? (calls i).name = none) :
    Consistent calls
      (({ s with reg := { s.reg with created := s.reg.created + 1 } }.setWriter
        (calls i).kind (some i)).setPc i (.building ⟨s.reg.created, (calls i).kind,
          vecOpts s.reg (calls i).kind (calls i).name, (calls i).labelNames⟩)) := by
  set vec : Collector := ⟨s.reg.created, (calls i).kind,
    vecOpts s.reg (calls i).kind (calls i).name, (calls i).labelNames⟩ with hvec
  set t := ({ s with reg := { s.reg with created := s.reg.created + 1 } }.setWriter
    (calls i).kind (some i)).setPc i (.building vec) with ht
  have hpc : ∀ j, t.pc j = if j = i then .building vec else s.pc j :=
    fun j => Function.update_apply s.pc i (.building vec) j
  have hwriter : ∀ kind, t.writer kind = if kind = (calls i).kind then some i
      else s.writer kind :=
    fun kind => Function.update_apply s.writer (calls i).kind (some i) kind
  have hvecs : ∀ kind, t.reg.vecs kind = s.reg.vecs kind := fun _ => rfl
  have hknown : ∀ kind name v, Known calls t kind name v → Known calls s kind name v ∨
      v = vec ∧ kind = (calls i).kind ∧ name = (calls i).name := by
    intro kind name v hk
    rcases hk.after_step hpc with hkept | ⟨hnew | hnew, hkind, hname⟩ | hold
    · exact Or.inl (.kept hkept)
    · exact Or.inr ⟨(EnsurePc.building.inj hnew).symm, hkind.symm, hname.symm⟩
    · contradiction
    · exact Or.inl hold
  have hname : vec.opts.name = (calls i).name := by
    rw [hvec]
    cases (calls i).kind <;> rfl
  have hself : Placed t i (calls i) (.building vec) :=
    ⟨fun _ => EnsurePc.noConfusion, fun _ _ => ⟨by rw [hwriter, if_pos rfl], hnone⟩,
      fun _ => EnsurePc.noConfusion⟩
  have hplaced := h.placed_after hpc hself fun j _ hj => by
    refine ⟨hj.registered, fun v hv => (hj.exclusive v hv).imp_left fun hholds => ?_,
      hj.returned⟩
    -- a lock that is held is not the free one
    rw [hwriter, if_neg, hholds]
    intro hkind
    rw [hkind, hfree] at hholds
    contradiction
  refine ⟨?_, ?_, ?_, h.kept, fun j => (hplaced j).registered, fun j => (hplaced j).exclusive,
    h.dropped, Nat.succ_pos _, fun j => (hplaced j).returned⟩
  · intro kind name v hk
    rcases hknown kind name v hk with hk | ⟨rfl, rfl, rfl⟩
    · exact h.shape kind name v hk
    · exact ⟨rfl, hname⟩
  · intro kind name v hk
    rcases hknown kind name v hk with hk | ⟨rfl, -, -⟩
    · exact ⟨(h.made kind name v hk).1, Nat.lt_succ_of_lt (h.made kind name v hk).2⟩
    · exact ⟨h.next, Nat.lt_succ_self _⟩
  · intro kind name v kind' name' v' hk hk' hid
    rcases hknown kind name v hk with hk | ⟨rfl, -, -⟩
    · rcases hknown kind' name' v' hk' with hk' | ⟨rfl, -, -⟩
      · exact h.unique _ _ _ _ _ _ hk hk' hid
      · exact absurd hid (h.made _ _ _ hk).2.ne
    · rcases hknown kind' name' v' hk' with hk' | ⟨rfl, -, -⟩
      · exact absurd hid.symm (h.made _ _ _ hk').2.ne
      · rfl

/-- The name is not taken: the vector is registered. -/
theorem Consistent.registerNew (h : Consistent calls s) {i : Nat} {vec : Collector}
    (hpc : s.pc i = .building vec)
    (hnone : s.reg.registry.get? (calls i).name = none) :
    Consistent calls
      ({ s with reg.registry := s.reg.registry.insert (calls i).name vec.id }.setPc i
        (.registered vec)) := by
  set t := { s with reg.registry := s.reg.registry.insert (calls i).name vec.id }.setPc i
    (.registered vec) with ht
  have hpc' : ∀ j, t.pc j = if j = i then .registered vec else s.pc j :=
    fun j => Function.update_apply s.pc i (.registered vec) j
  have hget : ∀ name, t.reg.registry.get? name =
      if name = (calls i).name then some vec.id else s.reg.registry.get? name :=
    fun name => SortedMap.get?_insert
  have hold : ∀ name id, s.reg.registry.get? name = some id →
      t.reg.registry.get? name = some id := by
    intro name id hid
    rw [hget, if_neg, hid]
    rintro rfl
    rw [hnone] at hid
    contradiction
  have hknown : ∀ kind name v, Known calls t kind name v → Known calls s kind name v := by
    intro kind name v hk
    rcases hk.after_step hpc' with hkept | ⟨hnew | hnew, hkind, hname⟩ | hbefore
    · exact .kept hkept
    · contradiction
    · obtain rfl := EnsurePc.registered.inj hnew
      exact .building i hpc hkind hname
    · exact hbefore
  obtain ⟨hshape, hmade, hunique⟩ := h.of_known hknown rfl
  have hself : Placed t i (calls i) (.registered vec) := by
    refine ⟨fun v hv => ?_, fun v _ => h.exclusive i vec (Or.inl hpc),
      fun _ => EnsurePc.noConfusion⟩
    rw [hget, if_pos rfl, EnsurePc.registered.inj hv]
  have hplaced := h.placed_after hpc' hself fun j _ hj =>
    ⟨fun v hv => hold _ _ (hj.registered v hv), hj.exclusive, hj.returned⟩
  exact ⟨hshape, hmade, hunique, fun kind name v hv => hold _ _ (h.kept kind name v hv),
    fun j => (hplaced j).registered, fun j => (hplaced j).exclusive, hold _ _ h.dropped, h.next,
    fun j => (hplaced j).returned⟩

/-- What the maps hold after an insertion under the lock. -/
theorem mem_vecs_insert {i : Nat} {vec : Collector} (hkind : vec.kind = (calls i).kind)
    (hnone : (s.reg.vecs (calls i).kind).get? (calls i).name = none)
    {kind : MetricType} {name : String} {v : Collector} :
    (name, v) ∈ (s.insert i (calls i) vec).reg.vecs kind ↔
      (name, v) ∈ s.reg.vecs kind ∨
        kind = (calls i).kind ∧ name = (calls i).name ∧ v = vec := by
  change (name, v) ∈ (s.reg.insertVec (calls i).name vec).vecs kind ↔ _
  rw [vecs_insertVec, hkind]
  by_cases hk : kind = (calls i).kind
  · subst hk
    rw [if_pos rfl, SortedMap.mem_insert, Prod.mk.injEq]
    constructor
    · rintro (⟨hname, hv⟩ | ⟨hmem, -⟩)
      · exact Or.inr ⟨rfl, hname, hv⟩
      · exact Or.inl hmem
    · rintro (hmem | ⟨-, hname, hv⟩)
      · refine Or.inr ⟨hmem, ?_⟩
        rintro rfl
        exact SortedMap.get?_eq_none.mp hnone (SortedMap.mem_keys.mpr ⟨v, hmem⟩)
      · exact Or.inl ⟨hname, hv⟩
  · rw [if_neg hk]
    simp [hk]

/-- The registered vector is inserted and the lock released. -/
theorem Consistent.insert (h : Consistent calls s) {i : Nat} {vec : Collector}
    (hpc : s.pc i = .registered vec) : Consistent calls (s.insert i (calls i) vec) := by
  obtain ⟨hholds, hnone⟩ := h.exclusive i vec (Or.inr hpc)
  obtain ⟨hkind, -⟩ := h.shape _ _ _ (.of_pc (Or.inr hpc))
  have hmem := @mem_vecs_insert calls s i vec hkind hnone
  set t := s.insert i (calls i) vec with ht
  have hpc' : ∀ j, t.pc j = if j = i then .returned (some vec) else s.pc j :=
    fun j => Function.update_apply s.pc i (.returned (some vec)) j
  have hwriter : ∀ kind, t.writer kind = if kind = (calls i).kind then none
      else s.writer kind :=
    fun kind => Function.update_apply s.writer (calls i).kind none kind
  have hregistry : t.reg.registry = s.reg.registry := registry_insertVec _ _ _
  have hcreated : t.reg.created = s.reg.created := created_insertVec _ _ _
  have hknown : ∀ kind name v, Known calls t kind name v → Known calls s kind name v := by
    intro kind name v hk
    rcases hk.after_step hpc' with hkept | ⟨hnew | hnew, -⟩ | hbefore
    · rcases hmem.mp hkept with hold | ⟨rfl, rfl, rfl⟩
      · exact .kept hold
      · exact .registered i hpc rfl rfl
    · contradiction
    · contradiction
    · exact hbefore
  obtain ⟨hshape, hmade, hunique⟩ := h.of_known hknown hcreated
  have hself : Placed t i (calls i) (.returned (some vec)) := by
    refine ⟨fun _ => EnsurePc.noConfusion, fun v hv => ?_, fun v hv => ?_⟩
    · rcases hv with hv | hv
      · contradiction
      · contradiction
    · obtain rfl : vec = v := Option.some.inj (EnsurePc.returned.inj hv)
      exact hmem.mpr (Or.inr ⟨rfl, rfl, rfl⟩)
  have hplaced := h.placed_after hpc' hself fun j hne hj => by
    refine ⟨fun v hv => ?_, fun v hv => ?_, fun v hv => ?_⟩
    · rw [hregistry]
      exact hj.registered v hv
    · obtain ⟨hj', habsent⟩ := hj.exclusive v hv
      -- another writer of the same map would hold the lock of this one
      have hother : (calls j).kind ≠ (calls i).kind := by
        intro heq
        rw [heq, hholds] at hj'
        exact hne (Option.some.inj hj').symm
      refine ⟨by rw [hwriter, if_neg hother, hj'], ?_⟩
      rw [SortedMap.get?_eq_none] at habsent ⊢
      intro hkey
      obtain ⟨w, hw⟩ := SortedMap.mem_keys.mp hkey
      rcases hmem.mp hw with hw | ⟨heq, -⟩
      · exact habsent (SortedMap.mem_keys.mpr ⟨w, hw⟩)
      · exact hother heq
    · exact hmem.mpr (Or.inl (hj.returned v hv))
  refine ⟨hshape, hmade, hunique, ?_, fun j => (hplaced j).registered,
    fun j => (hplaced j).exclusive, ?_, ?_, fun j => (hplaced j).returned⟩
  · intro kind name v hv
    rw [hregistry]
    rcases hmem.mp hv with hv | ⟨rfl, rfl, rfl⟩
    · exact h.kept kind name v hv
    · exact h.registered i v hpc
  · rw [hregistry]
    exact h.dropped
  · rw [hcreated]
    exact h.next

/-! ## Steps and runs -/

/-- The step keeps the invariant and every entry of the maps. -/
def Extends (calls : Nat → EnsureCall) (s t : Ensuring) : Prop :=
  Consistent calls t ∧
    ∀ kind name vec, (name, vec) ∈ s.reg.vecs kind → (name, vec) ∈ t.reg.vecs kind

/-- A call leaves with the vector that it has found. -/
theorem Consistent.found (h : Consistent calls s) {i : Nat} {vec : Collector}
    (hget : (s.reg.vecs (calls i).kind).get? (calls i).name = some vec) :
    Extends calls s (s.setPc i (.returned (some vec))) := by
  refine ⟨h.leave i (fun _ => EnsurePc.noConfusion) (fun _ => EnsurePc.noConfusion)
    ?_ (fun _ _ hj => hj), fun _ _ _ hv => hv⟩
  intro v hv
  obtain rfl : vec = v := Option.some.inj (EnsurePc.returned.inj hv)
  exact SortedMap.get?_eq_some.mp hget

theorem Consistent.read (h : Consistent calls s) (i : Nat) :
    Extends calls s (s.read i (calls i)) := by
  rw [Ensuring.read, fastPath]
  cases hget : (s.reg.vecs (calls i).kind).get? (calls i).name with
  | none =>
      exact ⟨h.leave i (fun _ => EnsurePc.noConfusion) (fun _ => EnsurePc.noConfusion)
        (fun _ => EnsurePc.noConfusion) (fun _ _ hj => hj), fun _ _ _ hv => hv⟩
  | some vec =>
      have hmatch : labelsMatchOf (calls i).kind vec (calls i).labelNames = true := by
        cases (calls i).kind <;> rfl
      simp only [hmatch, if_true]
      exact h.found hget

theorem Consistent.lock (h : Consistent calls s) {i : Nat}
    (hfree : s.writer (calls i).kind = none) :
    Extends calls s (s.lock crate i (calls i)) := by
  rw [Ensuring.lock]
  cases hget : (s.reg.vecs (calls i).kind).get? (calls i).name with
  | some vec => exact h.found hget
  | none =>
      simp only
      split
      · refine ⟨h.leave i (fun _ => EnsurePc.noConfusion) (fun _ => EnsurePc.noConfusion)
          ?_ (fun _ _ hj => hj), fun _ _ _ hv => hv⟩
        intro v hv
        simp at hv
      · exact ⟨h.build i hfree hget, fun _ _ _ hv => hv⟩

theorem Consistent.register (h : Consistent calls s) {i : Nat} {vec : Collector}
    (hpc : s.pc i = .building vec) : Extends calls s (s.register i (calls i) vec) := by
  obtain ⟨-, hname⟩ := h.shape _ _ _ (.of_pc (Or.inl hpc))
  obtain ⟨hholds, -⟩ := h.exclusive i vec (Or.inl hpc)
  rw [Ensuring.register, PromRegistry.register, hname]
  cases hget : s.reg.registry.get? (calls i).name with
  | none => exact ⟨h.registerNew hpc hget, fun _ _ _ hv => hv⟩
  | some id =>
      refine ⟨h.leave i (fun _ => EnsurePc.noConfusion) (fun _ => EnsurePc.noConfusion)
        ?_ ?_, fun _ _ _ hv => hv⟩
      · intro v hv
        simp at hv
      · -- the lock that is released was held by this call
        intro j hne hj
        rw [Function.update_apply, if_neg, hj]
        intro heq
        rw [heq, hholds] at hj
        exact hne (Option.some.inj hj).symm

/-- What a step does to the maps: nothing, or it inserts under an absent name. -/
theorem Consistent.step (h : Consistent calls s) {a : EnsureAction}
    (hstep : ensureStep crate calls s a = some t) : Extends calls s t := by
  cases a with
  | read i =>
      rw [ensureStep] at hstep
      split at hstep
      · obtain rfl := Option.some.inj hstep
        exact h.read i
      · contradiction
  | lock i =>
      rw [ensureStep] at hstep
      split at hstep
      · rename_i hready
        obtain rfl := Option.some.inj hstep
        exact h.lock hready.2
      · contradiction
  | register i =>
      rw [ensureStep] at hstep
      split at hstep
      · rename_i vec hpc
        obtain rfl := Option.some.inj hstep
        exact h.register hpc
      · contradiction
  | insert i =>
      rw [ensureStep] at hstep
      split at hstep
      · rename_i vec hpc
        obtain rfl := Option.some.inj hstep
        obtain ⟨-, hnone⟩ := h.exclusive i vec (Or.inr hpc)
        obtain ⟨hkind, -⟩ := h.shape _ _ _ (.of_pc (Or.inr hpc))
        exact ⟨h.insert hpc, fun _ _ _ hv => (mem_vecs_insert hkind hnone).mpr (Or.inl hv)⟩
      · contradiction

/-- Any interleaving of the calls from an empty registry. -/
abbrev Interleaved (crate : PrometheusCrate) (calls : Nat → EnsureCall) :
    Ensuring → Ensuring → Prop :=
  Reaches (ensureStep crate calls) fun _ _ => True

theorem consistent_of_interleaved {defaultBuckets : List F64}
    (h : Interleaved crate calls (Ensuring.init defaultBuckets) s) : Consistent calls s :=
  h.invariant (fun _ _ _ hs _ hstep => (hs.step hstep).1) (consistent_init defaultBuckets)

/-- What a map holds it holds for the rest of the run. -/
theorem vecs_persist (hs : Consistent calls s) (h : Interleaved crate calls s t)
    {kind : MetricType} {name : String} {vec : Collector}
    (hvec : (name, vec) ∈ s.reg.vecs kind) : (name, vec) ∈ t.reg.vecs kind := by
  have hrun : Consistent calls t ∧ (name, vec) ∈ t.reg.vecs kind := by
    apply h.invariant _ ⟨hs, hvec⟩
    rintro u a w ⟨hu, hmem⟩ - hstep
    obtain ⟨hw, hkeep⟩ := hu.step hstep
    exact ⟨hw, hkeep kind name vec hmem⟩
  exact hrun.2

/-- Two maps do not hold the same name. -/
theorem Consistent.disjoint (h : Consistent calls s) {kind kind' : MetricType} {name : String}
    (hname : name ∈ (s.reg.vecs kind).keys) (hname' : name ∈ (s.reg.vecs kind').keys) :
    kind = kind' := by
  obtain ⟨vec, hvec⟩ := SortedMap.mem_keys.mp hname
  obtain ⟨vec', hvec'⟩ := SortedMap.mem_keys.mp hname'
  have hid : vec.id = vec'.id :=
    Option.some.inj ((h.kept _ _ _ hvec).symm.trans (h.kept _ _ _ hvec'))
  have heq := h.unique _ _ _ _ _ _ (.kept hvec) (.kept hvec') hid
  rw [← (h.shape _ _ _ (.kept hvec)).1, heq, (h.shape _ _ _ (.kept hvec')).1]

theorem Consistent.ne_dropped (h : Consistent calls s) {kind : MetricType} {name : String}
    (hname : name ∈ (s.reg.vecs kind).keys) : name ≠ droppedTotalName := by
  rintro rfl
  obtain ⟨vec, hvec⟩ := SortedMap.mem_keys.mp hname
  have hid : vec.id = 0 :=
    Option.some.inj ((h.kept _ _ _ hvec).symm.trans h.dropped)
  have hpos := (h.made _ _ _ (.kept hvec)).1
  omega

end

/-- One collector for a name: in every interleaving of any calls, the maps stay disjoint,
each entry is the one vector registered under its name, entries stay for good, and calls
for one name and kind that return a vector return the same. -/
theorem one_collector_per_name (crate : PrometheusCrate) (calls : Nat → EnsureCall)
    (defaultBuckets : List F64) (s : Ensuring)
    (h : Interleaved crate calls (Ensuring.init defaultBuckets) s) :
    (∀ kind kind' name, name ∈ (s.reg.vecs kind).keys → name ∈ (s.reg.vecs kind').keys →
      kind = kind') ∧
    (∀ kind, droppedTotalName ∉ (s.reg.vecs kind).keys) ∧
    (∀ kind name vec, (name, vec) ∈ s.reg.vecs kind →
      vec.kind = kind ∧ vec.opts.name = name ∧ s.reg.registry.get? name = some vec.id ∧
        ∀ kind' name' vec', (name', vec') ∈ s.reg.vecs kind' → vec'.id = vec.id →
          vec' = vec) ∧
    (∀ t, Interleaved crate calls s t → ∀ kind name vec, (name, vec) ∈ s.reg.vecs kind →
      (name, vec) ∈ t.reg.vecs kind) ∧
    ∀ i j vec vec', s.pc i = .returned (some vec) → s.pc j = .returned (some vec') →
      (calls i).kind = (calls j).kind → (calls i).name = (calls j).name → vec = vec' := by
  have hs := consistent_of_interleaved h
  refine ⟨fun _ _ _ => hs.disjoint, ?_, ?_, ?_, ?_⟩
  · intro kind hmem
    exact hs.ne_dropped hmem rfl
  · intro kind name vec hvec
    obtain ⟨hkind, hname⟩ := hs.shape _ _ _ (.kept hvec)
    refine ⟨hkind, hname, hs.kept _ _ _ hvec, ?_⟩
    intro kind' name' vec' hvec' hid
    exact hs.unique _ _ _ _ _ _ (.kept hvec') (.kept hvec) hid
  · intro t ht kind name vec hvec
    exact vecs_persist hs ht hvec
  · intro i j vec vec' hi hj hkind hname
    have hvec := hs.returned i vec hi
    have hvec' := hs.returned j vec' hj
    rw [hkind, hname] at hvec
    exact SortedMap.value_unique hvec hvec'

/-! ## A race of two kinds -/

def acceptAll : PrometheusCrate where
  vecError _ _ _ := none
  childError _ _ _ := none

/-- A counter and a gauge of one name. -/
def raceCalls (i : Nat) : EnsureCall := ⟨if i = 0 then .counter else .gauge, "hits", []⟩

/-- Both miss and build a vector; the gauge is registered first. -/
def raceRun : List EnsureAction :=
  [.read 0, .read 1, .lock 0, .lock 1, .register 1, .register 0, .insert 1]

theorem race_one_collector :
    ∃ s, exec (ensureStep acceptAll raceCalls) (Ensuring.init []) raceRun = some s ∧
      "hits" ∈ (s.reg.vecs .gauge).keys ∧ "hits" ∉ (s.reg.vecs .counter).keys := by
  refine ⟨_, rfl, by decide, fun hcounter => ?_⟩
  have hrun : exec (ensureStep acceptAll raceCalls) (Ensuring.init []) raceRun = some _ := rfl
  have hkind := (one_collector_per_name acceptAll raceCalls [] _ (.of_exec hrun)).1 .counter
    .gauge "hits" hcounter (by decide)
  contradiction

end Tonggeret.Prometheus
