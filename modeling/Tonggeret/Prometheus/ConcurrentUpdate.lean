import Tonggeret.Prometheus.ConcurrentEnsure
import Tonggeret.Prometheus.SeriesLog

/-!
# Concurrent `update` calls

A call takes the steps of its `ensure_*` and then records its sample, with steps of the
other calls anywhere between.  Its place in the order of all calls is where its vector is
found, registered or refused: every interleaving ends as the calls one after another in
this order do, with the same samples in each series up to their order.  For a counter or a
histogram their order makes no difference to what is exposed; which of two overlapping
calls sets a gauge last is not settled by this order.
-/

namespace Tonggeret.Prometheus

open Tonggeret.Lib

def ensureCall (entry : MetricEntry) : EnsureCall :=
  ⟨entry.metricType, entry.name, labelNames entry⟩

/-- The calls, and how those that have recorded their sample ended. -/
structure Updating where
  ensuring : Ensuring
  outcome : Nat → Option Outcome

inductive UpdateAction
  | ensure (action : EnsureAction)
  | observe (i : Nat)
deriving DecidableEq

def Updating.init (defaultBuckets : List F64) : Updating :=
  ⟨Ensuring.init defaultBuckets, fun _ => none⟩

/-- One step of one call. -/
def updateStep (crate : PrometheusCrate) (entries : Nat → MetricEntry) (s : Updating) :
    UpdateAction → Option Updating
  | .ensure action =>
      (ensureStep crate (fun i => ensureCall (entries i)) s.ensuring action).map
        fun ensuring => { s with ensuring }
  | .observe i =>
      match s.ensuring.pc i, s.outcome i with
      | .returned result, none =>
          let (outcome, reg) := observe crate (result, s.ensuring.reg)
            ((entries i).labels.map Prod.snd) (sampleOf (entries i))
          some ⟨{ s.ensuring with reg }, Function.update s.outcome i (some outcome)⟩
      | _, _ => none

/-- The call has its vector, or knows that it gets none. -/
def EnsurePc.decided : EnsurePc → Bool
  | .registered _ | .returned _ => true
  | _ => false

/-- The call that takes the step. -/
def EnsureAction.caller : EnsureAction → Nat
  | .read i | .lock i | .register i | .insert i => i

/-- The call whose place in the order is settled by the step, if there is one. -/
def decides (crate : PrometheusCrate) (entries : Nat → MetricEntry) (s : Updating) :
    UpdateAction → List Nat
  | .ensure action =>
      match ensureStep crate (fun i => ensureCall (entries i)) s.ensuring action with
      | some t =>
          if !(s.ensuring.pc action.caller).decided && (t.pc action.caller).decided then
            [action.caller]
          else []
      | none => []
  | .observe _ => []

/-! ## What a step can do -/

/-- The vector takes its name in the registry. -/
def Ensuring.enroll (s : Ensuring) (i : Nat) (vec : Collector) : Ensuring :=
  { s with reg.registry := s.reg.registry.insert vec.opts.name vec.id }.setPc i (.registered vec)

/-- Every branch of a step of `ensure_*` with its guard and its effect. -/
inductive EnsureEffect (crate : PrometheusCrate) (calls : Nat → EnsureCall) (s : Ensuring) :
    EnsureAction → Ensuring → Prop
  | hit {i : Nat} {vec : Collector} {action : EnsureAction}
      (haction : action = .read i ∨ action = .lock i) (hpc : s.pc i = .start ∨ s.pc i = .missed)
      (hget : (s.reg.vecs (calls i).kind).get? (calls i).name = some vec) :
      EnsureEffect crate calls s action (s.setPc i (.returned (some vec)))
  | miss {i : Nat} (hpc : s.pc i = .start) :
      EnsureEffect crate calls s (.read i) (s.setPc i .missed)
  | refuse {i : Nat} {e : String} (hpc : s.pc i = .missed)
      (hfree : s.writer (calls i).kind = none)
      (hget : (s.reg.vecs (calls i).kind).get? (calls i).name = none)
      (herror : crate.vecError (calls i).kind (vecOpts s.reg (calls i).kind (calls i).name)
        (calls i).labelNames = some e) :
      EnsureEffect crate calls s (.lock i) (s.setPc i (.returned none))
  | build {i : Nat} (hpc : s.pc i = .missed)
      (herror : crate.vecError (calls i).kind (vecOpts s.reg (calls i).kind (calls i).name)
        (calls i).labelNames = none) :
      EnsureEffect crate calls s (.lock i)
        (({ s with reg := { s.reg with created := s.reg.created + 1 } }.setWriter (calls i).kind
          (some i)).setPc i (.building ⟨s.reg.created, (calls i).kind,
            vecOpts s.reg (calls i).kind (calls i).name, (calls i).labelNames⟩))
  | taken {i id : Nat} {vec : Collector} (hpc : s.pc i = .building vec)
      (hid : s.reg.registry.get? vec.opts.name = some id) :
      EnsureEffect crate calls s (.register i)
        ((s.setWriter (calls i).kind none).setPc i (.returned none))
  | register {i : Nat} {vec : Collector} (hpc : s.pc i = .building vec)
      (hid : s.reg.registry.get? vec.opts.name = none) :
      EnsureEffect crate calls s (.register i) (s.enroll i vec)
  | insert {i : Nat} {vec : Collector} (hpc : s.pc i = .registered vec) :
      EnsureEffect crate calls s (.insert i) (s.insert i (calls i) vec)

section

variable {crate : PrometheusCrate} {calls : Nat → EnsureCall} {s t : Ensuring}

theorem labelsMatchOf_eq (kind : MetricType) (vec : Collector) (names : List String) :
    labelsMatchOf kind vec names = true := by
  cases kind <;> rfl

/-- Inversion: an enabled action has one of the effects. -/
theorem ensureStep_cases {action : EnsureAction} (h : ensureStep crate calls s action = some t) :
    EnsureEffect crate calls s action t := by
  cases action with
  | read i =>
      rw [ensureStep] at h
      split at h
      · rename_i hready
        obtain rfl := Option.some.inj h
        rw [Ensuring.read, fastPath]
        cases hget : (s.reg.vecs (calls i).kind).get? (calls i).name with
        | none => exact .miss hready.1
        | some vec =>
            simp only [labelsMatchOf_eq, if_true]
            exact .hit (Or.inl rfl) (Or.inl hready.1) hget
      · contradiction
  | lock i =>
      rw [ensureStep] at h
      split at h
      · rename_i hready
        obtain rfl := Option.some.inj h
        rw [Ensuring.lock]
        cases hget : (s.reg.vecs (calls i).kind).get? (calls i).name with
        | some vec => exact .hit (Or.inr rfl) (Or.inr hready.1) hget
        | none =>
            simp only
            cases herror : crate.vecError (calls i).kind
                (vecOpts s.reg (calls i).kind (calls i).name) (calls i).labelNames with
            | some e => exact .refuse hready.1 hready.2 hget herror
            | none => exact .build hready.1 herror
      · contradiction
  | register i =>
      rw [ensureStep] at h
      split at h
      · rename_i vec hpc
        obtain rfl := Option.some.inj h
        rw [Ensuring.register, PromRegistry.register]
        cases hid : s.reg.registry.get? vec.opts.name with
        | some id => exact .taken hpc hid
        | none => exact .register hpc hid
      · contradiction
  | insert i =>
      rw [ensureStep] at h
      split at h
      · rename_i vec hpc
        obtain rfl := Option.some.inj h
        exact .insert hpc
      · contradiction

end

/-! ## The order of the calls -/

/-- The calls in this order with their fates, one after another from an empty store. -/
def fatesFrom (define : MetricEntry → Option Family) (entries : Nat → MetricEntry) :
    MetricStore → List Nat → List (Nat × Fate)
  | _, [] => []
  | store, i :: order =>
      (i, (store.update define (entries i)).1) ::
        fatesFrom define entries (store.update define (entries i)).2 order

section

variable {define : MetricEntry → Option Family} {entries : Nat → MetricEntry}

theorem fatesFrom_append (store : MetricStore) (before after : List Nat) :
    fatesFrom define entries store (before ++ after) =
      fatesFrom define entries store before ++
        fatesFrom define entries (store.updates define (before.map entries)) after := by
  induction before generalizing store with
  | nil => rfl
  | cons i before ih =>
      rw [List.cons_append, fatesFrom, ih]
      rfl

theorem map_fst_fatesFrom (store : MetricStore) (order : List Nat) :
    (fatesFrom define entries store order).map Prod.fst = order := by
  induction order generalizing store with
  | nil => rfl
  | cons i order ih => rw [fatesFrom, List.map_cons, ih]

theorem mem_map_fst_fatesFrom (store : MetricStore) (order : List Nat) {i : Nat} {fate : Fate}
    (h : (i, fate) ∈ fatesFrom define entries store order) : i ∈ order := by
  have hmem := List.mem_map_of_mem (f := Prod.fst) h
  rwa [map_fst_fatesFrom] at hmem

theorem MetricStore.samples_update (store : MetricStore) (entry : MetricEntry) :
    (store.update define entry).2.samples =
      store.samples ++ (store.update define entry).1.sample entry := by
  rw [MetricStore.update]
  split
  · split <;> rfl
  · split <;> rfl

/-- The samples of the store are those of the fates. -/
theorem samples_updates (store : MetricStore) (order : List Nat) :
    (store.updates define (order.map entries)).samples =
      store.samples ++ (fatesFrom define entries store order).flatMap fun call =>
        call.2.sample (entries call.1) := by
  induction order generalizing store with
  | nil => simp [MetricStore.updates, fatesFrom]
  | cons i order ih =>
      rw [List.map_cons, MetricStore.updates, List.foldl_cons, ← MetricStore.updates, ih,
        MetricStore.samples_update, fatesFrom, List.flatMap_cons, List.append_assoc]

end

/-- The vector is in a map, or registered and about to be. -/
def Registered (s : Ensuring) (vec : Collector) : Prop :=
  Kept s.reg vec ∨ ∃ i, s.pc i = .registered vec

/-- The place of a call fits its fate. -/
def FateFits (crate : PrometheusCrate) (entry : MetricEntry) (fate : Fate) : EnsurePc → Prop
  | .registered vec | .returned (some vec) => fate = (vec.family crate).fate entry
  | .returned none => fate = .dropped
  | _ => False

section

variable (crate : PrometheusCrate) (defaultBuckets : List F64) (entries : Nat → MetricEntry)

/-- The fates of the calls, one after another from an empty registry. -/
def fates (order : List Nat) : List (Nat × Fate) :=
  fatesFrom (definedFamily crate (PromRegistry.new defaultBuckets)) entries .empty order

/-- What the calls that have recorded their sample recorded, in the order of all calls. -/
def recordedBy (order : List Nat) (outcome : Nat → Option Outcome) :
    List (SeriesKey × Sample) :=
  ((fates crate defaultBuckets entries order).filter fun call =>
    (outcome call.1).isSome).flatMap fun call => call.2.sample (entries call.1)

/-- The state is that of the decided calls, one after another in this order. -/
structure Linearized (order : List Nat) (s : Updating) : Prop where
  consistent : Consistent (fun i => ensureCall (entries i)) s.ensuring
  represents : Represents crate (Registered s.ensuring) s.ensuring.reg.registry
    (storeAfter crate defaultBuckets (order.map entries))
  buckets : s.ensuring.reg.defaultBuckets = defaultBuckets
  decided : ∀ i, i ∈ order ↔ (s.ensuring.pc i).decided = true
  nodup : order.Nodup
  built : ∀ i vec, s.ensuring.pc i = .building vec →
    vec = vecOf (PromRegistry.new defaultBuckets) vec.id (entries i) ∧
      crate.vecError (entries i).metricType (vecOpts (PromRegistry.new defaultBuckets)
        (entries i).metricType (entries i).name) (labelNames (entries i)) = none
  fits : ∀ i fate, (i, fate) ∈ fates crate defaultBuckets entries order →
    FateFits crate (entries i) fate (s.ensuring.pc i)
  returned : ∀ i outcome, s.outcome i = some outcome →
    (∃ result, s.ensuring.pc i = .returned result) ∧
      ∃ fate, (i, fate) ∈ fates crate defaultBuckets entries order ∧ outcome = fate.outcome
  shows : ∃ samples, Shows s.ensuring.reg.registry s.ensuring.reg.observations samples ∧
    samples.Perm (recordedBy crate defaultBuckets entries order s.outcome)

variable {crate defaultBuckets entries}
variable {order : List Nat} {s : Updating} {e : Ensuring} {i : Nat} {pc : EnsurePc}

theorem storeAfter_concat :
    storeAfter crate defaultBuckets ((order ++ [i]).map entries) =
      ((storeAfter crate defaultBuckets (order.map entries)).update
        (definedFamily crate (PromRegistry.new defaultBuckets)) (entries i)).2 := by
  rw [List.map_append, storeAfter, MetricStore.updates_append, ← storeAfter]
  rfl

theorem fates_concat :
    fates crate defaultBuckets entries (order ++ [i]) =
      fates crate defaultBuckets entries order ++
        [(i, ((storeAfter crate defaultBuckets (order.map entries)).update
          (definedFamily crate (PromRegistry.new defaultBuckets)) (entries i)).1)] := by
  rw [fates, fatesFrom_append, ← fates]
  rfl

theorem mem_order_of_mem_fates {fate : Fate}
    (h : (i, fate) ∈ fates crate defaultBuckets entries order) : i ∈ order :=
  mem_map_fst_fatesFrom _ _ h

/-- A call finds its place at the end of the order. -/
theorem Linearized.decide (h : Linearized crate defaultBuckets entries order s)
    (hpc : ∀ j, e.pc j = if j = i then pc else s.ensuring.pc j)
    (hbefore : (s.ensuring.pc i).decided = false) (hafter : pc.decided = true)
    (hconsistent : Consistent (fun i => ensureCall (entries i)) e)
    (hrepresents : Represents crate (Registered e) e.reg.registry
      ((storeAfter crate defaultBuckets (order.map entries)).update
        (definedFamily crate (PromRegistry.new defaultBuckets)) (entries i)).2)
    (hbuckets : e.reg.defaultBuckets = s.ensuring.reg.defaultBuckets)
    (hobservations : e.reg.observations = s.ensuring.reg.observations)
    (hshows : ∀ samples, Shows s.ensuring.reg.registry s.ensuring.reg.observations samples →
      Shows e.reg.registry s.ensuring.reg.observations samples)
    (hfits : FateFits crate (entries i) ((storeAfter crate defaultBuckets (order.map entries)).update
      (definedFamily crate (PromRegistry.new defaultBuckets)) (entries i)).1 pc) :
    Linearized crate defaultBuckets entries (order ++ [i]) { s with ensuring := e } := by
  have hnew : i ∉ order := by
    intro hmem
    rw [(h.decided i).mp hmem] at hbefore
    contradiction
  have hunfinished : s.outcome i = none := by
    rw [Option.eq_none_iff_forall_ne_some]
    intro outcome houtcome
    obtain ⟨⟨result, hresult⟩, -⟩ := h.returned i outcome houtcome
    rw [hresult] at hbefore
    contradiction
  have hother : ∀ j, j ≠ i → e.pc j = s.ensuring.pc j := fun j hne => by rw [hpc, if_neg hne]
  have hself : e.pc i = pc := by rw [hpc, if_pos rfl]
  refine ⟨hconsistent, ?_, hbuckets.trans h.buckets, ?_, ?_, ?_, ?_, ?_, ?_⟩
  · rw [storeAfter_concat]
    exact hrepresents
  · intro j
    rw [List.mem_append, List.mem_singleton]
    by_cases hj : j = i
    · subst hj
      simp [hself, hafter]
    · rw [hother j hj, h.decided]
      simp [hj]
  · rw [List.nodup_append]
    refine ⟨h.nodup, List.nodup_singleton i, ?_⟩
    rintro j hj k hk rfl
    rw [List.mem_singleton] at hk
    exact hnew (hk ▸ hj)
  · intro j vec hj
    by_cases hji : j = i
    · subst hji
      change e.pc j = _ at hj
      rw [hself] at hj
      rw [hj] at hafter
      contradiction
    · change e.pc j = _ at hj
      rw [hother j hji] at hj
      exact h.built j vec hj
  · intro j fate hj
    rw [fates_concat, List.mem_append, List.mem_singleton] at hj
    change FateFits crate (entries j) fate (e.pc j)
    rcases hj with hj | hj
    · rw [hother j (fun heq => hnew (heq ▸ mem_order_of_mem_fates hj))]
      exact h.fits j fate hj
    · obtain ⟨rfl, rfl⟩ := Prod.mk.inj hj
      rw [hself]
      exact hfits
  · intro j outcome houtcome
    obtain ⟨⟨result, hresult⟩, fate, hfate, heq⟩ := h.returned j outcome houtcome
    have hj : j ≠ i := by
      rintro rfl
      change s.outcome j = _ at houtcome
      rw [hunfinished] at houtcome
      contradiction
    refine ⟨⟨result, (hother j hj).trans hresult⟩, fate, ?_, heq⟩
    rw [fates_concat]
    exact List.mem_append_left _ hfate
  · obtain ⟨samples, hshown, hperm⟩ := h.shows
    refine ⟨samples, ?_, ?_⟩
    · change Shows e.reg.registry e.reg.observations samples
      rw [hobservations]
      exact hshows samples hshown
    · have hrecorded : recordedBy crate defaultBuckets entries (order ++ [i]) s.outcome =
          recordedBy crate defaultBuckets entries order s.outcome := by
        rw [recordedBy, recordedBy, fates_concat, List.filter_append]
        simp [hunfinished]
      change samples.Perm (recordedBy crate defaultBuckets entries (order ++ [i]) s.outcome)
      rw [hrecorded]
      exact hperm

/-- A call moves without settling or leaving its place. -/
theorem Linearized.move (h : Linearized crate defaultBuckets entries order s)
    (hpc : ∀ j, e.pc j = if j = i then pc else s.ensuring.pc j)
    (hdecided : pc.decided = (s.ensuring.pc i).decided)
    (hconsistent : Consistent (fun i => ensureCall (entries i)) e)
    (hregistered : ∀ vec, Registered e vec ↔ Registered s.ensuring vec)
    (hregistry : e.reg.registry = s.ensuring.reg.registry)
    (hbuckets : e.reg.defaultBuckets = s.ensuring.reg.defaultBuckets)
    (hobservations : e.reg.observations = s.ensuring.reg.observations)
    (hbuilt : ∀ vec, pc = .building vec →
      vec = vecOf (PromRegistry.new defaultBuckets) vec.id (entries i) ∧ crate.vecError (entries i).metricType (vecOpts (PromRegistry.new defaultBuckets)
        (entries i).metricType (entries i).name) (labelNames (entries i)) = none)
    (hfits : ∀ fate, FateFits crate (entries i) fate (s.ensuring.pc i) → FateFits crate (entries i) fate pc)
    (hreturned : ∀ result, s.ensuring.pc i ≠ .returned result) :
    Linearized crate defaultBuckets entries order { s with ensuring := e } := by
  have hplace : ∀ j, j ≠ i ∧ e.pc j = s.ensuring.pc j ∨ j = i ∧ e.pc j = pc := by
    intro j
    rw [hpc]
    split
    · exact Or.inr ⟨‹_›, rfl⟩
    · exact Or.inl ⟨‹_›, rfl⟩
  refine ⟨hconsistent, ?_, hbuckets.trans h.buckets, ?_, h.nodup, ?_, ?_, ?_, ?_⟩
  · change Represents crate (Registered e) e.reg.registry _
    rw [hregistry]
    exact h.represents.congr hregistered
  · intro j
    change _ ↔ (e.pc j).decided = true
    rcases hplace j with ⟨-, hj⟩ | ⟨rfl, hj⟩
    · rw [hj, h.decided]
    · rw [hj, hdecided, h.decided]
  · intro j vec hvec
    change e.pc j = _ at hvec
    rcases hplace j with ⟨-, hj⟩ | ⟨rfl, hj⟩
    · exact h.built j vec (hj ▸ hvec)
    · exact hbuilt vec (hj ▸ hvec)
  · intro j fate hfate
    change FateFits crate (entries j) fate (e.pc j)
    rcases hplace j with ⟨-, hj⟩ | ⟨rfl, hj⟩
    · rw [hj]
      exact h.fits j fate hfate
    · rw [hj]
      exact hfits fate (h.fits j fate hfate)
  · intro j outcome houtcome
    obtain ⟨⟨result, hresult⟩, hrest⟩ := h.returned j outcome houtcome
    refine ⟨⟨result, ?_⟩, hrest⟩
    change e.pc j = _
    rcases hplace j with ⟨-, hj⟩ | ⟨rfl, -⟩
    · rw [hj, hresult]
    · exact absurd hresult (hreturned result)
  · obtain ⟨samples, hshown, hperm⟩ := h.shows
    refine ⟨samples, ?_, hperm⟩
    change Shows e.reg.registry e.reg.observations samples
    rw [hregistry, hobservations]
    exact hshown

/-! ## Steps of `ensure_*` -/

theorem Registered.known {calls : Nat → EnsureCall} (hcons : Consistent calls e)
    {vec : Collector} (h : Registered e vec) : Known calls e vec.kind vec.opts.name vec := by
  rcases h with ⟨kind, name, hmem⟩ | ⟨j, hj⟩
  · obtain ⟨rfl, rfl⟩ := hcons.shape kind name vec (.kept hmem)
    exact .kept hmem
  · obtain ⟨hkind, hname⟩ := hcons.shape _ _ vec (.of_pc (Or.inr hj))
    rw [hkind, hname]
    exact .of_pc (Or.inr hj)

/-- No vector of the kind has the name if its map has none and no other call of the kind
has registered one. -/
theorem Registered.other_kind {calls : Nat → EnsureCall} (hcons : Consistent calls e)
    {call : EnsureCall} (hget : (e.reg.vecs call.kind).get? call.name = none)
    (hlock : ∀ j vec, e.pc j = .registered vec → (calls j).kind ≠ call.kind)
    {vec : Collector} (h : Registered e vec) (hname : vec.opts.name = call.name) :
    vec.kind ≠ call.kind := by
  intro hkind
  rcases h with ⟨kind, name, hmem⟩ | ⟨j, hj⟩
  · obtain ⟨rfl, rfl⟩ := hcons.shape kind name vec (.kept hmem)
    rw [SortedMap.get?_eq_none, ← hkind, ← hname] at hget
    exact hget (SortedMap.mem_keys.mpr ⟨vec, hmem⟩)
  · obtain ⟨hkind', -⟩ := hcons.shape _ _ vec (.of_pc (Or.inr hj))
    exact hlock j vec hj (hkind'.symm.trans hkind)

/-- Moving a call that keeps no vector changes nothing about which are registered. -/
theorem registered_setPc {e' : Ensuring} (hvecs : ∀ kind, e'.reg.vecs kind = e.reg.vecs kind)
    (hpc : ∀ j, e'.pc j = if j = i then pc else e.pc j)
    (hbefore : ∀ vec, e.pc i ≠ .registered vec) (hafter : ∀ vec, pc ≠ .registered vec)
    (vec : Collector) : Registered e' vec ↔ Registered e vec := by
  have hkept : Kept e'.reg vec ↔ Kept e.reg vec := by
    simp only [Kept, hvecs]
  have hpending : (∃ j, e'.pc j = .registered vec) ↔ ∃ j, e.pc j = .registered vec := by
    apply exists_congr
    intro j
    rw [hpc]
    by_cases hj : j = i
    · rw [if_pos hj, hj]
      exact iff_of_false (hafter vec) (hbefore vec)
    · rw [if_neg hj]
  rw [Registered, Registered, hkept, hpending]

theorem vecOpts_eq (h : Linearized crate defaultBuckets entries order s) (kind : MetricType)
    (name : String) :
    vecOpts s.ensuring.reg kind name = vecOpts (PromRegistry.new defaultBuckets) kind name := by
  rw [@vecOpts_congr (PromRegistry.new defaultBuckets) s.ensuring.reg h.buckets]

/-- A call finds a vector in its map. -/
theorem Linearized.hit (h : Linearized crate defaultBuckets entries order s) {vec : Collector}
    (hpc : s.ensuring.pc i = .start ∨ s.ensuring.pc i = .missed)
    (hget : (s.ensuring.reg.vecs (entries i).metricType).get? (entries i).name = some vec)
    (hcons : Consistent (fun i => ensureCall (entries i))
      (s.ensuring.setPc i (.returned (some vec)))) :
    Linearized crate defaultBuckets entries (order ++ [i])
      { s with ensuring := s.ensuring.setPc i (.returned (some vec)) } := by
  have hmem := SortedMap.get?_eq_some.mp hget
  obtain ⟨hkind, hname⟩ := h.consistent.shape _ _ vec (.kept hmem)
  have hupdate := @Represents.update_of_registered _ _ _ _ _ (entries i)
    (definedFamily crate (PromRegistry.new defaultBuckets)) h.represents
    (Or.inl ⟨_, _, hmem⟩) hname hkind
  have hnot : ∀ v, s.ensuring.pc i ≠ .registered v := by
    intro v hv
    rcases hpc with hpc | hpc <;> simp [hpc] at hv
  have hplace : ∀ j, (s.ensuring.setPc i (.returned (some vec))).pc j =
      if j = i then .returned (some vec) else s.ensuring.pc j :=
    fun j => Ensuring.pc_setPc _ i j _
  have hsame : ∀ v, Registered (s.ensuring.setPc i (.returned (some vec))) v ↔
      Registered s.ensuring v :=
    registered_setPc (fun _ => rfl) hplace hnot fun _ => EnsurePc.noConfusion
  refine h.decide hplace ?_ rfl hcons ?_ rfl rfl (fun _ hs => hs) ?_
  · rcases hpc with hpc | hpc <;> rw [hpc] <;> rfl
  · rw [hupdate]
    exact h.represents.congr hsame
  · rw [hupdate]
    rfl

/-- A call learns that it gets no vector. -/
theorem Linearized.refused (h : Linearized crate defaultBuckets entries order s)
    {writer : MetricType → Option Nat}
    (hpc : s.ensuring.pc i = .missed ∨ ∃ vec, s.ensuring.pc i = .building vec)
    (hother : ∀ vec, Registered s.ensuring vec → vec.opts.name = (entries i).name →
      vec.kind ≠ (entries i).metricType)
    (hrefused : s.ensuring.reg.registry.get? (entries i).name = none →
      definedFamily crate (PromRegistry.new defaultBuckets) (entries i) = none)
    (hcons : Consistent (fun i => ensureCall (entries i))
      ({ s.ensuring with writer }.setPc i (.returned none))) :
    Linearized crate defaultBuckets entries (order ++ [i])
      { s with ensuring := { s.ensuring with writer }.setPc i (.returned none) } := by
  have hupdate := h.represents.update_of_dropped hother hrefused definedFamily_reserved
  have hnot : ∀ v, s.ensuring.pc i ≠ .registered v := by
    intro v hv
    rcases hpc with hpc | ⟨vec, hpc⟩ <;> simp [hpc] at hv
  have hplace : ∀ j, ({ s.ensuring with writer }.setPc i (.returned none)).pc j =
      if j = i then .returned none else s.ensuring.pc j :=
    fun j => Ensuring.pc_setPc _ i j _
  have hsame : ∀ v, Registered ({ s.ensuring with writer }.setPc i (.returned none)) v ↔
      Registered s.ensuring v :=
    registered_setPc (fun _ => rfl) hplace hnot fun _ => EnsurePc.noConfusion
  refine h.decide hplace ?_ rfl hcons ?_ rfl rfl (fun _ hs => hs) ?_
  · rcases hpc with hpc | ⟨vec, hpc⟩ <;> rw [hpc] <;> rfl
  · rw [hupdate]
    exact h.represents.congr hsame
  · rw [hupdate]
    rfl

/-- A call registers its vector under a free name. -/
theorem Linearized.register (h : Linearized crate defaultBuckets entries order s)
    {vec : Collector} (hpc : s.ensuring.pc i = .building vec)
    (hid : s.ensuring.reg.registry.get? vec.opts.name = none)
    (hcons : Consistent (fun i => ensureCall (entries i)) (s.ensuring.enroll i vec)) :
    Linearized crate defaultBuckets entries (order ++ [i])
      { s with ensuring := s.ensuring.enroll i vec } := by
  set e := s.ensuring.enroll i vec with he
  have hpc' : ∀ j, e.pc j = if j = i then .registered vec else s.ensuring.pc j :=
    fun j => Ensuring.pc_setPc _ i j _
  have hknown : Known (fun i => ensureCall (entries i)) s.ensuring (entries i).metricType
      (entries i).name vec := Known.of_pc (Or.inl hpc)
  obtain ⟨hkind, hname⟩ := h.consistent.shape _ _ vec hknown
  change vec.kind = (entries i).metricType at hkind
  change vec.opts.name = (entries i).name at hname
  obtain ⟨hvec, herror⟩ := h.built i vec hpc
  have hnew : ∀ v, Registered s.ensuring v → v.id ≠ vec.id := by
    intro v hv heq
    have hnumber := (h.represents.numbers _ _).mpr (Or.inr ⟨v, hv, rfl, rfl⟩)
    rw [h.consistent.unique _ _ _ _ _ _ (hv.known h.consistent) hknown heq, hid] at hnumber
    contradiction
  have hdefine : definedFamily crate (PromRegistry.new defaultBuckets) (entries i) =
      some (vec.family crate) := by
    have hne : (entries i).name ≠ droppedTotalName := by
      intro heq
      have hzero := (h.represents.numbers (entries i).name 0).mpr (Or.inl ⟨heq, rfl⟩)
      rw [← hname, hid] at hzero
      contradiction
    rw [hvec]
    exact definedFamily_of_accepted hne herror vec.id
  have hupdate := h.represents.update_of_free (by rw [← hname]; exact hid) hdefine
  have hvecs : ∀ kind, e.reg.vecs kind = s.ensuring.reg.vecs kind := by
    intro kind
    cases kind <;> rfl
  have hregistered : ∀ v, Registered e v ↔ Registered s.ensuring v ∨ v = vec := by
    intro v
    simp only [Registered, Kept, hvecs, hpc', or_assoc]
    apply or_congr Iff.rfl
    constructor
    · rintro ⟨j, hj⟩
      split at hj
      · exact Or.inr (EnsurePc.registered.inj hj).symm
      · exact Or.inl ⟨j, hj⟩
    · rintro (⟨j, hj⟩ | rfl)
      · refine ⟨j, ?_⟩
        rw [if_neg]
        · exact hj
        · rintro rfl
          rw [hpc] at hj
          contradiction
      · exact ⟨i, if_pos rfl⟩
  refine h.decide hpc' (by rw [hpc]; rfl) rfl hcons ?_ rfl rfl (fun _ hs => hs.insert hid) ?_
  · have hadded := h.represents.register hid hnew (h.consistent.made _ _ _ hknown).1
    have hregistry : e.reg.registry =
        s.ensuring.reg.registry.insert (entries i).name vec.id := by
      rw [he, ← hname]
      rfl
    rw [hname] at hadded
    rw [hupdate, hregistry]
    exact hadded.congr hregistered
  · rw [hupdate]
    rfl

/-- A call inserts its registered vector into its map. -/
theorem Linearized.insert (h : Linearized crate defaultBuckets entries order s)
    {vec : Collector} (hpc : s.ensuring.pc i = .registered vec)
    (hcons : Consistent (fun i => ensureCall (entries i))
      (s.ensuring.insert i (ensureCall (entries i)) vec)) :
    Linearized crate defaultBuckets entries order
      { s with ensuring := s.ensuring.insert i (ensureCall (entries i)) vec } := by
  obtain ⟨-, hnone⟩ := h.consistent.exclusive i vec (Or.inr hpc)
  obtain ⟨hkind, -⟩ := h.consistent.shape _ _ _ (.of_pc (Or.inr hpc))
  set e := s.ensuring.insert i (ensureCall (entries i)) vec with he
  have hmem := fun kind name v => @mem_vecs_insert (fun i => ensureCall (entries i)) s.ensuring i
    vec hkind hnone kind name v
  have hpc' : ∀ j, e.pc j = if j = i then .returned (some vec) else s.ensuring.pc j :=
    fun j => Function.update_apply s.ensuring.pc i (.returned (some vec)) j
  have hregistered : ∀ v, Registered e v ↔ Registered s.ensuring v := by
    intro v
    constructor
    · rintro (⟨kind, name, hv⟩ | ⟨j, hj⟩)
      · rcases (hmem kind name v).mp hv with hv | ⟨-, -, rfl⟩
        · exact Or.inl ⟨kind, name, hv⟩
        · exact Or.inr ⟨i, hpc⟩
      · rw [hpc'] at hj
        split at hj
        · contradiction
        · exact Or.inr ⟨j, hj⟩
    · rintro (⟨kind, name, hv⟩ | ⟨j, hj⟩)
      · exact Or.inl ⟨kind, name, (hmem kind name v).mpr (Or.inl hv)⟩
      · by_cases hji : j = i
        · subst hji
          obtain rfl := EnsurePc.registered.inj (hpc.symm.trans hj)
          exact Or.inl ⟨_, _, (hmem _ _ _).mpr (Or.inr ⟨rfl, rfl, rfl⟩)⟩
        · refine Or.inr ⟨j, ?_⟩
          rw [hpc', if_neg hji]
          exact hj
  have hbuckets : e.reg.defaultBuckets = s.ensuring.reg.defaultBuckets := by
    rw [he, Ensuring.insert]
    change (s.ensuring.reg.insertVec _ vec).defaultBuckets = _
    unfold PromRegistry.insertVec
    cases vec.kind <;> rfl
  refine h.move hpc' ?_ hcons hregistered (registry_insertVec _ _ _) hbuckets
    (observations_insertVec _ _ _) (fun _ => EnsurePc.noConfusion) ?_ ?_
  · rw [hpc]
    rfl
  · intro fate hfate
    rw [hpc] at hfate
    exact hfate
  · intro result hresult
    rw [hpc] at hresult
    contradiction

/-- Steps of `ensure_*` keep the order, which grows by the call that they settle. -/
theorem Linearized.ensure (h : Linearized crate defaultBuckets entries order s)
    {action : EnsureAction}
    (hstep : ensureStep crate (fun i => ensureCall (entries i)) s.ensuring action = some e) :
    Linearized crate defaultBuckets entries
      (order ++ decides crate entries s (.ensure action)) { s with ensuring := e } := by
  have hcons := (h.consistent.step hstep).1
  have hsettles : decides crate entries s (.ensure action) =
      if !(s.ensuring.pc action.caller).decided && (e.pc action.caller).decided then
        [action.caller]
      else [] := by
    rw [decides, hstep]
  rw [hsettles]
  cases ensureStep_cases hstep with
  | @hit i vec action haction hpc hget =>
      have hcaller : action.caller = i := by
        rcases haction with rfl | rfl <;> rfl
      have hbefore : (s.ensuring.pc i).decided = false := by
        rcases hpc with hpc | hpc <;> rw [hpc] <;> rfl
      rw [hcaller, Ensuring.setPc_self, hbefore]
      exact h.hit hpc hget hcons
  | @miss i hpc =>
      simp only [EnsureAction.caller, Ensuring.setPc_self, hpc, EnsurePc.decided,
        Bool.and_false, Bool.false_eq_true, if_false, List.append_nil]
      have hplace : ∀ j, (s.ensuring.setPc i .missed).pc j =
          if j = i then .missed else s.ensuring.pc j := fun j => Ensuring.pc_setPc _ i j _
      refine h.move hplace (by rw [hpc]; rfl) hcons ?_ rfl rfl rfl
        (fun _ => EnsurePc.noConfusion) ?_ ?_
      · exact registered_setPc (fun _ => rfl) hplace (by simp [hpc]) (by simp)
      · intro fate hfate
        rw [hpc] at hfate
        exact hfate
      · simp [hpc]
  | @refuse i error hpc hfree hget herror =>
      simp only [EnsureAction.caller, Ensuring.setPc_self, hpc, EnsurePc.decided,
        Bool.not_false, Bool.and_true, if_true]
      refine h.refused (Or.inl hpc) ?_ (fun _ => ?_) hcons
      · intro vec hvec hname
        refine hvec.other_kind h.consistent hget ?_ hname
        intro j v hj heq
        have hheld := (h.consistent.exclusive j v (Or.inr hj)).1
        rw [heq, hfree] at hheld
        contradiction
      · have herror' : crate.vecError (entries i).metricType (vecOpts s.ensuring.reg
            (entries i).metricType (entries i).name) (labelNames (entries i)) = some error :=
          herror
        rw [vecOpts_eq h] at herror'
        simp [definedFamily, herror']
  | @build i hpc herror =>
      simp only [EnsureAction.caller, Ensuring.setPc_self, hpc, EnsurePc.decided,
        Bool.and_false, Bool.false_eq_true, if_false, List.append_nil]
      have herror' : crate.vecError (entries i).metricType (vecOpts s.ensuring.reg
          (entries i).metricType (entries i).name) (labelNames (entries i)) = none := herror
      rw [vecOpts_eq h] at herror'
      refine h.move (fun j => Ensuring.pc_setPc _ i j _) (by rw [hpc]; rfl) hcons ?_ rfl rfl rfl
        ?_ ?_ ?_
      · refine registered_setPc (fun kind => ?_) (fun j => Ensuring.pc_setPc _ i j _)
          (by simp [hpc]) (by simp)
        cases kind <;> rfl
      · intro vec hvec
        obtain rfl := EnsurePc.building.inj hvec
        refine ⟨?_, herror'⟩
        rw [vecOf, ← vecOpts_eq h]
        rfl
      · intro fate hfate
        rw [hpc] at hfate
        exact hfate
      · simp [hpc]
  | @taken i id vec hpc hid =>
      simp only [EnsureAction.caller, Ensuring.setPc_self, hpc, EnsurePc.decided,
        Bool.not_false, Bool.and_true, if_true]
      obtain ⟨hheld, hget⟩ := h.consistent.exclusive i vec (Or.inl hpc)
      have hname := (h.consistent.shape _ _ vec (.of_pc (Or.inl hpc))).2
      refine h.refused (Or.inr ⟨vec, hpc⟩) ?_ (fun hnone => ?_) hcons
      · intro v hv hv'
        refine hv.other_kind h.consistent hget ?_ hv'
        intro j w hj heq
        have hother := (h.consistent.exclusive j w (Or.inr hj)).1
        rw [heq, hheld] at hother
        obtain rfl := Option.some.inj hother
        rw [hpc] at hj
        contradiction
      · change vec.opts.name = (entries i).name at hname
        rw [hname, hnone] at hid
        contradiction
  | @register i vec hpc hid =>
      have hself : (s.ensuring.enroll i vec).pc i = .registered vec := Ensuring.setPc_self _ _ _
      simp only [EnsureAction.caller, hself, hpc, EnsurePc.decided,
        Bool.not_false, Bool.and_true, if_true]
      exact h.register hpc hid hcons
  | @insert i vec hpc =>
      simp only [EnsureAction.caller, hpc, EnsurePc.decided, Bool.not_true, Bool.false_and,
        Bool.false_eq_true, if_false, List.append_nil]
      exact h.insert hpc hcons

/-! ## Recording -/

/-- The maps, the registry and the next number are all that `ensure_*` is concerned with. -/
theorem Consistent.frame {calls : Nat → EnsureCall} (h : Consistent calls e)
    {reg : PromRegistry} (hvecs : ∀ kind, reg.vecs kind = e.reg.vecs kind)
    (hregistry : reg.registry = e.reg.registry) (hcreated : reg.created = e.reg.created) :
    Consistent calls { e with reg } := by
  have hknown : ∀ kind name vec, Known calls { e with reg } kind name vec →
      Known calls e kind name vec := by
    intro kind name vec hk
    cases hk with
    | kept hk => exact .kept (hvecs kind ▸ hk)
    | building j hj hkind hname => exact .building j hj hkind hname
    | registered j hj hkind hname => exact .registered j hj hkind hname
  obtain ⟨hshape, hmade, hunique⟩ := h.of_known hknown hcreated
  refine ⟨hshape, hmade, hunique, ?_, ?_, ?_, ?_, ?_, ?_⟩
  · intro kind name vec hmem
    change reg.registry.get? name = some vec.id
    rw [hregistry]
    exact h.kept kind name vec (hvecs kind ▸ hmem)
  · intro j vec hj
    change reg.registry.get? _ = _
    rw [hregistry]
    exact h.registered j vec hj
  · intro j vec hj
    rw [Exclusive, hvecs]
    exact h.exclusive j vec hj
  · change reg.registry.get? _ = _
    rw [hregistry]
    exact h.dropped
  · change 0 < reg.created
    rw [hcreated]
    exact h.next
  · intro j vec hj
    rw [hvecs]
    exact h.returned j vec hj

theorem registered_frame {reg : PromRegistry}
    (hvecs : ∀ kind, reg.vecs kind = e.reg.vecs kind) (vec : Collector) :
    Registered { e with reg } vec ↔ Registered e vec := by
  simp only [Registered, Kept, hvecs]

/-- One more member of a list passes the filter: what it gives comes at some place. -/
theorem flatMap_filter_perm {α β : Type} {calls : List (Nat × α)} {a : α} {f : Nat × α → List β}
    (keep keep' : Nat → Bool) (hmem : (i, a) ∈ calls) (hnodup : (calls.map Prod.fst).Nodup)
    (hbefore : keep i = false) (hafter : keep' i = true)
    (hothers : ∀ j, j ≠ i → keep' j = keep j) :
    ((calls.filter fun call => keep' call.1).flatMap f).Perm
      ((calls.filter fun call => keep call.1).flatMap f ++ f (i, a)) := by
  obtain ⟨before, after, rfl⟩ := List.append_of_mem hmem
  rw [List.map_append, List.map_cons, List.nodup_middle, List.nodup_cons, List.mem_append]
    at hnodup
  have hsame : ∀ part : List (Nat × α), i ∉ part.map Prod.fst →
      part.filter (fun call => keep' call.1) = part.filter fun call => keep call.1 := by
    intro part hpart
    apply List.filter_congr
    intro call hcall
    apply hothers
    rintro rfl
    exact hpart (List.mem_map_of_mem hcall)
  rw [List.filter_append, List.filter_append, List.filter_cons_of_pos (by simp [hafter]),
    List.filter_cons_of_neg (by simp [hbefore]), hsame before (fun h => hnodup.1 (Or.inl h)),
    hsame after (fun h => hnodup.1 (Or.inr h)), List.flatMap_append, List.flatMap_append,
    List.flatMap_cons, List.append_assoc]
  exact List.perm_append_comm.append_left _

/-- A call that has returned from `ensure_*` records its sample. -/
theorem Linearized.observe (h : Linearized crate defaultBuckets entries order s)
    {result : Option Collector} (hpc : s.ensuring.pc i = .returned result)
    (hunfinished : s.outcome i = none) :
    let observed := Prometheus.observe crate (result, s.ensuring.reg)
      ((entries i).labels.map Prod.snd) (sampleOf (entries i))
    Linearized crate defaultBuckets entries order ⟨{ s.ensuring with reg := observed.2 },
      Function.update s.outcome i (some observed.1)⟩ := by
  intro observed
  have hmem : i ∈ order := (h.decided i).mpr (by rw [hpc]; rfl)
  have hmem' : i ∈ (fates crate defaultBuckets entries order).map Prod.fst := by
    rwa [fates, map_fst_fatesFrom]
  obtain ⟨⟨j, fate⟩, hfate, hj⟩ := List.mem_map.mp hmem'
  obtain rfl : j = i := hj
  have hfits := h.fits j fate hfate
  rw [hpc] at hfits
  -- the sample is logged under its series, if its fate is to be recorded
  have hlogged : observed.1 = fate.outcome ∧ ∃ more,
      observed.2 = { s.ensuring.reg with
        observations := s.ensuring.reg.observations ++ more } ∧
      Shows s.ensuring.reg.registry more (fate.sample (entries j)) := by
    cases result with
    | none =>
        obtain rfl : fate = .dropped := hfits
        exact ⟨rfl, [], by simp [observed, Prometheus.observe], .nil⟩
    | some vec =>
        obtain rfl : fate = (vec.family crate).fate (entries j) := hfits
        exact observe_settles crate (h.consistent.kept _ _ _ (h.consistent.returned j vec hpc))
  obtain ⟨houtcome, more, hreg, hshows⟩ := hlogged
  have hnodup : ((fates crate defaultBuckets entries order).map Prod.fst).Nodup := by
    rw [fates, map_fst_fatesFrom]
    exact h.nodup
  have hvecs : ∀ kind, ({ s.ensuring.reg with
      observations := s.ensuring.reg.observations ++ more } : PromRegistry).vecs kind =
      s.ensuring.reg.vecs kind := by
    intro kind
    cases kind <;> rfl
  rw [hreg, houtcome]
  refine ⟨h.consistent.frame hvecs rfl rfl, ?_, h.buckets, h.decided, h.nodup, h.built, h.fits,
    ?_, ?_⟩
  · exact h.represents.congr (registered_frame hvecs)
  · intro k outcome hk
    change Function.update s.outcome j (some fate.outcome) k = some outcome at hk
    rw [Function.update_apply] at hk
    split at hk
    · rename_i heq
      rw [heq]
      exact ⟨⟨result, hpc⟩, fate, hfate, (Option.some.inj hk).symm⟩
    · exact h.returned k outcome hk
  · obtain ⟨samples, hshown, hperm⟩ := h.shows
    refine ⟨samples ++ fate.sample (entries j), hshown.append hshows, ?_⟩
    refine (hperm.append_right _).trans (List.Perm.symm ?_)
    refine flatMap_filter_perm (fun k => (s.outcome k).isSome)
      (fun k => (Function.update s.outcome j (some fate.outcome) k).isSome) hfate hnodup
      (by simp [hunfinished]) (by simp) ?_
    intro k hk
    simp [Function.update_of_ne hk]

/-- The drop counter is no concern of the calls. -/
theorem Linearized.incDropped (h : Linearized crate defaultBuckets entries order s) :
    Linearized crate defaultBuckets entries order
      { s with ensuring.reg := s.ensuring.reg.incDropped } := by
  have hvecs : ∀ kind, s.ensuring.reg.incDropped.vecs kind = s.ensuring.reg.vecs kind := by
    intro kind
    cases kind <;> rfl
  exact ⟨h.consistent.frame hvecs rfl rfl, h.represents.congr (registered_frame hvecs),
    h.buckets, h.decided, h.nodup, h.built, h.fits, h.returned, h.shows⟩

/-! ## Runs -/

theorem linearized_init :
    Linearized crate defaultBuckets entries [] (Updating.init defaultBuckets) := by
  have hnone : ∀ vec, ¬ Registered (Ensuring.init defaultBuckets) vec := by
    rintro vec (hkept | ⟨j, hj⟩)
    · exact not_kept_new defaultBuckets vec hkept
    · exact EnsurePc.noConfusion hj
  refine ⟨consistent_init defaultBuckets, represents_empty crate defaultBuckets hnone, rfl, ?_,
    .nil, fun _ _ => EnsurePc.noConfusion, ?_, ?_, [], .nil, .nil⟩
  · intro j
    simp [Updating.init, Ensuring.init, EnsurePc.decided]
  · intro j fate hj
    exact absurd hj List.not_mem_nil
  · intro j outcome hj
    contradiction

theorem linearized_step {action : UpdateAction} {t : Updating}
    (h : Linearized crate defaultBuckets entries order s)
    (hstep : updateStep crate entries s action = some t) :
    Linearized crate defaultBuckets entries (order ++ decides crate entries s action) t := by
  cases action with
  | ensure action =>
      obtain ⟨ensuring, hensure, rfl⟩ := Option.map_eq_some_iff.mp hstep
      exact h.ensure hensure
  | observe i =>
      rw [decides, List.append_nil]
      rw [updateStep] at hstep
      split at hstep
      · rename_i result hpc hunfinished
        obtain rfl := Option.some.inj hstep
        exact h.observe hpc hunfinished
      · contradiction

/-- The fate of a call is the one it has after the calls before it. -/
theorem fates_at {before after : List Nat} {fate : Fate} (hnodup : (before ++ i :: after).Nodup)
    (hfate : (i, fate) ∈ fates crate defaultBuckets entries (before ++ i :: after)) :
    fate = ((storeAfter crate defaultBuckets (before.map entries)).update
      (definedFamily crate (PromRegistry.new defaultBuckets)) (entries i)).1 := by
  rw [List.nodup_middle, List.nodup_cons, List.mem_append] at hnodup
  rw [fates, fatesFrom_append, fatesFrom, List.mem_append, List.mem_cons] at hfate
  have hplace : ∀ store order, (i, fate) ∈ fatesFrom
      (definedFamily crate (PromRegistry.new defaultBuckets)) entries store order → i ∈ order :=
    fun store order => mem_map_fst_fatesFrom store order
  rcases hfate with hfate | hfate | hfate
  · exact absurd (Or.inl (hplace _ _ hfate)) hnodup.1
  · exact (Prod.mk.inj hfate).2
  · exact absurd (Or.inr (hplace _ _ hfate)) hnodup.1

/-- A call that has ended ended as it does alone, after those before it. -/
theorem Linearized.alone (h : Linearized crate defaultBuckets entries order s)
    {outcome : Outcome} (houtcome : s.outcome i = some outcome) :
    ∃ before after, order = before ++ i :: after ∧
      outcome = (update crate (updates crate (PromRegistry.new defaultBuckets)
        (before.map entries)) (entries i)).1 := by
  obtain ⟨-, fate, hfate, rfl⟩ := h.returned i outcome houtcome
  obtain ⟨before, after, horder⟩ := List.append_of_mem (mem_order_of_mem_fates hfate)
  refine ⟨before, after, horder, ?_⟩
  have hnodup := h.nodup
  rw [horder] at hfate hnodup
  rw [fates_at hnodup hfate]
  exact (update_outcome crate defaultBuckets (before.map entries) (entries i)).symm

/-- What is shown once each call of the order has recorded. -/
theorem Linearized.settled (h : Linearized crate defaultBuckets entries order s)
    (hall : ∀ i ∈ order, (s.outcome i).isSome = true) :
    ∃ samples, Shows s.ensuring.reg.registry s.ensuring.reg.observations samples ∧
      samples.Perm (storeAfter crate defaultBuckets (order.map entries)).samples := by
  obtain ⟨samples, hshown, hperm⟩ := h.shows
  refine ⟨samples, hshown, ?_⟩
  have hfilter : (fates crate defaultBuckets entries order).filter
      (fun call => (s.outcome call.1).isSome) = fates crate defaultBuckets entries order := by
    rw [List.filter_eq_self]
    rintro ⟨i, fate⟩ hfate
    exact hall i (mem_order_of_mem_fates hfate)
  rw [recordedBy, hfilter] at hperm
  rw [storeAfter, samples_updates]
  exact hperm

/-- The series then hold what they hold after the calls one after another. -/
theorem Linearized.series (h : Linearized crate defaultBuckets entries order s)
    (hall : ∀ i ∈ order, (s.outcome i).isSome = true) (name : String)
    (labels : List (String × String)) :
    (seriesLog s.ensuring.reg name labels).Perm (seriesLog
      (updates crate (PromRegistry.new defaultBuckets) (order.map entries)) name labels) := by
  obtain ⟨samples, hshown, hperm⟩ := h.settled hall
  have hsound := sound_updates crate defaultBuckets (order.map entries)
  rw [seriesLog_of_shows hshown (fun _ _ _ => h.represents.name_unique) name labels,
    seriesLog_of_shows hsound.shows (fun _ _ _ => hsound.represents.name_unique) name labels]
  exact (hperm.filter _).map _

/-- The registered vectors are those of the calls one after another. -/
theorem Linearized.vectors (h : Linearized crate defaultBuckets entries order s)
    (kind : MetricType) (name : String) (labelNames : List String) :
    (∃ vec, Registered s.ensuring vec ∧ vec.opts.name = name ∧ vec.kind = kind ∧
      vec.labelNames = labelNames) ↔
    ∃ vec, (name, vec) ∈ (updates crate (PromRegistry.new defaultBuckets)
      (order.map entries)).vecs kind ∧ vec.labelNames = labelNames := by
  have hsound := sound_updates crate defaultBuckets (order.map entries)
  constructor
  · rintro ⟨vec, hvec, hname, rfl, rfl⟩
    have hfamily := (h.represents.families _ _).mpr ⟨vec, hvec, hname, rfl⟩
    obtain ⟨vec', hmem, heq⟩ := hsound.families_iff.mp hfamily
    exact ⟨vec', hmem, congrArg Family.labelNames heq⟩
  · rintro ⟨vec, hmem, rfl⟩
    have hkind : vec.kind = kind := (hsound.shape kind name vec hmem).1
    have hfamily := hsound.families_iff.mpr ⟨vec, by rw [← hkind] at hmem; exact hmem, rfl⟩
    obtain ⟨vec', hvec', hname, heq⟩ := (h.represents.families _ _).mp hfamily
    exact ⟨vec', hvec', hname, (congrArg Family.kind heq).symm.trans hkind,
      (congrArg Family.labelNames heq).symm⟩

end

section

variable (crate : PrometheusCrate) (defaultBuckets : List F64) (entries : Nat → MetricEntry)

/-- The calls in the order in which they find their places. -/
def settledOrder (actions : List UpdateAction) : List Nat :=
  transcript (updateStep crate entries) (decides crate entries) (Updating.init defaultBuckets)
    actions

theorem linearized_run {actions : List UpdateAction} {s : Updating}
    (h : exec (updateStep crate entries) (Updating.init defaultBuckets) actions = some s) :
    Linearized crate defaultBuckets entries
      (settledOrder crate defaultBuckets entries actions) s :=
  exec_history (I := Linearized crate defaultBuckets entries)
    (fun _ _ _ _ hs hstep => linearized_step hs hstep) h linearized_init

/-- Every interleaving of the calls is one after another: in the order of their places,
which is of each call once and has a call that ended before one that had not begun, each
ends as it does alone after those before it, the same vectors are registered, and when the
calls are through each series holds the same samples up to their order. -/
theorem updates_linearize (actions : List UpdateAction) (s : Updating)
    (h : exec (updateStep crate entries) (Updating.init defaultBuckets) actions = some s) :
    let order := settledOrder crate defaultBuckets entries actions
    let alone := fun calls : List Nat =>
      updates crate (PromRegistry.new defaultBuckets) (calls.map entries)
    order.Nodup ∧
    (∀ i outcome, s.outcome i = some outcome → ∃ before after, order = before ++ i :: after ∧
      outcome = (update crate (alone before) (entries i)).1) ∧
    (∀ kind name labelNames,
      (∃ vec, Registered s.ensuring vec ∧ vec.opts.name = name ∧ vec.kind = kind ∧
        vec.labelNames = labelNames) ↔
      ∃ vec, (name, vec) ∈ (alone order).vecs kind ∧ vec.labelNames = labelNames) ∧
    ((∀ i ∈ order, (s.outcome i).isSome = true) → ∀ name labels,
      (seriesLog s.ensuring.reg name labels).Perm (seriesLog (alone order) name labels)) ∧
    ∀ first second mid, actions = first ++ second →
      exec (updateStep crate entries) (Updating.init defaultBuckets) first = some mid →
      ∃ before after, order = before ++ after ∧
        (∀ i, (mid.outcome i).isSome = true → i ∈ before) ∧
        ∀ i, mid.ensuring.pc i = .start → i ∉ before := by
  intro order alone
  have hlinear := linearized_run crate defaultBuckets entries h
  refine ⟨hlinear.nodup, fun _ _ => hlinear.alone, hlinear.vectors, hlinear.series, ?_⟩
  · rintro first second mid rfl hfirst
    have hmid := linearized_run crate defaultBuckets entries hfirst
    refine ⟨settledOrder crate defaultBuckets entries first, _,
      transcript_append hfirst second, ?_, ?_⟩
    · intro i hi
      obtain ⟨outcome, houtcome⟩ := Option.isSome_iff_exists.mp hi
      obtain ⟨-, fate, hfate, -⟩ := hmid.returned i outcome houtcome
      exact mem_order_of_mem_fates hfate
    · intro i hi hmem
      have hdecided := (hmid.decided i).mp hmem
      rw [hi] at hdecided
      contradiction

end

/-! ## Two calls of one name -/

/-- A counter, and gauges, of one name. -/
def racing (i : Nat) : MetricEntry :=
  ⟨0, "hits", F64.zero, if i = 0 then .counter else .gauge, []⟩

/-- Both miss and build a vector; the gauge is registered first and records last. -/
def racingRun : List UpdateAction :=
  [.ensure (.read 0), .ensure (.read 1), .ensure (.lock 0), .ensure (.lock 1),
    .ensure (.register 1), .ensure (.register 0), .observe 0, .ensure (.insert 1), .observe 1]

/-- The counter that began first is dropped as it is alone after the gauge. -/
theorem racing_linearizes :
    ∃ s, exec (updateStep acceptAll racing) (Updating.init []) racingRun = some s ∧
      s.outcome 0 = some .dropped ∧
      ∃ before after, settledOrder acceptAll [] racing racingRun = before ++ 0 :: after ∧
        Outcome.dropped =
          (update acceptAll (updates acceptAll (PromRegistry.new []) (before.map racing))
            (racing 0)).1 :=
  ⟨_, rfl, rfl, (updates_linearize acceptAll [] racing racingRun _ rfl).2.1 0 .dropped rfl⟩

end Tonggeret.Prometheus
