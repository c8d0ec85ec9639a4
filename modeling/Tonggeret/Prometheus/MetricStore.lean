import Tonggeret.Prometheus.LabelKeys

/-!
# The registry as a store of metric families

What the registry is for, without maps, collectors and their numbers: a name has at most
one family, whose kind and label names are those of the sample that made it, and a sample
is kept under the series of its name and its labels, if such series can be made.  The
registry refines this store.
-/

namespace Tonggeret.Prometheus

open Tonggeret.Lib

/-! ## The store -/

structure Family where
  kind : MetricType
  labelNames : List String
  /-- Series of the family can be made. -/
  observable : Bool
deriving DecidableEq

/-- A series of the exposition: the name of the metric and the labels. -/
structure SeriesKey where
  name : String
  labels : List (String × String)
deriving DecidableEq

structure MetricStore where
  families : String → Option Family
  samples : List (SeriesKey × Sample)

/-- What becomes of a sample. -/
inductive Fate
  | dropped
  | recorded (series : SeriesKey)
  | panicked
deriving DecidableEq

def Fate.outcome : Fate → Outcome
  | .dropped => .dropped
  | .recorded _ => .recorded
  | .panicked => .panicked

/-- The values of the labels go to the label names of the family by their position. -/
def Family.fate (family : Family) (entry : MetricEntry) : Fate :=
  if entry.labels.length = family.labelNames.length ∧ family.observable = true then
    .recorded ⟨entry.name, family.labelNames.zip (entry.labels.map Prod.snd)⟩
  else .panicked

/-- The sample, under its series. -/
def Fate.sample (entry : MetricEntry) : Fate → List (SeriesKey × Sample)
  | .recorded series => [(series, sampleOf entry)]
  | _ => []

namespace MetricStore

def empty : MetricStore := ⟨fun _ => none, []⟩

def addFamily (store : MetricStore) (name : String) (family : Family) : MetricStore :=
  { store with families := Function.update store.families name (some family) }

def settle (store : MetricStore) (fate : Fate) (entry : MetricEntry) : Fate × MetricStore :=
  (fate, { store with samples := store.samples ++ fate.sample entry })

/-- One sample: it makes the family of its name if there is none and it defines one, and
is dropped if the family is of another kind. -/
def update (define : MetricEntry → Option Family) (store : MetricStore)
    (entry : MetricEntry) : Fate × MetricStore :=
  match store.families entry.name with
  | some family =>
      if family.kind = entry.metricType then store.settle (family.fate entry) entry
      else store.settle .dropped entry
  | none =>
      match define entry with
      | some family => (store.addFamily entry.name family).settle (family.fate entry) entry
      | none => store.settle .dropped entry

/-- The store after a sequence of samples. -/
def updates (define : MetricEntry → Option Family) (store : MetricStore)
    (entries : List MetricEntry) : MetricStore :=
  entries.foldl (fun store entry => (store.update define entry).2) store

theorem families_addFamily (store : MetricStore) (name : String) (family : Family)
    (name' : String) :
    (store.addFamily name family).families name' =
      if name' = name then some family else store.families name' :=
  Function.update_apply store.families name (some family) name'

theorem updates_append (define : MetricEntry → Option Family) (store : MetricStore)
    (before after : List MetricEntry) :
    store.updates define (before ++ after) =
      (store.updates define before).updates define after := List.foldl_append

theorem updates_singleton (define : MetricEntry → Option Family) (store : MetricStore)
    (entry : MetricEntry) :
    store.updates define [entry] = (store.update define entry).2 := rfl

end MetricStore

/-- The family of a vector. -/
def Collector.family (crate : PrometheusCrate) (vec : Collector) : Family :=
  ⟨vec.kind, vec.labelNames, (crate.childError vec.kind vec.opts vec.labelNames).isNone⟩

/-- The vector of a sample's definition, but for its number. -/
def vecOf (reg : PromRegistry) (id : Nat) (entry : MetricEntry) : Collector :=
  ⟨id, entry.metricType, vecOpts reg entry.metricType entry.name, labelNames entry⟩

/-- The family that a sample defines: none if the crate refuses its vector, or if its name
is the one of the drop counter. -/
def definedFamily (crate : PrometheusCrate) (reg : PromRegistry) (entry : MetricEntry) :
    Option Family :=
  if entry.name = droppedTotalName then none
  else
    match crate.vecError entry.metricType (vecOpts reg entry.metricType entry.name)
        (labelNames entry) with
    | some _ => none
    | none => some ((vecOf reg reg.created entry).family crate)

theorem vecOpts_congr {reg reg' : PromRegistry}
    (h : reg'.defaultBuckets = reg.defaultBuckets) : vecOpts reg' = vecOpts reg := by
  ext kind name
  unfold vecOpts
  rw [h]

theorem definedFamily_congr (crate : PrometheusCrate) {reg reg' : PromRegistry}
    (h : reg'.defaultBuckets = reg.defaultBuckets) :
    definedFamily crate reg' = definedFamily crate reg := by
  ext entry
  simp only [definedFamily, vecOf, Collector.family, vecOpts_congr h]

theorem definedFamily_of_accepted {crate : PrometheusCrate} {reg : PromRegistry}
    {entry : MetricEntry} (hname : entry.name ≠ droppedTotalName)
    (herror : crate.vecError entry.metricType (vecOpts reg entry.metricType entry.name)
      (labelNames entry) = none) (id : Nat) :
    definedFamily crate reg entry = some ((vecOf reg id entry).family crate) := by
  rw [definedFamily, if_neg hname, herror]
  rfl

theorem definedFamily_reserved {crate : PrometheusCrate} {reg : PromRegistry}
    {entry : MetricEntry} (h : entry.name = droppedTotalName) :
    definedFamily crate reg entry = none := if_pos h

/-! ## How vectors represent families -/

/-- The vectors of the registered families, and the registry that keeps their numbers. -/
structure Represents (crate : PrometheusCrate) (registered : Collector → Prop)
    (registry : SortedMap String Nat) (store : MetricStore) : Prop where
  families : ∀ name family, store.families name = some family ↔
    ∃ vec, registered vec ∧ vec.opts.name = name ∧ family = vec.family crate
  numbers : ∀ name id, registry.get? name = some id ↔
    name = droppedTotalName ∧ id = 0 ∨
      ∃ vec, registered vec ∧ vec.opts.name = name ∧ vec.id = id
  unique : ∀ vec vec', registered vec → registered vec' → vec.id = vec'.id → vec = vec'
  positive : ∀ vec, registered vec → 0 < vec.id

section

variable {crate : PrometheusCrate} {registered : Collector → Prop}
variable {registry : SortedMap String Nat} {store : MetricStore} {vec : Collector}
variable {entry : MetricEntry} {define : MetricEntry → Option Family}

/-- A number of the registry has one name. -/
theorem Represents.name_unique (h : Represents crate registered registry store)
    {name name' : String} {id : Nat} (hname : registry.get? name = some id)
    (hname' : registry.get? name' = some id) : name = name' := by
  rcases (h.numbers _ _).mp hname with ⟨rfl, rfl⟩ | ⟨vec, hvec, rfl, rfl⟩
  · rcases (h.numbers _ _).mp hname' with ⟨rfl, -⟩ | ⟨vec', hvec', -, hzero⟩
    · rfl
    · exact absurd hzero (h.positive vec' hvec').ne'
  · rcases (h.numbers _ _).mp hname' with ⟨-, hzero⟩ | ⟨vec', hvec', rfl, hid⟩
    · exact absurd hzero (h.positive vec hvec).ne'
    · rw [h.unique vec' vec hvec' hvec hid]

/-- A sample whose vector is registered goes to its series. -/
theorem Represents.update_of_registered (h : Represents crate registered registry store)
    (hvec : registered vec) (hname : vec.opts.name = entry.name)
    (hkind : vec.kind = entry.metricType) :
    store.update define entry = store.settle ((vec.family crate).fate entry) entry := by
  have hfamily := (h.families _ _).mpr ⟨vec, hvec, hname, rfl⟩
  rw [MetricStore.update, hfamily]
  exact if_pos hkind

/-- A sample is dropped if no vector of its kind has its name, and the name is taken or
the definition refused. -/
theorem Represents.update_of_dropped (h : Represents crate registered registry store)
    (hother : ∀ vec, registered vec → vec.opts.name = entry.name →
      vec.kind ≠ entry.metricType)
    (hrefused : registry.get? entry.name = none → define entry = none)
    (hreserved : entry.name = droppedTotalName → define entry = none) :
    store.update define entry = store.settle .dropped entry := by
  rw [MetricStore.update]
  cases hfamily : store.families entry.name with
  | some family =>
      obtain ⟨vec, hvec, hname, rfl⟩ := (h.families _ _).mp hfamily
      exact if_neg (hother vec hvec hname)
  | none =>
      have hrefuse : define entry = none := by
        cases hget : registry.get? entry.name with
        | none => exact hrefused hget
        | some id =>
            rcases (h.numbers _ _).mp hget with ⟨hname, -⟩ | ⟨vec, hvec, hname, -⟩
            · exact hreserved hname
            · have hsome := (h.families _ _).mpr ⟨vec, hvec, hname, rfl⟩
              rw [hfamily] at hsome
              contradiction
      simp [hrefuse]

/-- A sample under a free name makes its family. -/
theorem Represents.update_of_free (h : Represents crate registered registry store)
    (hget : registry.get? entry.name = none) {family : Family}
    (hdefine : define entry = some family) :
    store.update define entry =
      (store.addFamily entry.name family).settle (family.fate entry) entry := by
  have hfamily : store.families entry.name = none := by
    rw [Option.eq_none_iff_forall_ne_some]
    intro family hsome
    obtain ⟨vec, hvec, hname, -⟩ := (h.families _ _).mp hsome
    have hid := (h.numbers _ _).mpr (Or.inr ⟨vec, hvec, hname, rfl⟩)
    rw [hget] at hid
    contradiction
  rw [MetricStore.update, hfamily]
  simp [hdefine]

/-- A vector with a new number is registered under a free name. -/
theorem Represents.register (h : Represents crate registered registry store)
    (hget : registry.get? vec.opts.name = none)
    (hnew : ∀ vec', registered vec' → vec'.id ≠ vec.id) (hpositive : 0 < vec.id) :
    Represents crate (fun v => registered v ∨ v = vec) (registry.insert vec.opts.name vec.id)
      (store.addFamily vec.opts.name (vec.family crate)) := by
  have hfree : ∀ vec', registered vec' → vec'.opts.name ≠ vec.opts.name := by
    intro vec' hvec' hname
    have hid := (h.numbers _ _).mpr (Or.inr ⟨vec', hvec', hname, rfl⟩)
    rw [hget] at hid
    contradiction
  constructor
  · intro name family
    rw [MetricStore.families_addFamily]
    by_cases hname : name = vec.opts.name
    · rw [if_pos hname, Option.some.injEq]
      constructor
      · rintro rfl
        exact ⟨vec, Or.inr rfl, hname.symm, rfl⟩
      · rintro ⟨vec', hvec' | rfl, hname', rfl⟩
        · exact absurd (hname'.trans hname) (hfree vec' hvec')
        · rfl
    · rw [if_neg hname, h.families]
      constructor
      · rintro ⟨vec', hvec', hrest⟩
        exact ⟨vec', Or.inl hvec', hrest⟩
      · rintro ⟨vec', hvec' | rfl, hname', hfamily⟩
        · exact ⟨vec', hvec', hname', hfamily⟩
        · exact absurd hname'.symm hname
  · intro name id
    rw [SortedMap.get?_insert]
    by_cases hname : name = vec.opts.name
    · have hreserved : name ≠ droppedTotalName := by
        intro heq
        have hzero := (h.numbers name 0).mpr (Or.inl ⟨heq, rfl⟩)
        rw [hname, hget] at hzero
        contradiction
      rw [if_pos hname, Option.some.injEq]
      constructor
      · rintro rfl
        exact Or.inr ⟨vec, Or.inr rfl, hname.symm, rfl⟩
      · rintro (⟨heq, -⟩ | ⟨vec', hvec' | rfl, hname', rfl⟩)
        · exact absurd heq hreserved
        · exact absurd (hname'.trans hname) (hfree vec' hvec')
        · rfl
    · rw [if_neg hname, h.numbers]
      constructor
      · rintro (hzero | ⟨vec', hvec', hrest⟩)
        · exact Or.inl hzero
        · exact Or.inr ⟨vec', Or.inl hvec', hrest⟩
      · rintro (hzero | ⟨vec', hvec' | rfl, hname', hid⟩)
        · exact Or.inl hzero
        · exact Or.inr ⟨vec', hvec', hname', hid⟩
        · exact absurd hname'.symm hname
  · rintro v v' (hv | rfl) (hv' | rfl) hid
    · exact h.unique v v' hv hv' hid
    · exact absurd hid (hnew v hv)
    · exact absurd hid.symm (hnew v' hv')
    · rfl
  · rintro v (hv | rfl)
    · exact h.positive v hv
    · exact hpositive

/-- Only which vectors are registered matters. -/
theorem Represents.congr (h : Represents crate registered registry store)
    {registered' : Collector → Prop} (hsame : ∀ vec, registered' vec ↔ registered vec)
    {samples : List (SeriesKey × Sample)} :
    Represents crate registered' registry { store with samples } := by
  obtain rfl : registered' = registered := funext fun vec => propext (hsame vec)
  exact ⟨h.families, h.numbers, h.unique, h.positive⟩

end

/-- The logged observations, their vectors told by name. -/
def Shows (registry : SortedMap String Nat) (observations : List (Series × Sample))
    (samples : List (SeriesKey × Sample)) : Prop :=
  List.Forall₂ (fun observed shown => registry.get? shown.1.name = some observed.1.collector ∧
    observed.1.labels = shown.1.labels ∧ observed.2 = shown.2) observations samples

/-! ## One call -/

/-- Why `ensure_*` returns what it does. -/
theorem ensure_outcomes (crate : PrometheusCrate) (kind : MetricType) (opts : Opts)
    (reg : PromRegistry) (name : String) (labelNames : List String) :
    (∃ vec, (reg.vecs kind).get? name = some vec ∧
      ensure crate (fun _ _ => true) kind opts reg name labelNames = (some vec, reg)) ∨
    (reg.vecs kind).get? name = none ∧
      ((∃ e, crate.vecError kind opts labelNames = some e ∧
        ensure crate (fun _ _ => true) kind opts reg name labelNames = (none, reg)) ∨
      crate.vecError kind opts labelNames = none ∧
        ((∃ id, reg.registry.get? opts.name = some id ∧
          ensure crate (fun _ _ => true) kind opts reg name labelNames =
            (none, { reg with created := reg.created + 1 })) ∨
        reg.registry.get? opts.name = none ∧
          ensure crate (fun _ _ => true) kind opts reg name labelNames =
            (some ⟨reg.created, kind, opts, labelNames⟩,
              { reg with
                created := reg.created + 1
                registry := reg.registry.insert opts.name reg.created }.insertVec name
                  ⟨reg.created, kind, opts, labelNames⟩))) := by
  unfold ensure fastPath
  cases hvec : (reg.vecs kind).get? name with
  | some vec => exact Or.inl ⟨vec, rfl, rfl⟩
  | none =>
      refine Or.inr ⟨rfl, ?_⟩
      simp only [slowPath, hvec]
      cases crate.vecError kind opts labelNames with
      | some e => exact Or.inl ⟨e, rfl, rfl⟩
      | none =>
          simp only [PromRegistry.register]
          cases reg.registry.get? opts.name with
          | some id => exact Or.inr ⟨trivial, Or.inl ⟨id, rfl, rfl⟩⟩
          | none => exact Or.inr ⟨trivial, Or.inr ⟨rfl, rfl⟩⟩

theorem withLabelValues_eq (crate : PrometheusCrate) (vec : Collector) (values : List String) :
    withLabelValues crate vec values =
      if values.length = vec.labelNames.length ∧ (vec.family crate).observable = true then
        some ⟨vec.id, vec.labelNames.zip values⟩
      else none := by
  rw [withLabelValues, Collector.family]
  by_cases hlength : values.length = vec.labelNames.length
  · rw [if_pos hlength]
    cases crate.childError vec.kind vec.opts vec.labelNames with
    | none => exact (if_pos ⟨hlength, rfl⟩).symm
    | some e => simp
  · rw [if_neg hlength, if_neg (fun h => hlength h.1)]

/-- What is recorded into a registered vector is shown under the name of the sample. -/
theorem observe_settles (crate : PrometheusCrate) {reg : PromRegistry} {vec : Collector}
    {entry : MetricEntry} (hname : reg.registry.get? entry.name = some vec.id) :
    let fate := (vec.family crate).fate entry
    (observe crate (some vec, reg) (entry.labels.map Prod.snd) (sampleOf entry)).1 =
        fate.outcome ∧
      ∃ observed,
        (observe crate (some vec, reg) (entry.labels.map Prod.snd) (sampleOf entry)).2 =
          { reg with observations := reg.observations ++ observed } ∧
        Shows reg.registry observed (fate.sample entry) := by
  intro fate
  have hlabels : (vec.family crate).labelNames = vec.labelNames := rfl
  simp only [fate, observe, withLabelValues_eq, Family.fate, List.length_map, hlabels]
  by_cases hfits : entry.labels.length = vec.labelNames.length ∧
      (vec.family crate).observable = true
  · rw [if_pos hfits, if_pos hfits]
    exact ⟨rfl, _, rfl, .cons ⟨hname, rfl, rfl⟩ .nil⟩
  · rw [if_neg hfits, if_neg hfits]
    exact ⟨rfl, [], by simp, .nil⟩

theorem Shows.append {registry : SortedMap String Nat} {observed more : List (Series × Sample)}
    {samples samples' : List (SeriesKey × Sample)} (h : Shows registry observed samples)
    (h' : Shows registry more samples') :
    Shows registry (observed ++ more) (samples ++ samples') :=
  List.rel_append h h'

/-- What is shown stays shown when a free name is taken. -/
theorem Shows.insert {registry : SortedMap String Nat} {observed : List (Series × Sample)}
    {samples : List (SeriesKey × Sample)} {name : String} {id : Nat}
    (h : Shows registry observed samples) (hget : registry.get? name = none) :
    Shows (registry.insert name id) observed samples := by
  apply List.Forall₂.imp _ h
  rintro o shown ⟨hname, hrest⟩
  refine ⟨?_, hrest⟩
  rw [SortedMap.get?_insert, if_neg, hname]
  intro heq
  rw [heq, hget] at hname
  contradiction

/-- The vector is in a map. -/
def Kept (reg : PromRegistry) (vec : Collector) : Prop :=
  ∃ kind name, (name, vec) ∈ reg.vecs kind

/-- The registry represents the store. -/
structure Sound (crate : PrometheusCrate) (reg : PromRegistry) (store : MetricStore) :
    Prop where
  represents : Represents crate (Kept reg) reg.registry store
  shape : ∀ kind name vec, (name, vec) ∈ reg.vecs kind → vec.kind = kind ∧ vec.opts.name = name
  made : ∀ vec, Kept reg vec → vec.id < reg.created
  next : 0 < reg.created
  shows : Shows reg.registry reg.observations store.samples

theorem vecs_new (defaultBuckets : List F64) (kind : MetricType) :
    (PromRegistry.new defaultBuckets).vecs kind = SortedMap.empty := by
  cases kind <;> rfl

theorem not_kept_new (defaultBuckets : List F64) (vec : Collector) :
    ¬ Kept (PromRegistry.new defaultBuckets) vec := by
  rintro ⟨kind, name, hmem⟩
  rw [vecs_new] at hmem
  exact SortedMap.notMem_empty _ hmem

theorem get?_registry_new (defaultBuckets : List F64) (name : String) (id : Nat) :
    (PromRegistry.new defaultBuckets).registry.get? name = some id ↔
      name = droppedTotalName ∧ id = 0 := by
  rw [PromRegistry.new, SortedMap.get?_eq_some, SortedMap.mem_insert, Prod.mk.injEq]
  simp

/-- An empty store is represented by any registry without vectors. -/
theorem represents_empty (crate : PrometheusCrate) (defaultBuckets : List F64)
    {registered : Collector → Prop} (hnone : ∀ vec, ¬ registered vec) :
    Represents crate registered (PromRegistry.new defaultBuckets).registry .empty := by
  constructor
  · intro name family
    constructor
    · intro hsome
      contradiction
    · rintro ⟨vec, hvec, -⟩
      exact absurd hvec (hnone vec)
  · intro name id
    rw [get?_registry_new]
    constructor
    · exact Or.inl
    · rintro (hzero | ⟨vec, hvec, -⟩)
      · exact hzero
      · exact absurd hvec (hnone vec)
  · intro vec vec' hvec
    exact absurd hvec (hnone vec)
  · intro vec hvec
    exact absurd hvec (hnone vec)

theorem sound_new (crate : PrometheusCrate) (defaultBuckets : List F64) :
    Sound crate (PromRegistry.new defaultBuckets) .empty := by
  refine ⟨represents_empty crate defaultBuckets (not_kept_new defaultBuckets), ?_, ?_,
    Nat.one_pos, .nil⟩
  · intro kind name vec hmem
    exact absurd ⟨kind, name, hmem⟩ (not_kept_new defaultBuckets vec)
  · intro vec hvec
    exact absurd hvec (not_kept_new defaultBuckets vec)

section

variable {crate : PrometheusCrate} {reg : PromRegistry} {store : MetricStore}

/-- A step that touches neither the maps nor the registry. -/
theorem Sound.frame (h : Sound crate reg store) {reg' : PromRegistry}
    {samples : List (SeriesKey × Sample)} (hvecs : ∀ kind, reg'.vecs kind = reg.vecs kind)
    (hregistry : reg'.registry = reg.registry) (hcreated : reg.created ≤ reg'.created)
    (hshows : Shows reg.registry reg'.observations samples) :
    Sound crate reg' { store with samples } := by
  have hkept : ∀ vec, Kept reg' vec ↔ Kept reg vec := by
    intro vec
    simp only [Kept, hvecs]
  refine ⟨?_, ?_, ?_, h.next.trans_le hcreated, by rw [hregistry]; exact hshows⟩
  · rw [hregistry]
    exact h.represents.congr hkept
  · intro kind name vec hmem
    rw [hvecs] at hmem
    exact h.shape kind name vec hmem
  · intro vec hvec
    exact (h.made vec ((hkept vec).mp hvec)).trans_le hcreated

/-- A new vector is registered and kept. -/
theorem Sound.addVec (h : Sound crate reg store) {vec : Collector}
    (hid : vec.id = reg.created) (hget : reg.registry.get? vec.opts.name = none) :
    Sound crate ({ reg with
        created := reg.created + 1
        registry := reg.registry.insert vec.opts.name vec.id }.insertVec vec.opts.name vec)
      (store.addFamily vec.opts.name (vec.family crate)) := by
  have habsent : ∀ v kind, (vec.opts.name, v) ∉ reg.vecs kind := by
    intro v kind hmem
    have hname := (h.represents.numbers _ _).mpr
      (Or.inr ⟨v, ⟨kind, _, hmem⟩, (h.shape _ _ _ hmem).2, rfl⟩)
    rw [hget] at hname
    contradiction
  set reg' := { reg with
    created := reg.created + 1
    registry := reg.registry.insert vec.opts.name vec.id }.insertVec vec.opts.name vec with hreg'
  have hmem : ∀ kind name v, (name, v) ∈ reg'.vecs kind ↔
      (name, v) ∈ reg.vecs kind ∨ kind = vec.kind ∧ name = vec.opts.name ∧ v = vec := by
    intro kind name v
    rw [hreg', vecs_insertVec]
    by_cases hkind : kind = vec.kind
    · rw [if_pos hkind, SortedMap.mem_insert, Prod.mk.injEq]
      constructor
      · rintro (⟨rfl, rfl⟩ | ⟨hold, -⟩)
        · exact Or.inr ⟨hkind, rfl, rfl⟩
        · exact Or.inl (by cases kind <;> exact hold)
      · rintro (hold | ⟨-, rfl, rfl⟩)
        · refine Or.inr ⟨by cases kind <;> exact hold, ?_⟩
          rintro rfl
          exact habsent v kind hold
        · exact Or.inl ⟨rfl, rfl⟩
    · rw [if_neg hkind]
      constructor
      · exact fun hold => Or.inl (by cases kind <;> exact hold)
      · rintro (hold | ⟨heq, -⟩)
        · cases kind <;> exact hold
        · exact absurd heq hkind
  have hkept : ∀ v, Kept reg' v ↔ Kept reg v ∨ v = vec := by
    intro v
    simp only [Kept, hmem]
    constructor
    · rintro ⟨kind, name, hold | ⟨-, -, rfl⟩⟩
      · exact Or.inl ⟨kind, name, hold⟩
      · exact Or.inr rfl
    · rintro (⟨kind, name, hold⟩ | rfl)
      · exact ⟨kind, name, Or.inl hold⟩
      · exact ⟨_, _, Or.inr ⟨rfl, rfl, rfl⟩⟩
  have hregistry : reg'.registry = reg.registry.insert vec.opts.name vec.id := by
    rw [hreg', registry_insertVec]
  have hcreated : reg'.created = reg.created + 1 := by
    rw [hreg', created_insertVec]
  have hnew : ∀ v, Kept reg v → v.id ≠ vec.id := by
    intro v hv
    rw [hid]
    exact (h.made v hv).ne
  constructor
  · rw [hregistry]
    exact (h.represents.register hget hnew (by rw [hid]; exact h.next)).congr hkept
  · intro kind name v hv
    rcases (hmem kind name v).mp hv with hold | ⟨rfl, rfl, rfl⟩
    · exact h.shape kind name v hold
    · exact ⟨rfl, rfl⟩
  · intro v hv
    rw [hcreated]
    rcases (hkept v).mp hv with hold | rfl
    · exact (h.made v hold).trans (Nat.lt_succ_self _)
    · rw [hid]
      exact Nat.lt_succ_self _
  · rw [hcreated]
    exact Nat.succ_pos _
  · rw [hregistry, hreg', observations_insertVec]
    exact h.shows.insert hget

/-- The families are those of the kept vectors. -/
theorem Sound.families_iff (h : Sound crate reg store) {name : String} {family : Family} :
    store.families name = some family ↔
      ∃ vec, (name, vec) ∈ reg.vecs family.kind ∧ vec.family crate = family := by
  rw [h.represents.families]
  constructor
  · rintro ⟨vec, ⟨kind, name', hmem⟩, rfl, rfl⟩
    obtain ⟨hkind, hname⟩ := h.shape kind name' vec hmem
    refine ⟨vec, ?_, rfl⟩
    change (vec.opts.name, vec) ∈ reg.vecs vec.kind
    rw [hkind, hname]
    exact hmem
  · rintro ⟨vec, hmem, hfamily⟩
    obtain ⟨-, hname⟩ := h.shape _ _ vec hmem
    exact ⟨vec, ⟨_, _, hmem⟩, hname, hfamily.symm⟩

/-- Recording into a kept vector settles the sample. -/
theorem Sound.observe (h : Sound crate reg store) {vec : Collector} {entry : MetricEntry}
    (hname : reg.registry.get? entry.name = some vec.id) :
    let fate := (vec.family crate).fate entry
    (observe crate (some vec, reg) (entry.labels.map Prod.snd) (sampleOf entry)).1 =
        fate.outcome ∧
      Sound crate (Prometheus.observe crate (some vec, reg) (entry.labels.map Prod.snd)
        (sampleOf entry)).2 (store.settle fate entry).2 := by
  obtain ⟨houtcome, observed, hreg, hshows⟩ := observe_settles crate hname
  refine ⟨houtcome, ?_⟩
  rw [hreg]
  exact h.frame (fun kind => by cases kind <;> rfl) rfl (le_refl _) (h.shows.append hshows)

/-- One call of `update` is one sample of the store. -/
theorem update_refines (h : Sound crate reg store) (entry : MetricEntry) :
    let settled := store.update (definedFamily crate reg) entry
    (update crate reg entry).1 = settled.1.outcome ∧
      Sound crate (update crate reg entry).2 settled.2 := by
  intro settled
  have hnone : (reg.vecs entry.metricType).get? entry.name = none →
      ∀ vec, Kept reg vec → vec.opts.name = entry.name → vec.kind ≠ entry.metricType := by
    rintro hget vec ⟨kind, name, hmem⟩ hname hkind
    obtain ⟨hk, hn⟩ := h.shape kind name vec hmem
    rw [SortedMap.get?_eq_none] at hget
    apply hget
    rw [← hkind, ← hname, hk, hn]
    exact SortedMap.mem_keys.mpr ⟨vec, hmem⟩
  have hreserved : entry.name = droppedTotalName → definedFamily crate reg entry = none :=
    definedFamily_reserved
  have hopts : (vecOpts reg entry.metricType entry.name).name = entry.name := by
    cases entry.metricType <;> rfl
  have hdropped : ∀ created, reg.created ≤ created →
      store.update (definedFamily crate reg) entry = store.settle .dropped entry →
      Outcome.dropped = settled.1.outcome ∧ Sound crate { reg with created } settled.2 := by
    intro created hcreated hsettled
    rw [show settled = store.settle .dropped entry from hsettled]
    refine ⟨rfl, h.frame (fun kind => by cases kind <;> rfl) rfl hcreated ?_⟩
    have hnothing : store.samples ++ Fate.dropped.sample entry = store.samples :=
      List.append_nil _
    rw [hnothing]
    exact h.shows
  rw [update_eq]
  rcases ensure_outcomes crate entry.metricType (vecOpts reg entry.metricType entry.name) reg
    entry.name (entry.labels.map Prod.fst) with
      ⟨vec, hget, hensure⟩ | ⟨hget, ⟨e, herror, hensure⟩ | ⟨herror, ⟨id, hid, hensure⟩ | ⟨hfree, hensure⟩⟩⟩
  · have hmem := SortedMap.get?_eq_some.mp hget
    obtain ⟨hkind, hname⟩ := h.shape _ _ _ hmem
    have hsettled : settled = _ :=
      h.represents.update_of_registered ⟨_, _, hmem⟩ hname hkind
    have hregistered := (h.represents.numbers _ _).mpr (Or.inr ⟨vec, ⟨_, _, hmem⟩, hname, rfl⟩)
    rw [hensure, hsettled]
    exact h.observe hregistered
  · rw [hensure]
    refine hdropped reg.created (le_refl _) ?_
    refine h.represents.update_of_dropped (hnone hget) (fun _ => ?_) hreserved
    simp [definedFamily, labelNames, herror]
  · rw [hensure]
    refine hdropped (reg.created + 1) (Nat.le_succ _) ?_
    refine h.represents.update_of_dropped (hnone hget) (fun hfree => ?_) hreserved
    rw [hopts, hfree] at hid
    contradiction
  · rw [hopts] at hfree hensure
    have hdefine : definedFamily crate reg entry =
        some ((vecOf reg reg.created entry).family crate) := by
      have hne : entry.name ≠ droppedTotalName := by
        intro heq
        have hzero := (h.represents.numbers entry.name 0).mpr (Or.inl ⟨heq, rfl⟩)
        rw [hfree] at hzero
        contradiction
      exact definedFamily_of_accepted hne herror reg.created
    have hsettled : settled = _ := h.represents.update_of_free hfree hdefine
    have hadded := @Sound.addVec _ _ _ h (vecOf reg reg.created entry) rfl
      (by rw [vecOf, hopts]; exact hfree)
    simp only [vecOf, hopts] at hadded
    rw [hensure, hsettled]
    apply hadded.observe
    rw [registry_insertVec, SortedMap.get?_insert, if_pos rfl]

end

/-! ## Runs -/

theorem defaultBuckets_update (crate : PrometheusCrate) (reg : PromRegistry)
    (entry : MetricEntry) :
    (update crate reg entry).2.defaultBuckets = reg.defaultBuckets := by
  have hobserve : ∀ ensured values sample,
      (observe crate ensured values sample).2.defaultBuckets = ensured.2.defaultBuckets := by
    rintro ⟨_ | v, reg⟩ values sample
    · rfl
    · simp only [observe]
      cases withLabelValues crate v values <;> rfl
  rw [update_eq, hobserve]
  rcases ensure_cases crate entry.metricType (vecOpts reg entry.metricType entry.name) reg
    entry.name (entry.labels.map Prod.fst) with ⟨v, -, hensure⟩ | ⟨-, ⟨n, hensure⟩ | hensure⟩
  · rw [hensure]
  · rw [hensure]
  · rw [hensure]
    cases entry.metricType <;> rfl

section

variable (crate : PrometheusCrate) (defaultBuckets : List F64)

/-- The store that a registry with these buckets stands for, after the samples. -/
def storeAfter (entries : List MetricEntry) : MetricStore :=
  MetricStore.empty.updates (definedFamily crate (PromRegistry.new defaultBuckets)) entries

theorem updates_append (reg : PromRegistry) (before after : List MetricEntry) :
    updates crate reg (before ++ after) = updates crate (updates crate reg before) after :=
  List.foldl_append

theorem defaultBuckets_updates (reg : PromRegistry) (entries : List MetricEntry) :
    (updates crate reg entries).defaultBuckets = reg.defaultBuckets := by
  induction entries generalizing reg with
  | nil => rfl
  | cons entry entries ih =>
      rw [updates, List.foldl_cons, ← updates, ih, defaultBuckets_update]

theorem sound_updates (entries : List MetricEntry) :
    Sound crate (updates crate (PromRegistry.new defaultBuckets) entries)
      (storeAfter crate defaultBuckets entries) := by
  induction entries using List.reverseRecOn with
  | nil => exact sound_new crate defaultBuckets
  | append_singleton entries entry ih =>
      have hstep := (@update_refines crate _ _ ih entry).2
      rw [definedFamily_congr crate (defaultBuckets_updates crate _ entries)] at hstep
      rw [updates_append, storeAfter, MetricStore.updates_append]
      exact hstep

/-- A call ends as the store's does. -/
theorem update_outcome (before : List MetricEntry) (entry : MetricEntry) :
    (update crate (updates crate (PromRegistry.new defaultBuckets) before) entry).1 =
      ((storeAfter crate defaultBuckets before).update
        (definedFamily crate (PromRegistry.new defaultBuckets)) entry).1.outcome := by
  have hstep := (@update_refines crate _ _ (sound_updates crate defaultBuckets before) entry).1
  rwa [definedFamily_congr crate (defaultBuckets_updates crate _ before)] at hstep

/-- The registry refines the store: over every sequence of calls it keeps the families of
the store, shows its samples in order, and each call ends as the store's does. -/
theorem registry_refines_store (entries : List MetricEntry) :
    (∀ name family, (storeAfter crate defaultBuckets entries).families name = some family ↔
      ∃ vec, (name, vec) ∈ (updates crate (PromRegistry.new defaultBuckets) entries).vecs
        family.kind ∧ vec.family crate = family) ∧
    Shows (updates crate (PromRegistry.new defaultBuckets) entries).registry
      (updates crate (PromRegistry.new defaultBuckets) entries).observations
      (storeAfter crate defaultBuckets entries).samples ∧
    (∀ name name' id,
      (updates crate (PromRegistry.new defaultBuckets) entries).registry.get? name = some id →
      (updates crate (PromRegistry.new defaultBuckets) entries).registry.get? name' = some id →
        name = name') ∧
    ∀ before entry after, entries = before ++ entry :: after →
      (update crate (updates crate (PromRegistry.new defaultBuckets) before) entry).1 =
        ((storeAfter crate defaultBuckets before).update
          (definedFamily crate (PromRegistry.new defaultBuckets)) entry).1.outcome := by
  have hsound := sound_updates crate defaultBuckets entries
  exact ⟨fun _ _ => hsound.families_iff, hsound.shows,
    fun _ _ _ => hsound.represents.name_unique,
    fun before entry _ _ => update_outcome crate defaultBuckets before entry⟩

end

end Tonggeret.Prometheus
