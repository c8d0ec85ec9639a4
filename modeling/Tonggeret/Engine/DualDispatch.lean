import Tonggeret.Engine.Fifo
import Tonggeret.Prometheus.Progress

/-!
# Both backends

A record call gives its sample to the Prometheus registry first and to the channel after
it, and a refused sample is counted in the handle and then mirrored in the registry.  The
machine is the pipeline with the calls of `update` beside it: a record call that has passed
the flag takes the steps of its `update` one at a time, with steps of any other party
between them, and the last of them is the pipeline's `updatePrometheus`.  The samples are
taken in the order of the calls of `update`, which settles each series up to the order of
its samples; which of two overlapping calls sets a gauge last is left open.
-/

namespace Tonggeret.Engine

open Tonggeret.Lib Tonggeret.Prometheus

/-- `mirroring` are the calls between `fetch_add` and `inc_dropped`. -/
structure Dispatch where
  pipeline : Pipeline
  updating : Updating
  mirroring : List Nat

inductive DispatchAction
  | pipeline (action : Action)
  | update (action : UpdateAction)
  | incDropped (r : Nat)

def Dispatch.init (defaultBuckets : List F64) : Dispatch :=
  ⟨Pipeline.init, Updating.init defaultBuckets, []⟩

namespace Dispatch

def registry (s : Dispatch) : PromRegistry := s.updating.ensuring.reg

/-- What `update` did with the sample of a call. -/
def outcome (s : Dispatch) (r : Nat) : Option Outcome := s.updating.outcome r

end Dispatch

section

variable (crate : PrometheusCrate) (cfg : PipelineConfig) (entryOf : Nat → MetricEntry)

/-- A step of `reg.update(&entry)`.  A panic unwinds the call, which takes no further
step. -/
def Dispatch.update (s : Dispatch) (action : UpdateAction) : Option Dispatch :=
  if s.pipeline.records action.caller = .passed ∧ s.outcome action.caller = none then
    (updateStep crate entryOf s.updating action).bind fun updating =>
      match updating.outcome action.caller with
      | none | some .panicked => some { s with updating }
      | some _ =>
          (step cfg s.pipeline (.updatePrometheus action.caller)).map fun pipeline =>
            { s with pipeline, updating }
  else none

def dispatchStep (s : Dispatch) : DispatchAction → Option Dispatch
  | .pipeline (.updatePrometheus _) => none
  | .pipeline (.countDropped r) =>
      (step cfg s.pipeline (.countDropped r)).map fun pipeline =>
        { s with pipeline, mirroring := s.mirroring ++ [r] }
  | .pipeline action =>
      (step cfg s.pipeline action).map fun pipeline => { s with pipeline }
  | .update action => s.update crate cfg entryOf action
  | .incDropped r =>
      if r ∈ s.mirroring then
        some { s with
          updating.ensuring.reg := s.registry.incDropped
          mirroring := s.mirroring.erase r }
      else none

/-- The call whose sample finds its place in the registry by the step. -/
def takes (s : Dispatch) : DispatchAction → List Nat
  | .update action => decides crate entryOf s.updating action
  | _ => []

/-- Every branch of a step with its guard and its effect. -/
inductive DispatchEffect (s : Dispatch) : DispatchAction → Dispatch → Prop
  | underway {action : UpdateAction} {updating : Updating}
      (hpc : s.pipeline.records action.caller = .passed)
      (hnone : s.outcome action.caller = none)
      (hstep : updateStep crate entryOf s.updating action = some updating)
      (houtcome : updating.outcome action.caller = none ∨
        updating.outcome action.caller = some .panicked) :
      DispatchEffect s (.update action) { s with updating }
  | returned {action : UpdateAction} {updating : Updating} {outcome : Outcome}
      (hpc : s.pipeline.records action.caller = .passed)
      (hnone : s.outcome action.caller = none)
      (hstep : updateStep crate entryOf s.updating action = some updating)
      (houtcome : updating.outcome action.caller = some outcome)
      (hreturned : outcome ≠ .panicked) :
      DispatchEffect s (.update action)
        { s with pipeline := s.pipeline.setRecord action.caller .updated, updating }
  | countDrop {r : Nat} (hpc : s.pipeline.records r = .refused) :
      DispatchEffect s (.pipeline (.countDropped r)) { s with
        pipeline := { s.pipeline with dropped := s.pipeline.dropped ++ [r] }.setRecord r .dropped
        mirroring := s.mirroring ++ [r] }
  | other {action : Action} {pipeline : Pipeline}
      (hupdate : ∀ r, action ≠ .updatePrometheus r) (hcount : ∀ r, action ≠ .countDropped r)
      (hstep : step cfg s.pipeline action = some pipeline) :
      DispatchEffect s (.pipeline action) { s with pipeline }
  | mirror {r : Nat} (hmem : r ∈ s.mirroring) :
      DispatchEffect s (.incDropped r) { s with
        updating.ensuring.reg := s.registry.incDropped
        mirroring := s.mirroring.erase r }

variable {crate cfg entryOf} {s t : Dispatch}

/-- Inversion: an enabled action is one of the branches. -/
theorem dispatchStep_cases {action : DispatchAction}
    (h : dispatchStep crate cfg entryOf s action = some t) :
    DispatchEffect crate cfg entryOf s action t := by
  cases action with
  | incDropped r =>
      rw [dispatchStep] at h
      split at h
      · rename_i hmem
        obtain rfl := Option.some.inj h
        exact .mirror hmem
      · contradiction
  | update action =>
      rw [dispatchStep, Dispatch.update] at h
      split at h
      · rename_i hready
        obtain ⟨updating, hupdate, hrest⟩ := Option.bind_eq_some_iff.mp h
        cases houtcome : updating.outcome action.caller with
        | none =>
            rw [houtcome] at hrest
            obtain rfl := Option.some.inj hrest
            exact .underway hready.1 hready.2 hupdate (Or.inl houtcome)
        | some outcome =>
            by_cases hpanic : outcome = .panicked
            · rw [houtcome, hpanic] at hrest
              obtain rfl := Option.some.inj hrest
              exact .underway hready.1 hready.2 hupdate (Or.inr (by rw [houtcome, hpanic]))
            · have hmapped : (step cfg s.pipeline (.updatePrometheus action.caller)).map
                  (fun pipeline => { s with pipeline, updating }) = some t := by
                rw [houtcome] at hrest
                cases outcome with
                | panicked => exact absurd rfl hpanic
                | dropped => exact hrest
                | recorded => exact hrest
              obtain ⟨pipeline, hstep, rfl⟩ := Option.map_eq_some_iff.mp hmapped
              cases step_cases hstep
              exact .returned hready.1 hready.2 hupdate houtcome hpanic
      · contradiction
  | pipeline action =>
      cases action with
      | updatePrometheus r => contradiction
      | countDropped r =>
          obtain ⟨pipeline, hstep, rfl⟩ := Option.map_eq_some_iff.mp h
          cases step_cases hstep with
          | countDrop hpc => exact .countDrop hpc
      | _ =>
          obtain ⟨pipeline, hstep, rfl⟩ := Option.map_eq_some_iff.mp h
          exact .other (fun _ => Action.noConfusion) (fun _ => Action.noConfusion) hstep

end

/-! ## A step of `update` -/

section

variable {crate : PrometheusCrate} {entries : Nat → MetricEntry} {u v : Updating}

/-- A step of one call leaves the others where they are. -/
theorem updateStep_others {action : UpdateAction}
    (h : updateStep crate entries u action = some v) {r : Nat} (hr : r ≠ action.caller) :
    v.ensuring.pc r = u.ensuring.pc r ∧ v.outcome r = u.outcome r := by
  cases action with
  | ensure action =>
      obtain ⟨e, he, rfl⟩ := Option.map_eq_some_iff.mp h
      exact ⟨(ensureStep_cases he).moves.2 r hr, rfl⟩
  | observe i =>
      obtain ⟨-, hpc, -, outcome, houtcome⟩ := observe_cases h
      rw [hpc, houtcome]
      exact ⟨rfl, Function.update_of_ne hr _ _⟩

theorem droppedTotal_insertVec (reg : PromRegistry) (name : String) (vec : Collector) :
    (reg.insertVec name vec).droppedTotal = reg.droppedTotal := by
  unfold PromRegistry.insertVec
  cases vec.kind <;> rfl

theorem droppedTotal_observe (ensured : Option Collector × PromRegistry)
    (values : List String) (sample : Sample) :
    (observe crate ensured values sample).2.droppedTotal = ensured.2.droppedTotal := by
  obtain ⟨_ | vec, reg⟩ := ensured
  · rfl
  · rw [observe]
    cases withLabelValues crate vec values <;> rfl

/-- Taking a sample does not change the drop counter. -/
theorem updateStep_droppedTotal {action : UpdateAction}
    (h : updateStep crate entries u action = some v) :
    v.ensuring.reg.droppedTotal = u.ensuring.reg.droppedTotal := by
  cases action with
  | ensure action =>
      obtain ⟨e, he, rfl⟩ := Option.map_eq_some_iff.mp h
      cases ensureStep_cases he with
      | insert hpc => exact droppedTotal_insertVec _ _ _
      | _ => rfl
  | observe i =>
      rw [updateStep] at h
      split at h
      · obtain rfl := Option.some.inj h
        exact droppedTotal_observe _ _ _
      · contradiction

end

/-! ## The invariant -/

/-- What the registry has done with the sample of a call, by the place of the call. -/
def OutcomeFits (outcome : Option Outcome) : RecordPc → Prop
  | .idle | .skipped => outcome = none
  | .passed => outcome = none ∨ outcome = some .panicked
  | _ => ∃ o, outcome = some o ∧ o ≠ .panicked

section

variable (crate : PrometheusCrate) (cfg : PipelineConfig) (entryOf : Nat → MetricEntry)
variable (defaultBuckets : List F64)

/-- The registry after the samples of these calls. -/
def registryAfter (order : List Nat) : PromRegistry :=
  updates crate (PromRegistry.new defaultBuckets) (order.map entryOf)

/-- The samples of these calls have found their places in the registry, in this order. -/
structure Dispatched (order : List Nat) (s : Dispatch) : Prop where
  run : Reaches (step cfg) (fun _ _ => True) Pipeline.init s.pipeline
  linearized : Linearized crate defaultBuckets entryOf order s.updating
  /-- A record call that has not passed the flag has not begun its `update`. -/
  waiting : ∀ r, s.pipeline.records r = .idle ∨ s.pipeline.records r = .skipped →
    s.updating.ensuring.pc r = .start
  places : ∀ r, OutcomeFits (s.outcome r) (s.pipeline.records r)
  counted : s.registry.droppedTotal + s.mirroring.length = s.pipeline.dropped.length

variable {crate cfg entryOf defaultBuckets} {order : List Nat} {s t : Dispatch}

theorem dispatched_init :
    Dispatched crate cfg entryOf defaultBuckets [] (Dispatch.init defaultBuckets) :=
  ⟨.refl _, linearized_init, fun _ _ => rfl, fun _ => rfl, rfl⟩

/-- The steps of the pipeline but `updatePrometheus` leave the outcomes fitting. -/
theorem Step.outcomeFits {p q : Pipeline} {a : Action} (h : Step cfg p a q)
    (hupdate : ∀ r, a ≠ .updatePrometheus r) (r : Nat) {outcome : Option Outcome}
    (hfits : OutcomeFits outcome (p.records r)) : OutcomeFits outcome (q.records r) := by
  have hmove : ∀ {u : Pipeline} {x : Nat} {pc : RecordPc}, u.records = p.records →
      (OutcomeFits outcome (p.records x) → OutcomeFits outcome pc) →
      OutcomeFits outcome ((u.setRecord x pc).records r) := by
    intro u x pc hu himp
    rw [Pipeline.records_setRecord, hu]
    by_cases hx : r = x
    · rw [if_pos hx]
      exact himp (hx ▸ hfits)
    · rw [if_neg hx]
      exact hfits
  cases h with
  | skip hpc _ => exact hmove rfl fun hold => by rwa [hpc] at hold
  | pass hpc _ => exact hmove rfl fun hold => Or.inl (by rwa [hpc] at hold)
  | update hpc => exact absurd rfl (hupdate _)
  | send hpc _ => exact hmove rfl fun hold => by rwa [hpc] at hold
  | refuse hpc _ => exact hmove rfl fun hold => by rwa [hpc] at hold
  | countDrop hpc => exact hmove rfl fun hold => by rwa [hpc] at hold
  | _ => exact hfits

/-- A call that has not passed the flag after a step had not before. -/
theorem Step.waiting {p q : Pipeline} {a : Action} (h : Step cfg p a q) (r : Nat)
    (hwaits : q.records r = .idle ∨ q.records r = .skipped) :
    p.records r = .idle ∨ p.records r = .skipped := by
  have hmove : ∀ {u : Pipeline} {x : Nat} {pc : RecordPc}, u.records = p.records →
      (pc = .idle ∨ pc = .skipped → p.records x = .idle ∨ p.records x = .skipped) →
      (u.setRecord x pc).records r = .idle ∨ (u.setRecord x pc).records r = .skipped →
      p.records r = .idle ∨ p.records r = .skipped := by
    intro u x pc hu himp hafter
    rw [Pipeline.records_setRecord, hu] at hafter
    by_cases hx : r = x
    · rw [if_pos hx] at hafter
      rw [hx]
      exact himp hafter
    · rwa [if_neg hx] at hafter
  cases h with
  | skip hpc _ => exact hmove rfl (fun _ => Or.inl hpc) hwaits
  | pass hpc _ => exact hmove rfl (fun _ => Or.inl hpc) hwaits
  | update hpc => exact hmove rfl (fun h => by simp at h) hwaits
  | send hpc _ => exact hmove rfl (fun h => by simp at h) hwaits
  | refuse hpc _ => exact hmove rfl (fun h => by simp at h) hwaits
  | countDrop hpc => exact hmove rfl (fun h => by simp at h) hwaits
  | _ => exact hwaits

theorem Step.dropped_eq {p q : Pipeline} {a : Action} (h : Step cfg p a q)
    (hcount : ∀ r, a ≠ .countDropped r) : q.dropped = p.dropped := by
  cases h with
  | countDrop hpc => exact absurd rfl (hcount _)
  | _ => rfl

theorem dispatched_step {action : DispatchAction}
    (h : Dispatched crate cfg entryOf defaultBuckets order s)
    (hstep : dispatchStep crate cfg entryOf s action = some t) :
    Dispatched crate cfg entryOf defaultBuckets (order ++ takes crate entryOf s action) t := by
  cases dispatchStep_cases hstep with
  | @underway action updating hpc hnone hupdate houtcome =>
      refine ⟨h.run, linearized_step h.linearized hupdate, fun r hr => ?_, fun r => ?_, ?_⟩
      · have hother : r ≠ action.caller := by
          rintro rfl
          rw [hpc] at hr
          simp at hr
        exact ((updateStep_others hupdate hother).1).trans (h.waiting r hr)
      · by_cases hr : r = action.caller
        · rw [hr]
          change OutcomeFits _ (s.pipeline.records action.caller)
          rw [hpc]
          exact houtcome
        · change OutcomeFits (updating.outcome r) _
          rw [(updateStep_others hupdate hr).2]
          exact h.places r
      · change updating.ensuring.reg.droppedTotal + _ = _
        rw [updateStep_droppedTotal hupdate]
        exact h.counted
  | @returned action updating outcome hpc hnone hupdate houtcome hreturned =>
      have hpipeline : step cfg s.pipeline (.updatePrometheus action.caller) =
          some (s.pipeline.setRecord action.caller .updated) := by
        simp [step, recordStep, hpc]
      refine ⟨h.run.next trivial hpipeline, linearized_step h.linearized hupdate, fun r hr => ?_,
        fun r => ?_, ?_⟩
      · have hbefore := (step_cases hpipeline).waiting r hr
        have hother : r ≠ action.caller := by
          rintro rfl
          rw [hpc] at hbefore
          simp at hbefore
        exact ((updateStep_others hupdate hother).1).trans (h.waiting r hbefore)
      · change OutcomeFits (updating.outcome r)
          ((s.pipeline.setRecord action.caller .updated).records r)
        rw [Pipeline.records_setRecord]
        by_cases hr : r = action.caller
        · rw [if_pos hr, hr]
          exact ⟨outcome, houtcome, hreturned⟩
        · rw [if_neg hr, (updateStep_others hupdate hr).2]
          exact h.places r
      · change updating.ensuring.reg.droppedTotal + _ = _
        rw [updateStep_droppedTotal hupdate]
        exact h.counted
  | @countDrop r hpc =>
      have hpipeline : step cfg s.pipeline (.countDropped r) = some
          ({ s.pipeline with dropped := s.pipeline.dropped ++ [r] }.setRecord r .dropped) := by
        simp [step, recordStep, hpc]
      have htakes : takes crate entryOf s (.pipeline (.countDropped r)) = [] := rfl
      rw [htakes, List.append_nil]
      refine ⟨h.run.next trivial hpipeline, h.linearized,
        fun x hx => h.waiting x ((step_cases hpipeline).waiting x hx), fun x => ?_, ?_⟩
      · exact (step_cases hpipeline).outcomeFits (fun _ => Action.noConfusion) x (h.places x)
      · have hcounted := h.counted
        change s.registry.droppedTotal + (s.mirroring ++ [r]).length =
          (s.pipeline.dropped ++ [r]).length
        rw [List.length_append, List.length_append, ← hcounted]
        rfl
  | @other action pipeline hupdate hcount hpipeline =>
      have htakes : takes crate entryOf s (.pipeline action) = [] := rfl
      rw [htakes, List.append_nil]
      have hmoved := step_cases hpipeline
      refine ⟨h.run.next trivial hpipeline, h.linearized,
        fun x hx => h.waiting x (hmoved.waiting x hx),
        fun x => hmoved.outcomeFits hupdate x (h.places x), ?_⟩
      rw [hmoved.dropped_eq hcount]
      exact h.counted
  | @mirror r hmem =>
      have htakes : takes crate entryOf s (.incDropped r) = [] := rfl
      rw [htakes, List.append_nil]
      refine ⟨h.run, h.linearized.incDropped, h.waiting, h.places, ?_⟩
      change s.registry.droppedTotal + 1 + (s.mirroring.erase r).length = _
      rw [List.length_erase_of_mem hmem, ← h.counted]
      have hpos := List.length_pos_of_mem hmem
      omega

/-- The samples that were sent, wherever they are. -/
def Pipeline.sent (p : Pipeline) : List Nat :=
  p.inserted.map Prod.snd ++ held p.writer ++ metricsOf p.chan ++ metricsOf p.discarded

theorem Dispatched.inOrder (h : Dispatched crate cfg entryOf defaultBuckets order s) :
    InOrder cfg s.pipeline.sent s.pipeline := by
  have hrun : ∃ sent, InOrder cfg sent s.pipeline := by
    apply h.run.invariant (I := fun p => ∃ sent, InOrder cfg sent p) ?_ ⟨[], inOrder_init cfg⟩
    rintro p a q ⟨sent, hp⟩ - hstep
    exact ⟨_, inOrder_step hp hstep⟩
  obtain ⟨sent, hsent⟩ := hrun
  have horder : sent = s.pipeline.sent := hsent.order
  rw [← horder]
  exact hsent

/-- A call whose `update` has ended has its place in the registry. -/
theorem Dispatched.mem_of_outcome (h : Dispatched crate cfg entryOf defaultBuckets order s)
    {r : Nat} {o : Outcome} (ho : s.outcome r = some o) : r ∈ order := by
  obtain ⟨⟨result, hpc⟩, -⟩ := h.linearized.returned r o ho
  rw [h.linearized.decided, hpc]
  rfl

/-- The registry has taken the sample of a call that was sent or refused. -/
theorem Dispatched.taken_of_refused_or_sent
    (h : Dispatched crate cfg entryOf defaultBuckets order s) {r : Nat}
    (hr : r ∈ s.pipeline.sent ∨ r ∈ s.pipeline.dropped) :
    r ∈ order ∧ ∃ o, s.outcome r = some o ∧ o ≠ .panicked := by
  have hplace := h.places r
  have hmoved : ∃ o, s.outcome r = some o ∧ o ≠ .panicked := by
    rcases hr with hr | hr
    · rw [h.inOrder.calls] at hr
      rwa [hr] at hplace
    · rw [h.inOrder.drops] at hr
      rwa [hr] at hplace
  obtain ⟨o, ho, hreturned⟩ := hmoved
  exact ⟨h.mem_of_outcome ho, o, ho, hreturned⟩

/-- When no call is underway, what the registry has taken is what was sent, what was
dropped and what panicked. -/
theorem Dispatched.partition (h : Dispatched crate cfg entryOf defaultBuckets order s)
    (hidle : ∀ r, s.pipeline.InProgress r → s.outcome r = some .panicked) :
    order.Perm (s.pipeline.sent ++ s.pipeline.dropped ++
      order.filter fun r => s.outcome r = some .panicked) := by
  have horder := h.inOrder
  have hdisjoint : ∀ r, r ∈ s.pipeline.sent → r ∉ s.pipeline.dropped := by
    intro r hsent hdropped
    rw [horder.calls] at hsent
    rw [horder.drops, hsent] at hdropped
    contradiction
  have hnodup : (s.pipeline.sent ++ s.pipeline.dropped ++
      order.filter fun r => s.outcome r = some .panicked).Nodup := by
    rw [List.nodup_append', List.nodup_append']
    refine ⟨⟨horder.once, horder.droppedOnce, fun r => hdisjoint r⟩,
      h.linearized.nodup.filter _, ?_⟩
    intro r hr hpanic
    obtain ⟨-, o, ho, hreturned⟩ := h.taken_of_refused_or_sent (List.mem_append.mp hr)
    have hpanicked : s.outcome r = some .panicked := by simpa using (List.mem_filter.mp hpanic).2
    exact hreturned (Option.some.inj (ho.symm.trans hpanicked))
  rw [List.perm_ext_iff_of_nodup h.linearized.nodup hnodup]
  intro r
  rw [List.mem_append, List.mem_append, List.mem_filter]
  constructor
  · intro hr
    by_cases hpanic : s.outcome r = some .panicked
    · exact Or.inr ⟨hr, by simpa using hpanic⟩
    · refine Or.inl ?_
      have hbegun : s.updating.ensuring.pc r ≠ .start := by
        intro hstart
        rw [h.linearized.decided, hstart] at hr
        contradiction
      cases hpc : s.pipeline.records r with
      | idle => exact absurd (h.waiting r (Or.inl hpc)) hbegun
      | skipped => exact absurd (h.waiting r (Or.inr hpc)) hbegun
      | passed => exact absurd (hidle r (Or.inl hpc)) hpanic
      | updated => exact absurd (hidle r (Or.inr (Or.inl hpc))) hpanic
      | refused => exact absurd (hidle r (Or.inr (Or.inr hpc))) hpanic
      | sent => exact Or.inl ((horder.calls r).mpr hpc)
      | dropped => exact Or.inr ((horder.drops r).mpr hpc)
  · rintro (hr | ⟨hr, -⟩)
    · exact (h.taken_of_refused_or_sent hr).1
    · exact hr

end

section

variable (crate : PrometheusCrate) (cfg : PipelineConfig) (entryOf : Nat → MetricEntry)
variable (defaultBuckets : List F64)

/-- The record calls in the order in which the registry takes their samples. -/
def takenOrder (actions : List DispatchAction) : List Nat :=
  transcript (dispatchStep crate cfg entryOf) (takes crate entryOf)
    (Dispatch.init defaultBuckets) actions

theorem dispatched_run {actions : List DispatchAction} {s : Dispatch}
    (h : exec (dispatchStep crate cfg entryOf) (Dispatch.init defaultBuckets) actions = some s) :
    Dispatched crate cfg entryOf defaultBuckets
      (takenOrder crate cfg entryOf defaultBuckets actions) s :=
  exec_history (I := Dispatched crate cfg entryOf defaultBuckets)
    (fun _ _ _ _ hs hstep => dispatched_step hs hstep) h dispatched_init

/-- In every run the registry takes the samples one after another, as far as can be told
from it: in an order of the calls, each once, which has a call whose `update` has ended before
one that has not begun, each ends as it does alone after those before it, the same vectors
are registered, and when each of them has ended each series holds the same samples up to
their order.  A sample is taken before it is sent or dropped; the drop counter lags the
handle's by the calls between the two increments; and when no call is underway each sample
taken is either sent, or dropped, or panicked. -/
theorem dual_dispatch {actions : List DispatchAction} {s : Dispatch}
    (h : exec (dispatchStep crate cfg entryOf) (Dispatch.init defaultBuckets) actions = some s) :
    let order := takenOrder crate cfg entryOf defaultBuckets actions
    let alone := registryAfter crate entryOf defaultBuckets
    order.Nodup ∧
    (∀ r o, s.outcome r = some o → ∃ before after, order = before ++ r :: after ∧
      o = (Prometheus.update crate (alone before) (entryOf r)).1) ∧
    (∀ kind name labelNames,
      (∃ vec, Registered s.updating.ensuring vec ∧ vec.opts.name = name ∧ vec.kind = kind ∧
        vec.labelNames = labelNames) ↔
      ∃ vec, (name, vec) ∈ (alone order).vecs kind ∧ vec.labelNames = labelNames) ∧
    ((∀ r ∈ order, (s.outcome r).isSome = true) → ∀ name labels,
      (seriesLog s.registry name labels).Perm (seriesLog (alone order) name labels)) ∧
    (∀ first second mid, actions = first ++ second →
      exec (dispatchStep crate cfg entryOf) (Dispatch.init defaultBuckets) first = some mid →
      ∃ before after, order = before ++ after ∧
        (∀ r, (mid.outcome r).isSome = true → r ∈ before) ∧
        ∀ r, mid.pipeline.records r = .idle → r ∉ before) ∧
    (∀ r, r ∈ s.pipeline.sent ∨ r ∈ s.pipeline.dropped →
      r ∈ order ∧ ∃ o, s.outcome r = some o ∧ o ≠ .panicked) ∧
    s.registry.droppedTotal + s.mirroring.length = s.pipeline.dropped.length ∧
    ((∀ r, s.pipeline.InProgress r → s.outcome r = some .panicked) →
      order.Perm (s.pipeline.sent ++ s.pipeline.dropped ++
        order.filter fun r => s.outcome r = some .panicked)) := by
  intro order alone
  have hrun := dispatched_run crate cfg entryOf defaultBuckets h
  refine ⟨hrun.linearized.nodup, fun _ _ => hrun.linearized.alone, hrun.linearized.vectors,
    hrun.linearized.series, ?_, fun _ => hrun.taken_of_refused_or_sent, hrun.counted,
    hrun.partition⟩
  rintro first second mid rfl hfirst
  have hmid := dispatched_run crate cfg entryOf defaultBuckets hfirst
  refine ⟨takenOrder crate cfg entryOf defaultBuckets first, _,
    transcript_append hfirst second, ?_, ?_⟩
  · intro r hr
    obtain ⟨o, ho⟩ := Option.isSome_iff_exists.mp hr
    exact hmid.mem_of_outcome ho
  · intro r hr hmem
    have hdecided := (hmid.linearized.decided r).mp hmem
    rw [hmid.waiting r (Or.inl hr)] at hdecided
    contradiction

/-! ## After the shutdown -/

/-- The flag is up and no record call is underway, one that panicked apart. -/
structure Quiet (s : Dispatch) : Prop where
  flag : s.pipeline.flag = true
  idle : ∀ r, s.pipeline.InProgress r → s.pipeline.records r = .passed ∧ s.outcome r ≠ none
  mirrored : s.mirroring = []

/-- Nothing that a record call changes is changed. -/
structure Unchanged (s t : Dispatch) : Prop where
  registry : t.registry = s.registry
  dropped : t.pipeline.dropped = s.pipeline.dropped
  sent : ∀ r, t.pipeline.records r = .sent ↔ s.pipeline.records r = .sent

variable {crate cfg entryOf} {s t : Dispatch}

/-- A step of the pipeline in a quiet state skips a call, or is none of a record call. -/
theorem Quiet.records (h : Quiet s) {p : Pipeline} {a : Action}
    (hstep : Step cfg s.pipeline a p) (hupdate : ∀ r, a ≠ .updatePrometheus r)
    (hcount : ∀ r, a ≠ .countDropped r) (r : Nat) :
    p.records r = s.pipeline.records r ∨
      s.pipeline.records r = .idle ∧ p.records r = .skipped := by
  have hupdated : ∀ x, s.pipeline.records x ≠ .updated := by
    intro x hpc
    have hpassed := (h.idle x (Or.inr (Or.inl hpc))).1
    rw [hpc] at hpassed
    contradiction
  cases hstep with
  | @skip x hpc _ =>
      rw [Pipeline.records_setRecord]
      by_cases hx : r = x
      · rw [if_pos hx, hx]
        exact Or.inr ⟨hpc, rfl⟩
      · rw [if_neg hx]
        exact Or.inl rfl
  | pass hpc hflag =>
      rw [h.flag] at hflag
      contradiction
  | update hpc => exact absurd rfl (hupdate _)
  | send hpc _ => exact absurd hpc (hupdated _)
  | refuse hpc _ => exact absurd hpc (hupdated _)
  | countDrop hpc => exact absurd rfl (hcount _)
  | _ => exact Or.inl rfl

theorem Step.flag_up {p q : Pipeline} {a : Action} (h : Step cfg p a q) (hflag : p.flag = true) :
    q.flag = true := by
  cases h with
  | perform hpc _ => rfl
  | _ => exact hflag

theorem quiet_step {action : DispatchAction} (h : Quiet s)
    (hstep : dispatchStep crate cfg entryOf s action = some t) : Quiet t ∧ Unchanged s t := by
  cases dispatchStep_cases hstep with
  | underway hpc hnone _ _ => exact absurd hnone (h.idle _ (Or.inl hpc)).2
  | returned hpc hnone _ _ _ => exact absurd hnone (h.idle _ (Or.inl hpc)).2
  | countDrop hpc =>
      have hpassed := (h.idle _ (Or.inr (Or.inr hpc))).1
      rw [hpc] at hpassed
      contradiction
  | mirror hmem =>
      rw [h.mirrored] at hmem
      exact absurd hmem List.not_mem_nil
  | @other action pipeline hupdate hcount hpipeline =>
      have hmoved := h.records (step_cases hpipeline) hupdate hcount
      refine ⟨⟨(step_cases hpipeline).flag_up h.flag, ?_, h.mirrored⟩, rfl,
        (step_cases hpipeline).dropped_eq hcount, ?_⟩
      · intro r hr
        change pipeline.records r = .passed ∧ s.outcome r ≠ none
        rcases hmoved r with hsame | ⟨-, hskipped⟩
        · rw [Pipeline.InProgress, hsame] at hr
          rw [hsame]
          exact h.idle r hr
        · simp [Pipeline.InProgress, hskipped] at hr
      · intro r
        change pipeline.records r = .sent ↔ _
        rcases hmoved r with hsame | ⟨hidle, hskipped⟩
        · rw [hsame]
        · rw [hidle, hskipped]
          exact iff_of_false RecordPc.noConfusion RecordPc.noConfusion

/-- Once a shutdown has raised the flag and the record calls underway are through, record
calls are no-ops for good: no run from there changes the registry or either drop counter,
or sends a sample. -/
theorem quiet_after_shutdown {actions : List DispatchAction} (hquiet : Quiet s)
    (h : exec (dispatchStep crate cfg entryOf) s actions = some t) :
    t.registry = s.registry ∧ t.pipeline.dropped = s.pipeline.dropped ∧
      ∀ r, t.pipeline.records r = .sent ↔ s.pipeline.records r = .sent := by
  have hrun : Quiet t ∧ Unchanged s t := by
    apply (Reaches.of_exec h).invariant (I := fun u => Quiet u ∧ Unchanged s u) ?_
      ⟨hquiet, rfl, rfl, fun _ => Iff.rfl⟩
    rintro u a v ⟨hu, hsame⟩ - hstep
    obtain ⟨hv, hnext⟩ := quiet_step hu hstep
    exact ⟨hv, hnext.registry.trans hsame.registry, hnext.dropped.trans hsame.dropped,
      fun r => (hnext.sent r).trans (hsame.sent r)⟩
  exact ⟨hrun.2.registry, hrun.2.dropped, hrun.2.sent⟩

end

/-! ## A full channel, and a shutdown -/

def oneSlot : PipelineConfig := ⟨1, 1000⟩

def sameRequest (_ : Nat) : MetricEntry := requestsTotal [("method", "GET")]

/-- Both calls miss; the first finds the vector of the second, is refused and counted. -/
def refusedRun : List DispatchAction :=
  [.pipeline (.loadFlag 0), .pipeline (.loadFlag 1), .update (.ensure (.read 0)),
    .update (.ensure (.read 1)), .update (.ensure (.lock 1)), .update (.ensure (.register 1)),
    .update (.ensure (.insert 1)), .update (.ensure (.lock 0)), .update (.observe 1),
    .pipeline (.trySend 1), .update (.observe 0), .pipeline (.trySend 0),
    .pipeline (.countDropped 0), .incDropped 0]

/-- One sample is sent, then the engine is shut down. -/
def sentRun : List DispatchAction :=
  [.pipeline (.loadFlag 0), .update (.ensure (.read 0)), .update (.ensure (.lock 0)),
    .update (.ensure (.register 0)), .update (.ensure (.insert 0)), .update (.observe 0),
    .pipeline (.trySend 0), .pipeline (.swapFlag 0)]

def lateRun : List DispatchAction :=
  [.pipeline (.loadFlag 1), .pipeline .blockingRecv, .pipeline (.sendShutdown 0)]

theorem refused_run_dispatches :
    ∃ s, exec (dispatchStep permissiveCrate oneSlot sameRequest) (Dispatch.init []) refusedRun =
        some s ∧
      s.registry.droppedTotal + s.mirroring.length = [0].length :=
  ⟨_, rfl,
    (@dual_dispatch permissiveCrate oneSlot sameRequest [] refusedRun _ rfl).2.2.2.2.2.2.1⟩

theorem late_run_quiet :
    ∃ s t, exec (dispatchStep permissiveCrate oneSlot sameRequest) (Dispatch.init []) sentRun =
        some s ∧
      exec (dispatchStep permissiveCrate oneSlot sameRequest) s lateRun = some t ∧
      t.registry = s.registry := by
  have hothers : ∀ a b c x, x ≠ 0 →
      Function.update (Function.update (Function.update (fun _ => RecordPc.idle) 0 a) 0 b)
        0 c x = .idle := by
    intro a b c x hx
    rw [Function.update_of_ne hx, Function.update_of_ne hx, Function.update_of_ne hx]
  refine ⟨_, _, rfl, rfl, ?_⟩
  refine (@quiet_after_shutdown permissiveCrate oneSlot sameRequest _ _ lateRun ⟨rfl, ?_, rfl⟩
    rfl).1
  intro r hr
  by_cases hzero : r = 0
  · subst hzero
    rcases hr with hr | hr | hr <;> exact RecordPc.noConfusion hr
  · have hidle := hothers .passed .updated .sent r hzero
    rcases hr with hr | hr | hr <;> exact RecordPc.noConfusion (hidle.symm.trans hr)

end Tonggeret.Engine
