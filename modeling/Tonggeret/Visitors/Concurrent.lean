import Tonggeret.Lib.Transition
import Tonggeret.Visitors.Calls
import Tonggeret.Visitors.Series

/-!
# Concurrent visitor calls

What calls do together is what they do one after another: the lock orders those that get
it, and the others leave the sketches alone.
-/

namespace Tonggeret.Visitors

open Tonggeret.Lib

/-! ## What is noted of a run -/

inductive VisitNote
  | counted (i : Nat)
  | decided (i : Nat) (contended : Bool)
  | exported (entry : String × Hll)

section

variable (call : Nat → Call)

/-- Visits that are counted, that fold or go without the lock, and exported regions. -/
def visitNotes (s : Visiting) : VisitAction → List VisitNote
  | .count i => [.counted i]
  | .tryLock i _ =>
      match call i with
      | .observe _ _ => if s.free then [] else [.decided i true]
      | _ => []
  | .fold i => [.decided i false]
  | .exportNext i =>
      match s.calls i with
      | .exporting (entry :: _) => [.exported entry]
      | _ => []
  | _ => []

/-- The call as one of a sequence. -/
def visitOf (i : Nat) (contended : Bool) : Visit :=
  match call i with
  | .observe visitorKey region => ⟨visitorKey, region, contended⟩
  | _ => ⟨"", "", true⟩

def countedIds (log : List VisitNote) : List Nat :=
  log.filterMap fun
    | .counted i => some i
    | _ => none

def decisions (log : List VisitNote) : List (Nat × Bool) :=
  log.filterMap fun
    | .decided i contended => some (i, contended)
    | _ => none

/-- The calls in the order in which they are decided. -/
def visitsOf (log : List VisitNote) : List Visit :=
  (decisions log).map fun decided => visitOf call decided.1 decided.2

def exportsOf (log : List VisitNote) : List (String × Hll) :=
  log.filterMap fun
    | .exported entry => some entry
    | _ => none

def totalRecord (region : String) : Record :=
  ⟨visitorsTotal, ⟨0x3ff0000000000000⟩, [("region", region)]⟩

def estimateRecord (estimate : Hll → F64) (region : String) (sketch : Hll) : Record :=
  ⟨uniqueVisitorsEstimate, estimate sketch, [("region", region)]⟩

/-- The region that a call counts. -/
def regionOf (i : Nat) : String := normalizeRegion (visitOf call i true).region

/-- What the calls hand to the engine. -/
def recordsOf (estimate : Hll → F64) (log : List VisitNote) : List Record :=
  log.filterMap fun
    | .counted i => some (totalRecord (regionOf call i))
    | .exported (region, sketch) => some (estimateRecord estimate region sketch)
    | .decided _ _ => none

end

/-! ## The invariant -/

section

variable (hashKey : String → UInt64) (maxRegions : UInt64) (call : Nat → Call)

/-- The regions exported are the sketches at these moments, and `done` besides. -/
def ExportsFit (moments : List (List Visit)) (exports done : List (String × Hll)) : Prop :=
  ∀ region, exports.filter (·.1 = region) =
    (moments.filterMap fun past =>
      ((trackerAfter hashKey maxRegions past).inner.get? region).map (region, ·)) ++
    done.filter (·.1 = region)

/-- A snapshot is underway: `done` and what it has left are the sketches at `current`. -/
structure Underway (s : Visiting) (visits : List Visit) (moments : List (List Visit))
    (done : List (String × Hll)) (i : Nat) (todo : List (String × Hll)) (current : List Visit) :
    Prop where
  exporting : s.calls i = .exporting todo
  whole : (done ++ todo).Perm s.tracker.inner.entries
  started : current <+: visits
  tracker : trackerAfter hashKey maxRegions current = s.tracker
  later : ∀ past ∈ moments, past <+: current

/-- The snapshots so far. -/
structure Snapshots (s : Visiting) (visits : List Visit) (moments : List (List Visit))
    (exports : List (String × Hll)) : Prop where
  increasing : moments.Pairwise (· <+: ·)
  past : ∀ past ∈ moments, past <+: visits
  exported : ∃ done, ExportsFit hashKey maxRegions moments exports done ∧
    (done = [] ∧ (∀ i todo, s.calls i ≠ .exporting todo) ∨
      ∃ i todo current, Underway hashKey maxRegions s visits moments done i todo current)

/-- The lock and what it protects, after the run that `log` notes. -/
structure Serial (log : List VisitNote) (s : Visiting) : Prop where
  tracker : s.tracker = trackerAfter hashKey maxRegions (visitsOf call log)
  holds : ∀ i, (s.calls i).holds = true → s.holder = some i
  snapshots : s.poisoned = false → ∃ moments,
    Snapshots hashKey maxRegions s (visitsOf call log) moments (exportsOf log)

variable {hashKey maxRegions call} {log : List VisitNote} {s t : Visiting}

theorem serial_new : Serial hashKey maxRegions call [] (.new maxRegions) := by
  refine ⟨rfl, ?_, ?_⟩
  · intro i hi
    exact absurd hi Bool.false_ne_true
  · intro _
    refine ⟨[], .nil, by simp, [], ?_, Or.inl ⟨rfl, ?_⟩⟩
    · intro region
      rfl
    · intro i todo
      exact CallPc.noConfusion

theorem visitsOf_append (first second : List VisitNote) :
    visitsOf call (first ++ second) = visitsOf call first ++ visitsOf call second := by
  rw [visitsOf, decisions, List.filterMap_append, List.map_append]
  rfl

/-- No call holds a free lock. -/
theorem Serial.not_holds (h : Serial hashKey maxRegions call log s) (hfree : s.free = true)
    (i : Nat) : (s.calls i).holds = false := by
  rw [← Bool.not_eq_true]
  intro hi
  have hholder := h.holds i hi
  rw [Visiting.free, hholder] at hfree
  exact absurd hfree (by simp)

/-- Only one call holds it. -/
theorem Serial.holder_unique (h : Serial hashKey maxRegions call log s) {i j : Nat}
    (hi : (s.calls i).holds = true) (hj : (s.calls j).holds = true) : i = j :=
  Option.some.inj ((h.holds i hi).symm.trans (h.holds j hj))

theorem trackerAfter_concat (visits : List Visit) (visit : Visit) :
    trackerAfter hashKey maxRegions (visits ++ [visit]) =
      (observe hashKey (trackerAfter hashKey maxRegions visits) visit).2.2 := by
  rw [trackerAfter, observeAll, List.foldl_append]
  rfl

/-- A call without the lock leaves the sketches. -/
theorem trackerAfter_contended (visits : List Visit) {visit : Visit}
    (h : visit.contended = true) :
    trackerAfter hashKey maxRegions (visits ++ [visit]) =
      trackerAfter hashKey maxRegions visits := by
  rw [trackerAfter_concat, observe, if_pos h]

/-- A whole iteration has one entry for each region that has a sketch. -/
theorem filter_of_perm_entries {m : SortedMap String Hll} {order : List (String × Hll)}
    (h : order.Perm m.entries) (region : String) :
    order.filter (·.1 = region) = ((m.get? region).map (region, ·)).toList := by
  have hnodup : (order.filter (·.1 = region)).Nodup :=
    (h.nodup_iff.mpr m.nodup_entries).filter _
  cases hget : m.get? region with
  | none =>
      rw [Option.map_none, Option.toList_none, List.filter_eq_nil_iff]
      intro entry hentry heq
      have hkey : region ∈ m.keys := by
        rw [SortedMap.mem_keys]
        exact ⟨entry.2, by rw [← of_decide_eq_true heq]; exact h.mem_iff.mp hentry⟩
      exact SortedMap.get?_eq_none.mp hget hkey
  | some sketch =>
      have hmem := SortedMap.get?_eq_some.mp hget
      rw [Option.map_some, Option.toList_some, ← List.perm_singleton,
        List.perm_ext_iff_of_nodup hnodup (List.nodup_singleton _)]
      intro entry
      rw [List.mem_filter, List.mem_singleton, decide_eq_true_iff]
      constructor
      · rintro ⟨hentry, rfl⟩
        exact Prod.ext rfl (SortedMap.value_unique (h.mem_iff.mp hentry) hmem)
      · rintro rfl
        exact ⟨h.mem_iff.mpr hmem, rfl⟩

theorem exportsOf_append (first second : List VisitNote) :
    exportsOf (first ++ second) = exportsOf first ++ exportsOf second :=
  List.filterMap_append

/-- While a snapshot is underway, the call that exports is that one. -/
theorem Serial.exporting_unique (h : Serial hashKey maxRegions call log s) {i j : Nat}
    {todo : List (String × Hll)} (hi : (s.calls i).holds = true)
    (hj : s.calls j = .exporting todo) : j = i :=
  h.holder_unique (by rw [hj]; rfl) hi

/-- A call that holds the lock and does not export is no snapshot's. -/
theorem Serial.no_snapshot (h : Serial hashKey maxRegions call log s) {i : Nat}
    (hi : (s.calls i).holds = true) (hother : ∀ todo, s.calls i ≠ .exporting todo) (j : Nat)
    (todo : List (String × Hll)) : s.calls j ≠ .exporting todo := by
  intro hj
  obtain rfl := h.exporting_unique hi hj
  exact hother todo hj

/-- Without a snapshot underway nothing is exported by halves. -/
theorem Snapshots.whole {visits : List Visit} {moments : List (List Visit)}
    {exports : List (String × Hll)}
    (h : Snapshots hashKey maxRegions s visits moments exports)
    (hnone : ∀ i todo, s.calls i ≠ .exporting todo) :
    ExportsFit hashKey maxRegions moments exports [] := by
  obtain ⟨done, hfit, ⟨rfl, -⟩ | ⟨i, todo, current, hunder⟩⟩ := h.exported
  · exact hfit
  · exact absurd hunder.exporting (hnone i todo)

/-- A call moves outside of the lock, and if it is decided it is so without the lock. -/
theorem Serial.outside (h : Serial hashKey maxRegions call log s) {i : Nat} {pc : CallPc}
    {notes : List VisitNote} (hold : (s.calls i).holds = false) (hpc : pc.holds = false)
    (hexports : exportsOf notes = [])
    (hvisits : visitsOf call notes = [] ∨ ∃ visit : Visit,
      visit.contended = true ∧ visitsOf call notes = [visit]) :
    Serial hashKey maxRegions call (log ++ notes) (s.setCall i pc) := by
  have htracker : trackerAfter hashKey maxRegions (visitsOf call (log ++ notes)) =
      trackerAfter hashKey maxRegions (visitsOf call log) := by
    rw [visitsOf_append]
    rcases hvisits with hnil | ⟨visit, hcontended, hone⟩
    · rw [hnil, List.append_nil]
    · rw [hone, trackerAfter_contended _ hcontended]
  have hprefix : visitsOf call log <+: visitsOf call (log ++ notes) := by
    rw [visitsOf_append]
    exact List.prefix_append _ _
  refine ⟨h.tracker.trans htracker.symm, ?_, ?_⟩
  · intro x hx
    rw [Visiting.calls_setCall] at hx
    split at hx
    · rw [hpc] at hx
      exact absurd hx Bool.false_ne_true
    · exact h.holds x hx
  · intro hpoisoned
    obtain ⟨moments, hincreasing, hpast, done, hfit, hstate⟩ := h.snapshots hpoisoned
    refine ⟨moments, hincreasing, fun past hmem => (hpast past hmem).trans hprefix, done, ?_, ?_⟩
    · rw [exportsOf_append, hexports, List.append_nil]
      exact hfit
    · rcases hstate with ⟨hdone, hnone⟩ | ⟨j, todo, current, hunder⟩
      · refine Or.inl ⟨hdone, fun x todo => ?_⟩
        rw [Visiting.calls_setCall]
        split
        · rintro rfl
          exact Bool.false_ne_true hpc.symm
        · exact hnone x todo
      · refine Or.inr ⟨j, todo, current, ?_, hunder.whole, hunder.started.trans hprefix,
          hunder.tracker, hunder.later⟩
        rw [Visiting.calls_setCall, if_neg]
        · exact hunder.exporting
        · rintro rfl
          rw [hunder.exporting] at hold
          exact Bool.false_ne_true hold.symm

/-- A call takes the free lock. -/
theorem Serial.lock (h : Serial hashKey maxRegions call log s) {i : Nat} {pc : CallPc}
    (hfree : s.free = true)
    (horder : ∀ order, pc = .exporting order → order.Perm s.tracker.inner.entries) :
    Serial hashKey maxRegions call (log ++ []) (s.lock i pc) := by
  rw [List.append_nil]
  have hcalls : ∀ x, (s.lock i pc).calls x = if x = i then pc else s.calls x :=
    fun x => Function.update_apply s.calls i pc x
  have hnone : ∀ x todo, s.calls x ≠ .exporting todo := by
    intro x todo hx
    have hholds := h.not_holds hfree x
    rw [hx] at hholds
    exact Bool.false_ne_true hholds.symm
  refine ⟨h.tracker, ?_, ?_⟩
  · intro x hx
    rw [hcalls] at hx
    split at hx
    · rename_i heq
      rw [heq]
      rfl
    · rw [h.not_holds hfree x] at hx
      exact absurd hx Bool.false_ne_true
  · intro hpoisoned
    obtain ⟨moments, hsnapshots⟩ := h.snapshots hpoisoned
    refine ⟨moments, hsnapshots.increasing, hsnapshots.past, [], hsnapshots.whole hnone, ?_⟩
    by_cases hexporting : ∃ order, pc = .exporting order
    · obtain ⟨order, rfl⟩ := hexporting
      refine Or.inr ⟨i, order, visitsOf call log, ?_, horder order rfl, List.prefix_rfl,
        h.tracker.symm, hsnapshots.past⟩
      rw [hcalls, if_pos rfl]
    · refine Or.inl ⟨rfl, fun x todo => ?_⟩
      rw [hcalls]
      split
      · exact fun heq => hexporting ⟨todo, heq⟩
      · exact hnone x todo

/-- The holder gives the lock back; only `moments` tells what it did. -/
theorem Serial.unlock (h : Serial hashKey maxRegions call log s) {i : Nat}
    {notes : List VisitNote} (hi : (s.calls i).holds = true) {tracker : VisitorsTracker}
    {poisoned : Bool}
    (htracker : tracker = trackerAfter hashKey maxRegions (visitsOf call (log ++ notes)))
    (hsnapshots : poisoned = false → ∃ moments : List (List Visit),
      moments.Pairwise (· <+: ·) ∧ (∀ past ∈ moments, past <+: visitsOf call (log ++ notes)) ∧
      ExportsFit hashKey maxRegions moments (exportsOf (log ++ notes)) []) :
    Serial hashKey maxRegions call (log ++ notes)
      ({ s with tracker, poisoned }.unlock i) := by
  have hcalls : ∀ x, (({ s with tracker, poisoned } : Visiting).unlock i).calls x =
      if x = i then .returned else s.calls x :=
    fun x => Function.update_apply s.calls i .returned x
  have hothers : ∀ x, x ≠ i → (s.calls x).holds = false := by
    intro x hx
    rw [← Bool.not_eq_true]
    exact fun hholds => hx (h.holder_unique hholds hi)
  refine ⟨htracker, ?_, ?_⟩
  · intro x hx
    rw [hcalls] at hx
    split at hx
    · exact absurd hx Bool.false_ne_true
    · rename_i hne
      rw [hothers x hne] at hx
      exact absurd hx Bool.false_ne_true
  · intro hpoisoned
    obtain ⟨moments, hincreasing, hpast, hfit⟩ := hsnapshots hpoisoned
    refine ⟨moments, hincreasing, hpast, [], hfit, Or.inl ⟨rfl, fun x todo => ?_⟩⟩
    rw [hcalls]
    split
    · exact CallPc.noConfusion
    · rename_i hne
      intro heq
      have hholds := hothers x hne
      rw [heq] at hholds
      exact Bool.false_ne_true hholds.symm

/-- The next region of the snapshot underway. -/
theorem Serial.exportNext (h : Serial hashKey maxRegions call log s) {i : Nat}
    {entry : String × Hll} {todo : List (String × Hll)}
    (hpc : s.calls i = .exporting (entry :: todo)) :
    Serial hashKey maxRegions call (log ++ visitNotes call s (.exportNext i))
      (s.setCall i (.exporting todo)) := by
  have hnotes : visitNotes call s (.exportNext i) = [.exported entry] := by
    simp only [visitNotes, hpc]
  have hvisits : visitsOf call (log ++ [.exported entry]) = visitsOf call log := by
    rw [visitsOf_append]
    exact List.append_nil _
  have hi : (s.calls i).holds = true := by
    rw [hpc]
    rfl
  rw [hnotes]
  refine ⟨by rw [hvisits]; exact h.tracker, ?_, ?_⟩
  · intro x hx
    rw [Visiting.calls_setCall] at hx
    split at hx
    · rename_i heq
      rw [heq]
      exact h.holds i hi
    · exact h.holds x hx
  · intro hpoisoned
    obtain ⟨moments, hincreasing, hpast, done, hfit, hstate⟩ := h.snapshots hpoisoned
    rw [hvisits]
    refine ⟨moments, hincreasing, hpast, done ++ [entry], ?_, ?_⟩
    · intro region
      have hexports : exportsOf (log ++ [.exported entry]) = exportsOf log ++ [entry] :=
        exportsOf_append _ _
      rw [hexports, List.filter_append, List.filter_append, hfit region, List.append_assoc]
    · rcases hstate with ⟨-, hnone⟩ | ⟨j, todo', current, hunder⟩
      · exact absurd hpc (hnone i _)
      · obtain rfl := h.exporting_unique hi hunder.exporting
        obtain rfl := CallPc.exporting.inj (hunder.exporting.symm.trans hpc)
        refine Or.inr ⟨j, todo, current, ?_, ?_, hunder.started, hunder.tracker, hunder.later⟩
        · rw [Visiting.calls_setCall, if_pos rfl]
        · rw [List.append_assoc]
          exact hunder.whole

/-- A finished snapshot has exported the sketches at one moment. -/
theorem Serial.exported (h : Serial hashKey maxRegions call log s) {i : Nat}
    (hpc : s.calls i = .exporting []) (hpoisoned : s.poisoned = false) :
    ∃ moments : List (List Visit), moments.Pairwise (· <+: ·) ∧
      (∀ past ∈ moments, past <+: visitsOf call log) ∧
      ExportsFit hashKey maxRegions moments (exportsOf log) [] := by
  obtain ⟨moments, hincreasing, hpast, done, hfit, hstate⟩ := h.snapshots hpoisoned
  rcases hstate with ⟨-, hnone⟩ | ⟨j, todo, current, hunder⟩
  · exact absurd hpc (hnone i _)
  · obtain rfl := h.exporting_unique (by rw [hpc]; rfl) hunder.exporting
    obtain rfl := CallPc.exporting.inj (hunder.exporting.symm.trans hpc)
    have hwhole := hunder.whole
    rw [List.append_nil, ← hunder.tracker] at hwhole
    refine ⟨moments ++ [current], ?_, ?_, ?_⟩
    · rw [List.pairwise_append]
      refine ⟨hincreasing, List.pairwise_singleton _ _, fun past hmem x hx => ?_⟩
      rw [List.mem_singleton.mp hx]
      exact hunder.later past hmem
    · intro past hmem
      rcases List.mem_append.mp hmem with hold | hnew
      · exact hpast past hold
      · rw [List.mem_singleton.mp hnew]
        exact hunder.started
    · intro region
      rw [hfit region, filter_of_perm_entries hwhole region, List.filterMap_append,
        List.filter_nil, List.append_nil]
      congr 1

theorem serial_step {action : VisitAction} (h : Serial hashKey maxRegions call log s)
    (hstep : visitStep hashKey call s action = some t) :
    Serial hashKey maxRegions call (log ++ visitNotes call s action) t := by
  cases visitStep_cases hstep with
  | @count i visitorKey region hcall hpc =>
      exact h.outside (by rw [hpc]; rfl) rfl rfl (Or.inl rfl)
  | @lockObserve i order visitorKey region hcall hpc hfree =>
      have hnotes : visitNotes call s (.tryLock i order) = [] := by
        simp [visitNotes, hcall, hfree]
      rw [hnotes]
      exact h.lock hfree fun _ => CallPc.noConfusion
  | @contend i order visitorKey region hcall hpc hfree =>
      have hnotes : visitNotes call s (.tryLock i order) = [.decided i true] := by
        simp [visitNotes, hcall, hfree]
      rw [hnotes]
      refine h.outside (by rw [hpc]; rfl) rfl rfl
        (Or.inr ⟨⟨visitorKey, region, true⟩, rfl, ?_⟩)
      simp [visitsOf, decisions, visitOf, hcall]
  | @lockSnapshot i order hcall hpc hfree horder =>
      have hnotes : visitNotes call s (.tryLock i order) = [] := by
        simp [visitNotes, hcall]
      rw [hnotes]
      refine h.lock hfree fun order' heq => ?_
      obtain rfl := CallPc.exporting.inj heq
      exact horder
  | @lockRead i order hcall hpc hfree =>
      have hnotes : visitNotes call s (.tryLock i order) = [] := by
        simp [visitNotes, hcall]
      rw [hnotes]
      exact h.lock hfree fun _ => CallPc.noConfusion
  | @giveUp i order hcall hpc hfree =>
      have hnotes : visitNotes call s (.tryLock i order) = [] := by
        rcases hcall with hcall | hcall <;> simp [visitNotes, hcall]
      rw [hnotes]
      exact h.outside (by rw [hpc]; rfl) rfl rfl (Or.inl rfl)
  | @fold i visitorKey region hcall hpc =>
      have hvisits : visitsOf call (log ++ visitNotes call s (.fold i)) =
          visitsOf call log ++ [⟨visitorKey, region, false⟩] := by
        rw [visitsOf_append]
        simp [visitNotes, visitsOf, decisions, visitOf, hcall]
      refine h.unlock (by rw [hpc]; rfl) ?_ ?_
      · rw [hvisits, trackerAfter_concat, ← h.tracker]
      · intro hpoisoned
        obtain ⟨moments, hsnapshots⟩ := h.snapshots hpoisoned
        refine ⟨moments, hsnapshots.increasing, fun past hmem => ?_, ?_⟩
        · rw [hvisits]
          exact (hsnapshots.past past hmem).trans (List.prefix_append _ _)
        · rw [exportsOf_append]
          have hwhole := hsnapshots.whole (h.no_snapshot (by rw [hpc]; rfl)
            (by rw [hpc]; exact fun _ => CallPc.noConfusion))
          exact (List.append_nil (exportsOf log)).symm ▸ hwhole
  | @exportNext i entry todo hpc => exact h.exportNext hpc
  | @panic i entry todo hpc =>
      have hnotes : visitNotes call s (.panic i) = [] := rfl
      rw [hnotes]
      refine h.unlock (by rw [hpc]; rfl) ?_ fun hpoisoned => ?_
      · rw [List.append_nil]
        exact h.tracker
      · exact absurd hpoisoned.symm Bool.false_ne_true
  | @exported i hpc =>
      have hnotes : visitNotes call s (.release i) = [] := rfl
      rw [hnotes]
      refine h.unlock (by rw [hpc]; rfl) (by rw [List.append_nil]; exact h.tracker) ?_
      rw [List.append_nil]
      exact h.exported hpc
  | @read i hpc =>
      have hnotes : visitNotes call s (.release i) = [] := rfl
      rw [hnotes]
      refine h.unlock (by rw [hpc]; rfl) (by rw [List.append_nil]; exact h.tracker) ?_
      rw [List.append_nil]
      intro hpoisoned
      obtain ⟨moments, hsnapshots⟩ := h.snapshots hpoisoned
      have hnone := h.no_snapshot (by rw [hpc]; rfl)
        (by rw [hpc]; exact fun _ => CallPc.noConfusion)
      exact ⟨moments, hsnapshots.increasing, hsnapshots.past, hsnapshots.whole hnone⟩

/-! ## Calls -/

/-- The call is one of `observe`. -/
def IsObserve (call : Nat → Call) (i : Nat) : Prop :=
  ∃ visitorKey region, call i = .observe visitorKey region

/-- Every `observe` is counted and decided once, by its place. -/
structure Called (call : Nat → Call) (log : List VisitNote) (s : Visiting) : Prop where
  countedOnce : (countedIds log).Nodup
  decidedOnce : ((decisions log).map Prod.fst).Nodup
  counted : ∀ i, i ∈ countedIds log ↔ IsObserve call i ∧ s.calls i ≠ .idle
  decided : ∀ i, i ∈ (decisions log).map Prod.fst ↔ IsObserve call i ∧ s.calls i = .returned
  others : ∀ i, s.calls i = .reading ∨ (∃ todo, s.calls i = .exporting todo) →
    ¬ IsObserve call i

theorem called_new : Called call [] (.new maxRegions) := by
  refine ⟨.nil, .nil, ?_, ?_, ?_⟩
  · intro i
    simp [countedIds, Visiting.new]
  · intro i
    simp [decisions, Visiting.new]
  · intro i
    simp [Visiting.new]

theorem countedIds_append (first second : List VisitNote) :
    countedIds (first ++ second) = countedIds first ++ countedIds second :=
  List.filterMap_append

theorem decisions_append (first second : List VisitNote) :
    (decisions (first ++ second)).map Prod.fst =
      (decisions first).map Prod.fst ++ (decisions second).map Prod.fst := by
  rw [decisions, List.filterMap_append, List.map_append]
  rfl

/-- A call moves on; it is counted as it leaves its start and decided as it returns. -/
theorem Called.move (h : Called call log s) {i : Nat} {pc : CallPc} {notes : List VisitNote}
    (ht : t.calls = Function.update s.calls i pc) (hpc : pc ≠ .idle)
    (hold : s.calls i ≠ .returned)
    (hcounted : countedIds notes = [i] ∧ IsObserve call i ∧ s.calls i = .idle ∨
      countedIds notes = [] ∧ (¬ IsObserve call i ∨ s.calls i ≠ .idle))
    (hdecided : (decisions notes).map Prod.fst = [i] ∧ IsObserve call i ∧ pc = .returned ∨
      (decisions notes).map Prod.fst = [] ∧ (¬ IsObserve call i ∨ pc ≠ .returned))
    (hothers : pc = .reading ∨ (∃ todo, pc = .exporting todo) → ¬ IsObserve call i) :
    Called call (log ++ notes) t := by
  have hcalls : ∀ x, t.calls x = if x = i then pc else s.calls x := by
    intro x
    rw [ht]
    exact Function.update_apply s.calls i pc x
  refine ⟨?_, ?_, ?_, ?_, ?_⟩
  · rw [countedIds_append]
    rcases hcounted with ⟨hone, -, hidle⟩ | ⟨hnil, -⟩
    · rw [hone, ← List.concat_eq_append]
      exact h.countedOnce.concat fun hmem => ((h.counted i).mp hmem).2 hidle
    · rw [hnil, List.append_nil]
      exact h.countedOnce
  · rw [decisions_append]
    rcases hdecided with ⟨hone, -⟩ | ⟨hnil, -⟩
    · rw [hone, ← List.concat_eq_append]
      exact h.decidedOnce.concat fun hmem => hold ((h.decided i).mp hmem).2
    · rw [hnil, List.append_nil]
      exact h.decidedOnce
  · intro x
    rw [countedIds_append, List.mem_append, h.counted, hcalls]
    by_cases hx : x = i
    · subst hx
      rw [if_pos rfl]
      rcases hcounted with ⟨hone, hobserve, -⟩ | ⟨hnil, hno⟩
      · simp [hone, hobserve, hpc]
      · rw [hnil]
        simp only [List.not_mem_nil, or_false]
        exact and_congr_right fun hobserve =>
          iff_of_true (hno.resolve_left (not_not_intro hobserve)) hpc
    · rw [if_neg hx]
      rcases hcounted with ⟨hone, -⟩ | ⟨hnil, -⟩
      · simp [hone, hx]
      · simp [hnil]
  · intro x
    rw [decisions_append, List.mem_append, h.decided, hcalls]
    by_cases hx : x = i
    · subst hx
      rw [if_pos rfl]
      rcases hdecided with ⟨hone, hobserve, hreturned⟩ | ⟨hnil, hno⟩
      · simp [hone, hobserve, hreturned]
      · rw [hnil]
        simp only [List.not_mem_nil, or_false]
        exact and_congr_right fun hobserve =>
          iff_of_false hold (hno.resolve_left (not_not_intro hobserve))
    · rw [if_neg hx]
      rcases hdecided with ⟨hone, -⟩ | ⟨hnil, -⟩
      · simp [hone, hx]
      · simp [hnil]
  · intro x
    rw [hcalls]
    by_cases hx : x = i
    · rw [if_pos hx, hx]
      exact hothers
    · rw [if_neg hx]
      exact h.others x

theorem called_step {action : VisitAction} (h : Called call log s)
    (hstep : visitStep hashKey call s action = some t) :
    Called call (log ++ visitNotes call s action) t := by
  have hnever : ∀ {i : Nat}, call i = .snapshot ∨ call i = .read → ¬ IsObserve call i := by
    rintro i hcall ⟨visitorKey, region, hobserve⟩
    rw [hobserve] at hcall
    rcases hcall with hcall | hcall <;> contradiction
  have hplain : ∀ {pc : CallPc}, pc = .counted ∨ pc = .holding ∨ pc = .returned →
      pc = .reading ∨ (∃ todo, pc = .exporting todo) → False := by
    rintro pc (rfl | rfl | rfl) (h | ⟨todo, h⟩) <;> contradiction
  cases visitStep_cases hstep with
  | @count i visitorKey region hcall hpc =>
      exact h.move rfl CallPc.noConfusion (by rw [hpc]; exact CallPc.noConfusion)
        (Or.inl ⟨rfl, ⟨_, _, hcall⟩, hpc⟩) (Or.inr ⟨rfl, Or.inr CallPc.noConfusion⟩)
        fun hh => (hplain (Or.inl rfl) hh).elim
  | @lockObserve i order visitorKey region hcall hpc hfree =>
      have hnotes : visitNotes call s (.tryLock i order) = [] := by
        simp [visitNotes, hcall, hfree]
      rw [hnotes]
      exact h.move rfl CallPc.noConfusion (by rw [hpc]; exact CallPc.noConfusion)
        (Or.inr ⟨rfl, Or.inr (by rw [hpc]; exact CallPc.noConfusion)⟩)
        (Or.inr ⟨rfl, Or.inr CallPc.noConfusion⟩)
        fun hh => (hplain (Or.inr (Or.inl rfl)) hh).elim
  | @contend i order visitorKey region hcall hpc hfree =>
      have hnotes : visitNotes call s (.tryLock i order) = [.decided i true] := by
        simp [visitNotes, hcall, hfree]
      rw [hnotes]
      exact h.move rfl CallPc.noConfusion (by rw [hpc]; exact CallPc.noConfusion)
        (Or.inr ⟨rfl, Or.inr (by rw [hpc]; exact CallPc.noConfusion)⟩)
        (Or.inl ⟨rfl, ⟨_, _, hcall⟩, rfl⟩) fun hh => (hplain (Or.inr (Or.inr rfl)) hh).elim
  | @lockSnapshot i order hcall hpc hfree horder =>
      have hnotes : visitNotes call s (.tryLock i order) = [] := by
        simp [visitNotes, hcall]
      have hno := hnever (Or.inl hcall)
      rw [hnotes]
      exact h.move rfl CallPc.noConfusion (by rw [hpc]; exact CallPc.noConfusion)
        (Or.inr ⟨rfl, Or.inl hno⟩) (Or.inr ⟨rfl, Or.inl hno⟩) fun _ => hno
  | @lockRead i order hcall hpc hfree =>
      have hnotes : visitNotes call s (.tryLock i order) = [] := by
        simp [visitNotes, hcall]
      have hno := hnever (Or.inr hcall)
      rw [hnotes]
      exact h.move rfl CallPc.noConfusion (by rw [hpc]; exact CallPc.noConfusion)
        (Or.inr ⟨rfl, Or.inl hno⟩) (Or.inr ⟨rfl, Or.inl hno⟩) fun _ => hno
  | @giveUp i order hcall hpc hfree =>
      have hnotes : visitNotes call s (.tryLock i order) = [] := by
        rcases hcall with hcall | hcall <;> simp [visitNotes, hcall]
      have hno := hnever hcall
      rw [hnotes]
      exact h.move rfl CallPc.noConfusion (by rw [hpc]; exact CallPc.noConfusion)
        (Or.inr ⟨rfl, Or.inl hno⟩) (Or.inr ⟨rfl, Or.inl hno⟩) fun _ => hno
  | @fold i visitorKey region hcall hpc =>
      exact h.move rfl CallPc.noConfusion (by rw [hpc]; exact CallPc.noConfusion)
        (Or.inr ⟨rfl, Or.inr (by rw [hpc]; exact CallPc.noConfusion)⟩)
        (Or.inl ⟨rfl, ⟨_, _, hcall⟩, rfl⟩) fun hh => (hplain (Or.inr (Or.inr rfl)) hh).elim
  | @exportNext i entry todo hpc =>
      have hno := h.others i (Or.inr ⟨_, hpc⟩)
      have hnotes : visitNotes call s (.exportNext i) = [.exported entry] := by
        simp only [visitNotes, hpc]
      rw [hnotes]
      exact h.move rfl CallPc.noConfusion (by rw [hpc]; exact CallPc.noConfusion)
        (Or.inr ⟨rfl, Or.inl hno⟩) (Or.inr ⟨rfl, Or.inl hno⟩) fun _ => hno
  | @panic i entry todo hpc =>
      have hno := h.others i (Or.inr ⟨_, hpc⟩)
      exact h.move rfl CallPc.noConfusion (by rw [hpc]; exact CallPc.noConfusion)
        (Or.inr ⟨rfl, Or.inl hno⟩) (Or.inr ⟨rfl, Or.inl hno⟩) fun _ => hno
  | @exported i hpc =>
      have hno := h.others i (Or.inr ⟨_, hpc⟩)
      exact h.move rfl CallPc.noConfusion (by rw [hpc]; exact CallPc.noConfusion)
        (Or.inr ⟨rfl, Or.inl hno⟩) (Or.inr ⟨rfl, Or.inl hno⟩) fun _ => hno
  | @read i hpc =>
      have hno := h.others i (Or.inl hpc)
      exact h.move rfl CallPc.noConfusion (by rw [hpc]; exact CallPc.noConfusion)
        (Or.inr ⟨rfl, Or.inl hno⟩) (Or.inr ⟨rfl, Or.inl hno⟩) fun _ => hno

/-! ## Records -/

/-- The totals recorded for a region are its counted calls. -/
theorem count_totalRecord (estimate : Hll → F64) (region : String) :
    (recordsOf call estimate log).count (totalRecord region) =
      (countedIds log).countP fun i => regionOf call i = region := by
  induction log with
  | nil => rfl
  | cons note log ih =>
      rw [recordsOf, countedIds, List.filterMap_cons, List.filterMap_cons, ← recordsOf,
        ← countedIds]
      cases note with
      | counted i =>
          have heq : (totalRecord (regionOf call i) == totalRecord region) =
              decide (regionOf call i = region) := by
            rw [beq_eq_decide, decide_eq_decide]
            simp [totalRecord]
          simp only [List.count_cons, List.countP_cons, ih, heq]
      | decided i contended => exact ih
      | exported entry =>
          have hne : estimateRecord estimate entry.1 entry.2 ≠ totalRecord region := by
            intro heq
            exact absurd (congrArg Record.name heq)
              (by decide : uniqueVisitorsEstimate ≠ visitorsTotal)
          simp only [List.count_cons, ih]
          rw [if_neg (by simpa using hne)]
          rfl

/-- The estimates recorded for a region are its exports. -/
theorem filter_estimateRecord (estimate : Hll → F64) (region : String) :
    ((recordsOf call estimate log).filter fun recorded =>
      recorded.name = uniqueVisitorsEstimate ∧ recorded.labels = [("region", region)]) =
    ((exportsOf log).filter (·.1 = region)).map fun entry =>
      estimateRecord estimate entry.1 entry.2 := by
  rw [recordsOf, exportsOf, List.filter_filterMap, List.filter_filterMap, List.map_filterMap]
  apply List.filterMap_congr
  intro note _
  cases note with
  | counted i =>
      have hne : ¬ ((totalRecord (regionOf call i)).name = uniqueVisitorsEstimate ∧
          (totalRecord (regionOf call i)).labels = [("region", region)]) := by
        rintro ⟨hname, -⟩
        exact absurd hname (by decide : visitorsTotal ≠ uniqueVisitorsEstimate)
      rw [Option.filter_some, if_neg (by simpa using hne)]
      rfl
  | decided i contended => rfl
  | exported entry =>
      have hiff : ((estimateRecord estimate entry.1 entry.2).name = uniqueVisitorsEstimate ∧
          (estimateRecord estimate entry.1 entry.2).labels = [("region", region)]) ↔
            entry.1 = region := by
        simp [estimateRecord]
      simp only [Option.filter_some, hiff]
      by_cases hregion : entry.1 = region
      · rw [if_pos (by simpa using hregion), if_pos (by simpa using hregion)]
        rfl
      · rw [if_neg (by simpa using hregion), if_neg (by simpa using hregion)]
        rfl

/-- Between calls, what is counted under a region are its visits. -/
theorem Called.counts (h : Called call log s)
    (hrest : ∀ i, s.calls i ≠ .counted ∧ s.calls i ≠ .holding) (region : String) :
    ((countedIds log).countP fun i => regionOf call i = region) =
      visitsCounted hashKey maxRegions (visitsOf call log) region := by
  have hperm : (countedIds log).Perm ((decisions log).map Prod.fst) := by
    rw [List.perm_ext_iff_of_nodup h.countedOnce h.decidedOnce]
    intro i
    rw [h.counted, h.decided]
    refine and_congr_right fun hobserve => ?_
    constructor
    · intro hne
      cases hpc : s.calls i with
      | idle => exact absurd hpc hne
      | counted => exact absurd hpc (hrest i).1
      | holding => exact absurd hpc (hrest i).2
      | exporting todo => exact absurd hobserve (h.others i (Or.inr ⟨todo, hpc⟩))
      | reading => exact absurd hobserve (h.others i (Or.inl hpc))
      | returned => rfl
    · intro hpc
      rw [hpc]
      exact CallPc.noConfusion
  have hregion : ∀ decided : Nat × Bool,
      (visitOf call decided.1 decided.2).region = (visitOf call decided.1 true).region := by
    intro decided
    unfold visitOf
    cases call decided.1 <;> rfl
  rw [hperm.countP_eq, visitsCounted_eq, visitsOf, List.countP_map, List.countP_map]
  apply List.countP_congr
  intro decided _
  simp only [Function.comp_apply, regionOf, hregion, decide_eq_true_eq]
  exact decide_eq_true_iff

/-- Concurrent calls are calls in a sequence: the sketches are those after the calls that
have returned, each once, in some order; the totals, between calls, are theirs; and what
the snapshots have recorded for a region, when none is underway, is its estimates at
growing initial parts of that order, so the last one recorded is the latest. -/
theorem concurrent_calls_serialize (hashKey : String → UInt64) (maxRegions : UInt64)
    (call : Nat → Call) (estimate : Hll → F64) {actions : List VisitAction} {s : Visiting}
    (h : exec (visitStep hashKey call) (.new maxRegions) actions = some s) :
    let log := transcript (visitStep hashKey call) (visitNotes call) (.new maxRegions) actions
    let visits := visitsOf call log
    s.tracker = trackerAfter hashKey maxRegions visits ∧
    ((decisions log).map Prod.fst).Nodup ∧
    (∀ i, i ∈ (decisions log).map Prod.fst ↔ IsObserve call i ∧ s.calls i = .returned) ∧
    ((∀ i, s.calls i ≠ .counted ∧ s.calls i ≠ .holding) → ∀ region,
      (recordsOf call estimate log).count (totalRecord region) =
        visitsCounted hashKey maxRegions visits region) ∧
    (s.poisoned = false → (∀ i todo, s.calls i ≠ .exporting todo) →
      ∃ moments : List (List Visit), moments.Pairwise (· <+: ·) ∧
        (∀ past ∈ moments, past <+: visits) ∧ ∀ region,
        ((recordsOf call estimate log).filter fun recorded =>
          recorded.name = uniqueVisitorsEstimate ∧ recorded.labels = [("region", region)]) =
        moments.filterMap fun past =>
          ((trackerAfter hashKey maxRegions past).inner.get? region).map
            (estimateRecord estimate region)) := by
  intro log visits
  have hserial : Serial hashKey maxRegions call log s :=
    exec_history (fun _ _ _ _ hs hstep => serial_step hs hstep) h serial_new
  have hcalled : Called call log s :=
    exec_history (fun _ _ _ _ hs hstep => called_step hs hstep) h called_new
  refine ⟨hserial.tracker, hcalled.decidedOnce, hcalled.decided, ?_, ?_⟩
  · intro hrest region
    rw [count_totalRecord]
    exact hcalled.counts hrest region
  · intro hpoisoned hnone
    obtain ⟨moments, hsnapshots⟩ := hserial.snapshots hpoisoned
    refine ⟨moments, hsnapshots.increasing, hsnapshots.past, fun region => ?_⟩
    have hwhole := hsnapshots.whole hnone region
    rw [filter_estimateRecord, hwhole, List.filter_nil, List.append_nil, List.map_filterMap]
    apply List.filterMap_congr
    intro past _
    rw [Option.map_map]
    rfl

end

/-! ## A visit during a snapshot -/

/-- Two visits of one visitor, and a snapshot. -/
def visitCalls (i : Nat) : Call := if i = 2 then .snapshot else .observe "a" "DE"

/-- The visit that begins first finds the lock taken by the snapshot. -/
def visitedRun : List VisitAction :=
  [.count 0, .tryLock 2 [], .count 1, .tryLock 0 [], .release 2, .tryLock 1 [], .fold 1]

theorem visitedRun_serializes :
    ∃ s, exec (visitStep (fun _ => 0) visitCalls) (.new 512) visitedRun = some s ∧
      s.tracker = trackerAfter (fun _ => 0) 512 [⟨"a", "DE", true⟩, ⟨"a", "DE", false⟩] := by
  refine ⟨_, rfl, ?_⟩
  exact (@concurrent_calls_serialize (fun _ => 0) 512 visitCalls (fun _ => F64.zero)
    visitedRun _ rfl).1

end Tonggeret.Visitors
