import Mathlib.Logic.Function.Basic
import Tonggeret.Storage.ColdDirectory
import Tonggeret.Storage.ExportNames

/-!
# The Parquet route

Requests for the newest export while passes run.  A request reads the cold directory, which
may change meanwhile, takes the greatest name, and hands that path to `ServeFile`, which
opens it later.  Passes may overlap, and each may be stopped at any point; since a pass does
not look at the directory, what it will do there is known when it begins.

Two passes that open their temp files in the same second write to one file.  Of a run with
such passes only the names of the exports are told.
-/

namespace Tonggeret.Middleware

open Tonggeret.Lib Tonggeret.Storage

/-- How a request ends.  `found` is what `ServeFile` finds under its path. -/
inductive RouteAnswer
  | file (path : String) (found : Option ColdFile)
  | notFound (body : String)
deriving DecidableEq

/-- Where a request stands.  While it reads the directory, `seen` are the names that were
there at some moment and `steady` those that were there all the while. -/
inductive RoutePc
  | idle
  | listing (seen steady : List String)
  | opening (path : String)
  | answered (answer : RouteAnswer)
deriving DecidableEq

/-- A running pass: its temp file, and what it has yet to do to the directory. -/
structure RunningPass where
  tmp : String
  ahead : List ColdChange

structure ParquetRoute where
  cold : SortedMap String ColdFile
  passes : Nat → RunningPass
  requests : Nat → RoutePc

inductive RouteAction
  | beginPass (p : Nat) (env : Env) (cfg : FjallConfig) (partition : SortedMap Bytes Bytes)
  | passStep (p : Nat)
  | passStops (p : Nat)
  | beginRead (i : Nat)
  | readDir (i : Nat) (entries : Option (List (Option String)))
  | openFile (i : Nat)

/-- The body of the 404. -/
def noExportYet : String :=
  "no parquet export available yet (compaction has not exported any keys)"

/-- What `serve_latest` does with the result of `latest_cold_file`. -/
def serveLatest : Option String → RoutePc
  | some path => .opening path
  | none => .answered (.notFound noExportYet)

/-- The directory changes while the request reads it. -/
def RoutePc.coldChanges (names : List String) : RoutePc → RoutePc
  | .listing seen steady => .listing (seen ++ names) (steady.filter (· ∈ names))
  | pc => pc

/-- What reading a directory that changes may yield: no name that was never there, and,
unless an entry cannot be read, every name that was there all the while. -/
def MayRead (seen steady : List String) : Option (List (Option String)) → Prop
  | none => True
  | some entries => (∀ name ∈ entries.reduceOption, name ∈ seen) ∧
      (none ∈ entries ∨ ∀ name ∈ steady, some name ∈ entries)

instance (seen steady : List String) (entries : Option (List (Option String))) :
    Decidable (MayRead seen steady entries) :=
  match entries with
  | none => .isTrue trivial
  | some entries => inferInstanceAs (Decidable ((∀ name ∈ entries.reduceOption, name ∈ seen) ∧
      (none ∈ entries ∨ ∀ name ∈ steady, some name ∈ entries)))

namespace ParquetRoute

def start : ParquetRoute := ⟨SortedMap.empty, fun _ => ⟨"", []⟩, fun _ => .idle⟩

def setPass (s : ParquetRoute) (p : Nat) (pass : RunningPass) : ParquetRoute :=
  { s with passes := Function.update s.passes p pass }

def setRequest (s : ParquetRoute) (i : Nat) (pc : RoutePc) : ParquetRoute :=
  { s with requests := Function.update s.requests i pc }

/-- What the pass has yet to do. -/
def setAhead (s : ParquetRoute) (p : Nat) (ahead : List ColdChange) : ParquetRoute :=
  s.setPass p ⟨(s.passes p).tmp, ahead⟩

/-- The directory changes under the requests that read it. -/
def changeCold (s : ParquetRoute) (change : ColdChange) : ParquetRoute :=
  let cold := applyChange s.cold change
  { s with cold, requests := fun i => (s.requests i).coldChanges cold.keys }

theorem passes_setPass (s : ParquetRoute) (p : Nat) (pass : RunningPass) (x : Nat) :
    (s.setPass p pass).passes x = if x = p then pass else s.passes x :=
  Function.update_apply s.passes p pass x

theorem ahead_setAhead (s : ParquetRoute) (p : Nat) (ahead : List ColdChange) (x : Nat) :
    ((s.setAhead p ahead).passes x).ahead = if x = p then ahead else (s.passes x).ahead := by
  rw [setAhead, passes_setPass]
  split <;> rfl

theorem tmp_setAhead (s : ParquetRoute) (p : Nat) (ahead : List ColdChange) (x : Nat) :
    ((s.setAhead p ahead).passes x).tmp = (s.passes x).tmp := by
  rw [setAhead, passes_setPass]
  by_cases hx : x = p
  · rw [if_pos hx, hx]
  · rw [if_neg hx]

theorem requests_setRequest (s : ParquetRoute) (i : Nat) (pc : RoutePc) (x : Nat) :
    (s.setRequest i pc).requests x = if x = i then pc else s.requests x :=
  Function.update_apply s.requests i pc x

end ParquetRoute

section

variable (serde : SerdeJson) (rowsPerBatch : Nat)

def routeStep (s : ParquetRoute) : RouteAction → Option ParquetRoute
  | .beginPass p env cfg partition =>
      match (s.passes p).ahead with
      | [] => some (s.setPass p
          ⟨tmpFile env, passChanges serde env rowsPerBatch cfg partition⟩)
      | _ :: _ => none
  | .passStep p =>
      match (s.passes p).ahead with
      | [] => none
      | change :: ahead =>
          some ((s.changeCold change).setAhead p ahead)
  | .passStops p => some (s.setAhead p [])
  | .beginRead i =>
      match s.requests i with
      | .idle => some (s.setRequest i (.listing s.cold.keys s.cold.keys))
      | _ => none
  | .readDir i entries =>
      match s.requests i with
      | .listing seen steady =>
          if MayRead seen steady entries then
            some (s.setRequest i (serveLatest (latestColdFile entries)))
          else none
      | _ => none
  | .openFile i =>
      match s.requests i with
      | .opening path => some (s.setRequest i (.answered (.file path (s.cold.get? path))))
      | _ => none

/-- Every branch of a step with its guard and its effect. -/
inductive RouteEffect (s : ParquetRoute) : RouteAction → ParquetRoute → Prop
  | beginPass {p : Nat} {env : Env} {cfg : FjallConfig} {partition : SortedMap Bytes Bytes}
      (hfree : (s.passes p).ahead = []) :
      RouteEffect s (.beginPass p env cfg partition) (s.setPass p
        ⟨tmpFile env, passChanges serde env rowsPerBatch cfg partition⟩)
  | passStep {p : Nat} {change : ColdChange} {ahead : List ColdChange}
      (hahead : (s.passes p).ahead = change :: ahead) :
      RouteEffect s (.passStep p) ((s.changeCold change).setAhead p ahead)
  | passStops {p : Nat} :
      RouteEffect s (.passStops p) (s.setAhead p [])
  | beginRead {i : Nat} (hpc : s.requests i = .idle) :
      RouteEffect s (.beginRead i) (s.setRequest i (.listing s.cold.keys s.cold.keys))
  | readDir {i : Nat} {entries : Option (List (Option String))} {seen steady : List String}
      (hpc : s.requests i = .listing seen steady) (hread : MayRead seen steady entries) :
      RouteEffect s (.readDir i entries) (s.setRequest i (serveLatest (latestColdFile entries)))
  | openFile {i : Nat} {path : String} (hpc : s.requests i = .opening path) :
      RouteEffect s (.openFile i)
        (s.setRequest i (.answered (.file path (s.cold.get? path))))

variable {serde rowsPerBatch} {s t : ParquetRoute}

/-- Inversion: an enabled action is one of the branches. -/
theorem routeStep_cases {action : RouteAction}
    (h : routeStep serde rowsPerBatch s action = some t) :
    RouteEffect serde rowsPerBatch s action t := by
  cases action with
  | beginPass p env cfg partition =>
      simp only [routeStep] at h
      split at h
      · obtain rfl := Option.some.inj h
        exact .beginPass ‹_›
      · contradiction
  | passStep p =>
      simp only [routeStep] at h
      split at h
      · contradiction
      · obtain rfl := Option.some.inj h
        exact .passStep ‹_›
  | passStops p =>
      obtain rfl := Option.some.inj h
      exact .passStops
  | beginRead i =>
      simp only [routeStep] at h
      split at h
      · obtain rfl := Option.some.inj h
        exact .beginRead ‹_›
      · contradiction
  | readDir i entries =>
      simp only [routeStep] at h
      split at h
      · split at h
        · obtain rfl := Option.some.inj h
          exact .readDir ‹_› ‹_›
        · contradiction
      · contradiction
  | openFile i =>
      simp only [routeStep] at h
      split at h
      · obtain rfl := Option.some.inj h
        exact .openFile ‹_›
      · contradiction

theorem exec_passSteps {p : Nat} {changes rest : List ColdChange}
    (hahead : (s.passes p).ahead = changes ++ rest) :
    ∃ t, exec (routeStep serde rowsPerBatch) s (changes.map fun _ => .passStep p) = some t ∧
      t.cold = changes.foldl applyChange s.cold ∧ (t.passes p).ahead = rest := by
  induction changes generalizing s with
  | nil => exact ⟨s, rfl, rfl, hahead⟩
  | cons change changes ih =>
      have hstep : routeStep serde rowsPerBatch s (.passStep p) =
          some ((s.changeCold change).setAhead p (changes ++ rest)) := by
        simp only [routeStep, hahead, List.cons_append]
      have hnext : (((s.changeCold change).setAhead p (changes ++ rest)).passes p).ahead =
          changes ++ rest := by
        rw [ParquetRoute.ahead_setAhead, if_pos rfl]
      obtain ⟨t, hrun, hcold, hrest⟩ := ih hnext
      refine ⟨t, ?_, hcold, hrest⟩
      simp only [List.map_cons, exec, hstep, Option.bind_some]
      exact hrun

/-- Whatever a pass leaves when it is stopped, the route may find. -/
theorem exec_stopped_pass {p : Nat} {env : Env} {cfg : FjallConfig}
    {partition : SortedMap Bytes Bytes} (hfree : (s.passes p).ahead = []) {left : PassState}
    (hleft : left ∈ passStates serde rowsPerBatch env cfg ⟨partition, s.cold⟩) :
    ∃ steps t, exec (routeStep serde rowsPerBatch) s
        (.beginPass p env cfg partition :: (steps ++ [.passStops p])) = some t ∧
      t.cold = left.disk.cold ∧ (t.passes p).ahead = [] := by
  obtain ⟨rest, hchanges, hcold⟩ := changes_of_mem_passStates hleft
  have hbegin : routeStep serde rowsPerBatch s (.beginPass p env cfg partition) =
      some (s.setPass p ⟨tmpFile env, passChanges serde env rowsPerBatch cfg partition⟩) := by
    simp only [routeStep, hfree]
  have hahead : ((s.setPass p
      ⟨tmpFile env, passChanges serde env rowsPerBatch cfg partition⟩).passes p).ahead =
      left.changes ++ rest := by
    rw [ParquetRoute.passes_setPass, if_pos rfl]
    exact hchanges
  obtain ⟨t, hrun, hmade, -⟩ := @exec_passSteps serde rowsPerBatch _ _ _ _ hahead
  refine ⟨left.changes.map fun _ => .passStep p, t.setAhead p [], ?_, hmade.trans hcold.symm, ?_⟩
  · simp only [exec, hbegin, Option.bind_some]
    rw [exec_append hrun]
    rfl
  · rw [ParquetRoute.ahead_setAhead, if_pos rfl]

end

/-! ## The names that requests are given -/

section

/-- What a request has seen of the exports is still there. -/
def RequestNamed (cold : SortedMap String ColdFile) : RoutePc → Prop
  | .idle => True
  | .listing seen _ => ∀ name ∈ seen, isColdFileName name = true → name ∈ exportNames cold
  | .opening path => path ∈ exportNames cold
  | .answered (.file path _) => path ∈ exportNames cold
  | .answered (.notFound body) => body = noExportYet

structure RouteNamed (s : ParquetRoute) : Prop where
  tmps : ∀ p, isColdFileName (s.passes p).tmp = false
  concerns : ∀ p, ∀ change ∈ (s.passes p).ahead, Concerns (s.passes p).tmp change
  requests : ∀ i, RequestNamed s.cold (s.requests i)

variable {serde : SerdeJson} {rowsPerBatch : Nat}
variable {cold cold' : SortedMap String ColdFile} {pc : RoutePc} {s t : ParquetRoute}

theorem latestColdFile_mem {entries : Option (List (Option String))} {path : String}
    (h : latestColdFile entries = some path) :
    ∃ names, entries = some names ∧ path ∈ names.reduceOption ∧ isColdFileName path = true := by
  cases entries with
  | none => contradiction
  | some names =>
      have hmax : (names.reduceOption.filter isColdExport).max? = some path := h
      obtain ⟨hmem, hform⟩ := List.mem_filter.mp (List.max?_eq_some_iff.mp hmax).1
      rw [isColdExport_eq] at hform
      exact ⟨names, rfl, hmem, hform⟩

theorem mem_exportNames {name : String} :
    name ∈ exportNames cold ↔ name ∈ cold.keys ∧ isColdFileName name = true := Iff.rfl

theorem RequestNamed.mono (h : RequestNamed cold pc)
    (hstay : exportNames cold ⊆ exportNames cold') : RequestNamed cold' pc := by
  cases pc with
  | idle => trivial
  | listing seen steady => exact fun name hname hform => hstay (h name hname hform)
  | opening path => exact hstay h
  | answered answer =>
      cases answer with
      | notFound body => exact h
      | file path found => exact hstay h

theorem RequestNamed.coldChanges (h : RequestNamed cold pc) :
    RequestNamed cold (pc.coldChanges cold.keys) := by
  cases pc with
  | listing seen steady =>
      intro name hname hform
      rcases List.mem_append.mp hname with hseen | hnow
      · exact h name hseen hform
      · exact mem_exportNames.mpr ⟨hnow, hform⟩
  | idle => exact h
  | opening path => exact h
  | answered answer => exact h

theorem routeNamed_start : RouteNamed ParquetRoute.start where
  tmps := fun _ => rfl
  concerns := fun _ _ hchange => absurd hchange List.not_mem_nil
  requests := fun _ => trivial

/-- Of a step that only moves one pass, what that pass has ahead is to be shown. -/
theorem RouteNamed.setPass (h : RouteNamed s) {p : Nat} {pass : RunningPass}
    (htmp : isColdFileName pass.tmp = false)
    (hconcerns : ∀ change ∈ pass.ahead, Concerns pass.tmp change) :
    RouteNamed (s.setPass p pass) where
  tmps := by
    intro q
    rw [ParquetRoute.passes_setPass]
    by_cases hq : q = p
    · rw [if_pos hq]
      exact htmp
    · rw [if_neg hq]
      exact h.tmps q
  concerns := by
    intro q
    rw [ParquetRoute.passes_setPass]
    by_cases hq : q = p
    · rw [if_pos hq]
      exact hconcerns
    · rw [if_neg hq]
      exact h.concerns q
  requests := h.requests

/-- A pass is no further than its changes. -/
theorem RouteNamed.setAhead (h : RouteNamed s) {p : Nat} {ahead : List ColdChange}
    (hahead : ∀ change ∈ ahead, change ∈ (s.passes p).ahead) : RouteNamed (s.setAhead p ahead) :=
  h.setPass (h.tmps p) fun change hchange => h.concerns p change (hahead change hchange)

theorem RouteNamed.setRequest (h : RouteNamed s) {i : Nat} (hpc : RequestNamed s.cold pc) :
    RouteNamed (s.setRequest i pc) where
  tmps := h.tmps
  concerns := h.concerns
  requests := by
    intro j
    rw [ParquetRoute.requests_setRequest]
    by_cases hj : j = i
    · rw [if_pos hj]
      exact hpc
    · rw [if_neg hj]
      exact h.requests j

/-- No step of a pass takes an export away. -/
theorem RouteNamed.exports_stay (h : RouteNamed s) {p : Nat} {change : ColdChange}
    (hchange : change ∈ (s.passes p).ahead) :
    exportNames s.cold ⊆ exportNames (applyChange s.cold change) :=
  exportNames_applyChange (h.tmps p) (h.concerns p change hchange)

theorem routeNamed_step {action : RouteAction} (h : RouteNamed s)
    (hstep : routeStep serde rowsPerBatch s action = some t) : RouteNamed t := by
  cases routeStep_cases hstep with
  | @beginPass p env cfg partition hfree =>
      apply h.setPass
      · exact isColdFileName_tmpName _
      · exact fun change hchange => concerns_of_mem_passChanges hchange
  | @passStep p change ahead hahead =>
      have hchange : change ∈ (s.passes p).ahead := hahead ▸ List.mem_cons_self
      have hstay := h.exports_stay hchange
      have hnow : RouteNamed (s.changeCold change) :=
        ⟨h.tmps, h.concerns, fun i => ((h.requests i).mono hstay).coldChanges⟩
      apply hnow.setAhead
      exact fun later hlater => hahead ▸ List.mem_cons_of_mem _ hlater
  | passStops => exact h.setAhead fun change hchange => absurd hchange List.not_mem_nil
  | beginRead hpc =>
      apply h.setRequest
      exact fun name hname hform => mem_exportNames.mpr ⟨hname, hform⟩
  | @readDir i entries seen steady hpc hread =>
      apply h.setRequest
      cases hlatest : latestColdFile entries with
      | none => exact rfl
      | some path =>
          obtain ⟨names, rfl, hmem, hform⟩ := latestColdFile_mem hlatest
          have hseen := h.requests i
          rw [hpc] at hseen
          exact hseen path (hread.1 path hmem) hform
  | @openFile i path hpc =>
      apply h.setRequest
      have hpath := h.requests i
      rw [hpc] at hpath
      exact hpath

theorem routeNamed {actions : List RouteAction}
    (h : exec (routeStep serde rowsPerBatch) ParquetRoute.start actions = some s) :
    RouteNamed s :=
  (Reaches.of_exec h).invariant (fun _ _ _ hs _ hstep => routeNamed_step hs hstep)
    routeNamed_start

end

/-! ## Later requests -/

section

/-- Every directory entry could be read. -/
def Readable (i : Nat) (action : RouteAction) : Prop :=
  ∀ entries, action = .readDir i entries → ∃ names : List String, entries = some (names.map some)

/-- The request is not given less than this export. -/
def AtLeast (name : String) : RoutePc → Prop
  | .idle => True
  | .listing _ steady => name ∈ steady
  | .opening path => name ≤ path
  | .answered (.file path _) => name ≤ path
  | .answered (.notFound _) => False

/-- The export is there, and the request is not given less. -/
structure Floor (name : String) (i : Nat) (s : ParquetRoute) : Prop where
  there : name ∈ exportNames s.cold
  request : AtLeast name (s.requests i)

variable {serde : SerdeJson} {rowsPerBatch : Nat} {s t : ParquetRoute} {pc : RoutePc}
variable {name : String} {i : Nat}

theorem Floor.setRequest (h : Floor name i s) {j : Nat} (hpc : j = i → AtLeast name pc) :
    Floor name i (s.setRequest j pc) where
  there := h.there
  request := by
    rw [ParquetRoute.requests_setRequest]
    by_cases hij : i = j
    · rw [if_pos hij]
      exact hpc hij.symm
    · rw [if_neg hij]
      exact h.request

theorem AtLeast.coldChanges {names : List String} (h : AtLeast name pc) (hname : name ∈ names) :
    AtLeast name (pc.coldChanges names) := by
  cases pc with
  | listing seen steady => exact List.mem_filter.mpr ⟨h, decide_eq_true hname⟩
  | idle => trivial
  | opening path => exact h
  | answered answer => exact h

theorem floor_step {action : RouteAction} (hnamed : RouteNamed s) (h : Floor name i s)
    (hread : Readable i action) (hstep : routeStep serde rowsPerBatch s action = some t) :
    Floor name i t := by
  cases routeStep_cases hstep with
  | beginPass hfree => exact ⟨h.there, h.request⟩
  | @passStep p change ahead hahead =>
      have hchange : change ∈ (s.passes p).ahead := hahead ▸ List.mem_cons_self
      have hthere : name ∈ exportNames (applyChange s.cold change) :=
        hnamed.exports_stay hchange h.there
      exact ⟨hthere, h.request.coldChanges (mem_exportNames.mp hthere).1⟩
  | passStops => exact ⟨h.there, h.request⟩
  | beginRead hpc => exact h.setRequest fun _ => (mem_exportNames.mp h.there).1
  | @readDir j entries seen steady hpc hmay =>
      apply h.setRequest
      rintro rfl
      obtain ⟨names, rfl⟩ := hread entries rfl
      have hsteady := h.request
      rw [hpc] at hsteady
      have hlisted : name ∈ names := by
        rcases hmay.2 with hfailed | hall
        · simp at hfailed
        · simpa using hall name hsteady
      have hform : name ∈ names.filter isColdFileName :=
        List.mem_filter.mpr ⟨hlisted, (mem_exportNames.mp h.there).2⟩
      rw [latestColdFile_eq_max?]
      cases hmax : (names.filter isColdFileName).max? with
      | none =>
          rw [List.max?_eq_none_iff] at hmax
          exact absurd hform (hmax ▸ List.not_mem_nil)
      | some path => exact (List.max?_eq_some_iff.mp hmax).2 name hform
  | @openFile j path hpc =>
      apply h.setRequest
      rintro rfl
      have hpath := h.request
      rw [hpc] at hpath
      exact hpath

variable (serde rowsPerBatch)

/-- However passes overlap, a request that begins to read later is given an export that is no
older than any that was there before, so no older than any that was served before. -/
theorem reads_do_not_go_back {first second : List RouteAction} {mid s : ParquetRoute}
    (hfirst : exec (routeStep serde rowsPerBatch) ParquetRoute.start first = some mid)
    (hsecond : exec (routeStep serde rowsPerBatch) mid second = some s) {i : Nat}
    (hidle : mid.requests i = .idle)
    (hreadable : ∀ entries, .readDir i entries ∈ second →
      ∃ names : List String, entries = some (names.map some))
    {answer : RouteAnswer} (hanswer : s.requests i = .answered answer) :
    (∀ name ∈ exportNames mid.cold, ∃ path found, answer = .file path found ∧ name ≤ path) ∧
    (∀ j earlier found₀, mid.requests j = .answered (.file earlier found₀) →
      ∃ path found, answer = .file path found ∧ earlier ≤ path) ∧
    (exportNames s.cold = ∅ → answer = .notFound noExportYet) := by
  have hnamed := routeNamed hfirst
  have hreach : Reaches (routeStep serde rowsPerBatch) (fun _ a => Readable i a) mid s := by
    apply Reaches.of_exec_mem hsecond
    intro a ha _ entries hentries
    exact hreadable entries (hentries ▸ ha)
  have hnewest : ∀ name ∈ exportNames mid.cold,
      ∃ path found, answer = .file path found ∧ name ≤ path := by
    intro name hname
    have hfloor : Floor name i mid := by
      refine ⟨hname, ?_⟩
      rw [hidle]
      trivial
    have hkeep : ∀ u action v, RouteNamed u ∧ Floor name i u → Readable i action →
        routeStep serde rowsPerBatch u action = some v → RouteNamed v ∧ Floor name i v :=
      fun _ _ _ hu hread hstep =>
        ⟨routeNamed_step hu.1 hstep, floor_step hu.1 hu.2 hread hstep⟩
    have hgiven := (hreach.invariant hkeep ⟨hnamed, hfloor⟩).2.request
    rw [hanswer] at hgiven
    cases answer with
    | file path found => exact ⟨path, found, rfl, hgiven⟩
    | notFound body => exact hgiven.elim
  refine ⟨hnewest, ?_, ?_⟩
  · intro j earlier found₀ hearlier
    have hserved := hnamed.requests j
    rw [hearlier] at hserved
    exact hnewest earlier hserved
  · intro hnone
    have hgiven := (hreach.invariant (fun _ _ _ hu _ hstep => routeNamed_step hu hstep)
      hnamed).requests i
    rw [hanswer] at hgiven
    cases answer with
    | file path found =>
        have hpath : path ∈ exportNames s.cold := hgiven
        rw [hnone] at hpath
        exact absurd hpath (Set.notMem_empty path)
    | notFound body => exact congrArg RouteAnswer.notFound hgiven

end

/-! ## A request while two passes run -/

def quietExport : String := "metrics_cold_19700103T000000.parquet"

def quietTmp : String := tmpName "19700103T000000"

def nextTmp : String := tmpName "19700104T000000"

/-- The request begins to read when there are only the two temp files, and reads on after the
first of them has been renamed. -/
def servedDuringPass : List RouteAction :=
  [.beginPass 0 quietDay FjallConfig.default oneStaleRow.partition, .passStep 0,
    .beginPass 1 (quietDayPlus 1) FjallConfig.default oneStaleRow.partition, .passStep 1,
    .beginRead 0, .passStep 0, .passStep 0,
    .readDir 0 (some [some quietTmp, some nextTmp, some quietExport]), .openFile 0]

def servedAgain : List RouteAction :=
  [.beginRead 1, .readDir 1 (some ([nextTmp, quietExport].map some)), .openFile 1]

theorem servedDuringPass_answer :
    ∃ s, exec (routeStep rejectAll rowsPerBatch) ParquetRoute.start servedDuringPass = some s ∧
      s.requests 0 = .answered (.file quietExport (some ⟨[staleRow], true⟩)) ∧
      s.requests 1 = .idle :=
  ⟨_, rfl, by decide +kernel⟩

theorem servedAgain_no_older :
    ∃ mid s, exec (routeStep rejectAll rowsPerBatch) ParquetRoute.start servedDuringPass =
        some mid ∧
      exec (routeStep rejectAll rowsPerBatch) mid servedAgain = some s ∧
      ∃ path found, s.requests 1 = .answered (.file path found) ∧ quietExport ≤ path := by
  obtain ⟨mid, hfirst, hserved, hidle⟩ := servedDuringPass_answer
  obtain ⟨s, hsecond, hanswer⟩ : ∃ s,
      exec (routeStep rejectAll rowsPerBatch) mid servedAgain = some s ∧
      s.requests 1 = .answered (.file quietExport (some ⟨[staleRow], true⟩)) := by
    obtain rfl : _ = mid := Option.some.inj hfirst
    exact ⟨_, rfl, by decide +kernel⟩
  have hreadable : ∀ entries, .readDir 1 entries ∈ servedAgain →
      ∃ names : List String, entries = some (names.map some) := by
    intro entries hread
    obtain rfl : entries = some ([nextTmp, quietExport].map some) := by
      simpa [servedAgain] using hread
    exact ⟨[nextTmp, quietExport], rfl⟩
  obtain ⟨-, hlater, -⟩ := reads_do_not_go_back rejectAll rowsPerBatch hfirst hsecond hidle
    hreadable hanswer
  obtain ⟨path, found, hgiven, hle⟩ := hlater 0 quietExport _ hserved
  exact ⟨mid, s, hfirst, hsecond, path, found, hanswer.trans (congrArg _ hgiven), hle⟩

end Tonggeret.Middleware
