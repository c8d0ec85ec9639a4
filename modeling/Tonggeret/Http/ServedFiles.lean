import Tonggeret.Http.ParquetRoute

/-!
# The files that requests are given

What an export holds, over runs in which no pass opens its temp file in the second of one that
is still running.  Each pass then has its temp file to itself, and publishes it only when it
holds the export.
-/

namespace Tonggeret.Middleware

open Tonggeret.Lib Tonggeret.Storage

/-- A pass does not open its temp file in the second of one that is still running. -/
def OpensApart (s : ParquetRoute) : RouteAction → Prop
  | .beginPass _ env _ _ => ∀ q, (s.passes q).ahead ≠ [] → (s.passes q).tmp ≠ tmpFile env
  | _ => True

section

variable (serde : SerdeJson)

/-- The entry is the export of a pass among these actions. -/
def ExportOf (actions : List RouteAction) (entry : String × ColdFile) : Prop :=
  ∃ p env cfg partition, .beginPass p env cfg partition ∈ actions ∧
    PassExport serde env cfg partition entry

/-- What a pass with this temp file has ahead: it writes it, and publishes it only when it
holds the export. -/
inductive Plan (actions : List RouteAction) (cold : SortedMap String ColdFile) (tmp : String) :
    List ColdChange → Prop
  | writes {ahead : List ColdChange} (h : ∀ change ∈ ahead, ∃ file, change = .write tmp file) :
      Plan actions cold tmp ahead
  | publishes {ahead : List ColdChange} {target : String} {file : ColdFile}
      (h : ∀ change ∈ ahead, ∃ file, change = .write tmp file)
      (hexport : ExportOf serde actions (target, file)) :
      Plan actions cold tmp (ahead ++ [.write tmp file, .rename tmp target])
  | renames {target : String} {file : ColdFile} (hheld : (tmp, file) ∈ cold)
      (hexport : ExportOf serde actions (target, file)) :
      Plan actions cold tmp [.rename tmp target]

/-- What a request was given is an export. -/
def RequestServed (actions : List RouteAction) : RoutePc → Prop
  | .answered (.file path found) => ∃ file, found = some file ∧
      ExportOf serde actions (path, file)
  | _ => True

structure RouteSound (actions : List RouteAction) (s : ParquetRoute) : Prop where
  named : RouteNamed s
  exports : ∀ entry ∈ s.cold, isColdFileName entry.1 = true → ExportOf serde actions entry
  plans : ∀ p, Plan serde actions s.cold (s.passes p).tmp (s.passes p).ahead
  apart : ∀ p q, p ≠ q → (s.passes p).ahead ≠ [] → (s.passes q).ahead ≠ [] →
    (s.passes p).tmp ≠ (s.passes q).tmp
  served : ∀ i, RequestServed serde actions (s.requests i)

variable {serde} {rowsPerBatch : Nat}
variable {actions : List RouteAction} {cold cold' : SortedMap String ColdFile} {pc : RoutePc}
variable {s t : ParquetRoute} {tmp : String} {ahead : List ColdChange} {change : ColdChange}
variable {entry : String × ColdFile}

theorem ExportOf.mono (h : ExportOf serde actions entry) (action : RouteAction) :
    ExportOf serde (actions ++ [action]) entry := by
  obtain ⟨p, env, cfg, partition, hmem, hexport⟩ := h
  exact ⟨p, env, cfg, partition, List.mem_append_left _ hmem, hexport⟩

theorem ExportOf.isColdFileName (h : ExportOf serde actions entry) :
    isColdFileName entry.1 = true := by
  obtain ⟨p, env, cfg, partition, -, cutoff, -, -, hname, -⟩ := h
  rw [hname]
  exact isColdFileName_finalName _

theorem RequestServed.mono (h : RequestServed serde actions pc) (action : RouteAction) :
    RequestServed serde (actions ++ [action]) pc := by
  cases pc with
  | answered answer =>
      cases answer with
      | file path found =>
          obtain ⟨file, hfound, hexport⟩ := h
          exact ⟨file, hfound, hexport.mono action⟩
      | notFound body => trivial
  | _ => trivial

theorem RequestServed.coldChanges (h : RequestServed serde actions pc) (names : List String) :
    RequestServed serde actions (pc.coldChanges names) := by
  cases pc with
  | answered answer => exact h
  | _ => trivial

/-! ## Plans -/

theorem mem_applyChange_write {file : ColdFile} :
    entry ∈ applyChange cold (.write tmp file) ↔
      entry = (tmp, file) ∨ entry ∈ cold ∧ entry.1 ≠ tmp := SortedMap.mem_insert

theorem mem_applyChange_rename {file : ColdFile} {target : String}
    (hheld : (tmp, file) ∈ cold) :
    entry ∈ applyChange cold (.rename tmp target) ↔
      entry = (target, file) ∨ (entry ∈ cold ∧ entry.1 ≠ tmp) ∧ entry.1 ≠ target := by
  have hget : cold.get? tmp = some file := SortedMap.get?_eq_some.mpr hheld
  show entry ∈ renameFile cold tmp target ↔ _
  rw [renameFile, hget, SortedMap.mem_insert, SortedMap.mem_erase]

theorem Plan.nil : Plan serde actions cold tmp [] :=
  .writes fun _ hchange => absurd hchange List.not_mem_nil

/-- The next change of a pass writes its temp file, or publishes the export in it. -/
theorem Plan.next (h : Plan serde actions cold tmp (change :: ahead)) :
    (∃ file, change = .write tmp file) ∨
    ∃ target file, change = .rename tmp target ∧ ahead = [] ∧ (tmp, file) ∈ cold ∧
      ExportOf serde actions (target, file) := by
  generalize hnext : change :: ahead = next at h
  cases h with
  | writes h =>
      subst hnext
      exact Or.inl (h change List.mem_cons_self)
  | @publishes writes target file h hexport =>
      left
      cases writes with
      | nil => exact ⟨file, (List.cons.inj hnext).1⟩
      | cons first writes =>
          obtain ⟨file, hfile⟩ := h first List.mem_cons_self
          exact ⟨file, (List.cons.inj hnext).1.trans hfile⟩
  | @renames target file hheld hexport =>
      obtain ⟨rfl, rfl⟩ := List.cons.inj hnext
      exact Or.inr ⟨target, file, rfl, rfl, hheld, hexport⟩

/-- A plan stays one while others leave the temp file alone. -/
theorem Plan.mono (h : Plan serde actions cold tmp ahead) (action : RouteAction)
    (hkept : ∀ file, (tmp, file) ∈ cold → (tmp, file) ∈ cold') :
    Plan serde (actions ++ [action]) cold' tmp ahead := by
  cases h with
  | writes h => exact .writes h
  | publishes h hexport => exact .publishes h (hexport.mono action)
  | renames hheld hexport => exact .renames (hkept _ hheld) (hexport.mono action)

/-- A pass begins with a plan. -/
theorem plan_of_passChanges {p : Nat} {env : Env} {cfg : FjallConfig}
    {partition : SortedMap Bytes Bytes} (hbegun : .beginPass p env cfg partition ∈ actions) :
    Plan serde actions cold (tmpFile env)
      (passChanges serde env rowsPerBatch cfg partition) := by
  rcases passChanges_cases serde env rowsPerBatch cfg partition with
    hwrites | ⟨file, ⟨writes, hchanges, hwrites⟩, hexport⟩
  · exact .writes hwrites
  · rw [hchanges]
    exact .publishes hwrites ⟨p, env, cfg, partition, hbegun, hexport⟩

/-- After its next change a pass has the rest of its plan ahead. -/
theorem Plan.step (h : Plan serde actions cold tmp (change :: ahead)) (action : RouteAction) :
    Plan serde (actions ++ [action]) (applyChange cold change) tmp ahead := by
  generalize hnext : change :: ahead = next at h
  cases h with
  | writes h =>
      subst hnext
      exact .writes fun later hlater => h later (List.mem_cons_of_mem _ hlater)
  | @publishes writes target file h hexport =>
      cases writes with
      | nil =>
          obtain ⟨rfl, rfl⟩ := List.cons.inj hnext
          exact .renames (mem_applyChange_write.mpr (Or.inl rfl)) (hexport.mono action)
      | cons first writes =>
          obtain ⟨rfl, rfl⟩ := List.cons.inj hnext
          exact .publishes (fun later hlater => h later (List.mem_cons_of_mem _ hlater))
            (hexport.mono action)
  | renames hheld hexport =>
      obtain ⟨rfl, rfl⟩ := List.cons.inj hnext
      exact .nil

/-- The exports after a change are those before and the one that is published. -/
theorem Plan.exports (h : Plan serde actions cold tmp (change :: ahead))
    (htmp : isColdFileName tmp = false) (hentry : entry ∈ applyChange cold change)
    (hform : isColdFileName entry.1 = true) : entry ∈ cold ∨ ExportOf serde actions entry := by
  rcases h.next with ⟨file, rfl⟩ | ⟨target, file, rfl, -, hheld, hexport⟩
  · rcases mem_applyChange_write.mp hentry with rfl | ⟨hold, -⟩
    · rw [hform] at htmp
      contradiction
    · exact Or.inl hold
  · rcases (mem_applyChange_rename hheld).mp hentry with rfl | ⟨⟨hold, -⟩, -⟩
    · exact Or.inr hexport
    · exact Or.inl hold

/-- A change of one pass leaves the temp files of others alone. -/
theorem Plan.keeps (h : Plan serde actions cold tmp (change :: ahead)) (hentry : entry ∈ cold)
    (hother : entry.1 ≠ tmp) (hform : isColdFileName entry.1 = false) :
    entry ∈ applyChange cold change := by
  rcases h.next with ⟨file, rfl⟩ | ⟨target, file, rfl, -, hheld, hexport⟩
  · exact mem_applyChange_write.mpr (Or.inr ⟨hentry, hother⟩)
  · apply (mem_applyChange_rename hheld).mpr
    refine Or.inr ⟨⟨hentry, hother⟩, ?_⟩
    intro heq
    rw [heq, hexport.isColdFileName] at hform
    contradiction

/-! ## Runs in which passes open their temp files apart -/

theorem routeSound_start : RouteSound serde [] ParquetRoute.start where
  named := routeNamed_start
  exports := fun entry hentry => absurd hentry (SortedMap.notMem_empty entry)
  plans := fun _ => .nil
  apart := fun _ _ _ hahead => absurd rfl hahead
  served := fun _ => trivial

/-- Of a step that only moves one request, what that request is given is to be shown. -/
theorem RouteSound.setRequest (h : RouteSound serde actions s) (action : RouteAction) {i : Nat}
    (hnamed : RouteNamed (s.setRequest i pc))
    (hpc : RequestServed serde (actions ++ [action]) pc) :
    RouteSound serde (actions ++ [action]) (s.setRequest i pc) where
  named := hnamed
  exports := fun entry hentry hform => (h.exports entry hentry hform).mono action
  plans := fun p => (h.plans p).mono action fun _ hheld => hheld
  apart := h.apart
  served := by
    intro j
    rw [ParquetRoute.requests_setRequest]
    by_cases hj : j = i
    · rw [if_pos hj]
      exact hpc
    · rw [if_neg hj]
      exact (h.served j).mono action

/-- Of a step that only moves one pass, its plan is to be shown, and that its temp file is not
that of another that runs. -/
theorem RouteSound.setPass (h : RouteSound serde actions s) (action : RouteAction) {p : Nat}
    {pass : RunningPass} (hnamed : RouteNamed (s.setPass p pass))
    (hplan : Plan serde (actions ++ [action]) s.cold pass.tmp pass.ahead)
    (hapart : pass.ahead ≠ [] → ∀ q, q ≠ p → (s.passes q).ahead ≠ [] →
      (s.passes q).tmp ≠ pass.tmp) :
    RouteSound serde (actions ++ [action]) (s.setPass p pass) where
  named := hnamed
  exports := fun entry hentry hform => (h.exports entry hentry hform).mono action
  plans := by
    intro q
    rw [ParquetRoute.passes_setPass]
    by_cases hq : q = p
    · rw [if_pos hq]
      exact hplan
    · rw [if_neg hq]
      exact (h.plans q).mono action fun _ hheld => hheld
  apart := by
    intro q r hne
    rw [ParquetRoute.passes_setPass, ParquetRoute.passes_setPass]
    by_cases hq : q = p
    · have hr : r ≠ p := fun hr => hne (hq.trans hr.symm)
      rw [if_pos hq, if_neg hr]
      exact fun hahead hother => (hapart hahead r hr hother).symm
    · rw [if_neg hq]
      by_cases hr : r = p
      · rw [if_pos hr]
        exact fun hother hahead => hapart hahead q hq hother
      · rw [if_neg hr]
        exact h.apart q r hne
  served := fun i => (h.served i).mono action

/-- When one pass changes the directory, the others keep their plans. -/
theorem RouteSound.plans_stay (h : RouteSound serde actions s) (action : RouteAction)
    {p q : Nat} (hahead : (s.passes p).ahead = change :: ahead) (hne : q ≠ p) :
    Plan serde (actions ++ [action]) (applyChange s.cold change) (s.passes q).tmp
      (s.passes q).ahead := by
  by_cases hidle : (s.passes q).ahead = []
  · rw [hidle]
    exact .nil
  · have hplan := h.plans p
    rw [hahead] at hplan
    have hrunning : (s.passes p).ahead ≠ [] := hahead ▸ List.cons_ne_nil _ _
    apply (h.plans q).mono action
    intro file hheld
    exact hplan.keeps hheld (h.apart q p hne hidle hrunning) (h.named.tmps q)

theorem routeSound_step {action : RouteAction} (h : RouteSound serde actions s)
    (hopens : OpensApart s action) (hstep : routeStep serde rowsPerBatch s action = some t) :
    RouteSound serde (actions ++ [action]) t := by
  have hnamed := routeNamed_step h.named hstep
  cases routeStep_cases hstep with
  | @beginPass p env cfg partition hfree =>
      apply h.setPass _ hnamed
      · exact plan_of_passChanges (List.mem_append_right _ (List.mem_singleton_self _))
      · exact fun _ q _ hother => hopens q hother
  | @passStep p change ahead hahead =>
      have hplan := h.plans p
      rw [hahead] at hplan
      have hrunning : (s.passes p).ahead ≠ [] := hahead ▸ List.cons_ne_nil _ _
      refine ⟨hnamed, ?_, ?_, ?_, ?_⟩
      · intro entry hentry hform
        rcases hplan.exports (h.named.tmps p) hentry hform with hold | hnew
        · exact (h.exports entry hold hform).mono _
        · exact hnew.mono _
      · intro q
        rw [ParquetRoute.tmp_setAhead, ParquetRoute.ahead_setAhead]
        by_cases hq : q = p
        · rw [if_pos hq, hq]
          exact hplan.step _
        · rw [if_neg hq]
          exact h.plans_stay _ hahead hq
      · have hran : ∀ q, (((s.changeCold change).setAhead p ahead).passes q).ahead ≠ [] →
            (s.passes q).ahead ≠ [] := by
          intro q hq
          rw [ParquetRoute.ahead_setAhead] at hq
          by_cases hqp : q = p
          · rw [hqp]
            exact hrunning
          · rwa [if_neg hqp] at hq
        intro q r hne hq hr
        rw [ParquetRoute.tmp_setAhead, ParquetRoute.tmp_setAhead]
        exact h.apart q r hne (hran q hq) (hran r hr)
      · exact fun i => ((h.served i).mono _).coldChanges _
  | @passStops p =>
      apply h.setPass _ hnamed .nil
      exact fun hahead => absurd rfl hahead
  | beginRead hpc => exact h.setRequest _ hnamed trivial
  | @readDir i entries seen steady hpc hread =>
      apply h.setRequest _ hnamed
      cases latestColdFile entries with
      | none => trivial
      | some path => trivial
  | @openFile i path hpc =>
      apply h.setRequest _ hnamed
      have hpath := h.named.requests i
      rw [hpc] at hpath
      obtain ⟨hkey, hform⟩ := mem_exportNames.mp hpath
      obtain ⟨file, hfile⟩ := SortedMap.mem_keys.mp hkey
      have hexport := h.exports (path, file) hfile hform
      exact ⟨file, SortedMap.get?_eq_some.mpr hfile, hexport.mono _⟩

theorem routeSound {actions : List RouteAction}
    (h : exec (routeStep serde rowsPerBatch) ParquetRoute.start actions = some s)
    (hapart : Throughout (routeStep serde rowsPerBatch) OpensApart ParquetRoute.start actions) :
    RouteSound serde actions s := by
  have hsound : RouteSound serde
      (transcript (routeStep serde rowsPerBatch) (fun _ a => [a]) ParquetRoute.start actions) s :=
    exec_history_of (fun _ _ _ _ hs hopens hstep => routeSound_step hs hopens hstep) h hapart
      routeSound_start
  rwa [transcript_actions h] at hsound

variable (serde rowsPerBatch)

/-- Where no pass opens its temp file in the second of one that still runs, what `ServeFile` is
given is there when it opens it, and is the export of one pass: the whole one, in a closed
file, unless that pass could not write its last bytes.  No request is served a temp file or a
part of an export. -/
theorem served_files_are_whole_exports {actions : List RouteAction} {s : ParquetRoute}
    (h : exec (routeStep serde rowsPerBatch) ParquetRoute.start actions = some s)
    (hapart : Throughout (routeStep serde rowsPerBatch) OpensApart ParquetRoute.start actions)
    {i : Nat} {path : String} {found : Option ColdFile}
    (hanswer : s.requests i = .answered (.file path found)) :
    ∃ file p env cfg partition, found = some file ∧
      .beginPass p env cfg partition ∈ actions ∧
      PassExport serde env cfg partition (path, file) ∧
      ((∀ i, env.fault i .writeRest = none) → file.closed = true ∧ file.rows ≠ []) := by
  have hserved := (routeSound h hapart).served i
  rw [hanswer] at hserved
  obtain ⟨file, hfound, p, env, cfg, partition, hbegun, hexport⟩ := hserved
  refine ⟨file, p, env, cfg, partition, hfound, hbegun, hexport, ?_⟩
  intro hwritten
  obtain ⟨cutoff, -, hrows, -, hfile⟩ := hexport
  rw [show file = _ from hfile.whole hwritten]
  exact ⟨rfl, hrows⟩

/-- Where no pass opens its temp file in the second of one that still runs, over partitions with
the writer's keys, a served file lists its rows in the order of their timestamps, all before
the cutoff of its pass. -/
theorem served_rows_are_chronological {actions : List RouteAction} {s : ParquetRoute}
    (h : exec (routeStep serde rowsPerBatch) ParquetRoute.start actions = some s)
    (hapart : Throughout (routeStep serde rowsPerBatch) OpensApart ParquetRoute.start actions)
    (hkeys : ∀ p env cfg partition, .beginPass p env cfg partition ∈ actions →
      EncodedKeys (snapshot env ⟨partition, SortedMap.empty⟩))
    {i : Nat} {path : String} {file : ColdFile}
    (hanswer : s.requests i = .answered (.file path (some file))) :
    file.rows.Pairwise (fun row later => row.ts ≤ later.ts) ∧
    ∃ p env cfg partition cutoff, .beginPass p env cfg partition ∈ actions ∧
      cutoffMicros cfg.retention env.cutoffClock = .ok cutoff ∧
      ∀ row ∈ file.rows, row.ts < cutoff.toNat := by
  have hserved := (routeSound h hapart).served i
  rw [hanswer] at hserved
  obtain ⟨found, hfound, p, env, cfg, partition, hbegun, hexport⟩ := hserved
  obtain rfl := Option.some.inj hfound
  obtain ⟨hordered, cutoff, hcutoff, hbefore⟩ :=
    hexport.chronological (hkeys p env cfg partition hbegun)
  exact ⟨hordered, p, env, cfg, partition, cutoff, hbegun, hcutoff, hbefore⟩

end

/-! ## A request while two passes run -/

theorem servedDuringPass_opensApart :
    Throughout (routeStep rejectAll rowsPerBatch) OpensApart ParquetRoute.start
      servedDuringPass := by
  refine ⟨fun q hq => absurd rfl hq, fun s hs => ⟨trivial, fun t ht => ⟨?_, fun u _ => ?_⟩⟩⟩
  · intro q _
    obtain rfl := Option.some.inj hs
    cases routeStep_cases ht with
    | passStep hahead =>
        rw [ParquetRoute.tmp_setAhead]
        show ((ParquetRoute.start.setPass 0 _).passes q).tmp ≠ _
        rw [ParquetRoute.passes_setPass]
        by_cases hq : q = 0
        · rw [if_pos hq]
          decide +kernel
        · rw [if_neg hq]
          show "" ≠ tmpFile (quietDayPlus 1)
          decide +kernel
  · apply throughout_of_mem
    simp [OpensApart]

theorem begun_of_mem_servedDuringPass {p : Nat} {env : Env} {cfg : FjallConfig}
    {partition : SortedMap Bytes Bytes} (h : .beginPass p env cfg partition ∈ servedDuringPass) :
    (env = quietDay ∨ env = quietDayPlus 1) ∧ partition = oneStaleRow.partition := by
  rcases (by simpa [servedDuringPass] using h :
    (p = 0 ∧ env = quietDay ∧ cfg = FjallConfig.default ∧ partition = oneStaleRow.partition) ∨
    (p = 1 ∧ env = quietDayPlus 1 ∧ cfg = FjallConfig.default ∧
      partition = oneStaleRow.partition)) with ⟨-, henv, -, hpartition⟩ | ⟨-, henv, -, hpartition⟩
  · exact ⟨Or.inl henv, hpartition⟩
  · exact ⟨Or.inr henv, hpartition⟩

theorem servedDuringPass_whole :
    ∃ s, exec (routeStep rejectAll rowsPerBatch) ParquetRoute.start servedDuringPass = some s ∧
      ∃ file, s.requests 0 = .answered (.file quietExport (some file)) ∧ file.rows ≠ [] := by
  obtain ⟨s, hrun, hanswer, -⟩ := servedDuringPass_answer
  obtain ⟨file, p, env, cfg, partition, hfound, hbegun, -, hwhole⟩ :=
    served_files_are_whole_exports rejectAll rowsPerBatch hrun servedDuringPass_opensApart hanswer
  have hwritten : ∀ i, env.fault i .writeRest = none := by
    rcases (begun_of_mem_servedDuringPass hbegun).1 with rfl | rfl
    · exact fun _ => rfl
    · exact fun _ => rfl
  obtain rfl := Option.some.inj hfound
  exact ⟨s, hrun, _, hanswer, (hwhole hwritten).2⟩

theorem servedDuringPass_chronological :
    ∃ s, exec (routeStep rejectAll rowsPerBatch) ParquetRoute.start servedDuringPass = some s ∧
      ∃ file, s.requests 0 = .answered (.file quietExport (some file)) ∧
        file.rows.Pairwise fun row later => row.ts ≤ later.ts := by
  obtain ⟨s, hrun, hanswer, -⟩ := servedDuringPass_answer
  have hkeys : ∀ p env cfg partition, .beginPass p env cfg partition ∈ servedDuringPass →
      EncodedKeys (snapshot env ⟨partition, SortedMap.empty⟩) := by
    intro p env cfg partition hbegun
    obtain ⟨rfl | rfl, rfl⟩ := begun_of_mem_servedDuringPass hbegun
    · exact encodedKeys_oneStaleRow
    · exact encodedKeys_oneStaleRow
  have hordered := (served_rows_are_chronological rejectAll rowsPerBatch hrun
    servedDuringPass_opensApart hkeys hanswer).1
  exact ⟨s, hrun, _, hanswer, hordered⟩

end Tonggeret.Middleware
