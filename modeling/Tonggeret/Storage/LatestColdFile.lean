import Mathlib.Data.List.DropRight
import Mathlib.Data.List.ReduceOption
import Tonggeret.StampOrder
import Tonggeret.Storage.RenameThenPurge

/-!
# The newest export

`latest_cold_file` takes the greatest name of the form `metrics_cold_*.parquet`.  That is
the export of the last pass that renamed its temp file, since stamps compare as instants
do and temp names have another form.
-/

namespace Tonggeret.Storage

open Tonggeret.Lib

/-- `Path::extension`: what follows the last dot, unless nothing precedes it. -/
def extension (name : String) : Option String :=
  if name = ".." then none
  else if (name.toList.rdropWhile (· != '.')).length ≤ 1 then none
  else some (String.ofList (name.toList.rtakeWhile (· != '.')))

/-- The filter of `latest_cold_file`. -/
def isColdExport (name : String) : Bool :=
  parquetFilePrefix.toList.isPrefixOf name.toList && extension name == some "parquet"

/-- Newest `metrics_cold_*.parquet` in the cold directory, by the names that reading it
yields, if any; names that cannot be read are skipped. -/
def latestColdFile (readDir : Option (List (Option String))) : Option String := do
  let entries ← readDir
  (entries.reduceOption.filter isColdExport).max?

/-! ## Names -/

theorem rdropWhile_append_dot {p : Char → Bool} (l : List Char) {w : List Char}
    (hw : ∀ c ∈ w, p c = true) (hdot : p '.' = false) :
    (l ++ '.' :: w).rdropWhile p = l ++ ['.'] ∧ (l ++ '.' :: w).rtakeWhile p = w := by
  have hrev : ∀ c ∈ w.reverse, p c = true := fun c hc => hw c (List.mem_reverse.mp hc)
  have hreverse : (l ++ '.' :: w).reverse = w.reverse ++ '.' :: l.reverse := by simp
  constructor
  · rw [List.rdropWhile, hreverse, List.dropWhile_append_of_pos hrev,
      List.dropWhile_cons_of_neg (by simp [hdot])]
    simp
  · rw [List.rtakeWhile, hreverse, List.takeWhile_append_of_pos hrev,
      List.takeWhile_cons_of_neg (by simp [hdot])]
    simp

theorem extension_append_dot {name : String} {before ext : List Char} (hbefore : before ≠ [])
    (hname : name.toList = before ++ '.' :: ext) (hext : '.' ∉ ext) (hne : ext ≠ []) :
    extension name = some (String.ofList ext) := by
  have hdots : ∀ c ∈ ext, (c != '.') = true := by
    intro c hc
    rw [bne_iff_ne]
    rintro rfl
    exact hext hc
  obtain ⟨hdrop, htake⟩ := rdropWhile_append_dot before hdots rfl
  have hparent : name ≠ ".." := by
    rintro rfl
    have hlength := congrArg List.length hname
    have hpos := List.length_pos_of_ne_nil hbefore
    have hpos' := List.length_pos_of_ne_nil hne
    rw [List.length_append, List.length_cons, show "..".toList.length = 2 from rfl] at hlength
    omega
  have hlong : ¬ (before ++ ['.']).length ≤ 1 := by
    have hpos := List.length_pos_of_ne_nil hbefore
    rw [List.length_append, List.length_singleton]
    omega
  rw [extension, if_neg hparent, hname, hdrop, htake, if_neg hlong]

theorem exists_of_extension {name ext : String} (h : extension name = some ext) :
    ∃ before, name.toList = before ++ '.' :: ext.toList := by
  unfold extension at h
  split at h
  · contradiction
  split at h
  · contradiction
  rename_i hlong
  rw [Option.some.injEq] at h
  let before := name.toList.rdropWhile (· != '.')
  have hne : before ≠ [] := by
    intro hnil
    apply hlong
    show before.length ≤ 1
    rw [hnil]
    exact Nat.zero_le 1
  have hlast : before.getLast hne = '.' := by
    simpa using List.rdropWhile_last_not (· != '.') name.toList hne
  refine ⟨before.dropLast, ?_⟩
  have hdot : before.dropLast ++ ['.'] = before := by
    rw [← hlast, List.dropLast_append_getLast hne]
  calc name.toList = before ++ name.toList.rtakeWhile (· != '.') :=
        (List.rdropWhile_append_rtakeWhile).symm
    _ = before.dropLast ++ ['.'] ++ ext.toList := by
        rw [hdot, ← h, String.toList_ofList]
    _ = before.dropLast ++ '.' :: ext.toList := List.append_cons _ _ _ |>.symm

/-- The filter is the form of the published names. -/
theorem isColdExport_eq (name : String) : isColdExport name = isColdFileName name := by
  unfold isColdExport isColdFileName
  cases hinit : parquetFilePrefix.toList.isPrefixOf name.toList with
  | false => rfl
  | true =>
      rw [Bool.true_and, Bool.true_and, Bool.eq_iff_iff, beq_iff_eq,
        List.isSuffixOf_iff_suffix]
      constructor
      · intro h
        obtain ⟨before, hname⟩ := exists_of_extension h
        exact ⟨before, hname.symm⟩
      · rintro ⟨before, hname⟩
        apply extension_append_dot _ hname.symm (by decide) (by decide)
        rintro rfl
        rw [← hname] at hinit
        exact absurd hinit (by decide)

theorem toList_finalName (stamp : String) :
    (finalName stamp).toList =
      parquetFilePrefix.toList ++ (stamp.toList ++ ".parquet".toList) := by
  rw [finalName, String.toList_append, String.toList_append, List.append_assoc]

theorem finalName_le {stamp stamp' : String}
    (hlength : stamp.toList.length = stamp'.toList.length)
    (h : stamp.toList ≤ stamp'.toList) : finalName stamp ≤ finalName stamp' := by
  rw [String.le_iff_toList_le, toList_finalName, toList_finalName, ← not_lt,
    append_lt_append_iff _ _ rfl, append_lt_append_iff _ _ hlength.symm]
  rintro (hinit | ⟨-, hstamp | ⟨-, hsuffix⟩⟩)
  · exact lt_irrefl _ hinit
  · exact absurd h (not_le_of_gt hstamp)
  · exact lt_irrefl _ hsuffix

/-- A later pass publishes under a later name. -/
theorem finalFile_le {env env' : Env} (h : FourDigitYear env.finalizeClock)
    (h' : FourDigitYear env'.finalizeClock) (hle : env.finalizeClock ≤ env'.finalizeClock) :
    finalFile env ≤ finalFile env' := by
  apply finalName_le
  · rw [length_formatStamp h, length_formatStamp h']
  · exact formatStamp_le h h' hle

/-! ## What passes leave -/

section

variable (serde : SerdeJson) (rowsPerBatch : Nat)

/-- A cold directory that passes leave, each stopped at any point.  Between them the
partition changes at will.  The list is that of the passes that completed their rename,
with the files they published. -/
inductive LeftBy : List (Env × ColdFile) → SortedMap String ColdFile → Prop
  | nothing : LeftBy [] SortedMap.empty
  | stopped {done : List (Env × ColdFile)} {disk : Disk} {env : Env} {cfg : FjallConfig}
      {s : PassState} (before : LeftBy done disk.cold)
      (left : s ∈ passStates serde rowsPerBatch env cfg disk)
      (unfinished : s.published = none) : LeftBy done s.disk.cold
  | completed {done : List (Env × ColdFile)} {disk : Disk} {env : Env} {cfg : FjallConfig}
      {file : ColdFile} {s : PassState} (before : LeftBy done disk.cold)
      (left : s ∈ passStates serde rowsPerBatch env cfg disk)
      (renamed : s.published = some file) : LeftBy (done ++ [(env, file)]) s.disk.cold

/-- The exports in the directory are those of the completed passes, and the last one is
as its pass left it. -/
structure Exported (done : List (Env × ColdFile)) (cold : SortedMap String ColdFile) : Prop where
  names : ∀ entry ∈ cold, isColdFileName entry.1 = true → ∃ pass ∈ done, entry.1 = finalFile pass.1
  last : ∀ pass ∈ done.getLast?, (finalFile pass.1, pass.2) ∈ cold ∧
    ∃ rows, WrittenAs pass.1 rows pass.2

variable {serde rowsPerBatch}
variable {done : List (Env × ColdFile)} {env : Env} {cfg : FjallConfig} {disk : Disk}
variable {s : PassState} {cold : SortedMap String ColdFile} {file : ColdFile}

/-- What a pass makes of the directory, stopped at any point. -/
theorem cold_of_mem_passStates (hs : s ∈ passStates serde rowsPerBatch env cfg disk) :
    (s.published = none ∧ ∀ entry, isColdFileName entry.1 = true →
      (entry ∈ s.disk.cold ↔ entry ∈ disk.cold)) ∨
    ∃ file rows, s.published = some file ∧ WrittenAs env rows file ∧
      s.disk.cold = (disk.cold.erase (tmpFile env)).insert (finalFile env) file := by
  cases hcutoff : cutoffMicros cfg.retention env.cutoffClock with
  | error stop =>
      rw [passStates_of_error hcutoff, List.mem_singleton] at hs
      rw [hs]
      exact Or.inl ⟨rfl, fun _ _ => Iff.rfl⟩
  | ok cutoff =>
      have hpass := runCompactionOnceBlocking_triple serde env disk rowsPerBatch cfg hcutoff
      rcases hpass.reached (fun _ _ h => Or.inr h.2) (fun _ _ h => Or.inl h.1) rfl hs with
        hmid | hdone
      · exact Or.inl ⟨hmid.unpublished, hmid.published⟩
      · by_cases hrows : exportRows serde (expired env disk cutoff) = []
        · obtain ⟨hcold, hnone, -⟩ := hdone.idle hrows
          left
          rw [hcold]
          exact ⟨hnone, fun _ _ => Iff.rfl⟩
        · obtain ⟨file, hwritten, hfile, hcold, -⟩ := hdone.exported hrows
          exact Or.inr ⟨file, _, hfile, hwritten, hcold⟩

/-- A pass that has not renamed its temp file has not touched an export. -/
theorem exports_of_unpublished (hs : s ∈ passStates serde rowsPerBatch env cfg disk)
    (hnone : s.published = none) (entry : String × ColdFile)
    (hname : isColdFileName entry.1 = true) : entry ∈ s.disk.cold ↔ entry ∈ disk.cold := by
  rcases cold_of_mem_passStates hs with ⟨-, hsame⟩ | ⟨file, rows, hfile, -⟩
  · exact hsame entry hname
  · rw [hnone] at hfile
    contradiction

theorem Exported.stopped (h : Exported done disk.cold)
    (hs : s ∈ passStates serde rowsPerBatch env cfg disk) (hnone : s.published = none) :
    Exported done s.disk.cold where
  names := by
    intro entry hentry hname
    exact h.names entry ((exports_of_unpublished hs hnone entry hname).mp hentry) hname
  last := by
    intro pass hpass
    obtain ⟨hmem, hwritten⟩ := h.last pass hpass
    have hform : isColdFileName (finalFile pass.1) = true := isColdFileName_finalName _
    exact ⟨(exports_of_unpublished hs hnone (finalFile pass.1, pass.2) hform).mpr hmem, hwritten⟩

theorem Exported.completed (h : Exported done disk.cold)
    (hs : s ∈ passStates serde rowsPerBatch env cfg disk) (hfile : s.published = some file) :
    Exported (done ++ [(env, file)]) s.disk.cold := by
  rcases cold_of_mem_passStates hs with ⟨hnone, -⟩ | ⟨own, rows, hown, hwritten, hcold⟩
  · rw [hfile] at hnone
    contradiction
  obtain rfl : file = own := Option.some.inj (hfile.symm.trans hown)
  constructor
  · intro entry hentry hname
    rw [hcold, SortedMap.mem_insert, SortedMap.mem_erase] at hentry
    rcases hentry with rfl | ⟨⟨hentry, -⟩, -⟩
    · exact ⟨(env, file), by simp, rfl⟩
    · obtain ⟨pass, hpass, hfinal⟩ := h.names entry hentry hname
      exact ⟨pass, List.mem_append_left _ hpass, hfinal⟩
  · intro pass hpass
    rw [List.getLast?_concat, Option.mem_some] at hpass
    rw [hcold, SortedMap.mem_insert, ← hpass]
    exact ⟨Or.inl rfl, rows, hwritten⟩

theorem LeftBy.exported (h : LeftBy serde rowsPerBatch done cold) : Exported done cold := by
  induction h with
  | nothing =>
      constructor
      · intro entry hentry
        exact absurd hentry (SortedMap.notMem_empty entry)
      · intro pass hpass
        contradiction
  | stopped _ left unfinished ih => exact ih.stopped left unfinished
  | completed _ left renamed ih => exact ih.completed left renamed

/-! ## The newest one -/

theorem latestColdFile_eq_max? (listing : List String) :
    latestColdFile (some (listing.map some)) = (listing.filter isColdFileName).max? := by
  have hfilter : isColdExport = isColdFileName := by
    ext name
    rw [isColdExport_eq]
  have hread : (listing.map some).reduceOption = listing := by simp [List.reduceOption]
  show ((listing.map some).reduceOption.filter isColdExport).max? = _
  rw [hfilter, hread]

theorem Exported.latest (h : Exported done cold)
    (hyears : ∀ pass ∈ done, FourDigitYear pass.1.finalizeClock)
    (hclock : done.Pairwise fun pass later => pass.1.finalizeClock ≤ later.1.finalizeClock)
    {listing : List String} (hlisting : listing.Perm (cold.entries.map Prod.fst)) :
    (listing.filter isColdFileName).max? = done.getLast?.map fun pass => finalFile pass.1 := by
  cases done using List.reverseRecOn with
  | nil =>
      rw [List.getLast?_nil, Option.map_none, List.max?_eq_none_iff, List.filter_eq_nil_iff]
      intro name hname hform
      obtain ⟨entry, hentry, rfl⟩ := List.mem_map.mp (hlisting.mem_iff.mp hname)
      obtain ⟨pass, hpass, -⟩ := h.names entry hentry hform
      exact List.not_mem_nil hpass
  | append_singleton done last =>
      rw [List.getLast?_concat, Option.map_some, List.max?_eq_some_iff]
      constructor
      · rw [List.mem_filter, hlisting.mem_iff]
        have hlast := h.last last (by rw [List.getLast?_concat]; exact rfl)
        exact ⟨List.mem_map_of_mem (f := Prod.fst) hlast.1, isColdFileName_finalName _⟩
      · intro name hname
        rw [List.mem_filter, hlisting.mem_iff] at hname
        obtain ⟨hname, hform⟩ := hname
        obtain ⟨entry, hentry, rfl⟩ := List.mem_map.mp hname
        obtain ⟨pass, hpass, hfinal⟩ := h.names entry hentry hform
        have hle : pass.1.finalizeClock ≤ last.1.finalizeClock := by
          rcases List.mem_append.mp hpass with hpass | hpass
          · exact (List.pairwise_append.mp hclock).2.2 pass hpass last (by simp)
          · rw [List.mem_singleton.mp hpass]
        rw [hfinal]
        exact finalFile_le (hyears pass hpass) (hyears last (by simp)) hle

variable (serde rowsPerBatch)

/-- The newest export is that of the last completed pass, as it left it, and it is readable
unless its last bytes could not be written. -/
theorem latest_cold_file_is_last_completed (done : List (Env × ColdFile))
    (cold : SortedMap String ColdFile) (hleft : LeftBy serde rowsPerBatch done cold)
    (hyears : ∀ pass ∈ done, FourDigitYear pass.1.finalizeClock)
    (hclock : done.Pairwise fun pass later => pass.1.finalizeClock ≤ later.1.finalizeClock)
    (listing : List String) (hlisting : listing.Perm (cold.entries.map Prod.fst)) :
    latestColdFile (some (listing.map some)) =
        done.getLast?.map (fun pass => finalFile pass.1) ∧
    (∀ pass ∈ done.getLast?, (finalFile pass.1, pass.2) ∈ cold ∧
      ((∀ i, pass.1.fault i .writeRest = none) → pass.2.closed = true)) ∧
    (latestColdFile (some (listing.map some)) = none ↔ done = []) ∧
    ∀ stamp, latestColdFile (some (listing.map some)) ≠ some (tmpName stamp) := by
  have hexported := hleft.exported
  have hlatest : latestColdFile (some (listing.map some)) =
      done.getLast?.map fun pass => finalFile pass.1 := by
    rw [latestColdFile_eq_max?, hexported.latest hyears hclock hlisting]
  refine ⟨hlatest, ?_, ?_, ?_⟩
  · intro pass hpass
    obtain ⟨hmem, rows, hwritten⟩ := hexported.last pass hpass
    refine ⟨hmem, fun hfree => ?_⟩
    rw [hwritten.whole hfree]
  · rw [hlatest, Option.map_eq_none_iff, List.getLast?_eq_none_iff]
  · intro stamp htmp
    rw [latestColdFile_eq_max?, List.max?_eq_some_iff, List.mem_filter] at htmp
    obtain ⟨⟨-, hform⟩, -⟩ := htmp
    rw [isColdFileName_tmpName] at hform
    contradiction

end

/-- Some days after the quiet one. -/
def quietDayPlus (days : Int) : Env :=
  let now := quietDay.cutoffClock + days * 86400 * nanosPerSecond
  ⟨now, now, now, fun _ => [], fun _ _ => none⟩

/-- The stale row is hot, and this is the cold directory. -/
def coldStart (cold : SortedMap String ColdFile) : Disk := ⟨oneStaleRow.partition, cold⟩

/-- Two passes complete, and the third leaves its temp file behind. -/
theorem latest_after_stopped_pass :
    let pass (env : Env) (cold : SortedMap String ColdFile) := runCompactionOnceBlocking rejectAll
      rowsPerBatch env FjallConfig.default (PassState.start (coldStart cold))
    let first := pass quietDay SortedMap.empty
    let second := pass (quietDayPlus 1) first.final.disk.cold
    let third := pass { quietDayPlus 2 with fault := renameFails } second.final.disk.cold
    third.final.disk.cold.entries.map Prod.fst =
      [".metrics_cold_19700105T000000.parquet.tmp", "metrics_cold_19700103T000000.parquet",
        "metrics_cold_19700104T000000.parquet"] ∧
    latestColdFile (some ((third.final.disk.cold.entries.map Prod.fst).map some)) =
      some "metrics_cold_19700104T000000.parquet" := by
  intro pass first second third
  obtain ⟨firstFile, hfirst⟩ : ∃ file, first.final.published = some file :=
    Option.isSome_iff_exists.mp (by decide +kernel)
  obtain ⟨secondFile, hsecond⟩ : ∃ file, second.final.published = some file :=
    Option.isSome_iff_exists.mp (by decide +kernel)
  have hthird : third.final.published = none := by decide +kernel
  refine ⟨by decide +kernel, ?_⟩
  have hfirstLeft : first.final ∈ passStates rejectAll rowsPerBatch quietDay FjallConfig.default
      (coldStart SortedMap.empty) := Run.final_mem_reached first
  have hsecondLeft : second.final ∈ passStates rejectAll rowsPerBatch (quietDayPlus 1)
      FjallConfig.default (coldStart first.final.disk.cold) :=
    Run.final_mem_reached second
  have hthirdLeft : third.final ∈ passStates rejectAll rowsPerBatch
      { quietDayPlus 2 with fault := renameFails } FjallConfig.default
      (coldStart second.final.disk.cold) := Run.final_mem_reached third
  clear_value third second first
  have hone : LeftBy rejectAll rowsPerBatch ([] ++ [(quietDay, firstFile)]) first.final.disk.cold :=
    .completed .nothing hfirstLeft hfirst
  have htwo := @LeftBy.completed rejectAll rowsPerBatch _ (coldStart _) _ _ _ _ hone hsecondLeft
    hsecond
  have hleft := @LeftBy.stopped rejectAll rowsPerBatch _ (coldStart _) _ _ _ htwo hthirdLeft hthird
  have hfirstYear : FourDigitYear quietDay.finalizeClock := by decide
  have hsecondYear : FourDigitYear (quietDayPlus 1).finalizeClock := by decide
  have hlater : quietDay.finalizeClock ≤ (quietDayPlus 1).finalizeClock := by decide
  rw [(latest_cold_file_is_last_completed rejectAll rowsPerBatch _ _ hleft
    (by simpa using ⟨hfirstYear, hsecondYear⟩) (by simpa using hlater) _ (List.Perm.refl _)).1]
  show some (finalFile (quietDayPlus 1)) = _
  decide +kernel

end Tonggeret.Storage
