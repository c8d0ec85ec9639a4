import Tonggeret.Lib.Transition
import Tonggeret.Storage.RenameThenPurge

/-!
# The cold directory over many passes

Exports are named after the second in which they are finalized, and the rename
replaces a file of that name.  Published rows stay as long as no pass publishes
under a name that is already taken.
-/

namespace Tonggeret.Storage

open Tonggeret.Lib

inductive StoreAction
  | insert (rows : List (Bytes × Bytes))
  | pass (env : Env) (cfg : FjallConfig)

section

variable (serde : SerdeJson) (rowsPerBatch : Nat)

/-- Rows arrive, or a compaction pass runs from its start to its return. -/
def storeStep (disk : Disk) : StoreAction → Option Disk
  | .insert rows => some { disk with partition := disk.partition.insertAll rows }
  | .pass env cfg =>
      let run := runCompactionOnceBlocking serde rowsPerBatch env cfg (PassState.start disk)
      some run.final.disk

/-- The pass has rows to export. -/
def HasExport (disk : Disk) (env : Env) (cfg : FjallConfig) : Prop :=
  ∃ cutoff, cutoffMicros cfg.retention env.cutoffClock = .ok cutoff ∧
    exportRows serde (expired env disk cutoff) ≠ []

/-- A pass with rows to export finds its final name unused. -/
def FreshTarget (disk : Disk) : StoreAction → Prop
  | .insert _ => True
  | .pass env cfg =>
      HasExport serde disk env cfg → finalFile env ∉ disk.cold.entries.map Prod.fst

variable {serde rowsPerBatch}
variable {env : Env} {cfg : FjallConfig} {disk : Disk} {row : Row}

theorem Finished.published_of_fresh {items : List (Bytes × Bytes)} {s : PassState}
    (h : Finished serde env disk items s)
    (hfresh : exportRows serde items ≠ [] →
      finalFile env ∉ disk.cold.entries.map Prod.fst)
    (hrow : disk.Published row) : s.disk.Published row := by
  obtain ⟨entry, hmem, hname, hrest⟩ := hrow
  refine ⟨entry, ?_, hname, hrest⟩
  rw [SortedMap.mem_entries]
  by_cases hrows : exportRows serde items = []
  · rw [(h.idle hrows).1]
    exact hmem
  · have htmp : entry.1 ≠ tmpFile env := by
      intro heq
      rw [heq, tmpFile, isColdFileName_tmpName] at hname
      contradiction
    have hfinal : entry.1 ≠ finalFile env := by
      intro heq
      exact hfresh hrows (heq ▸ List.mem_map_of_mem hmem)
    obtain ⟨file, -, -, hcold, -⟩ := h.exported hrows
    rw [hcold, SortedMap.mem_insert, SortedMap.mem_erase]
    exact Or.inr ⟨⟨hmem, htmp⟩, hfinal⟩

/-- At every moment of a pass with a fresh target the earlier exports are there. -/
theorem published_of_mem_passStates (hfresh : FreshTarget serde disk (.pass env cfg))
    (hrow : disk.Published row) {s : PassState}
    (hs : s ∈ passStates serde rowsPerBatch env cfg disk) : s.disk.Published row := by
  cases hcutoff : cutoffMicros cfg.retention env.cutoffClock with
  | error stop =>
      rw [passStates_of_error hcutoff, List.mem_singleton] at hs
      rw [hs]
      exact hrow
  | ok cutoff =>
      have hpass := runCompactionOnceBlocking_triple serde env disk rowsPerBatch cfg hcutoff
      rcases hpass.reached (fun _ _ h => Or.inr h.2) (fun _ _ h => Or.inl h.1) rfl hs with
        hmid | hdone
      · exact hmid.published_iff.mpr hrow
      · exact hdone.published_of_fresh (fun hrows => hfresh ⟨cutoff, hcutoff, hrows⟩) hrow

theorem published_storeStep {action : StoreAction} {disk' : Disk}
    (hrow : disk.Published row) (hfresh : FreshTarget serde disk action)
    (hstep : storeStep serde rowsPerBatch disk action = some disk') :
    disk'.Published row := by
  cases action with
  | insert rows =>
      obtain rfl : { disk with partition := disk.partition.insertAll rows } = disk' := by
        simpa [storeStep] using hstep
      exact hrow
  | pass env cfg =>
      obtain rfl := Option.some.inj hstep
      exact published_of_mem_passStates hfresh hrow (Run.final_mem_reached _)

/-- A published row stays published in every run whose passes find their target
names unused, and at every moment of a further such pass. -/
theorem published_rows_stay {disk' : Disk}
    (hrun : Reaches (storeStep serde rowsPerBatch) (FreshTarget serde) disk disk')
    (hrow : disk.Published row) :
    disk'.Published row ∧
    ∀ env cfg, FreshTarget serde disk' (.pass env cfg) →
      ∀ s ∈ passStates serde rowsPerBatch env cfg disk', s.disk.Published row := by
  have hstay : disk'.Published row := by
    apply hrun.invariant (I := fun d => d.Published row) _ hrow
    intro d action d' hd hfresh hstep
    exact published_storeStep hd hfresh hstep
  exact ⟨hstay, fun env cfg hfresh s hs => published_of_mem_passStates hfresh hstay hs⟩

end

/-! ## Two passes in one second -/

def staleRow : Row := ⟨0, "stale_total", F64.zero, "unknown", "{}"⟩

/-- A second stale row is recorded after the first pass. -/
def secondStaleRow : StoreAction := .insert [(encodeKey 1 0 "stale_total", [])]

def passAt (delay : Int) : StoreAction :=
  .pass { quietDay with finalizeClock := quietDay.finalizeClock + delay } FjallConfig.default

def afterFirstPass : Disk :=
  (runCompactionOnceBlocking rejectAll rowsPerBatch quietDay FjallConfig.default
    (PassState.start oneStaleRow)).final.disk

theorem published_stays_one_second_later :
    ∃ disk', exec (storeStep rejectAll rowsPerBatch) afterFirstPass
        [secondStaleRow, passAt nanosPerSecond] = some disk' ∧ disk'.Published staleRow := by
  refine ⟨_, rfl, (@published_rows_stay rejectAll rowsPerBatch _ _ _
    (.next (a := passAt nanosPerSecond)
      (.next (a := secondStaleRow) (.refl afterFirstPass) trivial rfl) ?_ rfl) ?_).1⟩
  · intro _
    decide +kernel
  · decide +kernel

/-- A pass that finalizes in the same second replaces the first export. -/
theorem export_replaced_in_same_second :
    ∃ disk₁ disk₂,
      exec (storeStep rejectAll rowsPerBatch) oneStaleRow [passAt 0] = some disk₁ ∧
      disk₁.Published staleRow ∧
      exec (storeStep rejectAll rowsPerBatch) disk₁ [secondStaleRow, passAt 0] =
        some disk₂ ∧
      ¬ disk₂.Published staleRow :=
  ⟨_, _, rfl, by decide +kernel, rfl, by decide +kernel⟩

end Tonggeret.Storage
