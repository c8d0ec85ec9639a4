import Mathlib.Order.CompletePartialOrder
import Tonggeret.Storage.LatestColdFile
import Tonggeret.Storage.MovedRows
import Tonggeret.Storage.PassChanges

/-!
# Exports during a pass

Others look at the cold directory while passes run.  A pass writes its temp file, and in the
end renames it when its writer is gone.  No change takes an export away, and the one that
appears is whole, unless the temp file's last bytes could not be written.
-/

namespace Tonggeret.Storage

open Tonggeret.Lib Tonggeret.Lib.Prog

/-- The names of the exports in the cold directory. -/
def exportNames (cold : SortedMap String ColdFile) : Set String :=
  {name | name ∈ cold.keys ∧ isColdFileName name = true}

section

variable (serde : SerdeJson) (env : Env) (cfg : FjallConfig)

/-- The export of a pass over this partition: all its decodable expired rows, in a file
that is readable unless its last bytes could not be written. -/
def PassExport (partition : SortedMap Bytes Bytes) (entry : String × ColdFile) : Prop :=
  ∃ cutoff, cutoffMicros cfg.retention env.cutoffClock = .ok cutoff ∧
    exportRows serde (expired env ⟨partition, SortedMap.empty⟩ cutoff) ≠ [] ∧
    entry.1 = finalFile env ∧
    WrittenAs env (exportRows serde (expired env ⟨partition, SortedMap.empty⟩ cutoff)) entry.2

end

/-! ## The order of the rows -/

theorem saturateI64_le (ts : UInt64) : saturateI64 ts ≤ ts.toNat := by
  unfold saturateI64
  by_cases hfits : ts.toNat < 2 ^ 63
  · rw [if_pos hfits]
  · rw [if_neg hfits]
    omega

theorem saturateI64_mono {ts later : UInt64} (h : ts.toNat ≤ later.toNat) :
    saturateI64 ts ≤ saturateI64 later := by
  unfold saturateI64
  by_cases hfits : later.toNat < 2 ^ 63
  · rw [if_pos hfits, if_pos (h.trans_lt hfits)]
    exact Int.ofNat_le.mpr h
  · rw [if_neg hfits]
    by_cases hts : ts.toNat < 2 ^ 63
    · rw [if_pos hts]
      omega
    · rw [if_neg hts]

section

variable {serde : SerdeJson} {entry later : Bytes × Bytes} {row row' : Row}

theorem ts_of_exportRow {ts : UInt64} {seq : UInt32} {name : String}
    (hkey : entry.1 = encodeKey ts seq name) (hrow : exportRow serde entry = some row) :
    row.ts = saturateI64 ts := by
  rw [exportRow, hkey, decodeKey_encodeKey] at hrow
  obtain rfl := Option.some.inj hrow
  rfl

/-- The order of the keys is the order of their timestamps. -/
theorem ts_le_of_key_lt {m : SortedMap Bytes Bytes} (hkeys : EncodedKeys m) (hentry : entry ∈ m)
    (hlater : later ∈ m) (hlt : entry.1 < later.1) (hrow : exportRow serde entry = some row)
    (hrow' : exportRow serde later = some row') : row.ts ≤ row'.ts := by
  obtain ⟨ts, seq, name, hkey⟩ := hkeys entry hentry
  obtain ⟨ts', seq', name', hkey'⟩ := hkeys later hlater
  rw [hkey, hkey', encodeKey_lt_iff] at hlt
  rw [ts_of_exportRow hkey hrow, ts_of_exportRow hkey' hrow']
  apply saturateI64_mono
  rcases hlt with hbefore | ⟨rfl, -⟩
  · exact (UInt64.lt_iff_toNat_lt.mp hbefore).le
  · exact le_rfl

variable {env : Env} {cfg : FjallConfig} {partition : SortedMap Bytes Bytes}
variable {file : String × ColdFile}

/-- The rows of an export are in the order of their timestamps, all before the cutoff. -/
theorem PassExport.chronological (h : PassExport serde env cfg partition file)
    (hkeys : EncodedKeys (snapshot env ⟨partition, SortedMap.empty⟩)) :
    file.2.rows.Pairwise (fun row later => row.ts ≤ later.ts) ∧
    ∃ cutoff, cutoffMicros cfg.retention env.cutoffClock = .ok cutoff ∧
      ∀ row ∈ file.2.rows, row.ts < cutoff.toNat := by
  obtain ⟨cutoff, hcutoff, -, -, hwritten⟩ := h
  have hrows : file.2.rows.Sublist
      (exportRows serde (expired env ⟨partition, SortedMap.empty⟩ cutoff)) := by
    rcases hwritten with ⟨hfile, -⟩ | ⟨hfile, -⟩
    · rw [hfile]
    · rw [hfile]
      exact List.nil_sublist _
  let disk : Disk := ⟨partition, SortedMap.empty⟩
  have hscanned : ∀ entry ∈ expired env disk cutoff,
      entry ∈ snapshot env disk ∧ entry.1 < utf8 (cutoffPrefix cutoff) :=
    fun entry hentry => SortedMap.mem_below.mp hentry
  constructor
  · have hsorted : (expired env disk cutoff).Pairwise fun entry later =>
        entry.1 < later.1 := (snapshot env disk).sorted.filter _
    apply List.Pairwise.sublist hrows
    apply List.pairwise_filterMap.mpr
    apply hsorted.imp_of_mem
    intro entry later hentry hlater hlt row hrow row' hrow'
    exact ts_le_of_key_lt hkeys (hscanned entry hentry).1 (hscanned later hlater).1 hlt hrow hrow'
  · refine ⟨cutoff, hcutoff, ?_⟩
    intro row hrow
    obtain ⟨entry, hentry, hexport⟩ := List.mem_filterMap.mp (hrows.subset hrow)
    obtain ⟨hmem, hbelow⟩ := hscanned entry hentry
    obtain ⟨ts, seq, name, hkey⟩ := hkeys entry hmem
    rw [hkey, encodeKey_lt_cutoffPrefix_iff, UInt64.lt_iff_toNat_lt] at hbelow
    rw [ts_of_exportRow hkey hexport]
    calc saturateI64 ts ≤ ts.toNat := saturateI64_le ts
      _ < cutoff.toNat := Int.ofNat_lt.mpr hbelow

end

/-! ## Exports and changes -/

section

variable (serde : SerdeJson) (env : Env) (n : Nat) (cfg : FjallConfig)
variable (partition : SortedMap Bytes Bytes)

/-- A pass only writes its temp file, or it publishes its export and is through. -/
theorem passChanges_cases :
    (∀ change ∈ passChanges serde env n cfg partition, WritesTmp env change) ∨
    ∃ file, Publishes env file (passChanges serde env n cfg partition) ∧
      PassExport serde env cfg partition (finalFile env, file) := by
  let disk : Disk := ⟨partition, SortedMap.empty⟩
  have hfinal : (runCompactionOnceBlocking serde n env cfg (PassState.start disk)).final ∈
      passStates serde n env cfg disk := Run.final_mem_reached _
  cases hcutoff : cutoffMicros cfg.retention env.cutoffClock with
  | error stop =>
      rw [passStates_of_error hcutoff, List.mem_singleton] at hfinal
      left
      rw [passChanges, hfinal]
      exact fun change hchange => absurd hchange List.not_mem_nil
  | ok cutoff =>
      have hpass := runCompactionOnceBlocking_triple serde env disk n cfg hcutoff
      rcases hpass.reached (fun _ _ h => Or.inr h.2) (fun _ _ h => Or.inl h.1) rfl hfinal with
        hmid | hdone
      · exact Or.inl hmid.changes
      · by_cases hrows : exportRows serde (expired env disk cutoff) = []
        · left
          rw [passChanges, (hdone.idle hrows).2.2]
          exact fun change hchange => absurd hchange List.not_mem_nil
        · obtain ⟨file, hwritten, -, -, hpublishes⟩ := hdone.exported hrows
          exact Or.inr ⟨file, hpublishes, cutoff, hcutoff, hrows, rfl, hwritten⟩

end

section

variable {cold : SortedMap String ColdFile} {tmp : String} {change : ColdChange}

/-- The change writes this temp file, or renames it. -/
def Concerns (tmp : String) : ColdChange → Prop
  | .write name _ => name = tmp
  | .rename source _ => source = tmp

theorem concerns_of_mem_passChanges {serde : SerdeJson} {env : Env} {n : Nat} {cfg : FjallConfig}
    {partition : SortedMap Bytes Bytes} (h : change ∈ passChanges serde env n cfg partition) :
    Concerns (tmpFile env) change := by
  have hwrites : ∀ change, WritesTmp env change → Concerns (tmpFile env) change := by
    rintro _ ⟨file, rfl⟩
    exact rfl
  rcases passChanges_cases serde env n cfg partition with
    honly | ⟨file, ⟨writes, hchanges, honly⟩, -⟩
  · exact hwrites change (honly change h)
  · rw [hchanges, List.mem_append] at h
    rcases h with hwrite | hend
    · exact hwrites change (honly change hwrite)
    · rcases List.mem_pair.mp hend with rfl | rfl <;> exact rfl

/-- A change that concerns a temp file takes no export away. -/
theorem exportNames_applyChange (htmp : isColdFileName tmp = false) (h : Concerns tmp change) :
    exportNames cold ⊆ exportNames (applyChange cold change) := by
  rintro name ⟨hmem, hform⟩
  cases change with
  | write other file => exact ⟨SortedMap.mem_keys_insert.mpr (Or.inr hmem), hform⟩
  | rename source target =>
      obtain rfl : source = tmp := h
      show name ∈ exportNames (renameFile cold source target)
      unfold renameFile
      cases cold.get? source with
      | none => exact ⟨hmem, hform⟩
      | some file =>
          have hne : name ≠ source := by
            rintro rfl
            rw [hform] at htmp
            contradiction
          obtain ⟨other, hother⟩ := SortedMap.mem_keys.mp hmem
          have hkept : (name, other) ∈ cold.erase source :=
            SortedMap.mem_erase.mpr ⟨hother, hne⟩
          refine ⟨SortedMap.mem_keys_insert.mpr (Or.inr ?_), hform⟩
          exact SortedMap.mem_keys.mpr ⟨other, hkept⟩

end

end Tonggeret.Storage
