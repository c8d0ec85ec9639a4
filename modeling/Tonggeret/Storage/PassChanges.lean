import Tonggeret.Lib.Alike
import Tonggeret.Lib.Rises
import Tonggeret.Storage.RenameThenPurge

/-!
# What a pass does to the cold directory

Others look at the cold directory while a pass runs, and other passes change it.  A pass does
not look at it: its changes depend on its partition and its surroundings only, and whenever
it is stopped it has made a first part of them.
-/

namespace Tonggeret.Storage

open Tonggeret.Lib Tonggeret.Lib.Prog

/-- The same moment over another cold directory. -/
def PassState.overCold (s : PassState) (cold : SortedMap String ColdFile)
    (published : Option ColdFile) : PassState :=
  { s with disk := { s.disk with cold }, published }

/-! ## The steps of a pass -/

/-- A step that leaves the cold directory alone. -/
structure LeavesCold (f : PassState → PassState) : Prop where
  changes : ∀ s, (f s).changes = s.changes
  blind : ∀ s cold published, f (s.overCold cold published) = (f s).overCold cold published

/-- A step that makes this change. -/
def MakesChange (change : ColdChange) (f : PassState → PassState) : Prop :=
  ∀ s, ∃ published, f s = { s.changeCold change with published }

/-- What holds of the parts of a program and of what is put together of them.  No part looks
at the cold directory. -/
structure PassRules (J : {α : Type} → Pass α → Prop) : Prop where
  pure {α : Type} (a : α) : J (Pure.pure a : Pass α)
  fail {α : Type} (stop : PassStop) : J (Prog.fail stop : Pass α)
  bind {α β : Type} {m : Pass α} {f : α → Pass β} (hm : J m) (hf : ∀ a, J (f a)) : J (m >>= f)
  look {α : Type} {f : PassState → Pass α}
    (hblind : ∀ s cold published, f (s.overCold cold published) = f s) (hf : ∀ s, J (f s)) :
    J (Prog.read >>= f)
  leave {f : PassState → PassState} (hf : LeavesCold f) : J (Prog.update f)
  change {f : PassState → PassState} {change : ColdChange} (hf : MakesChange change f) :
    J (Prog.update f)

theorem leavesCold_id : LeavesCold id := ⟨fun _ => rfl, fun _ _ _ => rfl⟩

theorem makesChange_changeCold (change : ColdChange) :
    MakesChange change fun s => s.changeCold change := fun s => ⟨s.published, rfl⟩

namespace PassRules

variable {J : {α : Type} → Pass α → Prop} (rules : PassRules J)
variable (serde : SerdeJson) (env : Env) (n : Nat)

include rules

theorem forEach {ι : Type} {body : ι → Pass Unit} (h : ∀ x, J (body x)) (l : List ι) :
    J (Prog.forEach body l) := by
  induction l with
  | nil => exact rules.pure ()
  | cons x l ih => exact rules.bind (h x) fun _ => ih

theorem attempt (op : IoOp) : J (attempt env op) := by
  unfold Storage.attempt
  apply rules.look
  · exact fun _ _ _ => rfl
  intro s
  apply rules.bind
  · exact rules.leave ⟨fun _ => rfl, fun _ _ _ => rfl⟩
  · exact fun _ => rules.pure _

theorem io (op : IoOp) (wrap : String → Error) {effect : PassState → PassState}
    (h : J (Prog.update effect)) : J (io env op wrap effect) := by
  unfold Storage.io
  apply rules.bind (rules.attempt env op)
  intro fault
  cases fault with
  | some e => exact rules.fail _
  | none => exact h

theorem ioOrWarn (op : IoOp) {effect : PassState → PassState} (h : J (Prog.update effect)) :
    J (ioOrWarn env op effect) := by
  unfold Storage.ioOrWarn
  apply rules.bind (rules.attempt env op)
  intro fault
  cases fault with
  | some e => exact rules.pure ()
  | none => exact h

theorem purgeKey (key : Bytes) : J (purgeKey env key) := by
  unfold Storage.purgeKey
  apply rules.bind
  · exact rules.leave ⟨fun _ => rfl, fun _ _ _ => rfl⟩
  intro _
  apply rules.ioOrWarn
  exact rules.leave ⟨fun _ => rfl, fun _ _ _ => rfl⟩

theorem flush : J (flush env) := by
  unfold Storage.flush
  apply rules.look
  · exact fun _ _ _ => rfl
  intro s
  by_cases hlen : s.pending.len = 0
  · rw [if_pos hlen]
    apply rules.bind
    · exact rules.leave ⟨fun _ => rfl, fun _ _ _ => rfl⟩
    · exact fun _ => rules.pure 0
  rw [if_neg hlen]
  apply rules.bind
  · exact rules.leave ⟨fun _ => rfl, fun _ _ _ => rfl⟩
  intro _
  cases s.pending.recordBatch with
  | error e => exact rules.fail _
  | ok batch =>
      apply rules.bind (rules.io env _ _ (rules.leave leavesCold_id))
      intro _
      cases s.exporter with
      | none => exact rules.fail _
      | some writer =>
          apply rules.bind
          · apply rules.io
            exact rules.leave ⟨fun _ => rfl, fun _ _ _ => rfl⟩
          intro _
          apply rules.bind (rules.forEach (rules.purgeKey env) _)
          exact fun _ => rules.pure batch.length

theorem flushAndCount : J (flushAndCount env) := by
  unfold Storage.flushAndCount
  apply rules.bind (rules.flush env)
  exact fun _ => rules.leave ⟨fun _ => rfl, fun _ _ _ => rfl⟩

theorem openExportWriter : J (openExportWriter env) := by
  unfold Storage.openExportWriter
  apply rules.bind (rules.io env _ _ (rules.change (makesChange_changeCold _)))
  intro _
  apply rules.bind (rules.io env _ _ (rules.leave leavesCold_id))
  exact fun _ => rules.pure _

theorem scanItem (item : Bytes × Bytes) : J (scanItem serde n env item) := by
  obtain ⟨key, value⟩ := item
  have hpush : ∀ ts name, J (do
      Prog.update fun s => { s with
        pending := s.pending.push ts name (decodeValue serde value).1
          (decodeValue serde value).2.1 (decodeValue serde value).2.2 key }
      let s ← Prog.read
      if n ≤ s.pending.len then Storage.flushAndCount env) := by
    intro ts name
    apply rules.bind
    · exact rules.leave ⟨fun _ => rfl, fun _ _ _ => rfl⟩
    intro _
    apply rules.look
    · exact fun _ _ _ => rfl
    intro s
    by_cases hfull : n ≤ s.pending.len
    · rw [if_pos hfull]
      exact rules.flushAndCount env
    · rw [if_neg hfull]
      exact rules.pure ()
  unfold Storage.scanItem
  apply rules.bind (rules.io env _ _ (rules.leave leavesCold_id))
  intro _
  cases decodeKey key with
  | none => exact rules.leave ⟨fun _ => rfl, fun _ _ _ => rfl⟩
  | some decoded =>
      obtain ⟨ts, name⟩ := decoded
      apply rules.look
      · exact fun _ _ _ => rfl
      intro s
      by_cases hopen : s.exporter.isNone = true
      · rw [if_pos hopen]
        apply rules.bind (rules.openExportWriter env)
        intro writer
        apply rules.bind
        · exact rules.leave ⟨fun _ => rfl, fun _ _ _ => rfl⟩
        exact fun _ => hpush ts name
      · rw [if_neg hopen]
        exact hpush ts name

theorem finalizeExport (writer : ExportWriter) : J (finalizeExport env writer) := by
  unfold Storage.finalizeExport
  apply rules.bind (rules.io env _ _ (rules.leave leavesCold_id))
  intro _
  apply rules.bind
  · exact rules.ioOrWarn env _ (rules.change (makesChange_changeCold _))
  intro _
  apply rules.io
  exact rules.change fun s => ⟨_, rfl⟩

theorem finishPass : J (finishPass env) := by
  unfold Storage.finishPass
  apply rules.look
  · exact fun _ _ _ => rfl
  intro s
  cases s.exporter with
  | none => exact rules.pure ()
  | some writer =>
      apply rules.bind (rules.finalizeExport env writer)
      exact fun _ => rules.ioOrWarn env _ (rules.leave leavesCold_id)

/-- What the rules prove holds of every pass. -/
theorem pass (cfg : FjallConfig) : J (runCompactionOnceBlocking serde n env cfg) := by
  unfold runCompactionOnceBlocking
  cases cutoffMicros cfg.retention env.cutoffClock with
  | error stop => exact rules.fail stop
  | ok cutoff =>
      apply rules.bind (rules.io env _ _ (rules.leave leavesCold_id))
      intro _
      apply rules.look
      · exact fun _ _ _ => rfl
      intro s
      apply rules.bind (rules.forEach (rules.scanItem serde env n) _)
      intro _
      apply rules.bind (rules.flushAndCount env)
      intro _
      apply rules.bind (rules.finishPass env)
      intro _
      apply rules.look
      · exact fun _ _ _ => rfl
      exact fun s => rules.pure s.moved

end PassRules

/-! ## Passes over different directories -/

/-- The moments differ only in what the cold directory holds. -/
def UpToCold (s t : PassState) : Prop := ∃ cold published, t = s.overCold cold published

theorem alikeRules : PassRules (Alike UpToCold) where
  pure _ := Alike.pure
  fail _ := Alike.fail
  bind := Alike.bind
  look hblind hf := by
    apply Alike.read_bind
    · rintro s _ ⟨cold, published, rfl⟩
      exact (hblind s cold published).symm
    · exact hf
  leave hf := by
    apply Alike.update
    rintro s _ ⟨cold, published, rfl⟩
    exact ⟨cold, published, hf.blind s cold published⟩
  change := by
    intro f change hf
    apply Alike.update
    rintro s _ ⟨cold, published, rfl⟩
    obtain ⟨first, hfirst⟩ := hf s
    obtain ⟨second, hsecond⟩ := hf (s.overCold cold published)
    refine ⟨applyChange cold change, second, ?_⟩
    rw [hfirst, hsecond]
    rfl

/-! ## One pass from moment to moment -/

/-- The later state has been reached by further changes of the cold directory. -/
def Onward (s t : PassState) : Prop :=
  ∃ more, t.changes = s.changes ++ more ∧ t.disk.cold = more.foldl applyChange s.disk.cold

instance : IsPreorder PassState Onward where
  refl s := ⟨[], (List.append_nil _).symm, rfl⟩
  trans := by
    rintro s t u ⟨first, hchanges, hcold⟩ ⟨second, hchanges', hcold'⟩
    refine ⟨first ++ second, ?_, ?_⟩
    · rw [hchanges', hchanges, List.append_assoc]
    · rw [hcold', hcold, List.foldl_append]

theorem onwardRules : PassRules (Rises Onward) where
  pure _ := Rises.pure
  fail _ := Rises.fail
  bind := Rises.bind
  look _ hf := Rises.bind Rises.read hf
  leave := by
    intro f hf
    apply Rises.update
    intro s
    have hcold : f s = (f s).overCold s.disk.cold s.published :=
      hf.blind s s.disk.cold s.published
    refine ⟨[], (hf.changes s).trans (List.append_nil _).symm, ?_⟩
    rw [hcold]
    rfl
  change := by
    intro f change hf
    apply Rises.update
    intro s
    obtain ⟨published, hs⟩ := hf s
    exact ⟨[change], by rw [hs]; rfl, by rw [hs]; rfl⟩

section

variable (serde : SerdeJson) (env : Env) (n : Nat)
variable (cfg : FjallConfig) (partition : SortedMap Bytes Bytes)

/-- What a pass over this partition does to the cold directory if it is not stopped. -/
def passChanges : List ColdChange :=
  (runCompactionOnceBlocking serde n env cfg
    (PassState.start ⟨partition, SortedMap.empty⟩)).final.changes

variable {serde env n cfg} {disk : Disk}

/-- Whatever the directory holds, the changes are the same. -/
theorem changes_final :
    (runCompactionOnceBlocking serde n env cfg (PassState.start disk)).final.changes =
      passChanges serde env n cfg disk.partition := by
  obtain ⟨-, cold, published, hfinal⟩ := alikeRules.pass serde env n cfg
    (PassState.start ⟨disk.partition, SortedMap.empty⟩) (PassState.start disk)
    ⟨disk.cold, none, rfl⟩
  rw [hfinal]
  rfl

/-- Stopped at any point, a pass has made some first part of its changes. -/
theorem changes_of_mem_passStates {s : PassState}
    (hs : s ∈ passStates serde n env cfg disk) :
    ∃ rest, passChanges serde env n cfg disk.partition = s.changes ++ rest ∧
      s.disk.cold = s.changes.foldl applyChange disk.cold := by
  obtain ⟨hfirst, hrise⟩ :=
    List.pairwise_cons.mp (onwardRules.pass serde env n cfg (PassState.start disk))
  obtain ⟨changes, hchanges, hcold⟩ := hfirst s hs
  have hchanges : s.changes = changes := hchanges
  have hfinal : Onward s
      (runCompactionOnceBlocking serde n env cfg (PassState.start disk)).final := by
    obtain ⟨-, -, hseam⟩ := List.pairwise_append.mp hrise
    rcases List.mem_append.mp hs with hvisited | hlast
    · exact hseam s hvisited _ (List.mem_singleton_self _)
    · rw [List.mem_singleton.mp hlast]
      exact refl _
  obtain ⟨rest, hrest, -⟩ := hfinal
  refine ⟨rest, changes_final.symm.trans hrest, ?_⟩
  rw [hcold, hchanges]
  rfl

end

end Tonggeret.Storage
