import Tonggeret.Engine.Accounting

/-!
# Waiting for the writer

`shutdown` joins the writer after its retry loop, whether or not the sentinel was
delivered.  A call that gave up waits for a writer that nobody told to stop.
-/

namespace Tonggeret.Engine

open Tonggeret.Lib

/-- The call that won the flag. -/
def ShutdownPc.performing : ShutdownPc → Bool
  | .attempt _ | .join _ | .finishing | .returned true => true
  | .idle | .returned false => false

/-- The call has left the retry loop with its sentinel delivered. -/
def ShutdownPc.delivered : ShutdownPc → Bool
  | .join delivered => delivered
  | .finishing | .returned true => true
  | .idle | .attempt _ | .returned false => false

/-- Sentinels in the channel or received by the writer. -/
def Pipeline.sentinels (s : Pipeline) : Nat :=
  s.chan.count .shutdown + (stopping s.writer).toNat

/-- No retry loop ends on a full channel. -/
def NeverGivesUp (cfg : PipelineConfig) (s : Pipeline) : Action → Prop
  | .sendShutdown c => ∀ k, s.calls c = .attempt k → s.writer ≠ .exited →
      ¬ s.chan.length < cfg.channelCapacity → k + 1 < shutdownAttempts
  | _ => True

/-- One call performs the shutdown, and a sentinel exists exactly if it delivered one. -/
structure Delivery (s : Pipeline) : Prop where
  single : ∀ c c', (s.calls c).performing = true → (s.calls c').performing = true → c = c'
  raised : ∀ c, (s.calls c).performing = true → s.flag = true
  atMostOne : s.sentinels ≤ 1
  present : 0 < s.sentinels ↔ ∃ c, (s.calls c).delivered = true

theorem delivery_init : Delivery Pipeline.init := by
  refine ⟨fun _ _ h => by contradiction, fun _ h => by contradiction, Nat.zero_le 1, ?_⟩
  constructor
  · intro h
    contradiction
  · rintro ⟨c, hc⟩
    contradiction

theorem ShutdownPc.performing_of_delivered {pc : ShutdownPc} (h : pc.delivered = true) :
    pc.performing = true := by
  cases pc with
  | idle => contradiction
  | attempt => contradiction
  | join => rfl
  | finishing => rfl
  | returned performed =>
      cases performed with
      | true => rfl
      | false => contradiction

section

variable {cfg : PipelineConfig} {s t : Pipeline}

/-- A step that moves no call and neither adds nor removes a sentinel. -/
theorem Delivery.frame (h : Delivery s) (hcalls : t.calls = s.calls) (hflag : t.flag = s.flag)
    (hsentinels : t.sentinels = s.sentinels) : Delivery t where
  single := by rw [hcalls]; exact h.single
  raised := by rw [hcalls, hflag]; exact h.raised
  atMostOne := by rw [hsentinels]; exact h.atMostOne
  present := by rw [hcalls, hsentinels]; exact h.present

/-- What a call's move does not change of it, it changes of no call. -/
theorem Pipeline.apply_calls_setCall {β : Type} (f : ShutdownPc → β) {c : Nat}
    {pc : ShutdownPc} (h : f pc = f (s.calls c)) (x : Nat) :
    f ((s.setCall c pc).calls x) = f (s.calls x) := by
  rw [Pipeline.calls_setCall]
  by_cases hx : x = c
  · rw [if_pos hx, hx, h]
  · rw [if_neg hx]

theorem Delivery.eq_of_delivered (h : Delivery s) {c x : Nat}
    (hperforming : (s.calls c).performing = true) (hdelivered : (s.calls x).delivered = true) :
    x = c :=
  h.single x c (ShutdownPc.performing_of_delivered hdelivered) hperforming

/-- A call that moves on without changing whether it performs and has delivered. -/
theorem Delivery.setCall (h : Delivery s) {c : Nat} {pc : ShutdownPc}
    (hperforming : pc.performing = (s.calls c).performing)
    (hdelivered : pc.delivered = (s.calls c).delivered) : Delivery (s.setCall c pc) := by
  have hp := Pipeline.apply_calls_setCall ShutdownPc.performing hperforming
  have hd := Pipeline.apply_calls_setCall ShutdownPc.delivered hdelivered
  refine ⟨?_, ?_, h.atMostOne, ?_⟩
  · simp only [hp]
    exact h.single
  · simp only [hp]
    exact h.raised
  · simp only [hd]
    exact h.present

/-- The first call to swap the flag becomes the performing one. -/
theorem Delivery.perform (h : Delivery s) (c : Nat) (hflag : s.flag = false) :
    Delivery ({ s with flag := true }.setCall c (.attempt 0)) := by
  have hnobody : ∀ x, (s.calls x).performing = false := by
    intro x
    by_contra hx
    have := h.raised x (by simpa using hx)
    simp [hflag] at this
  refine ⟨?_, fun _ _ => rfl, h.atMostOne, ?_⟩
  · intro x y hx hy
    rw [Pipeline.calls_setCall] at hx hy
    by_cases hxc : x = c
    · by_cases hyc : y = c
      · rw [hxc, hyc]
      · rw [if_neg hyc] at hy
        exact absurd hy (by simp [hnobody])
    · rw [if_neg hxc] at hx
      exact absurd hx (by simp [hnobody])
  · have hdelivered : ∀ x, (s.calls x).delivered = true → False := by
      intro x hx
      have := ShutdownPc.performing_of_delivered hx
      simp [hnobody] at this
    refine h.present.trans ⟨fun ⟨x, hx⟩ => (hdelivered x hx).elim, ?_⟩
    rintro ⟨x, hx⟩
    rw [Pipeline.calls_setCall] at hx
    by_cases hxc : x = c
    · rw [if_pos hxc] at hx
      contradiction
    · rw [if_neg hxc] at hx
      exact (hdelivered x hx).elim

/-- The performing call puts the only sentinel into the channel. -/
theorem Delivery.deliver (h : Delivery s) {c k : Nat} (hpc : s.calls c = .attempt k) :
    Delivery ((s.push .shutdown).setCall c (.join true)) := by
  have hperforming : (s.calls c).performing = true := by
    rw [hpc]
    rfl
  have hp : ∀ x, (((s.push .shutdown).setCall c (.join true)).calls x).performing =
      (s.calls x).performing :=
    Pipeline.apply_calls_setCall ShutdownPc.performing hperforming.symm
  have hnone : s.sentinels = 0 := by
    apply Nat.eq_zero_of_not_pos
    rw [h.present]
    rintro ⟨x, hx⟩
    rw [h.eq_of_delivered hperforming hx, hpc] at hx
    contradiction
  have hone : ((s.push .shutdown).setCall c (.join true)).sentinels = 1 := by
    unfold Pipeline.sentinels at hnone ⊢
    simp only [Pipeline.chan_setCall, Pipeline.chan_push, Pipeline.writer_setCall,
      Pipeline.writer_push, List.count_append, List.count_singleton_self]
    omega
  refine ⟨?_, ?_, Nat.le_of_eq hone, ?_⟩
  · simp only [hp]
    exact h.single
  · simp only [hp]
    exact h.raised
  · rw [hone]
    refine ⟨fun _ => ⟨c, ?_⟩, fun _ => Nat.one_pos⟩
    rw [Pipeline.calls_setCall, if_pos rfl]
    rfl

theorem delivery_step {a : Action} (h : Delivery s) (hstep : step cfg s a = some t) :
    Delivery t := by
  cases step_cases hstep with
  | skip => exact h.frame rfl rfl rfl
  | pass => exact h.frame rfl rfl rfl
  | update => exact h.frame rfl rfl rfl
  | send =>
      refine h.frame rfl rfl ?_
      simp [Pipeline.sentinels, List.count_append]
  | refuse => exact h.frame rfl rfl rfl
  | countDrop => exact h.frame rfl rfl rfl
  | recvMetric hpc hchan =>
      refine h.frame rfl rfl ?_
      simp [Pipeline.sentinels, hpc, hchan, stopping]
  | recvShutdown hpc hchan =>
      refine h.frame rfl rfl ?_
      simp [Pipeline.sentinels, hpc, hchan, stopping]
  | drainMetric hpc hroom hchan =>
      refine h.frame rfl rfl ?_
      simp [Pipeline.sentinels, hpc, hchan, stopping]
  | drainShutdown hpc hroom hchan =>
      refine h.frame rfl rfl ?_
      simp [Pipeline.sentinels, hpc, hchan, stopping]
  | drainEnd hpc hend =>
      refine h.frame rfl rfl ?_
      simp [Pipeline.sentinels, hpc, stopping]
  | insert hpc =>
      refine h.frame rfl rfl ?_
      simp [Pipeline.sentinels, hpc, stopping]
  | @flushed stop hpc =>
      refine h.frame rfl rfl ?_
      cases stop <;> simp [Pipeline.sentinels, hpc, stopping]
  | exit hpc =>
      have hone := h.atMostOne
      refine h.frame rfl rfl ?_
      simp only [Pipeline.sentinels, hpc, stopping, Bool.toNat_true, List.count_nil] at hone ⊢
      omega
  | @perform c _ hflag => exact h.perform c hflag
  | returnEarly hpc _ => exact h.setCall (by rw [hpc]; rfl) (by rw [hpc]; rfl)
  | @findClosed c k hpc hclosed =>
      -- a closed channel means that somebody else delivered: there is nobody else
      have hpresent : 0 < s.sentinels := by
        simp [Pipeline.sentinels, hclosed, stopping]
      obtain ⟨x, hx⟩ := h.present.mp hpresent
      rw [h.eq_of_delivered (by rw [hpc]; rfl) hx, hpc] at hx
      contradiction
  | deliver hpc hopen hroom => exact h.deliver hpc
  | retry hpc => exact h.setCall (by rw [hpc]; rfl) (by rw [hpc]; rfl)
  | giveUp hpc => exact h.setCall (by rw [hpc]; rfl) (by rw [hpc]; rfl)
  | @joined c delivered hpc hexited =>
      have hpresent : 0 < s.sentinels := by
        simp [Pipeline.sentinels, hexited, stopping]
      obtain ⟨x, hx⟩ := h.present.mp hpresent
      rw [h.eq_of_delivered (by rw [hpc]; rfl) hx] at hx
      apply h.setCall
      · rw [hpc]
        rfl
      · rw [hx]
        rfl
  | finish hpc => exact h.setCall (by rw [hpc]; rfl) (by rw [hpc]; rfl)

theorem delivery_of_reaches {ok : Pipeline → Action → Prop}
    (h : Reaches (step cfg) ok Pipeline.init s) : Delivery s :=
  h.invariant (fun _ _ _ hinv _ hstep => delivery_step hinv hstep) delivery_init

theorem Delivery.sentinel_iff (h : Delivery s) {c : Nat} {delivered : Bool}
    (hjoin : s.calls c = .join delivered) :
    .shutdown ∈ s.chan ∨ stopping s.writer = true ↔ delivered = true := by
  have hsentinels : 0 < s.sentinels ↔ .shutdown ∈ s.chan ∨ stopping s.writer = true := by
    unfold Pipeline.sentinels
    cases stopping s.writer <;> simp [List.count_pos_iff]
  rw [← hsentinels, h.present]
  constructor
  · rintro ⟨x, hx⟩
    rw [h.eq_of_delivered (by rw [hjoin]; rfl) hx, hjoin] at hx
    exact hx
  · intro hdelivered
    exact ⟨c, by rw [hjoin]; exact hdelivered⟩

/-- In a waiting state the sentinel is in the channel, or the writer is gone, exactly
if it was delivered and is not being acted on. -/
theorem Delivery.join_iff (h : Delivery s) {c : Nat} {delivered : Bool}
    (hjoin : s.calls c = .join delivered) :
    s.writer = .exited ∨ .shutdown ∈ s.chan ↔
      delivered = true ∧ (stopping s.writer = true → s.writer = .exited) := by
  have hsentinel := h.sentinel_iff hjoin
  constructor
  · rintro (hexited | hmem)
    · refine ⟨hsentinel.mp (Or.inr ?_), fun _ => hexited⟩
      rw [hexited]
      rfl
    · refine ⟨hsentinel.mp (Or.inl hmem), fun hstop => ?_⟩
      have hone := h.atMostOne
      have hpos := List.count_pos_iff.mpr hmem
      unfold Pipeline.sentinels at hone
      rw [hstop, Bool.toNat_true] at hone
      omega
  · rintro ⟨hdelivered, hexits⟩
    rcases hsentinel.mpr hdelivered with hmem | hstop
    · exact Or.inr hmem
    · exact Or.inl (hexits hstop)

/-- Without giving up, a call that waits has delivered its sentinel. -/
theorem delivered_step {a : Action} (h : ∀ c, s.calls c ≠ .join false)
    (hok : NeverGivesUp cfg s a) (hstep : step cfg s a = some t) :
    ∀ c, t.calls c ≠ .join false := by
  have hset : ∀ u : Pipeline, ∀ c pc, u.calls = s.calls → pc ≠ .join false →
      ∀ x, (u.setCall c pc).calls x ≠ .join false := by
    intro u c pc hu hpc x
    rw [Pipeline.calls_setCall, hu]
    by_cases hx : x = c
    · rw [if_pos hx]
      exact hpc
    · rw [if_neg hx]
      exact h x
  cases step_cases hstep with
  | perform => exact hset { s with flag := true } _ _ rfl (by simp)
  | returnEarly => exact hset s _ _ rfl (by simp)
  | findClosed => exact hset s _ _ rfl (by simp)
  | deliver => exact hset (s.push .shutdown) _ _ rfl (by simp)
  | retry => exact hset s _ _ rfl (by simp)
  | giveUp hpc hopen hfull hlast => exact absurd (hok _ hpc hopen hfull) hlast
  | joined => exact hset s _ _ rfl (by simp)
  | finish => exact hset s _ _ rfl (by simp)
  | _ => exact h

/-- While a sentinel is underway the writer is not parked: one of its steps is
enabled until it has exited. -/
theorem writer_enabled (hsentinel : .shutdown ∈ s.chan ∨ stopping s.writer = true)
    (hrunning : s.writer ≠ .exited) :
    ∃ a ∈ [Action.blockingRecv, .tryRecv, .insert, .flushed, .exit],
      (step cfg s a).isSome = true := by
  cases hpc : s.writer with
  | recv =>
      have hmem : .shutdown ∈ s.chan := by simpa [hpc, stopping] using hsentinel
      refine ⟨.blockingRecv, by simp, ?_⟩
      cases hchan : s.chan with
      | nil => simp [hchan] at hmem
      | cons msg rest => cases msg <;> simp [step, writerStep, hpc, hchan]
  | drain batch =>
      refine ⟨.tryRecv, by simp, ?_⟩
      by_cases hroom : batch.length < cfg.batchRows
      · cases hchan : s.chan with
        | nil => simp [step, writerStep, hpc, hroom, hchan]
        | cons msg rest => cases msg <;> simp [step, writerStep, hpc, hroom, hchan]
      · simp [step, writerStep, hpc, hroom]
  | flush todo stop =>
      cases todo with
      | nil => exact ⟨.flushed, by simp, by simp [step, writerStep, hpc]⟩
      | cons e todo => exact ⟨.insert, by simp, by simp [step, writerStep, hpc]⟩
  | persist => exact ⟨.exit, by simp, by simp [step, writerStep, hpc]⟩
  | exited => exact absurd hpc hrunning

end

section

variable (cfg : PipelineConfig)

/-- The join waits for a writer that has exited or has a sentinel in its channel
exactly when the sentinel was delivered and the writer is not acting on it; and in a
run whose retry loops never give up the writer has always been told to stop, so one of
its steps is enabled until it is gone. -/
theorem join_safe_iff_delivered :
    (∀ s c delivered, Reaches (step cfg) (fun _ _ => True) Pipeline.init s →
      s.calls c = .join delivered →
        (s.writer = .exited ∨ .shutdown ∈ s.chan ↔
          delivered = true ∧ (stopping s.writer = true → s.writer = .exited))) ∧
    ∀ s c delivered, Reaches (step cfg) (NeverGivesUp cfg) Pipeline.init s →
      s.calls c = .join delivered →
        (s.writer = .exited ∨ .shutdown ∈ s.chan ∨ stopping s.writer = true) ∧
        (s.writer ≠ .exited → ∃ a ∈ [Action.blockingRecv, .tryRecv, .insert, .flushed, .exit],
          (step cfg s a).isSome = true) := by
  constructor
  · intro s c delivered hrun hjoin
    exact (delivery_of_reaches hrun).join_iff hjoin
  · intro s c delivered hrun hjoin
    have hnever := hrun.invariant (I := fun u => ∀ c, u.calls c ≠ .join false)
      (fun _ _ _ hinv hok hstep => delivered_step hinv hok hstep)
      (fun _ => ShutdownPc.noConfusion)
    have hdelivered : delivered = true := by
      cases delivered with
      | true => rfl
      | false => exact absurd hjoin (hnever c)
    have hsentinel := ((delivery_of_reaches hrun).sentinel_iff hjoin).mpr hdelivered
    exact ⟨Or.inr hsentinel, writer_enabled hsentinel⟩

end

/-! ## A hundred attempts on a full channel -/

/-- Sixteen samples fill the channel, the writer is slow until the shutdown call has
given up, and then drains everything. -/
def abandonedRun : List Action :=
  ((List.range 16).flatMap fun r => [.loadFlag r, .updatePrometheus r, .trySend r]) ++
    .swapFlag 0 :: List.replicate 100 (.sendShutdown 0) ++
    .blockingRecv :: List.replicate 16 .tryRecv ++
    List.replicate 16 .insert ++ [.flushed]

/-- The shutdown call waits in the join for a writer parked on an empty channel. -/
theorem join_waits_for_parked_writer :
    ∃ s, exec (step smallPipeline) Pipeline.init abandonedRun = some s ∧
      s.calls 0 = .join false ∧ s.writer = .recv ∧ s.chan = [] ∧
      ¬ (s.writer = .exited ∨ .shutdown ∈ s.chan) := by
  have hrun : (exec (step smallPipeline) Pipeline.init abandonedRun).map
      (fun s => (s.calls 0, s.writer, s.chan)) = some (.join false, .recv, []) := by
    decide +kernel
  obtain ⟨s, hs, hstate⟩ := Option.map_eq_some_iff.mp hrun
  obtain ⟨hcall, hwriter, hchan⟩ : s.calls 0 = .join false ∧ s.writer = .recv ∧
      s.chan = [] := by simpa using hstate
  refine ⟨s, hs, hcall, hwriter, hchan, ?_⟩
  simp [hwriter, hchan]

end Tonggeret.Engine
