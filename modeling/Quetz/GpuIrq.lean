import Quetz.GpuDevice

/-!
# Completion Interrupts of the GPU Device

A completed operation adds one event to the interrupt, and a write of `N` to `REG_IRQ_ACK` takes
up to `N` events from it. The line is up as long as there are events. Retirement is driven from
the clock, from doorbells and from register reads, and by the last write response of a kernel
operation; for the interrupt they are all alike: each completion raises it once.

## Main results

* `Device.step_progress`: an event completes operations or acknowledges completions.
* `IrqWorld.completions_not_lost`: events, line and levels sent, in every reachable state.
-/

namespace Quetz.GpuDevice

/-! ### Runs of the device -/

/-- What can happen to the device. -/
inductive DeviceEvent where
  | write (write : MmioWrite)
  | read (read : MmioRead)
  | tick
  /-- The memory answers the request at this position of the link; `data` is what a read
  returns. -/
  | respond (i : ℕ) (data : List UInt8)

/-- One event. -/
def Device.step (p : Params) (d : Device) : DeviceEvent → Except String Device
  | .write write => d.handleWrite p write
  | .read read => .ok (d.handleRead p read)
  | .tick => .ok (d.tickBusy p)
  | .respond i data =>
    match d.memIface[i]?, p.kernel with
    | some (.read id _ _), some k =>
      { d with memIface := d.memIface.eraseIdx i }.opOnReadResp p k id data
    | some (.write ..), _ => .ok ({ d with memIface := d.memIface.eraseIdx i }.opOnWriteResp p)
    | _, _ => .ok d

/-! ### The interrupt -/

/-- The level an action sends on the irq link. -/
def Action.irqLevel : Action → Option ℕ
  | .irqSend level => some level
  | _ => none

/-- The levels sent on the irq link, oldest first. -/
def Device.irqLevels (d : Device) : List ℕ := d.trace.filterMap Action.irqLevel

/-- The part of the device that the interrupt depends on. -/
structure IrqView where
  kernelId : ℕ
  irqEvents : ℕ
  irqPending : Bool
  levels : List ℕ

/-- The interrupt of a device. -/
def Device.irqView (d : Device) : IrqView := ⟨d.kernelId, d.irqEvents, d.irqPending, d.irqLevels⟩

/-- One more completion. -/
def IrqView.complete (x : IrqView) : IrqView where
  kernelId := x.kernelId + 1
  irqEvents := x.irqEvents + 1
  irqPending := true
  levels := if x.irqPending then x.levels else x.levels ++ [1]

/-- The acknowledgement of `n` completions. -/
def IrqView.ack (n : ℕ) (x : IrqView) : IrqView :=
  if n ≠ 0 ∧ x.irqPending then
    if n < x.irqEvents then { x with irqEvents := x.irqEvents - n }
    else { x with irqEvents := 0, irqPending := false, levels := x.levels ++ [0] }
  else x

namespace Device

variable (p : Params) (d : Device)

/-- An action that sends no level is not seen by the interrupt. -/
theorem irqView_emit (a : Action) (h : a.irqLevel = none) : (d.emit a).irqView = d.irqView := by
  simp [irqView, irqLevels, emit, h]

/-- A level that is sent. -/
theorem irqView_emit_irqSend (level : ℕ) : (d.emit (.irqSend level)).irqView =
    { d.irqView with levels := d.irqView.levels ++ [level] } := by
  simp [irqView, irqLevels, emit, Action.irqLevel]

/-- A record of the event log is not seen by the interrupt. -/
@[simp] theorem irqView_emitEvent (r : Record) : (d.emitEvent p r).irqView = d.irqView := by
  rw [emitEvent]
  split_ifs
  · exact irqView_emit d _ rfl
  · rfl

/-- Neither is a record about the interrupt itself. -/
@[simp] theorem irqView_emitIrqEvent (kind : String) (value : UInt32) (observer : String) :
    (d.emitIrqEvent p kind value observer).irqView = d.irqView := by
  rw [emitIrqEvent]
  split_ifs
  · exact irqView_emitEvent p d _
  · rfl

/-- The hold of the simulation is apart from the interrupt. -/
@[simp] theorem irqView_updatePrimaryHold (b : Bool) :
    (d.updatePrimaryHold b).irqView = d.irqView := by
  rw [updatePrimaryHold]
  split_ifs
  · exact irqView_emit d _ rfl
  · rfl
  · exact irqView_emit d _ rfl
  · rfl

/-- The answer to the doorbell of an operation does not touch the interrupt. -/
@[simp] theorem irqView_releaseOpDoorbell : d.releaseOpDoorbell.irqView = d.irqView := by
  rw [releaseOpDoorbell]
  split
  · exact irqView_emit d _ rfl
  · rfl

/-- The answer to a deferred doorbell does not either. -/
@[simp] theorem irqView_releaseDeferred : d.releaseDeferred.irqView = d.irqView := by
  rw [releaseDeferred]
  split
  · exact irqView_emit d _ rfl
  · rfl

variable {p d}

/-- A retirement that counts `kernelId` up and raises the interrupt is one completion. -/
theorem irqView_raiseIrqOnRetire (hirq : 0 ≤ p.irqLine) {d' : Device}
    (hd : d'.irqView = { d.irqView with kernelId := d.kernelId + 1 }) :
    (d'.raiseIrqOnRetire p).irqView = d.irqView.complete := by
  obtain ⟨hk, he, hp, hl⟩ : d'.kernelId = d.kernelId + 1 ∧ d'.irqEvents = d.irqEvents ∧
      d'.irqPending = d.irqPending ∧ d'.irqLevels = d.irqLevels := by
    simpa [irqView] using hd
  rw [raiseIrqOnRetire]
  rw [if_neg (Int.not_lt.mpr hirq)]
  dsimp only
  cases hpend : d.irqPending with
  | true =>
      rw [if_pos (hp.trans hpend)]
      simp only [irqView, IrqView.complete, hpend, if_true, IrqView.mk.injEq]
      exact ⟨hk, by rw [he], hp.trans hpend, hl⟩
  | false =>
      rw [if_neg (by rw [hp, hpend]; decide)]
      rw [irqView_emit_irqSend, irqView_emitIrqEvent]
      simp only [irqView, IrqView.complete, hpend, Bool.false_eq_true, if_false, IrqView.mk.injEq]
      exact ⟨hk, by rw [he], trivial, congrArg (· ++ [1]) hl⟩

/-- A write of zero acknowledges nothing. -/
@[simp] theorem IrqView.ack_zero (x : IrqView) : x.ack 0 = x := by
  simp [IrqView.ack]

/-- A write of `n` to the acknowledge register. -/
theorem irqView_ackIrq (hirq : 0 ≤ p.irqLine) {n : UInt64} (hn : n ≠ 0) :
    (d.ackIrq p n).irqView = d.irqView.ack n.toNat := by
  have hpos : n.toNat ≠ 0 := fun h0 => hn (UInt64.toNat_inj.mp h0)
  rw [ackIrq]
  cases hpend : d.irqPending with
  | false =>
      rw [if_pos (by simp)]
      simp [IrqView.ack, irqView, hpend]
  | true =>
      rw [if_neg (by simp [Int.not_lt.mpr hirq])]
      have hview := irqView_emitIrqEvent p d "irq-acknowledged" n.toUInt32 "device"
      obtain ⟨hk, he, hp, hl⟩ : (d.emitIrqEvent p "irq-acknowledged" n.toUInt32).kernelId =
          d.kernelId ∧ (d.emitIrqEvent p "irq-acknowledged" n.toUInt32).irqEvents = d.irqEvents ∧
          (d.emitIrqEvent p "irq-acknowledged" n.toUInt32).irqPending = d.irqPending ∧
          (d.emitIrqEvent p "irq-acknowledged" n.toUInt32).irqLevels = d.irqLevels := by
        simpa [irqView] using hview
      dsimp only
      rw [he]
      simp only [IrqView.ack, irqView, hpend, hpos, ne_eq, not_false_eq_true, and_self, if_true]
      by_cases hlt : n.toNat < d.irqEvents
      · rw [if_pos hlt, if_pos hlt, if_pos (by omega)]
        simp only [IrqView.mk.injEq]
        exact ⟨hk, trivial, hp.trans hpend, hl⟩
      · rw [if_neg hlt, if_neg hlt, Nat.sub_self, if_neg (Nat.lt_irrefl 0)]
        have hsent := irqView_emit_irqSend ({ d.emitIrqEvent p "irq-acknowledged" n.toUInt32 with
          irqEvents := 0, irqPending := false }.emitIrqEvent p "irq-deasserted" 0) 0
        rw [irqView_emitIrqEvent] at hsent
        simp only [irqView, IrqView.mk.injEq] at hsent ⊢
        obtain ⟨hk', he', hp', hl'⟩ := hsent
        exact ⟨hk'.trans hk, he', hp', hl'.trans (congrArg (· ++ [0]) hl)⟩

/-! ### Handlers -/

variable (p d)

/-- A request to the memory. -/
@[simp] theorem irqView_sendMem (r : MemRequest) : (d.sendMem r).irqView = d.irqView :=
  irqView_emit d _ rfl

/-- Issuing the reads of an operation, however many there is room for. -/
@[simp] theorem irqView_opIssueReads (fuel : ℕ) : (d.opIssueReads p fuel).irqView = d.irqView := by
  induction fuel generalizing d with
  | zero => rfl
  | succ fuel ih =>
      rw [opIssueReads]
      split_ifs
      · rw [ih]
        exact irqView_sendMem _ _
      · rfl

/-- Issuing the writes of an operation. -/
@[simp] theorem irqView_opIssueWrites (fuel : ℕ) :
    (d.opIssueWrites p fuel).irqView = d.irqView := by
  induction fuel generalizing d with
  | zero => rfl
  | succ fuel ih =>
      rw [opIssueWrites]
      split_ifs
      · rw [ih]
        exact irqView_sendMem _ _
      · rfl

/-- A rejected operation is no completion. -/
@[simp] theorem irqView_opReject (why : String) : (d.opReject p why).irqView = d.irqView := by
  rw [opReject]
  rw [irqView_updatePrimaryHold, irqView_releaseOpDoorbell]
  exact (irqView_emit _ (.reject why) rfl).trans (irqView_emitEvent p d _)

/-- The start of the DMA is none, whether it rejects the operation or not. -/
@[simp] theorem irqView_opStartDma (k : QuetzKernel) : (d.opStartDma p k).irqView = d.irqView := by
  rw [opStartDma]
  dsimp only
  split_ifs
  · exact irqView_opReject _ _ _
  · exact irqView_opReject _ _ _
  · exact irqView_opReject _ _ _
  · exact irqView_opReject _ _ _
  · rw [irqView_updatePrimaryHold]
    exact irqView_opIssueReads _ _ _

/-- The start of the write back is none. -/
@[simp] theorem irqView_opBeginWriteback : (d.opBeginWriteback p).irqView = d.irqView := by
  rw [opBeginWriteback]
  split_ifs
  · exact irqView_opReject _ _ _
  · rw [irqView_updatePrimaryHold]
    exact irqView_opIssueWrites _ _ _

variable {p d}

/-- A computation that completes operations, in terms of the interrupt. -/
def Completes (x y : IrqView) : Prop := ∃ n, y = IrqView.complete^[n] x

/-- Nothing completes. -/
theorem Completes.refl (x : IrqView) : Completes x x := ⟨0, rfl⟩

/-- One operation completes. -/
theorem Completes.one (x : IrqView) : Completes x x.complete := ⟨1, rfl⟩

/-- Completions of two computations add up. -/
theorem Completes.trans {x y z : IrqView} (hxy : Completes x y) (hyz : Completes y z) :
    Completes x z := by
  obtain ⟨n, rfl⟩ := hxy
  obtain ⟨m, rfl⟩ := hyz
  exact ⟨m + n, (Function.iterate_add_apply _ m n x).symm⟩

/-- The computation of an operation starts the busy window or the write back. -/
theorem irqView_opComputeAndStartBusy {k : QuetzKernel} {d' : Device}
    (h : d.opComputeAndStartBusy p k = .ok d') : d'.irqView = d.irqView := by
  have hcompute : (d.emit (.compute d.op.args d.op.input)).irqView = d.irqView :=
    irqView_emit d _ rfl
  rw [opComputeAndStartBusy_eq h]
  split_ifs
  · exact (irqView_opBeginWriteback _ _).trans hcompute
  · exact (irqView_updatePrimaryHold _ _).trans hcompute

/-- The last read response starts the computation. -/
theorem irqView_opOnReadResp {k : QuetzKernel} {id : ℕ} {data : List UInt8} {d' : Device}
    (h : d.opOnReadResp p k id data = .ok d') : d'.irqView = d.irqView := by
  rw [opOnReadResp] at h
  split at h
  · cases h
  · dsimp only at h
    split_ifs at h
    · rw [irqView_opComputeAndStartBusy h]
      exact irqView_opIssueReads _ _ _
    · cases h
      exact irqView_opIssueReads _ _ _

/-- A doorbell of the kernel mode starts an operation or rejects it. -/
theorem irqView_kernelDoorbell {k : QuetzKernel} {write : MmioWrite} {d' : Device}
    (h : d.kernelDoorbell p k write = .ok d') : d'.irqView = d.irqView := by
  have hstart (d₁ : Device) (a : Action) (ha : a.irqLevel = none) :
      (((d₁.emit a).emitEvent p .requested).opStartDma p k).irqView = d₁.irqView := by
    rw [irqView_opStartDma, irqView_emitEvent, irqView_emit _ _ ha]
  rw [kernelDoorbell] at h
  dsimp only at h
  split_ifs at h <;> cases h <;> first
    | exact (irqView_emit _ _ rfl).trans (hstart _ _ rfl)
    | exact hstart _ _ rfl

variable (hirq : 0 ≤ p.irqLine)

include hirq

/-- A launch of no latency completes when it starts. -/
theorem startKernel_completes (nowClk latency : ℕ) :
    Completes d.irqView (d.startKernel p nowClk latency).irqView := by
  rw [startKernel]
  split_ifs
  · rw [irqView_updatePrimaryHold, irqView_raiseIrqOnRetire hirq rfl]
    exact .one _
  · rw [irqView_updatePrimaryHold]
    exact .refl _

/-- The queued launches start one after another, those of no latency complete. -/
theorem startPending_completes (nowClk : ℕ) (queue : List ℕ) (d : Device) :
    Completes d.irqView (d.startPending p nowClk queue).irqView := by
  induction queue generalizing d with
  | nil => exact .refl _
  | cons latency queue ih =>
      rw [startPending]
      split_ifs
      · exact (startKernel_completes (d := { d with pendingLatencies := queue }) hirq nowClk
          latency).trans (ih _)
      · exact .refl _

/-- The launch that retires is one completion. -/
theorem retireLaunch_completes (d : Device) : Completes d.irqView (d.retireLaunch p).irqView := by
  rw [retireLaunch]
  rw [irqView_raiseIrqOnRetire hirq (d := d) ?_]
  · exact .one _
  · exact irqView_releaseDeferred _

/-- A retirement completes the launch and those of no latency queued behind it. -/
theorem retireIfReady_completes (nowClk : ℕ) (d : Device) :
    Completes d.irqView (d.retireIfReady p nowClk).irqView := by
  by_cases hready : d.busyUntilClk = 0 ∨ nowClk < d.busyUntilClk
  · rw [retireIfReady, if_pos hready]
    exact .refl _
  · by_cases hkernel : p.kernel.isSome ∧ d.op.phase = .reading
    · rw [retireIfReady, if_neg hready, if_pos hkernel, irqView_opBeginWriteback]
      exact .refl _
    · rw [retireIfReady_launch hready hkernel]
      exact (retireLaunch_completes hirq d).trans (startPending_completes hirq nowClk _ _)

/-- The end of an operation is one completion. -/
theorem opFinish_completes (d : Device) : Completes d.irqView (d.opFinish p).irqView := by
  rw [opFinish]
  rw [irqView_updatePrimaryHold, irqView_raiseIrqOnRetire hirq (d := d) ?_]
  · exact .one _
  · rw [irqView_releaseOpDoorbell]
    have hview := (irqView_emit (d.emitEvent p .completed) .finish rfl).trans
      (irqView_emitEvent p d .completed)
    simp only [irqView, IrqView.mk.injEq] at hview ⊢
    exact ⟨by rw [hview.1], hview.2.1, hview.2.2.1, hview.2.2.2⟩

/-- The last write response ends the operation. -/
theorem opOnWriteResp_completes (d : Device) :
    Completes d.irqView (d.opOnWriteResp p).irqView := by
  rw [opOnWriteResp]
  dsimp only
  split_ifs
  · exact .refl _
  · refine Completes.trans ?_ (opFinish_completes hirq _)
    rw [opIssueWriteWindow, irqView_opIssueWrites]
    exact .refl _
  · rw [opIssueWriteWindow, irqView_opIssueWrites]
    exact .refl _

/-- A doorbell of the latency model retires what is ready before it starts its launch. -/
theorem syntheticDoorbell_completes (d : Device) :
    Completes d.irqView (d.syntheticDoorbell p).irqView := by
  have hretire : Completes d.irqView _ :=
    retireIfReady_completes hirq d.gpuClk { d with latencyOverride := 0 }
  simp only [syntheticDoorbell]
  generalize retireIfReady p d.gpuClk { d with latencyOverride := 0 } = d₁ at hretire ⊢
  generalize (if d.latencyOverride = 0 then p.kernelLatency.toNat else d.latencyOverride) = latency
  by_cases hidle : (!d₁.isBusyAt && d₁.pendingLatencies.isEmpty) = true
  · rw [if_pos hidle]
    exact hretire.trans
      (startKernel_completes (d := { d₁ with submitId := d₁.submitId + 1 }) hirq _ _)
  · rw [if_neg hidle]
    split_ifs
    · rw [irqView_updatePrimaryHold]
      exact hretire
    · exact hretire

/-- The number of completions a write acknowledges. -/
def ackValue (p : Params) (write : MmioWrite) : ℕ :=
  if write.pAddr - p.baseAddr = REG_IRQ_ACK then (dataToU64 write.data).toNat else 0

/-- A register write completes operations, or acknowledges completions. -/
theorem writeRegister_progress {write : MmioWrite} {d d' : Device}
    (h : d.writeRegister p (write.pAddr - p.baseAddr) write = .ok d') :
    Completes (d.irqView.ack (ackValue p write)) d'.irqView := by
  rw [ackValue]
  generalize write.pAddr - p.baseAddr = offset at *
  have hother : offset ≠ REG_IRQ_ACK →
      d.irqView.ack (if offset = REG_IRQ_ACK then (dataToU64 write.data).toNat else 0) =
        d.irqView := by
    intro hack
    rw [if_neg hack, IrqView.ack_zero]
  cases writeRegister_cases h with
  | doorbell hoff =>
      rw [hother (by rw [hoff]; decide)]
      exact syntheticDoorbell_completes hirq d
  | delivered hoff =>
      rw [hother (by rw [hoff]; decide), irqView_emitIrqEvent]
      exact .refl _
  | settled hoff =>
      rw [hother (by rw [hoff]; decide), irqView_emitIrqEvent]
      exact .refl _
  | checkpoint hoff =>
      rw [hother (by rw [hoff]; decide), irqView_emitEvent]
      exact .refl _
  | latency hoff =>
      rw [hother (by rw [hoff]; decide)]
      exact .refl _
  | args hoff =>
      rw [hother fun hack => absurd (hack ▸ hoff) (by decide)]
      exact .refl _
  | ack hoff hvalue =>
      rw [if_pos hoff, irqView_ackIrq hirq hvalue]
      exact .refl _
  | nothing _ hack =>
      by_cases hoff : offset = REG_IRQ_ACK
      · rw [if_pos hoff, hack hoff]
        exact .refl _
      · rw [hother hoff]
        exact .refl _

/-- A write to the window: an acknowledgement, or completions, or neither. -/
theorem handleWrite_progress {write : MmioWrite} {d d' : Device}
    (h : d.handleWrite p write = .ok d') :
    Completes (d.irqView.ack (ackValue p write)) d'.irqView := by
  have hreply (d₁ : Device) : (d₁.emit (.writeResp write.id)).irqView = d₁.irqView :=
    irqView_emit d₁ _ rfl
  unfold handleWrite at h
  dsimp only at h
  cases hk : p.kernel with
  | some k =>
      simp only [hk] at h
      by_cases hdoor : write.pAddr - p.baseAddr = REG_DOORBELL
      · rw [if_pos hdoor] at h
        rw [ackValue, hdoor, if_neg (by decide), IrqView.ack_zero]
        rw [irqView_kernelDoorbell h]
        exact .refl _
      · rw [if_neg hdoor] at h
        cases hreg : d.writeRegister p (write.pAddr - p.baseAddr) write with
        | error e =>
            rw [hreg] at h
            cases h
        | ok d₁ =>
            rw [hreg] at h
            have hprog := writeRegister_progress hirq hreg
            cases h
            split_ifs
            · rw [hreply]
              exact hprog
            · exact hprog
  | none =>
      simp only [hk] at h
      cases hreg : d.writeRegister p (write.pAddr - p.baseAddr) write with
      | error e =>
          rw [hreg] at h
          cases h
      | ok d₁ =>
          rw [hreg] at h
          have hprog := writeRegister_progress hirq hreg
          dsimp only [bind, Except.bind] at h
          split_ifs at h <;> cases h
          · exact hprog
          · rw [hreply]
            exact hprog
          · exact hprog

/-- The number of completions an event acknowledges. -/
def eventAck (p : Params) : DeviceEvent → ℕ
  | .write write => Device.ackValue p write
  | _ => 0

/-- An event completes operations or acknowledges completions. -/
theorem step_progress {e : DeviceEvent} {d d' : Device} (h : d.step p e = .ok d') :
    Completes (d.irqView.ack (eventAck p e)) d'.irqView := by
  cases e with
  | write write => exact handleWrite_progress hirq h
  | read read =>
      cases h
      rw [show eventAck p _ = 0 from rfl, IrqView.ack_zero]
      unfold handleRead
      dsimp only
      rw [irqView_emit _ _ rfl]
      split_ifs
      · exact retireIfReady_completes hirq _ _
      · exact .refl _
  | tick =>
      cases h
      rw [show eventAck p _ = 0 from rfl, IrqView.ack_zero]
      simp only [tickBusy, irqView_updatePrimaryHold]
      exact retireIfReady_completes hirq _ { d with gpuClk := wrap64 (d.gpuClk + 1) }
  | respond i data =>
      rw [show eventAck p _ = 0 from rfl, IrqView.ack_zero]
      simp only [step] at h
      split at h
      · rw [irqView_opOnReadResp h]
        exact .refl _
      · cases h
        exact opOnWriteResp_completes hirq _
      · cases h
        exact .refl _

end Device

/-! ### No completion is lost -/

/-- The levels of a line that starts low: up, down, up, and so on. -/
def alternating : ℕ → List ℕ
  | 0 => []
  | n + 1 => alternating n ++ [(n + 1) % 2]

/-- Each change of the line is one level. -/
@[simp] theorem length_alternating (n : ℕ) : (alternating n).length = n := by
  induction n with
  | zero => rfl
  | succ n ih => simp [alternating, ih]

/-- Completions are counted until they are consumed, and the line is up while there are any. -/
structure IrqOk (consumed : ℕ) (x : IrqView) : Prop where
  events : x.irqEvents + consumed = x.kernelId
  pending : x.irqPending = true ↔ 0 < x.irqEvents
  levels : ∃ n, x.levels = alternating n ∧ (x.irqPending = true ↔ n % 2 = 1)

variable {p : Params} {consumed : ℕ} {x y : IrqView}

/-- A completion adds one event and raises a line that is low. -/
theorem IrqOk.complete (h : IrqOk consumed x) : IrqOk consumed x.complete := by
  obtain ⟨n, hl, hn⟩ := h.levels
  have hevents := h.events
  refine ⟨?_, ⟨fun _ => Nat.succ_pos _, fun _ => rfl⟩, ?_⟩
  · simp only [IrqView.complete]
    omega
  · by_cases hp : x.irqPending = true
    · exact ⟨n, by simp [IrqView.complete, hp, hl], by simpa [IrqView.complete, hp] using hn⟩
    · have heven : n % 2 = 0 := by
        rcases Nat.mod_two_eq_zero_or_one n with h0 | h1
        · exact h0
        · exact absurd (hn.mpr h1) hp
      refine ⟨n + 1, ?_, ?_⟩
      · have hlast : (n + 1) % 2 = 1 := by omega
        simp [IrqView.complete, hp, hl, alternating, hlast]
      · simp only [IrqView.complete, true_iff]
        omega

/-- So do several. -/
theorem IrqOk.completes (h : IrqOk consumed x) (hxy : Device.Completes x y) : IrqOk consumed y := by
  obtain ⟨n, rfl⟩ := hxy
  induction n with
  | zero => exact h
  | succ n ih =>
      rw [Function.iterate_succ_apply']
      exact ih.complete

/-- An acknowledgement of `n` while the line is up consumes up to `n` events. -/
theorem IrqOk.ack (h : IrqOk consumed x) (n : ℕ) :
    IrqOk (consumed + if x.irqPending then min n x.irqEvents else 0) (x.ack n) := by
  obtain ⟨m, hl, hm⟩ := h.levels
  have hevents := h.events
  by_cases hp : x.irqPending = true
  · have hpos := h.pending.mp hp
    by_cases hn : n = 0
    · simpa [IrqView.ack, hn] using h
    · by_cases hlt : n < x.irqEvents
      · simp only [IrqView.ack, hp, hn, hlt, ne_eq, not_false_eq_true, and_self, if_true,
          Nat.min_eq_left hlt.le]
        refine ⟨?_, ?_, m, hl, by simpa [hp] using hm⟩
        · dsimp only
          omega
        · simp only [true_iff]
          omega
      · simp only [IrqView.ack, hp, hn, hlt, ne_eq, not_false_eq_true, and_self, if_true, if_false,
          Nat.min_eq_right (Nat.not_lt.mp hlt)]
        have hodd := hm.mp hp
        have hlast : (m + 1) % 2 = 0 := by omega
        refine ⟨?_, by simp, m + 1, ?_, by simp [hlast]⟩
        · dsimp only
          omega
        · simp [hl, alternating, hlast]
  · simpa [IrqView.ack, hp] using h

/-- The device, and the completion events its acknowledgements consumed. -/
structure IrqWorld where
  device : Device
  consumed : ℕ := 0

namespace IrqWorld

/-- The events an event of the run consumes: an acknowledgement of `N` while the line is up
consumes `min N irqEvents`. -/
def consumes (p : Params) (d : Device) (e : DeviceEvent) : ℕ :=
  if d.irqPending then min (Device.eventAck p e) d.irqEvents else 0

/-- The states a constructed device reaches. -/
inductive Reachable (p : Params) : IrqWorld → Prop
  | start {d : Device} : construct p = .ok d → Reachable p ⟨d, 0⟩
  | step {w : IrqWorld} {d : Device} (e : DeviceEvent) : Reachable p w →
      w.device.step p e = .ok d → Reachable p ⟨d, w.consumed + consumes p w.device e⟩

/-- In every reachable state, by induction on the run. -/
theorem Reachable.ok {w : IrqWorld} (hirq : 0 ≤ p.irqLine) (hw : Reachable p w) :
    IrqOk w.consumed w.device.irqView := by
  induction hw with
  | start hd =>
      obtain rfl := construct_eq_ok hd
      exact ⟨rfl, by simp [Device.irqView], 0, rfl, by simp [Device.irqView]⟩
  | step e _ hstep ih =>
      exact (ih.ack (Device.eventAck p e)).completes (Device.step_progress hirq hstep)

/-- Events, line and levels. -/
structure Exact (w : IrqWorld) : Prop where
  /-- The events are the completions that were not consumed. -/
  events : w.device.irqEvents = w.device.kernelId - w.consumed
  consumed_le : w.consumed ≤ w.device.kernelId
  /-- The line is up as long as there are events. -/
  pending : w.device.irqPending = true ↔ 0 < w.device.irqEvents
  /-- The levels sent alternate, beginning with 1. -/
  alternate : w.device.irqLevels = alternating w.device.irqLevels.length
  /-- The last level is the line, or none was sent and the line is down. -/
  last : w.device.irqLevels.getLastD 0 = if w.device.irqPending then 1 else 0

/-- **No completion interrupt is lost or invented**, in every state the device reaches. -/
theorem completions_not_lost {w : IrqWorld} (hirq : 0 ≤ p.irqLine) (hw : Reachable p w) :
    Exact w := by
  obtain ⟨hevents, hpending, n, hlevels, hn⟩ := hw.ok hirq
  simp only [Device.irqView] at hevents hpending hlevels hn
  refine ⟨by omega, by omega, hpending, by rw [hlevels, length_alternating], ?_⟩
  rw [hlevels]
  cases n with
  | zero => simpa [alternating] using hn
  | succ n =>
      simp only [alternating, List.getLastD_concat]
      split_ifs with hp
      · exact hn.mp hp
      · have := mt hn.mpr hp
        omega

/-! ### A burst -/

/-- A latency model with an interrupt line. -/
def burstParams : Params where
  kernelLatency := 2
  irqLine := 3
  hasIrqLink := true

/-- A write of one byte to a register. -/
def byteWrite (reg : UInt64) (value : UInt8) : DeviceEvent := .write ⟨0, reg, 1, [value], true⟩

/-- Two launches complete, one is acknowledged, a third one completes before the next
acknowledgement. -/
def burst : List DeviceEvent :=
  [byteWrite REG_DOORBELL 1, byteWrite REG_DOORBELL 1, .tick, .tick, .tick, .tick,
    byteWrite REG_IRQ_ACK 1, byteWrite REG_DOORBELL 1, .tick, .tick, byteWrite REG_IRQ_ACK 255]

/-- The world after the events. -/
def run (p : Params) : List DeviceEvent → IrqWorld → Option IrqWorld
  | [], w => some w
  | e :: es, w =>
    match w.device.step p e with
    | .error _ => none
    | .ok d => run p es ⟨d, w.consumed + consumes p w.device e⟩

/-- What `run` computes is reachable. -/
theorem Reachable.run {es : List DeviceEvent} {w w' : IrqWorld} (hw : Reachable p w)
    (hrun : w.run p es = some w') : Reachable p w' := by
  induction es generalizing w with
  | nil =>
      cases hrun
      exact hw
  | cons e es ih =>
      rw [IrqWorld.run] at hrun
      cases hstep : w.device.step p e with
      | error msg =>
          rw [hstep] at hrun
          cases hrun
      | ok d =>
          rw [hstep] at hrun
          exact ih (hw.step e hstep) hrun

/-- After the burst three completions were consumed and the line went up and down once. -/
theorem completions_not_lost_burst : ∃ w, Reachable burstParams w ∧ Exact w ∧
    w.device.kernelId = 3 ∧ w.consumed = 3 ∧ w.device.irqLevels = [1, 0] := by
  have hstart : construct burstParams = .ok { holdingSim := true, trace := [.doNotEndSim] } := rfl
  have hfin : (run burstParams burst ⟨{ holdingSim := true, trace := [.doNotEndSim] }, 0⟩).any
      (fun w => decide (w.device.kernelId = 3 ∧ w.consumed = 3 ∧
        w.device.irqLevels = [1, 0])) = true := by
    decide +kernel
  obtain ⟨w, hrun, hfin⟩ := (Option.any_eq_true _ _).mp hfin
  have hreach := (Reachable.start hstart).run hrun
  exact ⟨w, hreach, completions_not_lost (by decide) hreach, of_decide_eq_true hfin⟩

end IrqWorld

end Quetz.GpuDevice
