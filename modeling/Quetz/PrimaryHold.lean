import Quetz.GpuOps
import Quetz.LevelLine

/-!
# The Simulation Hold of the GPU Device

A primary component keeps the simulation alive between `primaryComponentDoNotEndSim` and
`primaryComponentOKToEndSim`. The device holds the simulation while it has outstanding work.
`updatePrimaryHold` is called at the end of most handlers; some calls may only take the hold, and
the others may also release it.

## Main results

* `updatePrimaryHold_safe`: a call, of either kind, leaves no work without the hold.
* `primary_hold_safe`: work, held doorbell and hold, in every state the device reaches.
-/

namespace Quetz.GpuDevice

open ByteMemory

/-! ### The part of the device the hold depends on -/

/-- The calls of the simulation hold: 1 takes it, 0 releases it. -/
def Action.holdCall : Action → Option ℕ
  | .doNotEndSim => some 1
  | .okToEndSim => some 0
  | _ => none

/-- The hold calls so far, oldest first. -/
def Device.holdCalls (d : Device) : List ℕ := d.trace.filterMap Action.holdCall

/-- What the hold of a device depends on. -/
structure HoldView where
  calls : List ℕ
  holding : Bool
  busy : ℕ
  pending : List ℕ
  phase : OpPhase
  resp : Option ℕ

/-- The hold of a device. -/
def Device.holdView (d : Device) : HoldView :=
  ⟨d.holdCalls, d.holdingSim, d.busyUntilClk, d.pendingLatencies, d.op.phase, d.opDoorbellResp⟩

namespace HoldView

/-- `hasOutstandingWork`. -/
def Working (x : HoldView) : Prop := x.busy ≠ 0 ∨ x.pending ≠ [] ∨ x.phase ≠ .idle

/-- Between two events, outstanding work is covered by the hold. -/
structure Safe (x : HoldView) : Prop where
  calls : LevelLine x.calls x.holding
  work : x.Working → x.holding = true
  resp : x.resp ≠ none → x.phase ≠ .idle

end HoldView

namespace Device

variable {p : Params} {d d' : Device}

/-- The predicate of the source is `Working`. -/
theorem hasOutstandingWork_iff : d.hasOutstandingWork = true ↔ d.holdView.Working := by
  simp [hasOutstandingWork, HoldView.Working, holdView, or_assoc]

variable (p d)

/-- An action that is no hold call is not seen by the hold. -/
theorem holdView_emit {a : Action} (h : a.holdCall = none) : (d.emit a).holdView = d.holdView := by
  simp [holdView, holdCalls, emit, h]

/-- A record of the event log is none. -/
@[simp] theorem holdView_emitEvent (r : Record) : (d.emitEvent p r).holdView = d.holdView := by
  rw [emitEvent]
  split_ifs
  · exact holdView_emit d rfl
  · rfl

/-- A record about the interrupt is none. -/
@[simp] theorem holdView_emitIrqEvent (kind : String) (value : UInt32) (observer : String) :
    (d.emitIrqEvent p kind value observer).holdView = d.holdView := by
  rw [emitIrqEvent]
  split_ifs
  · exact holdView_emitEvent p d _
  · rfl

/-- The interrupt of a completion is apart from the hold. -/
@[simp] theorem holdView_raiseIrqOnRetire : (d.raiseIrqOnRetire p).holdView = d.holdView := by
  rw [raiseIrqOnRetire]
  dsimp only
  split_ifs
  · rfl
  · rfl
  · rw [holdView_emit _ rfl, holdView_emitIrqEvent]
    rfl

/-- So is the acknowledgement, whether it lowers the line or not. -/
@[simp] theorem holdView_ackIrq (consume : UInt64) :
    (d.ackIrq p consume).holdView = d.holdView := by
  have hack := holdView_emitIrqEvent p d "irq-acknowledged" consume.toUInt32 "device"
  have hdrop (d₁ : Device) (h : d₁.holdView = d.holdView) :
      ((emitIrqEvent p d₁ "irq-deasserted" 0).emit (.irqSend 0)).holdView = d.holdView := by
    rw [holdView_emit _ rfl, holdView_emitIrqEvent, h]
  rw [ackIrq]
  dsimp only
  split_ifs
  · rfl
  · exact hack
  · exact hdrop _ hack
  · exact hack
  · exact hdrop _ hack

/-- The answer to a held doorbell. -/
@[simp] theorem holdView_releaseOpDoorbell :
    d.releaseOpDoorbell.holdView = { d.holdView with resp := none } := by
  rw [releaseOpDoorbell]
  split
  · simp [holdView, holdCalls, emit, Action.holdCall]
  · rename_i hnone
    simp [holdView, hnone]

/-- Issuing reads is no hold call. -/
theorem holdView_opIssueReads (fuel : ℕ) : (d.opIssueReads p fuel).holdView = d.holdView := by
  induction fuel generalizing d with
  | zero => rfl
  | succ fuel ih =>
      rw [opIssueReads]
      split_ifs
      · rw [ih]
        exact holdView_emit _ rfl
      · rfl

/-- Issuing writes is none. -/
theorem holdView_opIssueWrites (fuel : ℕ) : (d.opIssueWrites p fuel).holdView = d.holdView := by
  induction fuel generalizing d with
  | zero => rfl
  | succ fuel ih =>
      rw [opIssueWrites]
      split_ifs
      · rw [ih]
        exact holdView_emit _ rfl
      · rfl

variable {p d}

/-- A safe hold stays safe over an action that is no hold call. -/
theorem safe_emit (hsafe : d.holdView.Safe) {a : Action} (h : a.holdCall = none) :
    (d.emit a).holdView.Safe := by
  rw [holdView_emit d h]
  exact hsafe

/-! ### Handlers -/

/-- A call takes the hold where it is missing, and releases it only where no work is left. -/
theorem updatePrimaryHold_safe (b : Bool) (hcalls : LevelLine d.holdCalls d.holdingSim)
    (hresp : d.opDoorbellResp ≠ none → d.op.phase ≠ .idle) :
    (d.updatePrimaryHold b).holdView.Safe := by
  rw [updatePrimaryHold]
  by_cases hwork : d.hasOutstandingWork = true
  · rw [if_pos hwork]
    cases hhold : d.holdingSim with
    | false =>
        rw [hhold] at hcalls
        refine ⟨?_, fun _ => rfl, hresp⟩
        simpa [holdView, holdCalls, emit, Action.holdCall] using hcalls.raise
    | true => exact ⟨hcalls, fun _ => hhold, hresp⟩
  · have hidle : ¬d.holdView.Working := fun hw => hwork (hasOutstandingWork_iff.mpr hw)
    rw [if_neg hwork]
    split_ifs with hrelease
    · have hhold : d.holdingSim = true := (Bool.and_eq_true_iff.mp hrelease).1
      rw [hhold] at hcalls
      refine ⟨?_, fun hw => absurd hw hidle, hresp⟩
      simpa [holdView, holdCalls, emit, Action.holdCall] using hcalls.lower
    · exact ⟨hcalls, fun hw => absurd hw hidle, hresp⟩

/-- The hold after a call depends only on the view. -/
theorem updatePrimaryHold_of_view (b : Bool) {x : HoldView} (hx : d.holdView = x)
    (hcalls : LevelLine x.calls x.holding) (hresp : x.resp ≠ none → x.phase ≠ .idle) :
    (d.updatePrimaryHold b).holdView.Safe := by
  subst hx
  exact updatePrimaryHold_safe b hcalls hresp

/-- A rejection ends the operation and answers the doorbell it held back. -/
theorem opReject_safe (why : String) (hcalls : LevelLine d.holdCalls d.holdingSim) :
    (d.opReject p why).holdView.Safe := by
  have hview : ((d.emitEvent p (.error "operation-rejected")).emit (.reject why)).holdView =
      d.holdView := (holdView_emit _ rfl).trans (holdView_emitEvent p d _)
  rw [opReject]
  dsimp only
  generalize (d.emitEvent p (.error "operation-rejected")).emit (.reject why) = d₁ at hview ⊢
  refine updatePrimaryHold_of_view true (holdView_releaseOpDoorbell _) ?_ fun h => absurd rfl h
  have hd₁ : LevelLine d₁.holdView.calls d₁.holdView.holding := by rwa [hview]
  exact hd₁

/-- The DMA of an operation starts, or the operation is rejected. -/
theorem opStartDma_safe (k : QuetzKernel) (hcalls : LevelLine d.holdCalls d.holdingSim) :
    (d.opStartDma p k).holdView.Safe := by
  rw [opStartDma]
  dsimp only
  split_ifs
  · exact opReject_safe _ hcalls
  · exact opReject_safe _ hcalls
  · exact opReject_safe _ hcalls
  · exact opReject_safe _ hcalls
  · refine updatePrimaryHold_of_view _ (holdView_opIssueReads _ _ _) hcalls ?_
    exact fun _ hidle => by cases hidle

/-- The write back takes the hold, or the operation is rejected. -/
theorem opBeginWriteback_safe (hcalls : LevelLine d.holdCalls d.holdingSim) :
    (d.opBeginWriteback p).holdView.Safe := by
  rw [opBeginWriteback]
  split_ifs
  · exact opReject_safe _ hcalls
  · refine updatePrimaryHold_of_view _ (holdView_opIssueWrites _ _ _) hcalls ?_
    exact fun _ hidle => by cases hidle

/-- The computation starts the busy window, or goes on to the write back. -/
theorem opComputeAndStartBusy_safe {k : QuetzKernel} (hsafe : d.holdView.Safe)
    (h : d.opComputeAndStartBusy p k = .ok d') : d'.holdView.Safe := by
  have hview : (d.emit (.compute d.op.args d.op.input)).holdView = d.holdView :=
    holdView_emit d rfl
  have hcalls : LevelLine (d.emit (.compute d.op.args d.op.input)).holdView.calls
      (d.emit (.compute d.op.args d.op.input)).holdView.holding := by
    rw [hview]
    exact hsafe.calls
  rw [opComputeAndStartBusy] at h
  dsimp only at h
  split_ifs at h <;> cases h <;> first
    | exact opBeginWriteback_safe hcalls
    | exact updatePrimaryHold_safe false hcalls hsafe.resp

/-- A read response issues more reads; the last one starts the computation. -/
theorem opOnReadResp_safe {k : QuetzKernel} {id : ℕ} {data : List UInt8} (hsafe : d.holdView.Safe)
    (h : d.opOnReadResp p k id data = .ok d') : d'.holdView.Safe := by
  rw [opOnReadResp] at h
  split at h
  · cases h
  · rename_i off _
    have hview : ({ d with op := { d.op with
        reqOff := Function.update d.op.reqOff id none
        input := overwrite d.op.input off (data.take (d.op.inBytes - off))
        outstanding := d.op.outstanding - 1 } }.opIssueReadWindow p).holdView = d.holdView :=
      holdView_opIssueReads _ _ _
    dsimp only at h
    split_ifs at h
    · exact opComputeAndStartBusy_safe (hview ▸ hsafe) h
    · cases h
      exact hview ▸ hsafe

/-- The end of an operation settles the hold. -/
theorem opFinish_safe (hsafe : d.holdView.Safe) : (d.opFinish p).holdView.Safe := by
  have hview : ((d.emitEvent p .completed).emit .finish).holdView = d.holdView :=
    (holdView_emit _ rfl).trans (holdView_emitEvent p d _)
  rw [opFinish]
  dsimp only
  generalize (d.emitEvent p .completed).emit .finish = d₁ at hview ⊢
  refine updatePrimaryHold_of_view true
    ((holdView_raiseIrqOnRetire p _).trans (holdView_releaseOpDoorbell _)) ?_ fun h => absurd rfl h
  have hd₁ : LevelLine d₁.holdView.calls d₁.holdView.holding := by
    rw [hview]
    exact hsafe.calls
  exact hd₁

/-- A write response issues more writes; the last one ends the operation. -/
theorem opOnWriteResp_safe (hsafe : d.holdView.Safe) : (d.opOnWriteResp p).holdView.Safe := by
  rw [opOnWriteResp]
  split_ifs with h0
  · exact hsafe
  · have hview : ({ d with op := { d.op with
        outstanding := d.op.outstanding - 1 } }.opIssueWriteWindow p).holdView = d.holdView :=
      holdView_opIssueWrites _ _ _
    dsimp only
    split_ifs
    · exact opFinish_safe (hview ▸ hsafe)
    · exact hview ▸ hsafe

/-! ### The latency model -/

/-- A launch takes the hold for its busy window; one of no latency settles it at once. -/
theorem startKernel_safe (nowClk latency : ℕ) (hcalls : LevelLine d.holdCalls d.holdingSim)
    (hresp : d.opDoorbellResp ≠ none → d.op.phase ≠ .idle) :
    (d.startKernel p nowClk latency).holdView.Safe := by
  rw [startKernel]
  split_ifs
  · exact updatePrimaryHold_of_view _ (holdView_raiseIrqOnRetire _ _) hcalls hresp
  · exact updatePrimaryHold_safe _ hcalls hresp

/-- Each queued launch that starts settles the hold; the queue left behind is covered by it. -/
theorem startPending_safe (nowClk : ℕ) (queue : List ℕ) (hsafe : d.holdView.Safe) :
    (d.startPending p nowClk queue).holdView.Safe := by
  induction queue generalizing d with
  | nil => exact hsafe
  | cons latency queue ih =>
      rw [startPending]
      split_ifs
      · exact ih (startKernel_safe nowClk latency hsafe.calls hsafe.resp)
      · exact hsafe

/-- A launch that retires leaves at most the work there was. -/
theorem retireLaunch_safe (hsafe : d.holdView.Safe) : (d.retireLaunch p).holdView.Safe := by
  have hview : (d.retireLaunch p).holdView = { d.holdView with busy := 0 } := by
    rw [retireLaunch, holdView_raiseIrqOnRetire, releaseDeferred]
    split
    · simp [holdView, holdCalls, emit, Action.holdCall]
    · rfl
  rw [hview]
  refine ⟨hsafe.calls, ?_, hsafe.resp⟩
  rintro (hbusy | hrest)
  · exact absurd rfl hbusy
  · exact hsafe.work (.inr hrest)

/-- The end of the busy window, of a launch or of an operation. -/
theorem retireIfReady_safe (nowClk : ℕ) (hsafe : d.holdView.Safe) :
    (d.retireIfReady p nowClk).holdView.Safe := by
  by_cases hready : d.busyUntilClk = 0 ∨ nowClk < d.busyUntilClk
  · rw [retireIfReady, if_pos hready]
    exact hsafe
  · by_cases hkernel : p.kernel.isSome ∧ d.op.phase = .reading
    · rw [retireIfReady, if_neg hready, if_pos hkernel]
      exact opBeginWriteback_safe hsafe.calls
    · rw [retireIfReady_launch hready hkernel]
      exact startPending_safe nowClk _ (retireLaunch_safe hsafe)

/-- A tick is a retirement at the new clock. -/
theorem tickBusy_safe (hsafe : d.holdView.Safe) : (d.tickBusy p).holdView.Safe := by
  have hretire := retireIfReady_safe (p := p) (d := { d with gpuClk := wrap64 (d.gpuClk + 1) })
    (wrap64 (d.gpuClk + 1)) hsafe
  exact updatePrimaryHold_safe true hretire.calls hretire.resp

/-- A doorbell of the latency model starts a launch, queues it, or is refused. -/
theorem syntheticDoorbell_safe (hsafe : d.holdView.Safe) :
    (d.syntheticDoorbell p).holdView.Safe := by
  have hretire := retireIfReady_safe (p := p) (d := { d with latencyOverride := 0 }) d.gpuClk hsafe
  rw [syntheticDoorbell]
  dsimp only
  split_ifs
  · exact startKernel_safe _ _ hretire.calls hretire.resp
  · exact startKernel_safe _ _ hretire.calls hretire.resp
  all_goals first
    | exact updatePrimaryHold_safe _ hretire.calls hretire.resp
    | exact hretire

/-! ### Runs -/

/-- A doorbell of the kernel mode starts an operation or rejects it. -/
theorem kernelDoorbell_safe {k : QuetzKernel} {write : MmioWrite} (hsafe : d.holdView.Safe)
    (h : d.kernelDoorbell p k write = .ok d') : d'.holdView.Safe := by
  -- The launch and its event come first; the response of a doorbell that does not block last.
  have hstart (d₁ : Device) (ticket : ℕ) (hc : LevelLine d₁.holdView.calls d₁.holdView.holding) :
      (((d₁.emit (.launch ticket)).emitEvent p .requested).opStartDma p k).holdView.Safe := by
    rw [← holdView_emit d₁ (a := .launch ticket) rfl, ← holdView_emitEvent p _ .requested] at hc
    exact opStartDma_safe k hc
  rw [kernelDoorbell] at h
  dsimp only at h
  split_ifs at h <;> cases h <;> first
    | exact safe_emit (hstart _ _ (by exact hsafe.calls)) rfl
    | exact hstart _ _ (by exact hsafe.calls)

/-- Of the registers only the doorbell brings work. -/
theorem writeRegister_safe {offset : UInt64} {write : MmioWrite} (hsafe : d.holdView.Safe)
    (h : d.writeRegister p offset write = .ok d') : d'.holdView.Safe := by
  cases writeRegister_cases h with
  | doorbell => exact syntheticDoorbell_safe hsafe
  | delivered => rwa [holdView_emitIrqEvent]
  | settled => rwa [holdView_emitIrqEvent]
  | checkpoint => rwa [holdView_emitEvent]
  | latency => exact hsafe
  | args => exact hsafe
  | ack => rwa [holdView_ackIrq]
  | nothing => exact hsafe

/-- The response of a write may be held back, with the operation that owes it. -/
theorem handleWrite_safe {write : MmioWrite} (hsafe : d.holdView.Safe)
    (h : d.handleWrite p write = .ok d') : d'.holdView.Safe := by
  have hreply (d₁ : Device) (h₁ : d₁.holdView.Safe) :
      (if (!write.posted) = true then d₁.emit (.writeResp write.id) else d₁).holdView.Safe := by
    split_ifs
    · exact safe_emit h₁ rfl
    · exact h₁
  cases hk : p.kernel with
  | some k =>
      simp only [handleWrite, hk] at h
      by_cases hdoor : write.pAddr - p.baseAddr = REG_DOORBELL
      · rw [if_pos hdoor] at h
        exact kernelDoorbell_safe hsafe h
      · rw [if_neg hdoor] at h
        cases hreg : d.writeRegister p (write.pAddr - p.baseAddr) write with
        | error e =>
            rw [hreg] at h
            cases h
        | ok d₁ =>
            rw [hreg] at h
            cases h
            exact hreply d₁ (writeRegister_safe hsafe hreg)
  | none =>
      simp only [handleWrite, hk] at h
      cases hreg : d.writeRegister p (write.pAddr - p.baseAddr) write with
      | error e =>
          rw [hreg] at h
          cases h
      | ok d₁ =>
          have h₁ := writeRegister_safe hsafe hreg
          rw [hreg] at h
          dsimp only [bind, Except.bind] at h
          split_ifs at h <;> cases h
          · exact h₁
          · exact safe_emit h₁ rfl
          · exact h₁

/-- A read that polls the device may retire a launch. -/
theorem handleRead_safe (read : MmioRead) (hsafe : d.holdView.Safe) :
    (d.handleRead p read).holdView.Safe := by
  rw [handleRead]
  refine safe_emit ?_ rfl
  split_ifs
  · exact retireIfReady_safe _ hsafe
  · exact hsafe

/-- Every event keeps the hold safe. -/
theorem step_safe {e : DeviceEvent} (hsafe : d.holdView.Safe) (h : d.step p e = .ok d') :
    d'.holdView.Safe := by
  cases e with
  | write write => exact handleWrite_safe hsafe h
  | read read =>
      cases h
      exact handleRead_safe read hsafe
  | tick =>
      cases h
      exact tickBusy_safe hsafe
  | respond i data =>
      rw [step] at h
      split at h
      · exact opOnReadResp_safe (by exact hsafe) h
      · cases h
        exact opOnWriteResp_safe (by exact hsafe)
      · cases h
        exact hsafe

/-- In every state the device reaches. -/
theorem Reaches.holdSafe {ok : Device → DeviceEvent → Prop} (hd : Reaches p ok d) :
    d.holdView.Safe := by
  induction hd with
  | start hd =>
      obtain rfl := construct_eq_ok hd
      exact ⟨LevelLine.nil.raise, fun _ => rfl, fun h => absurd rfl h⟩
  | step e _ _ hstep ih => exact step_safe ih hstep

end Device

/-- **Outstanding work holds the simulation**: in every state the device reaches, in both modes,
outstanding work is covered by the hold, a held doorbell response belongs to an operation that is
not over, and the calls of the hold alternate, the last one being the hold itself. -/
theorem primary_hold_safe {p : Params} {d : Device} (hd : Device.Reaches p (fun _ _ => True) d) :
    (d.hasOutstandingWork = true → d.holdingSim = true) ∧
    (d.opDoorbellResp ≠ none → d.op.phase ≠ .idle) ∧
    d.holdCalls = alternating d.holdCalls.length ∧
    d.holdCalls.getLastD 0 = if d.holdingSim then 1 else 0 := by
  obtain ⟨hcalls, hwork, hresp⟩ := hd.holdSafe
  exact ⟨fun h => hwork (Device.hasOutstandingWork_iff.mp h), hresp, hcalls.alternate, hcalls.last⟩

/-- A blocking operation in flight: the device took the hold again at its doorbell. -/
theorem primary_hold_safe_copier : ∃ d, Device.Reaches copierParams (fun _ _ => True) d ∧
    d.opDoorbellResp = some 4 ∧ d.holdCalls = [1, 0, 1] ∧ d.holdingSim = true := by
  have hfin : (Device.runs copierParams (fun _ _ => True) [.tick, write64 0 REG_ARG0 0x1000,
      write64 1 REG_ARG1 0x1000, write64 2 REG_ARG2 4, write64 4 REG_DOORBELL 1] constructed).any
      (fun d => decide (d.opDoorbellResp = some 4 ∧ d.holdCalls = [1, 0, 1] ∧
        d.hasOutstandingWork = true)) = true := by
    decide +kernel
  obtain ⟨d, hrun, hfin⟩ := (Option.any_eq_true _ _).mp hfin
  obtain ⟨hresp, hcalls, hwork⟩ := of_decide_eq_true hfin
  have hreach := Device.Reaches.runs (.start (by rfl)) hrun
  exact ⟨d, hreach, hresp, hcalls, (primary_hold_safe hreach).1 hwork⟩

end Quetz.GpuDevice
