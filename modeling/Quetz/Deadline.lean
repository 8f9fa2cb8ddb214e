import Quetz.GpuOps

/-!
# Latency Deadlines of the GPU Device

A launch with the latency `L` at the clock `c` keeps the device busy until the clock is `c + L`.
The device stores that sum in 64 bits, and zero in the same register says that nothing runs. A
latency that the guest chose near the end of the range wraps the sum: the launch is forgotten when
it comes out as zero, and over at the next look at the clock otherwise.

`Device.launches` lists the launches an event starts, the calls of `startKernel` in the latency
model and of `opComputeAndStartBusy` with a kernel. Where every sum fits, each launch is held to its
deadline. Time is counted in ticks, without a bound.

## Main results

* `Timed.step`: an event leaves at most the newest launch running, ahead of its deadline.
* `deadlines_honoured_iff`: a run honours its deadlines exactly when all of its sums fit.
-/

namespace Quetz.GpuDevice

open ByteMemory

/-! ### Launches -/

/-- A launch: the clock, the latency and the completion count at its start, and the ticks so far. -/
structure Launch where
  clock : ℕ
  latency : ℕ
  kernelId : ℕ
  ticks : ℕ
deriving DecidableEq, Repr

namespace Launch

/-- The deadline is a 64-bit number. A launch without latency has none. -/
def Fits (l : Launch) : Prop := 0 < l.latency → l.clock + l.latency < 2 ^ 64

instance (l : Launch) : Decidable l.Fits := inferInstanceAs (Decidable (_ → _))

/-- The deadline the device computes for a launch that fits. -/
theorem Fits.wrap64_eq {clock latency kernelId t : ℕ} (h : Fits ⟨clock, latency, kernelId, t⟩)
    (hpos : 0 < latency) : wrap64 (clock + latency) = clock + latency :=
  Nat.mod_eq_of_lt (h hpos)

/-- The clock has reached the deadline. -/
def Over (t : ℕ) (l : Launch) : Prop := l.ticks + l.latency ≤ t

end Launch

namespace Device

variable (p : Params) (t : ℕ)

/-- The launches of `startPending`. -/
def pendingLaunches (nowClk : ℕ) : List ℕ → Device → List Launch
  | [], _ => []
  | latency :: rest, d =>
    if d.busyUntilClk = 0 then
      ⟨nowClk, latency, d.kernelId, t⟩ :: pendingLaunches nowClk rest
        (startKernel p nowClk latency { d with pendingLatencies := rest })
    else []

variable (d : Device)

/-- The launches of `retireIfReady`. -/
def retireLaunches (nowClk : ℕ) : List Launch :=
  if d.busyUntilClk = 0 ∨ nowClk < d.busyUntilClk then []
  else if p.kernel.isSome ∧ d.op.phase = .reading then []
  else pendingLaunches p t nowClk (d.retireLaunch p).pendingLatencies (d.retireLaunch p)

/-- The launches of `syntheticDoorbell`. -/
def doorbellLaunches : List Launch :=
  let latency := if d.latencyOverride = 0 then p.kernelLatency.toNat else d.latencyOverride
  let d := { d with latencyOverride := 0 }
  let retired := d.retireIfReady p d.gpuClk
  d.retireLaunches p t d.gpuClk ++
    if !retired.isBusyAt && retired.pendingLatencies.isEmpty then
      [⟨d.gpuClk, latency, retired.kernelId, t⟩]
    else []

/-- The launch of `opOnReadResp`, after the last read. -/
def readRespLaunches (k : QuetzKernel) (id : ℕ) (data : List UInt8) : List Launch :=
  match d.op.reqOff id with
  | none => []
  | some off =>
    let op := { d.op with
      reqOff := Function.update d.op.reqOff id none
      input := overwrite d.op.input off (data.take (d.op.inBytes - off))
      outstanding := d.op.outstanding - 1 }
    let d := { d with op }.opIssueReadWindow p
    if d.op.outstanding = 0 ∧ d.op.nextDmaOff = d.op.inBytes then
      [⟨d.gpuClk, d.opLatency p k, d.kernelId, t⟩]
    else []

/-- The launches an event starts. -/
def launches : DeviceEvent → List Launch
  | .write write =>
    if p.kernel.isNone ∧ write.pAddr - p.baseAddr = REG_DOORBELL then d.doorbellLaunches p t else []
  | .read read => if LaunchView.polls p read then d.retireLaunches p t d.gpuClk else []
  | .tick =>
    { d with gpuClk := wrap64 (d.gpuClk + 1) }.retireLaunches p t (wrap64 (d.gpuClk + 1))
  | .respond i data =>
    match d.memIface[i]?, p.kernel with
    | some (.read id _ _), some k =>
      { d with memIface := d.memIface.eraseIdx i }.readRespLaunches p t k id data
    | _, _ => []

variable {p t d}

/-- The queued launches that start. -/
theorem pendingLaunches_ticks {nowClk : ℕ} {queue : List ℕ} :
    ∀ l ∈ d.pendingLaunches p t nowClk queue, l.ticks = t := by
  induction queue generalizing d with
  | nil => exact fun l hl => (List.not_mem_nil hl).elim
  | cons latency queue ih =>
      rw [pendingLaunches]
      split_ifs
      · intro l hl
        rcases List.mem_cons.mp hl with rfl | hl
        · rfl
        · exact ih l hl
      · exact fun l hl => (List.not_mem_nil hl).elim

/-- The launches that a retirement starts. -/
theorem retireLaunches_ticks {nowClk : ℕ} : ∀ l ∈ d.retireLaunches p t nowClk, l.ticks = t := by
  rw [retireLaunches]
  split_ifs
  · exact fun l hl => (List.not_mem_nil hl).elim
  · exact fun l hl => (List.not_mem_nil hl).elim
  · exact pendingLaunches_ticks

/-- The launches that a doorbell starts. -/
theorem doorbellLaunches_ticks : ∀ l ∈ d.doorbellLaunches p t, l.ticks = t := by
  intro l hl
  rcases List.mem_append.mp hl with hl | hl
  · exact retireLaunches_ticks l hl
  · rw [List.mem_singleton.mp (List.mem_ite_nil_right.mp hl).2]

/-- A launch is listed with the ticks of its start. -/
theorem launches_ticks {e : DeviceEvent} : ∀ l ∈ d.launches p t e, l.ticks = t := by
  intro l hl
  cases e with
  | write write =>
      rw [launches] at hl
      exact doorbellLaunches_ticks l (List.mem_ite_nil_right.mp hl).2
  | read read =>
      rw [launches] at hl
      exact retireLaunches_ticks l (List.mem_ite_nil_right.mp hl).2
  | tick => exact retireLaunches_ticks l hl
  | respond i data =>
      rw [launches] at hl
      split at hl
      · rw [readRespLaunches] at hl
        split at hl
        · exact (List.not_mem_nil hl).elim
        · rw [List.mem_singleton.mp (List.mem_ite_nil_right.mp hl).2]
      · exact (List.not_mem_nil hl).elim

end Device

/-! ### The registers of the latency -/

/-- The registers a deadline depends on. -/
structure ClockView where
  clk : ℕ
  busy : ℕ
  kernelId : ℕ

/-- The deadline is a 64-bit number. -/
def ClockView.Word (x : ClockView) : Prop := x.busy < 2 ^ 64

/-- The clock of a device. -/
def Device.clockView (d : Device) : ClockView := ⟨d.gpuClk, d.busyUntilClk, d.kernelId⟩

namespace Device

variable {p : Params} {d d' : Device}

/-- A quiet change is not seen by the clock. -/
theorem clockView_quiet (h : Quiet d d') : d'.clockView = d.clockView := by
  obtain ⟨_, _, _, _, _, -, rfl⟩ := h
  rfl

/-- A launch stores its deadline; one of no latency is over. -/
theorem clockView_startKernel (nowClk latency : ℕ) : (d.startKernel p nowClk latency).clockView =
    if latency = 0 then ⟨d.gpuClk, 0, d.kernelId + 1⟩
    else ⟨d.gpuClk, wrap64 (nowClk + latency), d.kernelId⟩ := by
  rw [startKernel]
  split_ifs
  · rw [clockView_quiet (.updatePrimaryHold _ _), clockView_quiet (.raiseIrqOnRetire p _)]
    rfl
  · rw [clockView_quiet (.updatePrimaryHold _ _)]
    rfl

/-- The launch that runs is over. -/
theorem clockView_retireLaunch :
    (d.retireLaunch p).clockView = ⟨d.gpuClk, 0, d.kernelId + 1⟩ := by
  rw [retireLaunch, clockView_quiet (.raiseIrqOnRetire p _), releaseDeferred]
  split <;> rfl

/-- Issuing reads takes no time. -/
theorem clockView_opIssueReads (fuel : ℕ) : (d.opIssueReads p fuel).clockView = d.clockView := by
  induction fuel generalizing d with
  | zero => rfl
  | succ fuel ih =>
      rw [opIssueReads]
      split_ifs
      · rw [ih]
        rfl
      · rfl

/-- Issuing writes takes none. -/
theorem clockView_opIssueWrites (fuel : ℕ) : (d.opIssueWrites p fuel).clockView = d.clockView := by
  induction fuel generalizing d with
  | zero => rfl
  | succ fuel ih =>
      rw [opIssueWrites]
      split_ifs
      · rw [ih]
        rfl
      · rfl

/-- A rejection ends the busy window. -/
theorem clockView_opReject (why : String) :
    (d.opReject p why).clockView = { d.clockView with busy := 0 } := by
  have hevent := clockView_quiet (.emitEvent p d (.error "operation-rejected"))
  rw [opReject, clockView_quiet (.updatePrimaryHold _ _), releaseOpDoorbell]
  split <;> exact congrArg (fun x : ClockView => { x with busy := 0 }) hevent

/-- A writeback begins, or is refused, on a device that is not busy. -/
theorem clockView_opBeginWriteback (hbusy : d.busyUntilClk = 0) :
    (d.opBeginWriteback p).clockView = d.clockView := by
  rw [opBeginWriteback]
  split_ifs
  · rw [clockView_opReject, clockView, hbusy]
  · rw [clockView_quiet (.updatePrimaryHold _ _)]
    exact clockView_opIssueWrites _

/-- Neither the start of the DMA nor its rejection moves an idle clock. -/
theorem clockView_opStartDma (hbusy : d.busyUntilClk = 0) (k : QuetzKernel) :
    (d.opStartDma p k).clockView = d.clockView := by
  have hreject (why : String) (d₁ : Device) (h : d₁.clockView = d.clockView) :
      (d₁.opReject p why).clockView = d.clockView := by
    rw [clockView_opReject, h, clockView, hbusy]
  rw [opStartDma]
  dsimp only
  split_ifs
  · exact hreject _ _ rfl
  · exact hreject _ _ rfl
  · exact hreject _ _ rfl
  · exact hreject _ _ rfl
  · rw [clockView_quiet (.updatePrimaryHold _ _)]
    exact clockView_opIssueReads _

/-- Retirement looks at the clock only at or after the deadline. -/
theorem retireIfReady_early (t nowClk : ℕ)
    (h : d.busyUntilClk = 0 ∨ nowClk < d.busyUntilClk) :
    d.retireIfReady p nowClk = d ∧ d.retireLaunches p t nowClk = [] := by
  rw [retireIfReady, if_pos h, retireLaunches, if_pos h]
  exact ⟨rfl, rfl⟩

end Device

/-! ### At most the newest launch runs -/

/-- The launch that keeps the device busy, at or before its deadline. -/
structure ClockView.Runs (t : ℕ) (x : ClockView) (l : Launch) : Prop where
  pos : 0 < l.latency
  fits : l.clock + l.latency < 2 ^ 64
  clock : x.clk + l.ticks = l.clock + t
  busy : x.busy = l.clock + l.latency
  kernelId : x.kernelId = l.kernelId

/-- Between two events all launches are over but possibly the newest one. -/
inductive ClockView.Timed (t : ℕ) (log : List Launch) (x : ClockView) : Prop
  | free (idle : x.busy = 0) (allOver : ∀ l ∈ log, l.Over t)
  | busy (rest : List Launch) (l : Launch) (newest : log = rest ++ [l]) (runs : x.Runs t l)
      (early : x.clk < x.busy) (allOver : ∀ l' ∈ rest, l'.Over t)

/-- On an idle device all launches are over. -/
theorem ClockView.Timed.allOver {t : ℕ} {log : List Launch} {x : ClockView} (h : x.Timed t log)
    (hidle : x.busy = 0) : ∀ l ∈ log, l.Over t := by
  cases h with
  | free _ hover => exact hover
  | busy rest l _ hruns _ _ =>
      have hzero : l.clock + l.latency = 0 := hruns.busy.symm.trans hidle
      have hpos := hruns.pos
      omega

namespace Device

open ClockView

variable {p : Params} {t nowClk latency : ℕ} {log : List Launch} {d d' : Device}

/-- A launch on an idle device. -/
theorem startKernel_timed (hover : ∀ l ∈ log, l.Over t)
    (hnow : d.gpuClk = nowClk) (hfits : Launch.Fits ⟨nowClk, latency, d.kernelId, t⟩) :
    Timed t (log ++ [⟨nowClk, latency, d.kernelId, t⟩])
      (d.startKernel p nowClk latency).clockView := by
  rw [clockView_startKernel]
  split_ifs with hzero
  · refine .free rfl fun l hl => ?_
    rcases List.mem_append.mp hl with hl | hl
    · exact hover l hl
    · rw [List.mem_singleton.mp hl]
      simp [Launch.Over, hzero]
  · have hpos : 0 < latency := Nat.pos_of_ne_zero hzero
    have hwrap := hfits.wrap64_eq hpos
    refine .busy log _ rfl ⟨hpos, hfits hpos, by rw [hnow], hwrap, rfl⟩ ?_ hover
    rw [hwrap, hnow]
    exact Nat.lt_add_of_pos_right hpos

/-- The queue starts up to the first launch that runs. -/
theorem startPending_timed (queue : List ℕ) (h : Timed t log d.clockView)
    (hnow : d.gpuClk = nowClk) (hfits : ∀ l ∈ d.pendingLaunches p t nowClk queue, l.Fits) :
    Timed t (log ++ d.pendingLaunches p t nowClk queue)
      (d.startPending p nowClk queue).clockView := by
  induction queue generalizing d log with
  | nil => simpa [pendingLaunches, startPending] using h
  | cons latency queue ih =>
      rw [pendingLaunches] at hfits ⊢
      rw [startPending]
      by_cases hidle : d.busyUntilClk = 0
      · rw [if_pos hidle] at hfits ⊢
        rw [if_pos hidle]
        have hfirst := startKernel_timed (p := p) (d := { d with pendingLatencies := queue })
          (h.allOver hidle) hnow (hfits _ List.mem_cons_self)
        have hclk := congrArg ClockView.clk (clockView_startKernel (p := p)
          (d := { d with pendingLatencies := queue }) nowClk latency)
        have hrest := ih hfirst (by
          refine hclk.trans ?_
          split_ifs <;> exact hnow) fun l hl => hfits l (List.mem_cons_of_mem _ hl)
        rwa [List.append_assoc] at hrest
      · rw [if_neg hidle, if_neg hidle, List.append_nil]
        exact h

/-- Between two events no deadline has been reached. -/
theorem Timed.early (h : Timed t log d.clockView) :
    d.busyUntilClk = 0 ∨ d.gpuClk < d.busyUntilClk := by
  cases h with
  | free hidle _ => exact .inl hidle
  | busy _ _ _ _ hearly _ => exact .inr hearly

/-- The clock moves on: the newest launch is over exactly at its deadline. -/
theorem tickBusy_timed (h : Timed t log d.clockView)
    (hfits : ∀ l ∈ d.launches p (t + 1) .tick, l.Fits) :
    Timed (t + 1) (log ++ d.launches p (t + 1) .tick) (d.tickBusy p).clockView := by
  have hover : ∀ l : Launch, l.Over t → l.Over (t + 1) := fun l hl => Nat.le_succ_of_le hl
  rw [tickBusy, clockView_quiet (.updatePrimaryHold _ _)]
  rw [launches] at hfits ⊢
  dsimp only
  cases h with
  | free hidle hlog =>
      obtain ⟨hretire, hnone⟩ := retireIfReady_early (p := p) (t + 1)
        (wrap64 (d.gpuClk + 1)) (d := { d with gpuClk := wrap64 (d.gpuClk + 1) }) (.inl hidle)
      rw [hretire, hnone, List.append_nil]
      exact .free hidle fun l hl => hover l (hlog l hl)
  | busy rest l hnewest hruns hearly hrest =>
      obtain ⟨hpos, hlt, hclock, hbusy, hkernel⟩ := hruns
      have hwrap : wrap64 (d.gpuClk + 1) = d.gpuClk + 1 := by
        refine Nat.mod_eq_of_lt ?_
        simp only [clockView] at hearly hbusy
        omega
      rw [hwrap] at hfits ⊢
      simp only [clockView] at hclock hbusy hearly hkernel
      by_cases hahead : d.gpuClk + 1 < d.busyUntilClk
      · obtain ⟨hretire, hnone⟩ := retireIfReady_early (p := p) (t + 1) (d.gpuClk + 1)
          (d := { d with gpuClk := d.gpuClk + 1 }) (.inr hahead)
        rw [hretire, hnone, List.append_nil]
        refine .busy rest l hnewest ⟨hpos, hlt, ?_, hbusy, hkernel⟩ hahead fun l' hl' =>
          hover l' (hrest l' hl')
        simp only [clockView]
        omega
      · have hlog : ∀ l' ∈ log, l'.Over (t + 1) := by
          intro l' hl'
          rw [hnewest] at hl'
          rcases List.mem_append.mp hl' with hl' | hl'
          · exact hover l' (hrest l' hl')
          · rw [List.mem_singleton.mp hl', Launch.Over]
            omega
        have hready : ¬(d.busyUntilClk = 0 ∨ d.gpuClk + 1 < d.busyUntilClk) := by omega
        by_cases hkernel : p.kernel.isSome ∧ d.op.phase = .reading
        · rw [retireIfReady, if_neg hready, if_pos hkernel, retireLaunches, if_neg hready,
            if_pos hkernel, List.append_nil, clockView_opBeginWriteback rfl]
          exact .free rfl hlog
        · rw [retireIfReady_launch (d := { d with gpuClk := d.gpuClk + 1 }) hready hkernel]
          rw [retireLaunches, if_neg hready, if_neg hkernel] at hfits ⊢
          refine startPending_timed _ (.free ?_ hlog) ?_ hfits
          · rw [clockView_retireLaunch]
          · exact congrArg ClockView.clk clockView_retireLaunch

/-- A read looks at the clock and answers. -/
theorem clockView_handleRead (read : MmioRead) : (d.handleRead p read).clockView =
    (if LaunchView.polls p read then d.retireIfReady p d.gpuClk else d).clockView := rfl

/-- A look at the clock between two ticks does nothing. -/
theorem handleRead_timed (h : Timed t log d.clockView) (read : MmioRead) :
    Timed t (log ++ d.launches p t (.read read)) (d.handleRead p read).clockView := by
  obtain ⟨hretire, hnone⟩ := retireIfReady_early (p := p) t d.gpuClk (Timed.early h)
  have hnew : d.launches p t (.read read) = [] := by
    rw [launches, hnone, ite_self]
  rw [hnew, List.append_nil, clockView_handleRead, hretire, ite_self]
  exact h

/-- A doorbell starts a launch on an idle device. -/
theorem syntheticDoorbell_timed (h : Timed t log d.clockView)
    (hfits : ∀ l ∈ d.doorbellLaunches p t, l.Fits) :
    Timed t (log ++ d.doorbellLaunches p t) (d.syntheticDoorbell p).clockView := by
  obtain ⟨hretire, hnone⟩ := retireIfReady_early (p := p) t d.gpuClk
    (d := { d with latencyOverride := 0 }) (Timed.early h)
  rw [doorbellLaunches] at hfits ⊢
  rw [syntheticDoorbell]
  dsimp only at hfits ⊢
  rw [hretire, hnone, List.nil_append] at hfits
  rw [hretire, hnone, List.nil_append]
  by_cases hidle : (!isBusyAt { d with latencyOverride := 0 } && d.pendingLatencies.isEmpty) = true
  · rw [if_pos hidle] at hfits ⊢
    rw [if_pos hidle]
    have hzero : d.busyUntilClk = 0 := by
      simpa [isBusyAt] using (Bool.and_eq_true_iff.mp hidle).1
    exact startKernel_timed (d := { d with latencyOverride := 0, submitId := d.submitId + 1 })
      (h.allOver hzero) rfl (hfits _ (List.mem_singleton.mpr rfl))
  · rw [if_neg hidle, if_neg hidle, List.append_nil]
    by_cases hroom : d.pendingLatencies.length < kMaxPendingLaunches
    · rw [if_pos hroom, clockView_quiet (.updatePrimaryHold _ _)]
      exact h
    · rw [if_neg hroom]
      exact h

/-- A computation starts a launch on an idle device. -/
theorem opComputeAndStartBusy_timed {k : QuetzKernel} (hover : ∀ l ∈ log, l.Over t)
    (hbusy : d.busyUntilClk = 0)
    (hfits : Launch.Fits ⟨d.gpuClk, d.opLatency p k, d.kernelId, t⟩)
    (h : d.opComputeAndStartBusy p k = .ok d') :
    Timed t (log ++ [⟨d.gpuClk, d.opLatency p k, d.kernelId, t⟩]) d'.clockView := by
  rw [opComputeAndStartBusy_eq h]
  split_ifs with hzero
  · rw [clockView_opBeginWriteback (by exact hbusy)]
    refine .free hbusy fun l hl => ?_
    rcases List.mem_append.mp hl with hl | hl
    · exact hover l hl
    · rw [List.mem_singleton.mp hl, Launch.Over, hzero]
      exact Nat.le_refl _
  · rw [clockView_quiet (.updatePrimaryHold _ _)]
    have hpos : 0 < d.opLatency p k := Nat.pos_of_ne_zero hzero
    have hwrap := hfits.wrap64_eq hpos
    refine .busy log _ rfl ⟨hpos, hfits hpos, rfl, hwrap, rfl⟩ ?_ hover
    exact hwrap.symm ▸ Nat.lt_add_of_pos_right hpos

end Device

/-! ### Every event -/

/-- The ticks of an event. -/
def DeviceEvent.ticks : DeviceEvent → ℕ
  | .tick => 1
  | _ => 0

namespace Device

variable {p : Params} {k : QuetzKernel} {t : ℕ} {d d' : Device}

/-- What an event does to the registers of the latency. -/
inductive ClockMoves (p : Params) (t : ℕ) (d : Device) : DeviceEvent → Device → Prop
  | keep {e : DeviceEvent} {d' : Device} (still : e.ticks = 0) (none : d.launches p t e = [])
      (clock : d'.clockView = d.clockView) : ClockMoves p t d e d'
  | look (read : MmioRead) : ClockMoves p t d (.read read) (d.handleRead p read)
  | tick : ClockMoves p t d .tick (d.tickBusy p)
  | doorbell {write : MmioWrite} {d' : Device}
      (new : d.launches p t (.write write) = d.doorbellLaunches p t)
      (clock : d'.clockView = (d.syntheticDoorbell p).clockView) :
      ClockMoves p t d (.write write) d'
  /-- The memory answers the last read. -/
  | compute {k : QuetzKernel} {e : DeviceEvent} {d₁ d' : Device} (still : e.ticks = 0)
      (idle : d.busyUntilClk = 0) (clock : d₁.clockView = d.clockView)
      (new : d.launches p t e = [⟨d₁.gpuClk, d₁.opLatency p k, d₁.kernelId, t⟩])
      (result : d₁.opComputeAndStartBusy p k = .ok d') : ClockMoves p t d e d'
  /-- The memory answers a write. -/
  | written {e : DeviceEvent} {d' : Device} (still : e.ticks = 0) (idle : d.busyUntilClk = 0)
      (none : d.launches p t e = []) (idle' : d'.busyUntilClk = 0) : ClockMoves p t d e d'

/-- Without a kernel nothing is on the memory link; with one, the operations are in order. -/
structure InOrder (p : Params) (d : Device) : Prop where
  link : p.kernel = none → d.memIface = []
  sound : ∀ k, p.kernel = some k → d.opsView.Sound p

/-- A request is answered while nothing runs. -/
theorem InOrder.idle (h : InOrder p d) {i : ℕ} {q : MemRequest} (hi : d.memIface[i]? = some q) :
    d.busyUntilClk = 0 := by
  have hmem : q ∈ d.memIface := List.mem_of_getElem? hi
  cases hk : p.kernel with
  | none =>
      rw [h.link hk] at hmem
      cases hmem
  | some k =>
      cases (h.sound k hk).stage with
      | idle hidle => exact hidle.busy
      | writing hwriting => exact hwriting.busy
      | reading hread =>
          by_contra hne
          rw [show d.memIface = [] from hread.computing hne] at hmem
          cases hmem

/-- An event keeps the order. -/
theorem InOrder.step (h : InOrder p d) {e : DeviceEvent} (hstep : d.step p e = .ok d') :
    InOrder p d' := by
  constructor
  · intro hk
    have hview := launchView_step hk (h.link hk) hstep
    exact (congrArg LaunchView.link hview).trans
      ((LaunchWorld.next_link e _).trans (h.link hk))
  · exact fun k hk => ((h.sound k hk).step hk hstep).1

/-- Of the registers only the doorbell starts launches. -/
theorem clockView_writeRegister {offset : UInt64} {write : MmioWrite} (hoff : offset ≠ REG_DOORBELL)
    (h : d.writeRegister p offset write = .ok d') : d'.clockView = d.clockView := by
  exact (writeRegister_cases h).view_eq clockView_quiet (fun _ _ => rfl) hoff

/-- The doorbell of a kernel finds the device idle and starts its DMA. -/
theorem kernelDoorbell_cases {write : MmioWrite} (h : d.kernelDoorbell p k write = .ok d') :
    d.busyUntilClk = 0 ∧ ∃ d₁ : Device, d₁.clockView = d.clockView ∧
      d' = if !write.posted && !p.doorbellBlocking then
        (d₁.opStartDma p k).emit (.writeResp write.id) else d₁.opStartDma p k := by
  rw [kernelDoorbell] at h
  by_cases hbusy : d.op.phase ≠ .idle ∨ d.isBusyAt
  · rw [if_pos hbusy] at h
    cases h
  · rw [if_neg hbusy] at h
    constructor
    · by_contra hne
      exact hbusy (.inr (bne_iff_ne.mpr hne))
    · refine ⟨_, ?_, (Except.ok.inj h).symm⟩
      rw [clockView_quiet (.emitEvent p _ _)]
      split_ifs <;> rfl

/-- A doorbell of the kernel mode starts the DMA, not the busy window. -/
theorem clockView_kernelDoorbell {write : MmioWrite} (h : d.kernelDoorbell p k write = .ok d') :
    d'.clockView = d.clockView := by
  obtain ⟨hidle, d₁, hclock, rfl⟩ := kernelDoorbell_cases h
  have hstill := (clockView_opStartDma (p := p)
    ((congrArg ClockView.busy hclock).trans hidle) k).trans hclock
  split_ifs <;> exact hstill

/-- The answer to a read fills the window, and the last one starts the computation. -/
theorem opOnReadResp_cases {id : ℕ} {data : List UInt8} (t : ℕ)
    (h : d.opOnReadResp p k id data = .ok d') : ∃ d₁ : Device, d₁.clockView = d.clockView ∧
      ((¬(d₁.op.outstanding = 0 ∧ d₁.op.nextDmaOff = d₁.op.inBytes) ∧ d' = d₁ ∧
          d.readRespLaunches p t k id data = []) ∨
        (d₁.opComputeAndStartBusy p k = .ok d' ∧ d.readRespLaunches p t k id data =
          [⟨d₁.gpuClk, d₁.opLatency p k, d₁.kernelId, t⟩])) := by
  rw [opOnReadResp] at h
  rw [readRespLaunches]
  dsimp only at h ⊢
  cases hoff : d.op.reqOff id with
  | none =>
      rw [hoff] at h
      cases h
  | some off =>
      rw [hoff] at h
      refine ⟨_, clockView_opIssueReads (d := { d with
        op := { d.op with
          reqOff := Function.update d.op.reqOff id none
          input := overwrite d.op.input off (data.take (d.op.inBytes - off))
          outstanding := d.op.outstanding - 1 } }) (p := p)
        (kMaxOpDmaOutstanding - (d.op.outstanding - 1)), ?_⟩
      dsimp only at h ⊢
      split_ifs at h with hlast
      · exact .inr ⟨h, if_pos hlast⟩
      · exact .inl ⟨hlast, (Except.ok.inj h).symm, if_neg hlast⟩

/-- A finish counts the completion. -/
theorem clockView_opFinish :
    (d.opFinish p).clockView = ⟨d.gpuClk, d.busyUntilClk, d.kernelId + 1⟩ := by
  have hevent := clockView_quiet (.emitEvent p d .completed)
  rw [opFinish, clockView_quiet (.updatePrimaryHold _ _), clockView_quiet (.raiseIrqOnRetire p _),
    releaseOpDoorbell]
  split <;> exact congrArg (fun x : ClockView => { x with kernelId := x.kernelId + 1 }) hevent

/-- The answer to a write starts nothing. -/
theorem opOnWriteResp_idle (hidle : d.busyUntilClk = 0) :
    (d.opOnWriteResp p).busyUntilClk = 0 := by
  have hissue (d : Device) : (d.opIssueWriteWindow p).busyUntilClk = d.busyUntilClk :=
    congrArg ClockView.busy (clockView_opIssueWrites _)
  rw [opOnWriteResp]
  dsimp only
  split_ifs
  · exact hidle
  · exact (congrArg ClockView.busy clockView_opFinish).trans ((hissue _).trans hidle)
  · exact (hissue _).trans hidle

/-- Nothing of a response depends on the clock but the launch after the last read. -/
theorem clockMoves_respond (horder : InOrder p d) {i : ℕ} {data : List UInt8}
    (h : d.step p (.respond i data) = .ok d') : ClockMoves p t d (.respond i data) d' := by
  rw [step] at h
  cases hi : d.memIface[i]? with
  | none =>
      rw [hi] at h
      cases h
      exact .keep rfl (by rw [launches, hi]) rfl
  | some q =>
      have hidle := horder.idle hi
      cases q with
      | write id addr bytes =>
          rw [hi] at h
          cases h
          exact .written rfl hidle (by rw [launches, hi])
            (opOnWriteResp_idle (d := { d with memIface := d.memIface.eraseIdx i }) hidle)
      | read id addr n =>
          cases hk : p.kernel with
          | none =>
              rw [hi, hk] at h
              cases h
              exact .keep rfl (by rw [launches, hi, hk]) rfl
          | some k =>
              rw [hi, hk] at h
              have hnew : d.launches p t (.respond i data) =
                  { d with memIface := d.memIface.eraseIdx i }.readRespLaunches p t k id data := by
                rw [launches, hi, hk]
              obtain ⟨d₁, hclock, ⟨-, rfl, hnone⟩ | ⟨hresult, hlaunch⟩⟩ := opOnReadResp_cases t h
              · exact .keep rfl (hnew.trans hnone) hclock
              · exact .compute rfl hidle hclock (hnew.trans hlaunch) hresult

/-- Every event moves the clock in one of these ways. -/
theorem clockMoves_step (horder : InOrder p d) {e : DeviceEvent} (h : d.step p e = .ok d') :
    ClockMoves p t d e d' := by
  cases e with
  | read read =>
      cases h
      exact .look read
  | tick =>
      cases h
      exact .tick
  | respond i data => exact clockMoves_respond horder h
  | write write =>
      rw [step, handleWrite] at h
      cases hk : p.kernel with
      | some k =>
          have hnone : d.launches p t (.write write) = [] := by simp [launches, hk]
          rw [hk] at h
          dsimp only at h
          by_cases hdoor : write.pAddr - p.baseAddr = REG_DOORBELL
          · rw [if_pos hdoor] at h
            exact .keep rfl hnone (clockView_kernelDoorbell h)
          · rw [if_neg hdoor] at h
            obtain ⟨d₁, hreg, hd'⟩ := eq_ok_of_bind h
            cases hd'
            refine .keep rfl hnone (Eq.trans ?_ (clockView_writeRegister hdoor hreg))
            split_ifs <;> rfl
      | none =>
          rw [hk] at h
          dsimp only at h
          obtain ⟨d₁, hreg, hd'⟩ := eq_ok_of_bind h
          have hclock : d'.clockView = d₁.clockView := by
            split_ifs at hd' <;> cases hd' <;> rfl
          by_cases hdoor : write.pAddr - p.baseAddr = REG_DOORBELL
          · rw [writeRegister_doorbell hdoor] at hreg
            cases hreg
            refine .doorbell ?_ hclock
            rw [launches, if_pos ⟨by simp [hk], hdoor⟩]
          · refine .keep rfl ?_ (hclock.trans (clockView_writeRegister hdoor hreg))
            rw [launches, if_neg fun h => hdoor h.2]

/-- An event leaves at most the newest launch running, ahead of its deadline. -/
theorem Timed.step (horder : InOrder p d) {log : List Launch}
    (h : ClockView.Timed t log d.clockView)
    {e : DeviceEvent} (hstep : d.step p e = .ok d')
    (hfits : ∀ l ∈ d.launches p (t + e.ticks) e, l.Fits) :
    ClockView.Timed (t + e.ticks) (log ++ d.launches p (t + e.ticks) e) d'.clockView := by
  cases clockMoves_step (t := t + e.ticks) horder hstep with
  | keep hstill hnone hclock =>
      rw [hnone, hclock, hstill, List.append_nil]
      exact h
  | look read => exact handleRead_timed h read
  | tick => exact tickBusy_timed h hfits
  | doorbell hnew hclock =>
      rw [hnew] at hfits ⊢
      rw [hclock]
      exact syntheticDoorbell_timed h hfits
  | compute hstill hidle hclock hnew hresult =>
      rw [hnew, hstill] at hfits ⊢
      exact opComputeAndStartBusy_timed (h.allOver hidle)
        ((congrArg ClockView.busy hclock).trans hidle)
        (hfits _ (List.mem_singleton.mpr rfl)) hresult
  | written hstill hidle hnone hidle' =>
      rw [hnone, hstill, List.append_nil]
      exact .free hidle' (h.allOver hidle)

/-! ### The deadline register -/

/-- A deadline is stored in 64 bits. -/
theorem startKernel_word (nowClk latency : ℕ) :
    (d.startKernel p nowClk latency).clockView.Word := by
  rw [clockView_startKernel]
  split_ifs
  · exact Nat.two_pow_pos 64
  · exact Nat.mod_lt _ (Nat.two_pow_pos 64)

/-- So are those of the queued launches. -/
theorem startPending_word (nowClk : ℕ) (queue : List ℕ) (h : d.clockView.Word) :
    (d.startPending p nowClk queue).clockView.Word := by
  induction queue generalizing d with
  | nil => exact h
  | cons latency queue ih =>
      rw [startPending]
      split_ifs
      · exact ih (startKernel_word nowClk latency)
      · exact h

/-- A retirement stores a deadline or none. -/
theorem retireIfReady_word (nowClk : ℕ) (h : d.clockView.Word) :
    (d.retireIfReady p nowClk).clockView.Word := by
  by_cases hready : d.busyUntilClk = 0 ∨ nowClk < d.busyUntilClk
  · rw [retireIfReady, if_pos hready]
    exact h
  · by_cases hkernel : p.kernel.isSome ∧ d.op.phase = .reading
    · rw [retireIfReady, if_neg hready, if_pos hkernel, clockView_opBeginWriteback rfl]
      exact Nat.two_pow_pos 64
    · rw [retireIfReady_launch hready hkernel]
      refine startPending_word nowClk _ ?_
      rw [clockView_retireLaunch]
      exact Nat.two_pow_pos 64

/-- So does a doorbell. -/
theorem syntheticDoorbell_word (h : d.clockView.Word) : (d.syntheticDoorbell p).clockView.Word := by
  have hretire := retireIfReady_word (p := p) (d := { d with latencyOverride := 0 }) d.gpuClk h
  rw [syntheticDoorbell]
  dsimp only
  generalize (if d.latencyOverride = 0 then p.kernelLatency.toNat else d.latencyOverride) = latency
  split_ifs
  · exact startKernel_word _ _
  · rw [clockView_quiet (.updatePrimaryHold _ _)]
    exact hretire
  · exact hretire

/-- The deadline register holds a 64-bit number. -/
theorem ClockMoves.word {e : DeviceEvent} (h : ClockMoves p t d e d') (hword : d.clockView.Word) :
    d'.clockView.Word := by
  cases h with
  | keep _ _ hclock => rwa [hclock]
  | look read =>
      rw [clockView_handleRead]
      split_ifs
      · exact retireIfReady_word _ hword
      · exact hword
  | tick =>
      rw [tickBusy, clockView_quiet (.updatePrimaryHold _ _)]
      exact retireIfReady_word _ hword
  | doorbell _ hclock =>
      rw [hclock]
      exact syntheticDoorbell_word hword
  | compute _ hidle hclock _ hresult =>
      have hidle₁ := (congrArg ClockView.busy hclock).trans hidle
      rw [opComputeAndStartBusy_eq hresult]
      split_ifs
      · rw [clockView_opBeginWriteback (by exact hidle₁)]
        exact hidle₁.trans_lt (Nat.two_pow_pos 64)
      · rw [clockView_quiet (.updatePrimaryHold _ _)]
        exact Nat.mod_lt _ (Nat.two_pow_pos 64)
  | written _ _ _ hidle' => exact hidle'.trans_lt (Nat.two_pow_pos 64)

/-! ### An operation that has read all its input -/

/-- An operation with its input complete and nothing in flight runs until its deadline. -/
def Awake (d : Device) : Prop :=
  d.op.phase = .reading → d.op.outstanding = 0 → d.op.nextDmaOff = d.op.inBytes →
    d.busyUntilClk ≠ 0

/-- The operation and the deadline decide. -/
theorem Awake.congr (h : d.Awake) (hop : d'.op = d.op) (hbusy : d'.busyUntilClk = d.busyUntilClk) :
    d'.Awake := by
  rw [Awake, hop, hbusy]
  exact h

/-- A quiet change does not matter. -/
theorem Awake.quiet (h : d.Awake) (hquiet : Quiet d d') : d'.Awake := by
  obtain ⟨_, _, _, _, _, -, rfl⟩ := hquiet
  exact h

/-- Only an operation that reads waits for its busy window. -/
theorem Awake.of_phase (h : d.op.phase ≠ .reading) : d.Awake := fun hphase => absurd hphase h

/-- A rejection ends the operation. -/
theorem opReject_phase (why : String) : (d.opReject p why).op.phase = .idle :=
  congrArg (fun x : OpsView => x.op.phase) (opsView_opReject p d why)

/-- Issuing writes stays in the phase. -/
theorem opIssueWrites_phase (fuel : ℕ) : (d.opIssueWrites p fuel).op.phase = d.op.phase := by
  induction fuel generalizing d with
  | zero => rfl
  | succ fuel ih =>
      rw [opIssueWrites]
      split_ifs
      · exact ih
      · rfl

/-- The write back is past the busy window. -/
theorem opBeginWriteback_awake : (d.opBeginWriteback p).Awake := by
  refine .of_phase ?_
  rw [opBeginWriteback]
  split_ifs
  · rw [opReject_phase]
    decide
  · have hquiet := congrArg (fun x : OpsView => x.op.phase) (opsView_quiet (.updatePrimaryHold
      (opIssueWriteWindow p { d with
        op := { d.op with phase := .writing, outstanding := 0, nextDmaOff := 0 } }) false))
    have hphase := hquiet.trans (opIssueWrites_phase (p := p) _)
    dsimp only [opsView] at hphase ⊢
    rw [hphase]
    decide

/-- The end of the busy window of an operation begins its writeback. -/
theorem retireIfReady_awake (hk : p.kernel = some k) (hsound : d.opsView.Sound p) (h : d.Awake)
    (nowClk : ℕ) : (d.retireIfReady p nowClk).Awake := by
  rw [retireIfReady]
  by_cases hready : d.busyUntilClk = 0 ∨ nowClk < d.busyUntilClk
  · rw [if_pos hready]
    exact h
  · have hbusy : d.busyUntilClk ≠ 0 := fun h0 => hready (.inl h0)
    rw [if_neg hready]
    cases hsound.stage with
    | idle hidle => exact absurd hidle.busy hbusy
    | writing hwriting => exact absurd hwriting.busy hbusy
    | reading hread =>
        rw [if_pos ⟨by rw [hk]; rfl, hread.phase⟩]
        exact opBeginWriteback_awake

/-- A DMA that issues no read has read nothing of an input that is not empty. -/
theorem opStartDma_awake : (d.opStartDma p k).Awake := by
  have hreject (d₁ : Device) (why : String) : (d₁.opReject p why).Awake := by
    refine .of_phase ?_
    rw [opReject_phase]
    decide
  rw [opStartDma]
  dsimp only
  by_cases hempty : (k.inputBytes d.op.args).1.toNat = 0
  · rw [if_pos hempty]
    exact hreject _ _
  · rw [if_neg hempty]
    split_ifs
    · exact hreject _ _
    · exact hreject _ _
    · refine Awake.quiet (fun _ hout hoff => ?_) (.updatePrimaryHold _ _)
      rw [opIssueReadWindow, opIssueReads_none hout] at hoff
      exact absurd hoff.symm hempty

/-- A computation is over at once or runs until its deadline. -/
theorem opComputeAndStartBusy_awake (hfits : Launch.Fits ⟨d.gpuClk, d.opLatency p k, d.kernelId, t⟩)
    (h : d.opComputeAndStartBusy p k = .ok d') : d'.Awake := by
  rw [opComputeAndStartBusy_eq h]
  split_ifs with hzero
  · exact opBeginWriteback_awake
  · refine Awake.quiet (fun _ _ _ => ?_) (.updatePrimaryHold _ _)
    have hpos : 0 < d.opLatency p k := Nat.pos_of_ne_zero hzero
    have hwrap := hfits.wrap64_eq hpos
    dsimp only
    omega

/-- A finish ends the operation. -/
theorem opFinish_phase : (d.opFinish p).op.phase = .idle := by
  change (d.opFinish p).opsView.op.phase = .idle
  rw [opFinish, opsView_quiet (.updatePrimaryHold _ _), opsView_quiet (.raiseIrqOnRetire p _),
    opsView_releaseOpDoorbell]
  rfl

/-- A write response comes after the busy window. -/
theorem opOnWriteResp_awake (h : d.op.phase ≠ .reading) : (d.opOnWriteResp p).Awake := by
  have hwindow (d : Device) : (d.opIssueWriteWindow p).op.phase = d.op.phase :=
    opIssueWrites_phase _
  rw [opOnWriteResp]
  dsimp only
  refine .of_phase ?_
  split_ifs
  · exact h
  · rw [opFinish_phase]
    decide
  · exact (hwindow _).trans_ne h

/-- A write may start an operation. -/
theorem handleWrite_awake (hk : p.kernel = some k) (h : d.Awake) {write : MmioWrite}
    (hstep : d.handleWrite p write = .ok d') : d'.Awake := by
  rw [handleWrite, hk] at hstep
  dsimp only at hstep
  by_cases hdoor : write.pAddr - p.baseAddr = REG_DOORBELL
  · rw [if_pos hdoor] at hstep
    obtain ⟨-, d₁, -, rfl⟩ := kernelDoorbell_cases hstep
    split_ifs
    · exact opStartDma_awake.congr rfl rfl
    · exact opStartDma_awake
  · rw [if_neg hdoor] at hstep
    obtain ⟨d₁, hreg, hd'⟩ := eq_ok_of_bind hstep
    have hview := opsView_writeRegister hdoor hreg
    have hawake : d₁.Awake := h.congr (congrArg OpsView.op hview) (congrArg OpsView.busy hview)
    cases hd'
    split_ifs
    · exact hawake.congr rfl rfl
    · exact hawake

/-- Every event of a device with a kernel. -/
theorem Awake.step (hk : p.kernel = some k) (hsound : d.opsView.Sound p) (h : d.Awake)
    {e : DeviceEvent} (hstep : d.step p e = .ok d') (hfits : ∀ l ∈ d.launches p t e, l.Fits) :
    d'.Awake := by
  cases e with
  | write write => exact handleWrite_awake hk h hstep
  | read read =>
      have hlook : (if LaunchView.polls p read then d.retireIfReady p d.gpuClk else d).Awake := by
        split_ifs
        · exact retireIfReady_awake hk hsound h d.gpuClk
        · exact h
      cases hstep
      exact hlook
  | tick =>
      cases hstep
      exact (retireIfReady_awake (d := { d with gpuClk := wrap64 (d.gpuClk + 1) }) hk hsound h
        _).quiet (.updatePrimaryHold _ _)
  | respond i data =>
      rw [Device.step] at hstep
      cases hi : d.memIface[i]? with
      | none =>
          rw [hi] at hstep
          cases hstep
          exact h
      | some q =>
          have hmem : q ∈ d.memIface := List.mem_of_getElem? hi
          cases q with
          | write id addr bytes =>
              rw [hi] at hstep
              cases hstep
              refine opOnWriteResp_awake ?_
              cases hsound.stage with
              | idle hidle =>
                  rw [show d.memIface = [] from hidle.link] at hmem
                  cases hmem
              | reading hread => exact False.elim (hread.reads _ hmem)
              | writing hwriting =>
                  exact ne_of_eq_of_ne hwriting.phase (by decide)
          | read id addr n =>
              rw [hi, hk] at hstep
              rw [launches, hi, hk] at hfits
              dsimp only at hfits
              obtain ⟨d₁, -, ⟨hmore, rfl, -⟩ | ⟨hresult, hlaunch⟩⟩ := opOnReadResp_cases t hstep
              · exact fun _ hout hoff => absurd ⟨hout, hoff⟩ hmore
              · rw [hlaunch] at hfits
                exact opComputeAndStartBusy_awake (hfits _ (List.mem_singleton.mpr rfl)) hresult

end Device

/-! ### Runs -/

/-- A device with the ticks and the launches so far. -/
structure DeadlineWorld where
  device : Device
  ticks : ℕ := 0
  launches : List Launch := []

namespace DeadlineWorld

variable {p : Params} {w : DeadlineWorld} {ws : List DeadlineWorld}

/-- The world after an event that takes the device to `d`. -/
def next (p : Params) (w : DeadlineWorld) (e : DeviceEvent) (d : Device) : DeadlineWorld where
  device := d
  ticks := w.ticks + e.ticks
  launches := w.launches ++ w.device.launches p (w.ticks + e.ticks) e

/-- The runs of a constructed device, newest state first. -/
inductive Run (p : Params) : List DeadlineWorld → Prop
  | start {d : Device} : construct p = .ok d → Run p [{ device := d }]
  | step {w : DeadlineWorld} {ws : List DeadlineWorld} {d : Device} (e : DeviceEvent) :
      Run p (w :: ws) → w.device.step p e = .ok d → Run p (w.next p e d :: w :: ws)

/-- The device is busy with the launch: not idle, not over, not in its writeback. -/
structure BusyWith (p : Params) (d : Device) (l : Launch) : Prop where
  busy : d.busyUntilClk ≠ 0
  deadline : d.busyUntilClk = l.clock + l.latency
  incomplete : d.kernelId = l.kernelId
  no_writeback : p.kernel.isSome → d.op.phase = .reading

/-- Each launch is held until its deadline, and no operation waits for a deadline that is not
there. -/
structure Honoured (p : Params) (w : DeadlineWorld) : Prop where
  held : ∀ l ∈ w.launches, 0 < l.latency → w.ticks < l.ticks + l.latency → BusyWith p w.device l
  awake : p.kernel.isSome → w.device.Awake

/-- What the device keeps in any run. -/
theorem Run.ordered (h : Run p (w :: ws)) :
    w.device.InOrder p ∧ w.device.clockView.Word := by
  generalize hws : w :: ws = trail at h
  induction h generalizing w ws with
  | start hd =>
      obtain ⟨rfl, -⟩ := List.cons.inj hws
      have hreach : Device.Reaches p (fun _ _ => True) _ := .start hd
      obtain rfl := construct_eq_ok hd
      exact ⟨⟨fun _ => rfl, fun k hk => hreach.sound hk⟩, Nat.two_pow_pos 64⟩
  | step e _ hstep ih =>
      obtain ⟨rfl, -⟩ := List.cons.inj hws
      obtain ⟨horder, hword⟩ := ih rfl
      exact ⟨horder.step hstep, (Device.clockMoves_step (t := 0) horder hstep).word hword⟩

/-- Where all sums fit, each launch runs until its deadline. -/
theorem Run.timed (h : Run p (w :: ws)) (hfits : ∀ l ∈ w.launches, l.Fits) :
    w.device.clockView.Timed w.ticks w.launches ∧ (p.kernel.isSome → w.device.Awake) := by
  generalize hws : w :: ws = trail at h
  induction h generalizing w ws with
  | start hd =>
      obtain ⟨rfl, -⟩ := List.cons.inj hws
      obtain rfl := construct_eq_ok hd
      exact ⟨.free rfl fun l hl => (List.not_mem_nil hl).elim,
        fun _ => .of_phase (by decide)⟩
  | @step w₀ _ _ e hrun hstep ih =>
      obtain ⟨rfl, -⟩ := List.cons.inj hws
      obtain ⟨htimed, hawake⟩ := ih (fun l hl => hfits l (List.mem_append_left _ hl)) rfl
      obtain ⟨horder, -⟩ := hrun.ordered
      have hnew : ∀ l ∈ w₀.device.launches p (w₀.ticks + e.ticks) e, l.Fits :=
        fun l hl => hfits l (List.mem_append_right _ hl)
      refine ⟨Device.Timed.step horder htimed hstep hnew, fun hsome => ?_⟩
      obtain ⟨k, hk⟩ := Option.isSome_iff_exists.mp hsome
      exact (hawake hsome).step hk (horder.sound k hk) hstep hnew

/-- Where all sums fit, the run honours them. -/
theorem Run.honoured (h : Run p (w :: ws)) (hfits : ∀ l ∈ w.launches, l.Fits) : w.Honoured p := by
  obtain ⟨htimed, hawake⟩ := h.timed hfits
  refine ⟨fun l hl hpos hbefore => ?_, hawake⟩
  cases htimed with
  | free _ hover =>
      have := hover l hl
      rw [Launch.Over] at this
      omega
  | busy rest l' hnewest hruns hearly hover =>
      rw [hnewest] at hl
      rcases List.mem_append.mp hl with hl | hl
      · have := hover l hl
        rw [Launch.Over] at this
        omega
      · obtain rfl := List.mem_singleton.mp hl
        have hbusy : w.device.busyUntilClk ≠ 0 := (Nat.zero_le _).trans_lt hearly |>.ne'
        refine ⟨hbusy, hruns.busy, hruns.kernelId, fun hsome => ?_⟩
        obtain ⟨k, hk⟩ := Option.isSome_iff_exists.mp hsome
        cases (h.ordered.1.sound k hk).stage with
        | idle hidle => exact absurd hidle.busy hbusy
        | writing hwriting => exact absurd hwriting.busy hbusy
        | reading hread => exact hread.phase

/-- **A latency deadline is honoured for every launch whose sum fits in 64 bits, and for no other**:
in every state of a run the device is busy with each launch until its deadline, counted without a
bound, exactly when no sum of the run leaves the range. -/
theorem deadlines_honoured_iff (h : Run p (w :: ws)) :
    (∀ v ∈ w :: ws, v.Honoured p) ↔ ∀ l ∈ w.launches, l.Fits := by
  constructor
  · intro hall
    generalize hws : w :: ws = trail at h hall
    induction h generalizing w ws with
    | start _ =>
        obtain ⟨rfl, -⟩ := List.cons.inj hws
        exact fun l hl => (List.not_mem_nil hl).elim
    | @step w₀ _ _ e hrun hstep ih =>
        obtain ⟨rfl, -⟩ := List.cons.inj hws
        intro l hl
        rcases List.mem_append.mp hl with hold | hnew
        · exact ih rfl (fun v hv => hall v (List.mem_cons_of_mem _ hv)) l hold
        · intro hpos
          have hticks := Device.launches_ticks l hnew
          obtain ⟨horder, hword⟩ := (hrun.step e hstep).ordered
          have hheld := (hall _ List.mem_cons_self).held l hl hpos (by
            rw [hticks]
            exact Nat.lt_add_of_pos_right hpos)
          exact hheld.deadline.symm.trans_lt hword
  · intro hfits
    generalize hws : w :: ws = trail at h
    induction h generalizing w ws with
    | start hd =>
        obtain ⟨rfl, rfl⟩ := List.cons.inj hws
        intro v hv
        rw [List.mem_singleton.mp hv]
        exact (Run.start hd).honoured hfits
    | step e hrun hstep ih =>
        obtain ⟨rfl, rfl⟩ := List.cons.inj hws
        intro v hv
        rcases List.mem_cons.mp hv with rfl | hv
        · exact (hrun.step e hstep).honoured hfits
        · exact ih (fun l hl => hfits l (List.mem_append_left _ hl)) rfl v hv

/-- The run after the events. -/
def run (p : Params) : List DeviceEvent → List DeadlineWorld → Option (List DeadlineWorld)
  | e :: es, w :: ws =>
    match w.device.step p e with
    | .error _ => none
    | .ok d => run p es (w.next p e d :: w :: ws)
  | [], ws => some ws
  | _ :: _, [] => none

/-- What `run` computes is a run. -/
theorem Run.run {es : List DeviceEvent} {trail : List DeadlineWorld} (h : Run p ws)
    (hrun : DeadlineWorld.run p es ws = some trail) : Run p trail := by
  induction es generalizing ws with
  | nil =>
      obtain rfl : ws = trail := by simpa [DeadlineWorld.run] using hrun
      exact h
  | cons e es ih =>
      cases ws with
      | nil => cases hrun
      | cons w ws =>
          rw [DeadlineWorld.run] at hrun
          cases hstep : w.device.step p e with
          | error msg =>
              rw [hstep] at hrun
              cases hrun
          | ok d =>
              rw [hstep] at hrun
              exact ih (h.step e hstep) hrun

/-- The world a run ends with, when it passes a test. -/
theorem exists_run_of_any {events : List DeviceEvent} {trail : List DeadlineWorld}
    {test : DeadlineWorld → Bool} (h : ((run p events trail).bind List.head?).any test = true) :
    ∃ w ws, run p events trail = some (w :: ws) ∧ test w = true := by
  obtain ⟨w, hw, htest⟩ := (Option.any_eq_true _ _).mp h
  obtain ⟨trail', hrun, hhead⟩ := Option.bind_eq_some_iff.mp hw
  obtain ⟨ws, rfl⟩ := List.head?_eq_some_iff.mp hhead
  exact ⟨w, ws, hrun, htest⟩

/-- One tick, and a launch with the latency. -/
def launchAfterTick (latency : UInt64) : List DeviceEvent :=
  [.tick, write64 0 REG_LATENCY_OVERRIDE latency, write64 1 REG_DOORBELL 1]

/-- The longest latency that fits after one tick is held. -/
theorem deadlines_honoured_longest : ∃ w ws, Run {} (w :: ws) ∧
    w.launches = [⟨1, 2 ^ 64 - 2, 0, 1⟩] ∧ ∀ v ∈ w :: ws, v.Honoured {} := by
  have hfin : ((run {} (launchAfterTick 0xfffffffffffffffe) [{ device := constructed }]).bind
      List.head?).any (fun w => decide (w.launches = [⟨1, 2 ^ 64 - 2, 0, 1⟩])) = true := by
    decide +kernel
  obtain ⟨w, ws, hrun, hfin⟩ := exists_run_of_any hfin
  have hlaunches := of_decide_eq_true hfin
  have hw := (Run.start rfl).run hrun
  refine ⟨w, ws, hw, hlaunches, (deadlines_honoured_iff hw).mpr ?_⟩
  rw [hlaunches]
  decide

/-- **One cycle more and the launch is forgotten**: the device is idle after the doorbell. -/
theorem deadline_forgotten : ∃ w ws, Run {} (w :: ws) ∧
    w.launches = [⟨1, 2 ^ 64 - 1, 0, 1⟩] ∧ w.ticks = 1 ∧ w.device.busyUntilClk = 0 ∧
    w.device.kernelId = 0 ∧ ¬w.Honoured {} := by
  have hfin : ((run {} (launchAfterTick 0xffffffffffffffff) [{ device := constructed }]).bind
      List.head?).any (fun w => decide (w.launches = [⟨1, 2 ^ 64 - 1, 0, 1⟩] ∧ w.ticks = 1 ∧
        w.device.busyUntilClk = 0 ∧ w.device.kernelId = 0)) = true := by
    decide +kernel
  obtain ⟨w, ws, hrun, hfin⟩ := exists_run_of_any hfin
  obtain ⟨hlaunches, hticks, hbusy, hkernel⟩ := of_decide_eq_true hfin
  refine ⟨w, ws, (Run.start rfl).run hrun, hlaunches, hticks, hbusy, hkernel, fun h => ?_⟩
  have hheld := h.held ⟨1, 2 ^ 64 - 1, 0, 1⟩ (by simp [hlaunches]) (by decide) (by
    rw [hticks]
    decide)
  exact hheld.busy hbusy

end DeadlineWorld

end Quetz.GpuDevice
