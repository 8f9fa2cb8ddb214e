import Quetz.GpuIrq

/-!
# Launches of the Latency Model

Without a kernel the device is a server with a queue: a doorbell starts a launch or queues it, a
launch runs for the latency that was captured at its doorbell, and the end of a launch starts the
next one. `LaunchView` is this server, with the write responses it holds back and those it sent,
and the operations of the device act on it as `begin`, `drain` and `retire`.

`LaunchWorld` observes a run: the latencies of the accepted doorbells, the clock when each launch
started and the clock when it completed. A zero is never a deadline, because no deadline of the
run reaches the end of the clock.

## Main results

* `Device.launchView_retireIfReady` / `Device.launchView_syntheticDoorbell`: the server.
* `LaunchWorld.launches_conserved`: tickets, queue and times, in every reachable state.
-/

namespace Quetz.GpuDevice

/-! ### The server -/

/-- The request whose write an action answers. -/
def Action.repliesTo : Action → Option ℕ
  | .writeResp id => some id
  | _ => none

/-- The write responses sent, oldest first. -/
def Device.replies (d : Device) : List ℕ := d.trace.filterMap Action.repliesTo

/-- The part of the device that the latency model depends on. -/
structure LaunchView where
  clk : ℕ
  override : ℕ
  busy : ℕ
  kernelId : ℕ
  submitId : ℕ
  pending : List ℕ
  deferred : Option ℕ
  replies : List ℕ
  link : List MemRequest

/-- The server of a device. -/
def Device.launchView (d : Device) : LaunchView :=
  ⟨d.gpuClk, d.latencyOverride, d.busyUntilClk, d.kernelId, d.submitId, d.pendingLatencies,
    d.deferredDoorbellResp, d.replies, d.memIface⟩

namespace LaunchView

variable (now : ℕ)

/-- Start a launch; one without latency is over at once. -/
def begin (latency : ℕ) (x : LaunchView) : LaunchView :=
  if latency = 0 then { x with kernelId := x.kernelId + 1, busy := 0 }
  else { x with busy := wrap64 (now + latency) }

/-- Start the queued launches up to the first one that keeps the server busy. -/
def drain : List ℕ → LaunchView → LaunchView
  | [], x => x
  | latency :: rest, x =>
    if x.busy = 0 then drain rest (begin now latency { x with pending := rest }) else x

/-- The running launch is over. -/
def complete (x : LaunchView) : LaunchView :=
  { x with
    kernelId := x.kernelId + 1
    busy := 0
    deferred := none
    replies := x.replies ++ x.deferred.toList }

/-- The running launch is over when its deadline has come. -/
def retire (x : LaunchView) : LaunchView :=
  if x.busy = 0 ∨ now < x.busy then x else drain now x.pending x.complete

/-- A doorbell starts a launch, queues it, or is refused. -/
def ring (latency : ℕ) (x : LaunchView) : LaunchView :=
  if x.busy = 0 ∧ x.pending = [] then begin now latency { x with submitId := x.submitId + 1 }
  else if x.pending.length < kMaxPendingLaunches then
    { x with submitId := x.submitId + 1, pending := x.pending ++ [latency] }
  else x

/-- A doorbell retires the running launch first, and it consumes the override. -/
def doorbell (latency : ℕ) (x : LaunchView) : LaunchView :=
  ({ x with override := 0 }.retire x.clk).ring x.clk latency

/-- The latency a doorbell captures. -/
def captured (p : Params) (x : LaunchView) : ℕ :=
  if x.override = 0 then p.kernelLatency.toNat else x.override

/-- The answer to a write: a blocking doorbell of a busy server is held back. -/
def answer (held : Bool) (write : MmioWrite) (x : LaunchView) : LaunchView :=
  if held ∧ x.busy ≠ 0 ∧ !write.posted then { x with deferred := some write.id }
  else if write.posted then x else { x with replies := x.replies ++ [write.id] }

/-- The reads that look at the clock. -/
def polls (p : Params) (read : MmioRead) : Prop :=
  read.pAddr - p.baseAddr = REG_STATUS ∨ read.pAddr - p.baseAddr = REG_KERNEL_ID ∨
    read.pAddr - p.baseAddr = REG_RESULT

instance (p : Params) (read : MmioRead) : Decidable (polls p read) :=
  inferInstanceAs (Decidable (_ ∨ _ ∨ _))

/-- The registers a write changes. -/
def writeReg (p : Params) (write : MmioWrite) (x : LaunchView) : LaunchView :=
  if write.pAddr - p.baseAddr = REG_DOORBELL then x.doorbell (x.captured p)
  else if write.pAddr - p.baseAddr = REG_LATENCY_OVERRIDE then
    { x with override := (dataToU64 write.data).toNat }
  else x

/-- What an event does to the server. -/
def next (p : Params) (x : LaunchView) : DeviceEvent → LaunchView
  | .write write => (x.writeReg p write).answer
      (write.pAddr - p.baseAddr = REG_DOORBELL ∧ p.doorbellBlocking) write
  | .read read => if polls p read then x.retire x.clk else x
  | .tick => { x with clk := wrap64 (x.clk + 1) }.retire (wrap64 (x.clk + 1))
  | .respond .. => x

variable (x : LaunchView)

/-- A launch that begins changes the busy window and the completions only. -/
@[simp] theorem begin_clk (latency : ℕ) : (x.begin now latency).clk = x.clk := by
  rw [begin]
  split_ifs <;> rfl

@[simp] theorem begin_override (latency : ℕ) : (x.begin now latency).override = x.override := by
  rw [begin]
  split_ifs <;> rfl

@[simp] theorem begin_link (latency : ℕ) : (x.begin now latency).link = x.link := by
  rw [begin]
  split_ifs <;> rfl

@[simp] theorem begin_pending (latency : ℕ) : (x.begin now latency).pending = x.pending := by
  rw [begin]
  split_ifs <;> rfl

@[simp] theorem begin_submitId (latency : ℕ) : (x.begin now latency).submitId = x.submitId := by
  rw [begin]
  split_ifs <;> rfl

/-- Starting queued launches leaves clock, override, link and tickets as they are. -/
theorem drain_frame (queue : List ℕ) (x : LaunchView) :
    (x.drain now queue).clk = x.clk ∧ (x.drain now queue).override = x.override ∧
      (x.drain now queue).link = x.link ∧ (x.drain now queue).submitId = x.submitId := by
  induction queue generalizing x with
  | nil => exact ⟨rfl, rfl, rfl, rfl⟩
  | cons latency queue ih =>
      rw [drain]
      split_ifs
      · obtain ⟨hclk, hover, hlink, hsubmit⟩ := ih (begin now latency { x with pending := queue })
        exact ⟨by rw [hclk, begin_clk], by rw [hover, begin_override], by rw [hlink, begin_link],
          by rw [hsubmit, begin_submitId]⟩
      · exact ⟨rfl, rfl, rfl, rfl⟩

/-- So does a retirement. -/
theorem retire_frame : (x.retire now).clk = x.clk ∧ (x.retire now).override = x.override ∧
    (x.retire now).link = x.link ∧ (x.retire now).submitId = x.submitId := by
  rw [retire]
  split_ifs
  · exact ⟨rfl, rfl, rfl, rfl⟩
  · exact drain_frame now _ _

/-- The queue only gets shorter while its launches start. -/
theorem drain_pending_le (queue : List ℕ) {x : LaunchView}
    (hqueue : x.pending.length ≤ queue.length) :
    (x.drain now queue).pending.length ≤ queue.length := by
  induction queue generalizing x with
  | nil => exact hqueue
  | cons latency queue ih =>
      rw [drain]
      split_ifs
      · refine (ih ?_).trans (Nat.le_succ _)
        rw [begin_pending]
      · exact hqueue

/-- It only gets shorter by a retirement. -/
theorem retire_pending_le : (x.retire now).pending.length ≤ x.pending.length := by
  rw [retire]
  split_ifs
  · exact Nat.le_refl _
  · exact drain_pending_le now _ (Nat.le_refl _)

end LaunchView

namespace Device

variable (p : Params) (d : Device)

/-- An action that answers nothing is not seen by the server. -/
theorem launchView_emit (a : Action) (h : a.repliesTo = none) :
    (d.emit a).launchView = d.launchView := by
  simp [launchView, replies, emit, h]

/-- A quiet computation is not seen either. -/
theorem launchView_quiet {d d' : Device} (h : Quiet d d') : d'.launchView = d.launchView := by
  obtain ⟨_, _, _, _, as, has, rfl⟩ := h
  have hnone : as.filterMap Action.repliesTo = [] := by
    refine List.filterMap_eq_nil_iff.mpr fun a ha => ?_
    have hsilent := has a ha
    cases a <;> first | rfl | cases hsilent
  simp [launchView, replies, hnone]

/-- `startKernel` in terms of the server. -/
theorem launchView_startKernel (nowClk latency : ℕ) :
    (d.startKernel p nowClk latency).launchView = d.launchView.begin nowClk latency := by
  unfold startKernel LaunchView.begin
  split_ifs
  · rw [launchView_quiet (.updatePrimaryHold _ _), launchView_quiet (.raiseIrqOnRetire p _)]
    rfl
  · rw [launchView_quiet (.updatePrimaryHold _ _)]
    rfl

/-- `startPending` in terms of the server. -/
theorem launchView_startPending (nowClk : ℕ) (queue : List ℕ) (d : Device) :
    (d.startPending p nowClk queue).launchView = d.launchView.drain nowClk queue := by
  induction queue generalizing d with
  | nil => rfl
  | cons latency queue ih =>
      rw [startPending, LaunchView.drain]
      by_cases hidle : d.busyUntilClk = 0
      · rw [if_pos hidle, if_pos (show d.launchView.busy = 0 from hidle), ih,
          launchView_startKernel]
        rfl
      · rw [if_neg hidle, if_neg (show ¬d.launchView.busy = 0 from hidle)]

/-- The end of the running launch, with the answer it owes. -/
theorem launchView_retireLaunch : (d.retireLaunch p).launchView = d.launchView.complete := by
  unfold retireLaunch releaseDeferred
  rw [launchView_quiet (.raiseIrqOnRetire p _)]
  cases hresp : d.deferredDoorbellResp with
  | none => simp [launchView, LaunchView.complete, hresp, replies]
  | some id => simp [launchView, LaunchView.complete, hresp, replies, emit, Action.repliesTo]

variable {p d}

/-- The end of the busy window. -/
theorem launchView_retireIfReady (hk : p.kernel = none) (nowClk : ℕ) :
    (d.retireIfReady p nowClk).launchView = d.launchView.retire nowClk := by
  rw [LaunchView.retire]
  by_cases hready : d.busyUntilClk = 0 ∨ nowClk < d.busyUntilClk
  · rw [if_pos (show d.launchView.busy = 0 ∨ nowClk < d.launchView.busy from hready),
      retireIfReady, if_pos hready]
  · have hpending : (d.retireLaunch p).pendingLatencies = d.pendingLatencies :=
      congrArg LaunchView.pending (launchView_retireLaunch p d)
    rw [if_neg (show ¬(d.launchView.busy = 0 ∨ nowClk < d.launchView.busy) from hready),
      retireIfReady_launch hready (by simp [hk]), launchView_startPending,
      launchView_retireLaunch, hpending]
    rfl

/-- A doorbell of the latency model. -/
theorem launchView_syntheticDoorbell (hk : p.kernel = none) :
    (d.syntheticDoorbell p).launchView =
      d.launchView.doorbell (d.launchView.captured p) := by
  have hretire := launchView_retireIfReady (d := { d with latencyOverride := 0 }) hk d.gpuClk
  have hcap : (if d.latencyOverride = 0 then p.kernelLatency.toNat else d.latencyOverride) =
      d.launchView.captured p := rfl
  have hdoor : d.launchView.doorbell (d.launchView.captured p) =
      (retireIfReady p d.gpuClk { d with latencyOverride := 0 }).launchView.ring d.gpuClk
        (d.launchView.captured p) := by
    rw [hretire]
    rfl
  rw [hdoor]
  simp only [syntheticDoorbell, hcap]
  have hclk : (retireIfReady p d.gpuClk { d with latencyOverride := 0 }).gpuClk = d.gpuClk :=
    (congrArg LaunchView.clk hretire).trans (LaunchView.retire_frame _ _).1
  generalize retireIfReady p d.gpuClk { d with latencyOverride := 0 } = d₁ at hclk ⊢
  rw [LaunchView.ring]
  by_cases hidle : d₁.busyUntilClk = 0 ∧ d₁.pendingLatencies = []
  · rw [if_pos (by simp [isBusyAt, hidle]),
      if_pos (show d₁.launchView.busy = 0 ∧ d₁.launchView.pending = [] from hidle),
      launchView_startKernel, ← hclk]
    rfl
  · rw [if_neg (by simpa [isBusyAt] using hidle),
      if_neg (show ¬(d₁.launchView.busy = 0 ∧ d₁.launchView.pending = []) from hidle)]
    by_cases hroom : d₁.pendingLatencies.length < kMaxPendingLaunches
    · rw [if_pos hroom, if_pos (show d₁.launchView.pending.length < _ from hroom),
        launchView_quiet (.updatePrimaryHold _ _)]
      rfl
    · rw [if_neg hroom, if_neg (show ¬d₁.launchView.pending.length < _ from hroom)]

/-- A write to a register in the latency model, before it is answered. -/
theorem launchView_writeRegister (hk : p.kernel = none) {write : MmioWrite} {d' : Device}
    (h : d.writeRegister p (write.pAddr - p.baseAddr) write = .ok d') :
    d'.launchView = d.launchView.writeReg p write := by
  rw [LaunchView.writeReg]
  generalize write.pAddr - p.baseAddr = offset at *
  by_cases hdoor : offset = REG_DOORBELL
  · rw [writeRegister_doorbell hdoor] at h
    cases h
    rw [if_pos hdoor, launchView_syntheticDoorbell hk]
  · rw [if_neg hdoor]
    have hkeep : offset ≠ REG_LATENCY_OVERRIDE → d'.launchView = d.launchView → d'.launchView =
        if offset = REG_LATENCY_OVERRIDE then
          { d.launchView with override := (dataToU64 write.data).toNat }
        else d.launchView := by
      intro hover hsame
      rw [if_neg hover, hsame]
    cases writeRegister_cases h with
    | doorbell hring => exact absurd hring hdoor
    | delivered hoff =>
        exact hkeep (by rw [hoff]; decide) (launchView_quiet (.emitIrqEvent ..))
    | settled hoff => exact hkeep (by rw [hoff]; decide) (launchView_quiet (.emitIrqEvent ..))
    | checkpoint hoff => exact hkeep (by rw [hoff]; decide) (launchView_quiet (.emitEvent ..))
    | latency hoff =>
        rw [if_pos hoff]
        rfl
    | args hoff => exact hkeep (fun hover => absurd (hover ▸ hoff) (by decide)) rfl
    | ack hoff => exact hkeep (by rw [hoff]; decide) (launchView_quiet (.ackIrq ..))
    | nothing hoff => exact hkeep (fun hover => hoff (by simp [hover])) rfl

/-- An answer that is sent. -/
theorem launchView_writeResp (id : ℕ) : (d.emit (.writeResp id)).launchView =
    { d.launchView with replies := d.launchView.replies ++ [id] } := by
  simp [launchView, replies, emit, Action.repliesTo]

/-- The device is busy while a launch runs. -/
theorem isBusyAt_iff : d.isBusyAt = true ↔ d.launchView.busy ≠ 0 := by
  rw [isBusyAt]
  exact bne_iff_ne

/-- A write to the window, in the latency model. -/
theorem launchView_handleWrite (hk : p.kernel = none) {write : MmioWrite} {d' : Device}
    (h : d.handleWrite p write = .ok d') :
    d'.launchView = d.launchView.next p (.write write) := by
  simp only [handleWrite, hk] at h
  cases hreg : d.writeRegister p (write.pAddr - p.baseAddr) write with
  | error e =>
      rw [hreg] at h
      cases h
  | ok d₁ =>
      rw [hreg] at h
      dsimp only [bind, Except.bind] at h
      simp only [LaunchView.next, LaunchView.answer, ← launchView_writeRegister hk hreg]
      by_cases hheld : write.pAddr - p.baseAddr = REG_DOORBELL ∧ p.doorbellBlocking = true ∧
          d₁.isBusyAt = true ∧ (!write.posted) = true
      · rw [if_pos hheld] at h
        split_ifs at h
        cases h
        obtain ⟨hdoor, hblock, hbusy, hposted⟩ := hheld
        rw [if_pos ⟨decide_eq_true ⟨hdoor, hblock⟩, isBusyAt_iff.mp hbusy, hposted⟩]
        rfl
      · rw [if_neg hheld] at h
        rw [if_neg (fun hc => hheld ⟨(of_decide_eq_true hc.1).1, (of_decide_eq_true hc.1).2,
          isBusyAt_iff.mpr hc.2.1, hc.2.2⟩)]
        cases h
        by_cases hposted : write.posted = true
        · rw [if_neg (by simp [hposted]), if_pos hposted]
        · rw [if_pos (by simp [hposted]), if_neg hposted, launchView_writeResp]

/-- A response is held back only when none is. -/
theorem deferred_free (hk : p.kernel = none) {write : MmioWrite} {d' : Device}
    (h : d.handleWrite p write = .ok d') (hdoor : write.pAddr - p.baseAddr = REG_DOORBELL)
    (hblock : p.doorbellBlocking = true)
    (hbusy : (d.launchView.writeReg p write).busy ≠ 0) (hposted : write.posted = false) :
    (d.launchView.writeReg p write).deferred = none := by
  simp only [handleWrite, hk] at h
  cases hreg : d.writeRegister p (write.pAddr - p.baseAddr) write with
  | error e =>
      rw [hreg] at h
      cases h
  | ok d₁ =>
      rw [hreg] at h
      dsimp only [bind, Except.bind] at h
      rw [← launchView_writeRegister hk hreg] at hbusy ⊢
      rw [if_pos ⟨hdoor, hblock, isBusyAt_iff.mpr hbusy, by simp [hposted]⟩] at h
      split_ifs at h with hsome
      exact Option.not_isSome_iff_eq_none.mp hsome

/-- The device without a kernel is the server. -/
theorem launchView_step (hk : p.kernel = none) (hlink : d.memIface = []) {e : DeviceEvent}
    {d' : Device} (h : d.step p e = .ok d') : d'.launchView = d.launchView.next p e := by
  cases e with
  | write write => exact launchView_handleWrite hk h
  | read read =>
      cases h
      have hretire := launchView_retireIfReady (d := d) hk d.gpuClk
      rw [handleRead]
      dsimp only [LaunchView.next]
      rw [launchView_emit _ _ rfl]
      by_cases hpoll : LaunchView.polls p read
      · rw [if_pos hpoll, if_pos (by exact hpoll), hretire]
        rfl
      · rw [if_neg hpoll, if_neg (by exact hpoll)]
  | tick =>
      cases h
      simp only [tickBusy, launchView_quiet (.updatePrimaryHold _ _), LaunchView.next]
      exact launchView_retireIfReady (d := { d with gpuClk := wrap64 (d.gpuClk + 1) }) hk _
  | respond i data =>
      simp only [step, hlink, List.getElem?_nil] at h
      cases h
      rfl

end Device

/-! ### The books -/

/-- What was observed of the launches, by ticket: the latencies captured at the accepted
doorbells, the clock when each launch started, the clock when it completed. -/
structure LaunchHistory where
  accepted : List ℕ := []
  started : List ℕ := []
  completed : List ℕ := []

/-- The history after `n` completions and `m` starts at one clock. -/
def LaunchHistory.advance (now m n : ℕ) (h : LaunchHistory) : LaunchHistory where
  accepted := h.accepted
  started := h.started ++ List.replicate m now
  completed := h.completed ++ List.replicate n now

/-- Two observations at one clock are one. -/
theorem LaunchHistory.advance_advance (now m n m' n' : ℕ) (h : LaunchHistory) :
    (h.advance now m n).advance now m' n' = h.advance now (m + m') (n + n') := by
  simp [LaunchHistory.advance]

/-- Nothing is observed. -/
@[simp] theorem LaunchHistory.advance_zero (now : ℕ) (h : LaunchHistory) :
    h.advance now 0 0 = h := by
  simp [LaunchHistory.advance]

/-- The history after `n` more accepted doorbells with one latency. -/
def LaunchHistory.accept (latency n : ℕ) (h : LaunchHistory) : LaunchHistory :=
  { h with accepted := h.accepted ++ List.replicate n latency }

namespace LaunchView

/-- The deadline of the running launch. -/
def running (x : LaunchView) : List ℕ := if x.busy = 0 then [] else [x.busy]

/-- The deadlines of the started launches are the times of the completed ones and the deadline of
the running one; the other accepted launches are queued. -/
structure Books (h : LaunchHistory) (x : LaunchView) : Prop where
  tickets : h.accepted.length = x.submitId
  completed : h.completed.length = x.kernelId
  deadlines : ∃ served, h.accepted = served ++ x.pending ∧
    served.length = h.started.length ∧
    List.zipWith (· + ·) h.started served = h.completed ++ x.running

/-- Between two events no deadline has passed, and a launch is queued only behind another. -/
structure Steady (x : LaunchView) : Prop where
  queue_busy : x.busy = 0 → x.pending = []
  queue_le : x.pending.length ≤ kMaxPendingLaunches
  deadline : x.busy ≠ 0 → x.clk < x.busy ∧ x.busy < 2 ^ 64

variable {now latency : ℕ} {rest : List ℕ} {h : LaunchHistory} {x : LaunchView}

/-- The latencies of the launches that `drain` starts. -/
def drainBegun (now : ℕ) : List ℕ → LaunchView → List ℕ
  | [], _ => []
  | latency :: rest, x =>
    if x.busy = 0 then latency :: drainBegun now rest (begin now latency { x with pending := rest })
    else []

/-- The latencies of the launches that `retire` starts. -/
def retireBegun (now : ℕ) (x : LaunchView) : List ℕ :=
  if x.busy = 0 ∨ now < x.busy then [] else drainBegun now x.pending x.complete

/-- The latencies of the launches that `ring` starts. -/
def ringBegun (latency : ℕ) (x : LaunchView) : List ℕ :=
  if x.busy = 0 ∧ x.pending = [] then [latency] else []

/-- The latencies of the launches that a doorbell starts. -/
def doorbellBegun (latency : ℕ) (x : LaunchView) : List ℕ :=
  { x with override := 0 }.retireBegun x.clk ++
    ({ x with override := 0 }.retire x.clk).ringBegun latency

/-- The latencies of the launches that an event starts. -/
def begun (p : Params) (x : LaunchView) : DeviceEvent → List ℕ
  | .write write =>
    if write.pAddr - p.baseAddr = REG_DOORBELL then x.doorbellBegun (x.captured p) else []
  | .read read => if polls p read then x.retireBegun x.clk else []
  | .tick => { x with clk := wrap64 (x.clk + 1) }.retireBegun (wrap64 (x.clk + 1))
  | .respond .. => []

/-- A clock that fits does not wrap. -/
theorem wrap64_of_lt {n : ℕ} (h : n < 2 ^ 64) : wrap64 n = n := Nat.mod_eq_of_lt h

/-- A queued launch starts. -/
theorem Books.begin (hb : Books h { x with pending := latency :: rest }) (hidle : x.busy = 0)
    (hlt : now + latency < 2 ^ 64) :
    ∃ n, ({ x with pending := rest }.begin now latency).kernelId = x.kernelId + n ∧
      Books (h.advance now 1 n) ({ x with pending := rest }.begin now latency) := by
  obtain ⟨htickets, hcompleted, served, haccepted, hlen, hdead⟩ := hb
  have hnone : running { x with pending := latency :: rest } = [] := if_pos hidle
  rw [hnone, List.append_nil] at hdead
  have hserved : h.accepted = (served ++ [latency]) ++ rest := by
    rw [haccepted, List.append_assoc]
    rfl
  have hzip : List.zipWith (· + ·) (h.started ++ [now]) (served ++ [latency]) =
      h.completed ++ [now + latency] := by
    rw [List.zipWith_append hlen.symm, hdead]
    rfl
  by_cases hzero : latency = 0
  · refine ⟨1, by simp [LaunchView.begin, hzero], ?_, ?_, served ++ [latency], ?_, ?_, ?_⟩
    · simpa [LaunchView.begin, hzero, LaunchHistory.advance] using htickets
    · simpa [LaunchView.begin, hzero, LaunchHistory.advance] using hcompleted
    · simpa [LaunchView.begin, hzero, LaunchHistory.advance] using hserved
    · simp [LaunchHistory.advance, hlen]
    · simpa [LaunchView.begin, hzero, LaunchHistory.advance, running] using hzip
  · have hdeadline : wrap64 (now + latency) = now + latency := wrap64_of_lt hlt
    have hpos : ¬(now + latency = 0) := by omega
    refine ⟨0, by simp [LaunchView.begin, hzero], ?_, ?_, served ++ [latency], ?_, ?_, ?_⟩
    · simpa [LaunchView.begin, hzero, LaunchHistory.advance] using htickets
    · simpa [LaunchView.begin, hzero, LaunchHistory.advance] using hcompleted
    · simpa [LaunchView.begin, hzero, LaunchHistory.advance] using hserved
    · simp [LaunchHistory.advance, hlen]
    · simp only [LaunchView.begin, hzero, if_false, LaunchHistory.advance, running, hdeadline, hpos]
      simpa using hzip

/-- A started launch that is still running has its deadline ahead. -/
theorem begin_deadline (hlt : now + latency < 2 ^ 64) (hbusy : (x.begin now latency).busy ≠ 0) :
    now < (x.begin now latency).busy ∧ (x.begin now latency).busy < 2 ^ 64 := by
  unfold LaunchView.begin at *
  by_cases hzero : latency = 0
  · rw [if_pos hzero] at hbusy
    exact absurd rfl hbusy
  · rw [if_neg hzero]
    have hdeadline : wrap64 (now + latency) = now + latency := wrap64_of_lt hlt
    dsimp only
    omega

/-- The queued launches start up to the first one that keeps the server busy. -/
theorem Books.drain (queue : List ℕ) {h : LaunchHistory} {x : LaunchView} (hb : Books h x)
    (hqueue : x.pending = queue) (hlt : ∀ l ∈ x.drainBegun now queue, now + l < 2 ^ 64) :
    ∃ n, (x.drain now queue).kernelId = x.kernelId + n ∧
      Books (h.advance now (x.drainBegun now queue).length n) (x.drain now queue) := by
  induction queue generalizing h x with
  | nil => exact ⟨0, rfl, by simpa [drainBegun, LaunchView.drain] using hb⟩
  | cons latency queue ih =>
      rw [LaunchView.drain, drainBegun]
      rw [drainBegun] at hlt
      by_cases hidle : x.busy = 0
      · simp only [if_pos hidle] at hlt ⊢
        have hfirst : now + latency < 2 ^ 64 := hlt latency List.mem_cons_self
        have hnext : Books h { x with pending := latency :: queue } := by rwa [← hqueue]
        obtain ⟨n, hn, hbegin⟩ := hnext.begin hidle hfirst
        obtain ⟨m, hm, hdrain⟩ := ih hbegin (begin_pending _ _ _)
          (fun l hl => hlt l (List.mem_cons_of_mem _ hl))
        refine ⟨n + m, by rw [hm, hn, Nat.add_assoc], ?_⟩
        rwa [LaunchHistory.advance_advance, Nat.add_comm 1, ← List.length_cons] at hdrain
      · simp only [if_neg hidle, List.length_nil]
        exact ⟨0, rfl, by simpa using hb⟩

/-- A drained server is idle only without a queue. -/
theorem drain_steady (queue : List ℕ) {x : LaunchView} (hqueue : x.pending = queue)
    (hdead : x.busy ≠ 0 → now < x.busy ∧ x.busy < 2 ^ 64)
    (hlt : ∀ l ∈ x.drainBegun now queue, now + l < 2 ^ 64) :
    ((x.drain now queue).busy = 0 → (x.drain now queue).pending = []) ∧
      ((x.drain now queue).busy ≠ 0 →
        now < (x.drain now queue).busy ∧ (x.drain now queue).busy < 2 ^ 64) := by
  induction queue generalizing x with
  | nil => exact ⟨fun _ => hqueue, hdead⟩
  | cons latency queue ih =>
      rw [LaunchView.drain]
      rw [drainBegun] at hlt
      by_cases hidle : x.busy = 0
      · simp only [if_pos hidle] at hlt ⊢
        exact ih (x := begin now latency { x with pending := queue })
          (begin_pending _ _ _) (begin_deadline (hlt latency List.mem_cons_self))
          (fun l hl => hlt l (List.mem_cons_of_mem _ hl))
      · simp only [if_neg hidle]
        exact ⟨fun h0 => absurd h0 hidle, hdead⟩

/-- The running launch completes at its deadline. -/
theorem Books.complete (hb : Books h x) (hbusy : x.busy ≠ 0) :
    Books (h.advance x.busy 0 1) x.complete := by
  obtain ⟨htickets, hcompleted, served, haccepted, hlen, hdead⟩ := hb
  rw [running, if_neg hbusy] at hdead
  refine ⟨htickets, ?_, served, haccepted, ?_, ?_⟩
  · simpa [LaunchView.complete, LaunchHistory.advance] using hcompleted
  · simpa [LaunchHistory.advance] using hlen
  · simpa [LaunchView.complete, LaunchHistory.advance, running] using hdead

/-- The end of the busy window, when no deadline has been missed. -/
theorem Books.retire (hb : Books h x) (hdead : x.busy ≠ 0 → now ≤ x.busy)
    (hlt : ∀ l ∈ x.retireBegun now, now + l < 2 ^ 64) :
    ∃ n, (x.retire now).kernelId = x.kernelId + n ∧
      Books (h.advance now (x.retireBegun now).length n) (x.retire now) := by
  unfold LaunchView.retire retireBegun at *
  by_cases hready : x.busy = 0 ∨ now < x.busy
  · simp only [if_pos hready, List.length_nil]
    exact ⟨0, rfl, by simpa using hb⟩
  · simp only [if_neg hready] at hlt ⊢
    have hbusy : x.busy ≠ 0 := fun h0 => hready (.inl h0)
    have hnow : x.busy = now := by
      have := hdead hbusy
      omega
    have hcomplete := hb.complete hbusy
    rw [hnow] at hcomplete
    obtain ⟨n, hn, hdrain⟩ := hcomplete.drain x.pending rfl hlt
    refine ⟨1 + n, by rw [hn, ← Nat.add_assoc]; rfl, ?_⟩
    rwa [LaunchHistory.advance_advance, Nat.zero_add] at hdrain

/-- After a retirement no deadline has passed and a queue has a running launch before it. -/
theorem retire_steady (hclk : x.clk = now) (hq : x.busy = 0 → x.pending = [])
    (hle : x.pending.length ≤ kMaxPendingLaunches) (hdead : x.busy ≠ 0 → x.busy < 2 ^ 64)
    (hlt : ∀ l ∈ x.retireBegun now, now + l < 2 ^ 64) : Steady (x.retire now) := by
  have hframe := (retire_frame now x).1
  have hshort := (retire_pending_le now x).trans hle
  unfold LaunchView.retire retireBegun at *
  by_cases hready : x.busy = 0 ∨ now < x.busy
  · simp only [if_pos hready]
    refine ⟨hq, hle, fun hbusy => ⟨?_, hdead hbusy⟩⟩
    rw [hclk]
    exact hready.resolve_left hbusy
  · simp only [if_neg hready] at hlt hframe hshort ⊢
    obtain ⟨hempty, hdeadline⟩ := drain_steady x.pending (x := x.complete) rfl
      (fun hbusy => absurd rfl hbusy) hlt
    refine ⟨hempty, hshort, ?_⟩
    rw [hframe, hclk]
    exact hdeadline

/-- A doorbell gets a ticket unless the queue is full. -/
theorem Books.ring (hb : Books h x) (hset : Steady x)
    (hlt : ∀ l ∈ x.ringBegun latency, x.clk + l < 2 ^ 64) :
    ∃ k n, (x.ring x.clk latency).submitId = x.submitId + k ∧
      (x.ring x.clk latency).kernelId = x.kernelId + n ∧
      Books ((h.accept latency k).advance x.clk (x.ringBegun latency).length n)
        (x.ring x.clk latency) ∧
      Steady (x.ring x.clk latency) ∧
      (k = 1 ∨ k = 0 ∧ x.pending.length = kMaxPendingLaunches ∧ x.ring x.clk latency = x) := by
  have hone : Books (h.accept latency 1)
      { x with submitId := x.submitId + 1, pending := x.pending ++ [latency] } := by
    obtain ⟨htickets, hcompleted, served, haccepted, hlen, hdead⟩ := hb
    exact ⟨by simp [LaunchHistory.accept, htickets], hcompleted, served,
      by simp [LaunchHistory.accept, haccepted], hlen, hdead⟩
  unfold LaunchView.ring ringBegun at *
  by_cases hidle : x.busy = 0 ∧ x.pending = []
  · simp only [if_pos hidle] at hlt ⊢
    have hfirst : x.clk + latency < 2 ^ 64 := hlt latency List.mem_cons_self
    rw [hidle.2, List.nil_append] at hone
    obtain ⟨n, hn, hbegin⟩ := Books.begin (x := { x with submitId := x.submitId + 1 }) hone
      hidle.1 hfirst
    have hsame : { x with submitId := x.submitId + 1, pending := [] } =
        { x with submitId := x.submitId + 1 } := by
      rw [← hidle.2]
    rw [hsame] at hn hbegin
    refine ⟨1, n, begin_submitId _ _ _, hn, hbegin, ⟨fun _ => ?_, ?_, ?_⟩, .inl rfl⟩
    · rw [begin_pending, hidle.2]
    · rw [begin_pending, hidle.2]
      exact Nat.zero_le _
    · rw [begin_clk]
      exact begin_deadline hfirst
  · simp only [if_neg hidle, List.length_nil]
    by_cases hroom : x.pending.length < kMaxPendingLaunches
    · simp only [if_pos hroom]
      refine ⟨1, 0, rfl, rfl, ?_, ⟨fun h0 => ?_, ?_, hset.deadline⟩, .inl rfl⟩
      · simpa using hone
      · exact absurd ⟨h0, hset.queue_busy h0⟩ hidle
      · simpa using Nat.succ_le_of_lt hroom
    · simp only [if_neg hroom]
      refine ⟨0, 0, rfl, rfl, ?_, hset, .inr ⟨rfl, ?_, trivial⟩⟩
      · simpa [LaunchHistory.accept] using hb
      · have := hset.queue_le
        omega

/-- Refusal leaves the server as it is but for the override. -/
theorem Books.doorbell (hb : Books h x) (hset : Steady x)
    (hlt : ∀ l ∈ x.doorbellBegun latency, x.clk + l < 2 ^ 64) :
    ∃ k n, (x.doorbell latency).submitId = x.submitId + k ∧
      (x.doorbell latency).kernelId = x.kernelId + n ∧
      Books ((h.accept latency k).advance x.clk (x.doorbellBegun latency).length n)
        (x.doorbell latency) ∧
      Steady (x.doorbell latency) ∧
      (k = 1 ∨ k = 0 ∧ x.pending.length = kMaxPendingLaunches) := by
  set x₀ : LaunchView := { x with override := 0 } with hx₀
  have hb₀ : Books h x₀ := ⟨hb.tickets, hb.completed, hb.deadlines⟩
  have hlt₀ : ∀ l ∈ x₀.retireBegun x.clk, x.clk + l < 2 ^ 64 :=
    fun l hl => hlt l (List.mem_append_left _ hl)
  obtain ⟨n, hn, hretire⟩ := hb₀.retire (fun hbusy => (hset.deadline hbusy).1.le) hlt₀
  have hsteady : Steady (x₀.retire x.clk) := retire_steady rfl hset.queue_busy hset.queue_le
    (fun hbusy => (hset.deadline hbusy).2) hlt₀
  obtain ⟨hclk, -, -, hsubmit⟩ := retire_frame x.clk x₀
  obtain ⟨k, m, hk, hm, hring, hset', hrefused⟩ := hretire.ring hsteady
    (fun l (hl : l ∈ (x₀.retire x.clk).ringBegun latency) => by
      rw [hclk]
      exact hlt l (List.mem_append_right _ hl))
  rw [hclk, show x₀.clk = x.clk from rfl] at hk hm hring hset' hrefused
  refine ⟨k, n + m, by rw [← hsubmit]; exact hk, by rw [← Nat.add_assoc, ← hn]; exact hm, ?_,
    hset', ?_⟩
  · rw [doorbellBegun, List.length_append, ← LaunchHistory.advance_advance]
    exact hring
  · rcases hrefused with hone | ⟨hzero, hfull, -⟩
    · exact .inl hone
    · refine .inr ⟨hzero, Nat.le_antisymm hset.queue_le ?_⟩
      rw [← hfull]
      exact retire_pending_le x.clk x₀

/-- What an observer of the run adds to the history. -/
def observe (p : Params) (e : DeviceEvent) (x x' : LaunchView) (h : LaunchHistory) :
    LaunchHistory :=
  (h.accept (x.captured p) (x'.submitId - x.submitId)).advance x'.clk (x.begun p e).length
    (x'.kernelId - x.kernelId)

/-- The answer to a write is not in the books. -/
theorem Books.answer (hb : Books h x) (held : Bool) (write : MmioWrite) :
    Books h (x.answer held write) := by
  rw [LaunchView.answer]
  split_ifs <;> exact ⟨hb.tickets, hb.completed, hb.deadlines⟩

/-- It does not unsettle the server. -/
theorem Steady.answer (hset : Steady x) (held : Bool) (write : MmioWrite) :
    Steady (x.answer held write) := by
  rw [LaunchView.answer]
  split_ifs <;> exact ⟨hset.queue_busy, hset.queue_le, hset.deadline⟩

/-- It changes the replies and the deferred answer only. -/
theorem answer_frame (held : Bool) (write : MmioWrite) :
    (x.answer held write).clk = x.clk ∧ (x.answer held write).submitId = x.submitId ∧
      (x.answer held write).kernelId = x.kernelId ∧ (x.answer held write).override = x.override ∧
      (x.answer held write).link = x.link := by
  rw [LaunchView.answer]
  split_ifs <;> exact ⟨rfl, rfl, rfl, rfl, rfl⟩

/-- A doorbell clears the override and leaves clock and link as they are. -/
theorem doorbell_frame : (x.doorbell latency).clk = x.clk ∧ (x.doorbell latency).override = 0 ∧
    (x.doorbell latency).link = x.link := by
  obtain ⟨hclk, hover, hlink, -⟩ := retire_frame x.clk { x with override := 0 }
  unfold LaunchView.doorbell LaunchView.ring
  split_ifs
  · exact ⟨by rw [begin_clk]; exact hclk, by rw [begin_override]; exact hover,
      by rw [begin_link]; exact hlink⟩
  · exact ⟨hclk, hover, hlink⟩
  · exact ⟨hclk, hover, hlink⟩

/-- The books stay right and the server stays settled. -/
theorem Books.next {p : Params} (hb : Books h x) (hset : Steady x) {e : DeviceEvent}
    (hlt : ∀ l ∈ x.begun p e, (x.next p e).clk + l < 2 ^ 64) :
    Books (observe p e x (x.next p e) h) (x.next p e) ∧ Steady (x.next p e) := by
  have hsame : ∀ y : LaunchView, y.submitId = x.submitId → y.kernelId = x.kernelId →
      x.begun p e = [] → observe p e x y h = h := by
    intro y hsubmit hkernel hbegun
    simp [observe, hsubmit, hkernel, hbegun, LaunchHistory.accept]
  cases e with
  | write write =>
      obtain ⟨hclk, hsubmit, hkernel, -, -⟩ := answer_frame (x := x.writeReg p write)
        (write.pAddr - p.baseAddr = REG_DOORBELL ∧ p.doorbellBlocking) write
      rw [LaunchView.next] at *
      by_cases hdoor : write.pAddr - p.baseAddr = REG_DOORBELL
      · have hreg : x.writeReg p write = x.doorbell (x.captured p) := if_pos hdoor
        have hbegun : x.begun p (.write write) = x.doorbellBegun (x.captured p) := if_pos hdoor
        rw [hclk, hreg, doorbell_frame.1, hbegun] at hlt
        obtain ⟨k, n, hk, hn, hbook, hset', -⟩ := hb.doorbell hset hlt
        refine ⟨Books.answer ?_ _ _, Steady.answer (by rwa [hreg]) _ _⟩
        rw [observe]
        rw [hclk, hsubmit, hkernel, hreg, hbegun, hk, hn, doorbell_frame.1,
          Nat.add_sub_cancel_left, Nat.add_sub_cancel_left]
        exact hbook
      · have hbegun : x.begun p (.write write) = [] := if_neg hdoor
        rw [LaunchView.writeReg, if_neg hdoor] at *
        have hbook : ∀ v, Books h { x with override := v } :=
          fun v => ⟨hb.tickets, hb.completed, hb.deadlines⟩
        have hsteady : ∀ v, Steady { x with override := v } :=
          fun v => ⟨hset.queue_busy, hset.queue_le, hset.deadline⟩
        split_ifs at * with hover
        · rw [hsame _ hsubmit hkernel hbegun]
          exact ⟨(hbook _).answer _ _, (hsteady _).answer _ _⟩
        · rw [hsame _ hsubmit hkernel hbegun]
          exact ⟨hb.answer _ _, hset.answer _ _⟩
  | read read =>
      simp only [LaunchView.next, begun] at hlt ⊢
      by_cases hpoll : polls p read
      · simp only [if_pos hpoll] at hlt ⊢
        obtain ⟨hclk, -, -, hsubmit⟩ := retire_frame x.clk x
        rw [hclk] at hlt
        obtain ⟨n, hn, hbook⟩ := hb.retire
          (fun hbusy => (hset.deadline hbusy).1.le) hlt
        refine ⟨?_, retire_steady rfl hset.queue_busy hset.queue_le
          (fun hbusy => (hset.deadline hbusy).2) hlt⟩
        rw [observe]
        rw [hclk, hsubmit, hn, Nat.sub_self, Nat.add_sub_cancel_left, begun, if_pos hpoll]
        simpa [LaunchHistory.accept] using hbook
      · simp only [if_neg hpoll] at hlt ⊢
        rw [hsame x rfl rfl (if_neg hpoll)]
        exact ⟨hb, hset⟩
  | tick =>
      simp only [LaunchView.next, begun] at hlt ⊢
      obtain ⟨hclk, -, -, hsubmit⟩ :=
        retire_frame (wrap64 (x.clk + 1)) { x with clk := wrap64 (x.clk + 1) }
      rw [hclk] at hlt
      have hnow : x.busy ≠ 0 → wrap64 (x.clk + 1) ≤ x.busy := by
        intro hbusy
        obtain ⟨hlt₁, hlt₂⟩ := hset.deadline hbusy
        rw [wrap64_of_lt (by omega)]
        exact hlt₁
      have hb₁ : Books h { x with clk := wrap64 (x.clk + 1) } :=
        ⟨hb.tickets, hb.completed, hb.deadlines⟩
      obtain ⟨n, hn, hbook⟩ := hb₁.retire hnow hlt
      refine ⟨?_, retire_steady rfl hset.queue_busy hset.queue_le
        (fun hbusy => (hset.deadline hbusy).2) hlt⟩
      rw [observe]
      rw [hclk, hsubmit, hn, Nat.sub_self, Nat.add_sub_cancel_left, begun]
      simpa [LaunchHistory.accept] using hbook
  | respond i data =>
      rw [LaunchView.next, hsame x rfl rfl rfl]
      exact ⟨hb, hset⟩

end LaunchView

/-! ### Launches are conserved and first in, first out -/

/-- The device, and what was observed of its launches. -/
structure LaunchWorld where
  device : Device
  history : LaunchHistory := {}

namespace LaunchWorld

open LaunchView

variable {p : Params} {w : LaunchWorld}

/-- No deadline sum of the launches an event starts reaches the end of the clock. -/
def InRange (p : Params) (d : Device) (e : DeviceEvent) : Prop :=
  ∀ latency ∈ d.launchView.begun p e, (d.launchView.next p e).clk + latency < 2 ^ 64

instance (p : Params) (d : Device) (e : DeviceEvent) : Decidable (InRange p d e) :=
  inferInstanceAs (Decidable (∀ latency ∈ d.launchView.begun p e, _))

/-- The states a constructed device reaches. -/
inductive Reachable (p : Params) : LaunchWorld → Prop
  | start {d : Device} : construct p = .ok d → Reachable p ⟨d, {}⟩
  | step {w : LaunchWorld} {d : Device} (e : DeviceEvent) : Reachable p w →
      InRange p w.device e → w.device.step p e = .ok d →
      Reachable p ⟨d, observe p e w.device.launchView d.launchView w.history⟩

/-- The latency model sends nothing to the memory. -/
theorem next_link (e : DeviceEvent) (x : LaunchView) : (x.next p e).link = x.link := by
  cases e with
  | write write =>
      refine answer_frame _ _ |>.2.2.2.2.trans ?_
      unfold LaunchView.writeReg
      split_ifs
      · exact doorbell_frame.2.2
      · rfl
      · rfl
  | read read =>
      unfold LaunchView.next
      dsimp only
      split_ifs
      · exact (retire_frame _ _).2.2.1
      · rfl
  | tick => exact (retire_frame _ { x with clk := _ }).2.2.1
  | respond i data => rfl

/-- The books are right, the server is settled, and nothing is on the memory link. -/
theorem Reachable.law (hk : p.kernel = none) (hw : Reachable p w) :
    Books w.history w.device.launchView ∧ Steady w.device.launchView ∧
      w.device.memIface = [] := by
  induction hw with
  | start hd =>
      obtain rfl := construct_eq_ok hd
      exact ⟨⟨rfl, rfl, [], rfl, rfl, rfl⟩,
        ⟨fun _ => rfl, Nat.zero_le _, fun hbusy => absurd rfl hbusy⟩, rfl⟩
  | step e _ hrange hstep ih =>
      obtain ⟨hbooks, hset, hlink⟩ := ih
      have hview := Device.launchView_step hk hlink hstep
      obtain ⟨hbooks', hset'⟩ := hbooks.next hset hrange
      refine ⟨by rwa [hview], by rwa [hview], ?_⟩
      exact (congrArg LaunchView.link hview).trans ((next_link e _).trans hlink)

/-- The number of running launches. -/
def runningLaunches (d : Device) : ℕ := if d.busyUntilClk = 0 then 0 else 1

/-- Every launch is completed, running or queued, in the order of the tickets. -/
structure Conserved (w : LaunchWorld) : Prop where
  tickets : w.device.submitId =
    w.device.kernelId + runningLaunches w.device + w.device.pendingLatencies.length
  queue_le : w.device.pendingLatencies.length ≤ kMaxPendingLaunches
  queue_busy : w.device.pendingLatencies ≠ [] → w.device.busyUntilClk ≠ 0
  /-- Every ticket has a captured latency, every completed launch a time. -/
  accepted : w.history.accepted.length = w.device.submitId
  started : w.history.started.length = w.device.kernelId + runningLaunches w.device
  completed : w.history.completed.length = w.device.kernelId
  /-- The launches that have not started are queued with their latencies. -/
  queue : w.device.pendingLatencies = w.history.accepted.drop w.history.started.length
  /-- The launch with ticket `n` completes when it has run for the latency captured at its
  doorbell, and the running launch will. -/
  deadlines : List.zipWith (· + ·) w.history.started w.history.accepted =
    w.history.completed ++ w.device.launchView.running
  clock : w.device.busyUntilClk ≠ 0 → w.device.gpuClk < w.device.busyUntilClk

/-- What one event does to tickets and to the override. -/
structure TicketStep (p : Params) (e : DeviceEvent) (d d' : Device) : Prop where
  /-- A doorbell consumes the override. It gets the next ticket, unless eight launches are
  queued. -/
  doorbell : ∀ write, e = .write write → write.pAddr - p.baseAddr = REG_DOORBELL →
    d'.latencyOverride = 0 ∧ (d'.submitId = d.submitId + 1 ∨
      d'.submitId = d.submitId ∧ d.pendingLatencies.length = kMaxPendingLaunches)
  /-- Nothing else gets a ticket, and only the guest sets the override. -/
  other : (∀ write, e = .write write → write.pAddr - p.baseAddr ≠ REG_DOORBELL) →
    d'.submitId = d.submitId ∧ (d'.latencyOverride = d.latencyOverride ∨
      ∃ write, e = .write write ∧ write.pAddr - p.baseAddr = REG_LATENCY_OVERRIDE ∧
        d'.latencyOverride = (dataToU64 write.data).toNat)

/-- What a step of the server does to tickets and override, the device does. -/
theorem ticketStep_of_next {d d' : Device} {e : DeviceEvent} {h : LaunchHistory}
    (hbooks : Books h d.launchView) (hset : Steady d.launchView) (hrange : InRange p d e)
    (hview : d'.launchView = d.launchView.next p e) : TicketStep p e d d' := by
  have hsubmit : d'.submitId = (d.launchView.next p e).submitId :=
    congrArg LaunchView.submitId hview
  have hover : d'.latencyOverride = (d.launchView.next p e).override :=
    congrArg LaunchView.override hview
  constructor
  · rintro write rfl hdoor
    have hreg : d.launchView.writeReg p write =
        d.launchView.doorbell (d.launchView.captured p) := if_pos hdoor
    have hbegun : d.launchView.begun p (.write write) =
        d.launchView.doorbellBegun (d.launchView.captured p) := if_pos hdoor
    obtain ⟨hclk, hs, -, ho, -⟩ := answer_frame (x := d.launchView.writeReg p write)
      (write.pAddr - p.baseAddr = REG_DOORBELL ∧ p.doorbellBlocking) write
    rw [InRange, LaunchView.next, hclk, hreg, doorbell_frame.1, hbegun] at hrange
    obtain ⟨k, -, hk, -, -, -, hcase⟩ := hbooks.doorbell hset hrange
    rw [LaunchView.next, ho, hreg, doorbell_frame.2.1] at hover
    rw [LaunchView.next, hs, hreg, hk] at hsubmit
    refine ⟨hover, ?_⟩
    rcases hcase with rfl | ⟨rfl, hfull⟩
    · exact .inl hsubmit
    · exact .inr ⟨hsubmit, hfull⟩
  · intro hother
    cases e with
    | write write =>
        have hdoor := hother write rfl
        obtain ⟨-, hs, -, ho, -⟩ := answer_frame (x := d.launchView.writeReg p write)
          (write.pAddr - p.baseAddr = REG_DOORBELL ∧ p.doorbellBlocking) write
        rw [LaunchView.next, ho, LaunchView.writeReg, if_neg hdoor] at hover
        rw [LaunchView.next, hs, LaunchView.writeReg, if_neg hdoor] at hsubmit
        by_cases hreg : write.pAddr - p.baseAddr = REG_LATENCY_OVERRIDE
        · rw [if_pos hreg] at hover hsubmit
          exact ⟨hsubmit, .inr ⟨write, rfl, hreg, hover⟩⟩
        · rw [if_neg hreg] at hover hsubmit
          exact ⟨hsubmit, .inl hover⟩
    | read read =>
        simp only [LaunchView.next] at hsubmit hover
        by_cases hpoll : polls p read
        · obtain ⟨-, ho, -, hs⟩ := retire_frame d.launchView.clk d.launchView
          rw [if_pos hpoll] at hsubmit hover
          exact ⟨hsubmit.trans hs, .inl (hover.trans ho)⟩
        · rw [if_neg hpoll] at hsubmit hover
          exact ⟨hsubmit, .inl hover⟩
    | tick =>
        obtain ⟨-, ho, -, hs⟩ := retire_frame (wrap64 (d.launchView.clk + 1))
          { d.launchView with clk := wrap64 (d.launchView.clk + 1) }
        exact ⟨hsubmit.trans hs, .inl (hover.trans ho)⟩
    | respond i data => exact ⟨hsubmit, .inl hover⟩

/-- **Launches of the latency model are conserved and first in, first out**, in every state the
device reaches, and a doorbell is refused a ticket only by a full queue. -/
theorem launches_conserved (hk : p.kernel = none) (hw : Reachable p w) :
    Conserved w ∧ ∀ e d', InRange p w.device e → w.device.step p e = .ok d' →
      TicketStep p e w.device d' := by
  obtain ⟨hbooks, hset, hlink⟩ := hw.law hk
  refine ⟨?_, fun e d' hrange hstep =>
    ticketStep_of_next hbooks hset hrange (Device.launchView_step hk hlink hstep)⟩
  obtain ⟨htickets, hcompleted, served, haccepted, hlen, hdead⟩ := hbooks
  have hstarted : w.history.started.length = w.device.kernelId + runningLaunches w.device := by
    have hcount := congrArg List.length hdead
    rw [List.length_zipWith, hlen, Nat.min_self, List.length_append, hcompleted,
      LaunchView.running] at hcount
    rw [hcount, runningLaunches]
    by_cases hidle : w.device.busyUntilClk = 0
    · rw [if_pos hidle, if_pos (show w.device.launchView.busy = 0 from hidle)]
      rfl
    · rw [if_neg hidle, if_neg (show ¬w.device.launchView.busy = 0 from hidle)]
      rfl
  refine ⟨?_, hset.queue_le, fun hq h0 => hq (hset.queue_busy h0), htickets, hstarted, hcompleted,
    ?_, ?_, fun hbusy => (hset.deadline hbusy).1⟩
  · rw [← hstarted, ← hlen, ← List.length_append]
    exact htickets.symm.trans (congrArg List.length haccepted)
  · rw [haccepted, ← hlen, List.drop_left]
    rfl
  · rw [← hdead, haccepted]
    conv_lhs => rw [← List.append_nil w.history.started]
    rw [List.zipWith_append hlen.symm, List.zipWith_nil_left, List.append_nil]

/-! ### A queue with launches of no latency -/

/-- The world after the events. -/
def run (p : Params) : List DeviceEvent → LaunchWorld → Option LaunchWorld
  | [], w => some w
  | e :: es, w =>
    match w.device.step p e with
    | .error _ => none
    | .ok d =>
      if InRange p w.device e then
        run p es ⟨d, observe p e w.device.launchView d.launchView w.history⟩
      else none

/-- What `run` computes is reachable. -/
theorem Reachable.run {es : List DeviceEvent} {w w' : LaunchWorld} (hw : Reachable p w)
    (hrun : w.run p es = some w') : Reachable p w' := by
  induction es generalizing w with
  | nil =>
      cases hrun
      exact hw
  | cons e es ih =>
      rw [LaunchWorld.run] at hrun
      cases hstep : w.device.step p e with
      | error msg =>
          rw [hstep] at hrun
          cases hrun
      | ok d =>
          simp only [hstep] at hrun
          split_ifs at hrun with hrange
          exact ih (hw.step e hrange hstep) hrun

/-- Launches without latency, and no interrupt line. -/
def queueParams : Params where
  kernelLatency := 0

/-- A write of one byte to a register. -/
def setReg (reg : UInt64) (value : UInt8) : DeviceEvent := .write ⟨0, reg, 1, [value], true⟩

/-- A launch of three cycles, two of none and one of a cycle, in one queue. -/
def queueEvents : List DeviceEvent :=
  [setReg REG_LATENCY_OVERRIDE 3, setReg REG_DOORBELL 1, setReg REG_DOORBELL 1,
    setReg REG_DOORBELL 1, setReg REG_LATENCY_OVERRIDE 1, setReg REG_DOORBELL 1,
    .tick, .tick, .tick]

/-- After three ticks the launches of no latency have completed with the one before them. -/
theorem launches_conserved_queue : ∃ w, Reachable queueParams w ∧ Conserved w ∧
    w.history.accepted = [3, 0, 0, 1] ∧ w.history.completed = [3, 3, 3] ∧
    w.device.busyUntilClk = 4 := by
  have hstart : construct queueParams = .ok { holdingSim := true, trace := [.doNotEndSim] } := rfl
  have hfin : (run queueParams queueEvents
      ⟨{ holdingSim := true, trace := [.doNotEndSim] }, {}⟩).any (fun w =>
      decide (w.history.accepted = [3, 0, 0, 1] ∧ w.history.completed = [3, 3, 3] ∧
        w.device.busyUntilClk = 4)) = true := by
    decide +kernel
  obtain ⟨w, hrun, hfin⟩ := (Option.any_eq_true _ _).mp hfin
  have hreach := (Reachable.start hstart).run hrun
  exact ⟨w, hreach, (launches_conserved rfl hreach).1, of_decide_eq_true hfin⟩

end LaunchWorld

end Quetz.GpuDevice
