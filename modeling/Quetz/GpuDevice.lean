import Mathlib.Data.List.Basic
import Mathlib.Logic.Function.Basic
import Quetz.Lib.ByteMemory
import Quetz.MemorySpan

/-!
# The GPU Device

`QuetzGpuDevice` (`src/quetz_gpu_device.{h,cc}`): an accelerator behind a register window. With
an empty kernel slot it is a latency model with a queue of launches. With a kernel it reads the
input of an operation by DMA, computes, stays busy for the modelled latency and writes the
output back by DMA.

A handler takes the device to its next state, or stops the simulation with a message
(`Except String`). `trace` records, oldest first, what the device did to the outside and the
calls of the kernel. `memIface` holds the requests on the memory link that have no response
yet; every request has an id of its own. The statistics, the verbose output and the failure of
the event file are left out. The counters of kernels, submits, interrupts and records are natural
numbers; those of the source have 64 bits and wrap.

## Main results

* `opIssueReadWindow_done` / `opIssueWriteWindow_done`: the issue loops end where the source's do.
* `writeRegister_cases`: everything a write to a register can do.
-/

namespace Quetz.GpuDevice

open ByteMemory

/-! ### Configuration and state -/

/-- Guest-programmed operand registers, captured at the doorbell. -/
structure KernelArgs where
  srcAddr : UInt64
  dstAddr : UInt64
  arg2 : UInt64
  arg3 : UInt64
deriving DecidableEq, Repr, Inhabited

/-- The compute plugged into the kernel slot: a pure function of arguments and input bytes. -/
structure QuetzKernel where
  /-- Bytes to read from `srcAddr`; zero rejects the operation, with a reason. -/
  inputBytes : KernelArgs → UInt64 × String
  /-- The latency and the output bytes. -/
  compute : KernelArgs → List UInt8 → UInt64 × List UInt8

/-- The parameters of the constructor. -/
structure Params where
  baseAddr : UInt64 := 0
  kernelLatency : UInt64 := 5000
  doorbellBlocking : Bool := false
  cpuCheckpoints : Bool := false
  irqWitnesses : Bool := false
  irqLine : ℤ := -1
  irqVcpu : UInt32 := 0
  dmaBytesPerKernel : UInt64 := 0
  dmaRangeStart : UInt64 := 0
  dmaRangeEnd : UInt64 := 0
  /-- Whether an event file is configured. -/
  eventFile : Bool := false
  /-- The contents of the kernel slot. -/
  kernel : Option QuetzKernel := none
  /-- Whether the memory interface and the `irq` port are connected. -/
  hasMemIface : Bool := false
  hasIrqLink : Bool := false
  /-- The line size of the memory interface. -/
  lineSize : UInt64 := 0

/-- The phases of one kernel operation. -/
inductive OpPhase where
  | idle | reading | writing
deriving DecidableEq, Repr

/-- A request on the memory link. -/
inductive MemRequest where
  | read (id addr size : ℕ)
  | write (id addr : ℕ) (data : List UInt8)
deriving DecidableEq, Repr

/-- What an event record says; every record also carries the id of the last submit. -/
inductive Record where
  | requested | completed
  | error (code : String)
  | cpuCheckpoint (value : UInt32) (busy : Bool)
  | irq (kind : String) (value : UInt32) (pending : Bool) (observer : String)
deriving DecidableEq, Repr

/-- One entry of the device's history. -/
inductive Action where
  /-- A doorbell started the kernel operation with this ticket. -/
  | launch (ticket : ℕ)
  | memSend (r : MemRequest)
  | compute (args : KernelArgs) (input : List UInt8)
  | finish
  | reject (why : String)
  | writeResp (id : ℕ)
  | readResp (id : ℕ) (data : List UInt8)
  | irqSend (level : ℕ)
  | doNotEndSim
  | okToEndSim
  | event (sequence operationId : ℕ) (record : Record)
deriving DecidableEq, Repr

/-- The DMA state of the kernel operation. -/
structure Op where
  args : KernelArgs := default
  phase : OpPhase := .idle
  /-- DMA-read input bytes. -/
  input : List UInt8 := []
  /-- Kernel output bytes. -/
  output : List UInt8 := []
  inBytes : ℕ := 0
  /-- In-flight memory requests. -/
  outstanding : ℕ := 0
  /-- Next byte not yet issued. -/
  nextDmaOff : ℕ := 0
  /-- The offset each read in flight was issued for. -/
  reqOff : ℕ → Option ℕ := fun _ => none

/-- The state of the device. -/
structure Device where
  gpuClk : ℕ := 0
  busyUntilClk : ℕ := 0
  kernelId : ℕ := 0
  submitId : ℕ := 0
  latencyOverride : ℕ := 0
  holdingSim : Bool := false
  /-- The held write response of a blocking doorbell, by the id of its request. -/
  deferredDoorbellResp : Option ℕ := none
  pendingLatencies : List ℕ := []
  irqPending : Bool := false
  irqEvents : ℕ := 0
  argRegs : KernelArgs := default
  op : Op := {}
  opDoorbellResp : Option ℕ := none
  /-- The sequence number of the next event record. -/
  sequence : ℕ := 0
  /-- Requests on the memory link that are not answered yet. -/
  memIface : List MemRequest := []
  /-- The id of the next memory request. -/
  nextReqId : ℕ := 0
  trace : List Action := []

/-- Bytes per DMA request. -/
def kOpDmaChunk : ℕ := 64

/-- DMA requests that may be in flight. -/
def kMaxOpDmaOutstanding : ℕ := 64

/-- Launches the latency model queues. -/
def kMaxPendingLaunches : ℕ := 8

/-! ### Registers -/

def REG_DOORBELL : UInt64 := 0x00
def REG_STATUS : UInt64 := 0x08
def REG_KERNEL_ID : UInt64 := 0x10
def REG_LATENCY_OVERRIDE : UInt64 := 0x18
def REG_TICKET : UInt64 := 0x20
def REG_RESULT : UInt64 := 0x28
def REG_ARG0 : UInt64 := 0x30
def REG_ARG1 : UInt64 := 0x38
def REG_ARG2 : UInt64 := 0x40
def REG_ARG3 : UInt64 := 0x48
def REG_IRQ_ACK : UInt64 := 0x50
def REG_CPU_CHECKPOINT : UInt64 := 0x60
def REG_ISR_ENTRY : UInt64 := 0x68
def REG_IRQ_SETTLED : UInt64 := 0x70

/-- The low `size` bytes of a value, least significant first. -/
def u64ToData : UInt64 → ℕ → List UInt8
  | _, 0 => []
  | val, size + 1 => val.toUInt8 :: u64ToData (val >>> 8) size

/-- The value of a byte string, least significant first. -/
def dataToU64 (data : List UInt8) : UInt64 :=
  data.foldr (fun b retval => (retval <<< 8) ||| b.toUInt64) 0

/-- A write to a device register. -/
structure MmioWrite where
  id : ℕ
  pAddr : UInt64
  size : ℕ
  data : List UInt8
  posted : Bool := false
deriving Repr

/-- A read of a device register. -/
structure MmioRead where
  id : ℕ
  pAddr : UInt64
  size : ℕ
deriving Repr

/-- A computation that stops nowhere. -/
theorem eq_ok_of_bind {α β : Type} {x : Except String α} {f : α → Except String β} {b : β}
    (h : x >>= f = .ok b) : ∃ a, x = .ok a ∧ f a = .ok b := by
  cases x with
  | error e => cases h
  | ok a => exact ⟨a, rfl, h⟩

namespace Device

/-! ### Completion interrupt, event file and simulation hold -/

/-- Append to the history. -/
def emit (d : Device) (a : Action) : Device := { d with trace := d.trace ++ [a] }

/-- One event record, if an event file is configured. -/
def emitEvent (p : Params) (d : Device) (r : Record) : Device :=
  if p.eventFile then
    { d.emit (.event d.sequence d.submitId r) with sequence := d.sequence + 1 }
  else d

def emitIrqEvent (p : Params) (d : Device) (kind : String) (value : UInt32)
    (observer : String := "device") : Device :=
  if p.irqWitnesses then d.emitEvent p (.irq kind value d.irqPending observer) else d

def isBusyAt (d : Device) : Bool := d.busyUntilClk != 0

def hasOutstandingWork (d : Device) : Bool :=
  d.busyUntilClk != 0 || !d.pendingLatencies.isEmpty || d.op.phase != .idle

def updatePrimaryHold (allowOkToEnd : Bool) (d : Device) : Device :=
  if d.hasOutstandingWork then
    if !d.holdingSim then { d.emit .doNotEndSim with holdingSim := true } else d
  else if d.holdingSim && allowOkToEnd then { d.emit .okToEndSim with holdingSim := false }
  else d

def raiseIrqOnRetire (p : Params) (d : Device) : Device :=
  if p.irqLine < 0 then d
  else
    let d := { d with irqEvents := d.irqEvents + 1 }
    if d.irqPending then d
    else
      let d := { d with irqPending := true }
      (d.emitIrqEvent p "irq-asserted" 1).emit (.irqSend 1)

def ackIrq (p : Params) (d : Device) (consume : UInt64) : Device :=
  if p.irqLine < 0 || !d.irqPending then d
  else
    let d := d.emitIrqEvent p "irq-acknowledged" consume.toUInt32
    let d := { d with irqEvents :=
      d.irqEvents - (if consume.toNat < d.irqEvents then consume.toNat else d.irqEvents) }
    if d.irqEvents > 0 then d
    else
      let d := { d with irqPending := false }
      (d.emitIrqEvent p "irq-deasserted" 0).emit (.irqSend 0)

/-- Answer the write a blocking doorbell holds back, if there is one. -/
def releaseOpDoorbell (d : Device) : Device :=
  match d.opDoorbellResp with
  | some id => { d.emit (.writeResp id) with opDoorbellResp := none }
  | none => d

/-! ### The latency model -/

def startKernel (p : Params) (nowClk latency : ℕ) (d : Device) : Device :=
  if latency = 0 then
    updatePrimaryHold false
      (raiseIrqOnRetire p { d with kernelId := d.kernelId + 1, busyUntilClk := 0 })
  else updatePrimaryHold false { d with busyUntilClk := wrap64 (nowClk + latency) }

/-- Start the queued launches up to the first one that makes the device busy. -/
def startPending (p : Params) (nowClk : ℕ) : List ℕ → Device → Device
  | [], d => d
  | latency :: rest, d =>
    if d.busyUntilClk = 0 then
      startPending p nowClk rest (startKernel p nowClk latency { d with pendingLatencies := rest })
    else d

/-! ### The kernel operation -/

def opReject (p : Params) (why : String) (d : Device) : Device :=
  let d := d.emitEvent p (.error "operation-rejected")
  let d := d.emit (.reject why)
  let d := { d with op := { d.op with phase := .idle }, busyUntilClk := 0 }
  updatePrimaryHold true d.releaseOpDoorbell

/-- Whether the DMA range admits the span. -/
def dmaRangeOk (p : Params) (addr len : ℕ) : Bool :=
  if !memorySpanValid addr len then false
  else if p.dmaRangeEnd = 0 then true
  else if len = 0 then true
  else decide (addr ≥ p.dmaRangeStart.toNat) && decide (addr ≤ p.dmaRangeEnd.toNat) &&
    decide (len - 1 ≤ p.dmaRangeEnd.toNat - addr)

/-- Send a request on the memory link. -/
def sendMem (d : Device) (r : MemRequest) : Device :=
  { d.emit (.memSend r) with memIface := d.memIface ++ [r], nextReqId := d.nextReqId + 1 }

/-- One turn of the read loop. -/
def opIssueRead (p : Params) (d : Device) : Device :=
  let off := d.op.nextDmaOff
  let addr := wrap64 (d.op.args.srcAddr.toNat + off)
  let n := memoryChunkSize addr (d.op.inBytes - off) p.lineSize.toNat kOpDmaChunk
  let op := { d.op with
    reqOff := Function.update d.op.reqOff d.nextReqId (some off)
    nextDmaOff := off + n
    outstanding := d.op.outstanding + 1 }
  { d with op }.sendMem (.read d.nextReqId addr n)

/-- The read loop, for at most `fuel` turns. -/
def opIssueReads (p : Params) : ℕ → Device → Device
  | 0, d => d
  | fuel + 1, d =>
    if d.op.nextDmaOff < d.op.inBytes ∧ d.op.outstanding < kMaxOpDmaOutstanding then
      opIssueReads p fuel (d.opIssueRead p)
    else d

/-- Every turn puts one more request in flight, so the window bounds the turns. -/
def opIssueReadWindow (p : Params) (d : Device) : Device :=
  d.opIssueReads p (kMaxOpDmaOutstanding - d.op.outstanding)

def opStartDma (p : Params) (k : QuetzKernel) (d : Device) : Device :=
  let (inBytes, err) := k.inputBytes d.op.args
  let d := { d with op := { d.op with inBytes := inBytes.toNat } }
  if d.op.inBytes = 0 then
    d.opReject p (if err.isEmpty then "kernel rejected the args (no reason given)" else err)
  else if !dmaRangeOk p d.op.args.srcAddr.toNat d.op.inBytes then
    d.opReject p "input buffer escapes the DMA range (dma_range_start/end)"
  else if !dmaRangeOk p d.op.args.dstAddr.toNat 1 then
    d.opReject p "output buffer base escapes the DMA range (dma_range_start/end)"
  else
    let op := { d.op with
      input := List.replicate d.op.inBytes 0
      reqOff := fun _ => none
      outstanding := 0
      nextDmaOff := 0
      phase := .reading }
    updatePrimaryHold false ({ d with op }.opIssueReadWindow p)

/-- One turn of the write loop. -/
def opIssueWrite (p : Params) (d : Device) : Device :=
  let off := d.op.nextDmaOff
  let addr := wrap64 (d.op.args.dstAddr.toNat + off)
  let n := memoryChunkSize addr (d.op.output.length - off) p.lineSize.toNat kOpDmaChunk
  let op := { d.op with nextDmaOff := off + n, outstanding := d.op.outstanding + 1 }
  { d with op }.sendMem (.write d.nextReqId addr ((d.op.output.drop off).take n))

/-- The write loop, for at most `fuel` turns. -/
def opIssueWrites (p : Params) : ℕ → Device → Device
  | 0, d => d
  | fuel + 1, d =>
    if d.op.nextDmaOff < d.op.output.length ∧ d.op.outstanding < kMaxOpDmaOutstanding then
      opIssueWrites p fuel (d.opIssueWrite p)
    else d

def opIssueWriteWindow (p : Params) (d : Device) : Device :=
  d.opIssueWrites p (kMaxOpDmaOutstanding - d.op.outstanding)

def opBeginWriteback (p : Params) (d : Device) : Device :=
  if !dmaRangeOk p d.op.args.dstAddr.toNat d.op.output.length then
    d.opReject p "output buffer escapes the DMA range (dma_range_start/end)"
  else
    let op := { d.op with phase := .writing, outstanding := 0, nextDmaOff := 0 }
    updatePrimaryHold false ({ d with op }.opIssueWriteWindow p)

def opComputeAndStartBusy (p : Params) (k : QuetzKernel) (d : Device) : Except String Device :=
  let (kernelLatency, output) := k.compute d.op.args d.op.input
  let d := { d.emit (.compute d.op.args d.op.input) with op := { d.op with output } }
  if output.isEmpty then .error "kernel produced no output bytes."
  else
    -- Guest override, then the kernel's opinion, then the device default.
    let latency :=
      if d.latencyOverride ≠ 0 then d.latencyOverride
      else if kernelLatency ≠ 0 then kernelLatency.toNat
      else p.kernelLatency.toNat
    let d := { d with latencyOverride := 0 }
    if latency = 0 then .ok (d.opBeginWriteback p)
    else .ok (updatePrimaryHold false { d with busyUntilClk := wrap64 (d.gpuClk + latency) })

/-- A read response: store its bytes, keep the window full, compute when all input is here. -/
def opOnReadResp (p : Params) (k : QuetzKernel) (id : ℕ) (data : List UInt8) (d : Device) :
    Except String Device :=
  match d.op.reqOff id with
  | none => .error "kernel-DMA ReadResp with unknown id."
  | some off =>
    let op := { d.op with
      reqOff := Function.update d.op.reqOff id none
      input := overwrite d.op.input off (data.take (d.op.inBytes - off))
      outstanding := d.op.outstanding - 1 }
    let d := { d with op }.opIssueReadWindow p
    if d.op.outstanding = 0 ∧ d.op.nextDmaOff = d.op.inBytes then d.opComputeAndStartBusy p k
    else .ok d

def opFinish (p : Params) (d : Device) : Device :=
  let d := d.emitEvent p .completed
  let d := d.emit .finish
  let d := { d with op := { d.op with phase := .idle }, kernelId := d.kernelId + 1 }
  updatePrimaryHold true (raiseIrqOnRetire p d.releaseOpDoorbell)

/-- A write response: keep the window full, finish after the last one. -/
def opOnWriteResp (p : Params) (d : Device) : Device :=
  if d.op.outstanding = 0 then d
  else
    let op := { d.op with outstanding := d.op.outstanding - 1 }
    let d := { d with op }.opIssueWriteWindow p
    if d.op.outstanding = 0 ∧ d.op.nextDmaOff = d.op.output.length then d.opFinish p else d

/-- The read loop stops only where its condition fails. -/
theorem opIssueReads_done (p : Params) : ∀ (fuel : ℕ) (d : Device),
    kMaxOpDmaOutstanding - d.op.outstanding ≤ fuel →
    ¬((d.opIssueReads p fuel).op.nextDmaOff < (d.opIssueReads p fuel).op.inBytes ∧
      (d.opIssueReads p fuel).op.outstanding < kMaxOpDmaOutstanding)
  | 0, d, hf => fun h => by
    have : d.op.outstanding < kMaxOpDmaOutstanding := h.2
    omega
  | fuel + 1, d, hf => by
    rw [opIssueReads]
    by_cases hcond : d.op.nextDmaOff < d.op.inBytes ∧ d.op.outstanding < kMaxOpDmaOutstanding
    · rw [if_pos hcond]
      refine opIssueReads_done p fuel (d.opIssueRead p) ?_
      have hcount : (d.opIssueRead p).op.outstanding = d.op.outstanding + 1 := rfl
      omega
    · rwa [if_neg hcond]

/-- The window is full, or all reads are issued. -/
theorem opIssueReadWindow_done (p : Params) (d : Device) :
    ¬((d.opIssueReadWindow p).op.nextDmaOff < (d.opIssueReadWindow p).op.inBytes ∧
      (d.opIssueReadWindow p).op.outstanding < kMaxOpDmaOutstanding) :=
  opIssueReads_done p _ d (Nat.le_refl _)

/-- The write loop stops only where its condition fails. -/
theorem opIssueWrites_done (p : Params) : ∀ (fuel : ℕ) (d : Device),
    kMaxOpDmaOutstanding - d.op.outstanding ≤ fuel →
    ¬((d.opIssueWrites p fuel).op.nextDmaOff < (d.opIssueWrites p fuel).op.output.length ∧
      (d.opIssueWrites p fuel).op.outstanding < kMaxOpDmaOutstanding)
  | 0, d, hf => fun h => by
    have : d.op.outstanding < kMaxOpDmaOutstanding := h.2
    omega
  | fuel + 1, d, hf => by
    rw [opIssueWrites]
    by_cases hcond :
        d.op.nextDmaOff < d.op.output.length ∧ d.op.outstanding < kMaxOpDmaOutstanding
    · rw [if_pos hcond]
      refine opIssueWrites_done p fuel (d.opIssueWrite p) ?_
      have hcount : (d.opIssueWrite p).op.outstanding = d.op.outstanding + 1 := rfl
      omega
    · rwa [if_neg hcond]

/-- The window is full, or all writes are issued. -/
theorem opIssueWriteWindow_done (p : Params) (d : Device) :
    ¬((d.opIssueWriteWindow p).op.nextDmaOff < (d.opIssueWriteWindow p).op.output.length ∧
      (d.opIssueWriteWindow p).op.outstanding < kMaxOpDmaOutstanding) :=
  opIssueWrites_done p _ d (Nat.le_refl _)

/-- The latency of a computation: guest override, then the kernel's opinion, then the default. -/
def opLatency (p : Params) (d : Device) (k : QuetzKernel) : ℕ :=
  if d.latencyOverride ≠ 0 then d.latencyOverride
  else if (k.compute d.op.args d.op.input).1 ≠ 0 then (k.compute d.op.args d.op.input).1.toNat
  else p.kernelLatency.toNat

/-- Nothing asked for a latency: not the guest, not the kernel, not the parameters. -/
theorem opLatency_eq_zero {p : Params} {d : Device} {k : QuetzKernel} (h : d.opLatency p k = 0) :
    d.latencyOverride = 0 ∧ (k.compute d.op.args d.op.input).1 = 0 ∧ p.kernelLatency = 0 := by
  rw [opLatency] at h
  split_ifs at h with hover hkernel
  · exact absurd h hover
  · exact absurd (UInt64.toNat_inj.mp h) hkernel
  · exact ⟨not_not.mp hover, not_not.mp hkernel, UInt64.toNat_inj.mp h⟩

/-- The device after a computation, before its launch. -/
def computed (k : QuetzKernel) (d : Device) : Device :=
  { d.emit (.compute d.op.args d.op.input) with
    op := { d.op with output := (k.compute d.op.args d.op.input).2 }
    latencyOverride := 0 }

/-- A computation with output launches with the latency of the operation. -/
theorem opComputeAndStartBusy_eq {p : Params} {d d' : Device} {k : QuetzKernel}
    (h : d.opComputeAndStartBusy p k = .ok d') :
    d' = if d.opLatency p k = 0 then (d.computed k).opBeginWriteback p
      else updatePrimaryHold false
        { d.computed k with busyUntilClk := wrap64 (d.gpuClk + d.opLatency p k) } := by
  rw [opComputeAndStartBusy] at h
  dsimp only at h
  by_cases hempty : (k.compute d.op.args d.op.input).2.isEmpty = true
  · rw [if_pos hempty] at h
    cases h
  · rw [if_neg hempty] at h
    change (if d.opLatency p k = 0 then Except.ok ((d.computed k).opBeginWriteback p)
      else .ok (updatePrimaryHold false
        { d.computed k with busyUntilClk := wrap64 (d.gpuClk + d.opLatency p k) })) = .ok d' at h
    split_ifs at h ⊢ <;> exact (Except.ok.inj h).symm

/-! ### Retirement, clock and registers -/

/-- The end of the busy window: begin the writeback of a kernel operation, or retire a launch of
the latency model and start the launches queued behind it. -/
def retireIfReady (p : Params) (nowClk : ℕ) (d : Device) : Device :=
  if d.busyUntilClk = 0 ∨ nowClk < d.busyUntilClk then d
  else if p.kernel.isSome ∧ d.op.phase = .reading then
    { d with busyUntilClk := 0 }.opBeginWriteback p
  else
    let d := { d with kernelId := d.kernelId + 1, busyUntilClk := 0 }
    let d := match d.deferredDoorbellResp with
      | some id => { d.emit (.writeResp id) with deferredDoorbellResp := none }
      | none => d
    let d := d.raiseIrqOnRetire p
    startPending p nowClk d.pendingLatencies d

/-- Answer the write a blocking doorbell of the latency model holds back, if there is one. -/
def releaseDeferred (d : Device) : Device :=
  match d.deferredDoorbellResp with
  | some id => { d.emit (.writeResp id) with deferredDoorbellResp := none }
  | none => d

/-- A launch of the latency model retires. -/
def retireLaunch (p : Params) (d : Device) : Device :=
  raiseIrqOnRetire p (releaseDeferred { d with kernelId := d.kernelId + 1, busyUntilClk := 0 })

/-- What the end of the busy window does in the latency model. -/
theorem retireIfReady_launch {p : Params} {nowClk : ℕ} {d : Device}
    (hready : ¬(d.busyUntilClk = 0 ∨ nowClk < d.busyUntilClk))
    (hkernel : ¬(p.kernel.isSome ∧ d.op.phase = .reading)) :
    d.retireIfReady p nowClk =
      startPending p nowClk (d.retireLaunch p).pendingLatencies (d.retireLaunch p) := by
  rw [retireIfReady, if_neg hready, if_neg hkernel]
  rfl

def tickBusy (p : Params) (d : Device) : Device :=
  let d := { d with gpuClk := wrap64 (d.gpuClk + 1) }
  updatePrimaryHold true (d.retireIfReady p d.gpuClk)

/-- The doorbell of a device with a kernel. -/
def kernelDoorbell (p : Params) (k : QuetzKernel) (write : MmioWrite) (d : Device) :
    Except String Device :=
  if d.op.phase ≠ .idle ∨ d.isBusyAt then
    .error "doorbell while a kernel op is in flight (guest must wait for STATUS idle)."
  else
    let d := if !write.posted && p.doorbellBlocking then
      { d with opDoorbellResp := some write.id } else d
    let d := { d with submitId := d.submitId + 1, op := { d.op with args := d.argRegs } }
    let d := d.emit (.launch d.submitId)
    let d := (d.emitEvent p .requested).opStartDma p k
    .ok (if !write.posted && !p.doorbellBlocking then d.emit (.writeResp write.id) else d)

/-- The doorbell of the latency model. -/
def syntheticDoorbell (p : Params) (d : Device) : Device :=
  let latency := if d.latencyOverride = 0 then p.kernelLatency.toNat else d.latencyOverride
  let d := { d with latencyOverride := 0 }
  let d := d.retireIfReady p d.gpuClk
  if !d.isBusyAt && d.pendingLatencies.isEmpty then
    startKernel p d.gpuClk latency { d with submitId := d.submitId + 1 }
  else if d.pendingLatencies.length < kMaxPendingLaunches then
    updatePrimaryHold false { d with
      submitId := d.submitId + 1
      pendingLatencies := d.pendingLatencies ++ [latency] }
  else d

/-- The effect of a write on the registers, doorbells of the kernel apart. -/
def writeRegister (p : Params) (offset : UInt64) (write : MmioWrite) (d : Device) :
    Except String Device :=
  let value := dataToU64 write.data
  if offset = REG_DOORBELL then .ok (d.syntheticDoorbell p)
  else if (offset = REG_ISR_ENTRY ∨ offset = REG_IRQ_SETTLED) ∧ p.irqWitnesses then
    if write.size ≠ 4 ∨ write.data.length ≠ 4 then
      .error "IRQ witness must be a 32-bit write."
    else .ok (d.emitIrqEvent p
      (if offset = REG_ISR_ENTRY then "irq-delivered" else "irq-settled") value.toUInt32
      (if offset = REG_ISR_ENTRY then "guest-isr-entry" else "guest-intc-clear"))
  else if offset = REG_CPU_CHECKPOINT ∧ p.cpuCheckpoints then
    if write.size ≠ 4 ∨ write.data.length ≠ 4 ∨ p.kernel.isNone ∨ !p.eventFile then
      .error "invalid CPU checkpoint configuration or width."
    else .ok (d.emitEvent p (.cpuCheckpoint value.toUInt32 (d.op.phase != .idle)))
  else if offset = REG_LATENCY_OVERRIDE then .ok { d with latencyOverride := value.toNat }
  else if offset = REG_ARG0 then .ok { d with argRegs := { d.argRegs with srcAddr := value } }
  else if offset = REG_ARG1 then .ok { d with argRegs := { d.argRegs with dstAddr := value } }
  else if offset = REG_ARG2 then .ok { d with argRegs := { d.argRegs with arg2 := value } }
  else if offset = REG_ARG3 then .ok { d with argRegs := { d.argRegs with arg3 := value } }
  else if offset = REG_IRQ_ACK then .ok (if value ≠ 0 then d.ackIrq p value else d)
  else .ok d

/-- A write to the device's window. -/
def handleWrite (p : Params) (write : MmioWrite) (d : Device) : Except String Device := do
  let offset := write.pAddr - p.baseAddr
  match p.kernel with
  | some k =>
    if offset = REG_DOORBELL then d.kernelDoorbell p k write
    else
      let d ← d.writeRegister p offset write
      .ok (if !write.posted then d.emit (.writeResp write.id) else d)
  | none =>
    let d ← d.writeRegister p offset write
    if offset = REG_DOORBELL ∧ p.doorbellBlocking ∧ d.isBusyAt ∧ !write.posted then
      if d.deferredDoorbellResp.isSome then
        .error "doorbell while a blocking doorbell is outstanding (expected one in-flight op)."
      else .ok { d with deferredDoorbellResp := some write.id }
    else .ok (if !write.posted then d.emit (.writeResp write.id) else d)

/-- A read of the device's window. -/
def handleRead (p : Params) (read : MmioRead) (d : Device) : Device :=
  let offset := read.pAddr - p.baseAddr
  let d := if offset = REG_STATUS ∨ offset = REG_KERNEL_ID ∨ offset = REG_RESULT then
    d.retireIfReady p d.gpuClk else d
  let value : UInt64 :=
    if offset = REG_STATUS then if d.isBusyAt ∨ d.op.phase ≠ .idle then 1 else 0
    else if offset = REG_KERNEL_ID ∨ offset = REG_RESULT then .ofNat d.kernelId
    else if offset = REG_TICKET then .ofNat d.submitId
    else if offset = REG_IRQ_ACK then if d.irqPending then 1 else 0
    else 0
  d.emit (.readResp read.id (u64ToData value read.size))

end Device

/-! ### What only the observers see -/

/-- The actions that neither the guest's accesses nor the memory link depend on. -/
def Action.silent : Action → Bool
  | .irqSend _ | .doNotEndSim | .okToEndSim | .event .. => true
  | _ => false

/-- At most the interrupt, the event file and the simulation hold have changed. -/
def Quiet (d d' : Device) : Prop :=
  ∃ pending events holding sequence actions, (∀ a ∈ actions, a.silent = true) ∧
    d' = { d with
      irqPending := pending
      irqEvents := events
      holdingSim := holding
      sequence := sequence
      trace := d.trace ++ actions }

namespace Quiet

variable (p : Params) (d : Device) {d₁ d₂ d₃ : Device}

/-- Nothing has changed. -/
theorem refl : Quiet d d :=
  ⟨d.irqPending, d.irqEvents, d.holdingSim, d.sequence, [], by simp, by simp⟩

/-- Two quiet changes. -/
theorem trans (h₁ : Quiet d₁ d₂) (h₂ : Quiet d₂ d₃) : Quiet d₁ d₃ := by
  obtain ⟨_, _, _, _, as, hs, rfl⟩ := h₁
  obtain ⟨pending, events, holding, sequence, bs, ht, rfl⟩ := h₂
  refine ⟨pending, events, holding, sequence, as ++ bs, ?_, by simp⟩
  intro a ha
  rcases List.mem_append.mp ha with ha | ha
  · exact hs a ha
  · exact ht a ha

/-- A silent action. -/
theorem emit {a : Action} (h : a.silent = true) : Quiet d (d.emit a) :=
  ⟨_, _, _, _, [a], by simpa using h, rfl⟩

/-- A record is seen in the event file only. -/
theorem emitEvent (r : Record) : Quiet d (d.emitEvent p r) := by
  rw [Device.emitEvent]
  split_ifs
  · exact ⟨_, _, _, _, [.event d.sequence d.submitId r], by simp [Action.silent], rfl⟩
  · exact refl d

/-- So is a record about the interrupt. -/
theorem emitIrqEvent (kind : String) (value : UInt32) (observer : String) :
    Quiet d (d.emitIrqEvent p kind value observer) := by
  rw [Device.emitIrqEvent]
  split_ifs
  · exact emitEvent p d _
  · exact refl d

/-- The hold is seen by the simulation only. -/
theorem updatePrimaryHold (b : Bool) : Quiet d (d.updatePrimaryHold b) := by
  rw [Device.updatePrimaryHold]
  split_ifs
  · exact ⟨_, _, _, _, [.doNotEndSim], by simp [Action.silent], rfl⟩
  · exact refl d
  · exact ⟨_, _, _, _, [.okToEndSim], by simp [Action.silent], rfl⟩
  · exact refl d

/-- Only the interrupt has changed. -/
theorem irq (pending : Bool) (events : ℕ) :
    Quiet d { d with irqPending := pending, irqEvents := events } :=
  ⟨pending, events, d.holdingSim, d.sequence, [], by simp, by simp⟩

/-- Raising the interrupt, with its records. -/
theorem raiseIrqOnRetire : Quiet d (d.raiseIrqOnRetire p) := by
  rw [Device.raiseIrqOnRetire]
  dsimp only
  split_ifs
  · exact refl d
  · exact irq d _ _
  · exact ((irq d _ _).trans (emitIrqEvent p _ _ _ _)).trans (emit _ rfl)

/-- Acknowledging it, whether the line goes down or not. -/
theorem ackIrq (consume : UInt64) : Quiet d (d.ackIrq p consume) := by
  have hack (events : ℕ) : Quiet d
      { d.emitIrqEvent p "irq-acknowledged" consume.toUInt32 with irqEvents := events } :=
    (emitIrqEvent p d _ _ _).trans (irq _ _ _)
  have hdrop (events : ℕ) : Quiet d ((Device.emitIrqEvent p
      { d.emitIrqEvent p "irq-acknowledged" consume.toUInt32 with
        irqEvents := events, irqPending := false } "irq-deasserted" 0).emit (.irqSend 0)) :=
    (((emitIrqEvent p d _ _ _).trans (irq _ _ _)).trans (emitIrqEvent p _ _ _ _)).trans
      (emit _ rfl)
  rw [Device.ackIrq]
  dsimp only
  split_ifs
  · exact refl d
  · exact hack _
  · exact hdrop _
  · exact hack _
  · exact hdrop _

end Quiet

/-- `0x%PRIx64`. -/
def hexText (v : UInt64) : String := "0x" ++ String.ofList (Nat.toDigits 16 v.toNat)

/-- The constructor: refuse a bad configuration, else hold the simulation. The name of the
component, which stands before every message, is left out. -/
def construct (p : Params) : Except String Device :=
  if p.dmaBytesPerKernel ≠ 0 then
    .error (s!"dma_bytes_per_kernel={p.dmaBytesPerKernel} is not supported in P2.a " ++
      "(reserved for P2.b shared-bus DMA).\n")
  else if p.dmaRangeStart ≠ 0 ∧ p.dmaRangeEnd = 0 then
    .error (s!"dma_range_start={hexText p.dmaRangeStart} but dma_range_end=0 (unrestricted) " ++
      "— set dma_range_end (inclusive) too, or leave both 0 for no restriction.\n")
  else if p.dmaRangeEnd ≠ 0 ∧ p.dmaRangeEnd < p.dmaRangeStart then
    .error (s!"dma_range_end={hexText p.dmaRangeEnd} is below " ++
      s!"dma_range_start={hexText p.dmaRangeStart}.\n")
  else if p.kernel.isSome ∧ !p.hasMemIface then
    .error ("a 'kernel' subcomponent requires a 'mem_iface' subcomponent " ++
      "(memHierarchy.standardInterface) to DMA the kernel buffers.\n")
  else if p.eventFile ∧ p.kernel.isNone then
    .error ("event_file requires a real 'kernel' subcomponent; the synthetic latency model does " ++
      "not produce accelerator lifecycle claims.\n")
  else if p.irqWitnesses ∧ (p.irqLine < 0 ∨ p.kernel.isNone ∨ !p.eventFile) then
    .error "IRQ witnesses require a kernel, IRQ line and event file.\n"
  else if p.irqLine ≥ 0 ∧ !p.hasIrqLink then
    .error (s!"irq_line={p.irqLine} requires the 'irq' port to be linked to a QuetzCPU " ++
      "irq_link_%d port.\n")
  else .ok { holdingSim := true, trace := [.doNotEndSim] }

/-- A device that is set up holds the simulation and has done nothing else. -/
theorem construct_eq_ok {p : Params} {d : Device} (h : construct p = .ok d) :
    d = { holdingSim := true, trace := [.doNotEndSim] } := by
  rw [construct] at h
  split_ifs at h
  exact (Except.ok.inj h).symm

/-! ### What a register write does -/

/-- What a write of the value to a register does. -/
inductive RegisterWritten (p : Params) (d : Device) (offset value : UInt64) : Device → Prop
  | doorbell (hoff : offset = REG_DOORBELL) :
      RegisterWritten p d offset value (d.syntheticDoorbell p)
  | delivered (hoff : offset = REG_ISR_ENTRY) : RegisterWritten p d offset value
      (d.emitIrqEvent p "irq-delivered" value.toUInt32 "guest-isr-entry")
  | settled (hoff : offset = REG_IRQ_SETTLED) : RegisterWritten p d offset value
      (d.emitIrqEvent p "irq-settled" value.toUInt32 "guest-intc-clear")
  | checkpoint (hoff : offset = REG_CPU_CHECKPOINT) : RegisterWritten p d offset value
      (d.emitEvent p (.cpuCheckpoint value.toUInt32 (d.op.phase != .idle)))
  | latency (hoff : offset = REG_LATENCY_OVERRIDE) :
      RegisterWritten p d offset value { d with latencyOverride := value.toNat }
  | args (hoff : offset ∈ [REG_ARG0, REG_ARG1, REG_ARG2, REG_ARG3]) (args : KernelArgs) :
      RegisterWritten p d offset value { d with argRegs := args }
  | ack (hoff : offset = REG_IRQ_ACK) (hvalue : value ≠ 0) :
      RegisterWritten p d offset value (d.ackIrq p value)
  | nothing (hoff : offset ∉ [REG_DOORBELL, REG_LATENCY_OVERRIDE])
      (hack : offset = REG_IRQ_ACK → value = 0) : RegisterWritten p d offset value d

section

variable {p : Params} {d d' : Device} {offset value : UInt64} {write : MmioWrite}

/-- A doorbell in the latency model never fails. -/
theorem writeRegister_doorbell (hoff : offset = REG_DOORBELL) :
    d.writeRegister p offset write = .ok (d.syntheticDoorbell p) :=
  if_pos hoff

/-- Everything a register write can do. -/
theorem writeRegister_cases (h : d.writeRegister p offset write = .ok d') :
    RegisterWritten p d offset (dataToU64 write.data) d' := by
  rw [Device.writeRegister] at h
  dsimp only at h
  by_cases hdoor : offset = REG_DOORBELL
  · rw [if_pos hdoor] at h
    cases h
    exact .doorbell hdoor
  rw [if_neg hdoor] at h
  by_cases hwitness : (offset = REG_ISR_ENTRY ∨ offset = REG_IRQ_SETTLED) ∧ p.irqWitnesses
  · rw [if_pos hwitness] at h
    by_cases hisr : offset = REG_ISR_ENTRY
    · rw [if_pos hisr, if_pos hisr] at h
      split_ifs at h
      cases h
      exact .delivered hisr
    · rw [if_neg hisr, if_neg hisr] at h
      split_ifs at h
      cases h
      exact .settled (hwitness.1.resolve_left hisr)
  rw [if_neg hwitness] at h
  by_cases hpoint : offset = REG_CPU_CHECKPOINT ∧ p.cpuCheckpoints
  · rw [if_pos hpoint] at h
    split_ifs at h
    cases h
    exact .checkpoint hpoint.1
  rw [if_neg hpoint] at h
  by_cases hlatency : offset = REG_LATENCY_OVERRIDE
  · rw [if_pos hlatency] at h
    cases h
    exact .latency hlatency
  rw [if_neg hlatency] at h
  split_ifs at h with h0 h1 h2 h3 hack hvalue
  · cases h
    exact .args (by simp [h0]) _
  · cases h
    exact .args (by simp [h1]) _
  · cases h
    exact .args (by simp [h2]) _
  · cases h
    exact .args (by simp [h3]) _
  · cases h
    exact .ack hack hvalue
  · cases h
    exact .nothing (by simp [hdoor, hlatency]) fun _ => not_not.mp hvalue
  · cases h
    exact .nothing (by simp [hdoor, hlatency]) fun heq => absurd heq hack

/-- A write to another register than the doorbell leaves a view that sees neither the registers
nor what only the observers see. -/
theorem RegisterWritten.view_eq {α : Type} {view : Device → α}
    (hquiet : ∀ {d₁ d₂ : Device}, Quiet d₁ d₂ → view d₂ = view d₁)
    (hregs : ∀ (latency : ℕ) (args : KernelArgs),
      view { d with latencyOverride := latency, argRegs := args } = view d)
    (h : RegisterWritten p d offset value d') (hoff : offset ≠ REG_DOORBELL) :
    view d' = view d := by
  cases h with
  | doorbell hdoor => exact absurd hdoor hoff
  | delivered => exact hquiet (.emitIrqEvent ..)
  | settled => exact hquiet (.emitIrqEvent ..)
  | checkpoint => exact hquiet (.emitEvent ..)
  | latency => exact hregs _ d.argRegs
  | args _ args => exact hregs d.latencyOverride args
  | ack => exact hquiet (.ackIrq ..)
  | nothing => rfl

end

end Quetz.GpuDevice
