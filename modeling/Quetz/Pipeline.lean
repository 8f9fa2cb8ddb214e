import Quetz.AcceleratorPort
import Quetz.MemorySpan

/-!
# The Event Pipeline

`QuetzEventPipeline` (`src/quetz_pipeline.{h,cc}`) with the default stages: the refill of the
staging queue (`src/quetz_pipeline_input.cc`), the region table (`src/quetz_pipeline_filter.cc`,
`src/quetz_mem_access.cc`, `src/quetz_region_table.cc` and the handlers of
`src/quetz_region_handlers.cc`), the transform (`src/quetz_pipeline_transform.cc`), and the
output with its request emitter (`src/quetz_pipeline_output.cc`, `src/quetz_mem_issue.cc`).

The trace ring is the list of the commands that can be read from it. `fatal` keeps the error the
simulation stopped with, so that the requests sent before it stay visible. The logs `issued`,
`stats`, `handled` and `read` are not read by any function; `stats` has one entry for each
`addData`, those of `QuetzCore::handleMemResponse` included. What a region handler returns is its
action and the counter it charges; its text for the end of the simulation and verbose output are
left out, and so is the program counter of an access, which no request carries.
-/

namespace Quetz

/-! ### Region handlers -/

/-- What becomes of an access. -/
inductive MemRegionHandler.Action where
  | forward | forwardMmio | consume | endSim
deriving DecidableEq, Repr

/-- The counters the region handlers charge. -/
inductive RegionStat where
  | filteredReads | filteredWrites | gpuStatusPolls | gpuOtherReads | gpuDoorbellWrites
  | gpuOtherWrites
deriving DecidableEq, Repr

/-- The statistics of a core that its pipeline and its responses feed. -/
inductive CoreStat where
  | readReqs | writeReqs | mmioReadReqs | mmioWriteReqs
  | readLat | writeLat | mmioReadLat | mmioWriteLat
  | mmioTruncatedWrites | cachedTruncatedWrites
  | readReqSizes | writeReqSizes | splitReads | splitWrites
  | noopCount | insnCount | cycles | activeCycles
  | stallCycles | computeStallCycles
  | intCompute | fpCompute | vecCompute | branch
  | region (stat : RegionStat)
deriving DecidableEq, Repr

/-- The outcome of a handler: its action and the counter it charges. -/
structure Handled where
  action : MemRegionHandler.Action
  stat : Option RegionStat := none
deriving DecidableEq, Repr

/-- A handler of the accesses to `[startAddr, endAddr]`. -/
structure MemRegionHandler where
  startAddr : UInt64
  endAddr : UInt64
  onRead : QuetzCommand → Handled
  onWrite : QuetzCommand → Handled

section Handlers

variable (start last : UInt64)

/-- A handler that treats all reads alike, and all writes. -/
def uniformRegionHandler (read write : Handled) : MemRegionHandler :=
  ⟨start, last, fun _ => read, fun _ => write⟩

def forwardRegionHandler : MemRegionHandler :=
  uniformRegionHandler start last ⟨.forward, none⟩ ⟨.forward, none⟩

def filteredRegionHandler : MemRegionHandler :=
  uniformRegionHandler start last ⟨.consume, some .filteredReads⟩ ⟨.consume, some .filteredWrites⟩

def uartRegionHandler : MemRegionHandler :=
  uniformRegionHandler start last ⟨.consume, some .filteredReads⟩ ⟨.consume, some .filteredWrites⟩

def gpuTraceRegionHandler (doorbellOffset statusOffset : UInt64) : MemRegionHandler where
  startAddr := start
  endAddr := last
  onRead cmd := ⟨.consume,
    some (if cmd.addr - start = statusOffset then .gpuStatusPolls else .gpuOtherReads)⟩
  onWrite cmd := ⟨.consume,
    some (if cmd.addr - start = doorbellOffset then .gpuDoorbellWrites else .gpuOtherWrites)⟩

def mmioForwardRegionHandler : MemRegionHandler :=
  uniformRegionHandler start last ⟨.forwardMmio, none⟩ ⟨.forwardMmio, none⟩

/-- Reads are harmless; a store ends the simulation. -/
def testFinisherRegionHandler : MemRegionHandler :=
  uniformRegionHandler start last ⟨.consume, some .filteredReads⟩ ⟨.endSim, some .filteredWrites⟩

end Handlers

/-- The handlers, the first match decides. -/
abbrev MemRegionTable := List MemRegionHandler

def MemRegionTable.findHandler (table : MemRegionTable) (addr : UInt64) : Option MemRegionHandler :=
  table.find? fun h => decide (h.startAddr ≤ addr) && decide (addr ≤ h.endAddr)

/-! ### Configuration -/

/-- What the pipeline is connected to. -/
structure CoreContext where
  coreId : ℕ := 0
  cacheLineSize : ℕ := 64
  filterUnmatchedRegions : Bool := false
  detailedTracking : Bool := false
  regionTable : Option MemRegionTable := none
  hasMem : Bool := true
  hasMmio : Bool := true
  cacheLineSize_pos : 0 < cacheLineSize := by decide

instance : Inhabited CoreContext := ⟨{}⟩

/-- The limits and latencies; a pipeline with a zero limit is refused. -/
structure PipelineLimits where
  maxQueueLen : ℕ := 64
  maxIssuePerCycle : ℕ := 2
  maxPending : ℕ := 64
  maxInsts : ℕ := 0
  execLatency : ℕ → ℕ := fun _ => 0
  computeLatency : ℕ → ℕ := fun _ => 0
  maxQueueLen_pos : 0 < maxQueueLen := by decide
  maxIssuePerCycle_pos : 0 < maxIssuePerCycle := by decide
  maxPending_pos : 0 < maxPending := by decide

instance : Inhabited PipelineLimits := ⟨{}⟩

/-- The number of instruction classes with a latency. -/
def insnClassCount : ℕ := 8

/-! ### State -/

/-- A command in the staging queue with the cycles it still stalls. -/
structure PipelineEvent where
  cmd : QuetzCommand
  remainingStall : ℕ
deriving DecidableEq, Repr

/-- A memory access on its way to the links. -/
structure MemOp where
  isRead : Bool
  isMmio : Bool
  addr : UInt64
  size : ℕ
  data : List UInt8
deriving DecidableEq, Repr

/-- The errors of the pipeline. -/
inductive PipelineFatal where
  | readWraps
  | writeWraps
  | notConnected (coreId : ℕ) (isMmio isRead : Bool) (addr : UInt64)
  | exceededBudget
  | cannotSplit
deriving DecidableEq, Repr

/-- A 64-bit value as sixteen hexadecimal digits. -/
def hexDigits (n : UInt64) : String :=
  let digits := Nat.toDigits 16 n.toNat
  String.ofList (List.replicate (16 - digits.length) '0' ++ digits)

/-- The text of an error. -/
def PipelineFatal.message : PipelineFatal → String
  | .readWraps => "Memory read wraps the address space."
  | .writeWraps => "Memory write wraps the address space."
  | .notConnected coreId isMmio isRead addr =>
    let path := if isMmio then "MMIO" else "cached"
    let kind := if isRead then "read" else "write"
    let link := if isMmio then "mmio_link" else "cache_link"
    let hex := hexDigits addr
    s!"QuetzCore {coreId}: {path} {kind} to 0x{hex} but {link} is not connected."
  | .exceededBudget => "Pipeline output exceeded its issue budget."
  | .cannotSplit =>
    "Pipeline output cannot split an access to fit maxissuepercycle/maxtranscore."

/-- A request that waits for its response. -/
structure QuetzPendingReq where
  id : ℕ
  issueCycle : ℕ
  isMmio : Bool
deriving DecidableEq, Repr

/-- The requests of the pipeline that wait for their response; `simTime` is the time of the
simulation. -/
structure MemRequestEmitter where
  simTime : ℕ := 0
  pendingTxns : List QuetzPendingReq := []
  pendingCount : ℕ := 0
  stats : List (CoreStat × ℕ) := []
  /-- Every request ever issued, oldest first. -/
  issued : List Request := []
deriving DecidableEq, Repr

/-- The state of the pipeline and its stages. -/
structure Pipeline where
  runNop : QuetzCommand := { cmd := .nop }
  runStall : ℕ := 0
  runRemaining : ℕ := 0
  coreQ : List PipelineEvent := []
  pendingOp : Option MemOp := none
  /-- The bytes of the pending access that were issued. -/
  offset : ℕ := 0
  instCount : ℕ := 0
  halted : Bool := false
  guestExit : Bool := false
  refillHitCap : Bool := false
  emitter : MemRequestEmitter := {}
  fatal : Option PipelineFatal := none
  stats : List (CoreStat × ℕ) := []
  /-- Every access the region table was asked about, with its answer, oldest first. -/
  handled : List (QuetzCommand × Handled) := []
  /-- Every command read from the ring, oldest first. -/
  read : List QuetzCommand := []

/-! ### Input -/

/-- Expand the compute run while there is room in the queue. -/
def drainRunLoop (maxQueueLen : ℕ) (ev : PipelineEvent) :
    ℕ → List PipelineEvent → ℕ × List PipelineEvent
  | 0, q => (0, q)
  | remaining + 1, q =>
    if q.length < maxQueueLen then drainRunLoop maxQueueLen ev remaining (q ++ [ev])
    else (remaining + 1, q)

namespace Pipeline

def drainRun (l : PipelineLimits) (s : Pipeline) : Pipeline :=
  let res := drainRunLoop l.maxQueueLen ⟨s.runNop, s.runStall⟩ s.runRemaining s.coreQ
  { s with runRemaining := res.1, coreQ := res.2 }

/-- The stall of a command that is not a compute run. -/
def stallOf (l : PipelineLimits) (cmd : QuetzCommand) : ℕ :=
  if cmd.insnClass < insnClassCount then
    match cmd.cmd with
    | .read | .write => l.execLatency cmd.insnClass
    | .nop => l.computeLatency cmd.insnClass
    | _ => 0
  else 0

/-- The state that starts to expand a compute run. -/
def startRun (l : PipelineLimits) (cmd : QuetzCommand) (s : Pipeline) : Pipeline :=
  { s with
    runNop := { cmd with cmd := .nop, size := 0 }
    runStall := if cmd.insnClass < insnClassCount then l.computeLatency cmd.insnClass else 0
    runRemaining := if cmd.size ≠ 0 then cmd.size else 1 }

/-- Read commands until the queue is full, the ring is empty or the guest exits. -/
def refillLoop (l : PipelineLimits) : List QuetzCommand → Pipeline → List QuetzCommand × Pipeline
  | [], s => ([], s)
  | cmd :: ring, s =>
    if s.coreQ.length < l.maxQueueLen ∧ s.runRemaining = 0 then
      let s := { s with read := s.read ++ [cmd] }
      if cmd.cmd = .computeRun then refillLoop l ring (drainRun l (startRun l cmd s))
      else
        let s := { s with coreQ := s.coreQ ++ [⟨cmd, stallOf l cmd⟩] }
        if cmd.cmd = .exit then (ring, s) else refillLoop l ring s
    else (cmd :: ring, s)

def refill (l : PipelineLimits) (ring : List QuetzCommand) (s : Pipeline) :
    List QuetzCommand × Pipeline :=
  refillLoop l ring (drainRun l s)

end Pipeline

/-! ### Filter -/

/-- The command is a memory access. -/
def QuetzCommand.isAccess (cmd : QuetzCommand) : Bool := cmd.cmd == .read || cmd.cmd == .write

/-- The answer of the region table to an access. -/
def handleMemoryAccess (table : MemRegionTable) (filterUnmatched : Bool) (cmd : QuetzCommand) :
    Handled :=
  if cmd.isAccess then
    match table.findHandler cmd.addr with
    | none =>
      if filterUnmatched then
        ⟨.consume, some (if cmd.cmd = .read then .filteredReads else .filteredWrites)⟩
      else ⟨.forward, none⟩
    | some h => if cmd.cmd = .read then h.onRead cmd else h.onWrite cmd
  else ⟨.forward, none⟩

/-- Feed a statistic. -/
def Pipeline.addData (stat : CoreStat) (s : Pipeline) : Pipeline :=
  { s with stats := s.stats ++ [(stat, 1)] }

/-- The filter stage: the action for an access. -/
def filterHandle (c : CoreContext) (cmd : QuetzCommand) (s : Pipeline) :
    MemRegionHandler.Action × Pipeline :=
  match c.regionTable with
  | none => (.forward, s)
  | some table =>
    let answer := handleMemoryAccess table c.filterUnmatchedRegions cmd
    let s := { s with handled := s.handled ++ [(cmd, answer)] }
    (answer.action, answer.stat.elim s fun stat => s.addData (.region stat))

/-! ### Transform -/

/-- What the transform makes of an event. -/
inductive TransformResult where
  | stall (ev : PipelineEvent)
  | consumedNoop
  | emitMemop (op : MemOp)
  | haltExit
deriving DecidableEq, Repr

def transformProcess (ev : PipelineEvent) (action : MemRegionHandler.Action) : TransformResult :=
  if ev.cmd.cmd = .exit then .haltExit
  else if action = .endSim then .haltExit
  else if 0 < ev.remainingStall then .stall { ev with remainingStall := ev.remainingStall - 1 }
  else if ev.cmd.cmd = .nop then .consumedNoop
  else .emitMemop
    { isRead := ev.cmd.cmd == .read
      isMmio := action == .forwardMmio
      addr := ev.cmd.addr
      size := ev.cmd.size
      data := ev.cmd.data }

/-- The statistics a computation feeds when it leaves the queue. -/
def computeStats (c : CoreContext) (insnClass : ℕ) : List CoreStat :=
  let detailed : List CoreStat :=
    if c.detailedTracking then
      match insnClass with
      | 3 => [.intCompute]
      | 4 => [.fpCompute]
      | 5 => [.vecCompute]
      | 6 => [.branch]
      | _ => []
    else []
  [.noopCount, .insnCount] ++ detailed

/-- The statistics the transform feeds. -/
def transformStats (c : CoreContext) (ev : PipelineEvent) : TransformResult → List CoreStat
  | .stall _ => [if ev.cmd.cmd = .nop then .computeStallCycles else .stallCycles]
  | .consumedNoop => computeStats c ev.cmd.insnClass
  | .emitMemop _ | .haltExit => []

/-! ### Output -/

namespace MemRequestEmitter

/-- Feed a statistic. -/
def addData (stat : CoreStat) (n : ℕ) (e : MemRequestEmitter) : MemRequestEmitter :=
  { e with stats := e.stats ++ [(stat, n)] }

/-- Feed a statistic in a case. -/
def addDataIf (p : Prop) [Decidable p] (stat : CoreStat) (n : ℕ) (e : MemRequestEmitter) :
    MemRequestEmitter := if p then e.addData stat n else e

/-- The counter of a request. -/
def requestStat : Link → Body → CoreStat
  | .mem, .read .. => .readReqs
  | .mem, _ => .writeReqs
  | .mmio, .read .. => .mmioReadReqs
  | .mmio, _ => .mmioWriteReqs

/-- Send a request of the core, track it and count it. -/
def emit (c : CoreContext) (link : Link) (body : Body) (h : Host) (e : MemRequestEmitter) :
    Host × MemRequestEmitter :=
  (h.send c.coreId link body,
    { e with
      pendingTxns := e.pendingTxns ++ [⟨h.nextId, e.simTime, link == .mmio⟩]
      pendingCount := e.pendingCount + 1
      stats := e.stats ++ [(requestStat link body, 1)]
      issued := e.issued ++ [⟨h.nextId, c.coreId, link, body⟩] })

/-- What is left of a window: the requests sent, the cursor, the host and the emitter. -/
structure Window where
  parts : ℕ
  offset : ℕ
  host : Host
  emitter : MemRequestEmitter

/-- The chunk of a write at `dataOffset`; bytes that were not captured are zero. -/
def chunkData (raw : List UInt8) (dataOffset chunk : ℕ) : List UInt8 :=
  if dataOffset < cmdDataBytes then
    let copied := min chunk (cmdDataBytes - dataOffset)
    (raw.drop dataOffset).take copied ++ List.replicate (chunk - copied) 0
  else List.replicate chunk 0

/-- The chunks of an access from `offset` on, at most `budget` of them. The reads and the writes
of the source have one loop each; they differ in the body of a request and in the counter of the
chunks after the first. -/
def issueChunks (c : CoreContext) (split : CoreStat) (body : UInt64 → ℕ → ℕ → Body) :
    ℕ → UInt64 → ℕ → ℕ → Host → MemRequestEmitter → Window
  | 0, _, _, offset, h, e => ⟨0, offset, h, e⟩
  | budget + 1, addr, remaining, offset, h, e =>
    if remaining = 0 then ⟨0, offset, h, e⟩
    else
      let chunk := memoryChunkSize addr.toNat remaining c.cacheLineSize remaining
      let res := emit c .mem (body addr offset chunk) h (e.addDataIf (offset ≠ 0) split 1)
      let w := issueChunks c split body budget (addr + .ofNat chunk) (remaining - chunk)
        (offset + chunk) res.1 res.2
      { w with parts := w.parts + 1 }

/-- The link of the access is there. -/
def linked (c : CoreContext) (op : MemOp) : Bool := if op.isMmio then c.hasMmio else c.hasMem

def issueReadWindow (c : CoreContext) (op : MemOp) (offset budget : ℕ) (h : Host)
    (e : MemRequestEmitter) : Except PipelineFatal Window :=
  if op.size = 0 ∨ budget = 0 then .ok ⟨0, offset, h, e⟩
  else if !memorySpanValid op.addr.toNat op.size then .error .readWraps
  else if !linked c op then .error (.notConnected c.coreId op.isMmio true op.addr)
  else if op.isMmio then
    let res := emit c .mmio (.read op.addr op.size) h e
    .ok ⟨1, op.size, res.1, res.2⟩
  else .ok (issueChunks c .splitReads (fun addr _ chunk => .read addr chunk) budget
    (op.addr + .ofNat offset) (op.size - offset) offset h
    (e.addDataIf (offset = 0) .readReqSizes op.size))

def issueWriteWindow (c : CoreContext) (op : MemOp) (offset budget : ℕ) (h : Host)
    (e : MemRequestEmitter) : Except PipelineFatal Window :=
  if op.size = 0 ∨ budget = 0 then .ok ⟨0, offset, h, e⟩
  else if !memorySpanValid op.addr.toNat (min op.size cmdDataBytes) then .error .writeWraps
  else if !linked c op then .error (.notConnected c.coreId op.isMmio false op.addr)
  else
    -- Bytes beyond the payload were never captured.
    let issueSize := if op.size > cmdDataBytes then cmdDataBytes else op.size
    if op.isMmio then
      let res := emit c .mmio (.write op.addr issueSize (op.data.take issueSize)) h
        (e.addDataIf (op.size > cmdDataBytes) .mmioTruncatedWrites 1)
      .ok ⟨1, op.size, res.1, res.2⟩
    else
      let e := e.addDataIf (offset = 0) .writeReqSizes op.size
      let e := e.addDataIf (op.size > cmdDataBytes ∧ offset = 0) .cachedTruncatedWrites 1
      let w := issueChunks c .splitWrites (fun addr offset chunk => .write addr chunk
        (chunkData op.data offset chunk)) budget (op.addr + .ofNat offset) (issueSize - offset)
        offset h e
      .ok { w with offset := if w.offset = issueSize then op.size else w.offset }

/-- A response arrives; the latency of its request and whether it was mmio, or `none` if the
request is not one of the pipeline's. -/
def handleResponse (id : ℕ) (e : MemRequestEmitter) : Option (ℕ × Bool) × MemRequestEmitter :=
  match e.pendingTxns.find? fun p => p.id == id with
  | none => (none, e)
  | some p => (some (e.simTime - p.issueCycle, p.isMmio), { e with
      pendingTxns := e.pendingTxns.filter fun p => p.id != id
      pendingCount := e.pendingCount - 1 })

end MemRequestEmitter

/-! ### The pipeline -/

namespace Pipeline

open MemRequestEmitter

def checkMaxInsts (l : PipelineLimits) (s : Pipeline) : Pipeline :=
  if 0 < l.maxInsts ∧ l.maxInsts ≤ s.instCount then { s with halted := true } else s

/-- A command left the queue. -/
def retire (l : PipelineLimits) (s : Pipeline) : Pipeline :=
  checkMaxInsts l { s with instCount := s.instCount + 1 }

/-- Feed some statistics. -/
def addAll (stats : List CoreStat) (s : Pipeline) : Pipeline :=
  { s with stats := s.stats ++ stats.map fun stat => (stat, 1) }

/-- The end of a tick that neither halted at the head of the queue nor was fatal. -/
def endTick (issued : ℕ) (s : Pipeline) : Pipeline :=
  if s.fatal.isSome then s
  else s.addAll (if 0 < issued then [.activeCycles, .cycles] else [.cycles])

/-- Issue a part of the access and tell whether it is complete. -/
def issueAvailable (c : CoreContext) (op : MemOp) (budget : ℕ) (h : Host) (s : Pipeline) :
    Except PipelineFatal (ℕ × Bool × Host × Pipeline) :=
  let res := if op.isRead then issueReadWindow c op s.offset budget h s.emitter
    else issueWriteWindow c op s.offset budget h s.emitter
  match res with
  | .error e => .error e
  | .ok w =>
    let complete := decide (w.offset = op.size)
    .ok (w.parts, complete, w.host,
      { s with offset := if complete then 0 else w.offset, emitter := w.emitter })

/-- The outcome of `issueMemOp`: whether the access is complete, and the requests of this tick. -/
structure Issue where
  complete : Bool
  issued : ℕ
  host : Host
  pipe : Pipeline

def issueMemOp (c : CoreContext) (l : PipelineLimits) (op : MemOp) (issued : ℕ) (h : Host)
    (s : Pipeline) : Issue :=
  let pending := s.emitter.pendingCount
  let budget := min (l.maxIssuePerCycle - issued) (l.maxPending - pending)
  if budget = 0 then ⟨false, issued, h, s⟩
  else
    match issueAvailable c op budget h s with
    | .error e => ⟨false, issued, h, { s with fatal := some e }⟩
    | .ok (count, complete, h, s) =>
      if count > budget then ⟨false, issued, h, { s with fatal := some .exceededBudget }⟩
      else if !complete ∧ count = 0 ∧ issued = 0 ∧ pending = 0 then
        ⟨false, issued, h, { s with fatal := some .cannotSplit }⟩
      else if complete then
        ⟨true, issued + count, h, retire l (addData .insnCount { s with pendingOp := none })⟩
      else ⟨false, issued + count, h, s⟩

/-- What is to be done with the head of the queue. -/
inductive Head where
  | issue (op : MemOp)
  | retire
  | stall (ev : PipelineEvent)
  | halt
deriving DecidableEq, Repr

/-- The filter and the transform on the head of the queue, unless its access is pending. -/
def classify (c : CoreContext) (ev : PipelineEvent) (s : Pipeline) : Head × Pipeline :=
  match s.pendingOp with
  | some op => (.issue op, s)
  | none =>
    let filtered := if ev.cmd.isAccess then filterHandle c ev.cmd s else (.forward, s)
    if ev.cmd.isAccess ∧ filtered.1 = .consume then (.retire, filtered.2.addData .insnCount)
    else
      let result := transformProcess ev filtered.1
      let s := filtered.2.addAll (transformStats c ev result)
      match result with
      | .haltExit => (.halt, s)
      | .stall ev => (.stall ev, s)
      | .consumedNoop => (.retire, s)
      | .emitMemop op => (.issue op, { s with pendingOp := some op })

/-- The loop of a tick over the staging queue. -/
def issueLoop (c : CoreContext) (l : PipelineLimits) : List PipelineEvent → ℕ → Host → Pipeline →
    Host × Pipeline
  | [], issued, h, s => (h, endTick issued { s with coreQ := [] })
  | ev :: q, issued, h, s =>
    match classify c ev s with
    | (.issue op, s) =>
      let res := issueMemOp c l op issued h s
      if !res.complete then (res.host, endTick res.issued { res.pipe with coreQ := ev :: q })
      else if res.pipe.halted then (res.host, endTick res.issued { res.pipe with coreQ := q })
      else issueLoop c l q res.issued res.host res.pipe
    | (.retire, s) =>
      let s := retire l s
      if s.halted then (h, { s with coreQ := q }) else issueLoop c l q issued h s
    | (.stall ev, s) => (h, endTick issued { s with coreQ := ev :: q })
    | (.halt, s) => (h, { s with
        guestExit := ev.cmd.cmd == .exit
        halted := true
        coreQ := q })

/-- One cycle of the pipeline on its trace ring. -/
def tick (c : CoreContext) (l : PipelineLimits) (h : Host) (ring : List QuetzCommand)
    (s : Pipeline) : Host × List QuetzCommand × Pipeline :=
  if s.halted ∨ s.fatal.isSome then (h, ring, s)
  else
    let filled := refill l ring s
    let s := { filled.2 with refillHitCap := decide (l.maxQueueLen ≤ filled.2.coreQ.length) }
    let res := issueLoop c l s.coreQ 0 h s
    (res.1, filled.1, res.2)

/-- The statistic of a latency. -/
def latencyStat (isMmio isRead : Bool) : CoreStat :=
  if isMmio then if isRead then .mmioReadLat else .mmioWriteLat
  else if isRead then .readLat else .writeLat

/-- A response arrives (`QuetzCore::handleMemResponse`, for a response that is not one of the
synchronous path). -/
def handleMemResponse (id : ℕ) (resp : Response) (s : Pipeline) : Pipeline :=
  let res := s.emitter.handleResponse id
  match res.1 with
  | none => { s with emitter := res.2 }
  | some (latency, isMmio) =>
    let isRead := match resp with
      | .readResp _ => true
      | _ => false
    { s with
      emitter := res.2
      stats := s.stats ++ [(latencyStat isMmio isRead, latency)] }

/-- No request waits for its response, and no command is left that was seen in the ring. -/
def isDrained (s : Pipeline) : Bool :=
  s.emitter.pendingCount == 0 && (s.halted || (s.coreQ.isEmpty && !s.refillHitCap))

end Pipeline

/-! ### Runs -/

/-- The pipeline of a core with its trace ring and its links. -/
structure CoreRun where
  host : Host := {}
  ring : List QuetzCommand := []
  pipe : Pipeline := {}

/-- What happens to a core: the guest writes commands to the ring, the core ticks, a request on
the links is answered, or another component sends a request. -/
inductive CoreEvent where
  | push (cmds : List QuetzCommand)
  | tick (now : ℕ)
  | answer (now i : ℕ) (data : List UInt8)
  | send (vcpu : ℕ) (link : Link) (body : Body)

namespace CoreRun

/-- The pipeline at a time of the simulation. -/
def pipeAt (now : ℕ) (r : CoreRun) : Pipeline :=
  { r.pipe with emitter := { r.pipe.emitter with simTime := now } }

/-- One event. -/
def step (c : CoreContext) (l : PipelineLimits) (r : CoreRun) : CoreEvent → CoreRun
  | .push cmds => { r with ring := r.ring ++ cmds }
  | .tick now =>
    let res := (r.pipeAt now).tick c l r.host r.ring
    ⟨res.1, res.2.1, res.2.2⟩
  | .answer now i data =>
    match r.host.inFlight[i]? with
    | none => r
    | some req => { r with
        host := r.host.take i
        pipe := (r.pipeAt now).handleMemResponse req.id (req.body.response data) }
  | .send vcpu link body => { r with host := r.host.send vcpu link body }

/-- The events, one after the other. -/
def run (c : CoreContext) (l : PipelineLimits) (r : CoreRun) (es : List CoreEvent) : CoreRun :=
  es.foldl (step c l) r

end CoreRun

end Quetz
