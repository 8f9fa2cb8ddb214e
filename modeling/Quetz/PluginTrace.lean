import Quetz.Coalescing

/-!
# The Trace of the QEMU Plugin

The plugin (`src/qemu_plugin/`) reports what the guest executes to the trace ring of its vCPU.
Consecutive computations of one class are accumulated (`accumulate_compute`) and written as one
`COMPUTE_RUN` (`flush_run`): when the class changes, when the run is full, and before everything
that must not overtake it, a traced access, an access to the synchronous range or to the window,
a cache operation and the end of the guest.

The callbacks are those of `instrument.cpp` and `plugin_main.cpp`. An ISA with a decoder reports
each computation when it executes (`emitNop`); without one the callback of an instruction reports
the instruction before it, unless that one made a traced access (`execDelayed`). Of a cache
operation only the flush is modelled: its round trip through the mailbox does not touch the ring.
A vCPU without a ring aborts the plugin. The bytes of a stored value are those of a little-endian
host.

## Main results

* `PluginState.flushed_published` / `accumulated_published`: what is published and accumulated.
* `Plugin.trace_round_trips`: the expanded ring is what was reported.
-/

namespace Quetz

/-! ### Events of the guest -/

/-- The instruction classes. -/
inductive InsnClass where
  | intMem | fpMem | vecMem | intCompute | fpCompute | vecCompute | branch | other
deriving DecidableEq, Repr

/-- The number of a class in a command. -/
def InsnClass.code : InsnClass → ℕ
  | .intMem => 0
  | .fpMem => 1
  | .vecMem => 2
  | .intCompute => 3
  | .fpCompute => 4
  | .vecCompute => 5
  | .branch => 6
  | .other => 7

/-- The value of an access. -/
inductive MemValue where
  | u8 (x : UInt8)
  | u16 (x : UInt16)
  | u32 (x : UInt32)
  | u64 (x : UInt64)
  | u128 (low high : UInt64)
deriving DecidableEq, Repr

/-- The bytes of a number, least significant byte first. -/
def leBytes (n : ℕ) (x : ℕ) : List UInt8 := (List.range n).map fun i => UInt8.ofNat (x >>> (8 * i))

def MemValue.bytes : MemValue → List UInt8
  | .u8 x => [x]
  | .u16 x => leBytes 2 x.toNat
  | .u32 x => leBytes 4 x.toNat
  | .u64 x => leBytes 8 x.toNat
  | .u128 low high => leBytes 8 low.toNat ++ leBytes 8 high.toNat

/-- What QEMU tells about an access. -/
structure MemInfo where
  isStore : Bool
  sizeShift : ℕ
  value : MemValue
deriving DecidableEq, Repr

/-- A callback of QEMU. -/
inductive PluginCallback where
  | emitNop (vcpu : ℕ) (pc : UInt64) (cls : InsnClass)
  | execDelayed (vcpu : ℕ) (pc : UInt64) (cls : InsnClass)
  | mem (vcpu : ℕ) (info : MemInfo) (vaddr pc : UInt64) (cls : InsnClass)
  | cacheOp (vcpu : ℕ)
  | atexit (numVcpus : ℕ)
deriving DecidableEq, Repr

/-! ### The plugin -/

/-- The most vCPUs of the plugin. -/
def pluginMaxVcpus : ℕ := 256

/-- The longest run. -/
def computeRunMax : ℕ := 4096

/-- The arguments of the plugin, its classifier and the API of QEMU it was built for. -/
structure PluginConfig where
  configuredVcpus : ℕ := 1
  mmioSyncBase : UInt64 := 0
  mmioSyncSize : UInt64 := 0
  sstWinBase : UInt64 := 0
  sstWinSize : UInt64 := 0
  usesPreciseMemCallbacks : Bool := true
  pluginVersion : ℕ := 4

/-- The state of the plugin, with the commands written to each ring. -/
structure PluginState where
  memSeen : ℕ → Bool := fun _ => false
  prevCls : ℕ → InsnClass := fun _ => .other
  runCls : ℕ → InsnClass := fun _ => .intMem
  runCount : ℕ → ℕ := fun _ => 0
  runPc : ℕ → UInt64 := fun _ => 0
  rings : ℕ → List QuetzCommand := fun _ => []

/-- The vCPU has no ring, and the plugin aborts. -/
structure PluginAbort where
  vcpu : ℕ
deriving DecidableEq, Repr

namespace Plugin

variable (p : PluginConfig)

/-- Abort unless the vCPU has a ring. -/
def requireVcpu (vcpu : ℕ) : Except PluginAbort Unit :=
  if vcpu ≥ p.configuredVcpus ∨ vcpu ≥ pluginMaxVcpus then .error ⟨vcpu⟩ else .ok ()

/-- Write a command to a ring. -/
def writeMessage (vcpu : ℕ) (cmd : QuetzCommand) (s : PluginState) : PluginState :=
  { s with rings := Function.update s.rings vcpu (s.rings vcpu ++ [cmd]) }

/-- Write the accumulated run. -/
def flushRun (vcpu : ℕ) (s : PluginState) : Except PluginAbort PluginState := do
  requireVcpu p vcpu
  if s.runCount vcpu = 0 then return s
  let s := writeMessage vcpu
    { cmd := .computeRun
      size := s.runCount vcpu
      pc := s.runPc vcpu
      insnClass := (s.runCls vcpu).code } s
  return { s with runCount := Function.update s.runCount vcpu 0 }

/-- Add a computation to the run of its vCPU. -/
def accumulateCompute (vcpu : ℕ) (pc : UInt64) (cls : InsnClass) (s : PluginState) :
    Except PluginAbort PluginState := do
  requireVcpu p vcpu
  let s ← if s.runCount vcpu > 0 ∧ s.runCls vcpu ≠ cls then flushRun p vcpu s else pure s
  let s := { s with
    runCls := Function.update s.runCls vcpu cls
    runPc := Function.update s.runPc vcpu pc
    runCount := Function.update s.runCount vcpu (s.runCount vcpu + 1) }
  if s.runCount vcpu ≥ computeRunMax then flushRun p vcpu s else return s

/-- The payload of a command. -/
def payload (size : ℕ) : Option (List UInt8) → List UInt8
  | some data =>
    let n := if size < cmdDataBytes then size else cmdDataBytes
    data.take n ++ List.replicate (cmdDataBytes - n) 0
  | none => List.replicate cmdDataBytes 0

/-- Write an access to the ring. -/
def writeCmd (vcpu : ℕ) (cmd : ShmemCmd) (size : ℕ) (pc addr : UInt64) (cls : InsnClass)
    (storeData : Option (List UInt8)) (s : PluginState) : Except PluginAbort PluginState := do
  requireVcpu p vcpu
  return writeMessage vcpu
    { cmd := cmd
      size := size
      pc := pc
      addr := addr
      insnClass := cls.code
      data := payload size storeData } s

/-- The size of an access. -/
def accessSize (info : MemInfo) : ℕ := if info.sizeShift < 8 then 2 ^ info.sizeShift else 128

/-- The access reaches the simulation through the mailbox. -/
def isSync (vaddr : UInt64) : Bool :=
  (p.mmioSyncSize != 0 && decide (p.mmioSyncBase ≤ vaddr) &&
      decide (vaddr < p.mmioSyncBase + p.mmioSyncSize)) ||
    (p.sstWinSize != 0 && decide (p.sstWinBase ≤ vaddr) &&
      decide (vaddr < p.sstWinBase + p.sstWinSize))

/-- The class of an access: without a decoder its size decides (`classify_by_size`). -/
def memClass (cls : InsnClass) (size : ℕ) : InsnClass :=
  if p.usesPreciseMemCallbacks then cls else if size ≥ 16 then .vecMem else .intMem

/-- The captured bytes of a store, in a buffer of zeros. -/
def storeData (info : MemInfo) : Option (List UInt8) :=
  if info.isStore ∧ accessSize info ≤ cmdDataBytes ∧ 4 ≤ p.pluginVersion then
    some (info.value.bytes ++ List.replicate (cmdDataBytes - info.value.bytes.length) 0)
  else none

/-- The handler of an access. -/
def handle (vcpu : ℕ) (info : MemInfo) (vaddr pc : UInt64) (cls : InsnClass) (s : PluginState) :
    Except PluginAbort PluginState := do
  if vcpu ≥ pluginMaxVcpus then return s
  if isSync p vaddr then flushRun p vcpu s
  else
    let s := { s with memSeen := Function.update s.memSeen vcpu true }
    let s ← flushRun p vcpu s
    writeCmd p vcpu (if info.isStore then .write else .read) (accessSize info) pc vaddr
      (memClass p cls (accessSize info)) (storeData p info) s

/-- The callback of an instruction reports the instruction before it. -/
def handleExecDelayed (vcpu : ℕ) (pc : UInt64) (cls : InsnClass) (s : PluginState) :
    Except PluginAbort PluginState :=
  if vcpu ≥ pluginMaxVcpus then .ok s
  else
    let s' := { s with
      prevCls := Function.update s.prevCls vcpu cls
      memSeen := Function.update s.memSeen vcpu false }
    if s.memSeen vcpu then .ok s' else accumulateCompute p vcpu pc (s.prevCls vcpu) s'

/-- The end of one vCPU's trace. -/
def exitVcpu (vcpu : ℕ) (s : PluginState) : Except PluginAbort PluginState := do
  requireVcpu p vcpu
  let s ← flushRun p vcpu s
  return writeMessage vcpu { cmd := .exit } s

/-- The end of the guest, for the vCPUs from `vcpu` on. -/
def atexitLoop : ℕ → ℕ → PluginState → Except PluginAbort PluginState
  | 0, _, s => .ok s
  | n + 1, vcpu, s => do
    let s ← exitVcpu p vcpu s
    atexitLoop n (vcpu + 1) s

/-- One callback. -/
def call (s : PluginState) : PluginCallback → Except PluginAbort PluginState
  | .emitNop vcpu pc cls => accumulateCompute p vcpu pc cls s
  | .execDelayed vcpu pc cls => handleExecDelayed p vcpu pc cls s
  | .mem vcpu info vaddr pc cls => handle p vcpu info vaddr pc cls s
  | .cacheOp vcpu => flushRun p vcpu s
  | .atexit numVcpus => atexitLoop p (if numVcpus = 0 then 1 else numVcpus) 0 s

/-- The callbacks, one after the other. -/
def run : List PluginCallback → PluginState → Except PluginAbort PluginState
  | [], s => .ok s
  | cb :: cbs, s => do
    let s ← call p s cb
    run cbs s

/-! ### What a guest executes -/

/-- An item of a trace, as it reaches the pipeline. -/
inductive TraceItem where
  | compute (insnClass : ℕ)
  | access (cmd : QuetzCommand)
  | exit
deriving DecidableEq, Repr

/-- The item of an event. -/
def TraceItem.ofEvent (ev : PipelineEvent) : TraceItem :=
  match ev.cmd.cmd with
  | .nop => .compute ev.cmd.insnClass
  | .exit => .exit
  | _ => .access ev.cmd

/-- The trace in a ring: the pipeline expands the runs. -/
def expand (ring : List QuetzCommand) : List TraceItem :=
  (ring.flatMap (eventsOf default)).map TraceItem.ofEvent

/-- The command of a traced access. -/
def accessCommand (info : MemInfo) (vaddr pc : UInt64) (cls : InsnClass) : QuetzCommand where
  cmd := if info.isStore then .write else .read
  size := accessSize info
  pc := pc
  addr := vaddr
  insnClass := (memClass p cls (accessSize info)).code
  data := payload (accessSize info) (storeData p info)

/-- What a vCPU was seen to execute; the two flags are for callbacks that report the instruction
before. -/
structure Observed where
  memSeen : Bool := false
  prevCls : InsnClass := .other
  trace : List TraceItem := []

/-- A callback of the vCPU `v` adds its instruction, unless the access reaches the simulation
another way; cache operations add nothing. -/
def observe (v : ℕ) (o : Observed) : PluginCallback → Observed
  | .emitNop u _ cls => if u = v then { o with trace := o.trace ++ [.compute cls.code] } else o
  | .execDelayed u _ cls =>
    if u = v then
      { memSeen := false
        prevCls := cls
        trace := if o.memSeen then o.trace else o.trace ++ [.compute o.prevCls.code] }
    else o
  | .mem u info vaddr pc cls =>
    if u = v ∧ isSync p vaddr = false then
      { o with
        memSeen := true
        trace := o.trace ++ [.access (accessCommand p info vaddr pc cls)] }
    else o
  | .cacheOp _ => o
  | .atexit numVcpus =>
    if v < (if numVcpus = 0 then 1 else numVcpus) then { o with trace := o.trace ++ [.exit] } else o

/-- What the vCPU executed, in program order. -/
def reported (v : ℕ) (cbs : List PluginCallback) : List TraceItem :=
  (cbs.foldl (observe p v) {}).trace

/-- The callback is of a vCPU with a ring. -/
def Attached : PluginCallback → Prop
  | .emitNop u .. | .execDelayed u .. | .mem u .. | .cacheOp u => u < p.configuredVcpus
  | .atexit numVcpus => numVcpus ≤ p.configuredVcpus

/-- The callback is an access, a cache operation or the end of the vCPU. -/
def Ordered (v : ℕ) : PluginCallback → Prop
  | .emitNop .. | .execDelayed .. => False
  | .mem u .. | .cacheOp u => u = v
  | .atexit numVcpus => v < (if numVcpus = 0 then 1 else numVcpus)

/-! ### The run of a vCPU -/

variable {p} {s s' : PluginState} {u v : ℕ}

/-- A configured vCPU has a ring. -/
theorem requireVcpu_of_lt (hmax : p.configuredVcpus ≤ pluginMaxVcpus)
    (hv : v < p.configuredVcpus) : requireVcpu p v = .ok () :=
  if_neg (by omega)

/-- The published items of a vCPU, and its run that is not published yet. -/
def published (s : PluginState) (v : ℕ) : List TraceItem :=
  expand (s.rings v) ++ List.replicate (s.runCount v) (.compute (s.runCls v).code)

/-- Every run in the ring of the vCPU has a size from one to the maximum, and the accumulated one
is smaller. -/
structure Bounded (s : PluginState) (v : ℕ) : Prop where
  runs : ∀ cmd ∈ s.rings v, cmd.cmd = .computeRun → 1 ≤ cmd.size ∧ cmd.size ≤ computeRunMax
  count : s.runCount v ≤ computeRunMax

/-- The items of a ring are those of its commands, one after the other. -/
theorem expand_append (ring ring' : List QuetzCommand) :
    expand (ring ++ ring') = expand ring ++ expand ring' := by
  simp [expand]

/-- A run in the ring stands for its computations. -/
theorem expand_run (n : ℕ) (hn : n ≠ 0) (pc : UInt64) (cls : InsnClass) :
    expand [{ cmd := .computeRun, size := n, pc := pc, insnClass := cls.code }] =
      List.replicate n (.compute cls.code) := by
  simp [expand, eventsOf, hn, TraceItem.ofEvent]

/-- A command of an access is one item. -/
theorem expand_access {cmd : QuetzCommand} (hcmd : cmd.cmd = .read ∨ cmd.cmd = .write) :
    expand [cmd] = [.access cmd] := by
  rcases hcmd with hcmd | hcmd <;> simp [expand, eventsOf, hcmd, TraceItem.ofEvent]

/-- The state after a flush. -/
def flushed (v : ℕ) (s : PluginState) : PluginState :=
  if s.runCount v = 0 then s
  else
    { writeMessage v
        { cmd := .computeRun
          size := s.runCount v
          pc := s.runPc v
          insnClass := (s.runCls v).code } s with
      runCount := Function.update s.runCount v 0 }

/-- A flush never fails for a configured vCPU. -/
theorem flushRun_eq (hmax : p.configuredVcpus ≤ pluginMaxVcpus) (hv : v < p.configuredVcpus)
    (s : PluginState) : flushRun p v s = .ok (flushed v s) := by
  unfold flushRun flushed
  rw [requireVcpu_of_lt hmax hv]
  by_cases hzero : s.runCount v = 0
  · rw [if_pos hzero]
    simp only [hzero]
    rfl
  · rw [if_neg hzero]
    simp only [hzero]
    rfl

/-- What a change of the ring and the run of `u` leaves alone. -/
structure Frame (u : ℕ) (s s' : PluginState) : Prop where
  memSeen : s'.memSeen = s.memSeen
  prevCls : s'.prevCls = s.prevCls
  rings : ∀ v, v ≠ u → s'.rings v = s.rings v
  count : ∀ v, v ≠ u → s'.runCount v = s.runCount v
  cls : ∀ v, v ≠ u → s'.runCls v = s.runCls v

/-- Another vCPU has published what it had. -/
theorem Frame.published (h : Frame u s s') (hv : v ≠ u) :
    Plugin.published s' v = Plugin.published s v := by
  rw [Plugin.published, Plugin.published, h.rings v hv, h.count v hv, h.cls v hv]

/-- The runs of another vCPU are as they were. -/
theorem Frame.bounded (h : Frame u s s') (hv : v ≠ u) (hb : Bounded s v) : Bounded s' v := by
  refine ⟨?_, ?_⟩
  · rw [h.rings v hv]
    exact hb.runs
  · rw [h.count v hv]
    exact hb.count

/-- A flush publishes the run and changes nothing else. -/
theorem flushed_frame (u : ℕ) (s : PluginState) : Frame u s (flushed u s) := by
  rw [flushed]
  split_ifs
  · exact ⟨rfl, rfl, fun _ _ => rfl, fun _ _ => rfl, fun _ _ => rfl⟩
  · exact ⟨rfl, rfl, fun v hv => Function.update_of_ne hv ..,
      fun v hv => Function.update_of_ne hv ..,
      fun _ _ => rfl⟩

/-- Nothing is accumulated after a flush. -/
theorem flushed_count (v : ℕ) (s : PluginState) : (flushed v s).runCount v = 0 := by
  rw [flushed]
  split_ifs with hzero
  · exact hzero
  · exact Function.update_self ..

/-- A flush only moves the run into the ring. -/
theorem flushed_published (v : ℕ) (s : PluginState) :
    published (flushed v s) v = published s v := by
  rw [flushed]
  split_ifs with hzero
  · rfl
  · simp only [published, writeMessage, Function.update_self, List.replicate_zero, List.append_nil,
      expand_append, expand_run _ hzero]

/-- The run that it writes is not empty, and as short as it was. -/
theorem flushed_bounded (hb : Bounded s v) : Bounded (flushed v s) v := by
  refine ⟨?_, by rw [flushed_count]; exact Nat.zero_le _⟩
  rw [flushed]
  split_ifs with hzero
  · exact hb.runs
  · intro cmd hcmd hrun
    simp only [writeMessage, Function.update_self, List.mem_append, List.mem_singleton] at hcmd
    rcases hcmd with hcmd | rfl
    · exact hb.runs cmd hcmd hrun
    · exact ⟨Nat.pos_of_ne_zero hzero, hb.count⟩

/-- The state with one more computation in the run. -/
def extended (v : ℕ) (pc : UInt64) (cls : InsnClass) (s : PluginState) : PluginState :=
  { s with
    runCls := Function.update s.runCls v cls
    runPc := Function.update s.runPc v pc
    runCount := Function.update s.runCount v (s.runCount v + 1) }

/-- The state in which the run of `v` has the class `cls`, if it is not empty. -/
def closed (v : ℕ) (cls : InsnClass) (s : PluginState) : PluginState :=
  if s.runCount v > 0 ∧ s.runCls v ≠ cls then flushed v s else s

/-- The state after a computation. -/
def accumulated (v : ℕ) (pc : UInt64) (cls : InsnClass) (s : PluginState) : PluginState :=
  let s := extended v pc cls (closed v cls s)
  if s.runCount v ≥ computeRunMax then flushed v s else s

/-- A computation never fails for a configured vCPU. -/
theorem accumulateCompute_eq (hmax : p.configuredVcpus ≤ pluginMaxVcpus)
    (hv : v < p.configuredVcpus) (pc : UInt64) (cls : InsnClass) (s : PluginState) :
    accumulateCompute p v pc cls s = .ok (accumulated v pc cls s) := by
  have hend : ∀ s : PluginState, (if (extended v pc cls s).runCount v ≥ computeRunMax then
      flushRun p v (extended v pc cls s) else .ok (extended v pc cls s)) =
      .ok (if (extended v pc cls s).runCount v ≥ computeRunMax then
        flushed v (extended v pc cls s) else extended v pc cls s) := fun s => by
    split_ifs
    · exact flushRun_eq hmax hv _
    · rfl
  unfold accumulateCompute accumulated
  rw [requireVcpu_of_lt hmax hv, closed]
  dsimp only
  by_cases hother : s.runCount v > 0 ∧ s.runCls v ≠ cls
  · rw [if_pos hother, if_pos hother, flushRun_eq hmax hv s]
    exact hend (flushed v s)
  · rw [if_neg hother, if_neg hother]
    exact hend s

/-- Closing a run touches one vCPU. -/
theorem closed_frame (u : ℕ) (cls : InsnClass) (s : PluginState) : Frame u s (closed u cls s) := by
  rw [closed]
  split_ifs
  · exact flushed_frame u s
  · exact ⟨rfl, rfl, fun _ _ => rfl, fun _ _ => rfl, fun _ _ => rfl⟩

/-- Two changes for the same vCPU. -/
theorem Frame.trans {s₁ : PluginState} (h : Frame u s s₁) (h' : Frame u s₁ s') : Frame u s s' :=
  ⟨h'.memSeen.trans h.memSeen, h'.prevCls.trans h.prevCls,
    fun v hv => (h'.rings v hv).trans (h.rings v hv),
    fun v hv => (h'.count v hv).trans (h.count v hv), fun v hv => (h'.cls v hv).trans (h.cls v hv)⟩

/-- Extending a run touches one vCPU. -/
theorem extended_frame (u : ℕ) (pc : UInt64) (cls : InsnClass) (s : PluginState) :
    Frame u s (extended u pc cls s) :=
  ⟨rfl, rfl, fun _ _ => rfl, fun _ hv => Function.update_of_ne hv ..,
    fun _ hv => Function.update_of_ne hv ..⟩

/-- So does a computation. -/
theorem accumulated_frame (u : ℕ) (pc : UInt64) (cls : InsnClass) (s : PluginState) :
    Frame u s (accumulated u pc cls s) := by
  have hextended := (closed_frame u cls s).trans (extended_frame u pc cls _)
  unfold accumulated
  dsimp only
  split_ifs
  · exact hextended.trans (flushed_frame u _)
  · exact hextended

/-- Closing a run publishes nothing new. -/
theorem closed_published (v : ℕ) (cls : InsnClass) (s : PluginState) :
    published (closed v cls s) v = published s v := by
  rw [closed]
  split_ifs
  · exact flushed_published v s
  · rfl

/-- After closing, the run is empty or of the class. -/
theorem closed_cls (v : ℕ) (cls : InsnClass) (s : PluginState) :
    (closed v cls s).runCount v = 0 ∨ (closed v cls s).runCls v = cls := by
  rw [closed]
  split_ifs with hother
  · exact Or.inl (flushed_count v s)
  · by_cases hcls : s.runCls v = cls
    · exact Or.inr hcls
    · exact Or.inl (Nat.eq_zero_of_not_pos fun hpos => hother ⟨hpos, hcls⟩)

/-- A computation is published or accumulated after everything before it. -/
theorem accumulated_published (v : ℕ) (pc : UInt64) (cls : InsnClass) (s : PluginState) :
    published (accumulated v pc cls s) v = published s v ++ [.compute cls.code] := by
  have hextended : published (extended v pc cls (closed v cls s)) v =
      published s v ++ [.compute cls.code] := by
    rw [← closed_published v cls s]
    simp only [published, extended, Function.update_self, List.replicate_succ', List.append_assoc]
    rcases closed_cls v cls s with hzero | hcls
    · rw [hzero]
      rfl
    · rw [hcls]
  unfold accumulated
  dsimp only
  split_ifs
  · rw [flushed_published, hextended]
  · exact hextended

/-- It keeps the bounds of the runs. -/
theorem closed_bounded (cls : InsnClass) (hb : Bounded s v) : Bounded (closed v cls s) v := by
  rw [closed]
  split_ifs
  · exact flushed_bounded hb
  · exact hb

/-- A run that has reached its maximum is published. -/
theorem accumulated_bounded (pc : UInt64) (cls : InsnClass) (hb : Bounded s v)
    (hlt : s.runCount v < computeRunMax) :
    Bounded (accumulated v pc cls s) v ∧ (accumulated v pc cls s).runCount v < computeRunMax := by
  have hclosed := closed_bounded cls hb
  have hle : (closed v cls s).runCount v < computeRunMax := by
    unfold closed
    split_ifs
    · rw [flushed_count]
      decide
    · exact hlt
  have hextended : Bounded (extended v pc cls (closed v cls s)) v := by
    refine ⟨hclosed.runs, ?_⟩
    simp only [extended, Function.update_self]
    omega
  unfold accumulated
  dsimp only
  split_ifs with hfull
  · refine ⟨flushed_bounded hextended, ?_⟩
    rw [flushed_count]
    decide
  · exact ⟨hextended, Nat.lt_of_not_le hfull⟩

/-! ### Callbacks -/

/-- The plugin and what `v` was seen to execute. -/
structure Traced (s : PluginState) (v : ℕ) (o : Observed) : Prop where
  memSeen : s.memSeen v = o.memSeen
  prevCls : s.prevCls v = o.prevCls
  trace : published s v = o.trace
  bounded : Bounded s v
  open_lt : s.runCount v < computeRunMax

variable {o : Observed}

/-- What happens to another vCPU. -/
theorem Traced.frame (h : Traced s v o) (hf : Frame u s s') (hv : v ≠ u) : Traced s' v o :=
  ⟨by rw [hf.memSeen, h.memSeen], by rw [hf.prevCls, h.prevCls], by rw [hf.published hv, h.trace],
    hf.bounded hv h.bounded, by rw [hf.count v hv]; exact h.open_lt⟩

/-- A flush is not seen in the trace. -/
theorem Traced.flushed (h : Traced s v o) : Traced (flushed v s) v o := by
  have hf := flushed_frame v s
  refine ⟨by rw [hf.memSeen, h.memSeen], by rw [hf.prevCls, h.prevCls],
    by rw [flushed_published, h.trace], flushed_bounded h.bounded, ?_⟩
  rw [flushed_count]
  decide

/-- A computation is one more item. -/
theorem Traced.accumulated (h : Traced s v o) (pc : UInt64) (cls : InsnClass) :
    Traced (accumulated v pc cls s) v
      { o with trace := o.trace ++ [.compute cls.code] } := by
  have hf := accumulated_frame v pc cls s
  obtain ⟨hbounded, hlt⟩ := accumulated_bounded pc cls h.bounded h.open_lt
  exact ⟨by rw [hf.memSeen, h.memSeen], by rw [hf.prevCls, h.prevCls],
    by rw [accumulated_published, h.trace], hbounded, hlt⟩

/-- A command other than a run, written when nothing is accumulated. -/
theorem Traced.writeMessage (h : Traced s v o) (hzero : s.runCount v = 0) {cmd : QuetzCommand}
    (hcmd : cmd.cmd ≠ .computeRun) :
    Traced (writeMessage v cmd s) v { o with trace := o.trace ++ expand [cmd] } := by
  refine ⟨h.memSeen, h.prevCls, ?_, ⟨?_, h.bounded.count⟩, h.open_lt⟩
  · rw [← h.trace]
    simp only [published, Plugin.writeMessage, Function.update_self, hzero, expand_append,
      List.replicate_zero, List.append_nil]
  · intro c hc hrun
    simp only [Plugin.writeMessage, Function.update_self, List.mem_append,
      List.mem_singleton] at hc
    rcases hc with hc | rfl
    · exact h.bounded.runs c hc hrun
    · exact absurd hrun hcmd

/-- A message goes into one ring. -/
theorem writeMessage_frame (u : ℕ) (cmd : QuetzCommand) (s : PluginState) :
    Frame u s (writeMessage u cmd s) :=
  ⟨rfl, rfl, fun _ hv => Function.update_of_ne hv .., fun _ _ => rfl, fun _ _ => rfl⟩

/-- The state after an access. -/
theorem handle_eq (hmax : p.configuredVcpus ≤ pluginMaxVcpus) (hv : v < p.configuredVcpus)
    (info : MemInfo) (vaddr pc : UInt64) (cls : InsnClass) (s : PluginState) :
    handle p v info vaddr pc cls s = .ok (if isSync p vaddr = true then flushed v s
      else writeMessage v (accessCommand p info vaddr pc cls)
        (flushed v { s with memSeen := Function.update s.memSeen v true })) := by
  rw [handle]
  rw [if_neg (show ¬v ≥ pluginMaxVcpus by omega)]
  by_cases hsync : isSync p vaddr = true
  · rw [if_pos hsync, if_pos hsync]
    exact flushRun_eq hmax hv s
  · rw [if_neg hsync, if_neg hsync]
    dsimp only
    rw [flushRun_eq hmax hv]
    show writeCmd p v _ _ _ _ _ _ _ = _
    rw [writeCmd]
    rw [requireVcpu_of_lt hmax hv]
    rfl

/-- An access of `v` itself. -/
theorem Traced.handle (h : Traced s v o) (info : MemInfo) (vaddr pc : UInt64) (cls : InsnClass) :
    Traced (Plugin.writeMessage v (accessCommand p info vaddr pc cls)
      (Plugin.flushed v { s with memSeen := Function.update s.memSeen v true })) v
      { o with
        memSeen := true
        trace := o.trace ++ [.access (accessCommand p info vaddr pc cls)] } := by
  have hkind : (accessCommand p info vaddr pc cls).cmd = .read ∨
      (accessCommand p info vaddr pc cls).cmd = .write := by
    rw [accessCommand]
    cases info.isStore
    · exact Or.inl rfl
    · exact Or.inr rfl
  have hseen : Traced { s with memSeen := Function.update s.memSeen v true } v
      { o with memSeen := true } :=
    ⟨Function.update_self .., h.prevCls, h.trace, ⟨h.bounded.runs, h.bounded.count⟩, h.open_lt⟩
  have hrun : (accessCommand p info vaddr pc cls).cmd ≠ .computeRun := by
    rcases hkind with hk | hk <;> simp [hk]
  have hwrite := hseen.flushed.writeMessage (flushed_count v _) hrun
  rwa [expand_access hkind] at hwrite

/-- The end of one vCPU. -/
theorem exitVcpu_eq (hmax : p.configuredVcpus ≤ pluginMaxVcpus) (hv : v < p.configuredVcpus)
    (s : PluginState) :
    exitVcpu p v s = .ok (writeMessage v { cmd := .exit } (flushed v s)) := by
  rw [exitVcpu]
  rw [requireVcpu_of_lt hmax hv, flushRun_eq hmax hv]
  rfl

/-- The end of the vCPUs from `u` on. -/
theorem Traced.atexitLoop (hmax : p.configuredVcpus ≤ pluginMaxVcpus) (n : ℕ) {u : ℕ}
    {s : PluginState} {o : Observed} (hle : u + n ≤ p.configuredVcpus) (h : Traced s v o) :
    ∃ s', Plugin.atexitLoop p n u s = .ok s' ∧
      Traced s' v (if u ≤ v ∧ v < u + n then { o with trace := o.trace ++ [.exit] } else o) ∧
      s'.runCount v = if u ≤ v ∧ v < u + n then 0 else s.runCount v := by
  induction n generalizing u s o with
  | zero =>
      refine ⟨s, rfl, ?_, ?_⟩
      · rw [if_neg (by omega)]
        exact h
      · rw [if_neg (by omega)]
  | succ n ih =>
      rw [Plugin.atexitLoop, exitVcpu_eq hmax (by omega)]
      by_cases huv : v = u
      · subst huv
        have hone : Traced (Plugin.writeMessage v { cmd := .exit } (Plugin.flushed v s)) v
            { o with trace := o.trace ++ [.exit] } :=
          h.flushed.writeMessage (flushed_count v s) (by decide)
        obtain ⟨s', hs', htraced, hcount⟩ := ih (show v + 1 + n ≤ p.configuredVcpus by omega) hone
        rw [if_neg (by omega)] at htraced hcount
        refine ⟨s', hs', ?_, ?_⟩
        · rw [if_pos (by omega)]
          exact htraced
        · rw [hcount, if_pos (by omega)]
          exact flushed_count v s
      · have hframe := (flushed_frame u s).trans (writeMessage_frame u { cmd := .exit } _)
        obtain ⟨s', hs', htraced, hcount⟩ := ih (show u + 1 + n ≤ p.configuredVcpus by omega)
          (h.frame hframe huv)
        have hrange : u + 1 ≤ v ∧ v < u + 1 + n ↔ u ≤ v ∧ v < u + (n + 1) := by omega
        simp only [hrange, hframe.count v huv] at htraced hcount
        exact ⟨s', hs', htraced, hcount⟩

/-- One callback: what it reports is published or accumulated, and an access, a cache operation
or the end of the vCPU leaves nothing accumulated. -/
theorem Traced.call (hmax : p.configuredVcpus ≤ pluginMaxVcpus) (hv : v < p.configuredVcpus)
    (h : Traced s v o) {cb : PluginCallback} (hcb : Attached p cb) :
    ∃ s', Plugin.call p s cb = .ok s' ∧ Traced s' v (observe p v o cb) ∧
      (Ordered v cb → s'.runCount v = 0) := by
  cases cb with
  | emitNop u pc cls =>
      refine ⟨_, accumulateCompute_eq hmax hcb pc cls s, ?_, fun hord => absurd hord id⟩
      rw [observe]
      by_cases huv : u = v
      · rw [if_pos huv, huv]
        exact h.accumulated pc cls
      · rw [if_neg huv]
        exact h.frame (accumulated_frame u pc cls s) (Ne.symm huv)
  | execDelayed u pc cls =>
      have hu : u < p.configuredVcpus := hcb
      rw [Plugin.call, handleExecDelayed, if_neg (by omega), observe]
      dsimp only
      by_cases huv : u = v
      · subst huv
        have hnow : Traced { s with
            prevCls := Function.update s.prevCls u cls
            memSeen := Function.update s.memSeen u false } u
            { o with memSeen := false, prevCls := cls } :=
          ⟨Function.update_self .., Function.update_self .., h.trace,
            ⟨h.bounded.runs, h.bounded.count⟩, h.open_lt⟩
        rw [if_pos rfl, h.memSeen, h.prevCls]
        cases o.memSeen with
        | true => exact ⟨_, rfl, hnow, fun hord => absurd hord id⟩
        | false =>
            exact ⟨_, accumulateCompute_eq hmax hu pc _ _, hnow.accumulated pc _,
              fun hord => absurd hord id⟩
      · have hother : Traced { s with
            prevCls := Function.update s.prevCls u cls
            memSeen := Function.update s.memSeen u false } v o :=
          ⟨(Function.update_of_ne (Ne.symm huv) ..).trans h.memSeen,
            (Function.update_of_ne (Ne.symm huv) ..).trans h.prevCls, h.trace,
            ⟨h.bounded.runs, h.bounded.count⟩, h.open_lt⟩
        rw [if_neg huv]
        cases s.memSeen u with
        | true => exact ⟨_, rfl, hother, fun hord => absurd hord id⟩
        | false =>
            exact ⟨_, accumulateCompute_eq hmax hu pc _ _,
              hother.frame (accumulated_frame u pc _ _) (Ne.symm huv), fun hord => absurd hord id⟩
  | mem u info vaddr pc cls =>
      refine ⟨_, handle_eq hmax hcb info vaddr pc cls s, ?_, ?_⟩
      · by_cases huv : u = v
        · subst huv
          cases hsync : isSync p vaddr with
          | true =>
              rw [if_pos rfl, observe, if_neg (by simp [hsync])]
              exact h.flushed
          | false =>
              rw [if_neg (by simp), observe, if_pos ⟨rfl, hsync⟩]
              exact h.handle info vaddr pc cls
        · rw [show observe p v o (.mem u info vaddr pc cls) = o from if_neg fun hc => huv hc.1]
          split_ifs
          · exact h.frame (flushed_frame u s) (Ne.symm huv)
          · have hother : Traced { s with memSeen := Function.update s.memSeen u true } v o :=
              ⟨(Function.update_of_ne (Ne.symm huv) ..).trans h.memSeen, h.prevCls, h.trace,
                ⟨h.bounded.runs, h.bounded.count⟩, h.open_lt⟩
            exact hother.frame ((flushed_frame u _).trans (writeMessage_frame u _ _)) (Ne.symm huv)
      · rintro rfl
        split_ifs
        · exact flushed_count u s
        · exact flushed_count u _
  | cacheOp u =>
      refine ⟨_, flushRun_eq hmax hcb s, ?_, ?_⟩
      · by_cases huv : u = v
        · subst huv
          exact h.flushed
        · exact h.frame (flushed_frame u s) (Ne.symm huv)
      · rintro rfl
        exact flushed_count u s
  | atexit numVcpus =>
      have hle : 0 + (if numVcpus = 0 then 1 else numVcpus) ≤ p.configuredVcpus := by
        have hn : numVcpus ≤ p.configuredVcpus := hcb
        split_ifs <;> omega
      obtain ⟨s', hs', htraced, hcount⟩ := h.atexitLoop hmax _ hle
      have hrange : (0 ≤ v ∧ v < 0 + (if numVcpus = 0 then 1 else numVcpus)) ↔
          v < (if numVcpus = 0 then 1 else numVcpus) := by omega
      simp only [hrange] at htraced hcount
      refine ⟨s', hs', htraced, fun hord => ?_⟩
      rw [hcount]
      exact if_pos hord

/-- The callbacks, and the last of them. -/
theorem Traced.run (hmax : p.configuredVcpus ≤ pluginMaxVcpus) (hv : v < p.configuredVcpus)
    (cbs : List PluginCallback) {s : PluginState} {o : Observed} (h : Traced s v o)
    (hcbs : ∀ cb ∈ cbs, Attached p cb) :
    ∃ s', Plugin.run p cbs s = .ok s' ∧ Traced s' v (cbs.foldl (observe p v) o) ∧
      ∀ cb, cbs.getLast? = some cb → Ordered v cb → s'.runCount v = 0 := by
  induction cbs generalizing s o with
  | nil => exact ⟨s, rfl, h, fun cb hlast => by cases hlast⟩
  | cons cb cbs ih =>
      obtain ⟨s₁, hs₁, htraced, hord⟩ := h.call hmax hv (hcbs cb (List.mem_cons_self ..))
      obtain ⟨s₂, hs₂, htraced₂, hlast₂⟩ :=
        ih htraced fun cb' hcb' => hcbs cb' (List.mem_cons_of_mem _ hcb')
      refine ⟨s₂, ?_, htraced₂, fun last hlast hordered => ?_⟩
      · rw [Plugin.run, hs₁]
        exact hs₂
      · cases cbs with
        | nil =>
            cases hs₂
            cases hlast
            exact hord hordered
        | cons cb' cbs =>
            rw [List.getLast?_cons_cons] at hlast
            exact hlast₂ last hlast hordered

/-- The ring of a vCPU after some callbacks, and what the callbacks reported. -/
structure RoundTrip (p : PluginConfig) (v : ℕ) (cbs : List PluginCallback) (s : PluginState) :
    Prop where
  /-- The expanded ring and the accumulated run are what was executed, in program order. -/
  trace : expand (s.rings v) ++ List.replicate (s.runCount v) (.compute (s.runCls v).code) =
    reported p v cbs
  runs : ∀ cmd ∈ s.rings v, cmd.cmd = .computeRun → 1 ≤ cmd.size ∧ cmd.size ≤ computeRunMax
  /-- After an access, a cache operation or the end nothing is accumulated: the expanded ring is
  all that was executed. -/
  ordered : ∀ cb, cbs.getLast? = some cb → Ordered v cb →
    s.runCount v = 0 ∧ expand (s.rings v) = reported p v cbs

/-- **The trace round-trips**: whatever callbacks come, in whatever order and of whatever vCPUs,
the plugin publishes or accumulates exactly the instructions of each vCPU. -/
theorem trace_round_trips (hmax : p.configuredVcpus ≤ pluginMaxVcpus)
    (hv : v < p.configuredVcpus) (cbs : List PluginCallback) (hcbs : ∀ cb ∈ cbs, Attached p cb) :
    ∃ s, run p cbs {} = .ok s ∧ RoundTrip p v cbs s := by
  have hstart : Traced {} v {} :=
    ⟨rfl, rfl, rfl, ⟨fun cmd hcmd => absurd hcmd List.not_mem_nil, Nat.zero_le _⟩,
      Nat.succ_pos _⟩
  obtain ⟨s, hs, htraced, hlast⟩ := hstart.run hmax hv cbs hcbs
  refine ⟨s, hs, htraced.trace, htraced.bounded.runs, fun cb hcb hord => ?_⟩
  have hzero := hlast cb hcb hord
  have htrace := htraced.trace
  rw [published, hzero, List.replicate_zero, List.append_nil] at htrace
  exact ⟨hzero, htrace⟩

/-- A vCPU with a doorbell page. -/
def doorbellConfig : PluginConfig := { mmioSyncBase := 0x1000, mmioSyncSize := 0x1000 }

/-- Computations of two classes, a load, a doorbell and the end. -/
def shortGuest : List PluginCallback :=
  [.emitNop 0 0x100 .intCompute, .emitNop 0 0x104 .intCompute, .emitNop 0 0x108 .branch,
    .mem 0 ⟨false, 3, .u64 0⟩ 0x4000 0x10c .intMem, .emitNop 0 0x110 .branch,
    .mem 0 ⟨true, 3, .u64 1⟩ 0x1000 0x114 .intMem, .atexit 1]

/-- The ring of `shortGuest`: the doorbell is not in it. -/
theorem trace_round_trips_doorbell :
    (∃ s, run doorbellConfig shortGuest {} = .ok s ∧ RoundTrip doorbellConfig 0 shortGuest s) ∧
      (run doorbellConfig shortGuest {}).map
          (fun s => (s.rings 0).map fun cmd => (cmd.cmd, cmd.size)) =
        .ok [(.computeRun, 2), (.computeRun, 1), (.read, 8), (.computeRun, 1), (.exit, 0)] := by
  refine ⟨trace_round_trips (by decide) (by decide) shortGuest ?_, rfl⟩
  intro cb hcb
  simp only [shortGuest, List.mem_cons, List.not_mem_nil, or_false] at hcb
  rcases hcb with rfl | rfl | rfl | rfl | rfl | rfl | rfl
  all_goals simp [Attached, doorbellConfig]

end Plugin

end Quetz
