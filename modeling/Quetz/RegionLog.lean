import Quetz.LaunchCommand
import Quetz.Lib.Logs
import Quetz.PipelineTraffic

/-!
# What the Region Handlers Keep

Three of the region handlers (`src/quetz_region_handlers.{h,cc}`) keep something of the accesses
that they consume and print it at the end: the UART its text, the tracer of a GPU its doorbells, the
test finisher the value that ended the simulation. A handler of the table sees the accesses that it
is the first to cover.

## Main results

* `BoundedRegionHandler.policy_eq`: the answers are those that the pipeline is given.
* `uart_after`, `gpuTrace_after`, `testFinisher_after`: what is kept of a sequence of accesses.
* `BoundedRegionHandler.getElem?_foldl_access`: what a handler of the table sees.
-/

namespace Quetz

/-! ### The handlers -/

/-- `UartRegionHandler`: the text so far. -/
structure UartLog where
  txOffset : UInt32 := 0
  txBuf : List UInt8 := []

/-- `GpuTraceRegionHandler`: its counters and the last payloads. -/
structure GpuTraceLog where
  doorbellOffset : UInt32 := 0
  statusOffset : UInt32 := 8
  maxPayloadLog : UInt32 := 8
  doorbellCount : UInt64 := 0
  pollCount : UInt64 := 0
  recentDoorbellLo : List UInt64 := []

/-- `TestFinisherRegionHandler`: the last value. -/
structure TestFinisherLog where
  passValue : UInt32 := 0x5555
  wrote : Bool := false
  lastValue : UInt32 := 0

/-- The kinds of handlers, with what they keep. -/
inductive RegionKind where
  | forward | filtered | mmioForward
  | uart (log : UartLog)
  | gpuTrace (log : GpuTraceLog)
  | testFinisher (log : TestFinisherLog)

/-- A handler of `[startAddr, endAddr]`. -/
structure BoundedRegionHandler where
  startAddr : UInt64
  endAddr : UInt64
  kind : RegionKind

/-- `decodeDoorbellLo`: the first eight bytes of a store, least significant byte first. -/
def decodeDoorbellLo (cmd : QuetzCommand) : UInt64 :=
  (List.range (min cmd.size 8)).foldl
    (fun val i => val ||| ((cmd.data.getD i 0).toUInt64 <<< (.ofNat (8 * i)))) 0

/-- The value of a store to the test finisher. -/
def finisherValue (cmd : QuetzCommand) : UInt32 :=
  (List.range (min cmd.size 4)).foldl
    (fun val i => val ||| ((cmd.data.getD i 0).toUInt32 <<< (.ofNat (8 * i)))) 0

namespace BoundedRegionHandler

/-- `onRead`. -/
def onRead (h : BoundedRegionHandler) (cmd : QuetzCommand) : Handled × BoundedRegionHandler :=
  match h.kind with
  | .forward => (⟨.forward, none⟩, h)
  | .mmioForward => (⟨.forwardMmio, none⟩, h)
  | .filtered | .uart _ | .testFinisher _ => (⟨.consume, some .filteredReads⟩, h)
  | .gpuTrace log =>
    if cmd.addr - h.startAddr = log.statusOffset.toUInt64 then
      (⟨.consume, some .gpuStatusPolls⟩,
        { h with kind := .gpuTrace { log with pollCount := log.pollCount + 1 } })
    else (⟨.consume, some .gpuOtherReads⟩, h)

/-- `onWrite`. -/
def onWrite (h : BoundedRegionHandler) (cmd : QuetzCommand) : Handled × BoundedRegionHandler :=
  match h.kind with
  | .forward => (⟨.forward, none⟩, h)
  | .mmioForward => (⟨.forwardMmio, none⟩, h)
  | .filtered => (⟨.consume, some .filteredWrites⟩, h)
  | .uart log =>
    (⟨.consume, some .filteredWrites⟩,
      if cmd.size ≥ 1 ∧ cmd.addr - h.startAddr = log.txOffset.toUInt64 then
        { h with kind := .uart { log with txBuf := log.txBuf ++ [cmd.data.getD 0 0] } }
      else h)
  | .gpuTrace log =>
    if cmd.addr - h.startAddr = log.doorbellOffset.toUInt64 then
      (⟨.consume, some .gpuDoorbellWrites⟩,
        { h with kind := .gpuTrace { log with
            doorbellCount := log.doorbellCount + 1
            recentDoorbellLo := Logs.pushBounded log.maxPayloadLog.toNat log.recentDoorbellLo
              (decodeDoorbellLo cmd) } })
    else (⟨.consume, some .gpuOtherWrites⟩, h)
  | .testFinisher log =>
    (⟨.endSim, some .filteredWrites⟩,
      { h with kind := .testFinisher { log with wrote := true, lastValue := finisherValue cmd } })

/-- An access that the handler covers. -/
def access (h : BoundedRegionHandler) (cmd : QuetzCommand) : Handled × BoundedRegionHandler :=
  if cmd.cmd = .read then h.onRead cmd else h.onWrite cmd

/-- What a handler prints for a core begins with its name and the number of the core. -/
def label (name : String) (coreId : ℕ) : List Char :=
  name.toList ++ '[' :: Nat.toDigits 10 coreId ++ "]: ".toList

/-- The line of a UART; the text ends at its first zero byte. -/
def uartLine (coreId : ℕ) (text : List UInt8) : List Char :=
  if text = [] then []
  else label "UART" coreId ++ (text.takeWhile (· ≠ 0)).map (fun b => Char.ofNat b.toNat) ++ ['\n']

/-- `__builtin_bswap32`. -/
def bswap32 (x : UInt32) : UInt32 :=
  (x <<< 24) ||| ((x &&& (0xff00 : UInt32)) <<< 8) ||| ((x >>> 8) &&& (0xff00 : UInt32)) |||
    (x >>> 24)

/-- The line of the test finisher; guests of both byte orders may pass. -/
def verdictLine (coreId : ℕ) (passValue value : UInt32) : List Char :=
  label "TESTFINISH" coreId ++ "guest signalled completion, value=0x".toList ++
    Nat.toDigits 16 value.toNat ++
    (if value = passValue ∨ bswap32 value = passValue then " (PASS)\n" else " (FAIL)\n").toList

/-- `finish`: what the handler prints for a core, one character a byte. -/
def finish (h : BoundedRegionHandler) (coreId : ℕ) : List Char :=
  match h.kind with
  | .forward | .filtered | .mmioForward => []
  | .uart log => uartLine coreId log.txBuf
  | .gpuTrace log =>
    if log.doorbellCount = 0 ∧ log.pollCount = 0 then []
    else label "GPU_TRACE" coreId ++
      "doorbells=".toList ++ Nat.toDigits 10 log.doorbellCount.toNat ++
      " polls=".toList ++ Nat.toDigits 10 log.pollCount.toNat ++
      " last_doorbells=\x7b".toList ++
        [','].intercalate (log.recentDoorbellLo.map Launch.hex) ++ "\x7d\n".toList
  | .testFinisher log =>
    if !log.wrote then [] else verdictLine coreId log.passValue log.lastValue

/-- The answers of a handler, which do not depend on what it keeps. -/
def policy (h : BoundedRegionHandler) : MemRegionHandler where
  startAddr := h.startAddr
  endAddr := h.endAddr
  onRead cmd := (h.onRead cmd).1
  onWrite cmd := (h.onWrite cmd).1

variable {h : BoundedRegionHandler} {cmd : QuetzCommand}

/-- The answers are those of the handlers of the pipeline. -/
theorem policy_eq (h : BoundedRegionHandler) : h.policy =
    match h.kind with
    | .forward => forwardRegionHandler h.startAddr h.endAddr
    | .mmioForward => mmioForwardRegionHandler h.startAddr h.endAddr
    | .filtered => filteredRegionHandler h.startAddr h.endAddr
    | .uart _ => uartRegionHandler h.startAddr h.endAddr
    | .gpuTrace log => gpuTraceRegionHandler h.startAddr h.endAddr log.doorbellOffset.toUInt64
        log.statusOffset.toUInt64
    | .testFinisher _ => testFinisherRegionHandler h.startAddr h.endAddr := by
  obtain ⟨start, last, kind⟩ := h
  cases kind with
  | gpuTrace log =>
      refine MemRegionHandler.mk.injEq .. |>.mpr ⟨rfl, rfl, funext fun cmd => ?_,
        funext fun cmd => ?_⟩
      · dsimp only [onRead]
        split_ifs <;> rfl
      · dsimp only [onWrite]
        split_ifs <;> rfl
  | _ => rfl

/-- An access keeps the answers. -/
theorem policy_access (h : BoundedRegionHandler) (cmd : QuetzCommand) :
    (h.access cmd).2.policy = h.policy := by
  rw [policy_eq, policy_eq]
  obtain ⟨start, last, kind⟩ := h
  unfold access onRead onWrite
  cases kind <;> dsimp only <;> split_ifs <;> rfl

/-- An access that goes on to a link leaves the handler alone. -/
theorem access_of_passes (hpass : (h.access cmd).1.final = false) : (h.access cmd).2 = h := by
  obtain ⟨start, last, kind⟩ := h
  unfold access onRead onWrite at hpass ⊢
  cases kind <;> dsimp only at hpass ⊢ <;> split_ifs at hpass ⊢ <;>
    first | rfl | exact absurd (show true = false from hpass) (by decide)

/-- A run of accesses. -/
def after (h : BoundedRegionHandler) (cmds : List QuetzCommand) : BoundedRegionHandler :=
  cmds.foldl (fun h cmd => (h.access cmd).2) h

end BoundedRegionHandler

/-! ### What is kept of a sequence of accesses -/

section

variable (start last : UInt64) (cmd : QuetzCommand)

/-- The command is a store to a register of a region. -/
def QuetzCommand.storesTo (offset : UInt32) : Bool :=
  cmd.cmd != .read && cmd.addr - start == offset.toUInt64

/-- What a store puts into the text of a UART. -/
def txBytes (offset : UInt32) : List UInt8 :=
  if cmd.storesTo start offset && decide (1 ≤ cmd.size) then [cmd.data.getD 0 0] else []

/-- The payload of a doorbell. -/
def doorbells (offset : UInt32) : List UInt64 :=
  if cmd.storesTo start offset then [decodeDoorbellLo cmd] else []

/-- The load of a status register. -/
def polls (offset : UInt32) : List Unit :=
  if cmd.cmd == .read && cmd.addr - start == offset.toUInt64 then [()] else []

/-- The value that is signalled to the test finisher. -/
def signals : List UInt32 := if cmd.cmd != .read then [finisherValue cmd] else []

variable {start last cmd} {cmds : List QuetzCommand}

/-- **A UART** keeps the bytes of the stores to its data register. -/
theorem uart_after (log : UartLog) : BoundedRegionHandler.after ⟨start, last, .uart log⟩ cmds =
    ⟨start, last, .uart { log with
      txBuf := log.txBuf ++ cmds.flatMap fun cmd => txBytes start cmd log.txOffset }⟩ := by
  induction cmds generalizing log with
  | nil => simp [BoundedRegionHandler.after]
  | cons cmd cmds ih =>
      have hone : (BoundedRegionHandler.access ⟨start, last, .uart log⟩ cmd).2 =
          ⟨start, last, .uart { log with
            txBuf := log.txBuf ++ txBytes start cmd log.txOffset }⟩ := by
        unfold BoundedRegionHandler.access txBytes QuetzCommand.storesTo
        by_cases hread : cmd.cmd = .read
        · simp [hread, BoundedRegionHandler.onRead]
        · by_cases htx : cmd.size ≥ 1 ∧ cmd.addr - start = log.txOffset.toUInt64
          · simp [hread, BoundedRegionHandler.onWrite, htx]
          · have hbyte : ¬(cmd.addr - start = log.txOffset.toUInt64 ∧ 1 ≤ cmd.size) :=
              fun hand => htx hand.symm
            simp [hread, BoundedRegionHandler.onWrite, htx, hbyte]
      rw [BoundedRegionHandler.after, List.foldl_cons, hone]
      exact (ih _).trans (by rw [List.flatMap_cons, List.append_assoc])

/-- The number of entries, counted one by one. -/
theorem ofNat_length_append {α : Type} (as bs : List α) :
    UInt64.ofNat (as ++ bs).length = .ofNat as.length + .ofNat bs.length := by
  rw [List.length_append, UInt64.ofNat_add]

/-- **The tracer of a GPU** counts the doorbells and the polls, and keeps the last payloads. -/
theorem gpuTrace_after (log : GpuTraceLog) (payloads : List UInt64) :
    BoundedRegionHandler.after ⟨start, last, .gpuTrace { log with
      recentDoorbellLo := payloads.rtake log.maxPayloadLog.toNat }⟩ cmds =
    ⟨start, last, .gpuTrace { log with
      doorbellCount := log.doorbellCount +
        .ofNat (cmds.flatMap fun cmd => doorbells start cmd log.doorbellOffset).length
      pollCount := log.pollCount +
        .ofNat (cmds.flatMap fun cmd => polls start cmd log.statusOffset).length
      recentDoorbellLo := (payloads ++ cmds.flatMap fun cmd =>
        doorbells start cmd log.doorbellOffset).rtake log.maxPayloadLog.toNat }⟩ := by
  induction cmds generalizing log payloads with
  | nil => simp [BoundedRegionHandler.after]
  | cons cmd cmds ih =>
      have hone : (BoundedRegionHandler.access ⟨start, last, .gpuTrace { log with
            recentDoorbellLo := payloads.rtake log.maxPayloadLog.toNat }⟩ cmd).2 =
          ⟨start, last, .gpuTrace { log with
            doorbellCount := log.doorbellCount +
              .ofNat (doorbells start cmd log.doorbellOffset).length
            pollCount := log.pollCount + .ofNat (polls start cmd log.statusOffset).length
            recentDoorbellLo := (payloads ++ doorbells start cmd log.doorbellOffset).rtake
              log.maxPayloadLog.toNat }⟩ := by
        unfold BoundedRegionHandler.access doorbells polls QuetzCommand.storesTo
        by_cases hread : cmd.cmd = .read
        · by_cases hpoll : cmd.addr - start = log.statusOffset.toUInt64
          · simp [hread, BoundedRegionHandler.onRead, hpoll]
          · simp [hread, BoundedRegionHandler.onRead, hpoll]
        · by_cases hdoorbell : cmd.addr - start = log.doorbellOffset.toUInt64
          · simp [hread, BoundedRegionHandler.onWrite, hdoorbell, Logs.pushBounded_rtake]
          · simp [hread, BoundedRegionHandler.onWrite, hdoorbell]
      rw [BoundedRegionHandler.after, List.foldl_cons, hone]
      refine (ih { log with
        doorbellCount := log.doorbellCount +
          .ofNat (doorbells start cmd log.doorbellOffset).length
        pollCount := log.pollCount + .ofNat (polls start cmd log.statusOffset).length } _).trans ?_
      simp only [List.flatMap_cons, ofNat_length_append, List.append_assoc, UInt64.add_assoc]

/-- **The test finisher** keeps the last value. -/
theorem testFinisher_after (log : TestFinisherLog) :
    BoundedRegionHandler.after ⟨start, last, .testFinisher log⟩ cmds =
    ⟨start, last, .testFinisher { log with
      wrote := log.wrote || !(cmds.flatMap signals).isEmpty
      lastValue := (cmds.flatMap signals).getLast?.getD log.lastValue }⟩ := by
  induction cmds generalizing log with
  | nil => simp [BoundedRegionHandler.after]
  | cons cmd cmds ih =>
      have hone : (BoundedRegionHandler.access ⟨start, last, .testFinisher log⟩ cmd).2 =
          ⟨start, last, .testFinisher { log with
            wrote := log.wrote || !(signals cmd).isEmpty
            lastValue := (signals cmd).getLast?.getD log.lastValue }⟩ := by
        unfold BoundedRegionHandler.access signals
        by_cases hread : cmd.cmd = .read
        · simp [hread, BoundedRegionHandler.onRead]
        · simp [hread, BoundedRegionHandler.onWrite]
      rw [BoundedRegionHandler.after, List.foldl_cons, hone]
      refine (ih _).trans ?_
      have hempty : (!(signals cmd ++ cmds.flatMap signals).isEmpty) =
          (!(signals cmd).isEmpty || !(cmds.flatMap signals).isEmpty) := by
        cases signals cmd <;> rfl
      rw [List.flatMap_cons, List.getLast?_append, hempty, Bool.or_assoc]
      cases (cmds.flatMap signals).getLast? <;> rfl

end

/-! ### The table -/

namespace BoundedRegionHandler

/-- The handler covers an address. -/
def covers (h : BoundedRegionHandler) (addr : UInt64) : Bool :=
  decide (h.startAddr ≤ addr) && decide (addr ≤ h.endAddr)

/-- The first handler that covers an address. -/
def owner (table : List BoundedRegionHandler) (addr : UInt64) : Option ℕ :=
  table.findIdx? fun h => h.covers addr

/-- An access changes the handler that covers it. -/
def accessTable (table : List BoundedRegionHandler) (cmd : QuetzCommand) :
    List BoundedRegionHandler :=
  match owner table cmd.addr with
  | none => table
  | some k => table.modify k fun h => (h.access cmd).2

variable {table : List BoundedRegionHandler} {cmd : QuetzCommand} {k : ℕ}

/-- The answers of the table stay. -/
theorem map_policy_accessTable (table : List BoundedRegionHandler) (cmd : QuetzCommand) :
    (accessTable table cmd).map policy = table.map policy := by
  rw [accessTable]
  cases owner table cmd.addr with
  | none => rfl
  | some k =>
      refine List.ext_getElem? fun j => ?_
      rw [List.getElem?_map, List.getElem?_map, List.getElem?_modify]
      cases table[j]? with
      | none => rfl
      | some h =>
          refine congrArg some ?_
          dsimp only
          split_ifs
          · exact policy_access h cmd
          · rfl

/-- The ranges are part of the answers. -/
theorem owner_eq (table : List BoundedRegionHandler) (addr : UInt64) : owner table addr =
    (table.map policy).findIdx? fun h =>
      decide (h.startAddr ≤ addr) && decide (addr ≤ h.endAddr) := by
  rw [List.findIdx?_map]
  rfl

theorem owner_accessTable (table : List BoundedRegionHandler) (cmd : QuetzCommand) :
    owner (accessTable table cmd) = owner table := by
  funext addr
  rw [owner_eq, owner_eq, map_policy_accessTable]

/-- **A handler sees the accesses that it is the first to cover.** -/
theorem getElem?_foldl_access (table : List BoundedRegionHandler) (cmds : List QuetzCommand)
    (k : ℕ) : (cmds.foldl accessTable table)[k]? =
      table[k]?.map fun h => h.after (cmds.filter fun cmd => owner table cmd.addr = some k) := by
  induction cmds generalizing table with
  | nil =>
      rw [List.foldl_nil, List.filter_nil]
      cases table[k]? <;> rfl
  | cons cmd cmds ih =>
      rw [List.foldl_cons, ih, owner_accessTable, accessTable, List.filter_cons]
      cases howner : owner table cmd.addr with
      | none => simp
      | some j =>
          by_cases hjk : j = k
          · subst hjk
            simp only [List.getElem?_modify, decide_true, if_true]
            cases table[j]? <;> rfl
          · simp [hjk]

/-- The table answers with the handler that covers the access. -/
theorem answer_of_owner {filterUnmatched : Bool} (hacc : cmd.isAccess = true)
    {h : BoundedRegionHandler} (howner : owner table cmd.addr = some k) (hk : table[k]? = some h) :
    handleMemoryAccess (table.map policy) filterUnmatched cmd = (h.access cmd).1 := by
  have hfind : MemRegionTable.findHandler (table.map policy) cmd.addr = some h.policy := by
    rw [MemRegionTable.findHandler, List.find?_eq_bind_findIdx?_getElem?, ← owner_eq, howner,
      Option.bind_some, List.getElem?_map, hk]
    rfl
  rw [handleMemoryAccess, if_pos hacc, hfind, access]
  split_ifs <;> rfl

end BoundedRegionHandler

end Quetz
