import Quetz.BalarPort
import Quetz.CacheBank

/-!
# Synchronous MMIO of the CPU

The synchronous path of `QuetzCPU` (`src/quetzcpu_mmio_sync.cc`): `pollMmioSyncMailbox` takes a
command of each vCPU from the shared mailbox, `handleMmioSyncCommand` gives it to the window
cache, to an accelerator port or to the mmio link, and `completeMmioSyncResponse` routes the
responses of the memory system back. Every path ends with `postResponse` on the one response
slot of the vCPU.

The slot of the mailbox is modelled by what a poll sees of it, a request or nothing. `native` is
the registered native RAM, with the backing that `quetz_native_ram` returns for each region.
Statistics and verbose output are left out. The loop of `serviceWindowCache` has a bound on its
rounds; `CpuFatal.unfinished` is not an error of the source, it says that the bound was too small.
-/

namespace Quetz

open ByteMemory WindowDataCache

/-! ### State -/

/-- A request in the mailbox of a vCPU. -/
structure MmioSyncRequest where
  cmd : ShmemCmd
  addr : UInt64
  size : ℕ
  writeVal : UInt64
deriving DecidableEq, Repr

/-- A region of native RAM; `backing` is its memory, if there is any. -/
structure NativeRamRegion where
  base : ℕ
  size : ℕ
  backing : Option (ℕ → UInt8)

/-- A plain MMIO access waiting for its response. -/
structure GenericPending where
  vcpu : ℕ
  isRead : Bool
  winBe : Bool
deriving DecidableEq, Repr

/-- The configuration of the CPU, and which vCPUs have an mmio link. -/
structure CpuConfig where
  vcpuCount : ℕ := 1
  sstWindowCache : Bool := false
  windowBigEndian : Bool := false
  sstWindowBase : UInt64 := 0
  sstWindowSize : UInt64 := 0
  hasMmio : ℕ → Bool := fun _ => true

/-- The errors of the synchronous path. -/
inductive CpuFatal where
  | invalidVcpu (vcpu : ℕ)
  | cacheNotEnabled
  | windowCache (vcpu : ℕ) (e : Exn)
  | cacheReset (vcpu : ℕ) (e : Exn)
  | badCacheResponse
  | port (e : PortFatal)
  | unfinished (vcpu : ℕ)
deriving DecidableEq, Repr

/-- The text of an exception. -/
def Exn.what : Exn → String
  | .logicError s | .invalidArgument s | .runtimeError s | .outOfRange s => s

/-- The text of an error. -/
def CpuFatal.message : CpuFatal → String
  | .invalidVcpu v => s!"MMIO command has invalid vCPU {v}."
  | .cacheNotEnabled => "Cache mailbox requires an enabled window cache and MMIO interface."
  | .windowCache v e => s!"Window cache vCPU {v}: " ++ e.what
  | .cacheReset v e => s!"Window cache reset vCPU {v}: " ++ e.what
  | .badCacheResponse => "Invalid or failed window-cache memory response."
  | .port e => e.message
  | .unfinished _ => ""

/-- The part of the CPU that serves synchronous MMIO, with the shared memory it reads. -/
structure QuetzCpu where
  host : Host := {}
  bank : WindowCacheBank := {}
  ports : List (BalarConfig × BalarPort) := []
  genericPending : ℕ → Option GenericPending := fun _ => none
  cacheResetEpochs : ℕ → ℕ := fun _ => 0
  mailbox : ℕ → Option MmioSyncRequest := fun _ => none
  cpuResetEpoch : ℕ → ℕ := fun _ => 0
  native : List NativeRamRegion := []
  /-- The commands taken from the mailbox of each vCPU. -/
  taken : ℕ → ℕ := fun _ => 0

namespace QuetzCpu

/-- Whether the address lies in a region of the vCPU's window cache. -/
def cacheContains (w : QuetzCpu) (vcpu : ℕ) (addr : UInt64) : Bool :=
  (w.bank.states[vcpu]?).any fun st => st.cache.contains addr.toNat

/-- The first port that owns the address. -/
def portForAddr (w : QuetzCpu) (addr : UInt64) : Option ℕ :=
  w.ports.findIdx? fun p => BalarPort.ownsAddr p.1 addr

/-- Whether accesses to the address are packed most significant byte first. -/
def windowBigEndian (c : CpuConfig) (w : QuetzCpu) (addr : UInt64) : Bool :=
  if c.sstWindowCache then c.windowBigEndian && w.cacheContains 0 addr
  else c.windowBigEndian && c.sstWindowSize != 0 && decide (c.sstWindowBase ≤ addr) &&
    decide (addr < c.sstWindowBase + c.sstWindowSize)

/-- The value of a byte string, most significant byte first. -/
def bigEndianValue (bytes : List UInt8) : UInt64 :=
  bytes.foldl (fun value b => (value <<< 8) ||| b.toUInt64) 0

/-! ### The window cache -/

/-- A backing action on native RAM: the bytes for the cache and the memory after it, or `none`
if no region has the address. -/
def nativeAccess (native : List NativeRamRegion) (action : Action) :
    Except Exn (Option (List UInt8 × List NativeRamRegion)) :=
  match native.findIdx? fun r => decide (r.base ≤ action.address) &&
      decide (action.address - r.base < r.size) with
  | none => .ok none
  | some i =>
    match native[i]? with
    | none => .ok none
    | some region =>
      let offset := action.address - region.base
      if action.size > region.size - offset then
        .error (.runtimeError "cache backing access crosses native RAM boundary")
      else
        match region.backing with
        | none => .error (.runtimeError "invalid registered native RAM backing")
        | some mem =>
          if action.kind = .read then .ok (some (readSpan mem offset action.size, native))
          else if action.bytes.length ≠ action.size then
            .error (.runtimeError "invalid native cache writeback size")
          else .ok (some ([], native.set i
            { region with backing := some (writeSpan mem offset action.bytes) }))

/-- The request of a backing action. -/
def actionBody (action : Action) : Body :=
  if action.kind = .read then .read (.ofNat action.address) action.size
  else .write (.ofNat action.address) action.size action.bytes

/-- Drive the transaction of the vCPU until it ends or waits for memory. -/
def serviceWindowCache (vcpu : ℕ) : ℕ → QuetzCpu → Except CpuFatal QuetzCpu
  | 0, _ => .error (.unfinished vcpu)
  | rounds + 1, w =>
    match w.bank.states[vcpu]? with
    | none => .error (.windowCache vcpu WindowCacheBank.rangeError)
    | some st =>
      match st.cache.next with
      | .error e => .error (.windowCache vcpu e)
      | .ok (cache, action) =>
        let bank := w.bank.setState vcpu { st with cache := cache }
        if action.kind = .done then
          .ok { w with
            bank := bank
            host := w.host.postResponse vcpu (bigEndianValue action.bytes) }
        else
          match nativeAccess w.native action with
          | .error e => .error (.windowCache vcpu e)
          | .ok (some (bytes, native)) =>
            match bank.onCache vcpu fun cache => cache.complete bytes with
            | .error e _ => .error (.windowCache vcpu e)
            | .ok _ bank => serviceWindowCache vcpu rounds { w with bank := bank, native := native }
          | .ok none =>
            match bank.issued vcpu w.host.nextId (action.kind = .read) with
            | .error e _ => .error (.windowCache vcpu e)
            | .ok _ bank => .ok { w with
                bank := bank
                host := w.host.send vcpu .mmio (actionBody action) }

/-- A transaction is over after fewer rounds than this. -/
def serviceRounds : ℕ := 28

/-- The call a cached-window command makes on the cache of its vCPU. -/
def openCache (cmd : QuetzCommand) : Except Exn (WindowDataCache → Except Exn WindowDataCache) :=
  match cmd.cmd with
  | .cacheOp =>
    let value : BitVec 32 := (List.range 4).foldl
      (fun value i => value ||| (((cmd.data.getD i 0).toBitVec.setWidth 32) <<< (8 * i))) 0
    if cmd.addr > 0xffffffff then .error (.invalidArgument "invalid cache control operand")
    else if cmd.size = 0 then .ok fun cache => cache.movec cmd.addr.toNat value
    else if cmd.size = 1 then
      .ok fun cache => cache.push (value.setWidth 16) (cmd.addr.toBitVec.setWidth 32)
    else .error (.invalidArgument "unknown cache maintenance command")
  | .mmioReadReq =>
    if cmd.size > cmdDataBytes then .error (.invalidArgument "oversized cache access")
    else .ok fun cache => cache.access cmd.addr.toNat cmd.size false []
  | .mmioWriteReq =>
    if cmd.size > cmdDataBytes then .error (.invalidArgument "oversized cache access")
    else .ok fun cache => cache.access cmd.addr.toNat cmd.size true (cmd.data.take cmd.size)
  | _ => .error (.invalidArgument "unexpected cached-window command")

/-- A command for the window cache. -/
def handleCacheCommand (c : CpuConfig) (vcpu : ℕ) (cmd : QuetzCommand) (w : QuetzCpu) :
    Except CpuFatal QuetzCpu :=
  if c.sstWindowCache = false ∨ c.hasMmio vcpu = false then .error .cacheNotEnabled
  else
    match openCache cmd with
    | .error e => .error (.windowCache vcpu e)
    | .ok f =>
      match w.bank.onCache vcpu f with
      | .error e _ => .error (.windowCache vcpu e)
      | .ok _ bank => serviceWindowCache vcpu serviceRounds { w with bank := bank }

/-! ### Commands -/

/-- One command of a vCPU. -/
def handleMmioSyncCommand (c : CpuConfig) (vcpu : ℕ) (cmd : QuetzCommand) (w : QuetzCpu) :
    Except CpuFatal QuetzCpu :=
  if c.vcpuCount ≤ vcpu then .error (.invalidVcpu vcpu)
  else if cmd.cmd = .cacheOp ∨ (c.sstWindowCache && w.cacheContains vcpu cmd.addr) = true then
    handleCacheCommand c vcpu cmd w
  else if c.hasMmio vcpu = false then .ok { w with host := w.host.postResponse vcpu 0 }
  else
    match w.portForAddr cmd.addr with
    | some k =>
      match w.ports[k]? with
      | none => .ok w
      | some p =>
        match BalarPort.handleCommand p.1 vcpu cmd w.host p.2 with
        | .error e => .error (.port e)
        | .ok (h, s) => .ok { w with host := h, ports := w.ports.set k (p.1, s) }
    | none =>
      match cmd.cmd with
      | .mmioReadReq => .ok { w with
          genericPending := Function.update w.genericPending w.host.nextId
            (some ⟨vcpu, true, windowBigEndian c w cmd.addr⟩)
          host := w.host.send vcpu .mmio (.read cmd.addr cmd.size) }
      | .mmioWriteReq => .ok { w with
          genericPending := Function.update w.genericPending w.host.nextId
            (some ⟨vcpu, false, false⟩)
          host := w.host.send vcpu .mmio (.write cmd.addr cmd.size (cmd.data.take cmd.size)) }
      | _ => .ok w

/-- The command a poll makes of a request. -/
def commandOf (c : CpuConfig) (w : QuetzCpu) (req : MmioSyncRequest) : QuetzCommand where
  cmd := req.cmd
  addr := req.addr
  size := req.size
  data := (List.range cmdDataBytes).map fun i =>
    match req.cmd with
    -- The operand of a cache op is a number, whatever the byte order of the window.
    | .cacheOp => if i < 4 then (req.writeVal >>> .ofNat (8 * i)).toUInt8 else 0
    | .mmioWriteReq =>
      let be := windowBigEndian c w req.addr && decide (req.size ≤ 8)
      let shift := if be then req.size - 1 - i else i
      if i < req.size then (req.writeVal >>> .ofNat (8 * shift)).toUInt8 else 0
    | _ => 0

/-- The reset part of a poll. -/
def pollReset (c : CpuConfig) (vcpu : ℕ) (w : QuetzCpu) : Except CpuFatal QuetzCpu :=
  if c.sstWindowCache = true ∧ w.cpuResetEpoch vcpu ≠ w.cacheResetEpochs vcpu then
    match w.bank.resetCore vcpu with
    | .error e _ => .error (.cacheReset vcpu e)
    | .ok _ bank => .ok { w with
        bank := bank
        cacheResetEpochs := Function.update w.cacheResetEpochs vcpu (w.cpuResetEpoch vcpu) }
  else .ok w

/-- The poll of one vCPU. -/
def pollVcpu (c : CpuConfig) (vcpu : ℕ) (w : QuetzCpu) : Except CpuFatal QuetzCpu :=
  match pollReset c vcpu w with
  | .error e => .error e
  | .ok w =>
    match w.mailbox vcpu with
    | none => .ok w
    | some req => handleMmioSyncCommand c vcpu (commandOf c w req)
        { w with
          mailbox := Function.update w.mailbox vcpu none
          taken := Function.update w.taken vcpu (w.taken vcpu + 1) }

/-- The loop over the vCPUs. -/
def pollVcpus (c : CpuConfig) : List ℕ → QuetzCpu → Except CpuFatal QuetzCpu
  | [], w => .ok w
  | vcpu :: vcpus, w =>
    match pollVcpu c vcpu w with
    | .error e => .error e
    | .ok w => pollVcpus c vcpus w

/-- Take the waiting command of every vCPU. -/
def pollMmioSyncMailbox (c : CpuConfig) (w : QuetzCpu) : Except CpuFatal QuetzCpu :=
  pollVcpus c (List.range c.vcpuCount) w

/-- The ports' part of a tick. `order k` is the order in which the port `k` visits its armed
doorbells. -/
def processPorts (drained : ℕ → Bool) (order : ℕ → List ℕ) : List ℕ → QuetzCpu →
    Except CpuFatal QuetzCpu
  | [], w => .ok w
  | k :: ks, w =>
    match w.ports[k]? with
    | none => processPorts drained order ks w
    | some p =>
      match BalarPort.process p.1 drained (order k) w.host p.2 with
      | .error e => .error (.port e)
      | .ok (h, s) => processPorts drained order ks
          { w with host := h, ports := w.ports.set k (p.1, s) }

/-! ### Responses -/

/-- The response is a `ReadResp`. -/
def isReadResp : Response → Bool
  | .readResp _ => true
  | _ => false

/-- The response is a `WriteResp`. -/
def isWriteResp : Response → Bool
  | .writeResp => true
  | _ => false

/-- The data of a `ReadResp`. -/
def respData : Response → List UInt8
  | .readResp data => data
  | _ => []

/-- The response does not fit the request of a window cache; `hint` is the vCPU whose link
delivered it. -/
def unfitResponse (hint : ℕ) (p : BankPending) (resp : Response) (fail : Bool) : Bool :=
  hint != p.vcpu || fail || (if p.read then !isReadResp resp else !isWriteResp resp)

/-- A response to a request of a window cache. -/
def completeCacheResponse (hint id : ℕ) (resp : Response) (fail : Bool) (p : BankPending)
    (w : QuetzCpu) : Except CpuFatal QuetzCpu :=
  if unfitResponse hint p resp fail then .error .badCacheResponse
  else
    match w.bank.complete id p.vcpu (isReadResp resp) (respData resp) with
    | .error e _ => .error (.windowCache p.vcpu e)
    | .ok _ bank => serviceWindowCache p.vcpu serviceRounds { w with bank := bank }

/-- Offer a response to the ports, in order, until one takes it. -/
def offerPorts (id : ℕ) (resp : Response) (h : Host) : List (BalarConfig × BalarPort) →
    Except PortFatal (Option (Host × List (BalarConfig × BalarPort)))
  | [] => .ok none
  | p :: ps =>
    match BalarPort.handleResponse id resp h p.2 with
    | .error e => .error e
    | .ok (some (h, s)) => .ok (some (h, (p.1, s) :: ps))
    | .ok none =>
      match offerPorts id resp h ps with
      | .error e => .error e
      | .ok none => .ok none
      | .ok (some (h, ps)) => .ok (some (h, p :: ps))

/-- The value of a plain access. -/
def genericValue (g : GenericPending) : Response → UInt64
  | .readResp data =>
    if g.isRead then if g.winBe then bigEndianValue data else accelDataToU64 data else 0
  | _ => 0

/-- Route a response; `none` if it belongs to nobody here. -/
def completeMmioSyncResponse (hint id : ℕ) (resp : Response) (fail : Bool) (w : QuetzCpu) :
    Except CpuFatal (Option QuetzCpu) :=
  match w.bank.pending.lookup id with
  | some p => (completeCacheResponse hint id resp fail p w).map some
  | none =>
    match offerPorts id resp w.host w.ports with
    | .error e => .error (.port e)
    | .ok (some (h, ports)) => .ok (some { w with host := h, ports := ports })
    | .ok none =>
      match w.genericPending id with
      | none => .ok none
      | some g => .ok (some { w with
          genericPending := Function.update w.genericPending id none
          host := w.host.postResponse g.vcpu (genericValue g resp) })

end QuetzCpu

end Quetz
