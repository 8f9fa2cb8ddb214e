import Quetz.AcceleratorPort

/-!
# The Balar Accelerator Port

`BalarAcceleratorPort` (`src/quetz_balar_accelerator_port.{h,cc}`) with the flush range of
`src/quetz_balar_flush_range.h`. A doorbell is armed until its vCPU has drained, then the lines
of its packet are flushed, and then the doorbell is forwarded on the mmio link. The async
aperture posts doorbells without blocking the guest for the operation: at most one of them is
on the link, the others wait in a queue.

A handler returns the next host and port, or the fatal error it stops with. The maps of the
class are functions into `Option`; request ids are drawn when a request is sent. The histories
`submits` and `dispatched` are not read by any function. Statistics and verbose output are left
out. Tickets and the number of operations in flight are natural numbers. In the source the tickets
have 64 bits; the number in flight has 32 and is at most the depth, so the sum that `submit`
compares with the depth could only wrap with `2 ^ 32 - 1` operations in flight.

## Main results

* `submitScratch_eq`: the scratch value of a SUBMIT is the number its bytes denote.
* `accelU64ToData_submitScratch`: the doorbell carries exactly the submitted bytes.
-/

namespace Quetz

open Bytes

/-! ### The flush range -/

/-- The lines a flush covers. -/
structure BalarFlushRange where
  firstLine : UInt64
  «end» : UInt64
  lineCount : UInt64
deriving DecidableEq, Repr

/-- The lines of `[scratch, scratch + flushBytes)`, unless address arithmetic overflows. -/
def computeBalarFlushRange (scratch flushBytes lineSize : UInt64) : Option BalarFlushRange :=
  let max : UInt64 := 0 - 1
  if lineSize = 0 ∨ flushBytes > max - scratch then none
  else
    let firstLine := scratch / lineSize * lineSize
    let last := scratch + flushBytes
    if flushBytes = 0 then some ⟨firstLine, last, 0⟩
    else
      let span := last - firstLine
      let lineCount := span / lineSize + if span % lineSize ≠ 0 then 1 else 0
      if lineCount = 0 then some ⟨firstLine, last, lineCount⟩
      else
        let steps := lineCount - 1
        if steps > (max - firstLine) / lineSize then none
        else
          let lastLine := firstLine + steps * lineSize
          if lineSize ≤ max - lastLine then some ⟨firstLine, last, lineCount⟩ else none

/-! ### Configuration and state -/

/-- The parameters of the port, and what the host tells it. -/
structure BalarConfig where
  doorbellAddr : UInt64 := 0
  doorbellSize : UInt64 := 8
  packetFlushBytes : UInt64 := 4096
  /-- `flush_mode` is `range_from_value`. -/
  flushEnabled : Bool := true
  asyncOffload : Bool := false
  asyncDoorbellAddr : UInt64 := 0
  asyncDoorbellSize : UInt64 := 0x40
  asyncCompletionDepthParam : ℕ := 1
  cacheLineSize : UInt64 := 64
  hasMem : ℕ → Bool := fun _ => true

/-- A depth of zero stands for one. -/
def BalarConfig.asyncCompletionDepth (c : BalarConfig) : ℕ :=
  if c.asyncCompletionDepthParam = 0 then 1 else c.asyncCompletionDepthParam

/-- The write a doorbell becomes. -/
structure Doorbell where
  addr : UInt64
  size : ℕ
  data : List UInt8
deriving DecidableEq, Repr

/-- A forwarded request waiting for its answer. -/
structure ForwardPending where
  vcpu : ℕ
  isRead : Bool
  isAsync : Bool
deriving DecidableEq, Repr

/-- A doorbell waiting for its flushes. -/
structure FlushCtx where
  remaining : ℕ
  doorbell : Doorbell
  isAsync : Bool
  preAcked : Bool
deriving DecidableEq, Repr

/-- A doorbell waiting for its vCPU to drain. -/
structure ArmedDoorbell where
  req : Doorbell
  isAsync : Bool
  preAcked : Bool
deriving DecidableEq, Repr

/-- The state of a port. -/
structure BalarPort where
  pending : ℕ → Option ForwardPending := fun _ => none
  flushToVcpu : ℕ → Option ℕ := fun _ => none
  doorbellFlushes : ℕ → Option FlushCtx := fun _ => none
  armedDoorbells : ℕ → Option ArmedDoorbell := fun _ => none
  submitId : ℕ → ℕ := fun _ => 0
  completedId : ℕ → ℕ := fun _ => 0
  lastResult : ℕ → UInt64 := fun _ => 0
  asyncBusy : ℕ → Bool := fun _ => false
  submitQueue : ℕ → List Doorbell := fun _ => []
  asyncInFlight : ℕ := 0
  asyncVcpu : Option ℕ := none
  /-- The bytes of every accepted SUBMIT, oldest first. -/
  submits : List (List UInt8) := []
  /-- The ids of the async doorbells sent on the mmio link, oldest first. -/
  dispatched : List ℕ := []

/-- The errors a port stops the simulation with. -/
inductive PortFatal where
  | nestedArmed (vcpu : ℕ)
  | nestedFlush (vcpu : ℕ)
  | nestedSubmit
  | secondAsyncVcpu (vcpu first : ℕ)
  | submitNeedsDoorbell (vcpu : ℕ)
  | submitExceedsDepth (vcpu depth inFlight : ℕ)
  | invalidFlushRange (vcpu : ℕ)
  | tooManyLines (vcpu : ℕ)
  | lineOverflow (vcpu : ℕ)
  | flushWithoutContext (vcpu : ℕ)
  | flushWithOther (vcpu : ℕ)
deriving DecidableEq, Repr

/-- The text of an error. -/
def PortFatal.message : PortFatal → String
  | .nestedArmed v => s!"vCPU {v}: nested doorbell while one is armed."
  | .nestedFlush v => s!"vCPU {v}: nested doorbell while a flush is pending."
  | .nestedSubmit => "Nested async SUBMIT before its acknowledgement."
  | .secondAsyncVcpu v first =>
    s!"async offload is single-vCPU only (global in-flight/depth state); " ++
      s!"vCPU {v} used it after vCPU {first}."
  | .submitNeedsDoorbell v =>
    s!"vCPU {v}: async SUBMIT requires doorbell_addr and a cache (mem) interface."
  | .submitExceedsDepth v depth inFlight =>
    s!"vCPU {v}: async SUBMIT exceeds async_completion_depth={depth} ({inFlight} already in " ++
      "flight). The guest must poll STATUS/COMPLETED before submitting more."
  | .invalidFlushRange v =>
    s!"vCPU {v}: invalid doorbell flush range (address arithmetic overflow or zero line size)."
  | .tooManyLines v =>
    s!"vCPU {v}: doorbell flush range requires too many lines, exceeding the supported maximum."
  | .lineOverflow v => s!"vCPU {v}: doorbell flush line progression overflows."
  | .flushWithoutContext v => s!"vCPU {v}: doorbell flush response without context."
  | .flushWithOther v => s!"vCPU {v}: doorbell flush completed with non-FlushResp."

namespace BalarPort

def ASYNC_REG_SUBMIT : UInt64 := 0x00
def ASYNC_REG_STATUS : UInt64 := 0x08
def ASYNC_REG_COMPLETED : UInt64 := 0x10
def ASYNC_REG_TICKET : UInt64 := 0x20
def ASYNC_REG_RESULT : UInt64 := 0x28

/-- The address lies in the doorbell aperture. -/
def inDoorbell (c : BalarConfig) (addr : UInt64) : Bool :=
  c.doorbellAddr != 0 && c.doorbellSize != 0 && decide (c.doorbellAddr ≤ addr) &&
    decide (addr < c.doorbellAddr + c.doorbellSize)

/-- The address lies in the async aperture. -/
def inAsync (c : BalarConfig) (addr : UInt64) : Bool :=
  c.asyncOffload && c.asyncDoorbellAddr != 0 && decide (c.asyncDoorbellAddr ≤ addr) &&
    decide (addr < c.asyncDoorbellAddr + c.asyncDoorbellSize)

def ownsAddr (c : BalarConfig) (addr : UInt64) : Bool := inDoorbell c addr || inAsync c addr

/-! ### The doorbell path -/

/-- Send a doorbell whose packet is flushed, or queue it behind the async operation that is on
the link. -/
def forwardDoorbell (vcpu : ℕ) (req : Doorbell) (isAsync preAcked : Bool) (h : Host)
    (s : BalarPort) : Host × BalarPort :=
  if isAsync && s.asyncBusy vcpu then
    (if preAcked then h else h.postResponse vcpu 0,
      { s with submitQueue := Function.update s.submitQueue vcpu (s.submitQueue vcpu ++ [req]) })
  else
    let s := { s with
      asyncBusy := if isAsync then Function.update s.asyncBusy vcpu true else s.asyncBusy
      pending := Function.update s.pending h.nextId (some ⟨vcpu, false, isAsync⟩)
      dispatched := if isAsync then s.dispatched ++ [h.nextId] else s.dispatched }
    let h := h.send vcpu .mmio (.write req.addr req.size req.data)
    (if isAsync && !preAcked then h.postResponse vcpu 0 else h, s)

/-- Flush `count` lines from `line` on. -/
def issueFlushes (vcpu : ℕ) (lineSize : UInt64) : ℕ → UInt64 → Host → BalarPort →
    Except PortFatal (Host × BalarPort)
  | 0, _, h, s => .ok (h, s)
  | count + 1, line, h, s =>
    let s := { s with flushToVcpu := Function.update s.flushToVcpu h.nextId (some vcpu) }
    let h := h.send vcpu .mem (.flushAddr line lineSize)
    if count = 0 then .ok (h, s)
    else if line > (0 - 1) - lineSize then .error (.lineOverflow vcpu)
    else issueFlushes vcpu lineSize count (line + lineSize) h s

/-- Flush the packet of a doorbell and remember the doorbell until the flushes are answered. -/
def issueDoorbellFlushes (c : BalarConfig) (vcpu : ℕ) (req : Doorbell) (isAsync preAcked : Bool)
    (h : Host) (s : BalarPort) : Except PortFatal (Host × BalarPort) :=
  if (s.doorbellFlushes vcpu).isSome then .error (.nestedFlush vcpu)
  else
    let flushBytes := if c.flushEnabled then c.packetFlushBytes else 0
    match computeBalarFlushRange (accelDataToU64 req.data) flushBytes c.cacheLineSize with
    | none => .error (.invalidFlushRange vcpu)
    | some range =>
      if range.lineCount > 0xffffffff then .error (.tooManyLines vcpu)
      else
        match issueFlushes vcpu c.cacheLineSize range.lineCount.toNat range.firstLine h s with
        | .error e => .error e
        | .ok (h, s) =>
          if range.lineCount = 0 then .ok (forwardDoorbell vcpu req isAsync preAcked h s)
          else
            let ctx : FlushCtx := ⟨range.lineCount.toNat, req, isAsync, preAcked⟩
            .ok (h, { s with
              doorbellFlushes := Function.update s.doorbellFlushes vcpu (some ctx) })

/-- One armed doorbell of `process`: flush it if its vCPU has drained. -/
def processOne (c : BalarConfig) (drained : ℕ → Bool) (vcpu : ℕ) (h : Host) (s : BalarPort) :
    Except PortFatal (Host × BalarPort) :=
  match s.armedDoorbells vcpu with
  | none => .ok (h, s)
  | some armed =>
    if drained vcpu then
      issueDoorbellFlushes c vcpu armed.req armed.isAsync armed.preAcked h
        { s with armedDoorbells := Function.update s.armedDoorbells vcpu none }
    else .ok (h, s)

/-- The loop over the armed doorbells. The source iterates over an unordered map, so `order` may
be any order. -/
def process (c : BalarConfig) (drained : ℕ → Bool) : List ℕ → Host → BalarPort →
    Except PortFatal (Host × BalarPort)
  | [], h, s => .ok (h, s)
  | vcpu :: order, h, s =>
    match processOne c drained vcpu h s with
    | .error e => .error e
    | .ok (h, s) => process c drained order h s

/-! ### Commands -/

/-- The scratch address of a SUBMIT, assembled byte by byte. -/
def submitScratch (data : List UInt8) (size : ℕ) : UInt64 :=
  (List.range (min size cmdDataBytes)).foldl
    (fun scratch i => scratch ||| ((data.getD i 0).toUInt64 <<< (.ofNat (8 * i)))) 0

/-- The value of an async register. -/
def asyncRegister (s : BalarPort) (vcpu : ℕ) (off : UInt64) : UInt64 :=
  if off = ASYNC_REG_STATUS then .ofNat s.asyncInFlight
  else if off = ASYNC_REG_COMPLETED then .ofNat (s.completedId vcpu)
  else if off = ASYNC_REG_TICKET then .ofNat (s.submitId vcpu)
  else if off = ASYNC_REG_RESULT then s.lastResult vcpu
  else 0

/-- An accepted SUBMIT: take a ticket and arm its doorbell. -/
def submit (c : BalarConfig) (vcpu : ℕ) (cmd : QuetzCommand) (h : Host) (s : BalarPort) :
    Except PortFatal (Host × BalarPort) :=
  if c.doorbellAddr = 0 ∨ !c.hasMem vcpu then .error (.submitNeedsDoorbell vcpu)
  else if s.asyncInFlight + 1 > c.asyncCompletionDepth then
    .error (.submitExceedsDepth vcpu c.asyncCompletionDepth s.asyncInFlight)
  else
    let s := { s with
      submitId := Function.update s.submitId vcpu (s.submitId vcpu + 1)
      asyncInFlight := s.asyncInFlight + 1
      submits := s.submits ++ [cmd.data.take cmd.size] }
    -- The doorbell has the guest's width.
    let dbSize := if cmd.size ≠ 0 then cmd.size else c.doorbellSize.toUInt32.toNat
    let doorbell : Doorbell :=
      ⟨c.doorbellAddr, dbSize, accelU64ToData (submitScratch cmd.data cmd.size) dbSize⟩
    if (s.armedDoorbells vcpu).isSome ∨ (s.doorbellFlushes vcpu).isSome then .error .nestedSubmit
    else .ok (h, { s with
      armedDoorbells := Function.update s.armedDoorbells vcpu (some ⟨doorbell, true, false⟩) })

/-- The vCPU that drives the async engine is the first that touches it. -/
def claimAsync (vcpu : ℕ) (s : BalarPort) : Except PortFatal BalarPort :=
  match s.asyncVcpu with
  | none => .ok { s with asyncVcpu := some vcpu }
  | some first => if vcpu = first then .ok s else .error (.secondAsyncVcpu vcpu first)

def handleAsyncAperture (c : BalarConfig) (vcpu : ℕ) (cmd : QuetzCommand) (h : Host)
    (s : BalarPort) : Except PortFatal (Host × BalarPort) :=
  match claimAsync vcpu s with
  | .error e => .error e
  | .ok s =>
    let off := cmd.addr - c.asyncDoorbellAddr
    match cmd.cmd with
    | .mmioReadReq => .ok (h.postResponse vcpu (s.asyncRegister vcpu off), s)
    | .mmioWriteReq =>
      -- Writes to the read-only registers are ignored but acknowledged.
      if off ≠ ASYNC_REG_SUBMIT then .ok (h.postResponse vcpu 0, s)
      else submit c vcpu cmd h s
    | _ => .ok (h, s)

def handleCommand (c : BalarConfig) (vcpu : ℕ) (cmd : QuetzCommand) (h : Host) (s : BalarPort) :
    Except PortFatal (Host × BalarPort) :=
  if inAsync c cmd.addr then handleAsyncAperture c vcpu cmd h s
  else
    match cmd.cmd with
    | .mmioReadReq =>
      .ok (h.send vcpu .mmio (.read cmd.addr cmd.size), { s with
        pending := Function.update s.pending h.nextId (some ⟨vcpu, true, false⟩) })
    | .mmioWriteReq =>
      let req : Doorbell := ⟨cmd.addr, cmd.size, cmd.data.take cmd.size⟩
      if !c.hasMem vcpu ∨ !c.flushEnabled ∨ c.packetFlushBytes = 0 then
        .ok (forwardDoorbell vcpu req false false h s)
      else if (s.armedDoorbells vcpu).isSome then .error (.nestedArmed vcpu)
      else .ok (h, { s with
        armedDoorbells := Function.update s.armedDoorbells vcpu (some ⟨req, false, false⟩) })
    | _ => .ok (h, s)

/-! ### Responses -/

/-- The answer to a flush; the last one forwards the doorbell. -/
def handleFlushResponse (vcpu id : ℕ) (resp : Response) (h : Host) (s : BalarPort) :
    Except PortFatal (Host × BalarPort) :=
  let s := { s with flushToVcpu := Function.update s.flushToVcpu id none }
  match s.doorbellFlushes vcpu with
  | none => .error (.flushWithoutContext vcpu)
  | some ctx =>
    if resp ≠ .flushResp then .error (.flushWithOther vcpu)
    else if ctx.remaining - 1 = 0 then
      .ok (forwardDoorbell vcpu ctx.doorbell ctx.isAsync ctx.preAcked h
        { s with doorbellFlushes := Function.update s.doorbellFlushes vcpu none })
    else
      let ctx := { ctx with remaining := ctx.remaining - 1 }
      .ok (h, { s with doorbellFlushes := Function.update s.doorbellFlushes vcpu (some ctx) })

/-- The value a forwarded request returns. -/
def responseValue (isRead : Bool) : Response → UInt64
  | .readResp data => if isRead then accelDataToU64 data else 0
  | _ => 0

/-- A posted operation retired: count it and dispatch the next one of the queue. -/
def retireAsync (vcpu : ℕ) (value : UInt64) (h : Host) (s : BalarPort) : Host × BalarPort :=
  let s := { s with
    completedId := Function.update s.completedId vcpu (s.completedId vcpu + 1)
    lastResult := Function.update s.lastResult vcpu value
    asyncInFlight := s.asyncInFlight - 1
    asyncBusy := Function.update s.asyncBusy vcpu false }
  match s.submitQueue vcpu with
  | [] => (h, s)
  | next :: rest =>
    forwardDoorbell vcpu next true true h
      { s with submitQueue := Function.update s.submitQueue vcpu rest }

/-- Offer a response to the port; `none` if it is not one of its requests. -/
def handleResponse (id : ℕ) (resp : Response) (h : Host) (s : BalarPort) :
    Except PortFatal (Option (Host × BalarPort)) :=
  match s.flushToVcpu id with
  | some vcpu => (handleFlushResponse vcpu id resp h s).map some
  | none =>
    match s.pending id with
    | none => .ok none
    | some fp =>
      let value := responseValue fp.isRead resp
      let s := { s with pending := Function.update s.pending id none }
      if fp.isAsync then .ok (some (retireAsync fp.vcpu value h s))
      else .ok (some (h.postResponse fp.vcpu value, s))

/-! ### What the flush path can do -/

/-- The bytes flushed before a doorbell. -/
def flushBytes (c : BalarConfig) : UInt64 := if c.flushEnabled then c.packetFlushBytes else 0

/-- Flushing the packet of a doorbell: the lines of its range are flushed, and the doorbell waits
for the answers or, without lines, is forwarded. -/
theorem issueDoorbellFlushes_ok {c : BalarConfig} {vcpu : ℕ} {req : Doorbell}
    {isAsync preAcked : Bool} {h : Host} {s : BalarPort} {res : Host × BalarPort}
    (hrun : issueDoorbellFlushes c vcpu req isAsync preAcked h s = .ok res) :
    s.doorbellFlushes vcpu = none ∧ ∃ range h₁ s₁,
      computeBalarFlushRange (accelDataToU64 req.data) (flushBytes c) c.cacheLineSize =
        some range ∧
      issueFlushes vcpu c.cacheLineSize range.lineCount.toNat range.firstLine h s =
        .ok (h₁, s₁) ∧
      ((range.lineCount = 0 ∧ res = forwardDoorbell vcpu req isAsync preAcked h₁ s₁) ∨
        (range.lineCount ≠ 0 ∧ res = (h₁, { s₁ with
          doorbellFlushes := Function.update s₁.doorbellFlushes vcpu
            (some ⟨range.lineCount.toNat, req, isAsync, preAcked⟩) }))) := by
  unfold issueDoorbellFlushes at hrun
  by_cases hnest : (s.doorbellFlushes vcpu).isSome = true
  · rw [if_pos hnest] at hrun
    cases hrun
  rw [if_neg hnest] at hrun
  refine ⟨by simpa using hnest, ?_⟩
  simp only [← flushBytes.eq_1] at hrun
  cases hrange : computeBalarFlushRange (accelDataToU64 req.data) (flushBytes c)
      c.cacheLineSize with
  | none =>
      rw [hrange] at hrun
      cases hrun
  | some range =>
      simp only [hrange] at hrun
      by_cases hmany : range.lineCount > 0xffffffff
      · rw [if_pos hmany] at hrun
        cases hrun
      rw [if_neg hmany] at hrun
      cases hflush : issueFlushes vcpu c.cacheLineSize range.lineCount.toNat range.firstLine
          h s with
      | error e =>
          rw [hflush] at hrun
          cases hrun
      | ok res₁ =>
          obtain ⟨h₁, s₁⟩ := res₁
          simp only [hflush] at hrun
          refine ⟨range, h₁, s₁, rfl, hflush, ?_⟩
          by_cases hzero : range.lineCount = 0
          · rw [if_pos hzero] at hrun
            exact Or.inl ⟨hzero, (Except.ok.inj hrun).symm⟩
          · rw [if_neg hzero] at hrun
            exact Or.inr ⟨hzero, (Except.ok.inj hrun).symm⟩

/-! ### The bytes of a doorbell -/

/-- The bytes taken so far determine the scratch value so far. -/
theorem submitScratch_foldl (data : List UInt8) : ∀ n ≤ 8, n ≤ data.length →
    ((List.range n).foldl (fun scratch i =>
      scratch ||| ((data.getD i 0).toUInt64 <<< (.ofNat (8 * i)))) (0 : UInt64)).toNat =
      leNat (data.take n)
  | 0, _, _ => by simp [leNat]
  | n + 1, h8, hn => by
    have ih := submitScratch_foldl data n (by omega) (by omega)
    have hlt := leNat_lt (data.take n)
    rw [List.length_take_of_le (by omega)] at hlt
    have htake : data.take (n + 1) = data.take n ++ [data.getD n 0] := by
      rw [List.take_succ_eq_append_getElem (by omega), List.getD_eq_getElem?_getD,
        List.getElem?_eq_getElem (by omega), Option.getD_some]
    have hbyte : (data.getD n 0).toNat < 256 := (data.getD n 0).toNat_lt
    have hpow : (256 : ℕ) ^ n = 2 ^ (8 * n) := by
      rw [show (256 : ℕ) = 2 ^ 8 from rfl, ← Nat.pow_mul]
    have hshift : (UInt64.ofNat (8 * n)).toNat % 64 = 8 * n := by
      rw [UInt64.toNat_ofNat']
      omega
    rw [List.range_succ, List.foldl_append, List.foldl_cons, List.foldl_nil, UInt64.toNat_or, ih,
      UInt64.toNat_shiftLeft, hshift, htake, leNat_concat, List.length_take_of_le (by omega)]
    have hfits : ((data.getD n 0).toUInt64.toNat <<< (8 * n)) % 2 ^ 64 =
        (data.getD n 0).toNat <<< (8 * n) := by
      rw [UInt8.toNat_toUInt64]
      refine Nat.mod_eq_of_lt ?_
      rw [Nat.shiftLeft_eq]
      calc (data.getD n 0).toNat * 2 ^ (8 * n) < 2 ^ 8 * 2 ^ (8 * n) :=
            Nat.mul_lt_mul_of_pos_right hbyte (Nat.two_pow_pos _)
        _ = 2 ^ (8 + 8 * n) := (Nat.pow_add ..).symm
        _ ≤ 2 ^ 64 := Nat.pow_le_pow_right (by decide) (by omega)
    rw [hfits, Nat.or_comm, ← Nat.shiftLeft_add_eq_or_of_lt (hpow ▸ hlt), Nat.shiftLeft_eq, hpow]
    ring

/-- The scratch value of a SUBMIT is the number its bytes denote. -/
theorem submitScratch_eq {data : List UInt8} {size : ℕ} (h8 : size ≤ 8)
    (hsize : size ≤ data.length) :
    (submitScratch data size).toNat = leNat (data.take size) := by
  have hmin : min size cmdDataBytes = size := Nat.min_eq_left (by simp only [cmdDataBytes]; omega)
  rw [submitScratch, hmin]
  exact submitScratch_foldl data size h8 hsize

/-- The doorbell of a SUBMIT carries exactly the submitted bytes. -/
theorem accelU64ToData_submitScratch {data : List UInt8} {size : ℕ} (h8 : size ≤ 8)
    (hsize : size ≤ data.length) :
    accelU64ToData (submitScratch data size) size = data.take size := by
  have h := accelU64ToData_eq (submitScratch_eq h8 hsize)
  rwa [List.length_take_of_le hsize] at h

end BalarPort

end Quetz
