import Mathlib.Data.Fin.Basic
import Mathlib.Data.List.FinRange
import Mathlib.Data.List.OfFn
import Mathlib.Logic.Function.Basic
import Quetz.Lib.ByteMemory

/-!
# The Window Data Cache

This module embeds `WindowDataCache` (`src/quetz_window_cache.h`): a 32 KiB, four-way
cache of 16-byte lines between one guest CPU and its backing memory. Transactions are
serialized. `access`, `movec` and `push` open one, `next` hands out the next backing
request (an `Action`) or `done`, and `complete` takes the answer to that request.

A member function that may throw returns `Except Exn`; every exception carries the text
the source gives it. The 2048 lines are indexed by `Slot`, so a slot number out of range
cannot be written down; `NoSlot` is `none`. Control registers are `BitVec 32`, since
`mode` reads them bit by bit. Addresses are natural numbers: a region lies below `2 ^ 32`,
so no address sum of the class wraps. So is the counter of discarded lines, which has 64 bits
in the source and wraps there. The one loop of `next` runs at most `count - offset` times,
which is the structural argument of `nextAccess`.
-/

open ByteMemory

namespace Quetz

/-- The standard exceptions the sources throw, with their message. -/
inductive Exn where
  | logicError (what : String)
  | invalidArgument (what : String)
  | runtimeError (what : String)
  | outOfRange (what : String)
deriving DecidableEq, Repr

namespace WindowDataCache

abbrev lineBytes : ℕ := 16
abbrev sets : ℕ := 512
abbrev ways : ℕ := 4

instance : NeZero ways := ⟨by decide⟩

instance : NeZero (sets * ways) := ⟨by decide⟩

/-- Data cache enable. -/
abbrev DEC : BitVec 32 := 0x80000000#32
/-- Disable CPUSHL invalidation. -/
abbrev DDPI : BitVec 32 := 0x10000000#32
/-- Half-lock: only ways two and three may be allocated. -/
abbrev DHLCK : BitVec 32 := 0x08000000#32
/-- Invalidate the whole cache. -/
abbrev DCINVA : BitVec 32 := 0x01000000#32

/-- An index into `lines_`. -/
abbrev Slot := Fin (sets * ways)

/-- One cache line with its tag. -/
structure Line where
  bytes : Fin lineBytes → UInt8 := fun _ => 0
  address : ℕ := 0
  valid : Bool := false
  dirty : Bool := false

/-- What a backing request asks for. -/
inductive Kind where
  | done | read | write
deriving DecidableEq, Repr

/-- A backing request, or the result of the finished transaction. -/
structure Action where
  kind : Kind
  address : ℕ
  size : ℕ
  bytes : List UInt8
deriving DecidableEq, Repr

/-- Which backing answer the open transaction waits for. -/
inductive Pending where
  | none | fill | bypassRead | bypassWrite | writeThrough | push | evict
deriving DecidableEq, Repr

/-- A window of guest memory behind the cache. -/
structure Region where
  base : ℕ
  size : ℕ
deriving DecidableEq, Repr

end WindowDataCache

open WindowDataCache

/-- The private state of a `WindowDataCache`; the defaults are the member initializers. -/
structure WindowDataCache where
  regions : List Region := []
  cacr : BitVec 32 := 0
  acr : Fin 4 → BitVec 32 := fun _ => 0
  lines : Slot → Line := fun _ => {}
  replacement : Fin ways := 0
  pendingSlot : Slot := 0
  dirtyDiscards : ℕ := 0
  active : Bool := false
  pushing : Bool := false
  invalidatePush : Bool := false
  write : Bool := false
  pending : Pending := .none
  address : ℕ := 0
  pendingAddress : ℕ := 0
  count : ℕ := 0
  offset : ℕ := 0
  pendingSize : ℕ := 0
  bytes : List UInt8 := []

namespace WindowDataCache

/-! ### Geometry and lookup -/

/-- The set an address maps to. -/
def setIndex (address : ℕ) : Fin sets := Fin.ofNat sets (address / lineBytes)

/-- The slot of a set and a way, `set * Ways + way`. -/
def slotOf (set : Fin sets) (way : Fin ways) : Slot :=
  ⟨set * ways + way, by have := set.isLt; have := way.isLt; simp only [sets, ways] at *; omega⟩

/-- The line an address lies in, `address & ~(LineBytes - 1)`. -/
def lineOf (address : ℕ) : ℕ := address / lineBytes * lineBytes

/-- Overlay `src` on a line from byte `inLine` on. -/
def copyInto (bytes : Fin lineBytes → UInt8) (inLine : ℕ) (src : List UInt8) :
    Fin lineBytes → UInt8 := fun i =>
  if inLine ≤ i then src.getD (i - inLine) (bytes i) else bytes i

variable (c : WindowDataCache)

/-- The first configured region that holds the address. -/
def regionFor (address : ℕ) : Option Region :=
  c.regions.find? fun r => decide (r.base ≤ address ∧ address - r.base < r.size)

/-- Whether any configured region holds the address. -/
def contains (address : ℕ) : Bool := (c.regionFor address).isSome

/-- The slot that holds a line, if any: the ways of its set are probed in order. -/
def find (lineAddress : ℕ) : Option Slot :=
  ((List.finRange ways).map (slotOf (setIndex lineAddress))).find? fun s =>
    (c.lines s).valid && (c.lines s).address == lineAddress

/-- The first way the replacement policy may allocate. -/
def firstWay : ℕ := if c.cacr &&& DHLCK ≠ 0 then 2 else 0

/-- The way the round-robin counter points at, above the locked half. -/
def roundRobin : Fin ways :=
  if c.firstWay = 0 then c.replacement else ⟨2 + c.replacement / 2, by
    have := c.replacement.isLt; simp only [ways] at *; omega⟩

/-- The slot the next fill of a set goes to: the lowest invalid allowed way, else the
round-robin way. -/
def victim (set : Fin sets) : Slot :=
  match (List.finRange ways).find? fun w : Fin ways =>
      decide (c.firstWay ≤ (w : ℕ)) && !(c.lines (slotOf set w)).valid with
  | some w => slotOf set w
  | none => slotOf set c.roundRobin

/-- The mode an access-control register gives an address, when it matches. -/
def acrMode (acr : BitVec 32) (address : ℕ) : Option ℕ :=
  let a : BitVec 64 := BitVec.ofNat 64 address
  let r : BitVec 64 := acr.setWidth 64
  let sm := (acr >>> 13) &&& 3
  if acr &&& 0x8000 = 0 ∨ sm = 0 then none
  else if acr &&& 0x400 ≠ 0 then
    -- AMM: top byte exact, 1-MiB granularity below it
    if a >>> 24 = r >>> 24 ∧
        ((a >>> 20) ^^^ (r >>> 20)) &&& (~~~(acr >>> 16)).setWidth 64 &&& 15 = 0 then
      some ((acr >>> 5) &&& 3).toNat
    else none
  else
    let mask := (acr >>> 16) &&& 0xff
    if ((a >>> 24) ^^^ (r >>> 24)) &&& (~~~mask).setWidth 64 &&& 0xff = 0 then
      some ((acr >>> 5) &&& 3).toNat
    else none

/-- The cache mode of an address: `0` write-through, `1` copyback, `2` and `3` uncached.
ACR2 and ACR3 control instructions only. -/
def mode (address : ℕ) : ℕ :=
  if c.cacr &&& DEC = 0 then 2
  else
    match acrMode (c.acr 0) address with
    | some m => m
    | none =>
      match acrMode (c.acr 1) address with
      | some m => m
      | none => ((c.cacr >>> 25) &&& 3).toNat

/-! ### Configuration and transaction start -/

/-- Append a backing region. -/
def addRegion (base size : ℕ) : Except Exn WindowDataCache :=
  if c.active then .error (.logicError "region change during a window cache transaction")
  else if size = 0 ∨ size > 1024 * 1024 ∨ base > 0xffffffff ∨
      size - 1 > 0xffffffff - base ∨ base % lineBytes ≠ 0 ∨ size % lineBytes ≠ 0 then
    .error (.invalidArgument
      "window cache requires an aligned 16-byte to 1-MiB 32-bit window")
  else if c.regions.any fun r =>
      decide (base < r.base + r.size ∧ r.base < base + size) then
    .error (.invalidArgument "overlapping window cache regions")
  else .ok { c with regions := c.regions ++ [⟨base, size⟩] }

/-- Set the geometry once. -/
def configure (base size : ℕ) : Except Exn WindowDataCache :=
  if c.active || !c.regions.isEmpty then
    .error (.logicError "window cache geometry cannot be changed after configuration")
  else c.addRegion base size

/-- Clear the controls; tags and data survive. -/
def reset : Except Exn WindowDataCache :=
  if c.active then .error (.logicError "reset during a window cache transaction")
  else .ok { c with cacr := 0, acr := fun _ => 0 }

/-- Open a transaction. -/
def start : Except Exn WindowDataCache :=
  if c.active then .error (.logicError "overlapping window cache transactions")
  else .ok { c with
    active := true, pending := .none, pushing := false, count := 0, offset := 0,
    bytes := [], write := false }

/-- Open a read or write access. -/
def access (address size : ℕ) (write : Bool) (bytes : List UInt8) :
    Except Exn WindowDataCache :=
  match c.regionFor address with
  | none => .error (.invalidArgument "invalid window cache access")
  | some region =>
    if size = 0 ∨ size > 8 ∨ size > region.size - (address - region.base) ∨
        (write = true ∧ bytes.length ≠ size) then
      .error (.invalidArgument "invalid window cache access")
    else c.start.map fun c =>
      { c with
        address := address, count := size, offset := 0, write := write,
        bytes := if write then bytes else List.replicate size 0 }

/-- Drop every line, as `DCINVA` does: nothing is written back. -/
def invalidateAll (lines : Slot → Line) : Slot → Line := fun s =>
  { lines s with valid := false, dirty := false }

/-- The number of valid dirty lines. -/
def dirtyCount (lines : Slot → Line) : ℕ :=
  (List.finRange (sets * ways)).countP fun s => (lines s).valid && (lines s).dirty

/-- The effect of a control write on the opened cache. -/
def control (reg : ℕ) (value : BitVec 32) : WindowDataCache :=
  if reg = 2 then
    let c := if value &&& DCINVA ≠ 0 then
        { c with
          dirtyDiscards := c.dirtyDiscards + dirtyCount c.lines
          lines := invalidateAll c.lines }
      else c
    -- the invalidate bits clear themselves
    { c with cacr := value &&& ~~~(DCINVA ||| 0x00040100) }
  else { c with acr := Function.update c.acr (Fin.ofNat 4 (reg - 4)) value }

/-- Write a control register. -/
def movec (reg : ℕ) (value : BitVec 32) : Except Exn WindowDataCache :=
  if reg ≠ 2 ∧ ¬(4 ≤ reg ∧ reg ≤ 7) then
    .error (.invalidArgument "unsupported ColdFire cache control register")
  else if reg = 2 ∧ value &&& 0x60000000 ≠ 0 then
    .error (.invalidArgument "unsupported CACR write-protection/store-buffer controls")
  else if (reg = 4 ∨ reg = 5) ∧ value &&& 4 ≠ 0 then
    .error (.invalidArgument "unsupported data ACR write protection")
  else c.start.map fun c => c.control reg value

/-- The effect of a CPUSHL on the opened cache: bit `0x40` selects the data cache. -/
def select (instruction : BitVec 16) (operand : BitVec 32) : WindowDataCache :=
  if instruction &&& 0x40 = 0 then c
  else { c with
    pushing := true
    invalidatePush := decide (c.cacr &&& DDPI = 0)
    pendingSlot := slotOf (setIndex operand.toNat) (Fin.ofNat ways operand.toNat) }

/-- Open a CPUSHL of the set and way the operand selects. -/
def push (instruction : BitVec 16) (operand : BitVec 32) : Except Exn WindowDataCache :=
  if instruction &&& 0xff38 ≠ 0xf428 ∨ instruction &&& 0xc0 = 0 then
    .error (.invalidArgument "invalid ColdFire CPUSHL instruction")
  else c.start.map fun c => c.select instruction operand

/-! ### Backing requests -/

/-- Close the transaction and return its result. -/
def finish : WindowDataCache × Action :=
  ({ c with active := false }, ⟨.done, 0, 0, if c.write then [] else c.bytes⟩)

/-- The push branch of `next`. -/
def nextPush : WindowDataCache × Action :=
  let line := c.lines c.pendingSlot
  if line.valid && line.dirty then
    ({ c with pending := .push }, ⟨.write, line.address, lineBytes, List.ofFn line.bytes⟩)
  else
    let lines := if c.invalidatePush then
        Function.update c.lines c.pendingSlot { line with valid := false }
      else c.lines
    finish { c with lines := lines, pushing := false }

/-- The bytes of the open write access that the current chunk carries. -/
def chunk : List UInt8 := (c.bytes.drop c.offset).take c.pendingSize

/-- The access loop's bookkeeping for the chunk at `offset`. -/
def aim : WindowDataCache :=
  let address := c.address + c.offset
  { c with
    pendingSize := min (c.count - c.offset) (lineBytes - (address - lineOf address))
    pendingAddress := lineOf address }

/-- One pass of the access loop on an aimed state: either it returns with a backing
request, or the chunk hits and the loop goes on. -/
def pass : (WindowDataCache × Action) ⊕ WindowDataCache :=
  let address := c.address + c.offset
  let lineAddress := c.pendingAddress
  let inLine := address - lineAddress
  let cacheMode := c.mode address
  let found := c.find lineAddress
  if cacheMode ≥ 2 ∨ (c.write = true ∧ cacheMode = 0 ∧ found = none) then
    if c.write then
      .inl ({ c with pending := .bypassWrite }, ⟨.write, address, c.pendingSize, c.chunk⟩)
    else .inl ({ c with pending := .bypassRead }, ⟨.read, address, c.pendingSize, []⟩)
  else
    match found with
    | none =>
      let slot := c.victim (setIndex lineAddress)
      let old := c.lines slot
      if old.valid && old.dirty then
        .inl ({ c with pendingSlot := slot, pending := .evict },
          ⟨.write, old.address, lineBytes, List.ofFn old.bytes⟩)
      else
        .inl ({ c with pendingSlot := slot, pending := .fill },
          ⟨.read, lineAddress, lineBytes, []⟩)
    | some slot =>
      let line := c.lines slot
      if c.write then
        let hit := { line with bytes := copyInto line.bytes inLine c.chunk }
        if cacheMode = 0 then
          .inl ({ c with
              lines := Function.update c.lines slot hit
              pending := .writeThrough, pendingSlot := slot },
            ⟨.write, address, c.pendingSize, c.chunk⟩)
        else
          .inr { c with
            lines := Function.update c.lines slot { hit with dirty := true }
            offset := c.offset + c.pendingSize }
      else
        .inr { c with
          bytes := overwrite c.bytes c.offset
            (((List.ofFn line.bytes).drop inLine).take c.pendingSize)
          offset := c.offset + c.pendingSize }

/-- The access loop of `next`. -/
def nextAccess : ℕ → WindowDataCache → WindowDataCache × Action
  | 0, c => c.finish
  | n + 1, c =>
    if c.offset < c.count then
      match c.aim.pass with
      | .inl r => r
      | .inr c => nextAccess n c
    else c.finish

/-- The next backing request of the open transaction, or its result. -/
def next : Except Exn (WindowDataCache × Action) :=
  if c.active = false ∨ c.pending ≠ .none then
    .error (.logicError "window cache transaction ordering error")
  else if c.pushing then .ok c.nextPush
  else .ok (nextAccess (c.count - c.offset) c)

/-- Take the answer to the outstanding backing request. -/
def complete (bytes : List UInt8) : Except Exn WindowDataCache :=
  if c.active = false then
    .error (.logicError "unexpected window cache memory response")
  else
    let line := c.lines c.pendingSlot
    match c.pending with
    | .none => .error (.logicError "unexpected window cache memory response")
    | .fill =>
      if bytes.length ≠ lineBytes then
        .error (.runtimeError "short window cache line fill")
      else
        .ok { c with
          lines := Function.update c.lines c.pendingSlot
            { bytes := fun i => bytes.getD i 0, address := c.pendingAddress, valid := true }
          replacement := c.replacement + 1, pending := .none }
    | .bypassRead =>
      if bytes.length ≠ c.pendingSize then .error (.runtimeError "short window cache read")
      else
        .ok { c with
          bytes := overwrite c.bytes c.offset bytes
          offset := c.offset + c.pendingSize, pending := .none }
    | .push =>
      .ok { c with
        lines := Function.update c.lines c.pendingSlot
          { line with
            dirty := false, valid := if c.invalidatePush then false else line.valid }
        pushing := false, pending := .none }
    | .evict =>
      .ok { c with
        lines := Function.update c.lines c.pendingSlot
          { line with valid := false, dirty := false }
        pending := .none }
    | .bypassWrite => .ok { c with offset := c.offset + c.pendingSize, pending := .none }
    | .writeThrough =>
      -- a write-through hit cleans the line, even one that copyback mode had made dirty
      .ok { c with
        lines := Function.update c.lines c.pendingSlot { line with dirty := false }
        offset := c.offset + c.pendingSize, pending := .none }

end WindowDataCache

end Quetz
