import Quetz.AcceleratorPort
import Quetz.LevelLine

/-!
# The Stream Device

`QuetzStreamDevice` (`src/quetz_stream_device.{h,cc}`): a device that replays a file to the guest
through a small register window. A read of `REG_DATA` pops up to four bytes, packed with the first
byte lowest. With pacing on, a clock makes the bytes available a few at a time, and a data-ready
interrupt is up while some are available.

`Config` is what the constructor leaves unchanged for the whole run, with the facts it checked;
`trace` records, oldest first, what the device sends. The verbose output is left out.

## Main results

* `construct_eq_ok_iff`: the parameters the constructor accepts.
* `Device.popData_spec`: a pop takes `min(4, size - pos)` bytes and carries them, or takes none.
* `stream_replayed`: in every reachable state the guest has read exactly `stream[0, pos)`, and the
  interrupt is up exactly while bytes are available.
-/

namespace Quetz.StreamDevice

open Bytes
open GpuDevice (MmioRead MmioWrite u64ToData dataToU64 alternating)

/-! ### Configuration -/

/-- The parameters of the constructor. -/
structure Params where
  baseAddr : UInt64 := 0
  streamFile : String := ""
  /-- The contents of `streamFile`, if it can be opened. -/
  contents : Option (List UInt8) := none
  paceBytes : UInt64 := 0
  irqLine : ℤ := -1
  irqVcpu : UInt32 := 0
  /-- Whether the `irq` port is linked and the `iface` slot is filled. -/
  hasIrqLink : Bool := false
  hasIface : Bool := false

/-- What the constructor fixes, and what it checked. -/
structure Config where
  baseAddr : UInt64 := 0
  stream : List UInt8
  /-- Bytes made available per refill; zero makes the whole stream available at once. -/
  paceBytes : UInt64 := 0
  irqLine : ℤ := -1
  irqVcpu : UInt32 := 0
  stream_ne : stream ≠ []
  irq_paced : 0 ≤ irqLine → paceBytes ≠ 0

/-- The constructor: refuse a bad configuration. The name of the component, which stands before
every message, is left out. -/
def construct (p : Params) : Except String Config :=
  if p.streamFile.isEmpty then
    .error "'stream_file' is required (binary fixture replayed via REG_DATA).\n"
  else
    match p.contents with
    | none => .error s!"cannot open stream_file '{p.streamFile}'.\n"
    | some stream =>
      if hne : stream = [] then .error s!"stream_file '{p.streamFile}' is empty.\n"
      else if hpace : 0 ≤ p.irqLine ∧ p.paceBytes = 0 then
        .error ("irq_line requires pacing (pace_bytes > 0) — an unpaced stream is fully " ++
          "available at t=0 and never raises.\n")
      else if 0 ≤ p.irqLine ∧ !p.hasIrqLink then
        .error (s!"irq_line={p.irqLine} requires the 'irq' port to be linked to a QuetzCPU " ++
          "irq_link_%d port.\n")
      else if !p.hasIface then
        .error "no 'iface' subcomponent; load memHierarchy.standardInterface.\n"
      else
        .ok { p with stream, stream_ne := hne, irq_paced := fun h h0 => hpace ⟨h, h0⟩ }

/-- The constructor accepts a nonempty file, and an interrupt line only with pacing and a link. -/
theorem construct_eq_ok_iff {p : Params} : (∃ c, construct p = .ok c) ↔
    p.streamFile.isEmpty = false ∧ (∃ stream, p.contents = some stream ∧ stream ≠ []) ∧
      (0 ≤ p.irqLine → p.paceBytes ≠ 0 ∧ p.hasIrqLink = true) ∧ p.hasIface = true := by
  constructor
  · rintro ⟨c, hc⟩
    cases hcontents : p.contents with
    | none => cases hfile : p.streamFile.isEmpty <;> simp [construct, hcontents, hfile] at hc
    | some stream =>
        simp only [construct, hcontents] at hc
        split_ifs at hc with hfile hne hpace hlink hiface
        refine ⟨by simpa using hfile, ⟨stream, rfl, hne⟩, fun h => ⟨fun h0 => hpace ⟨h, h0⟩, ?_⟩,
          by simpa using hiface⟩
        by_contra hno
        exact hlink ⟨h, by simpa using hno⟩
  · rintro ⟨hfile, ⟨stream, hcontents, hne⟩, hirq, hiface⟩
    refine ⟨{ p with stream, stream_ne := hne, irq_paced := fun h => (hirq h).1 }, ?_⟩
    rw [construct, if_neg (by simp [hfile])]
    simp only [hcontents]
    rw [dif_neg hne, dif_neg fun h => (hirq h.1).1 h.2, if_neg ?_, if_neg (by simp [hiface])]
    rintro ⟨h, hlink⟩
    simp [(hirq h).2] at hlink

/-! ### State -/

/-- What the device sends. -/
inductive Action where
  | readResp (id : ℕ) (data : List UInt8)
  | writeResp (id : ℕ)
  | irqSend (vcpu line : UInt32) (level : ℕ)
deriving DecidableEq, Repr

/-- The statistics. -/
structure Stats where
  dataReads : ℕ := 0
  bytesDelivered : ℕ := 0
  statusPolls : ℕ := 0
  underruns : ℕ := 0
  notReadyReads : ℕ := 0
  pacedRefills : ℕ := 0
  rewinds : ℕ := 0
  irqsRaised : ℕ := 0
  wrongDirectionAccesses : ℕ := 0
  badOffsetAccesses : ℕ := 0
deriving DecidableEq, Repr

/-- The state of the device. -/
structure Device where
  pos : ℕ := 0
  /-- Bytes made available since the last rewind. -/
  budgetGiven : ℕ
  /-- Bytes available and not yet popped. -/
  avail : ℕ
  irqPending : Bool := false
  stats : Stats := {}
  trace : List Action := []
deriving DecidableEq, Repr

def REG_STATUS : UInt64 := 0x00
def REG_DATA : UInt64 := 0x08
def REG_SEQ : UInt64 := 0x10
def REG_CTRL : UInt64 := 0x18
def REG_EOS : UInt64 := 0x20
def REG_IRQ_ACK : UInt64 := 0x28

/-- The bytes that are available right after a rewind. -/
def Config.initialBudget (c : Config) : ℕ := if c.paceBytes ≠ 0 then 0 else c.stream.length

/-- The device after construction. -/
def Config.device (c : Config) : Device where
  budgetGiven := c.initialBudget
  avail := c.initialBudget

namespace Device

variable (c : Config) (d : Device)

def emit (a : Action) : Device := { d with trace := d.trace ++ [a] }

/-! ### Handlers -/

def raiseDataReadyIrq : Device :=
  if c.irqLine < 0 || d.irqPending then d
  else
    { d with irqPending := true, stats.irqsRaised := d.stats.irqsRaised + 1 }.emit
      (.irqSend c.irqVcpu (UInt32.ofInt c.irqLine) 1)

def ackIrq : Device :=
  if c.irqLine < 0 || !d.irqPending then d
  -- An acknowledgement cannot clear a level whose condition is still true.
  else if d.avail > 0 then d
  else { d with irqPending := false }.emit (.irqSend c.irqVcpu (UInt32.ofInt c.irqLine) 0)

/-- A refill. Without pacing there is no refill clock, and the budget is the whole stream. -/
def tickPace : Device :=
  if d.budgetGiven < c.stream.length then
    let left := c.stream.length - d.budgetGiven
    let take := if left > c.paceBytes.toNat then c.paceBytes.toNat else left
    let d := { d with
      budgetGiven := d.budgetGiven + take
      avail := d.avail + take
      stats.pacedRefills := d.stats.pacedRefills + 1 }
    if take > 0 then d.raiseDataReadyIrq c else d
  else d

end Device

/-- The packing loop of a pop, from byte `n` on. -/
def packBytes : List UInt8 → ℕ → UInt64 → UInt64
  | [], _, value => value
  | b :: bs, n, value => packBytes bs (n + 1) (value ||| b.toUInt64 <<< UInt64.ofNat (8 * n))

namespace Device

variable (c : Config) (d : Device)

/-- A read of `REG_DATA`: pop the next `min(4, size - pos)` bytes, or none of them. -/
def popData : UInt64 × Device :=
  let d := { d with stats.dataReads := d.stats.dataReads + 1 }
  if d.pos ≥ c.stream.length then
    (0, { d with stats.underruns := d.stats.underruns + 1 })
  else
    let left := c.stream.length - d.pos
    let want := if left > 4 then 4 else left
    if d.avail < want then
      (0, { d with stats.notReadyReads := d.stats.notReadyReads + 1 })
    else
      let value := packBytes ((c.stream.drop d.pos).take want) 0 0
      let d := { d with
        pos := d.pos + want
        avail := d.avail - want
        stats.bytesDelivered := d.stats.bytesDelivered + want }
      (value, if d.avail = 0 then d.ackIrq c else d)

/-- The value of a register read, and the device after it. -/
def readRegister (offset : UInt64) : UInt64 × Device :=
  if offset = REG_STATUS then
    (UInt64.ofNat d.avail, { d with stats.statusPolls := d.stats.statusPolls + 1 })
  else if offset = REG_DATA then d.popData c
  else if offset = REG_SEQ then (UInt64.ofNat d.pos, d)
  else if offset = REG_EOS then (if d.pos ≥ c.stream.length then 1 else 0, d)
  else if offset = REG_IRQ_ACK then (if d.irqPending then 1 else 0, d)
  else if offset = REG_CTRL then
    (0, { d with stats.wrongDirectionAccesses := d.stats.wrongDirectionAccesses + 1 })
  else (0, { d with stats.badOffsetAccesses := d.stats.badOffsetAccesses + 1 })

def handleRead (read : MmioRead) : Device :=
  let (value, d) := d.readRegister c (read.pAddr - c.baseAddr)
  d.emit (.readResp read.id (u64ToData value read.size))

/-- The rewind command. -/
def rewind : Device :=
  let d := { d with pos := 0, budgetGiven := c.initialBudget, avail := c.initialBudget }
  let d := if d.avail = 0 then d.ackIrq c else d.raiseDataReadyIrq c
  { d with stats.rewinds := d.stats.rewinds + 1 }

def writeRegister (offset : UInt64) (data : List UInt8) : Device :=
  if offset = REG_CTRL then
    if dataToU64 data = 1 then d.rewind c else d
  else if offset = REG_IRQ_ACK then
    if dataToU64 data ≠ 0 then d.ackIrq c else d
  else if offset = REG_STATUS ∨ offset = REG_DATA ∨ offset = REG_SEQ ∨ offset = REG_EOS then
    { d with stats.wrongDirectionAccesses := d.stats.wrongDirectionAccesses + 1 }
  else { d with stats.badOffsetAccesses := d.stats.badOffsetAccesses + 1 }

def handleWrite (write : MmioWrite) : Device :=
  let d := d.writeRegister c (write.pAddr - c.baseAddr) write.data
  if write.posted then d else d.emit (.writeResp write.id)

end Device

/-! ### Packing -/

/-- The loop adds the bytes above the ones it has packed. -/
theorem toNat_packBytes : ∀ {bs : List UInt8} {n : ℕ} {value : UInt64}, n + bs.length ≤ 8 →
    value.toNat < 256 ^ n → (packBytes bs n value).toNat = value.toNat + 256 ^ n * leNat bs
  | [], n, value, _, _ => by rw [packBytes, leNat, Nat.mul_zero, Nat.add_zero]
  | b :: bs, n, value, hlen, hlt => by
    rw [List.length_cons] at hlen
    have hb : b.toNat < 256 := b.toNat_lt
    have hpow : 2 ^ (8 * n) = 256 ^ n := Nat.pow_mul 2 8 n
    have hsucc : 256 ^ (n + 1) = 256 * 256 ^ n := by rw [Nat.pow_succ, Nat.mul_comm]
    have hbyte : b.toNat * 256 ^ n + 256 ^ n ≤ 256 ^ (n + 1) := by
      rw [hsucc, ← Nat.succ_mul]
      exact Nat.mul_le_mul_right _ hb
    have hword : 256 ^ (n + 1) ≤ 2 ^ 64 := by
      have : 256 ^ (n + 1) ≤ 256 ^ 8 := Nat.pow_le_pow_right (by decide) (by omega)
      omega
    have hamount : (UInt64.ofNat (8 * n)).toNat % 64 = 8 * n := by
      rw [UInt64.toNat_ofNat']
      omega
    have hor : (value ||| b.toUInt64 <<< UInt64.ofNat (8 * n)).toNat =
        value.toNat + 256 ^ n * b.toNat := by
      rw [UInt64.toNat_or, UInt64.toNat_shiftLeft, hamount, UInt8.toNat_toUInt64, Nat.shiftLeft_eq,
        hpow, Nat.mod_eq_of_lt (by omega), ← hpow, ← Nat.shiftLeft_eq, Nat.or_comm,
        ← Nat.shiftLeft_add_eq_or_of_lt (by rwa [hpow]), Nat.shiftLeft_eq, hpow]
      ring
    rw [packBytes, toNat_packBytes (by omega) (by rw [hor, Nat.mul_comm]; omega), hor, leNat, hsucc]
    ring

/-- The two devices lay out a register value alike. -/
theorem u64ToData_eq_accel (value : UInt64) (size : ℕ) :
    u64ToData value size = accelU64ToData value size := by
  induction size generalizing value with
  | zero => rfl
  | succ size ih => rw [u64ToData, accelU64ToData, ih]

/-- A narrower answer is the front of a wider one. -/
theorem take_u64ToData {n size : ℕ} (h : n ≤ size) (value : UInt64) :
    (u64ToData value size).take n = u64ToData value n := by
  induction n generalizing size value with
  | zero => rfl
  | succ n ih =>
      obtain ⟨size, rfl⟩ : ∃ m, size = m + 1 := ⟨size - 1, by omega⟩
      rw [u64ToData, u64ToData, List.take_succ_cons, ih (by omega)]

/-- The low bytes of a packed value are the packed bytes. -/
theorem take_u64ToData_packBytes {bs : List UInt8} {size : ℕ} (h8 : bs.length ≤ 8)
    (h : bs.length ≤ size) : (u64ToData (packBytes bs 0 0) size).take bs.length = bs := by
  have hvalue : (packBytes bs 0 0).toNat = leNat bs := by
    rw [toNat_packBytes (by omega) (by decide)]
    simp
  rw [take_u64ToData h, u64ToData_eq_accel, accelU64ToData_eq hvalue]

/-! ### One pop -/

namespace Device

variable {c : Config} {d : Device}

/-- An acknowledgement touches the line only. -/
@[simp] theorem ackIrq_pos : (d.ackIrq c).pos = d.pos := by
  rw [ackIrq]
  split_ifs <;> rfl

@[simp] theorem ackIrq_budgetGiven : (d.ackIrq c).budgetGiven = d.budgetGiven := by
  rw [ackIrq]
  split_ifs <;> rfl

@[simp] theorem ackIrq_avail : (d.ackIrq c).avail = d.avail := by
  rw [ackIrq]
  split_ifs <;> rfl

/-- So does raising it. -/
@[simp] theorem raiseDataReadyIrq_pos : (d.raiseDataReadyIrq c).pos = d.pos := by
  rw [raiseDataReadyIrq]
  split_ifs <;> rfl

@[simp] theorem raiseDataReadyIrq_budgetGiven :
    (d.raiseDataReadyIrq c).budgetGiven = d.budgetGiven := by
  rw [raiseDataReadyIrq]
  split_ifs <;> rfl

@[simp] theorem raiseDataReadyIrq_avail : (d.raiseDataReadyIrq c).avail = d.avail := by
  rw [raiseDataReadyIrq]
  split_ifs <;> rfl

variable (c d)

/-- The bytes the next pop wants. -/
def want : ℕ := min 4 (c.stream.length - d.pos)

/-- The choice of the source is the minimum. -/
theorem want_eq :
    (if c.stream.length - d.pos > 4 then 4 else c.stream.length - d.pos) = d.want c := by
  rw [want]
  split_ifs <;> omega

/-- A pop takes the bytes it wants and carries them, or takes none and carries zero. -/
theorem popData_spec :
    (d.want c ≤ d.avail ∧ (d.popData c).2.pos = d.pos + d.want c ∧
      ∀ size, 4 ≤ size → (u64ToData (d.popData c).1 size).take (d.want c) =
        (c.stream.drop d.pos).take (d.want c)) ∨
    (d.avail < d.want c ∧ (d.popData c).2.pos = d.pos ∧ (d.popData c).1 = 0) := by
  rw [popData]
  dsimp only
  rw [want_eq]
  by_cases hend : d.pos ≥ c.stream.length
  · have hzero : d.want c = 0 := by
      rw [want]
      omega
    rw [if_pos hend]
    exact .inl ⟨by omega, by simp [hzero], fun _ _ => by simp [hzero]⟩
  · rw [if_neg hend]
    by_cases havail : d.avail < d.want c
    · rw [if_pos havail]
      exact .inr ⟨havail, rfl, rfl⟩
    · rw [if_neg havail]
      refine .inl ⟨Nat.not_lt.mp havail, ?_, fun size hsize => ?_⟩
      · dsimp only
        split_ifs
        · exact ackIrq_pos
        · rfl
      · have hlen : ((c.stream.drop d.pos).take (d.want c)).length = d.want c := by
          rw [List.length_take, List.length_drop, want]
          omega
        have h4 : d.want c ≤ 4 := Nat.min_le_left _ _
        have hfit : ((c.stream.drop d.pos).take (d.want c)).length ≤ size := by omega
        have hbytes := take_u64ToData_packBytes (by omega) hfit
        rwa [hlen] at hbytes

/-! ### The invariant -/

end Device

/-- The level an action sends on the irq link. -/
def Action.irqLevel : Action → Option ℕ
  | .irqSend _ _ level => some level
  | _ => none

/-- The levels sent on the irq link, oldest first. -/
def Device.irqLevels (d : Device) : List ℕ := d.trace.filterMap Action.irqLevel

/-- The three counters are in step. -/
structure Counters (c : Config) (d : Device) : Prop where
  pos_le : d.pos ≤ d.budgetGiven
  budget_le : d.budgetGiven ≤ c.stream.length
  avail : d.avail = d.budgetGiven - d.pos

/-- The line agrees with the levels sent, and only a configured one is ever up. -/
structure LineOk (c : Config) (d : Device) : Prop where
  levels : LevelLine d.irqLevels d.irqPending
  configured : d.irqPending = true → 0 ≤ c.irqLine

/-- The invariant of the device between two events. -/
structure Ok (c : Config) (d : Device) : Prop where
  counters : Counters c d
  line : LineOk c d
  ready : 0 ≤ c.irqLine → (d.irqPending = true ↔ 0 < d.avail)

section

variable {c : Config} {d d' : Device}

/-- An action that sends no level leaves the levels as they are. -/
theorem irqLevels_emit {a : Action} (h : a.irqLevel = none) :
    (d.emit a).irqLevels = d.irqLevels := by
  simp [Device.irqLevels, Device.emit, h]

/-- It leaves the device in order. -/
theorem Ok.emit (h : Ok c d) {a : Action} (ha : a.irqLevel = none) : Ok c (d.emit a) := by
  obtain ⟨⟨hpos, hbudget, havail⟩, ⟨hlevels, hconf⟩, hready⟩ := h
  exact ⟨⟨hpos, hbudget, havail⟩, ⟨by rwa [irqLevels_emit ha], hconf⟩, hready⟩

/-- With bytes available, raising the line settles it. -/
theorem Counters.raise (h : Counters c d) (hl : LineOk c d) (havail : 0 < d.avail) :
    Ok c (d.raiseDataReadyIrq c) := by
  obtain ⟨hpos, hbudget, hcount⟩ := h
  rw [Device.raiseDataReadyIrq]
  split_ifs with hskip
  · refine ⟨⟨hpos, hbudget, hcount⟩, hl, fun hirq => ⟨fun _ => havail, fun _ => ?_⟩⟩
    simpa [Int.not_lt.mpr hirq] using hskip
  · obtain ⟨hline, hlow⟩ : 0 ≤ c.irqLine ∧ d.irqPending = false := by simpa using hskip
    have hlevels := hl.levels
    rw [hlow] at hlevels
    refine ⟨⟨hpos, hbudget, hcount⟩, ⟨?_, fun _ => hline⟩, fun _ => ⟨fun _ => havail, fun _ => rfl⟩⟩
    simpa [Device.irqLevels, Device.emit, Action.irqLevel] using hlevels.raise

/-- With no byte available, acknowledging the line settles it. -/
theorem Counters.ack (h : Counters c d) (hl : LineOk c d) (havail : d.avail = 0) :
    Ok c (d.ackIrq c) := by
  obtain ⟨hpos, hbudget, hcount⟩ := h
  rw [Device.ackIrq, if_neg (c := d.avail > 0) (by omega)]
  split_ifs with hskip
  · refine ⟨⟨hpos, hbudget, hcount⟩, hl, fun hirq => ⟨fun hp => ?_, fun h0 => absurd havail h0.ne'⟩⟩
    simp [Int.not_lt.mpr hirq, hp] at hskip
  · obtain ⟨hline, hhigh⟩ : 0 ≤ c.irqLine ∧ d.irqPending = true := by simpa using hskip
    have hlevels := hl.levels
    rw [hhigh] at hlevels
    refine ⟨⟨hpos, hbudget, hcount⟩, ⟨?_, nofun⟩,
      fun _ => ⟨nofun, fun h0 => absurd havail h0.ne'⟩⟩
    simpa [Device.irqLevels, Device.emit, Action.irqLevel] using hlevels.lower

/-- An acknowledgement of the guest, early or not. -/
theorem Ok.ackIrq (h : Ok c d) : Ok c (d.ackIrq c) := by
  rcases Nat.eq_zero_or_pos d.avail with havail | havail
  · exact h.counters.ack h.line havail
  · rw [Device.ackIrq, if_pos (c := d.avail > 0) havail, ite_self]
    exact h

/-- A refill keeps the device in order, and makes bytes available only within the stream. -/
theorem Ok.tickPace (h : Ok c d) : Ok c (d.tickPace c) := by
  obtain ⟨⟨hpos, hbudget, havail⟩, hline, hready⟩ := h
  rw [Device.tickPace]
  split_ifs with hleft
  · dsimp only
    have htake : (if c.stream.length - d.budgetGiven > c.paceBytes.toNat then c.paceBytes.toNat
        else c.stream.length - d.budgetGiven) ≤ c.stream.length - d.budgetGiven := by
      split_ifs <;> omega
    generalize (if c.stream.length - d.budgetGiven > c.paceBytes.toNat then c.paceBytes.toNat
      else c.stream.length - d.budgetGiven) = take at htake ⊢
    split_ifs with htake0
    · refine Counters.raise ⟨?_, ?_, ?_⟩ ⟨hline.1, hline.2⟩ ?_ <;> dsimp only <;> omega
    · have hzero : take = 0 := by omega
      subst hzero
      exact ⟨⟨hpos, hbudget, havail⟩, ⟨hline.1, hline.2⟩, hready⟩
  · exact ⟨⟨hpos, hbudget, havail⟩, hline, hready⟩

/-- A pop takes what is available and lowers the line with the last byte. -/
theorem Ok.popData (h : Ok c d) : Ok c (d.popData c).2 := by
  obtain ⟨⟨hpos, hbudget, havail⟩, hline, hready⟩ := h
  rw [Device.popData]
  dsimp only
  rw [Device.want_eq]
  by_cases hend : d.pos ≥ c.stream.length
  · rw [if_pos hend]
    exact ⟨⟨hpos, hbudget, havail⟩, ⟨hline.1, hline.2⟩, hready⟩
  rw [if_neg hend]
  by_cases hsmall : d.avail < d.want c
  · rw [if_pos hsmall]
    exact ⟨⟨hpos, hbudget, havail⟩, ⟨hline.1, hline.2⟩, hready⟩
  rw [if_neg hsmall]
  have hwant : 0 < d.want c := by
    rw [Device.want]
    omega
  generalize d.want c = n at hsmall hwant
  dsimp only
  -- The pop took a byte, so the line was up before it.
  have hup : 0 ≤ c.irqLine → d.irqPending = true := fun hirq => (hready hirq).mpr (by omega)
  by_cases hdrained : d.avail - n = 0
  · rw [if_pos hdrained]
    refine Counters.ack ⟨?_, hbudget, ?_⟩ ⟨hline.1, hline.2⟩ hdrained
    · dsimp only
      omega
    · dsimp only
      omega
  · rw [if_neg hdrained]
    refine ⟨⟨?_, hbudget, ?_⟩, ⟨hline.1, hline.2⟩, fun hirq => ⟨fun _ => ?_, fun _ => hup hirq⟩⟩
    · dsimp only
      omega
    · dsimp only
      omega
    · exact Nat.pos_of_ne_zero hdrained

/-- Of the registers only `REG_DATA` changes the device by a read. -/
theorem Ok.readRegister (h : Ok c d) (offset : UInt64) : Ok c (d.readRegister c offset).2 := by
  have hpop := h.popData
  obtain ⟨⟨hpos, hbudget, havail⟩, hline, hready⟩ := h
  rw [Device.readRegister]
  split_ifs
  · exact ⟨⟨hpos, hbudget, havail⟩, ⟨hline.1, hline.2⟩, hready⟩
  · exact hpop
  all_goals exact ⟨⟨hpos, hbudget, havail⟩, ⟨hline.1, hline.2⟩, hready⟩

/-- A read with its response. -/
theorem Ok.handleRead (h : Ok c d) (read : MmioRead) : Ok c (d.handleRead c read) :=
  (h.readRegister _).emit rfl

/-- A rewind makes the first budget available again, and the line follows it. -/
theorem Ok.rewind (h : Ok c d) : Ok c (d.rewind c) := by
  obtain ⟨-, hline, -⟩ := h
  have hcounters : Counters c
      { d with pos := 0, budgetGiven := c.initialBudget, avail := c.initialBudget } := by
    refine ⟨Nat.zero_le _, ?_, rfl⟩
    dsimp only
    rw [Config.initialBudget]
    split_ifs
    · exact Nat.zero_le _
    · exact Nat.le_refl _
  have hline : LineOk c
      { d with pos := 0, budgetGiven := c.initialBudget, avail := c.initialBudget } :=
    ⟨hline.1, hline.2⟩
  rw [Device.rewind]
  dsimp only
  by_cases hempty : c.initialBudget = 0
  · rw [if_pos hempty]
    obtain ⟨⟨hpos, hbudget, havail⟩, hline, hready⟩ := hcounters.ack hline hempty
    exact ⟨⟨hpos, hbudget, havail⟩, ⟨hline.1, hline.2⟩, hready⟩
  · rw [if_neg hempty]
    obtain ⟨⟨hpos, hbudget, havail⟩, hline, hready⟩ :=
      hcounters.raise hline (Nat.pos_of_ne_zero hempty)
    exact ⟨⟨hpos, hbudget, havail⟩, ⟨hline.1, hline.2⟩, hready⟩

/-- A write is a rewind, an acknowledgement or nothing. -/
theorem Ok.writeRegister (h : Ok c d) (offset : UInt64) (data : List UInt8) :
    Ok c (d.writeRegister c offset data) := by
  have hrewind := h.rewind
  have hack := h.ackIrq
  have hsame := h
  obtain ⟨⟨hpos, hbudget, havail⟩, hline, hready⟩ := h
  rw [Device.writeRegister]
  split_ifs
  · exact hrewind
  · exact hsame
  · exact hack
  · exact hsame
  all_goals exact ⟨⟨hpos, hbudget, havail⟩, ⟨hline.1, hline.2⟩, hready⟩

/-- A write with its response, if it is not posted. -/
theorem Ok.handleWrite (h : Ok c d) (write : MmioWrite) : Ok c (d.handleWrite c write) := by
  have hreg := h.writeRegister (write.pAddr - c.baseAddr) write.data
  rw [Device.handleWrite]
  split_ifs
  · exact hreg
  · exact hreg.emit rfl

/-- The constructed device is in order. -/
theorem ok_device (c : Config) : Ok c c.device := by
  refine ⟨⟨Nat.zero_le _, ?_, rfl⟩, ⟨.nil, nofun⟩, fun hirq => ?_⟩
  · rw [Config.device, Config.initialBudget]
    dsimp only
    split_ifs
    · exact Nat.zero_le _
    · exact Nat.le_refl _
  · rw [Config.device, Config.initialBudget, if_pos (c.irq_paced hirq)]
    simp

/-! ### The position -/

/-- Only a pop moves the position forward. -/
theorem readRegister_pos {offset : UInt64} (h : offset ≠ REG_DATA) :
    (d.readRegister c offset).2.pos = d.pos := by
  rw [Device.readRegister, if_neg h]
  split_ifs <;> rfl

/-- A rewind goes back to the first byte. -/
theorem rewind_pos : (d.rewind c).pos = 0 := by
  rw [Device.rewind]
  dsimp only
  split_ifs
  · exact Device.ackIrq_pos
  · exact Device.raiseDataReadyIrq_pos

/-- The write is the rewind command. -/
def Rewinds (c : Config) (write : MmioWrite) : Prop :=
  write.pAddr - c.baseAddr = REG_CTRL ∧ dataToU64 write.data = 1

instance (c : Config) (write : MmioWrite) : Decidable (Rewinds c write) :=
  inferInstanceAs (Decidable (_ ∧ _))

/-- No write but the rewind command moves the position. -/
theorem handleWrite_pos (write : MmioWrite) :
    (d.handleWrite c write).pos = if Rewinds c write then 0 else d.pos := by
  have hpos : (d.handleWrite c write).pos =
      (d.writeRegister c (write.pAddr - c.baseAddr) write.data).pos := by
    rw [Device.handleWrite]
    split_ifs <;> rfl
  rw [hpos, Device.writeRegister]
  by_cases hctrl : write.pAddr - c.baseAddr = REG_CTRL
  · rw [if_pos hctrl]
    by_cases hone : dataToU64 write.data = 1
    · rw [if_pos hone, if_pos (c := Rewinds c write) ⟨hctrl, hone⟩, rewind_pos]
    · rw [if_neg hone, if_neg (c := Rewinds c write) fun h => hone h.2]
  · rw [if_neg hctrl, if_neg (c := Rewinds c write) fun h => hctrl h.1]
    split_ifs
    · exact Device.ackIrq_pos
    all_goals rfl

/-- A refill does not move it. -/
theorem tickPace_pos : (d.tickPace c).pos = d.pos := by
  rw [Device.tickPace]
  dsimp only
  split_ifs
  all_goals first
    | rfl
    | exact Device.raiseDataReadyIrq_pos

end

/-! ### Runs -/

/-- The device, and what the guest has read. -/
structure World where
  device : Device
  /-- The bytes that the successful reads of `REG_DATA` carried since the last rewind. -/
  delivered : List UInt8 := []

namespace World

/-- The data of the response to a read. -/
def payload (c : Config) (d : Device) (read : MmioRead) : List UInt8 :=
  u64ToData (d.readRegister c (read.pAddr - c.baseAddr)).1 read.size

/-- A read; of the response to a read of `REG_DATA` the guest takes as many bytes as the position
moved. -/
def read (c : Config) (r : MmioRead) (w : World) : World where
  device := w.device.handleRead c r
  delivered := w.delivered ++
    if r.pAddr - c.baseAddr = REG_DATA then
      (payload c w.device r).take ((w.device.handleRead c r).pos - w.device.pos)
    else []

def write (c : Config) (write : MmioWrite) (w : World) : World where
  device := w.device.handleWrite c write
  delivered := if Rewinds c write then [] else w.delivered

/-- The states the device reaches by refills, register reads and register writes; a read of
`REG_DATA` is at least four bytes wide. -/
inductive Reachable (c : Config) : World → Prop
  | start : Reachable c { device := c.device }
  | tick {w : World} : Reachable c w → Reachable c { w with device := w.device.tickPace c }
  | read {w : World} (r : MmioRead) : Reachable c w →
      (r.pAddr - c.baseAddr = REG_DATA → 4 ≤ r.size) → Reachable c (w.read c r)
  | write {w : World} (wr : MmioWrite) : Reachable c w → Reachable c (w.write c wr)

variable {c : Config} {w : World}

/-- The device is in order in every reachable state. -/
theorem Reachable.ok (hw : w.Reachable c) : Ok c w.device := by
  induction hw with
  | start => exact ok_device c
  | tick _ ih => exact ih.tickPace
  | read r _ _ ih => exact ih.handleRead r
  | write wr _ ih => exact ih.handleWrite wr

/-- The guest has read the stream up to the position. -/
theorem Reachable.delivered (hw : w.Reachable c) :
    w.delivered = c.stream.take w.device.pos := by
  induction hw with
  | start => rfl
  | @tick w _ ih =>
      rw [ih]
      dsimp only
      rw [tickPace_pos]
  | @read w r _ hwide ih =>
      rw [World.read]
      dsimp only
      by_cases hdata : r.pAddr - c.baseAddr = REG_DATA
      · have hpop : w.device.readRegister c (r.pAddr - c.baseAddr) = w.device.popData c := by
          rw [hdata]
          rfl
        have hpos : (w.device.handleRead c r).pos = (w.device.popData c).2.pos := by
          rw [Device.handleRead, hpop]
          rfl
        rw [if_pos hdata, payload, hpos, hpop, ih]
        obtain ⟨-, hmoved, hbytes⟩ | ⟨-, hstays, -⟩ := w.device.popData_spec c
        · rw [hmoved, Nat.add_sub_cancel_left, hbytes _ (hwide hdata), List.take_add]
        · rw [hstays, Nat.sub_self, List.take_zero, List.append_nil]
      · have hpos : (w.device.handleRead c r).pos = w.device.pos :=
          readRegister_pos (c := c) (d := w.device) hdata
        rw [if_neg hdata, hpos, List.append_nil]
        exact ih
  | @write w wr _ ih =>
      rw [World.write]
      dsimp only
      rw [handleWrite_pos]
      by_cases hrewinds : Rewinds c wr
      · rw [if_pos hrewinds, if_pos hrewinds, List.take_zero]
      · rw [if_neg hrewinds, if_neg hrewinds]
        exact ih

end World

/-- **The stream is replayed exactly and the interrupt is a true level**: in every state of every
run the counters are in step, the guest has read the stream up to the position, a read of
`REG_DATA` takes all the bytes it wants or none, `REG_EOS` tells whether the position is at the
end, and the interrupt is up exactly while bytes are available. -/
theorem stream_replayed {c : Config} {w : World} (hw : w.Reachable c) :
    (w.device.pos ≤ w.device.budgetGiven ∧ w.device.budgetGiven ≤ c.stream.length ∧
      w.device.avail = w.device.budgetGiven - w.device.pos) ∧
    w.delivered = c.stream.take w.device.pos ∧
    (∀ r : MmioRead, r.pAddr - c.baseAddr = REG_DATA →
      (w.device.handleRead c r).pos = w.device.pos + min 4 (c.stream.length - w.device.pos) ∨
      (w.device.handleRead c r).pos = w.device.pos) ∧
    (∀ r : MmioRead, r.pAddr - c.baseAddr = REG_EOS →
      (w.device.handleRead c r).trace = w.device.trace ++
        [.readResp r.id (u64ToData (if w.device.pos = c.stream.length then 1 else 0) r.size)]) ∧
    (0 ≤ c.irqLine →
      (w.device.irqPending = true ↔ 0 < w.device.avail) ∧
      w.device.irqLevels = alternating w.device.irqLevels.length ∧
      w.device.irqLevels.getLastD 0 = if w.device.irqPending then 1 else 0) := by
  obtain ⟨⟨hpos, hbudget, havail⟩, ⟨hlevels, -⟩, hready⟩ := hw.ok
  refine ⟨⟨hpos, hbudget, havail⟩, hw.delivered, fun r hdata => ?_, fun r heos => ?_, fun hirq =>
    ⟨hready hirq, hlevels.alternate, hlevels.last⟩⟩
  · have hmove : (w.device.handleRead c r).pos = (w.device.popData c).2.pos := by
      rw [Device.handleRead, hdata]
      rfl
    rw [hmove]
    obtain ⟨-, hmoved, -⟩ | ⟨-, hstays, -⟩ := w.device.popData_spec c
    · exact Or.inl hmoved
    · exact Or.inr hstays
  · have hend : (w.device.pos ≥ c.stream.length) ↔ w.device.pos = c.stream.length := by omega
    rw [Device.handleRead, heos]
    exact congrArg (fun v => w.device.trace ++ [Action.readResp r.id (u64ToData v r.size)])
      (if_congr hend rfl rfl)

/-- A stream of five bytes, three of them per refill. -/
def pacedConfig : Config where
  stream := [1, 2, 3, 4, 5]
  paceBytes := 3
  irqLine := 0
  stream_ne := by decide
  irq_paced := by decide

/-- Two refills, a pop, an early acknowledgement and the pop of the last byte. -/
theorem stream_replayed_paced : ∃ w, World.Reachable pacedConfig w ∧
    w.delivered = [1, 2, 3, 4, 5] ∧ w.device.pos = 5 ∧ w.device.irqLevels = alternating 2 ∧
    w.device.irqPending = false := by
  have hfull : World.Reachable pacedConfig _ := .tick (.tick .start)
  have hpop : World.Reachable pacedConfig _ := .read ⟨0, REG_DATA, 4⟩ hfull fun _ => by decide
  have hack : World.Reachable pacedConfig _ := .write ⟨1, REG_IRQ_ACK, 4, [1, 0, 0, 0], true⟩ hpop
  have hw : World.Reachable pacedConfig _ := .read ⟨2, REG_DATA, 8⟩ hack fun _ => by decide
  obtain ⟨-, hdelivered, -, -, hline⟩ := stream_replayed hw
  obtain ⟨-, hlevels, -⟩ := hline (by decide)
  exact ⟨_, hw, hdelivered, rfl, hlevels, rfl⟩

end Quetz.StreamDevice
