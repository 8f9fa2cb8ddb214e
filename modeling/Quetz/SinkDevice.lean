import Quetz.GpuDevice

/-!
# The Sink Device

`QuetzSinkDevice` (`src/quetz_sink_device.{h,cc}`): a device that captures the bytes the guest
pushes through `REG_DATA` in a file. A flush appends to the file what an earlier flush has not
written; a truncation empties the capture and the file; the end of the simulation flushes.

`file` is the contents of the capture file, and file operations succeed. A handler takes the
device to its next state, or stops the simulation with a message (`Except String`). The verbose
output is left out.

## Main results

* `Ok.handleWrite`: no register write makes the flush cursor pass the capture.
* `sink_captures`: in every reachable state the file is the flushed prefix of the capture, and
  after `finish` it is what was pushed since the last truncation, up to the cap.
-/

namespace Quetz.SinkDevice

open GpuDevice (MmioRead MmioWrite u64ToData dataToU64)

/-! ### Configuration and state -/

/-- The parameters of the constructor. -/
structure Params where
  baseAddr : UInt64 := 0
  /-- The most bytes a capture holds; zero is no bound. -/
  maxBytes : UInt64 := 0
  sinkFile : String := ""
  /-- Whether `sinkFile` can be created. -/
  writable : Bool := false
  hasIface : Bool := false

/-- What the device sends. -/
inductive Action where
  | readResp (id : ℕ) (data : List UInt8)
  | writeResp (id : ℕ)
deriving DecidableEq, Repr

/-- The statistics. -/
structure Stats where
  bytesAccepted : ℕ := 0
  flushes : ℕ := 0
  truncates : ℕ := 0
  droppedBytes : ℕ := 0
  wrongDirectionAccesses : ℕ := 0
  badOffsetAccesses : ℕ := 0
deriving DecidableEq, Repr

/-- The state of the device. -/
structure Device where
  captured : List UInt8 := []
  /-- The length of the prefix that is in the file. -/
  flushedBytes : ℕ := 0
  accepted : ℕ := 0
  dropped : ℕ := 0
  stats : Stats := {}
  file : List UInt8 := []
  trace : List Action := []
deriving DecidableEq, Repr

/-- The constructor: refuse a bad configuration, and start with an empty file. The name of the
component, which stands before every message, is left out. -/
def construct (p : Params) : Except String Device :=
  if p.sinkFile.isEmpty then
    .error "'sink_file' is required (capture file for bytes pushed through REG_DATA).\n"
  else if !p.writable then .error s!"cannot write sink_file '{p.sinkFile}'.\n"
  else if !p.hasIface then
    .error "no 'iface' subcomponent; load memHierarchy.standardInterface.\n"
  else .ok {}

def REG_STATUS : UInt64 := 0x00
def REG_DATA : UInt64 := 0x08
def REG_SEQ : UInt64 := 0x10
def REG_CTRL : UInt64 := 0x18

namespace Device

variable (p : Params) (d : Device)

def emit (a : Action) : Device := { d with trace := d.trace ++ [a] }

/-! ### Handlers -/

/-- Append what is not in the file yet, or empty the file. -/
def writeFile (truncateOnly : Bool) : Except String Device :=
  if truncateOnly then .ok { d with file := [], flushedBytes := 0 }
  else if d.flushedBytes > d.captured.length then .error "sink flush cursor exceeds capture."
  else if d.captured.length - d.flushedBytes ≠ 0 then
    .ok { d with
      file := d.file ++ d.captured.drop d.flushedBytes
      flushedBytes := d.captured.length }
  else .ok d

def finish : Except String Device := d.writeFile false

def handleRead (read : MmioRead) : Device :=
  let offset := read.pAddr - p.baseAddr
  let (value, d) :=
    if offset = REG_STATUS ∨ offset = REG_SEQ then (UInt64.ofNat d.accepted, d)
    else if offset = REG_DATA ∨ offset = REG_CTRL then
      (0, { d with stats.wrongDirectionAccesses := d.stats.wrongDirectionAccesses + 1 })
    else (0, { d with stats.badOffsetAccesses := d.stats.badOffsetAccesses + 1 })
  d.emit (.readResp read.id (u64ToData value read.size))

/-- One turn of the push loop. -/
def pushByte (b : UInt8) : Device :=
  if p.maxBytes ≠ 0 ∧ d.captured.length ≥ p.maxBytes.toNat then
    { d with dropped := d.dropped + 1, stats.droppedBytes := d.stats.droppedBytes + 1 }
  else
    { d with
      captured := d.captured ++ [b]
      accepted := d.accepted + 1
      stats.bytesAccepted := d.stats.bytesAccepted + 1 }

/-- A write of `REG_DATA`: push every byte, in order. -/
def pushData (data : List UInt8) : Device := data.foldl (pushByte p) d

def flush : Except String Device := do
  let d ← d.writeFile false
  pure { d with stats.flushes := d.stats.flushes + 1 }

def truncate : Except String Device := do
  let d ← { d with captured := [], accepted := 0 }.writeFile true
  pure { d with stats.truncates := d.stats.truncates + 1 }

def writeRegister (offset : UInt64) (data : List UInt8) : Except String Device :=
  if offset = REG_DATA then .ok (d.pushData p data)
  else if offset = REG_CTRL then
    if dataToU64 data = 1 then d.flush
    else if dataToU64 data = 2 then d.truncate
    else .ok d
  else if offset = REG_STATUS ∨ offset = REG_SEQ then
    .ok { d with stats.wrongDirectionAccesses := d.stats.wrongDirectionAccesses + 1 }
  else .ok { d with stats.badOffsetAccesses := d.stats.badOffsetAccesses + 1 }

def handleWrite (write : MmioWrite) : Except String Device := do
  let d ← d.writeRegister p (write.pAddr - p.baseAddr) write.data
  pure (if write.posted then d else d.emit (.writeResp write.id))

end Device

/-! ### The capture -/

/-- The bytes a capture keeps. -/
def Params.cap (p : Params) (pushed : List UInt8) : List UInt8 :=
  if p.maxBytes ≠ 0 then pushed.take p.maxBytes.toNat else pushed

/-- What the guest did, as far as the capture depends on it. -/
structure Pushed where
  /-- The bytes pushed since the last truncation. -/
  bytes : List UInt8 := []
  /-- The number of bytes ever pushed. -/
  total : ℕ := 0
deriving DecidableEq, Repr

/-- The pushes after a register write. -/
def Pushed.write (p : Params) (write : MmioWrite) (s : Pushed) : Pushed :=
  let offset := write.pAddr - p.baseAddr
  if offset = REG_DATA then
    { bytes := s.bytes ++ write.data, total := s.total + write.data.length }
  else if offset = REG_CTRL ∧ dataToU64 write.data = 2 then { s with bytes := [] }
  else s

/-- The invariant of the device: what it captured, wrote and counted. -/
structure Ok (p : Params) (d : Device) (s : Pushed) : Prop where
  captured : d.captured = p.cap s.bytes
  accepted : d.accepted = d.captured.length
  flushed_le : d.flushedBytes ≤ d.captured.length
  file : d.file = d.captured.take d.flushedBytes
  counted : d.stats.bytesAccepted + d.stats.droppedBytes = s.total

section

variable {p : Params} {d : Device} {s : Pushed}

/-- One byte is accepted or dropped, and not both. -/
theorem Ok.pushByte (h : Ok p d s) (b : UInt8) :
    Ok p (d.pushByte p b) { bytes := s.bytes ++ [b], total := s.total + 1 } := by
  obtain ⟨hcap, hacc, hle, hfile, hcount⟩ := h
  rw [Device.pushByte]
  split_ifs with hfull
  · obtain ⟨hmax, hlen⟩ := hfull
    rw [hcap, Params.cap, if_pos hmax, List.length_take] at hlen
    refine ⟨?_, hacc, hle, hfile, ?_⟩
    · rw [Params.cap, if_pos hmax] at hcap ⊢
      rw [List.take_append_of_le_length (by omega)]
      exact hcap
    · dsimp only
      omega
  · refine ⟨?_, ?_, ?_, ?_, ?_⟩
    · rw [Params.cap] at hcap ⊢
      dsimp only
      split_ifs at hcap ⊢ with hmax
      · have hroom : ¬d.captured.length ≥ p.maxBytes.toNat := fun hlen => hfull ⟨hmax, hlen⟩
        have hall : d.captured = s.bytes := by
          rw [hcap, List.length_take] at hroom
          rw [hcap, List.take_of_length_le (by omega)]
        rw [← hall, List.take_of_length_le]
        rw [List.length_append, List.length_singleton]
        omega
      · rw [hcap]
    · simp [hacc]
    · simp only [List.length_append]
      omega
    · rw [hfile, List.take_append_of_le_length hle]
    · dsimp only
      omega

/-- A push appends what the limit leaves room for. -/
theorem Ok.pushData (h : Ok p d s) (data : List UInt8) :
    Ok p (d.pushData p data) { bytes := s.bytes ++ data, total := s.total + data.length } := by
  induction data generalizing d s with
  | nil => simpa [Device.pushData] using h
  | cons b data ih =>
      have hrest := ih (h.pushByte b)
      have hbytes : s.bytes ++ b :: data = s.bytes ++ [b] ++ data := by simp
      have htotal : s.total + (b :: data).length = s.total + 1 + data.length := by
        rw [List.length_cons]
        omega
      rw [hbytes, htotal]
      exact hrest

/-- A flush completes the file; the cursor never stops it. -/
theorem Ok.writeFile (h : Ok p d s) :
    ∃ d', d.writeFile false = .ok d' ∧ Ok p d' s ∧ d'.file = d.captured ∧ d'.stats = d.stats := by
  obtain ⟨hcap, hacc, hle, hfile, hcount⟩ := h
  have hjoin : d.file ++ d.captured.drop d.flushedBytes = d.captured := by
    rw [hfile, List.take_append_drop]
  rw [Device.writeFile, if_neg (by decide), if_neg (by omega)]
  split_ifs with hpending
  · refine ⟨_, rfl, ⟨hcap, hacc, le_rfl, ?_, hcount⟩, hjoin, rfl⟩
    exact hjoin.trans List.take_length.symm
  · refine ⟨d, rfl, ⟨hcap, hacc, hle, hfile, hcount⟩, ?_, rfl⟩
    rw [hfile, List.take_of_length_le (by omega)]

/-- No register write stops the device, and each keeps the capture. -/
theorem Ok.writeRegister (h : Ok p d s) (write : MmioWrite) :
    ∃ d', d.writeRegister p (write.pAddr - p.baseAddr) write.data = .ok d' ∧
      Ok p d' (s.write p write) := by
  have hpush := h.pushData write.data
  obtain ⟨d₁, hflush, ⟨hcap₁, hacc₁, hle₁, hfile₁, hcount₁⟩, -⟩ := h.writeFile
  obtain ⟨hcap, hacc, hle, hfile, hcount⟩ := h
  by_cases hdata : write.pAddr - p.baseAddr = REG_DATA
  · rw [Device.writeRegister, if_pos hdata, Pushed.write, if_pos hdata]
    exact ⟨_, rfl, hpush⟩
  · rw [Device.writeRegister, if_neg hdata, Pushed.write, if_neg hdata]
    by_cases hctrl : write.pAddr - p.baseAddr = REG_CTRL
    · rw [if_pos hctrl]
      by_cases hone : dataToU64 write.data = 1
      · have htwo : ¬dataToU64 write.data = 2 := by
          rw [hone]
          decide
        rw [if_pos hone, if_neg fun hc => htwo hc.2, Device.flush, hflush]
        exact ⟨_, rfl, hcap₁, hacc₁, hle₁, hfile₁, hcount₁⟩
      · rw [if_neg hone]
        by_cases htwo : dataToU64 write.data = 2
        · rw [if_pos htwo, if_pos ⟨hctrl, htwo⟩]
          exact ⟨_, rfl, by simp [Params.cap], rfl, le_rfl, rfl, hcount⟩
        · rw [if_neg htwo, if_neg fun hc => htwo hc.2]
          exact ⟨_, rfl, hcap, hacc, hle, hfile, hcount⟩
    · have hsame : ¬(write.pAddr - p.baseAddr = REG_CTRL ∧ dataToU64 write.data = 2) :=
        fun hc => hctrl hc.1
      rw [if_neg hctrl, if_neg hsame]
      split_ifs
      · exact ⟨_, rfl, hcap, hacc, hle, hfile, hcount⟩
      · exact ⟨_, rfl, hcap, hacc, hle, hfile, hcount⟩

/-- A write, with its response. -/
theorem Ok.handleWrite (h : Ok p d s) (write : MmioWrite) :
    ∃ d', d.handleWrite p write = .ok d' ∧ Ok p d' (s.write p write) := by
  obtain ⟨d', hreg, hcap, hacc, hle, hfile, hcount⟩ := h.writeRegister write
  refine ⟨if write.posted then d' else d'.emit (.writeResp write.id), ?_, ?_⟩
  · rw [Device.handleWrite, hreg]
    rfl
  · split_ifs
    · exact ⟨hcap, hacc, hle, hfile, hcount⟩
    · exact ⟨hcap, hacc, hle, hfile, hcount⟩

/-- A read changes nothing in the file. -/
theorem Ok.handleRead (h : Ok p d s) (read : MmioRead) : Ok p (d.handleRead p read) s := by
  obtain ⟨hcap, hacc, hle, hfile, hcount⟩ := h
  rw [Device.handleRead]
  dsimp only
  split_ifs <;> exact ⟨hcap, hacc, hle, hfile, hcount⟩

end

/-! ### Runs -/

/-- The device, and what the guest pushed. -/
structure World where
  device : Device
  pushed : Pushed := {}

/-- The states a constructed device reaches by register reads and writes. -/
inductive World.Reachable (p : Params) : World → Prop
  | start {d : Device} : construct p = .ok d → Reachable p ⟨d, {}⟩
  | read {w : World} (read : MmioRead) : Reachable p w →
      Reachable p { w with device := w.device.handleRead p read }
  | write {w : World} {d : Device} (write : MmioWrite) : Reachable p w →
      w.device.handleWrite p write = .ok d → Reachable p ⟨d, w.pushed.write p write⟩

/-- In every reachable state, by induction on the run. -/
theorem World.Reachable.ok {p : Params} {w : World} (hw : Reachable p w) :
    Ok p w.device w.pushed := by
  induction hw with
  | start hd =>
      rw [construct] at hd
      split_ifs at hd
      cases hd
      exact ⟨by simp [Params.cap], rfl, le_rfl, rfl, rfl⟩
  | read read _ ih => exact ih.handleRead read
  | write write _ hwrite ih =>
      obtain ⟨d', hd', hok⟩ := ih.handleWrite write
      obtain rfl : _ = d' := Except.ok.inj (hwrite.symm.trans hd')
      exact hok

/-- The file holds the flushed prefix of the capture. -/
def Persisted (d : Device) : Prop :=
  d.flushedBytes ≤ d.captured.length ∧ d.file = d.captured.take d.flushedBytes ∧
    d.accepted = d.captured.length

/-- A pushed byte is either captured and counted as accepted, or counted as dropped. -/
theorem pushByte_counts (p : Params) (d : Device) (b : UInt8) :
    ((d.pushByte p b).captured = d.captured ++ [b] ∧
      (d.pushByte p b).stats.bytesAccepted = d.stats.bytesAccepted + 1 ∧
      (d.pushByte p b).stats.droppedBytes = d.stats.droppedBytes) ∨
    ((d.pushByte p b).captured = d.captured ∧
      (d.pushByte p b).stats.bytesAccepted = d.stats.bytesAccepted ∧
      (d.pushByte p b).stats.droppedBytes = d.stats.droppedBytes + 1) := by
  rw [Device.pushByte]
  split_ifs
  · exact .inr ⟨rfl, rfl, rfl⟩
  · exact .inl ⟨rfl, rfl, rfl⟩

/-- **The capture file equals what the guest pushed**: in every state of every run the file is the
flushed prefix of the capture, every pushed byte is counted as accepted or as dropped, no write
stops the device, and at the end the file is what was pushed since the last truncation, up to the
cap. -/
theorem sink_captures {p : Params} {w : World} (hw : w.Reachable p) :
    Persisted w.device ∧
    w.device.stats.bytesAccepted + w.device.stats.droppedBytes = w.pushed.total ∧
    (∀ b, ((w.device.pushByte p b).captured = w.device.captured ++ [b] ∧
        (w.device.pushByte p b).stats.bytesAccepted = w.device.stats.bytesAccepted + 1 ∧
        (w.device.pushByte p b).stats.droppedBytes = w.device.stats.droppedBytes) ∨
      ((w.device.pushByte p b).captured = w.device.captured ∧
        (w.device.pushByte p b).stats.bytesAccepted = w.device.stats.bytesAccepted ∧
        (w.device.pushByte p b).stats.droppedBytes = w.device.stats.droppedBytes + 1)) ∧
    (∀ write, ∃ d, w.device.handleWrite p write = .ok d) ∧
    ∃ d, w.device.finish = .ok d ∧ Persisted d ∧ d.stats = w.device.stats ∧
      d.file = if p.maxBytes ≠ 0 then w.pushed.bytes.take p.maxBytes.toNat
        else w.pushed.bytes := by
  have hok := hw.ok
  refine ⟨⟨hok.flushed_le, hok.file, hok.accepted⟩, hok.counted, pushByte_counts p w.device,
    fun write => ?_, ?_⟩
  · obtain ⟨d, hd, -⟩ := hok.handleWrite write
    exact ⟨d, hd⟩
  · obtain ⟨d, hd, hfin, hfile, hstats⟩ := hok.writeFile
    exact ⟨d, hd, ⟨hfin.flushed_le, hfin.file, hfin.accepted⟩, hstats, hfile.trans hok.captured⟩

/-- A capture of at most three bytes. -/
def cappedParams : Params where
  maxBytes := 3
  sinkFile := "capture.bin"
  writable := true
  hasIface := true

/-- Two bytes are pushed and flushed, then two more, the last of which is dropped. -/
theorem sink_captures_capped : ∃ w d, World.Reachable cappedParams w ∧ w.device.file = [7, 8] ∧
    w.device.finish = .ok d ∧ d.file = [7, 8, 9] ∧ w.pushed.total = 4 := by
  have hpush : World.Reachable cappedParams _ :=
    .write ⟨0, REG_DATA, 2, [7, 8], false⟩ (.start (d := {}) rfl) rfl
  have hflush : World.Reachable cappedParams _ :=
    .write ⟨1, REG_CTRL, 4, [1, 0, 0, 0], false⟩ hpush rfl
  have hw : World.Reachable cappedParams _ :=
    .write ⟨2, REG_DATA, 2, [9, 10], true⟩ hflush rfl
  obtain ⟨-, -, -, -, d, hfin, -, -, hfile⟩ := sink_captures hw
  exact ⟨_, d, hw, rfl, hfin, hfile, rfl⟩

end Quetz.SinkDevice
