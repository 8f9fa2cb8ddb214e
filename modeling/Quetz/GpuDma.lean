import Mathlib.Data.List.Nodup
import Mathlib.Data.List.Perm.Basic
import Quetz.GpuDevice
import Quetz.Lib.Tiling

/-!
# Kernel DMA of the GPU Device

The device of `Quetz.GpuDevice` beside a memory. The memory answers the requests in flight in
any order, a read with the bytes at its address and a write by storing its bytes; between the
answers the guest accesses registers, the clock ticks and other agents store to memory. The
one assumption is that nobody stores to the source of an operation while its reads are in
flight (`Allowed`).

`Device.history` collects from the trace what the operation of the last doorbell did: the
requests it sent, the calls of the kernel and the runs of `opFinish`. A past operation was the
operation of the last doorbell in every state up to the next doorbell, so a statement about
the current operation of every reachable state is one about all operations.

## Main results

* `Inv.step`: every event keeps the invariant of the four stages of an operation.
* `kernel_dma_correct`: the input, the requests and the writeback of every operation.
-/

namespace Quetz.GpuDevice

open ByteMemory Tiling

/-! ### The device and its memory -/

/-- The device, the memory, and the memory as it was at the last doorbell. -/
structure World where
  device : Device
  mem : ℕ → UInt8
  source : ℕ → UInt8

/-- What can happen next. -/
inductive Event where
  /-- The guest writes or reads a register. -/
  | write (write : MmioWrite)
  | read (read : MmioRead)
  | tick
  /-- The memory answers the request at this position of the link. -/
  | answer (i : ℕ)
  /-- Another agent stores to memory. -/
  | store (addr : ℕ) (data : List UInt8)

/-- The memory answers the request at position `i` of the link. -/
def World.answer (p : Params) (w : World) (i : ℕ) : Except String World :=
  match w.device.memIface[i]?, p.kernel with
  | some (.read id addr size), some k => do
    let d := { w.device with memIface := w.device.memIface.eraseIdx i }
    let d ← d.opOnReadResp p k id (readSpan w.mem addr size)
    .ok { w with device := d }
  | some (.write _ addr data), _ =>
    let d := { w.device with memIface := w.device.memIface.eraseIdx i }
    .ok { w with device := d.opOnWriteResp p, mem := writeSpan w.mem addr data }
  | _, _ => .ok w

/-- One event. -/
def World.step (p : Params) (w : World) : Event → Except String World
  | .write write => do
    let d ← w.device.handleWrite p write
    .ok { w with
      device := d
      source := if write.pAddr - p.baseAddr = REG_DOORBELL then w.mem else w.source }
  | .read read => .ok { w with device := w.device.handleRead p read }
  | .tick => .ok { w with device := w.device.tickBusy p }
  | .answer i => w.answer p i
  | .store addr data => .ok { w with mem := writeSpan w.mem addr data }

/-- A store of another agent keeps off the source while reads are in flight. -/
def Allowed (w : World) : Event → Prop
  | .store addr data =>
    w.device.op.phase = .reading → 0 < w.device.op.outstanding →
      addr + data.length ≤ w.device.op.args.srcAddr.toNat ∨
        w.device.op.args.srcAddr.toNat + w.device.op.inBytes ≤ addr
  | _ => True

/-- The states a constructed device reaches beside the memory `m`. -/
inductive Reachable (p : Params) (m : ℕ → UInt8) : World → Prop
  | start {d : Device} : construct p = .ok d → Reachable p m ⟨d, m, m⟩
  | step {w w' : World} {e : Event} : Reachable p m w → Allowed w e → w.step p e = .ok w' →
      Reachable p m w'

/-! ### The history of an operation -/

/-- What an operation did so far. -/
structure History where
  /-- The requests it sent, oldest first. -/
  sends : List MemRequest := []
  /-- The calls of the kernel's `compute`. -/
  computes : List (KernelArgs × List UInt8) := []
  /-- The runs of `opFinish`. -/
  finishes : ℕ := 0

/-- The history after one more action; a doorbell begins a new one. -/
def History.next (h : History) : Action → History
  | .launch _ => {}
  | .memSend r => { h with sends := h.sends ++ [r] }
  | .compute args input => { h with computes := h.computes ++ [(args, input)] }
  | .finish => { h with finishes := h.finishes + 1 }
  | _ => h

/-- The history of the operation of the last doorbell. -/
def Device.history (d : Device) : History := d.trace.foldl History.next {}

/-- The writes of a list of requests. -/
def writes (rs : List MemRequest) : List (ℕ × List UInt8) :=
  rs.filterMap fun
    | .write _ addr data => some (addr, data)
    | .read .. => none

/-- The address range of a request. -/
def MemRequest.chunk : MemRequest → Chunk
  | .read _ addr size => (addr, size)
  | .write _ addr data => (addr, data.length)

/-- The id of a request. -/
def MemRequest.id : MemRequest → ℕ
  | .read id .. => id
  | .write id .. => id

@[simp] theorem writes_append_read (rs : List MemRequest) (id addr n : ℕ) :
    writes (rs ++ [.read id addr n]) = writes rs := by
  simp [writes]

@[simp] theorem writes_append_write (rs : List MemRequest) (id addr : ℕ) (data : List UInt8) :
    writes (rs ++ [.write id addr data]) = writes rs ++ [(addr, data)] := by
  simp [writes]

/-! ### The part of the device that DMA depends on -/

/-- The fields of the device the stages of an operation are told from. -/
structure View where
  op : Op
  busy : ℕ
  link : List MemRequest
  nextId : ℕ
  history : History

/-- The DMA view of a device. -/
def Device.view (d : Device) : View :=
  ⟨d.op, d.busyUntilClk, d.memIface, d.nextReqId, d.history⟩

namespace Device

variable (p : Params) (d : Device)

@[simp] theorem history_emit (a : Action) : (d.emit a).history = d.history.next a := by
  simp [history, emit]

theorem view_emit (a : Action) (h : d.history.next a = d.history) : (d.emit a).view = d.view := by
  simp only [view, history_emit, h]
  rfl

theorem view_quiet {d d' : Device} (h : Quiet d d') : d'.view = d.view := by
  obtain ⟨_, _, _, _, as, has, rfl⟩ := h
  have hnone : ∀ h : History, as.foldl History.next h = h := by
    clear d
    intro h
    induction as with
    | nil => rfl
    | cons a as ih =>
        have hsilent := has a List.mem_cons_self
        have hfirst : h.next a = h := by cases a <;> first | rfl | cases hsilent
        rw [List.foldl_cons, hfirst]
        exact ih fun b hb => has b (List.mem_cons_of_mem _ hb)
  simp [view, history, hnone]

@[simp] theorem view_updatePrimaryHold (b : Bool) : (d.updatePrimaryHold b).view = d.view :=
  view_quiet (.updatePrimaryHold d b)

@[simp] theorem view_raiseIrqOnRetire : (d.raiseIrqOnRetire p).view = d.view :=
  view_quiet (.raiseIrqOnRetire p d)

@[simp] theorem view_releaseOpDoorbell : d.releaseOpDoorbell.view = d.view := by
  unfold releaseOpDoorbell
  split
  · exact view_emit d _ rfl
  · rfl

/-- A rejected operation returns to idle; its history stays. -/
theorem view_opReject (why : String) :
    (d.opReject p why).view = { d.view with op := { d.op with phase := .idle }, busy := 0 } := by
  have hview := view_quiet (.emitEvent p d (.error "operation-rejected"))
  simp only [opReject, view_updatePrimaryHold, view_releaseOpDoorbell]
  simp only [view, View.mk.injEq] at hview ⊢
  obtain ⟨hop, -, hlink, hid, hhist⟩ := hview
  refine ⟨by rw [← hop]; rfl, trivial, hlink, hid, ?_⟩
  rw [← hhist]
  exact history_emit _ _

/-- A finished operation returns to idle and counts as finished. -/
theorem view_opFinish :
    (d.opFinish p).view = { d.view with
      op := { d.op with phase := .idle }
      history := { d.history with finishes := d.history.finishes + 1 } } := by
  have hview := view_quiet (.emitEvent p d .completed)
  simp only [opFinish, view_updatePrimaryHold, view_raiseIrqOnRetire, view_releaseOpDoorbell]
  simp only [view, View.mk.injEq] at hview ⊢
  obtain ⟨hop, hbusy, hlink, hid, hhist⟩ := hview
  refine ⟨by rw [← hop]; rfl, hbusy, hlink, hid, ?_⟩
  rw [← hhist]
  exact history_emit _ _

/-- One turn of the read loop, on the view. -/
theorem view_opIssueRead :
    (d.opIssueRead p).view =
      let off := d.op.nextDmaOff
      let addr := wrap64 (d.op.args.srcAddr.toNat + off)
      let n := memoryChunkSize addr (d.op.inBytes - off) p.lineSize.toNat kOpDmaChunk
      let r := MemRequest.read d.nextReqId addr n
      { d.view with
        op := { d.op with
          reqOff := Function.update d.op.reqOff d.nextReqId (some off)
          nextDmaOff := off + n
          outstanding := d.op.outstanding + 1 }
        link := d.memIface ++ [r]
        nextId := d.nextReqId + 1
        history := { d.history with sends := d.history.sends ++ [r] } } := by
  simp only [view, View.mk.injEq]
  exact ⟨rfl, rfl, rfl, rfl, history_emit _ _⟩

/-- One turn of the write loop, on the view. -/
theorem view_opIssueWrite :
    (d.opIssueWrite p).view =
      let off := d.op.nextDmaOff
      let addr := wrap64 (d.op.args.dstAddr.toNat + off)
      let n := memoryChunkSize addr (d.op.output.length - off) p.lineSize.toNat kOpDmaChunk
      let r := MemRequest.write d.nextReqId addr ((d.op.output.drop off).take n)
      { d.view with
        op := { d.op with nextDmaOff := off + n, outstanding := d.op.outstanding + 1 }
        link := d.memIface ++ [r]
        nextId := d.nextReqId + 1
        history := { d.history with sends := d.history.sends ++ [r] } } := by
  simp only [view, View.mk.injEq]
  exact ⟨rfl, rfl, rfl, rfl, history_emit _ _⟩

end Device

/-! ### The stages of an operation -/

/-- A request is not empty, not longer than a DMA chunk, and lies in one line. -/
def RequestOk (p : Params) (r : MemRequest) : Prop :=
  0 < r.chunk.2 ∧ r.chunk.2 ≤ kOpDmaChunk ∧
    (p.lineSize.toNat ≠ 0 →
      (r.chunk.1 + r.chunk.2 - 1) / p.lineSize.toNat = r.chunk.1 / p.lineSize.toNat)

/-- The input of an operation in the memory `m`. -/
def inputOf (k : QuetzKernel) (m : ℕ → UInt8) (args : KernelArgs) : List UInt8 :=
  readSpan m args.srcAddr.toNat (k.inputBytes args).1.toNat

/-- The output of an operation whose input is in the memory `m`. -/
def outputOf (k : QuetzKernel) (m : ℕ → UInt8) (args : KernelArgs) : List UInt8 :=
  (k.compute args (inputOf k m args)).2

/-- The writes cover `dst` up to `dst + off` from left to right with bytes of `out`. -/
structure Written (ws : List (ℕ × List UInt8)) (dst : ℕ) (out : List UInt8) (off : ℕ) : Prop where
  tiles : Tiles (ws.map fun wr => (wr.1, wr.2.length)) dst (dst + off)
  bytes : ∀ wr ∈ ws, wr.2 = (out.drop (wr.1 - dst)).take wr.2.length

variable (p : Params) (k : QuetzKernel) (source : ℕ → UInt8)

/-- Reads are being issued and answered. A byte whose read was issued is still covered by a
request in flight or already in its place. -/
structure Fetching (x : View) : Prop where
  phase : x.op.phase = .reading
  busy : x.busy = 0
  inBytes : x.op.inBytes = (k.inputBytes x.op.args).1.toNat
  span : x.op.args.srcAddr.toNat + x.op.inBytes ≤ 2 ^ 64
  length : x.op.input.length = x.op.inBytes
  off_le : x.op.nextDmaOff ≤ x.op.inBytes
  count : x.op.outstanding = x.link.length
  window : x.link.length ≤ kMaxOpDmaOutstanding
  reads : ∀ r ∈ x.link, ∃ off n, r = .read r.id (x.op.args.srcAddr.toNat + off) n ∧
    x.op.reqOff r.id = some off ∧ 0 < n ∧ off + n ≤ x.op.nextDmaOff
  fresh : ∀ r ∈ x.link, r.id < x.nextId
  nodup : (x.link.map MemRequest.id).Nodup
  got : ∀ i < x.op.nextDmaOff,
    (∃ r ∈ x.link, r.chunk.Holds (x.op.args.srcAddr.toNat + i)) ∨
      x.op.input[i]? = some (source (x.op.args.srcAddr.toNat + i))
  sends : ∀ r ∈ x.history.sends, RequestOk p r
  noWrites : writes x.history.sends = []
  noCompute : x.history.computes = []
  noFinish : x.history.finishes = 0

/-- The kernel has run and the device is busy for the modelled latency. -/
structure Computed (x : View) : Prop where
  phase : x.op.phase = .reading
  output : x.op.output = outputOf k source x.op.args
  nonempty : x.op.output ≠ []
  idle : x.op.outstanding = 0
  link : x.link = []
  sends : ∀ r ∈ x.history.sends, RequestOk p r
  noWrites : writes x.history.sends = []
  computes : x.history.computes = [(x.op.args, inputOf k source x.op.args)]
  noFinish : x.history.finishes = 0

/-- Writes are being issued and answered. -/
structure Writing (x : View) : Prop where
  phase : x.op.phase = .writing
  busy : x.busy = 0
  output : x.op.output = outputOf k source x.op.args
  span : x.op.args.dstAddr.toNat + x.op.output.length ≤ 2 ^ 64
  off_le : x.op.nextDmaOff ≤ x.op.output.length
  count : x.op.outstanding = x.link.length
  window : x.link.length ≤ kMaxOpDmaOutstanding
  isWrite : ∀ r ∈ x.link, ∃ addr data, r = .write r.id addr data ∧ 0 < data.length
  sends : ∀ r ∈ x.history.sends, RequestOk p r
  written : Written (writes x.history.sends) x.op.args.dstAddr.toNat x.op.output x.op.nextDmaOff
  computes : x.history.computes = [(x.op.args, inputOf k source x.op.args)]
  noFinish : x.history.finishes = 0

/-- No operation is in progress: the last one finished, or it was rejected before its first
write, or there was none. -/
structure Settled (x : View) : Prop where
  phase : x.op.phase = .idle
  busy : x.busy = 0
  link : x.link = []
  sends : ∀ r ∈ x.history.sends, RequestOk p r
  outcome :
    (x.history.finishes = 1 ∧
      x.history.computes = [(x.op.args, inputOf k source x.op.args)] ∧
      Written (writes x.history.sends) x.op.args.dstAddr.toNat (outputOf k source x.op.args)
        (outputOf k source x.op.args).length) ∨
    (x.history.finishes = 0 ∧ writes x.history.sends = [] ∧
      (x.history.computes = [] ∨
        x.history.computes = [(x.op.args, inputOf k source x.op.args)]))

/-! ### Issuing reads -/

variable {p k source}

/-- The bytes of a transfer of `total` bytes that are not answered yet. -/
def View.left (x : View) (total : ℕ) : ℕ :=
  (x.link.map fun r => r.chunk.2).sum + (total - x.op.nextDmaOff)

/-- The chunk cut off the rest of a transfer makes a proper request. -/
theorem requestOk_of_chunk {addr rest n : ℕ} {r : MemRequest} (hr : r.chunk = (addr, n))
    (hn : n = memoryChunkSize addr rest p.lineSize.toNat kOpDmaChunk) (hrest : 0 < rest) :
    RequestOk p r := by
  rw [RequestOk, hr, hn]
  exact ⟨memoryChunkSize_pos hrest (by decide), memoryChunkSize_le.2,
    fun hline => memoryChunkSize_same_line hline hrest (by decide)⟩

/-- One turn of the read loop keeps the invariant. -/
theorem Fetching.issue {d : Device} (h : Fetching p k source d.view)
    (hoff : d.op.nextDmaOff < d.op.inBytes) (hout : d.op.outstanding < kMaxOpDmaOutstanding) :
    Fetching p k source (d.opIssueRead p).view ∧
      (d.opIssueRead p).view.left d.op.inBytes = d.view.left d.op.inBytes := by
  obtain ⟨hphase, hbusy, hin, hspan, hlen, hle, hcount, hwin, hreads, hfresh, hnodup, hgot, hsends,
    hnw, hnc, hnf⟩ := h
  rw [Device.view_opIssueRead]
  have haddr : wrap64 (d.op.args.srcAddr.toNat + d.op.nextDmaOff) =
      d.op.args.srcAddr.toNat + d.op.nextDmaOff := by
    refine wrap64_of_le ?_
    have : d.op.args.srcAddr.toNat + d.op.inBytes ≤ 2 ^ 64 := hspan
    simp only [uint64Max]
    omega
  simp only [haddr]
  set n := memoryChunkSize (d.op.args.srcAddr.toNat + d.op.nextDmaOff)
    (d.op.inBytes - d.op.nextDmaOff) p.lineSize.toNat kOpDmaChunk with hn
  have hpos : 0 < n := memoryChunkSize_pos (by omega) (by decide)
  have hnle : n ≤ d.op.inBytes - d.op.nextDmaOff := memoryChunkSize_le.1
  simp only [Device.view] at hphase hbusy hin hspan hlen hle hcount hwin hreads hfresh hnodup
  simp only [Device.view] at hgot hsends hnw hnc hnf
  refine ⟨⟨hphase, hbusy, hin, hspan, hlen, ?_, ?_, ?_, ?_, ?_, ?_, ?_, ?_, ?_, hnc, hnf⟩, ?_⟩
  · simp only
    omega
  · simp [hcount]
  · simp only [List.length_append, List.length_singleton]
    omega
  · intro r hr
    simp only [List.mem_append, List.mem_singleton] at hr
    rcases hr with hr | rfl
    · obtain ⟨off, m, hrd, hoff', hm, hm'⟩ := hreads r hr
      refine ⟨off, m, hrd, ?_, hm, by simp only; omega⟩
      rw [← hoff']
      exact Function.update_of_ne (Nat.ne_of_lt (hfresh r hr)) _ _
    · exact ⟨d.op.nextDmaOff, n, rfl, Function.update_self .., hpos, Nat.le_refl _⟩
  · intro r hr
    simp only [List.mem_append, List.mem_singleton] at hr
    rcases hr with hr | rfl
    · exact Nat.lt_succ_of_lt (hfresh r hr)
    · exact Nat.lt_succ_self _
  · simp only [List.map_append, List.map_cons, List.map_nil]
    refine List.nodup_append.mpr ⟨hnodup, List.nodup_singleton _, ?_⟩
    intro a ha b hb
    obtain ⟨r, hr, rfl⟩ := List.mem_map.mp ha
    rw [List.mem_singleton.mp hb]
    exact Nat.ne_of_lt (hfresh r hr)
  · intro i hi
    simp only at hi
    by_cases hold : i < d.op.nextDmaOff
    · rcases hgot i hold with ⟨r, hr, hc⟩ | hb
      · exact Or.inl ⟨r, List.mem_append_left _ hr, hc⟩
      · exact Or.inr hb
    · refine Or.inl ⟨_, List.mem_append_right _ (List.mem_singleton_self _), ?_⟩
      simp only [MemRequest.chunk, Chunk.Holds]
      omega
  · intro r hr
    rcases List.mem_append.mp hr with hr | hr
    · exact hsends r hr
    · rw [List.mem_singleton.mp hr]
      exact requestOk_of_chunk rfl hn (by omega)
  · simp only [writes_append_read]
    exact hnw
  · simp only [View.left, Device.view, List.map_append, List.map_cons, List.map_nil,
      List.sum_append, List.sum_singleton, MemRequest.chunk]
    omega

/-- The read window keeps the invariant, and nothing else of the operation changes. -/
theorem Fetching.issues {d : Device} (h : Fetching p k source d.view) (fuel : ℕ) :
    Fetching p k source (d.opIssueReads p fuel).view ∧
      (d.opIssueReads p fuel).op.args = d.op.args ∧
      (d.opIssueReads p fuel).op.inBytes = d.op.inBytes ∧
      (d.opIssueReads p fuel).view.left d.op.inBytes = d.view.left d.op.inBytes := by
  induction fuel generalizing d with
  | zero => exact ⟨h, rfl, rfl, rfl⟩
  | succ fuel ih =>
      rw [Device.opIssueReads]
      by_cases hcond : d.op.nextDmaOff < d.op.inBytes ∧ d.op.outstanding < kMaxOpDmaOutstanding
      · rw [if_pos hcond]
        obtain ⟨hissue, hleft⟩ := h.issue hcond.1 hcond.2
        obtain ⟨hf, hargs, hin, hleft'⟩ := ih hissue
        exact ⟨hf, hargs, hin, hleft'.trans hleft⟩
      · rw [if_neg hcond]
        exact ⟨h, rfl, rfl, rfl⟩

theorem Fetching.readWindow {d : Device} (h : Fetching p k source d.view) :
    Fetching p k source (d.opIssueReadWindow p).view ∧
      (d.opIssueReadWindow p).op.args = d.op.args ∧
      (d.opIssueReadWindow p).op.inBytes = d.op.inBytes ∧
      (d.opIssueReadWindow p).view.left d.op.inBytes = d.view.left d.op.inBytes :=
  h.issues _

/-! ### Receiving reads -/

/-- The view after the answer to the `i`-th request in flight, a read issued for `off`. -/
def View.receive (x : View) (i id off : ℕ) (data : List UInt8) : View :=
  { x with
    op := { x.op with
      reqOff := Function.update x.op.reqOff id none
      input := overwrite x.op.input off (data.take (x.op.inBytes - off))
      outstanding := x.op.outstanding - 1 }
    link := x.link.eraseIdx i }

/-- The link is the answered request and the others. -/
theorem perm_eraseIdx {link : List MemRequest} {i : ℕ} {r : MemRequest} (hi : link[i]? = some r) :
    (r :: link.eraseIdx i).Perm link := by
  obtain ⟨hlt, rfl⟩ := List.getElem?_eq_some_iff.mp hi
  exact List.getElem_cons_eraseIdx_perm hlt

/-- An answered read finds its offset, and its bytes go to their place. -/
theorem Fetching.receive {x : View} (h : Fetching p k source x) {mem : ℕ → UInt8}
    {i id addr n : ℕ} (hi : x.link[i]? = some (.read id addr n))
    (hmem : ∀ j < x.op.inBytes,
      mem (x.op.args.srcAddr.toNat + j) = source (x.op.args.srcAddr.toNat + j)) :
    ∃ off, x.op.reqOff id = some off ∧
      Fetching p k source (x.receive i id off (readSpan mem addr n)) ∧
      (x.receive i id off (readSpan mem addr n)).left x.op.inBytes < x.left x.op.inBytes := by
  obtain ⟨hphase, hbusy, hin, hspan, hlen, hle, hcount, hwin, hreads, hfresh, hnodup, hgot, hsends,
    hnw, hnc, hnf⟩ := h
  have hperm := perm_eraseIdx hi
  have hmemr : ∀ r, r ∈ x.link ↔ r = .read id addr n ∨ r ∈ x.link.eraseIdx i := fun r => by
    rw [← hperm.mem_iff, List.mem_cons]
  obtain ⟨off, n', hrd, hoff, hn, hnle⟩ := hreads (.read id addr n) ((hmemr _).mpr (Or.inl rfl))
  obtain ⟨-, rfl, rfl⟩ := MemRequest.read.inj hrd
  -- The other requests in flight have other ids.
  have hids := (hperm.map MemRequest.id).nodup_iff.mpr hnodup
  rw [List.map_cons, List.nodup_cons] at hids
  have hne : ∀ r ∈ x.link.eraseIdx i, r.id ≠ id := fun r hr heq =>
    hids.1 (List.mem_map.mpr ⟨r, hr, heq⟩)
  have htake : (readSpan mem (x.op.args.srcAddr.toNat + off) n).take (x.op.inBytes - off) =
      readSpan mem (x.op.args.srcAddr.toNat + off) n := by
    refine List.take_of_length_le ?_
    rw [length_readSpan]
    omega
  have hfits : off + (readSpan mem (x.op.args.srcAddr.toNat + off) n).length ≤
      x.op.input.length := by
    rw [length_readSpan]
    omega
  have hlength := hperm.length_eq
  rw [List.length_cons] at hlength
  refine ⟨off, hoff, ?_, ?_⟩
  · simp only [View.receive, htake]
    refine ⟨hphase, hbusy, hin, hspan, ?_, hle, ?_, ?_, ?_, ?_, hids.2, ?_, hsends, hnw, hnc, hnf⟩
    · simp only [length_overwrite hfits, hlen]
    · simp only
      omega
    · simp only
      omega
    · intro r hr
      obtain ⟨off', m, h₁, h₂, h₃⟩ := hreads r ((hmemr r).mpr (Or.inr hr))
      refine ⟨off', m, h₁, ?_, h₃⟩
      rw [← h₂]
      exact Function.update_of_ne (hne r hr) _ _
    · exact fun r hr => hfresh r ((hmemr r).mpr (Or.inr hr))
    · intro j hj
      simp only at hj ⊢
      rw [getElem?_overwrite hfits, length_readSpan]
      by_cases hcov : off ≤ j ∧ j < off + n
      · right
        rw [if_pos hcov, List.getElem?_eq_getElem (by rw [length_readSpan]; omega),
          getElem_readSpan, ← hmem j (by omega)]
        congr 2
        omega
      · rw [if_neg hcov]
        rcases hgot j hj with ⟨r, hr, hc⟩ | hb
        · rcases (hmemr r).mp hr with rfl | hr
          · simp only [MemRequest.chunk, Chunk.Holds] at hc
            omega
          · exact Or.inl ⟨r, hr, hc⟩
        · exact Or.inr hb
  · have hsum := (hperm.map fun r => r.chunk.2).sum_nat
    have hsize : (MemRequest.read id (x.op.args.srcAddr.toNat + off) n).chunk.2 = n := rfl
    simp only [List.map_cons, List.sum_cons] at hsum
    simp only [View.left, View.receive]
    omega

/-- When every read is answered the buffer is the input. -/
theorem Fetching.complete {x : View} (h : Fetching p k source x) (hout : x.op.outstanding = 0)
    (hoff : x.op.nextDmaOff = x.op.inBytes) :
    x.link = [] ∧ x.op.input = inputOf k source x.op.args := by
  have hlink : x.link = [] := List.length_eq_zero_iff.mp (h.count ▸ hout)
  refine ⟨hlink, List.ext_getElem? fun i => ?_⟩
  by_cases hi : i < x.op.inBytes
  · rcases h.got i (hoff ▸ hi) with ⟨r, hr, -⟩ | hb
    · rw [hlink] at hr
      cases hr
    · rw [hb, inputOf, ← h.inBytes,
        List.getElem?_eq_getElem (by rw [length_readSpan]; exact hi), getElem_readSpan]
  · rw [List.getElem?_eq_none (by rw [h.length]; omega),
      List.getElem?_eq_none (by rw [inputOf, length_readSpan, ← h.inBytes]; omega)]

/-! ### Issuing and answering writes -/

/-- One turn of the write loop keeps the invariant. -/
theorem Writing.issue {d : Device} (h : Writing p k source d.view)
    (hoff : d.op.nextDmaOff < d.op.output.length)
    (hout : d.op.outstanding < kMaxOpDmaOutstanding) :
    Writing p k source (d.opIssueWrite p).view ∧
      (d.opIssueWrite p).view.left d.op.output.length = d.view.left d.op.output.length := by
  obtain ⟨hphase, hbusy, hoo, hspan, hle, hcount, hwin, hwr, hsends, hwritten, hc, hnf⟩ := h
  rw [Device.view_opIssueWrite]
  have haddr : wrap64 (d.op.args.dstAddr.toNat + d.op.nextDmaOff) =
      d.op.args.dstAddr.toNat + d.op.nextDmaOff := by
    refine wrap64_of_le ?_
    have : d.op.args.dstAddr.toNat + d.op.output.length ≤ 2 ^ 64 := hspan
    simp only [uint64Max]
    omega
  simp only [haddr]
  set n := memoryChunkSize (d.op.args.dstAddr.toNat + d.op.nextDmaOff)
    (d.op.output.length - d.op.nextDmaOff) p.lineSize.toNat kOpDmaChunk with hn
  have hpos : 0 < n := memoryChunkSize_pos (by omega) (by decide)
  have hnle : n ≤ d.op.output.length - d.op.nextDmaOff := memoryChunkSize_le.1
  have hdata : ((d.op.output.drop d.op.nextDmaOff).take n).length = n := by
    rw [List.length_take, List.length_drop]
    omega
  simp only [Device.view] at hphase hbusy hoo hspan hle hcount hwin hwr hsends hwritten hc hnf
  refine ⟨⟨hphase, hbusy, hoo, hspan, ?_, ?_, ?_, ?_, ?_, ?_, hc, hnf⟩, ?_⟩
  · simp only
    omega
  · simp [hcount]
  · simp only [List.length_append, List.length_singleton]
    omega
  · intro r hr
    rcases List.mem_append.mp hr with hr | hr
    · exact hwr r hr
    · rw [List.mem_singleton.mp hr]
      exact ⟨_, _, rfl, by rw [hdata]; exact hpos⟩
  · intro r hr
    rcases List.mem_append.mp hr with hr | hr
    · exact hsends r hr
    · rw [List.mem_singleton.mp hr]
      exact requestOk_of_chunk (by simp only [MemRequest.chunk, hdata]) hn (by omega)
  · simp only [writes_append_write]
    constructor
    · rw [List.map_append, List.map_cons, List.map_nil, hdata, ← Nat.add_assoc]
      exact hwritten.tiles.snoc hpos
    · intro wr hmem
      rcases List.mem_append.mp hmem with hmem | hmem
      · exact hwritten.bytes wr hmem
      · rw [List.mem_singleton.mp hmem]
        simp only [hdata, Nat.add_sub_cancel_left]
  · simp only [View.left, Device.view, List.map_append, List.map_cons, List.map_nil,
      List.sum_append, List.sum_singleton, MemRequest.chunk, hdata]
    omega

/-- The write window keeps the invariant, and nothing else of the operation changes. -/
theorem Writing.issues {d : Device} (h : Writing p k source d.view) (fuel : ℕ) :
    Writing p k source (d.opIssueWrites p fuel).view ∧
      (d.opIssueWrites p fuel).op.args = d.op.args ∧
      (d.opIssueWrites p fuel).op.output = d.op.output ∧
      (d.opIssueWrites p fuel).view.left d.op.output.length = d.view.left d.op.output.length := by
  induction fuel generalizing d with
  | zero => exact ⟨h, rfl, rfl, rfl⟩
  | succ fuel ih =>
      rw [Device.opIssueWrites]
      by_cases hcond :
          d.op.nextDmaOff < d.op.output.length ∧ d.op.outstanding < kMaxOpDmaOutstanding
      · rw [if_pos hcond]
        obtain ⟨hissue, hleft⟩ := h.issue hcond.1 hcond.2
        obtain ⟨hf, hargs, hout, hleft'⟩ := ih hissue
        exact ⟨hf, hargs, hout, hleft'.trans hleft⟩
      · rw [if_neg hcond]
        exact ⟨h, rfl, rfl, rfl⟩

theorem Writing.writeWindow {d : Device} (h : Writing p k source d.view) :
    Writing p k source (d.opIssueWriteWindow p).view ∧
      (d.opIssueWriteWindow p).op.args = d.op.args ∧
      (d.opIssueWriteWindow p).op.output = d.op.output ∧
      (d.opIssueWriteWindow p).view.left d.op.output.length =
        d.view.left d.op.output.length :=
  h.issues _

/-- The view after the answer to the `i`-th request in flight, a write. -/
def View.stored (x : View) (i : ℕ) : View :=
  { x with op := { x.op with outstanding := x.op.outstanding - 1 }, link := x.link.eraseIdx i }

/-- An answered write leaves the link. -/
theorem Writing.stored {x : View} (h : Writing p k source x) {i : ℕ} {r : MemRequest}
    (hi : x.link[i]? = some r) :
    Writing p k source (x.stored i) ∧
      (x.stored i).left x.op.output.length < x.left x.op.output.length := by
  obtain ⟨hphase, hbusy, hoo, hspan, hle, hcount, hwin, hwr, hsends, hwritten, hc, hnf⟩ := h
  have hperm := perm_eraseIdx hi
  have hlength := hperm.length_eq
  rw [List.length_cons] at hlength
  have hmemr : ∀ r' ∈ x.link.eraseIdx i, r' ∈ x.link := fun _ => List.mem_of_mem_eraseIdx
  obtain ⟨addr, data, hr, hpos⟩ := hwr r (List.mem_of_getElem? hi)
  refine ⟨⟨hphase, hbusy, hoo, hspan, hle, ?_, ?_, fun r' hr' => hwr r' (hmemr r' hr'), hsends,
    hwritten, hc, hnf⟩, ?_⟩
  · simp only [View.stored]
    omega
  · simp only [View.stored]
    omega
  · have hsum := (hperm.map fun r => r.chunk.2).sum_nat
    have hsize : r.chunk.2 = data.length := by rw [hr]; rfl
    simp only [List.map_cons, List.sum_cons] at hsum
    simp only [View.left, View.stored]
    omega

/-! ### The invariant -/

/-- The stage an operation is in. While reads are in flight the source is as it was at the
doorbell. -/
inductive Stage (p : Params) (k : QuetzKernel) (source mem : ℕ → UInt8) (x : View) : Prop
  | settled (h : Settled p k source x)
  | fetching (h : Fetching p k source x) (hpos : 0 < x.op.outstanding)
      (hmem : ∀ j < x.op.inBytes,
        mem (x.op.args.srcAddr.toNat + j) = source (x.op.args.srcAddr.toNat + j))
  | computed (h : Computed p k source x)
  | writing (h : Writing p k source x) (hpos : 0 < x.op.outstanding)

/-- The range check keeps a span inside the address space. -/
theorem span_of_dmaRangeOk {addr : UInt64} {len : ℕ}
    (h : Device.dmaRangeOk p addr.toNat len = true) : addr.toNat + len ≤ 2 ^ 64 := by
  have haddr : addr.toNat < 2 ^ 64 := addr.toNat_lt
  have hvalid : memorySpanValid addr.toNat len = true := by
    by_contra hneg
    simp [Device.dmaRangeOk, hneg] at h
  simp only [memorySpanValid, uint64Max, Bool.or_eq_true, beq_iff_eq, decide_eq_true_eq] at hvalid
  omega

/-- The read window leaves a request in flight, unless every read is answered. -/
theorem Fetching.outstanding_pos {d : Device}
    (h : Fetching p k source (d.opIssueReadWindow p).view)
    (hne : ¬((d.opIssueReadWindow p).op.outstanding = 0 ∧
      (d.opIssueReadWindow p).op.nextDmaOff = (d.opIssueReadWindow p).op.inBytes)) :
    0 < (d.opIssueReadWindow p).op.outstanding := by
  by_contra hzero
  have hnone : (d.opIssueReadWindow p).op.outstanding = 0 := by omega
  have hle : (d.opIssueReadWindow p).op.nextDmaOff ≤ (d.opIssueReadWindow p).op.inBytes := h.off_le
  have hdone := d.opIssueReadWindow_done p
  rw [hnone] at hdone
  have hoff : ¬(d.opIssueReadWindow p).op.nextDmaOff < (d.opIssueReadWindow p).op.inBytes :=
    fun hlt => hdone ⟨hlt, by decide⟩
  exact hne ⟨hnone, by omega⟩

/-- The write window leaves a request in flight, unless every write is answered. -/
theorem Writing.outstanding_pos {d : Device}
    (h : Writing p k source (d.opIssueWriteWindow p).view)
    (hne : ¬((d.opIssueWriteWindow p).op.outstanding = 0 ∧
      (d.opIssueWriteWindow p).op.nextDmaOff = (d.opIssueWriteWindow p).op.output.length)) :
    0 < (d.opIssueWriteWindow p).op.outstanding := by
  by_contra hzero
  have hnone : (d.opIssueWriteWindow p).op.outstanding = 0 := by omega
  have hle : (d.opIssueWriteWindow p).op.nextDmaOff ≤
    (d.opIssueWriteWindow p).op.output.length := h.off_le
  have hdone := d.opIssueWriteWindow_done p
  rw [hnone] at hdone
  have hoff :
      ¬(d.opIssueWriteWindow p).op.nextDmaOff < (d.opIssueWriteWindow p).op.output.length :=
    fun hlt => hdone ⟨hlt, by decide⟩
  exact hne ⟨hnone, by omega⟩

/-- Nothing is left of a transfer without requests in flight and bytes to issue. -/
theorem View.left_eq_zero {x : View} {total : ℕ} (hlink : x.link = [])
    (hoff : x.op.nextDmaOff = total) : x.left total = 0 := by
  simp [View.left, hlink, hoff]

/-- A rejected operation that has not written is settled. -/
theorem settled_opReject {d : Device} (why : String) (hlink : d.memIface = [])
    (hsends : ∀ r ∈ d.history.sends, RequestOk p r) (hwrites : writes d.history.sends = [])
    (hfin : d.history.finishes = 0)
    (hcomp : d.history.computes = [] ∨
      d.history.computes = [(d.op.args, inputOf k source d.op.args)]) :
    Settled p k source (d.opReject p why).view := by
  rw [Device.view_opReject]
  exact ⟨rfl, rfl, hlink, hsends, Or.inr ⟨hfin, hwrites, hcomp⟩⟩

variable (mem : ℕ → UInt8)

/-- The writeback of a computed operation is rejected, or its first writes are in flight. -/
theorem stage_opBeginWriteback {d : Device} (h : Computed p k source d.view)
    (hbusy : d.busyUntilClk = 0) :
    Stage p k source mem (d.opBeginWriteback p).view ∧
      (d.opBeginWriteback p).op.args = d.op.args ∧
      (d.opBeginWriteback p).history.computes = d.history.computes := by
  rw [Device.opBeginWriteback]
  by_cases hrange : Device.dmaRangeOk p d.op.args.dstAddr.toNat d.op.output.length = true
  · rw [if_neg (by rw [hrange]; decide)]
    set d₀ : Device :=
      { d with op := { d.op with phase := .writing, outstanding := 0, nextDmaOff := 0 } } with hd₀
    have hstart : Writing p k source d₀.view := by
      refine ⟨rfl, hbusy, h.output, span_of_dmaRangeOk hrange, Nat.zero_le _, ?_, ?_, ?_,
        h.sends, ?_, h.computes, h.noFinish⟩
      · exact (congrArg List.length h.link).symm
      · exact (congrArg List.length h.link).trans_le (Nat.zero_le _)
      · intro r hr
        have : r ∈ d.view.link := hr
        rw [h.link] at this
        cases this
      · have hw : writes d₀.view.history.sends = [] := h.noWrites
        rw [hw]
        exact ⟨rfl, fun wr hwr => by cases hwr⟩
    obtain ⟨hw, hargs, hout, hleft⟩ := hstart.writeWindow
    have hpos : 0 < (d₀.opIssueWriteWindow p).op.outstanding := by
      refine hw.outstanding_pos fun ⟨hzero, hoff⟩ => ?_
      have hlen : 0 < d.op.output.length := List.length_pos_iff.mpr h.nonempty
      have hlink : d₀.view.link = [] := h.link
      have hinit : d₀.view.left d₀.op.output.length = d.op.output.length := by
        simp only [View.left, hlink, List.map_nil, List.sum_nil]
        exact Nat.zero_add _
      have hend := View.left_eq_zero (List.length_eq_zero_iff.mp (hw.count ▸ hzero)) hoff
      rw [hout, hleft, hinit] at hend
      omega
    refine ⟨?_, ?_, ?_⟩
    · rw [Device.view_updatePrimaryHold]
      exact Stage.writing hw hpos
    · have hview := Device.view_updatePrimaryHold (d₀.opIssueWriteWindow p) false
      exact (congrArg (fun x => x.op.args) hview).trans hargs
    · have hview := Device.view_updatePrimaryHold (d₀.opIssueWriteWindow p) false
      refine (congrArg (fun x => x.history.computes) hview).trans ?_
      refine hw.computes.trans ?_
      have hsame : (d₀.opIssueWriteWindow p).view.op.args = d.view.op.args := hargs
      rw [hsame]
      exact h.computes.symm
  · rw [if_pos (by simp [hrange])]
    refine ⟨Stage.settled (settled_opReject _ h.link h.sends h.noWrites h.noFinish
      (Or.inr h.computes)), ?_, ?_⟩
    · exact congrArg (fun x => x.op.args) (Device.view_opReject p d _)
    · exact congrArg (fun x => x.history.computes) (Device.view_opReject p d _)

/-- Once the input is complete the kernel runs on it, exactly once. -/
theorem stage_opComputeAndStartBusy {d : Device} (h : Fetching p k source d.view)
    (hout : d.op.outstanding = 0) (hoff : d.op.nextDmaOff = d.op.inBytes) :
    (outputOf k source d.op.args = [] ∧
      d.opComputeAndStartBusy p k = .error "kernel produced no output bytes.") ∨
    (∃ d', d.opComputeAndStartBusy p k = .ok d' ∧ Stage p k source mem d'.view ∧
      d'.history.computes = [(d.op.args, inputOf k source d.op.args)]) := by
  obtain ⟨hlink, hinput⟩ := h.complete hout hoff
  have hinput : d.op.input = inputOf k source d.op.args := hinput
  have hresult : (k.compute d.op.args d.op.input).2 = outputOf k source d.op.args := by
    rw [hinput, outputOf]
  by_cases hempty : outputOf k source d.op.args = []
  · refine Or.inl ⟨hempty, ?_⟩
    simp only [Device.opComputeAndStartBusy, hresult, hempty]
    rfl
  · right
    simp only [Device.opComputeAndStartBusy, hresult, List.isEmpty_iff, hempty, if_false]
    set latency := if (d.emit (.compute d.op.args d.op.input)).latencyOverride ≠ 0 then
      (d.emit (.compute d.op.args d.op.input)).latencyOverride
      else if (k.compute d.op.args d.op.input).1 ≠ 0 then
        (k.compute d.op.args d.op.input).1.toNat
      else p.kernelLatency.toNat
    set d₁ : Device := { d.emit (.compute d.op.args d.op.input) with
      op := { d.op with output := outputOf k source d.op.args }, latencyOverride := 0 } with hd₁
    have hhist : d₁.history = d.history.next (.compute d.op.args d.op.input) :=
      Device.history_emit d _
    have hcomputes : d₁.history.computes = [(d.op.args, inputOf k source d.op.args)] := by
      have hnone : d.history.computes = [] := h.noCompute
      rw [hhist, ← hinput]
      simp only [History.next, hnone, List.nil_append]
    have hcomputed : ∀ b, Computed p k source { d₁.view with busy := b } := fun b =>
      { phase := h.phase
        output := rfl
        nonempty := hempty
        idle := hout
        link := hlink
        sends := by
          have : d₁.history.sends = d.history.sends := by rw [hhist]; rfl
          simp only [Device.view, this]
          exact h.sends
        noWrites := by
          have : d₁.history.sends = d.history.sends := by rw [hhist]; rfl
          simp only [Device.view, this]
          exact h.noWrites
        computes := hcomputes
        noFinish := by
          have : d₁.history.finishes = d.history.finishes := by rw [hhist]; rfl
          simp only [Device.view, this]
          exact h.noFinish }
    by_cases hzero : latency = 0
    · refine ⟨d₁.opBeginWriteback p, by rw [if_pos hzero], ?_⟩
      obtain ⟨hstage, -, hc⟩ :=
        stage_opBeginWriteback mem (d := d₁) (hcomputed d₁.busyUntilClk) h.busy
      exact ⟨hstage, hc.trans hcomputes⟩
    · refine ⟨_, by rw [if_neg hzero], ?_, ?_⟩
      · rw [Device.view_updatePrimaryHold]
        exact Stage.computed (hcomputed _)
      · have hview := Device.view_updatePrimaryHold
          { d₁ with busyUntilClk := wrap64 (d₁.gpuClk + latency) } false
        exact (congrArg (fun x => x.history.computes) hview).trans hcomputes

/-- A doorbell starts an operation: it is rejected, or its first reads are in flight. -/
theorem stage_opStartDma {d : Device} (hbusy : d.busyUntilClk = 0)
    (hlink : d.memIface = []) (hhist : d.history = {}) :
    Stage p k mem mem (d.opStartDma p k).view := by
  simp only [Device.opStartDma]
  set d₀ : Device := { d with op := { d.op with inBytes := (k.inputBytes d.op.args).1.toNat } }
    with hd₀
  have hhist₀ : d₀.history = {} := hhist
  have hreject : ∀ why, Stage p k mem mem (d₀.opReject p why).view := fun why =>
    Stage.settled (settled_opReject why hlink (by simp [hhist₀]) (by simp [hhist₀, writes])
      (by simp [hhist₀]) (Or.inl (by simp [hhist₀])))
  by_cases hzero : d₀.op.inBytes = 0
  · rw [if_pos hzero]
    exact hreject _
  rw [if_neg hzero]
  by_cases hsrc : Device.dmaRangeOk p d₀.op.args.srcAddr.toNat d₀.op.inBytes = true
  swap
  · rw [if_pos (by rw [Bool.eq_false_of_not_eq_true hsrc]; rfl)]
    exact hreject _
  rw [if_neg (by rw [hsrc]; decide)]
  by_cases hdst : Device.dmaRangeOk p d₀.op.args.dstAddr.toNat 1 = true
  swap
  · rw [if_pos (by rw [Bool.eq_false_of_not_eq_true hdst]; rfl)]
    exact hreject _
  rw [if_neg (by rw [hdst]; decide), Device.view_updatePrimaryHold]
  set d₁ : Device := { d₀ with op := { d₀.op with
    input := List.replicate d₀.op.inBytes 0
    reqOff := fun _ => none
    outstanding := 0
    nextDmaOff := 0
    phase := .reading } } with hd₁
  have hhist₁ : d₁.view.history = {} := hhist
  have hlink₁ : d₁.view.link = [] := hlink
  have hstart : Fetching p k mem d₁.view := by
    refine ⟨rfl, hbusy, rfl, span_of_dmaRangeOk hsrc, List.length_replicate .., Nat.zero_le _,
      ?_, ?_, ?_, ?_, ?_, ?_, ?_, ?_, ?_, ?_⟩
    · exact (congrArg List.length hlink₁).symm
    · exact (congrArg List.length hlink₁).trans_le (Nat.zero_le _)
    · simp [hlink₁]
    · simp [hlink₁]
    · simp [hlink₁]
    · exact fun i hi => absurd hi (Nat.not_lt_zero i)
    · simp [hhist₁]
    · simp [hhist₁, writes]
    · simp [hhist₁]
    · simp [hhist₁]
  obtain ⟨hf, hargs, hin, hleft⟩ := hstart.readWindow
  refine Stage.fetching hf (hf.outstanding_pos fun ⟨hnone, hoff⟩ => hzero ?_) (fun j _ => rfl)
  have hinit : d₁.view.left d₁.op.inBytes = d₀.op.inBytes := by
    simp only [View.left, hlink₁, List.map_nil, List.sum_nil]
    exact Nat.zero_add _
  have hend := View.left_eq_zero (List.length_eq_zero_iff.mp (hf.count ▸ hnone)) hoff
  rw [hin, hleft, hinit] at hend
  exact hend

/-- Only a computed operation is busy, and the end of its busy window begins the writeback. -/
theorem stage_retireIfReady (hk : p.kernel = some k) {d : Device} (nowClk : ℕ)
    (h : Stage p k source mem d.view) :
    Stage p k source mem (d.retireIfReady p nowClk).view := by
  rw [Device.retireIfReady]
  by_cases hready : d.busyUntilClk = 0 ∨ nowClk < d.busyUntilClk
  · rw [if_pos hready]
    exact h
  · rw [if_neg hready]
    have hbusy : d.view.busy ≠ 0 := fun h0 => hready (Or.inl h0)
    cases h with
    | settled h => exact absurd h.busy hbusy
    | fetching h => exact absurd h.busy hbusy
    | writing h => exact absurd h.busy hbusy
    | computed h =>
        rw [if_pos ⟨by rw [hk]; rfl, h.phase⟩]
        refine (stage_opBeginWriteback mem (d := { d with busyUntilClk := 0 }) ?_ rfl).1
        exact ⟨h.phase, h.output, h.nonempty, h.idle, h.link, h.sends, h.noWrites, h.computes,
          h.noFinish⟩

/-- A register write other than a doorbell does not touch the operation. -/
theorem view_writeRegister {offset : UInt64} (hoff : offset ≠ REG_DOORBELL) (write : MmioWrite)
    {d d' : Device} (h : d.writeRegister p offset write = .ok d') : d'.view = d.view := by
  exact (writeRegister_cases h).view_eq Device.view_quiet (fun _ _ => rfl) hoff

/-! ### Every event keeps the invariant -/

/-- The invariant of a world: the operation of the last doorbell is in one of its stages. -/
def Inv (p : Params) (k : QuetzKernel) (w : World) : Prop :=
  Stage p k w.source w.mem w.device.view

/-- The answer to a read. The transfer goes on with fewer bytes to come, or the kernel runs. -/
theorem answer_read (hk : p.kernel = some k) {w : World} {i id addr n : ℕ}
    (h : Fetching p k w.source w.device.view)
    (hmem : ∀ j < w.device.op.inBytes, w.mem (w.device.op.args.srcAddr.toNat + j) =
      w.source (w.device.op.args.srcAddr.toNat + j))
    (hi : w.device.memIface[i]? = some (.read id addr n)) :
    (outputOf k w.source w.device.op.args = [] ∧
      w.answer p i = .error "kernel produced no output bytes.") ∨
    (∃ w', w.answer p i = .ok w' ∧ Inv p k w' ∧ w'.source = w.source ∧
      (w'.device.history.computes =
        [(w.device.op.args, inputOf k w.source w.device.op.args)] ∨
      (Fetching p k w.source w'.device.view ∧ 0 < w'.device.op.outstanding ∧
        w'.mem = w.mem ∧ w'.device.op.args = w.device.op.args ∧
        w'.device.op.inBytes = w.device.op.inBytes ∧
        w'.device.view.left w.device.op.inBytes < w.device.view.left w.device.op.inBytes))) := by
  obtain ⟨off, hoff, hrecv, hless⟩ := h.receive hi hmem
  have hoff : w.device.op.reqOff id = some off := hoff
  simp only [World.answer, hi, hk, Device.opOnReadResp, hoff]
  set d₁ : Device := { w.device with
    memIface := w.device.memIface.eraseIdx i
    op := { w.device.op with
      reqOff := Function.update w.device.op.reqOff id none
      input := overwrite w.device.op.input off
        ((readSpan w.mem addr n).take (w.device.op.inBytes - off))
      outstanding := w.device.op.outstanding - 1 } } with hd₁
  have hrecv₁ : Fetching p k w.source d₁.view := hrecv
  obtain ⟨hf, hargs, hin, hleft⟩ := hrecv₁.readWindow
  have hargs : (d₁.opIssueReadWindow p).op.args = w.device.op.args := hargs
  have hin : (d₁.opIssueReadWindow p).op.inBytes = w.device.op.inBytes := hin
  by_cases hdone : (d₁.opIssueReadWindow p).op.outstanding = 0 ∧
      (d₁.opIssueReadWindow p).op.nextDmaOff = (d₁.opIssueReadWindow p).op.inBytes
  · rw [if_pos hdone]
    rcases stage_opComputeAndStartBusy w.mem hf hdone.1 hdone.2 with ⟨hempty, herr⟩ | hrest
    · left
      rw [hargs] at hempty
      exact ⟨hempty, by rw [herr]; rfl⟩
    · obtain ⟨d', hok, hstage, hcomp⟩ := hrest
      rw [hargs] at hcomp
      exact Or.inr ⟨{ w with device := d' }, by rw [hok]; rfl, hstage, rfl, Or.inl hcomp⟩
  · rw [if_neg hdone]
    have hpos := hf.outstanding_pos hdone
    refine Or.inr ⟨{ w with device := d₁.opIssueReadWindow p }, rfl, ?_, rfl,
      Or.inr ⟨hf, hpos, rfl, hargs, hin, ?_⟩⟩
    · refine Stage.fetching hf hpos fun j hj => ?_
      have hj : j < w.device.op.inBytes := hin ▸ hj
      have := hmem j hj
      rw [← hargs] at this
      exact this
    · have hleft : (d₁.opIssueReadWindow p).view.left w.device.op.inBytes =
        d₁.view.left w.device.op.inBytes := hleft
      rw [hleft]
      exact hless

/-- The answer to a write. The transfer goes on with fewer bytes to come, or the operation
finishes. -/
theorem answer_write {w : World} {i : ℕ} {r : MemRequest}
    (h : Writing p k w.source w.device.view) (hpos : 0 < w.device.op.outstanding)
    (hi : w.device.memIface[i]? = some r) :
    ∃ w', w.answer p i = .ok w' ∧ Inv p k w' ∧ w'.source = w.source ∧
      (w'.device.history.finishes = 1 ∨
      (Writing p k w.source w'.device.view ∧ 0 < w'.device.op.outstanding ∧
        w'.device.op.output = w.device.op.output ∧
        w'.device.view.left w.device.op.output.length <
          w.device.view.left w.device.op.output.length)) := by
  obtain ⟨hstored, hless⟩ := h.stored hi
  obtain ⟨addr, data, hr, -⟩ := h.isWrite r (List.mem_of_getElem? hi)
  rw [hr] at hi
  simp only [World.answer, hi, Device.opOnWriteResp, if_neg (Nat.ne_of_gt hpos)]
  set d₁ : Device := { w.device with
    memIface := w.device.memIface.eraseIdx i
    op := { w.device.op with outstanding := w.device.op.outstanding - 1 } } with hd₁
  have hstored₁ : Writing p k w.source d₁.view := hstored
  obtain ⟨hf, hargs, hout, hleft⟩ := hstored₁.writeWindow
  have hout : (d₁.opIssueWriteWindow p).op.output = w.device.op.output := hout
  by_cases hdone : (d₁.opIssueWriteWindow p).op.outstanding = 0 ∧
      (d₁.opIssueWriteWindow p).op.nextDmaOff = (d₁.opIssueWriteWindow p).op.output.length
  · rw [if_pos hdone]
    have hview := Device.view_opFinish p (d₁.opIssueWriteWindow p)
    have hnf : (d₁.opIssueWriteWindow p).history.finishes = 0 := hf.noFinish
    refine ⟨_, rfl, Stage.settled ?_, rfl, Or.inl ?_⟩
    · rw [hview]
      refine ⟨rfl, hf.busy, ?_, hf.sends, Or.inl ⟨by simp only [hnf], hf.computes, ?_⟩⟩
      · exact List.length_eq_zero_iff.mp (hf.count ▸ hdone.1)
      · have hw := hf.written
        have hoff : (d₁.opIssueWriteWindow p).view.op.nextDmaOff =
          (d₁.opIssueWriteWindow p).view.op.output.length := hdone.2
        rw [hoff, hf.output] at hw
        exact hw
    · have := congrArg (fun x => x.history.finishes) hview
      exact this.trans (by simp only [hnf])
  · rw [if_neg hdone]
    have hpos' := hf.outstanding_pos hdone
    refine ⟨_, rfl, Stage.writing hf hpos', rfl, Or.inr ⟨hf, hpos', hout, ?_⟩⟩
    have hleft : (d₁.opIssueWriteWindow p).view.left w.device.op.output.length =
      d₁.view.left w.device.op.output.length := hleft
    simp only [hleft]
    exact hless

/-- The answer to any request in flight keeps the invariant. -/
theorem Inv.answer (hk : p.kernel = some k) {w w' : World} {i : ℕ} (h : Inv p k w)
    (hstep : w.answer p i = .ok w') : Inv p k w' := by
  cases hi : w.device.memIface[i]? with
  | none =>
      simp only [World.answer, hi] at hstep
      cases hstep
      exact h
  | some r =>
      have hmem : r ∈ w.device.view.link := List.mem_of_getElem? hi
      cases h with
      | settled h =>
          rw [h.link] at hmem
          cases hmem
      | computed h =>
          rw [h.link] at hmem
          cases hmem
      | fetching h hpos hsrc =>
          obtain ⟨off, n, hr, -⟩ := h.reads r hmem
          rw [hr] at hi
          rcases answer_read hk h hsrc hi with ⟨-, herr⟩ | ⟨w₁, hok, hinv, -⟩
          · rw [herr] at hstep
            cases hstep
          · rw [hok] at hstep
            cases hstep
            exact hinv
      | writing h hpos =>
          obtain ⟨w₁, hok, hinv, -⟩ := answer_write h hpos hi
          rw [hok] at hstep
          cases hstep
          exact hinv

/-- A doorbell is accepted only by a settled device. -/
theorem Inv.doorbell {w : World} (h : Inv p k w) {write : MmioWrite} {d' : Device}
    (hstep : w.device.kernelDoorbell p k write = .ok d') :
    Stage p k w.mem w.mem d'.view := by
  rw [Device.kernelDoorbell] at hstep
  by_cases hfree : w.device.op.phase ≠ .idle ∨ w.device.isBusyAt = true
  · rw [if_pos hfree] at hstep
    cases hstep
  rw [if_neg hfree] at hstep
  have hphase : w.device.op.phase = .idle := by
    by_contra hne
    exact hfree (Or.inl hne)
  have hset : Settled p k w.source w.device.view := by
    cases h with
    | settled h => exact h
    | fetching h => exact absurd (h.phase.symm.trans hphase) (by decide)
    | computed h => exact absurd (h.phase.symm.trans hphase) (by decide)
    | writing h => exact absurd (h.phase.symm.trans hphase) (by decide)
  cases hstep
  -- The launch begins a new history; the rest of the device is as the settled one left it.
  have hstart : ∀ d : Device, d.busyUntilClk = 0 → d.memIface = [] →
      Stage p k w.mem w.mem (((d.emit (.launch d.submitId)).emitEvent p .requested).opStartDma
        p k).view := by
    intro d hbusy hlink
    have hview := Device.view_quiet (.emitEvent p (d.emit (.launch d.submitId)) .requested)
    refine stage_opStartDma w.mem ?_ ?_ ?_
    · exact (congrArg View.busy hview).trans hbusy
    · exact (congrArg View.link hview).trans hlink
    · exact (congrArg View.history hview).trans (Device.history_emit d _)
  set d₀ : Device := if (!write.posted && p.doorbellBlocking) = true then
    { w.device with opDoorbellResp := some write.id } else w.device with hd₀
  have hstage := hstart
    { d₀ with submitId := d₀.submitId + 1, op := { d₀.op with args := d₀.argRegs } }
    (by rw [hd₀]; split_ifs <;> exact hset.busy) (by rw [hd₀]; split_ifs <;> exact hset.link)
  dsimp only
  split_ifs
  · rw [Device.view_emit _ _ rfl]
    exact hstage
  · exact hstage

/-- One event keeps the invariant. -/
theorem Inv.step (hk : p.kernel = some k) {w w' : World} {e : Event} (h : Inv p k w)
    (hallowed : Allowed w e) (hstep : w.step p e = .ok w') : Inv p k w' := by
  cases e with
  | write write =>
      simp only [World.step, Device.handleWrite, hk] at hstep
      by_cases hdoor : write.pAddr - p.baseAddr = REG_DOORBELL
      · simp only [hdoor, if_true] at hstep
        cases hd : w.device.kernelDoorbell p k write with
        | error msg =>
            rw [hd] at hstep
            cases hstep
        | ok d' =>
            rw [hd] at hstep
            cases hstep
            exact h.doorbell hd
      · simp only [if_neg hdoor] at hstep
        cases hd : w.device.writeRegister p (write.pAddr - p.baseAddr) write with
        | error msg =>
            rw [hd] at hstep
            cases hstep
        | ok d' =>
            rw [hd] at hstep
            cases hstep
            have hview := view_writeRegister hdoor write hd
            have hview' : (if (!write.posted) = true then d'.emit (.writeResp write.id)
                else d').view = w.device.view := by
              split_ifs
              · rw [Device.view_emit _ _ rfl, hview]
              · exact hview
            rw [Inv]
            simp only [hview']
            exact h
  | read read =>
      cases hstep
      rw [Inv]
      simp only [Device.handleRead]
      rw [Device.view_emit _ _ rfl]
      split_ifs
      · exact stage_retireIfReady w.mem hk _ h
      · exact h
  | tick =>
      cases hstep
      rw [Inv]
      simp only [Device.tickBusy, Device.view_updatePrimaryHold]
      exact stage_retireIfReady w.mem hk _ h
  | answer i => exact h.answer hk hstep
  | store addr data =>
      cases hstep
      cases h with
      | settled h => exact Stage.settled h
      | computed h => exact Stage.computed h
      | writing h hpos => exact Stage.writing h hpos
      | fetching h hpos hmem =>
          refine Stage.fetching h hpos fun j hj => ?_
          have hj : j < w.device.op.inBytes := hj
          have hoff : (writeSpan w.mem addr data) (w.device.op.args.srcAddr.toNat + j) =
              w.mem (w.device.op.args.srcAddr.toNat + j) := by
            rcases hallowed h.phase hpos with hlo | hhi
            · exact writeSpan_of_ge _ _ (by omega)
            · exact writeSpan_of_lt _ _ (by omega)
          exact hoff.trans (hmem j hj)

/-- Every reachable world keeps the invariant. -/
theorem Reachable.inv (hk : p.kernel = some k) {m : ℕ → UInt8} {w : World}
    (h : Reachable p m w) : Inv p k w := by
  induction h with
  | start hd =>
      obtain rfl := construct_eq_ok hd
      exact Stage.settled ⟨rfl, rfl, rfl, by simp [Device.view, Device.history, History.next],
        Or.inr ⟨rfl, rfl, Or.inl rfl⟩⟩
  | step _ hallowed hstep ih => exact ih.step hk hallowed hstep

/-! ### The transfers end -/

/-- The memory answers `n` requests, each time the one `pick` chooses among those in flight. -/
def World.answers (p : Params) : ℕ → (ℕ → ℕ) → World → Except String World
  | 0, _, w => .ok w
  | n + 1, pick, w => do
    let w' ← w.answer p (pick 0 % w.device.memIface.length)
    w'.answers p n fun j => pick (j + 1)

/-- A choice among the requests in flight is one of them. -/
theorem exists_picked {link : List MemRequest} (hlink : 0 < link.length) (i : ℕ) :
    ∃ r, link[i % link.length]? = some r :=
  ⟨_, List.getElem?_eq_getElem (Nat.mod_lt i hlink)⟩

/-- Answering the reads in any order runs the kernel. -/
theorem fetching_ends (hk : p.kernel = some k) {m : ℕ → UInt8} {w : World}
    (hreach : Reachable p m w) (h : Fetching p k w.source w.device.view)
    (hpos : 0 < w.device.op.outstanding)
    (hmem : ∀ j < w.device.op.inBytes, w.mem (w.device.op.args.srcAddr.toNat + j) =
      w.source (w.device.op.args.srcAddr.toNat + j)) (pick : ℕ → ℕ) :
    ∃ n, (outputOf k w.source w.device.op.args = [] ∧
        w.answers p n pick = .error "kernel produced no output bytes.") ∨
      ∃ w', w.answers p n pick = .ok w' ∧ Reachable p m w' ∧
        w'.device.history.computes =
          [(w.device.op.args, inputOf k w.source w.device.op.args)] := by
  induction hleft : w.device.view.left w.device.op.inBytes using Nat.strong_induction_on
    generalizing w pick with
  | _ left ih =>
      have hlink : 0 < w.device.memIface.length := by
        have hcount : w.device.op.outstanding = w.device.memIface.length := h.count
        omega
      obtain ⟨r, hi⟩ := exists_picked hlink (pick 0)
      obtain ⟨off, n, hr, -⟩ := h.reads r (List.mem_of_getElem? hi)
      rw [hr] at hi
      rcases answer_read hk h hmem hi with ⟨hempty, herr⟩ | ⟨w₁, hok, -, hsrc, hnext⟩
      · exact ⟨1, Or.inl ⟨hempty, by simp only [World.answers, herr]; rfl⟩⟩
      have hreach₁ : Reachable p m w₁ := hreach.step (e := .answer _) trivial hok
      rcases hnext with hcomp | ⟨hf, hpos₁, hm, hargs, hin, hless⟩
      · exact ⟨1, Or.inr ⟨w₁, by simp only [World.answers, hok]; rfl, hreach₁, hcomp⟩⟩
      · rw [← hsrc] at hf
        rw [hleft, ← hin] at hless
        obtain ⟨n₁, hn₁⟩ := ih _ hless hreach₁ hf hpos₁
          (by rw [hm, hsrc, hargs, hin]; exact hmem) (fun j => pick (j + 1)) rfl
        rw [hsrc, hargs] at hn₁
        refine ⟨n₁ + 1, ?_⟩
        simp only [World.answers, hok]
        exact hn₁

/-- Answering the writes in any order finishes the operation. -/
theorem writing_ends {m : ℕ → UInt8} {w : World} (hreach : Reachable p m w)
    (h : Writing p k w.source w.device.view) (hpos : 0 < w.device.op.outstanding)
    (pick : ℕ → ℕ) :
    ∃ n w', w.answers p n pick = .ok w' ∧ Reachable p m w' ∧ w'.device.history.finishes = 1 := by
  induction hleft : w.device.view.left w.device.op.output.length using Nat.strong_induction_on
    generalizing w pick with
  | _ left ih =>
      have hlink : 0 < w.device.memIface.length := by
        have hcount : w.device.op.outstanding = w.device.memIface.length := h.count
        omega
      obtain ⟨r, hi⟩ := exists_picked hlink (pick 0)
      obtain ⟨w₁, hok, -, hsrc, hnext⟩ := answer_write h hpos hi
      have hreach₁ : Reachable p m w₁ := hreach.step (e := .answer _) trivial hok
      rcases hnext with hfin | ⟨hf, hpos₁, hout, hless⟩
      · exact ⟨1, w₁, by simp only [World.answers, hok]; rfl, hreach₁, hfin⟩
      · rw [← hsrc] at hf
        rw [hleft, ← hout] at hless
        obtain ⟨n₁, w', hn₁, hrest⟩ := ih _ hless hreach₁ hf hpos₁ (fun j => pick (j + 1)) rfl
        exact ⟨n₁ + 1, w', by simp only [World.answers, hok]; exact hn₁, hrest⟩

/-! ### Kernel DMA -/

/-- What a partial or complete writeback looks like from the outside. -/
theorem Written.spec {ws : List (ℕ × List UInt8)} {dst off : ℕ} {out : List UInt8}
    (h : Written ws dst out off) (hoff : off ≤ out.length) :
    (ws.Pairwise fun a b => a.1 + a.2.length ≤ b.1 ∨ b.1 + b.2.length ≤ a.1) ∧
      ∀ wr ∈ ws, dst ≤ wr.1 ∧ wr.1 + wr.2.length ≤ dst + out.length ∧
        wr.2 = (out.drop (wr.1 - dst)).take wr.2.length := by
  refine ⟨List.pairwise_map.mp h.tiles.pairwise, fun wr hwr => ?_⟩
  obtain ⟨hlo, -, hhi⟩ := h.tiles.bounds _ (List.mem_map_of_mem hwr)
  have hhi : wr.1 + wr.2.length ≤ dst + off := hhi
  exact ⟨hlo, by omega, h.bytes wr hwr⟩

/-- **Kernel DMA is correct for every response order.** In every reachable state the requests
of the operation are well formed and at most 64 are in flight; the kernel ran at most once, on
the bytes the source held at the doorbell; the writes are disjoint pieces of its output at
their places. An accepted operation gets its answers, computes once and finishes once, when no
write is in flight and its writes cover the destination exactly. -/
theorem kernel_dma_correct (hk : p.kernel = some k) {m : ℕ → UInt8} {w : World}
    (h : Reachable p m w) :
    let d := w.device
    let args := d.op.args
    let input := inputOf k w.source args
    let out := outputOf k w.source args
    let dst := args.dstAddr.toNat
    let ws := writes d.history.sends
    (∀ r ∈ d.history.sends, RequestOk p r) ∧ d.memIface.length ≤ 64 ∧
    (d.history.computes = [(args, input)] ∨
      d.history.computes = [] ∧ ws = [] ∧ d.history.finishes = 0) ∧
    (ws.Pairwise fun a b => a.1 + a.2.length ≤ b.1 ∨ b.1 + b.2.length ≤ a.1) ∧
    (∀ wr ∈ ws, dst ≤ wr.1 ∧ wr.1 + wr.2.length ≤ dst + out.length ∧
      wr.2 = (out.drop (wr.1 - dst)).take wr.2.length) ∧
    (d.op.phase = .reading → d.history.computes = [] → ∀ pick, ∃ n,
      (out = [] ∧ w.answers p n pick = .error "kernel produced no output bytes.") ∨
      ∃ w', w.answers p n pick = .ok w' ∧ Reachable p m w' ∧
        w'.device.history.computes = [(args, input)]) ∧
    (d.op.phase = .writing → d.history.computes = [(args, input)] ∧ d.history.finishes = 0 ∧
      d.memIface ≠ [] ∧ ∀ pick, ∃ n w', w.answers p n pick = .ok w' ∧ Reachable p m w' ∧
        w'.device.history.finishes = 1) ∧
    (d.history.finishes ≠ 0 → d.history.finishes = 1 ∧ d.memIface = [] ∧
      d.history.computes = [(args, input)] ∧
      ∀ x, (∃ wr ∈ ws, wr.1 ≤ x ∧ x < wr.1 + wr.2.length) ↔ dst ≤ x ∧ x < dst + out.length) := by
  intro d args input out dst ws
  cases h.inv hk with
  | settled hs =>
      have hlink : d.memIface = [] := hs.link
      have hidle : d.op.phase = .idle := hs.phase
      refine ⟨hs.sends, by simp [hlink], ?_⟩
      rcases hs.outcome with ⟨hfin, hcomp, hwritten⟩ | ⟨hfin, hws, hcomp⟩
      · obtain ⟨hpair, hbytes⟩ := hwritten.spec (Nat.le_refl _)
        refine ⟨Or.inl hcomp, hpair, hbytes, by simp [hidle], by simp [hidle],
          fun _ => ⟨hfin, hlink, hcomp, fun x => ?_⟩⟩
        have hcover := hwritten.tiles.mem_iff x
        simp only [List.mem_map, exists_exists_and_eq_and, Chunk.Holds] at hcover
        exact hcover
      · have hws : ws = [] := hws
        have hfin : d.history.finishes = 0 := hfin
        refine ⟨?_, by simp [hws], by simp [hws], by simp [hidle], by simp [hidle],
          fun hne => absurd hfin hne⟩
        exact hcomp.symm.imp id fun hc => ⟨hc, hws, hfin⟩
  | fetching hf hpos hmem =>
      have hws : ws = [] := hf.noWrites
      have hphase : d.op.phase = .reading := hf.phase
      exact ⟨hf.sends, hf.window, Or.inr ⟨hf.noCompute, hws, hf.noFinish⟩, by simp [hws],
        by simp [hws], fun _ _ pick => fetching_ends hk h hf hpos hmem pick, by simp [hphase],
        fun hne => absurd hf.noFinish hne⟩
  | computed hc =>
      have hws : ws = [] := hc.noWrites
      have hlink : d.memIface = [] := hc.link
      have hphase : d.op.phase = .reading := hc.phase
      have hcomp : d.history.computes = [(args, input)] := hc.computes
      exact ⟨hc.sends, by simp [hlink], Or.inl hcomp, by simp [hws], by simp [hws],
        by simp [hcomp], by simp [hphase], fun hne => absurd hc.noFinish hne⟩
  | writing hw hpos =>
      have hphase : d.op.phase = .writing := hw.phase
      have hout : d.op.output = out := hw.output
      have hoff : d.op.nextDmaOff ≤ out.length := by rw [← hout]; exact hw.off_le
      have hwritten : Written ws dst out d.op.nextDmaOff := by rw [← hout]; exact hw.written
      obtain ⟨hpair, hbytes⟩ := hwritten.spec hoff
      have hlink : d.memIface ≠ [] := fun h0 => by
        have hcount : d.op.outstanding = d.memIface.length := hw.count
        rw [h0] at hcount
        exact absurd hcount (Nat.ne_of_gt hpos)
      exact ⟨hw.sends, hw.window, Or.inl hw.computes, hpair, hbytes, by simp [hphase],
        fun _ => ⟨hw.computes, hw.noFinish, hlink, writing_ends h hw hpos⟩,
        fun hne => absurd hw.noFinish hne⟩

/-! ### A run with answers out of order -/

/-- A run of events that nobody else interferes with. -/
def World.run (p : Params) : List Event → World → Except String World
  | [], w => .ok w
  | e :: es, w => do
    let w' ← w.step p e
    w'.run p es

theorem Reachable.run {m : ℕ → UInt8} {es : List Event} {w w' : World} (h : Reachable p m w)
    (hquiet : ∀ e ∈ es, ∀ w, Allowed w e) (hrun : w.run p es = .ok w') : Reachable p m w' := by
  induction es generalizing w with
  | nil =>
      cases hrun
      exact h
  | cons e es ih =>
      rw [World.run] at hrun
      cases hstep : w.step p e with
      | error msg =>
          rw [hstep] at hrun
          cases hrun
      | ok w₁ =>
          rw [hstep] at hrun
          exact ih (h.step (hquiet e (List.mem_cons_self ..) w) hstep)
            (fun e' he' => hquiet e' (List.mem_cons_of_mem _ he')) hrun

/-- A kernel that reverses six bytes, behind a memory with lines of four bytes. -/
def reverser : QuetzKernel where
  inputBytes := fun _ => (6, "")
  compute := fun _ input => (0, input.reverse)

def reverserParams : Params :=
  { kernel := some reverser, hasMemIface := true, lineSize := 4, kernelLatency := 0 }

/-- Source at 2, destination at 101; the reads are answered last first, the writes in the
middle first. -/
def reverserRun : List Event :=
  [.write ⟨0, REG_ARG0, 1, [2], false⟩, .write ⟨1, REG_ARG1, 1, [101], false⟩,
    .write ⟨2, REG_DOORBELL, 1, [1], false⟩, .answer 1, .answer 0, .answer 1, .answer 0,
    .answer 0]

theorem kernel_dma_correct_reverser :
    ∃ w, Reachable reverserParams (fun a => .ofNat a) w ∧ w.device.history.finishes = 1 ∧
      ∀ x, (∃ wr ∈ writes w.device.history.sends, wr.1 ≤ x ∧ x < wr.1 + wr.2.length) ↔
        w.device.op.args.dstAddr.toNat ≤ x ∧
          x < w.device.op.args.dstAddr.toNat +
            (outputOf reverser w.source w.device.op.args).length := by
  have hstart : construct reverserParams = .ok { holdingSim := true, trace := [.doNotEndSim] } :=
    rfl
  have hfin : (match (⟨{ holdingSim := true, trace := [.doNotEndSim] }, fun a => .ofNat a,
      fun a => .ofNat a⟩ : World).run reverserParams reverserRun with
    | .ok w => w.device.history.finishes
    | .error _ => 0) = 1 := by decide +kernel
  cases hrun : (⟨{ holdingSim := true, trace := [.doNotEndSim] }, fun a => .ofNat a,
      fun a => .ofNat a⟩ : World).run reverserParams reverserRun with
  | error msg =>
      rw [hrun] at hfin
      cases hfin
  | ok w =>
      rw [hrun] at hfin
      have hreach : Reachable reverserParams (fun a => .ofNat a) w :=
        (Reachable.start hstart).run
          (by simp [reverserRun, Allowed])
          hrun
      have hfin : w.device.history.finishes = 1 := hfin
      refine ⟨w, hreach, hfin, ?_⟩
      obtain ⟨-, -, -, -, -, -, -, hdone⟩ := kernel_dma_correct (k := reverser) rfl hreach
      exact (hdone (by rw [hfin]; decide)).2.2.2

end Quetz.GpuDevice
