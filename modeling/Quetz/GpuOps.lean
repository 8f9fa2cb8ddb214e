import Quetz.GpuDma
import Quetz.GpuLaunches

/-!
# Kernel Operations of the GPU Device

With a kernel the device runs one operation at a time. `Device.ops` reads the operations of a run
off the trace, newest first: the ticket of each, the requests it sent and how it ended. Memory may
answer with any data and in any order, and the guest may write any register at any time.

An operation is told from the phase of the device: nothing is in flight when the device is idle,
reads are while it reads, writes are while it writes (`OpsView.Stage`). `Moves` says what one event
does to tickets, outcomes and write responses.

## Main results

* `OpsView.Sound.step`: every event keeps the invariant, and what it does to the operations.
* `dma_contained`: no request leaves the DMA window, and what a rejection does.
* `ticket_polling_sound`: the completion count reaches the ticket of every finished operation, in
  runs that reject none.
-/

namespace Quetz.GpuDevice

open ByteMemory

/-! ### The operations of a run -/

/-- How an operation ended. -/
inductive Outcome where
  | running | finished | rejected
deriving DecidableEq, Repr

/-- What a run shows of one operation. -/
structure OpRecord where
  ticket : ℕ
  /-- The requests it sent, oldest first. -/
  sends : List MemRequest := []
  outcome : Outcome := .running

/-- Change the newest record. -/
def amend (f : OpRecord → OpRecord) : List OpRecord → List OpRecord
  | [] => []
  | r :: rest => f r :: rest

/-- What an action adds to the records. -/
def Action.note : Action → List OpRecord → List OpRecord
  | .launch ticket, log => { ticket } :: log
  | .memSend q, log => amend (fun r => { r with sends := r.sends ++ [q] }) log
  | .finish, log => amend (fun r => { r with outcome := .finished }) log
  | .reject _, log => amend (fun r => { r with outcome := .rejected }) log
  | _, log => log

/-- The operations of a run, newest first. -/
def Device.ops (d : Device) : List OpRecord := d.trace.foldl (fun log a => a.note log) []

/-- The request an action sends. -/
def Action.sends : Action → Option MemRequest
  | .memSend q => some q
  | _ => none

/-- The requests sent on the memory link, oldest first. -/
def Device.sent (d : Device) : List MemRequest := d.trace.filterMap Action.sends

/-- The part of the device that an operation depends on. -/
structure OpsView where
  op : Op
  busy : ℕ
  link : List MemRequest
  kernelId : ℕ
  submitId : ℕ
  held : Option ℕ
  replies : List ℕ
  sent : List MemRequest
  log : List OpRecord

/-- The operations of a device. -/
def Device.opsView (d : Device) : OpsView :=
  ⟨d.op, d.busyUntilClk, d.memIface, d.kernelId, d.submitId, d.opDoorbellResp, d.replies, d.sent,
    d.ops⟩

namespace OpsView

/-- An operation ends: the device is idle and the held response is sent. -/
def finish (outcome : Outcome) (x : OpsView) : OpsView :=
  { x with
    op := { x.op with phase := .idle }
    busy := 0
    held := none
    replies := x.replies ++ x.held.toList
    kernelId := if outcome = .finished then x.kernelId + 1 else x.kernelId
    log := amend (fun r => { r with outcome }) x.log }

/-- A request goes out. -/
def send (q : MemRequest) (x : OpsView) : OpsView :=
  { x with
    link := x.link ++ [q]
    sent := x.sent ++ [q]
    log := amend (fun r => { r with sends := r.sends ++ [q] }) x.log }

end OpsView

namespace Device

variable (p : Params) (d : Device)

/-- An action shows what it replies to. -/
theorem opsView_emit (a : Action) : (d.emit a).opsView =
    { d.opsView with
      replies := d.opsView.replies ++ a.repliesTo.toList
      sent := d.opsView.sent ++ a.sends.toList
      log := a.note d.opsView.log } := by
  have htail {α : Type} (f : Action → Option α) : [a].filterMap f = (f a).toList := by
    cases h : f a <;> simp [h]
  simp [opsView, replies, sent, ops, emit, htail]

/-- A quiet change shows nothing. -/
theorem opsView_quiet {d d' : Device} (h : Quiet d d') : d'.opsView = d.opsView := by
  obtain ⟨_, _, _, _, as, has, rfl⟩ := h
  have hnone {α : Type} (f : Action → Option α) (hf : ∀ a : Action, a.silent = true → f a = none) :
      as.filterMap f = [] := List.filterMap_eq_nil_iff.mpr fun a ha => hf a (has a ha)
  have hreplies := hnone Action.repliesTo (by rintro (_ | _) h <;> first | rfl | cases h)
  have hsent := hnone Action.sends (by rintro (_ | _) h <;> first | rfl | cases h)
  have hlog : ∀ log, as.foldl (fun log a => a.note log) log = log := by
    clear hnone hreplies hsent
    intro log
    induction as with
    | nil => rfl
    | cons a as ih =>
        have hsilent := has a List.mem_cons_self
        have hfirst : a.note log = log := by cases a <;> first | rfl | cases hsilent
        rw [List.foldl_cons, hfirst]
        exact ih fun b hb => has b (List.mem_cons_of_mem _ hb)
  simp [opsView, replies, sent, ops, hreplies, hsent, hlog]

/-- The doorbell that was held back is answered. -/
theorem opsView_releaseOpDoorbell : d.releaseOpDoorbell.opsView =
    { d.opsView with held := none, replies := d.opsView.replies ++ d.opsView.held.toList } := by
  rw [releaseOpDoorbell]
  cases hheld : d.opDoorbellResp with
  | none => simp [opsView, hheld]
  | some id =>
      have hemit := opsView_emit d (.writeResp id)
      simp only [opsView, OpsView.mk.injEq, hheld] at hemit ⊢
      obtain ⟨h1, h2, h3, h4, h5, -, h7, h8, h9⟩ := hemit
      exact ⟨h1, h2, h3, h4, h5, trivial, h7, h8.trans (List.append_nil _), h9⟩

/-- A rejection ends the operation in progress. -/
theorem opsView_opReject (why : String) :
    (d.opReject p why).opsView = d.opsView.finish .rejected := by
  have hview : ((d.emitEvent p (.error "operation-rejected")).emit (.reject why)).opsView =
      { d.opsView with log := amend (fun r => { r with outcome := .rejected }) d.opsView.log } := by
    rw [opsView_emit, opsView_quiet (.emitEvent p d _)]
    simp [Action.repliesTo, Action.sends, Action.note]
  simp only [opReject, opsView_quiet (.updatePrimaryHold _ _), opsView_releaseOpDoorbell]
  generalize (d.emitEvent p (.error "operation-rejected")).emit (.reject why) = d₁ at hview ⊢
  simp only [opsView, OpsView.mk.injEq, OpsView.finish] at hview ⊢
  obtain ⟨h1, -, h3, h4, h5, h6, h7, h8, h9⟩ := hview
  refine ⟨by rw [h1], trivial, h3, by simp [h4], h5, trivial, ?_, h8, h9⟩
  rw [h6]
  exact congrArg (· ++ _) h7

/-- So does a finish, which counts as a completion. -/
theorem opsView_opFinish (hbusy : d.busyUntilClk = 0) :
    (d.opFinish p).opsView = d.opsView.finish .finished := by
  have hview : ((d.emitEvent p .completed).emit .finish).opsView =
      { d.opsView with log := amend (fun r => { r with outcome := .finished }) d.opsView.log } := by
    rw [opsView_emit, opsView_quiet (.emitEvent p d _)]
    simp [Action.repliesTo, Action.sends, Action.note]
  simp only [opFinish, opsView_quiet (.updatePrimaryHold _ _),
    opsView_quiet (.raiseIrqOnRetire p _), opsView_releaseOpDoorbell]
  generalize (d.emitEvent p .completed).emit .finish = d₁ at hview ⊢
  simp only [opsView, OpsView.mk.injEq, OpsView.finish] at hview ⊢
  obtain ⟨h1, h2, h3, h4, h5, h6, h7, h8, h9⟩ := hview
  refine ⟨by rw [h1], h2.trans hbusy, h3, by simp [h4], h5, trivial, ?_, h8, h9⟩
  rw [h6]
  exact congrArg (· ++ _) h7

/-- A request to the memory. -/
theorem opsView_sendMem (q : MemRequest) : (d.sendMem q).opsView = d.opsView.send q := by
  have hemit := opsView_emit d (.memSend q)
  simp only [opsView, OpsView.mk.injEq, OpsView.send, sendMem] at hemit ⊢
  obtain ⟨h1, h2, -, h4, h5, h6, h7, h8, h9⟩ := hemit
  exact ⟨h1, h2, trivial, h4, h5, h6, h7.trans (List.append_nil _), h8, h9⟩

end Device

/-! ### The stages of an operation -/

/-- A request to read. -/
def MemRequest.IsRead : MemRequest → Prop
  | .read .. => True
  | .write .. => False

/-- The bytes of a request lie in the address space and, if there is one, in the DMA window. -/
def InWindow (p : Params) (q : MemRequest) : Prop :=
  q.chunk.1 + q.chunk.2 ≤ 2 ^ 64 ∧
    (p.dmaRangeEnd ≠ 0 → ∀ a, q.chunk.1 ≤ a → a < q.chunk.1 + q.chunk.2 →
      p.dmaRangeStart.toNat ≤ a ∧ a ≤ p.dmaRangeEnd.toNat)

/-- A part of an admitted span is in the window. -/
theorem inWindow_of_dmaRangeOk {p : Params} {base : UInt64} {len off n : ℕ} {q : MemRequest}
    (hq : q.chunk = (base.toNat + off, n)) (h : Device.dmaRangeOk p base.toNat len = true)
    (hn : off + n ≤ len) : InWindow p q := by
  have hspan := span_of_dmaRangeOk h
  refine ⟨by rw [hq]; dsimp only; omega, fun hend a hlo hhi => ?_⟩
  rw [hq] at hlo hhi
  dsimp only at hlo hhi
  have hlen : len ≠ 0 := by omega
  have hvalid : memorySpanValid base.toNat len = true := by
    by_contra hneg
    simp [Device.dmaRangeOk, hneg] at h
  simp only [Device.dmaRangeOk, hvalid, Bool.not_true, Bool.false_eq_true, if_false, hend, hlen,
    Bool.and_eq_true, decide_eq_true_eq] at h
  omega

/-- The tickets of the records count up from one. -/
def Numbered : List OpRecord → Prop
  | [] => True
  | r :: rest => r.ticket = rest.length + 1 ∧ Numbered rest

namespace OpsView

variable (p : Params) (x : OpsView)

/-- Tickets, counters and requests of all operations. -/
structure Ledger : Prop where
  numbered : Numbered x.log
  length : x.log.length = x.submitId
  done : x.kernelId = x.log.countP (·.outcome = .finished)
  window : ∀ q ∈ x.sent, InWindow p q
  rejected : ∀ r ∈ x.log, r.outcome = .rejected → ∀ q ∈ r.sends, q.IsRead

/-- No operation is in progress. -/
structure Idle : Prop where
  phase : x.op.phase = .idle
  busy : x.busy = 0
  link : x.link = []
  held : x.held = none
  ended : ∀ r ∈ x.log, r.outcome ≠ .running

/-- The newest operation is in progress, and no other. -/
structure Active (r : OpRecord) (rest : List OpRecord) : Prop where
  log : x.log = r :: rest
  running : r.outcome = .running
  ended : ∀ s ∈ rest, s.outcome ≠ .running

/-- Reads are being issued and answered, or the kernel computes. -/
structure Reading : Prop where
  phase : x.op.phase = .reading
  range : Device.dmaRangeOk p x.op.args.srcAddr.toNat x.op.inBytes = true
  off_le : x.op.nextDmaOff ≤ x.op.inBytes
  count : x.op.outstanding = x.link.length
  reads : ∀ q ∈ x.link, q.IsRead
  computing : x.busy ≠ 0 → x.link = []
  active : ∃ r rest, x.Active r rest ∧ ∀ q ∈ r.sends, q.IsRead

/-- Writes are being issued and answered. -/
structure Writing : Prop where
  phase : x.op.phase = .writing
  busy : x.busy = 0
  range : Device.dmaRangeOk p x.op.args.dstAddr.toNat x.op.output.length = true
  off_le : x.op.nextDmaOff ≤ x.op.output.length
  count : x.op.outstanding = x.link.length
  writes : ∀ q ∈ x.link, ¬q.IsRead
  active : ∃ r rest, x.Active r rest

/-- The stage the newest operation is in. -/
inductive Stage : Prop
  | idle (h : x.Idle)
  | reading (h : x.Reading p)
  | writing (h : x.Writing p)

/-- The invariant of a device with a kernel. -/
structure Sound : Prop where
  ledger : x.Ledger p
  stage : x.Stage p

/-- The tickets of the operations and how they ended. -/
def statuses : List (ℕ × Outcome) := x.log.map fun r => (r.ticket, r.outcome)

/-- Nothing the guest can tell has happened to an operation. -/
structure Same (y : OpsView) : Prop where
  submitId : y.submitId = x.submitId
  kernelId : y.kernelId = x.kernelId
  held : y.held = x.held
  replies : y.replies = x.replies
  statuses : y.statuses = x.statuses

/-- The operation in progress has ended: the device is idle and the held response is sent. -/
structure Ended (outcome : Outcome) (y : OpsView) : Prop where
  submitId : y.submitId = x.submitId
  kernelId : y.kernelId = if outcome = .finished then x.kernelId + 1 else x.kernelId
  idle : y.Idle
  replies : y.replies = x.replies ++ x.held.toList
  ended : outcome ≠ .running
  statuses : ∃ ticket rest, x.statuses = (ticket, .running) :: rest ∧
    y.statuses = (ticket, outcome) :: rest

/-- What the device does on its own to the operation in progress; `refused` is what a rejection
takes. -/
inductive Progress (refused : Prop) (y : OpsView) : Prop
  | same (h : x.Same y)
  | ended {outcome : Outcome} (h : x.Ended outcome y) (hr : outcome = .rejected → refused)

variable {p x} {y z : OpsView} {r : OpRecord} {rest : List OpRecord}

/-- Nothing has changed. -/
theorem Same.refl : x.Same x := ⟨rfl, rfl, rfl, rfl, rfl⟩

/-- Two changes that show nothing. -/
theorem Same.trans (h : x.Same y) (h' : y.Same z) : x.Same z :=
  ⟨h'.submitId.trans h.submitId, h'.kernelId.trans h.kernelId, h'.held.trans h.held,
    h'.replies.trans h.replies, h'.statuses.trans h.statuses⟩

/-- More may be refused. -/
theorem Progress.mono {refused refused' : Prop} (h : x.Progress refused y)
    (himp : refused → refused') : x.Progress refused' y := by
  cases h with
  | same h => exact .same h
  | ended h hr => exact .ended h fun hrej => himp (hr hrej)

/-- A change that shows nothing, and then progress. -/
theorem Same.progress {refused : Prop} (h : x.Same y) (h' : y.Progress refused z) :
    x.Progress refused z := by
  cases h' with
  | same h' => exact .same (h.trans h')
  | ended h' hr =>
      refine .ended ⟨h'.submitId.trans h.submitId, ?_, h'.idle, ?_, h'.ended, ?_⟩ hr
      · rw [h'.kernelId, h.kernelId]
      · rw [h'.replies, h.replies, h.held]
      · rw [← h.statuses]
        exact h'.statuses

/-- The end of an operation that has not broken the rules. -/
theorem finish_sound (hledger : x.Ledger p) (hactive : x.Active r rest) (hlink : x.link = [])
    {outcome : Outcome} (hover : outcome ≠ .running)
    (hreads : outcome = .rejected → ∀ q ∈ r.sends, q.IsRead) :
    (x.finish outcome).Sound p ∧ x.Ended outcome (x.finish outcome) := by
  obtain ⟨hlog, hrunning, hrest⟩ := hactive
  have hlog' : (x.finish outcome).log = { r with outcome } :: rest := by
    simp [finish, hlog, amend]
  have hidle : (x.finish outcome).Idle := by
    refine ⟨rfl, rfl, hlink, rfl, ?_⟩
    rw [hlog']
    intro s hs
    rcases List.mem_cons.mp hs with rfl | hs
    · exact hover
    · exact hrest s hs
  refine ⟨⟨⟨?_, ?_, ?_, hledger.window, ?_⟩, .idle hidle⟩, rfl, rfl, hidle, rfl, hover,
    r.ticket, rest.map fun s => (s.ticket, s.outcome), ?_, ?_⟩
  · have hnum := hledger.numbered
    rw [hlog] at hnum
    rw [hlog']
    exact hnum
  · rw [hlog', show (x.finish outcome).submitId = x.submitId from rfl, ← hledger.length, hlog]
    rfl
  · have hdone := hledger.done
    rw [hlog, List.countP_cons_of_neg (by simp [hrunning])] at hdone
    rw [hlog']
    cases outcome with
    | running => exact absurd rfl hover
    | finished => simpa [finish] using hdone
    | rejected => simpa [finish] using hdone
  · rw [hlog']
    intro s hs hrej
    rcases List.mem_cons.mp hs with rfl | hs
    · exact hreads hrej
    · exact hledger.rejected s (hlog ▸ List.mem_cons_of_mem _ hs) hrej
  · simp [statuses, hlog, hrunning]
  · simp [statuses, hlog']

/-- A request in the window keeps the books. -/
theorem send_sound (hledger : x.Ledger p) (hactive : x.Active r rest) {q : MemRequest}
    (hq : InWindow p q) :
    (x.send q).Ledger p ∧ (x.send q).Active { r with sends := r.sends ++ [q] } rest ∧
      x.Same (x.send q) := by
  obtain ⟨hlog, hrunning, hrest⟩ := hactive
  have hlog' : (x.send q).log = { r with sends := r.sends ++ [q] } :: rest := by
    simp [send, hlog, amend]
  refine ⟨⟨?_, ?_, ?_, ?_, ?_⟩, ⟨hlog', hrunning, hrest⟩, rfl, rfl, rfl, rfl, ?_⟩
  · have hnum := hledger.numbered
    rw [hlog] at hnum
    rw [hlog']
    exact hnum
  · rw [hlog', show (x.send q).submitId = x.submitId from rfl, ← hledger.length, hlog]
    rfl
  · have hdone := hledger.done
    rw [hlog, List.countP_cons_of_neg (by simp [hrunning])] at hdone
    rw [hlog', List.countP_cons_of_neg (by simp [hrunning])]
    exact hdone
  · intro q' hq'
    rcases List.mem_append.mp hq' with hq' | hq'
    · exact hledger.window q' hq'
    · rwa [List.mem_singleton.mp hq']
  · rw [hlog']
    intro s hs hrej
    rcases List.mem_cons.mp hs with rfl | hs
    · exact absurd (hrunning.symm.trans hrej) (by decide)
    · exact hledger.rejected s (hlog ▸ List.mem_cons_of_mem _ hs) hrej
  · simp [statuses, hlog, hlog']

/-- The books do not depend on the operation's registers. -/
theorem Ledger.congr (h : x.Ledger p) (hlog : y.log = x.log) (hsubmit : y.submitId = x.submitId)
    (hkernel : y.kernelId = x.kernelId) (hsent : y.sent = x.sent) : y.Ledger p := by
  refine ⟨?_, ?_, ?_, ?_, ?_⟩
  · exact hlog ▸ h.numbered
  · rw [hlog, hsubmit, h.length]
  · rw [hlog, hkernel, h.done]
  · exact hsent ▸ h.window
  · exact hlog ▸ h.rejected

/-- The log decides. -/
theorem Active.congr (h : x.Active r rest) (hlog : y.log = x.log) : y.Active r rest :=
  ⟨hlog.trans h.log, h.running, h.ended⟩

end OpsView

variable {p : Params} {k : QuetzKernel} {d d' : Device}

open OpsView

/-- One turn of the read loop. -/
theorem reading_issue (hledger : d.opsView.Ledger p) (h : d.opsView.Reading p)
    (hbusy : d.busyUntilClk = 0) (hoff : d.op.nextDmaOff < d.op.inBytes) :
    (d.opIssueRead p).opsView.Ledger p ∧ (d.opIssueRead p).opsView.Reading p ∧
      d.opsView.Same (d.opIssueRead p).opsView := by
  obtain ⟨hphase, hrange, hle, hcount, hreads, -, r, rest, hactive, hsends⟩ := h
  have hspan : d.op.args.srcAddr.toNat + d.op.inBytes ≤ 2 ^ 64 := span_of_dmaRangeOk hrange
  have haddr : wrap64 (d.op.args.srcAddr.toNat + d.op.nextDmaOff) =
      d.op.args.srcAddr.toNat + d.op.nextDmaOff := by
    refine wrap64_of_le ?_
    simp only [uint64Max]
    omega
  rw [Device.opIssueRead, Device.opsView_sendMem]
  simp only [haddr]
  set n := memoryChunkSize (d.op.args.srcAddr.toNat + d.op.nextDmaOff)
    (d.op.inBytes - d.op.nextDmaOff) p.lineSize.toNat kOpDmaChunk
  have hn : n ≤ d.op.inBytes - d.op.nextDmaOff := memoryChunkSize_le.1
  set q := MemRequest.read d.nextReqId (d.op.args.srcAddr.toNat + d.op.nextDmaOff) n
  set d₁ : Device := { d with op := { d.op with
    reqOff := Function.update d.op.reqOff d.nextReqId (some d.op.nextDmaOff)
    nextDmaOff := d.op.nextDmaOff + n
    outstanding := d.op.outstanding + 1 } }
  have hfits : d.op.nextDmaOff + n ≤ d.op.inBytes := by omega
  have hchunk : q.chunk = (d.op.args.srcAddr.toNat + d.op.nextDmaOff, n) := rfl
  have hq : InWindow p q := inWindow_of_dmaRangeOk hchunk hrange hfits
  obtain ⟨hledger', hactive', hsame⟩ := send_sound (x := d₁.opsView)
    (hledger.congr rfl rfl rfl rfl) (hactive.congr rfl) hq
  refine ⟨hledger', ⟨hphase, hrange, ?_, ?_, ?_, fun h0 => absurd hbusy h0, _, _, hactive', ?_⟩,
    Same.trans (y := d₁.opsView) ⟨rfl, rfl, rfl, rfl, rfl⟩ hsame⟩
  · exact hfits
  · have hlen : d.op.outstanding = d.memIface.length := hcount
    show d.op.outstanding + 1 = (d.memIface ++ [q]).length
    rw [hlen, List.length_append]
    rfl
  · intro q' hq'
    rcases List.mem_append.mp hq' with hq' | hq'
    · exact hreads q' hq'
    · rw [List.mem_singleton.mp hq']
      trivial
  · intro q' hq'
    rcases List.mem_append.mp hq' with hq' | hq'
    · exact hsends q' hq'
    · rw [List.mem_singleton.mp hq']
      trivial

/-- One turn of the write loop. -/
theorem writing_issue (hledger : d.opsView.Ledger p) (h : d.opsView.Writing p)
    (hoff : d.op.nextDmaOff < d.op.output.length) :
    (d.opIssueWrite p).opsView.Ledger p ∧ (d.opIssueWrite p).opsView.Writing p ∧
      d.opsView.Same (d.opIssueWrite p).opsView := by
  obtain ⟨hphase, hbusy, hrange, hle, hcount, hwrites, r, rest, hactive⟩ := h
  have hspan : d.op.args.dstAddr.toNat + d.op.output.length ≤ 2 ^ 64 := span_of_dmaRangeOk hrange
  have haddr : wrap64 (d.op.args.dstAddr.toNat + d.op.nextDmaOff) =
      d.op.args.dstAddr.toNat + d.op.nextDmaOff := by
    refine wrap64_of_le ?_
    simp only [uint64Max]
    omega
  rw [Device.opIssueWrite, Device.opsView_sendMem]
  simp only [haddr]
  set n := memoryChunkSize (d.op.args.dstAddr.toNat + d.op.nextDmaOff)
    (d.op.output.length - d.op.nextDmaOff) p.lineSize.toNat kOpDmaChunk
  have hn : n ≤ d.op.output.length - d.op.nextDmaOff := memoryChunkSize_le.1
  set q := MemRequest.write d.nextReqId (d.op.args.dstAddr.toNat + d.op.nextDmaOff)
    ((d.op.output.drop d.op.nextDmaOff).take n) with hqdef
  set d₁ : Device := { d with op := { d.op with
    nextDmaOff := d.op.nextDmaOff + n, outstanding := d.op.outstanding + 1 } }
  have hchunk : q.chunk = (d.op.args.dstAddr.toNat + d.op.nextDmaOff, n) := by
    have hlen : ((d.op.output.drop d.op.nextDmaOff).take n).length = n := by
      rw [List.length_take, List.length_drop]
      omega
    rw [hqdef, MemRequest.chunk, hlen]
  have hfits : d.op.nextDmaOff + n ≤ d.op.output.length := by omega
  have hq : InWindow p q := inWindow_of_dmaRangeOk hchunk hrange hfits
  obtain ⟨hledger', hactive', hsame⟩ := send_sound (x := d₁.opsView)
    (hledger.congr rfl rfl rfl rfl) (hactive.congr rfl) hq
  refine ⟨hledger', ⟨hphase, hbusy, hrange, ?_, ?_, ?_, _, _, hactive'⟩,
    Same.trans (y := d₁.opsView) ⟨rfl, rfl, rfl, rfl, rfl⟩ hsame⟩
  · exact hfits
  · have hlen : d.op.outstanding = d.memIface.length := hcount
    show d.op.outstanding + 1 = (d.memIface ++ [q]).length
    rw [hlen, List.length_append]
    rfl
  · intro q' hq'
    rcases List.mem_append.mp hq' with hq' | hq'
    · exact hwrites q' hq'
    · rw [List.mem_singleton.mp hq']
      exact id

/-- The read window. -/
theorem reading_window (hledger : d.opsView.Ledger p) (h : d.opsView.Reading p)
    (hbusy : d.busyUntilClk = 0) (fuel : ℕ) :
    (d.opIssueReads p fuel).opsView.Ledger p ∧ (d.opIssueReads p fuel).opsView.Reading p ∧
      d.opsView.Same (d.opIssueReads p fuel).opsView ∧
      (d.opIssueReads p fuel).busyUntilClk = 0 := by
  induction fuel generalizing d with
  | zero => exact ⟨hledger, h, .refl, hbusy⟩
  | succ fuel ih =>
      rw [Device.opIssueReads]
      by_cases hcond : d.op.nextDmaOff < d.op.inBytes ∧ d.op.outstanding < kMaxOpDmaOutstanding
      · rw [if_pos hcond]
        obtain ⟨hledger₁, h₁, hsame₁⟩ := reading_issue hledger h hbusy hcond.1
        obtain ⟨hledger₂, h₂, hsame₂, hbusy₂⟩ := ih hledger₁ h₁ hbusy
        exact ⟨hledger₂, h₂, hsame₁.trans hsame₂, hbusy₂⟩
      · rw [if_neg hcond]
        exact ⟨hledger, h, .refl, hbusy⟩

/-- The write window. -/
theorem writing_window (hledger : d.opsView.Ledger p) (h : d.opsView.Writing p) (fuel : ℕ) :
    (d.opIssueWrites p fuel).opsView.Ledger p ∧ (d.opIssueWrites p fuel).opsView.Writing p ∧
      d.opsView.Same (d.opIssueWrites p fuel).opsView := by
  induction fuel generalizing d with
  | zero => exact ⟨hledger, h, .refl⟩
  | succ fuel ih =>
      rw [Device.opIssueWrites]
      by_cases hcond :
          d.op.nextDmaOff < d.op.output.length ∧ d.op.outstanding < kMaxOpDmaOutstanding
      · rw [if_pos hcond]
        obtain ⟨hledger₁, h₁, hsame₁⟩ := writing_issue hledger h hcond.1
        obtain ⟨hledger₂, h₂, hsame₂⟩ := ih hledger₁ h₁
        exact ⟨hledger₂, h₂, hsame₁.trans hsame₂⟩
      · rw [if_neg hcond]
        exact ⟨hledger, h, .refl⟩

/-- The output does not fit the DMA window. -/
def OutputRefused (p : Params) (args : KernelArgs) (output : List UInt8) : Prop :=
  ¬Device.dmaRangeOk p args.dstAddr.toNat output.length = true

/-- The writeback is rejected, or its first writes are sent. -/
theorem opBeginWriteback_sound {r : OpRecord} {rest : List OpRecord}
    (hledger : d.opsView.Ledger p) (hactive : d.opsView.Active r rest)
    (hsends : ∀ q ∈ r.sends, q.IsRead) (hlink : d.memIface = []) (hbusy : d.busyUntilClk = 0) :
    (d.opBeginWriteback p).opsView.Sound p ∧
      d.opsView.Progress (OutputRefused p d.op.args d.op.output)
        (d.opBeginWriteback p).opsView := by
  rw [Device.opBeginWriteback]
  by_cases hrange : Device.dmaRangeOk p d.op.args.dstAddr.toNat d.op.output.length = true
  · rw [if_neg (by rw [hrange]; decide)]
    dsimp only
    rw [Device.opsView_quiet (.updatePrimaryHold _ _)]
    set d₀ : Device :=
      { d with op := { d.op with phase := .writing, outstanding := 0, nextDmaOff := 0 } }
    have hstart : d₀.opsView.Writing p := by
      refine ⟨rfl, hbusy, hrange, Nat.zero_le _, ?_, ?_, r, rest, hactive.congr rfl⟩
      · exact (congrArg List.length hlink).symm
      · intro q hq
        have hmem : q ∈ d.memIface := hq
        rw [hlink] at hmem
        cases hmem
    obtain ⟨hledger', hwriting, hsame⟩ :=
      writing_window (d := d₀) (hledger.congr rfl rfl rfl rfl) hstart (kMaxOpDmaOutstanding - 0)
    exact ⟨⟨hledger', .writing hwriting⟩,
      .same (Same.trans (y := d₀.opsView) ⟨rfl, rfl, rfl, rfl, rfl⟩ hsame)⟩
  · rw [if_pos (by simp [hrange]), Device.opsView_opReject]
    obtain ⟨hsound, hended⟩ := finish_sound hledger hactive hlink
      (by decide : Outcome.rejected ≠ .running) (fun _ => hsends)
    exact ⟨hsound, .ended hended fun _ => hrange⟩

/-- The operation computes without latency, and its output does not fit. -/
def ComputeRefused (p : Params) (k : QuetzKernel) (d : Device) (input : List UInt8) : Prop :=
  d.latencyOverride = 0 ∧ (k.compute d.op.args input).1 = 0 ∧ p.kernelLatency = 0 ∧
    OutputRefused p d.op.args (k.compute d.op.args input).2

/-- The kernel runs once its input is complete. -/
theorem opComputeAndStartBusy_sound (hledger : d.opsView.Ledger p) (hread : d.opsView.Reading p)
    (hlink : d.memIface = []) (hbusy : d.busyUntilClk = 0)
    (h : d.opComputeAndStartBusy p k = .ok d') :
    d'.opsView.Sound p ∧ d.opsView.Progress (ComputeRefused p k d d.op.input) d'.opsView := by
  obtain ⟨r, rest, hactive, hsends⟩ := hread.active
  have hcompute := d.opsView_emit (.compute d.op.args d.op.input)
  simp only [Action.repliesTo, Action.sends, Action.note, Option.toList_none,
    List.append_nil] at hcompute
  have hview : (d.computed k).opsView = { d.opsView with op := (d.computed k).op } :=
    congrArg (fun x : OpsView => { x with op := (d.computed k).op }) hcompute
  have hledger₁ : (d.computed k).opsView.Ledger p := by
    rw [hview]
    exact hledger.congr rfl rfl rfl rfl
  have hactive₁ : (d.computed k).opsView.Active r rest := by
    rw [hview]
    exact hactive.congr rfl
  have hsame : d.opsView.Same (d.computed k).opsView := by
    rw [hview]
    exact ⟨rfl, rfl, rfl, rfl, rfl⟩
  rw [Device.opComputeAndStartBusy_eq h]
  split_ifs with hzero
  · obtain ⟨hsound, hprogress⟩ := opBeginWriteback_sound hledger₁ hactive₁ hsends hlink hbusy
    refine ⟨hsound, hsame.progress (hprogress.mono fun hrefused => ?_)⟩
    obtain ⟨hover, hkernel, hdefault⟩ := Device.opLatency_eq_zero hzero
    exact ⟨hover, hkernel, hdefault, hrefused⟩
  · rw [Device.opsView_quiet (.updatePrimaryHold _ _)]
    have hsame' : d.opsView.Same { (d.computed k).opsView with
        busy := wrap64 (d.gpuClk + d.opLatency p k) } :=
      hsame.trans ⟨rfl, rfl, rfl, rfl, rfl⟩
    refine ⟨⟨hledger₁.congr rfl rfl rfl rfl, .reading ?_⟩, .same hsame'⟩
    exact ⟨hread.phase, hread.range, hread.off_le, hread.count, hread.reads, fun _ => hlink, r,
      rest, hactive₁.congr rfl, hsends⟩

/-- A read window that leaves nothing in flight has issued nothing. -/
theorem opIssueReads_none {fuel : ℕ} (h : (d.opIssueReads p fuel).op.outstanding = 0) :
    d.opIssueReads p fuel = d := by
  have hmono : ∀ (fuel : ℕ) (d : Device),
      d.op.outstanding ≤ (d.opIssueReads p fuel).op.outstanding := by
    intro fuel
    induction fuel with
    | zero => exact fun _ => Nat.le_refl _
    | succ fuel ih =>
        intro d
        rw [Device.opIssueReads]
        split_ifs
        · exact (Nat.le_succ _).trans (ih (d.opIssueRead p))
        · exact Nat.le_refl _
  cases fuel with
  | zero => rfl
  | succ fuel =>
      rw [Device.opIssueReads] at h ⊢
      split_ifs at h ⊢
      · have hle : d.op.outstanding + 1 ≤ _ := hmono fuel (d.opIssueRead p)
        omega
      · rfl

/-- The input buffer with the answer of a read in its place. -/
def inputWith (d : Device) (off : ℕ) (data : List UInt8) : List UInt8 :=
  overwrite d.op.input off (data.take (d.op.inBytes - off))

/-- The answer to the last read starts a computation that is refused. -/
def AnswerRefused (p : Params) (k : QuetzKernel) (d : Device) (id : ℕ) (data : List UInt8) :
    Prop :=
  ∃ off, d.op.reqOff id = some off ∧ d.op.outstanding = 1 ∧ d.op.nextDmaOff = d.op.inBytes ∧
    ComputeRefused p k d (inputWith d off data)

/-- A read is answered. -/
theorem opOnReadResp_sound (hsound : d.opsView.Sound p) {i id addr n : ℕ} {data : List UInt8}
    (hi : d.memIface[i]? = some (.read id addr n))
    (h : { d with memIface := d.memIface.eraseIdx i }.opOnReadResp p k id data = .ok d') :
    d'.opsView.Sound p ∧ d.opsView.Progress (AnswerRefused p k d id data) d'.opsView := by
  obtain ⟨hledger, hstage⟩ := hsound
  have hmem : MemRequest.read id addr n ∈ d.memIface := List.mem_of_getElem? hi
  cases hstage with
  | idle hidle =>
      have hlink : d.memIface = [] := hidle.link
      rw [hlink] at hmem
      cases hmem
  | writing hwriting => exact absurd trivial (hwriting.writes _ hmem)
  | reading hread =>
      have hbusy : d.busyUntilClk = 0 := by
        by_contra hne
        have hlink : d.memIface = [] := hread.computing hne
        rw [hlink] at hmem
        cases hmem
      rw [Device.opOnReadResp] at h
      cases hoff : d.op.reqOff id with
      | none =>
          simp only [hoff] at h
          cases h
      | some off =>
          simp only [hoff] at h
          set d₀ : Device := { d with
            memIface := d.memIface.eraseIdx i
            op := { d.op with
              reqOff := Function.update d.op.reqOff id none
              input := overwrite d.op.input off (data.take (d.op.inBytes - off))
              outstanding := d.op.outstanding - 1 } }
          have hlen : (d.memIface.eraseIdx i).length = d.memIface.length - 1 :=
            List.length_eraseIdx_of_lt (List.getElem?_eq_some_iff.mp hi).1
          have hcount : d.op.outstanding = d.memIface.length := hread.count
          have hread₀ : d₀.opsView.Reading p := by
            obtain ⟨r, rest, hactive, hsends⟩ := hread.active
            refine ⟨hread.phase, hread.range, hread.off_le, ?_, ?_, fun h0 => absurd hbusy h0, r,
              rest, hactive.congr rfl, hsends⟩
            · show d.op.outstanding - 1 = (d.memIface.eraseIdx i).length
              rw [hlen, hcount]
            · exact fun q hq => hread.reads q ((List.eraseIdx_sublist _ _).mem hq)
          obtain ⟨hledger₁, hread₁, hsame, hbusy₁⟩ := reading_window (d := d₀)
            (hledger.congr rfl rfl rfl rfl) hread₀ hbusy
            (kMaxOpDmaOutstanding - (d.op.outstanding - 1))
          have hsame' : d.opsView.Same (d₀.opIssueReadWindow p).opsView :=
            Same.trans (y := d₀.opsView) ⟨rfl, rfl, rfl, rfl, rfl⟩ hsame
          split_ifs at h with hlast
          · have hlink₁ : (d₀.opIssueReadWindow p).memIface = [] :=
              List.length_eq_zero_iff.mp (hread₁.count.symm.trans hlast.1)
            obtain ⟨hs, hp⟩ :=
              opComputeAndStartBusy_sound hledger₁ hread₁ hlink₁ hbusy₁ h
            refine ⟨hs, hsame'.progress (hp.mono fun hrefused => ?_)⟩
            have hsame₀ : d₀.opIssueReadWindow p = d₀ := opIssueReads_none hlast.1
            rw [hsame₀] at hlast
            rw [show d₀.opIssueReads p (kMaxOpDmaOutstanding - (d.op.outstanding - 1)) = d₀ from
              hsame₀] at hrefused
            have hone : d.op.outstanding = 1 := by
              have hzero : d.op.outstanding - 1 = 0 := hlast.1
              have hpos := List.length_pos_of_mem hmem
              omega
            exact ⟨off, hoff, hone, hlast.2, hrefused⟩
          · cases h
            exact ⟨⟨hledger₁, .reading hread₁⟩, .same hsame'⟩

/-- A write is answered. -/
theorem opOnWriteResp_sound (hsound : d.opsView.Sound p) {i id addr : ℕ} {data : List UInt8}
    (hi : d.memIface[i]? = some (.write id addr data)) :
    (Device.opOnWriteResp p { d with memIface := d.memIface.eraseIdx i }).opsView.Sound p ∧
      d.opsView.Progress False
        (Device.opOnWriteResp p { d with memIface := d.memIface.eraseIdx i }).opsView := by
  obtain ⟨hledger, hstage⟩ := hsound
  have hmem : MemRequest.write id addr data ∈ d.memIface := List.mem_of_getElem? hi
  cases hstage with
  | idle hidle =>
      have hlink : d.memIface = [] := hidle.link
      rw [hlink] at hmem
      cases hmem
  | reading hread => exact False.elim (hread.reads _ hmem)
  | writing hwriting =>
      have hlen : (d.memIface.eraseIdx i).length = d.memIface.length - 1 :=
        List.length_eraseIdx_of_lt (List.getElem?_eq_some_iff.mp hi).1
      have hcount : d.op.outstanding = d.memIface.length := hwriting.count
      have hpos := List.length_pos_of_mem hmem
      have hsome : ¬d.op.outstanding = 0 := by omega
      rw [Device.opOnWriteResp, if_neg hsome]
      dsimp only
      set d₀ : Device := { d with
        memIface := d.memIface.eraseIdx i
        op := { d.op with outstanding := d.op.outstanding - 1 } }
      have hwriting₀ : d₀.opsView.Writing p := by
        obtain ⟨r, rest, hactive⟩ := hwriting.active
        refine ⟨hwriting.phase, hwriting.busy, hwriting.range, hwriting.off_le, ?_, ?_, r, rest,
          hactive.congr rfl⟩
        · show d.op.outstanding - 1 = (d.memIface.eraseIdx i).length
          rw [hlen, hcount]
        · exact fun q hq => hwriting.writes q ((List.eraseIdx_sublist _ _).mem hq)
      obtain ⟨hledger₁, hwriting₁, hsame⟩ := writing_window (d := d₀)
        (hledger.congr rfl rfl rfl rfl) hwriting₀ (kMaxOpDmaOutstanding - (d.op.outstanding - 1))
      have hsame' : d.opsView.Same (d₀.opIssueWriteWindow p).opsView :=
        Same.trans (y := d₀.opsView) ⟨rfl, rfl, rfl, rfl, rfl⟩ hsame
      split_ifs with hlast
      · have hlink₁ : (d₀.opIssueWriteWindow p).memIface = [] :=
          List.length_eq_zero_iff.mp (hwriting₁.count.symm.trans hlast.1)
        obtain ⟨r, rest, hactive⟩ := hwriting₁.active
        obtain ⟨hs, hended⟩ := finish_sound hledger₁ hactive hlink₁
          (by decide : Outcome.finished ≠ .running) (fun h0 => by cases h0)
        rw [Device.opsView_opFinish p (d₀.opIssueWriteWindow p) hwriting₁.busy]
        exact ⟨hs, hsame'.progress (.ended hended fun h0 => by cases h0)⟩
      · exact ⟨⟨hledger₁, .writing hwriting₁⟩, .same hsame'⟩

/-- The busy window of an operation is over, and its output does not fit. -/
def WindowRefused (p : Params) (d : Device) (nowClk : ℕ) : Prop :=
  d.busyUntilClk ≠ 0 ∧ d.busyUntilClk ≤ nowClk ∧ OutputRefused p d.op.args d.op.output

/-- The end of the busy window of an operation. -/
theorem retireIfReady_sound (hk : p.kernel = some k) (hsound : d.opsView.Sound p) (nowClk : ℕ) :
    (d.retireIfReady p nowClk).opsView.Sound p ∧
      d.opsView.Progress (WindowRefused p d nowClk) (d.retireIfReady p nowClk).opsView := by
  rw [Device.retireIfReady]
  by_cases hready : d.busyUntilClk = 0 ∨ nowClk < d.busyUntilClk
  · rw [if_pos hready]
    exact ⟨hsound, .same .refl⟩
  · rw [if_neg hready]
    obtain ⟨hledger, hstage⟩ := hsound
    have hbusy : d.busyUntilClk ≠ 0 := fun h0 => hready (.inl h0)
    cases hstage with
    | idle hidle => exact absurd hidle.busy hbusy
    | writing hwriting => exact absurd hwriting.busy hbusy
    | reading hread =>
        rw [if_pos ⟨by rw [hk]; rfl, hread.phase⟩]
        obtain ⟨r, rest, hactive, hsends⟩ := hread.active
        obtain ⟨hs, hp⟩ := opBeginWriteback_sound (d := { d with busyUntilClk := 0 })
          (hledger.congr rfl rfl rfl rfl) (hactive.congr rfl) hsends (hread.computing hbusy) rfl
        refine ⟨hs, Same.progress (y := { d.opsView with busy := 0 }) ⟨rfl, rfl, rfl, rfl, rfl⟩
          (hp.mono fun hrefused => ⟨hbusy, ?_, hrefused⟩)⟩
        omega

/-- The device takes the arguments of an operation. -/
def Admits (p : Params) (k : QuetzKernel) (args : KernelArgs) : Prop :=
  (k.inputBytes args).1 ≠ 0 ∧
    Device.dmaRangeOk p args.srcAddr.toNat (k.inputBytes args).1.toNat = true ∧
    Device.dmaRangeOk p args.dstAddr.toNat 1 = true

/-- An operation is rejected at its doorbell, or its first reads are sent. -/
theorem opStartDma_sound {r : OpRecord} {rest : List OpRecord} (hledger : d.opsView.Ledger p)
    (hactive : d.opsView.Active r rest) (hsends : r.sends = []) (hlink : d.memIface = [])
    (hbusy : d.busyUntilClk = 0) :
    (d.opStartDma p k).opsView.Sound p ∧
      d.opsView.Progress (¬Admits p k d.op.args) (d.opStartDma p k).opsView := by
  rw [Device.opStartDma]
  dsimp only
  set d₀ : Device := { d with op := { d.op with inBytes := (k.inputBytes d.op.args).1.toNat } }
    with hd₀
  have hsame₀ : d.opsView.Same d₀.opsView := ⟨rfl, rfl, rfl, rfl, rfl⟩
  have hreads : ∀ q ∈ r.sends, q.IsRead := by simp [hsends]
  have hreject (why : String) (hrefused : ¬Admits p k d.op.args) :
      (d₀.opReject p why).opsView.Sound p ∧
        d.opsView.Progress (¬Admits p k d.op.args) (d₀.opReject p why).opsView := by
    obtain ⟨hs, hended⟩ := finish_sound (x := d₀.opsView) (hledger.congr rfl rfl rfl rfl)
      (hactive.congr rfl) hlink (by decide : Outcome.rejected ≠ .running) (fun _ => hreads)
    rw [Device.opsView_opReject]
    exact ⟨hs, hsame₀.progress (.ended hended fun _ => hrefused)⟩
  by_cases hzero : (k.inputBytes d.op.args).1.toNat = 0
  · rw [if_pos hzero]
    exact hreject _ fun hadmits => hadmits.1 (UInt64.toNat_inj.mp hzero)
  rw [if_neg hzero]
  by_cases hsrc :
      Device.dmaRangeOk p d.op.args.srcAddr.toNat (k.inputBytes d.op.args).1.toNat = true
  swap
  · rw [if_pos (by simpa using hsrc)]
    exact hreject _ fun hadmits => hsrc hadmits.2.1
  rw [if_neg (by simpa using hsrc)]
  by_cases hdst : Device.dmaRangeOk p d.op.args.dstAddr.toNat 1 = true
  swap
  · rw [if_pos (by simpa using hdst)]
    exact hreject _ fun hadmits => hdst hadmits.2.2
  rw [if_neg (by simpa using hdst), Device.opsView_quiet (.updatePrimaryHold _ _)]
  set d₁ : Device := { d₀ with op := { d₀.op with
    input := List.replicate d₀.op.inBytes 0
    reqOff := fun _ => none
    outstanding := 0
    nextDmaOff := 0
    phase := .reading } } with hd₁
  have hstart : d₁.opsView.Reading p := by
    refine ⟨rfl, hsrc, Nat.zero_le _, ?_, ?_, fun h0 => absurd hbusy h0, r, rest,
      hactive.congr rfl, hreads⟩
    · exact (congrArg List.length hlink).symm
    · intro q hq
      have hmem : q ∈ d.memIface := hq
      rw [hlink] at hmem
      cases hmem
  obtain ⟨hledger', hread, hsame, -⟩ := reading_window (d := d₁)
    (hledger.congr rfl rfl rfl rfl) hstart hbusy (kMaxOpDmaOutstanding - 0)
  exact ⟨⟨hledger', .reading hread⟩,
    .same (Same.trans (y := d₁.opsView) ⟨rfl, rfl, rfl, rfl, rfl⟩ hsame)⟩

/-- A doorbell has given out the next ticket. -/
structure OpsView.Launched (p : Params) (write : MmioWrite) (x y : OpsView) : Prop where
  idle : x.Idle
  submitId : y.submitId = x.submitId + 1
  kernelId : y.kernelId = x.kernelId
  held : y.held = if !write.posted && p.doorbellBlocking then some write.id else none
  replies : y.replies = x.replies
  statuses : y.statuses = (x.submitId + 1, .running) :: x.statuses

/-- One more write response. -/
def OpsView.reply (id : ℕ) (x : OpsView) : OpsView := { x with replies := x.replies ++ [id] }

/-- A reply is sound. -/
theorem OpsView.Sound.reply {x : OpsView} (h : x.Sound p) (id : ℕ) : (x.reply id).Sound p := by
  refine ⟨h.ledger.congr rfl rfl rfl rfl, ?_⟩
  cases h.stage with
  | idle h => exact .idle ⟨h.phase, h.busy, h.link, h.held, h.ended⟩
  | reading h =>
      obtain ⟨r, rest, hactive, hsends⟩ := h.active
      exact .reading ⟨h.phase, h.range, h.off_le, h.count, h.reads, h.computing, r, rest,
        hactive.congr rfl, hsends⟩
  | writing h =>
      obtain ⟨r, rest, hactive⟩ := h.active
      exact .writing ⟨h.phase, h.busy, h.range, h.off_le, h.count, h.writes, r, rest,
        hactive.congr rfl⟩

/-- The reply to a write. -/
theorem Device.opsView_writeResp (d : Device) (id : ℕ) :
    (d.emit (.writeResp id)).opsView = d.opsView.reply id := by
  rw [Device.opsView_emit]
  simp [Action.repliesTo, Action.sends, Action.note, OpsView.reply]

/-- The doorbell of a device with a kernel. A response that is not held back is sent last. -/
theorem kernelDoorbell_sound (hsound : d.opsView.Sound p) {write : MmioWrite}
    (h : d.kernelDoorbell p k write = .ok d') :
    d'.opsView.Sound p ∧ ∃ y z : OpsView, OpsView.Launched p write d.opsView y ∧
      y.Progress (¬Admits p k d.argRegs) z ∧
      d'.opsView = if !write.posted && !p.doorbellBlocking then z.reply write.id else z := by
  obtain ⟨hledger, hstage⟩ := hsound
  rw [Device.kernelDoorbell] at h
  by_cases hbusy : d.op.phase ≠ .idle ∨ d.isBusyAt
  · rw [if_pos hbusy] at h
    cases h
  rw [if_neg hbusy] at h
  have hphase : d.op.phase = .idle := not_not.mp fun hne => hbusy (.inl hne)
  have hidle : d.opsView.Idle := by
    cases hstage with
    | idle h => exact h
    | reading h => exact absurd (hphase.symm.trans h.phase) (by decide)
    | writing h => exact absurd (hphase.symm.trans h.phase) (by decide)
  dsimp only at h
  set held : Option ℕ := if !write.posted && p.doorbellBlocking then some write.id else none
    with hheld
  have hgive : (if (!write.posted && p.doorbellBlocking) = true then
      { d with opDoorbellResp := some write.id } else d) = { d with opDoorbellResp := held } := by
    have hnone : d.opDoorbellResp = none := hidle.held
    rw [hheld]
    split_ifs
    · rfl
    · rw [← hnone]
  rw [hgive] at h
  set d₁ : Device := { d with
    opDoorbellResp := held
    submitId := d.submitId + 1
    op := { d.op with args := d.argRegs } } with hd₁
  set d₂ := (d₁.emit (.launch (d.submitId + 1))).emitEvent p .requested with hd₂
  have hview : d₂.opsView = { d₁.opsView with
      log := { ticket := d.submitId + 1 } :: d.opsView.log } := by
    rw [hd₂, Device.opsView_quiet (.emitEvent p _ _), Device.opsView_emit]
    simp [Action.repliesTo, Action.sends, Action.note]
    rfl
  have hactive : d₂.opsView.Active { ticket := d.submitId + 1 } d.opsView.log := by
    rw [hview]
    exact ⟨rfl, rfl, hidle.ended⟩
  have hledger₂ : d₂.opsView.Ledger p := by
    rw [hview]
    refine ⟨⟨?_, hledger.numbered⟩, ?_, ?_, hledger.window, ?_⟩
    · rw [hledger.length]
      rfl
    · simp only [List.length_cons, hledger.length]
      rfl
    · rw [List.countP_cons_of_neg (by simp)]
      exact hledger.done
    · intro r hr hrej
      rcases List.mem_cons.mp hr with rfl | hr
      · cases hrej
      · exact hledger.rejected r hr hrej
  have hlaunched : OpsView.Launched p write d.opsView d₂.opsView := by
    rw [hview]
    exact ⟨hidle, rfl, rfl, rfl, rfl, rfl⟩
  have hlink : d₂.memIface = [] := (congrArg OpsView.link hview).trans hidle.link
  have hclear : d₂.busyUntilClk = 0 := (congrArg OpsView.busy hview).trans hidle.busy
  have hargs : d₂.op.args = d.argRegs := congrArg (fun x : OpsView => x.op.args) hview
  obtain ⟨hs, hp⟩ := opStartDma_sound (k := k) hledger₂ hactive rfl hlink hclear
  rw [hargs] at hp
  cases h
  by_cases hreply : (!write.posted && !p.doorbellBlocking) = true
  · rw [if_pos hreply, Device.opsView_writeResp]
    refine ⟨hs.reply _, _, _, hlaunched, hp, ?_⟩
    rw [if_pos hreply]
  · rw [if_neg hreply]
    refine ⟨hs, _, _, hlaunched, hp, ?_⟩
    rw [if_neg hreply]

/-! ### Every event -/

/-- A write to the doorbell register. -/
def MmioWrite.rings (p : Params) (write : MmioWrite) : Prop :=
  write.pAddr - p.baseAddr = REG_DOORBELL

instance (p : Params) (write : MmioWrite) : Decidable (write.rings p) :=
  inferInstanceAs (Decidable (_ = _))

/-- The doorbell rings at its register. -/
theorem rings_iff {write : MmioWrite} :
    write.rings p ↔ write.pAddr - p.baseAddr = REG_DOORBELL := Iff.rfl

/-- The event makes the device reject an operation: the arguments at a doorbell, or the output at
the start of the writeback, fail a check. -/
def Device.Refuses (p : Params) (k : QuetzKernel) (d : Device) : DeviceEvent → Prop
  | .write write => write.rings p ∧ ¬Admits p k d.argRegs
  | .read read => LaunchView.polls p read ∧ WindowRefused p d d.gpuClk
  | .tick => WindowRefused p d (wrap64 (d.gpuClk + 1))
  | .respond i data => ∃ id addr n, d.memIface[i]? = some (.read id addr n) ∧
      AnswerRefused p k d id data

/-- What an event does to tickets, outcomes and write responses. -/
inductive OpsView.Moves (p : Params) (refused : Prop) (x : OpsView) : DeviceEvent → OpsView → Prop
  | own {e : DeviceEvent} {y : OpsView} (he : ∀ write, e ≠ .write write)
      (h : x.Progress refused y) : Moves p refused x e y
  | register {write : MmioWrite} {y z : OpsView} (hw : ¬write.rings p) (h : x.Same y)
      (hz : z = if write.posted then y else y.reply write.id) : Moves p refused x (.write write) z
  | doorbell {write : MmioWrite} {y z z' : OpsView} (hw : write.rings p)
      (hl : OpsView.Launched p write x y) (hp : y.Progress refused z)
      (hz : z' = if !write.posted && !p.doorbellBlocking then z.reply write.id else z) :
      Moves p refused x (.write write) z'

/-- No other register shows anything. -/
theorem Device.opsView_writeRegister {write : MmioWrite} (hw : ¬write.rings p)
    (h : d.writeRegister p (write.pAddr - p.baseAddr) write = .ok d') :
    d'.opsView = d.opsView := by
  exact (writeRegister_cases h).view_eq Device.opsView_quiet (fun _ _ => rfl) hw

/-- Every event keeps the invariant. -/
theorem OpsView.Sound.step (hk : p.kernel = some k) (hsound : d.opsView.Sound p) {e : DeviceEvent}
    (h : d.step p e = .ok d') :
    d'.opsView.Sound p ∧ Moves p (d.Refuses p k e) d.opsView e d'.opsView := by
  cases e with
  | write write =>
      simp only [Device.step, Device.handleWrite, hk] at h
      by_cases hw : write.rings p
      · rw [if_pos (rings_iff.mp hw)] at h
        obtain ⟨hs, y, z, hl, hp, hz⟩ := kernelDoorbell_sound hsound h
        exact ⟨hs, .doorbell hw hl (hp.mono fun hrefused => ⟨hw, hrefused⟩) hz⟩
      · rw [if_neg (mt rings_iff.mpr hw)] at h
        cases hreg : d.writeRegister p (write.pAddr - p.baseAddr) write with
        | error e =>
            rw [hreg] at h
            cases h
        | ok d₁ =>
            rw [hreg] at h
            cases h
            have hview := Device.opsView_writeRegister hw hreg
            by_cases hposted : write.posted = true
            · rw [if_neg (by simp [hposted]), hview]
              exact ⟨hsound, .register hw .refl (by rw [if_pos hposted])⟩
            · rw [if_pos (by simp [hposted]), Device.opsView_writeResp, hview]
              exact ⟨hsound.reply _, .register hw .refl (by rw [if_neg hposted])⟩
  | read read =>
      cases h
      unfold Device.handleRead
      dsimp only
      have hemit (d₁ : Device) (a : List UInt8) :
          (d₁.emit (.readResp read.id a)).opsView = d₁.opsView := by
        rw [Device.opsView_emit]
        simp [Action.repliesTo, Action.sends, Action.note]
      rw [hemit]
      by_cases hpoll : LaunchView.polls p read
      · rw [if_pos (by exact hpoll)]
        obtain ⟨hs, hp⟩ := retireIfReady_sound hk hsound d.gpuClk
        exact ⟨hs, .own (fun _ he => by cases he) (hp.mono fun hr => ⟨hpoll, hr⟩)⟩
      · rw [if_neg (by exact hpoll)]
        exact ⟨hsound, .own (fun _ he => by cases he) (.same .refl)⟩
  | tick =>
      cases h
      unfold Device.tickBusy
      dsimp only
      rw [Device.opsView_quiet (.updatePrimaryHold _ _)]
      obtain ⟨hs, hp⟩ := retireIfReady_sound (d := { d with gpuClk := wrap64 (d.gpuClk + 1) }) hk
        hsound (wrap64 (d.gpuClk + 1))
      exact ⟨hs, .own (fun _ he => by cases he) hp⟩
  | respond i data =>
      simp only [Device.step, hk] at h
      cases hi : d.memIface[i]? with
      | none =>
          simp only [hi] at h
          cases h
          exact ⟨hsound, .own (fun _ he => by cases he) (.same .refl)⟩
      | some q =>
          cases q with
          | read id addr n =>
              simp only [hi] at h
              obtain ⟨hs, hp⟩ := opOnReadResp_sound hsound hi h
              exact ⟨hs, .own (fun _ he => by cases he)
                (hp.mono fun hr => ⟨id, addr, n, hi, hr⟩)⟩
          | write id addr bytes =>
              simp only [hi] at h
              cases h
              obtain ⟨hs, hp⟩ := opOnWriteResp_sound hsound hi
              exact ⟨hs, .own (fun _ he => by cases he) (hp.mono False.elim)⟩

namespace OpsView

variable {x y : OpsView} {refused : Prop} {e : DeviceEvent}

/-- The completion count never falls. -/
theorem Progress.kernelId_le (h : x.Progress refused y) : x.kernelId ≤ y.kernelId := by
  cases h with
  | same h => exact h.kernelId.ge
  | ended h =>
      rw [h.kernelId]
      split_ifs
      · exact Nat.le_succ _
      · exact Nat.le_refl _

/-- Progress takes no ticket. -/
theorem Progress.submitId_eq (h : x.Progress refused y) : y.submitId = x.submitId := by
  cases h with
  | same h => exact h.submitId
  | ended h => exact h.submitId

/-- An outcome stays. -/
theorem Progress.statuses_mono (h : x.Progress refused y) {t : ℕ} {outcome : Outcome}
    (hover : outcome ≠ .running) (ht : (t, outcome) ∈ x.statuses) : (t, outcome) ∈ y.statuses := by
  cases h with
  | same h => rwa [h.statuses]
  | ended h =>
      obtain ⟨ticket, rest, hx, hy⟩ := h.statuses
      rw [hx] at ht
      rw [hy]
      rcases List.mem_cons.mp ht with ht | ht
      · exact absurd (congrArg Prod.snd ht) hover
      · exact List.mem_cons_of_mem _ ht

/-- Where nothing is refused, progress rejects nothing. -/
theorem Progress.not_rejected (h : x.Progress refused y) (hno : ¬refused)
    (hx : ∀ s ∈ x.statuses, s.2 ≠ .rejected) : ∀ s ∈ y.statuses, s.2 ≠ .rejected := by
  cases h with
  | same h => rwa [h.statuses]
  | ended h hr =>
      obtain ⟨ticket, rest, hxs, hys⟩ := h.statuses
      rw [hxs] at hx
      rw [hys]
      intro s hs
      rcases List.mem_cons.mp hs with rfl | hs
      · exact fun hrej => hno (hr hrej)
      · exact hx s (List.mem_cons_of_mem _ hs)

/-- An outcome stays. -/
theorem Moves.statuses_mono {p : Params} (h : Moves p refused x e y) {t : ℕ} {outcome : Outcome}
    (hover : outcome ≠ .running) (ht : (t, outcome) ∈ x.statuses) : (t, outcome) ∈ y.statuses := by
  cases h with
  | own _ h => exact h.statuses_mono hover ht
  | register _ h hz =>
      subst hz
      split_ifs <;> exact h.statuses ▸ ht
  | doorbell _ hl hp hz =>
      have hz' := hp.statuses_mono hover
        (show _ ∈ _ by rw [hl.statuses]; exact List.mem_cons_of_mem _ ht)
      subst hz
      split_ifs <;> exact hz'

/-- Where nothing is refused, a move rejects nothing. -/
theorem Moves.not_rejected {p : Params} (h : Moves p refused x e y) (hno : ¬refused)
    (hx : ∀ s ∈ x.statuses, s.2 ≠ .rejected) : ∀ s ∈ y.statuses, s.2 ≠ .rejected := by
  cases h with
  | own _ h => exact h.not_rejected hno hx
  | register _ h hz =>
      subst hz
      split_ifs <;> exact h.statuses ▸ hx
  | doorbell _ hl hp hz =>
      have hz' := hp.not_rejected hno (by
        rw [hl.statuses]
        intro s hs
        rcases List.mem_cons.mp hs with rfl | hs
        · simp
        · exact hx s hs)
      subst hz
      split_ifs <;> exact hz'

end OpsView

instance (p : Params) (args : KernelArgs) (output : List UInt8) :
    Decidable (OutputRefused p args output) := inferInstanceAs (Decidable (¬_))

instance (k : QuetzKernel) (input : List UInt8) : Decidable (ComputeRefused p k d input) :=
  inferInstanceAs (Decidable (_ ∧ _ ∧ _ ∧ _))

instance (k : QuetzKernel) (args : KernelArgs) : Decidable (Admits p k args) :=
  inferInstanceAs (Decidable (_ ∧ _ ∧ _))

instance (now : ℕ) : Decidable (WindowRefused p d now) :=
  inferInstanceAs (Decidable (_ ∧ _ ∧ _))

instance (k : QuetzKernel) (id : ℕ) (data : List UInt8) : Decidable (AnswerRefused p k d id data) :=
  decidable_of_iff ((d.op.reqOff id).any fun off => decide (d.op.outstanding = 1 ∧
    d.op.nextDmaOff = d.op.inBytes ∧ ComputeRefused p k d (inputWith d off data))) (by
    simp [AnswerRefused, Option.any_eq_true])

instance (k : QuetzKernel) : ∀ e, Decidable (d.Refuses p k e)
  | .write _ => inferInstanceAs (Decidable (_ ∧ ¬_))
  | .read _ => inferInstanceAs (Decidable (_ ∧ _))
  | .tick => inferInstanceAs (Decidable (WindowRefused ..))
  | .respond i data =>
    match hi : d.memIface[i]? with
    | some (.read id addr n) =>
      decidable_of_iff (AnswerRefused p k d id data) (by simp [Device.Refuses, hi])
    | some (.write id addr bytes) => .isFalse (by simp [Device.Refuses, hi])
    | none => .isFalse (by simp [Device.Refuses, hi])

/-! ### Runs -/

/-- The states a constructed device reaches by events that `ok` admits. -/
inductive Device.Reaches (p : Params) (ok : Device → DeviceEvent → Prop) : Device → Prop
  | start {d : Device} : construct p = .ok d → Reaches p ok d
  | step {d d' : Device} (e : DeviceEvent) : Reaches p ok d → ok d e → d.step p e = .ok d' →
      Reaches p ok d'

/-- The second state is reached from the first one. -/
inductive Device.Later (p : Params) (ok : Device → DeviceEvent → Prop) : Device → Device → Prop
  | refl (d : Device) : Later p ok d d
  | step {d d₁ d₂ : Device} (e : DeviceEvent) : Later p ok d d₁ → ok d₁ e →
      d₁.step p e = .ok d₂ → Later p ok d d₂

variable {ok : Device → DeviceEvent → Prop}

/-- A state later than a reached one is reached. -/
theorem Device.Reaches.later (h : Device.Reaches p ok d) (h' : Device.Later p ok d d') :
    Device.Reaches p ok d' := by
  induction h' with
  | refl => exact h
  | step e _ hok hstep ih => exact ih.step e hok hstep

/-- Every reached state is sound. -/
theorem Device.Reaches.sound (hk : p.kernel = some k) (h : Device.Reaches p ok d) :
    d.opsView.Sound p := by
  induction h with
  | start hd =>
      obtain rfl := construct_eq_ok hd
      refine ⟨⟨trivial, rfl, rfl, ?_, ?_⟩, .idle ⟨rfl, rfl, rfl, rfl, ?_⟩⟩
      · exact fun q hq => by cases hq
      · exact fun r hr => by cases hr
      · exact fun r hr => by cases hr
  | step e _ _ hstep ih => exact (ih.step hk hstep).1

/-! ### DMA stays in its window -/

/-- The event ends an operation by a rejection. -/
def RejectedBy (d d' : Device) : Prop :=
  ∃ r ∈ d'.ops, r.outcome = .rejected ∧ (r.ticket, .rejected) ∉ d.opsView.statuses

/-- The write response that a blocking doorbell holds back during an event. -/
def HeldDuring (p : Params) (d : Device) (e : DeviceEvent) (id : ℕ) : Prop :=
  d.opDoorbellResp = some id ∨ ∃ write, e = .write write ∧ write.rings p ∧
    write.posted = false ∧ p.doorbellBlocking = true ∧ write.id = id

/-- A rejection leaves the completion count alone, and the device is idle with its held response
sent. -/
structure Released (p : Params) (d : Device) (e : DeviceEvent) (d' : Device) : Prop where
  kernelId : d'.kernelId = d.kernelId
  phase : d'.op.phase = .idle
  busy : d'.busyUntilClk = 0
  held : d'.opDoorbellResp = none
  answered : ∀ id, HeldDuring p d e id → id ∈ d'.replies

/-- A rejection by the device on its own. -/
theorem released_of_progress {x y : OpsView} {refused : Prop} {t : ℕ} (h : x.Progress refused y)
    (hy : (t, .rejected) ∈ y.statuses) (hx : (t, .rejected) ∉ x.statuses) :
    y.kernelId = x.kernelId ∧ y.Idle ∧ ∀ id, x.held = some id → id ∈ y.replies := by
  cases h with
  | same h => exact absurd (h.statuses ▸ hy) hx
  | ended h =>
      obtain ⟨ticket, rest, hxs, hys⟩ := h.statuses
      rw [hys] at hy
      rw [hxs] at hx
      rcases List.mem_cons.mp hy with hy | hy
      · obtain ⟨rfl, rfl⟩ := Prod.mk.inj hy
        refine ⟨h.kernelId, h.idle, fun id hid => ?_⟩
        rw [h.replies, hid]
        exact List.mem_append_right _ List.mem_cons_self
      · exact absurd (List.mem_cons_of_mem _ hy) hx

/-- An event that rejects an operation releases the device. -/
theorem released_of_moves {e : DeviceEvent} {refused : Prop}
    (h : Moves p refused d.opsView e d'.opsView) (hr : RejectedBy d d') : Released p d e d' := by
  obtain ⟨r, hr, hrej, hnew⟩ := hr
  have hmem : (r.ticket, .rejected) ∈ d'.opsView.statuses :=
    List.mem_map.mpr ⟨r, hr, by rw [hrej]⟩
  generalize hx : d.opsView = x at h hnew
  generalize hy : d'.opsView = y at h hmem
  have hheld : d.opDoorbellResp = x.held := by rw [← hx]; rfl
  have hkernel : d.kernelId = x.kernelId := by rw [← hx]; rfl
  have hfinal (h1 : y.kernelId = x.kernelId) (h2 : y.Idle)
      (h3 : ∀ id, HeldDuring p d e id → id ∈ y.replies) : Released p d e d' := by
    subst hy
    exact ⟨h1.trans hkernel.symm, h2.phase, h2.busy, h2.held, h3⟩
  cases h with
  | own he h =>
      obtain ⟨h1, h2, h3⟩ := released_of_progress h hmem hnew
      refine hfinal h1 h2 fun id hid => ?_
      rcases hid with hid | ⟨write, hw, -⟩
      · exact h3 id (hheld ▸ hid)
      · exact absurd hw (he write)
  | register hw h hz =>
      refine absurd ?_ hnew
      rw [← h.statuses]
      subst hz
      split_ifs at hmem <;> exact hmem
  | @doorbell write y₁ z _ hw hl hp hz =>
      have hmem' : (r.ticket, .rejected) ∈ z.statuses := by
        subst hz
        split_ifs at hmem <;> exact hmem
      have hnew' : (r.ticket, .rejected) ∉ y₁.statuses := by
        rw [hl.statuses]
        intro hc
        rcases List.mem_cons.mp hc with hc | hc
        · simp at hc
        · exact hnew hc
      obtain ⟨h1, h2, h3⟩ := released_of_progress hp hmem' hnew'
      have hreply : ∀ id, HeldDuring p d (.write write) id → id ∈ z.replies := by
        rintro id (hid | ⟨w, hw, -, hposted, hblock, rfl⟩)
        · rw [hheld, hl.idle.held] at hid
          cases hid
        · cases hw
          refine h3 _ ?_
          rw [hl.held, if_pos (by simp [hposted, hblock])]
      subst hz
      split_ifs at *
      · exact hfinal (h1.trans hl.kernelId)
          ⟨h2.phase, h2.busy, h2.link, h2.held, h2.ended⟩
          fun id hid => List.mem_append_left _ (hreply id hid)
      · exact hfinal (h1.trans hl.kernelId) h2 hreply

/-- **Guest arguments cannot make kernel DMA leave its window**, in any run. The requests of a
rejected operation are reads. -/
theorem dma_contained (hk : p.kernel = some k) (hd : Device.Reaches p ok d) :
    (∀ q, .memSend q ∈ d.trace → InWindow p q) ∧
      (∀ r ∈ d.ops, r.outcome = .rejected → ∀ q ∈ r.sends, q.IsRead) ∧
      ∀ e d', d.step p e = .ok d' → RejectedBy d d' → Released p d e d' := by
  have hsound := hd.sound hk
  refine ⟨fun q hq => hsound.ledger.window q ?_, hsound.ledger.rejected, fun e d' hstep hr => ?_⟩
  · exact List.mem_filterMap.mpr ⟨_, hq, rfl⟩
  · exact released_of_moves (hsound.step hk hstep).2 hr

/-! ### Runs of events -/

/-- The device after the events, if `ok` admits them all. -/
def Device.runs (p : Params) (ok : Device → DeviceEvent → Prop) [∀ d e, Decidable (ok d e)] :
    List DeviceEvent → Device → Option Device
  | [], d => some d
  | e :: es, d =>
    match d.step p e with
    | .error _ => none
    | .ok d' => if ok d e then Device.runs p ok es d' else none

/-- What `runs` computes is reached. -/
theorem Device.Reaches.runs [∀ d e, Decidable (ok d e)] {es : List DeviceEvent} {d d' : Device}
    (h : Device.Reaches p ok d) (hrun : d.runs p ok es = some d') : Device.Reaches p ok d' := by
  induction es generalizing d with
  | nil =>
      cases hrun
      exact h
  | cons e es ih =>
      rw [Device.runs] at hrun
      cases hstep : d.step p e with
      | error msg =>
          rw [hstep] at hrun
          cases hrun
      | ok d₁ =>
          simp only [hstep] at hrun
          split_ifs at hrun with hok
          exact ih (h.step e hok hstep) hrun

/-- A kernel that copies as many bytes as its third argument says. -/
def copier : QuetzKernel where
  inputBytes args := (args.arg2, "")
  compute _ input := (0, input)

/-- A blocking device whose DMA window is one page. -/
def copierParams : Params where
  kernelLatency := 0
  doorbellBlocking := true
  dmaRangeStart := 0x1000
  dmaRangeEnd := 0x1fff
  kernel := some copier
  hasMemIface := true

/-- The device after construction. -/
def constructed : Device := { holdingSim := true, trace := [.doNotEndSim] }

/-- A write of 64 bits to a register. -/
def write64 (id : ℕ) (reg value : UInt64) : DeviceEvent :=
  .write ⟨id, reg, 8, u64ToData value 8, false⟩

/-- The output of the first operation leaves the window at its last byte; the second one stays
inside. -/
def copierRun : List DeviceEvent :=
  [write64 0 REG_ARG0 0x1000, write64 1 REG_ARG1 0x1ffd, write64 2 REG_ARG2 4,
    write64 3 REG_DOORBELL 1, .respond 0 [1, 2, 3, 4],
    write64 4 REG_ARG1 0x1ffc, write64 5 REG_DOORBELL 1, .respond 0 [1, 2, 3, 4], .respond 0 []]

/-- The first operation is rejected after its read, the second one finishes. -/
theorem dma_contained_copier : ∃ d, Device.Reaches copierParams (fun _ _ => True) d ∧
    (∀ q, .memSend q ∈ d.trace → InWindow copierParams q) ∧
    d.ops.map (fun r => (r.outcome, r.sends.length)) = [(.finished, 2), (.rejected, 1)] ∧
    d.replies = [0, 1, 2, 3, 4, 5] := by
  have hfin : (Device.runs copierParams (fun _ _ => True) copierRun constructed).any (fun d =>
      decide (d.ops.map (fun r => (r.outcome, r.sends.length)) =
        [(.finished, 2), (.rejected, 1)] ∧ d.replies = [0, 1, 2, 3, 4, 5])) = true := by
    decide +kernel
  obtain ⟨d, hrun, hfin⟩ := (Option.any_eq_true _ _).mp hfin
  have hreach := Device.Reaches.runs (.start (by rfl)) hrun
  exact ⟨d, hreach, (dma_contained rfl hreach).1, of_decide_eq_true hfin⟩

/-! ### Ticket polling -/

/-- A ticket is no larger than the number of operations. -/
theorem Numbered.le : ∀ {log : List OpRecord}, Numbered log → ∀ r ∈ log, r.ticket ≤ log.length
  | [], _, r, hr => by cases hr
  | s :: rest, h, r, hr => by
    rcases List.mem_cons.mp hr with rfl | hr
    · exact h.1.le
    · exact (h.2.le r hr).trans (Nat.le_succ _)

/-- Without rejections the completion count has reached every finished ticket. -/
theorem OpsView.Sound.ticket_le {x : OpsView} (h : x.Sound p)
    (hno : ∀ s ∈ x.statuses, s.2 ≠ .rejected) {t : ℕ} (ht : (t, .finished) ∈ x.statuses) :
    t ≤ x.kernelId := by
  obtain ⟨hledger, hstage⟩ := h
  obtain ⟨r, hr, heq⟩ := List.mem_map.mp ht
  obtain ⟨rfl, hfin⟩ := Prod.mk.inj heq
  have hdone : ∀ s ∈ x.log, s.outcome ≠ .running → s.outcome = .finished := by
    intro s hs hover
    have hrej := hno _ (List.mem_map.mpr ⟨s, hs, rfl⟩)
    cases houtcome : s.outcome with
    | running => exact absurd houtcome hover
    | finished => rfl
    | rejected => exact absurd houtcome hrej
  have hactive {s : OpRecord} {rest : List OpRecord} (ha : x.Active s rest) :
      r.ticket ≤ x.kernelId := by
    have hnum := hledger.numbered
    rw [hledger.done]
    rw [ha.log] at hr hnum hdone ⊢
    have hrest : rest.countP (·.outcome = .finished) = rest.length :=
      List.countP_eq_length.mpr fun s hs =>
        decide_eq_true (hdone s (List.mem_cons_of_mem _ hs) (ha.ended s hs))
    rw [List.countP_cons_of_neg (by simp [ha.running]), hrest]
    rcases List.mem_cons.mp hr with rfl | hr
    · exact absurd (ha.running.symm.trans hfin) (by decide)
    · exact hnum.2.le r hr
  cases hstage with
  | idle hidle =>
      have hall : x.log.countP (·.outcome = .finished) = x.log.length :=
        List.countP_eq_length.mpr fun s hs => decide_eq_true (hdone s hs (hidle.ended s hs))
      rw [hledger.done, hall]
      exact hledger.numbered.le r hr
  | reading hread =>
      obtain ⟨s, rest, ha, -⟩ := hread.active
      exact hactive ha
  | writing hwriting =>
      obtain ⟨s, rest, ha⟩ := hwriting.active
      exact hactive ha

/-- A value that fits the access comes back from its bytes. -/
theorem toNat_dataToU64 (n : ℕ) (hn : n ≤ 8) (value : UInt64) :
    (dataToU64 (u64ToData value n)).toNat = value.toNat % 2 ^ (8 * n) := by
  induction n generalizing value with
  | zero =>
      simp only [u64ToData, dataToU64, List.foldr_nil, Nat.mul_zero, Nat.pow_zero, Nat.mod_one]
      rfl
  | succ n ih =>
      have hrest := ih (by omega) (value >>> 8)
      have hshift : (value >>> 8).toNat = value.toNat / 256 := by
        simp [UInt64.toNat_shiftRight, Nat.shiftRight_eq_div_pow]
      rw [hshift] at hrest
      have hpow : 2 ^ (8 * n) ≤ 2 ^ 56 := Nat.pow_le_pow_right (by decide) (by omega)
      have hlt : value.toNat / 256 % 2 ^ (8 * n) < 2 ^ (8 * n) :=
        Nat.mod_lt _ (Nat.two_pow_pos _)
      have hcons : dataToU64 (u64ToData value (n + 1)) =
          (dataToU64 (u64ToData (value >>> 8) n) <<< 8) ||| value.toUInt8.toUInt64 := rfl
      rw [hcons, UInt64.toNat_or, UInt64.toNat_shiftLeft, hrest, UInt8.toNat_toUInt64,
        UInt64.toNat_toUInt8]
      rw [show (8 : UInt64).toNat % 64 = 8 from rfl, Nat.shiftLeft_eq, Nat.mod_eq_of_lt (by omega),
        ← Nat.shiftLeft_eq, ← Nat.shiftLeft_add_eq_or_of_lt (Nat.mod_lt _ (by decide)),
        Nat.shiftLeft_eq, show 8 * (n + 1) = 8 + 8 * n by omega, Nat.pow_add, Nat.mod_mul,
        show 2 ^ 8 = 256 from rfl]
      omega

/-- Once the operation of a ticket has finished, every later read of the completion count returns
at least the ticket; the counters fit the access. -/
def PollingSound (p : Params) (ok : Device → DeviceEvent → Prop) : Prop :=
  ∀ (d d' : Device) (r : OpRecord) (read : MmioRead), Device.Reaches p ok d → r ∈ d.ops →
    r.outcome = .finished → Device.Later p ok d d' →
    read.pAddr - p.baseAddr = REG_KERNEL_ID → read.size ≤ 8 → d'.submitId < 2 ^ (8 * read.size) →
    ∃ data, (d'.handleRead p read).trace.getLast? = some (.readResp read.id data) ∧
      r.ticket ≤ (dataToU64 data).toNat

/-- A run that rejects no operation has no rejected operation, and outcomes stay. -/
theorem Device.Later.statuses (hk : p.kernel = some k)
    (hd : Device.Reaches p (fun d e => ¬d.Refuses p k e) d)
    (h : Device.Later p (fun d e => ¬d.Refuses p k e) d d') {t : ℕ}
    (ht : (t, .finished) ∈ d.opsView.statuses) : (t, .finished) ∈ d'.opsView.statuses := by
  induction h with
  | refl => exact ht
  | step e hlater _ hstep ih =>
      exact ((hd.later hlater).sound hk |>.step hk hstep).2.statuses_mono (by decide) ih

/-- Without refused doorbells nothing is ever rejected. -/
theorem Device.Reaches.not_rejected (hk : p.kernel = some k)
    (hd : Device.Reaches p (fun d e => ¬d.Refuses p k e) d) :
    ∀ s ∈ d.opsView.statuses, s.2 ≠ .rejected := by
  induction hd with
  | start hd =>
      obtain rfl := construct_eq_ok hd
      exact fun s hs => by cases hs
  | step e hreach hok hstep ih => exact ((hreach.sound hk).step hk hstep).2.not_rejected hok ih

/-- **Ticket polling is sound in runs that reject no operation.** -/
theorem ticket_polling_sound (hk : p.kernel = some k) :
    PollingSound p fun d e => ¬d.Refuses p k e := by
  intro d d' r read hd hr hfin hlater hreg hsize hfits
  have hd' := hd.later hlater
  have hsound := hd'.sound hk
  have hle : r.ticket ≤ d'.kernelId :=
    hsound.ticket_le (hd'.not_rejected hk)
      (hlater.statuses hk hd (List.mem_map.mpr ⟨r, hr, by rw [hfin]⟩))
  obtain ⟨hsound₁, hprogress⟩ := retireIfReady_sound hk hsound d'.gpuClk
  have hmono : d'.kernelId ≤ (d'.retireIfReady p d'.gpuClk).kernelId := hprogress.kernelId_le
  have hcount : (d'.retireIfReady p d'.gpuClk).kernelId ≤ d'.submitId := by
    rw [← show (d'.retireIfReady p d'.gpuClk).submitId = d'.submitId from hprogress.submitId_eq]
    refine (hsound₁.ledger.done.trans_le List.countP_le_length).trans ?_
    exact hsound₁.ledger.length.le
  have hpow : 2 ^ (8 * read.size) ≤ 2 ^ 64 := Nat.pow_le_pow_right (by decide) (by omega)
  refine ⟨u64ToData (.ofNat (d'.retireIfReady p d'.gpuClk).kernelId) read.size, ?_, ?_⟩
  · rw [Device.handleRead]
    simp only [hreg]
    rw [if_pos (by decide), if_neg (by decide), if_pos (by decide)]
    exact List.getLast?_concat
  · rw [toNat_dataToU64 _ hsize, UInt64.toNat_ofNat', Nat.mod_eq_of_lt (by omega),
      Nat.mod_eq_of_lt (by omega)]
    omega

/-- One operation that stays in the window. -/
def acceptedRun : List DeviceEvent :=
  [write64 0 REG_ARG0 0x1000, write64 1 REG_ARG1 0x1ffc, write64 2 REG_ARG2 4,
    write64 3 REG_DOORBELL 1, .respond 0 [1, 2, 3, 4], .respond 0 []]

/-- The poll for the first ticket ends. -/
theorem ticket_polling_sound_accepted : ∃ d,
    Device.Reaches copierParams (fun d e => ¬d.Refuses copierParams copier e) d ∧
    d.ops.map (fun r => (r.ticket, r.outcome)) = [(1, .finished)] ∧
    ∃ data, (d.handleRead copierParams ⟨4, REG_KERNEL_ID, 8⟩).trace.getLast? =
        some (.readResp 4 data) ∧ 1 ≤ (dataToU64 data).toNat := by
  have hfin : (Device.runs copierParams (fun d e => ¬d.Refuses copierParams copier e)
      acceptedRun constructed).any (fun d =>
      decide (d.ops.map (fun r => (r.ticket, r.outcome)) = [(1, .finished)] ∧
        d.submitId = 1)) = true := by
    decide +kernel
  obtain ⟨d, hrun, hfin⟩ := (Option.any_eq_true _ _).mp hfin
  obtain ⟨hops, hsubmit⟩ := of_decide_eq_true hfin
  have hreach := Device.Reaches.runs (.start (by rfl)) hrun
  obtain ⟨r, hr, hstat⟩ := List.mem_map.mp (hops ▸ List.mem_cons_self)
  obtain ⟨hticket, hdone⟩ := Prod.mk.inj hstat
  obtain ⟨data, hdata, hle⟩ := ticket_polling_sound rfl d d r ⟨4, REG_KERNEL_ID, 8⟩ hreach hr
    hdone (.refl d) (by decide) (by decide) (by rw [hsubmit]; decide)
  exact ⟨d, hreach, hops, data, hdata, hticket ▸ hle⟩

/-- The first operation of `copierRun` was rejected and the second one has finished, but the
completion count stays below its ticket. -/
theorem ticket_polling_after_rejection : ¬PollingSound copierParams fun _ _ => True := by
  intro hclaim
  have hfin : (Device.runs copierParams (fun _ _ => True) copierRun constructed).any (fun d =>
      decide (d.ops.map (fun r => (r.ticket, r.outcome)) =
        [(2, .finished), (1, .rejected)] ∧ d.submitId = 2 ∧
        (d.handleRead copierParams ⟨6, REG_KERNEL_ID, 8⟩).trace.getLast? =
          some (.readResp 6 (u64ToData 1 8)))) = true := by
    decide +kernel
  obtain ⟨d, hrun, hfin⟩ := (Option.any_eq_true _ _).mp hfin
  obtain ⟨hops, hsubmit, hread⟩ := of_decide_eq_true hfin
  have hreach := Device.Reaches.runs (.start (by rfl)) hrun
  obtain ⟨r, hr, hstat⟩ := List.mem_map.mp (hops ▸ List.mem_cons_self)
  obtain ⟨hticket, hdone⟩ := Prod.mk.inj hstat
  obtain ⟨data, hdata, hle⟩ := hclaim d d r ⟨6, REG_KERNEL_ID, 8⟩ hreach hr hdone (.refl d)
    (by decide) (by decide) (by rw [hsubmit]; decide)
  rw [hread] at hdata
  cases hdata
  rw [hticket] at hle
  exact absurd hle (by decide)

end Quetz.GpuDevice
