import Quetz.GpuOps

/-!
# The Event File of the GPU Device

A device with a kernel and an event file writes down the life of its operations: a record when an
operation is requested, one when it is completed or rejected, and in between what the guest says
about its interrupts and checkpoints. The tools behind the file trust its order.

The records of a run are read off the trace (`entries`). `Lifecycle` is the language of the
accelerator records, and `mostRecent`, `isOpen` and `completions` are what a reader of the file
knows at a point of it. A `Turn` is a part of a handler: it takes a log that fits the device to one
that does, and releases a held doorbell only when the log says that the operation is over.

## Main results

* `turn_step`: every event keeps the log, one lemma for each handler.
* `event_log_sound`: the language of the log, and what the guest sees of an operation.
-/

namespace Quetz.GpuDevice

open ByteMemory

/-! ### Histories -/

/-- The relation holds of every element of a list and the elements before it. -/
def Each {α : Type} (P : List α → α → Prop) (l : List α) : Prop :=
  ∀ before a after, l = before ++ a :: after → P before a

/-- It holds of the empty list. -/
theorem each_nil {α : Type} {P : List α → α → Prop} : Each P [] := by
  rintro before a after h
  simp at h

/-- It holds with one more element, if it holds of that one. -/
theorem Each.concat {α : Type} {P : List α → α → Prop} {l : List α} {x : α} (h : Each P l)
    (hx : P l x) : Each P (l ++ [x]) := by
  intro before a after heq
  rcases List.eq_nil_or_concat after with rfl | ⟨after', y, rfl⟩
  · obtain ⟨rfl, hcons⟩ := List.append_inj' heq rfl
    obtain ⟨rfl, -⟩ := List.cons.inj hcons
    exact hx
  · rw [List.concat_eq_append, ← List.cons_append, ← List.append_assoc] at heq
    obtain ⟨rfl, -⟩ := List.append_inj' heq rfl
    exact h before a after' rfl

/-! ### The language of the log -/

/-- A record of the event file. -/
structure LogEntry where
  sequence : ℕ
  operationId : ℕ
  record : Record
deriving DecidableEq, Repr

/-- What an action writes to the event file. -/
def Action.entry : Action → Option LogEntry
  | .event sequence operationId record => some ⟨sequence, operationId, record⟩
  | _ => none

/-- The event file after a trace, oldest record first. -/
def entries (trace : List Action) : List LogEntry := trace.filterMap Action.entry

/-- A record about the life of an operation. -/
def Record.accelerator : Record → Bool
  | .requested | .completed | .error _ => true
  | .cpuCheckpoint .. | .irq .. => false

/-- The last record of an operation. -/
def Record.Terminal : Record → Prop
  | .completed | .error _ => True
  | _ => False

/-- The operations are requested one after the other, and each is completed or rejected once,
before the next request. `n` is the number of requests, and `o` says whether the last operation
has no terminal record yet. -/
inductive Lifecycle : ℕ → Bool → List LogEntry → Prop
  | nil : Lifecycle 0 false []
  | requested {n s : ℕ} {log : List LogEntry} (h : Lifecycle n false log) :
      Lifecycle (n + 1) true (log ++ [⟨s, n + 1, .requested⟩])
  | ended {n s : ℕ} {log : List LogEntry} {r : Record} (hr : r.Terminal)
    (h : Lifecycle n true log) :
      Lifecycle n false (log ++ [⟨s, n, r⟩])

/-- The accelerator records of a log. -/
def accelerators (log : List LogEntry) : List LogEntry := log.filter (·.record.accelerator)

/-- The id of the most recent request, zero before the first one. -/
def mostRecent (log : List LogEntry) : ℕ :=
  ((log.filter (·.record = .requested)).getLast?.map LogEntry.operationId).getD 0

/-- The last request has no terminal record. -/
def isOpen (log : List LogEntry) : Bool :=
  ((accelerators log).getLast?.map fun e => decide (e.record = .requested)).getD false

/-- The completed operations. -/
def completions (log : List LogEntry) : ℕ := log.countP (·.record = .completed)

/-- A record of the guest names the most recent request, and a checkpoint says whether it is still
open. -/
def Observes (before : List LogEntry) (e : LogEntry) : Prop :=
  e.record.accelerator = false → e.operationId = mostRecent before ∧
    ∀ value busy, e.record = .cpuCheckpoint value busy → busy = isOpen before

/-- The actions that let an observer see the end of an operation: the end of the operation itself,
which makes the device idle and counts it, and the completion interrupt with its record. -/
def Action.Discloses : Action → Prop
  | .finish | .reject _ | .irqSend 1 => True
  | .event _ _ (.irq kind ..) => kind = "irq-asserted"
  | _ => False

/-- A trace with a well-formed event file. -/
structure WellFormed (trace : List Action) : Prop where
  numbered : (entries trace).map LogEntry.sequence = List.range (entries trace).length
  lifecycle : ∃ n o, Lifecycle n o (accelerators (entries trace))
  observed : Each Observes (entries trace)
  disclosed : Each (fun before a => a.Discloses → isOpen (entries before) = false) trace

section

variable {log : List LogEntry} {e : LogEntry} {trace : List Action} {a : Action} {n s k : ℕ}
  {o : Bool}

/-- One more record, if it is about the accelerator. -/
theorem accelerators_concat (log : List LogEntry) (e : LogEntry) : accelerators (log ++ [e]) =
    if e.record.accelerator then accelerators log ++ [e] else accelerators log := by
  rw [accelerators, List.filter_append]
  cases h : e.record.accelerator <;> simp [accelerators, h]

/-- The last such record says whether an operation is open. -/
theorem isOpen_concat (log : List LogEntry) (e : LogEntry) : isOpen (log ++ [e]) =
    if e.record.accelerator then decide (e.record = .requested) else isOpen log := by
  rw [isOpen, accelerators_concat]
  cases h : e.record.accelerator <;> simp [isOpen]

/-- The last request is the most recent one. -/
theorem mostRecent_concat (log : List LogEntry) (e : LogEntry) : mostRecent (log ++ [e]) =
    if e.record = .requested then e.operationId else mostRecent log := by
  rw [mostRecent, List.filter_append]
  by_cases h : e.record = .requested <;> simp [mostRecent, h]

/-- One more completion, if the record is one. -/
theorem completions_concat (log : List LogEntry) (e : LogEntry) : completions (log ++ [e]) =
    if e.record = .completed then completions log + 1 else completions log := by
  rw [completions, List.countP_append]
  by_cases h : e.record = .completed <;> simp [completions, h]

/-- One more action, if it is a record. -/
theorem entries_concat (trace : List Action) (a : Action) :
    entries (trace ++ [a]) = entries trace ++ a.entry.toList := by
  rw [entries, List.filterMap_append]
  cases h : a.entry <;> simp [entries, h]

end

/-! ### Writing the log -/

/-- A well-formed event file with `s` records, `n` requests of which the last is open if `o`, and
`k` completions. -/
structure Logged (s n k : ℕ) (o : Bool) (trace : List Action) : Prop where
  numbered : (entries trace).map LogEntry.sequence = List.range (entries trace).length
  count : (entries trace).length = s
  lifecycle : Lifecycle n o (accelerators (entries trace))
  recent : mostRecent (entries trace) = n
  opened : isOpen (entries trace) = o
  done : completions (entries trace) = k
  observed : Each Observes (entries trace)
  disclosed : Each (fun before a => a.Discloses → isOpen (entries before) = false) trace

namespace Logged

variable {trace : List Action} {a : Action} {s n k : ℕ} {o : Bool} {r : Record}

/-- What is kept along a run implies the grammar. -/
theorem wellFormed (h : Logged s n k o trace) : WellFormed trace :=
  ⟨h.numbered, ⟨n, o, h.lifecycle⟩, h.observed, h.disclosed⟩

/-- Nothing is logged. -/
theorem nil : Logged 0 0 0 false [] :=
  ⟨rfl, rfl, .nil, rfl, rfl, rfl, each_nil, each_nil⟩

/-- An action that is not a record. -/
theorem emit (h : Logged s n k o trace) (hentry : a.entry = none) (hdis : a.Discloses → o = false) :
    Logged s n k o (trace ++ [a]) := by
  have hsame : entries (trace ++ [a]) = entries trace := by
    rw [entries_concat, hentry, Option.toList_none, List.append_nil]
  have hdisclosed := h.disclosed.concat fun ha => h.opened.trans (hdis ha)
  obtain ⟨hnum, hcount, hlife, hrecent, hopen, hdone, hobs, -⟩ := h
  refine ⟨?_, ?_, ?_, ?_, ?_, ?_, ?_, hdisclosed⟩ <;> rw [hsame] <;> assumption

/-- The parts of the log that are the same for every record. -/
theorem written (h : Logged s n k o trace) {m : ℕ}
    (hobs : Observes (entries trace) ⟨s, m, r⟩)
    (hdis : Action.Discloses (.event s m r) → o = false) :
    entries (trace ++ [.event s m r]) = entries trace ++ [⟨s, m, r⟩] ∧
      (entries (trace ++ [.event s m r])).map LogEntry.sequence =
        List.range (entries (trace ++ [.event s m r])).length ∧
      (entries (trace ++ [.event s m r])).length = s + 1 ∧
      Each Observes (entries (trace ++ [.event s m r])) ∧
      Each (fun before a => a.Discloses → isOpen (entries before) = false)
        (trace ++ [.event s m r]) := by
  have hnew : entries (trace ++ [.event s m r]) = entries trace ++ [⟨s, m, r⟩] :=
    entries_concat trace _
  have hlen : (entries (trace ++ [.event s m r])).length = s + 1 := by
    rw [hnew, List.length_append, h.count]
    rfl
  refine ⟨hnew, ?_, hlen, hnew ▸ h.observed.concat hobs,
    h.disclosed.concat fun ha => h.opened.trans (hdis ha)⟩
  rw [hlen, hnew, List.map_append, h.numbered, h.count, List.range_succ]
  rfl

/-- A request opens an operation. -/
theorem requested (h : Logged s n k false trace) :
    Logged (s + 1) (n + 1) k true (trace ++ [.event s (n + 1) .requested]) := by
  obtain ⟨hnew, hnum, hlen, hobs, hdis⟩ := h.written (m := n + 1) (r := .requested)
    (fun hacc => by cases hacc) (fun hd => by cases hd)
  refine ⟨hnum, hlen, ?_, ?_, ?_, ?_, hobs, hdis⟩
  · rw [hnew, accelerators_concat]
    exact .requested h.lifecycle
  · rw [hnew, mostRecent_concat]
    rfl
  · rw [hnew, isOpen_concat]
    rfl
  · rw [hnew, completions_concat, h.done]
    rfl

/-- A terminal record closes the operation. -/
theorem ended (h : Logged s n k true trace) (hr : r.Terminal) :
    Logged (s + 1) n (if r = .completed then k + 1 else k) false (trace ++ [.event s n r]) := by
  have hacc : r.accelerator = true := by
    cases r <;> first | rfl | cases hr
  have hreq : r ≠ .requested := by
    rintro rfl
    cases hr
  have hquiet : ¬Action.Discloses (.event s n r) := by
    cases r <;> first | exact fun hd => hd | cases hr
  obtain ⟨hnew, hnum, hlen, hobs, hdis⟩ := h.written (m := n) (r := r)
    (fun hobs => absurd (hacc.symm.trans hobs) (by decide))
    (fun hd => absurd hd hquiet)
  refine ⟨hnum, hlen, ?_, ?_, ?_, ?_, hobs, hdis⟩
  · rw [hnew, accelerators_concat, if_pos hacc]
    exact .ended hr h.lifecycle
  · rw [hnew, mostRecent_concat, if_neg hreq, h.recent]
  · rw [hnew, isOpen_concat, if_pos hacc]
    exact decide_eq_false hreq
  · rw [hnew, completions_concat, h.done]

/-- A record of the guest changes nothing but the count. -/
theorem observer (h : Logged s n k o trace) (hr : r.accelerator = false)
    (hbusy : ∀ value busy, r = .cpuCheckpoint value busy → busy = o)
    (hdis : Action.Discloses (.event s n r) → o = false) :
    Logged (s + 1) n k o (trace ++ [.event s n r]) := by
  have hreq : r ≠ .requested ∧ r ≠ .completed := by
    constructor <;> rintro rfl <;> cases hr
  have hobserves : Observes (entries trace) ⟨s, n, r⟩ := fun _ =>
    ⟨h.recent.symm, fun value busy hrec => (hbusy value busy hrec).trans h.opened.symm⟩
  obtain ⟨hnew, hnum, hlen, hobs, hdisclosed⟩ := h.written hobserves hdis
  refine ⟨hnum, hlen, ?_, ?_, ?_, ?_, hobs, hdisclosed⟩
  · rw [hnew, accelerators_concat, if_neg (by simp [hr])]
    exact h.lifecycle
  · rw [hnew, mostRecent_concat, if_neg hreq.1, h.recent]
  · rw [hnew, isOpen_concat, if_neg (by simp [hr]), h.opened]
  · rw [hnew, completions_concat, if_neg hreq.2, h.done]

end Logged

/-! ### Turns of a handler -/

namespace Device

/-- The log fits the counters of the device. -/
def Logs (d : Device) (o : Bool) : Prop := Logged d.sequence d.submitId d.kernelId o d.trace

/-- The held doorbell response stays, or it is sent at a point where the log is closed. -/
def Keeps (d d' : Device) (as : List Action) : Prop :=
  d'.opDoorbellResp = d.opDoorbellResp ∨ d'.opDoorbellResp = none ∧
    ∀ id, d.opDoorbellResp = some id → ∃ before after, as = before ++ .writeResp id :: after ∧
      isOpen (entries (d.trace ++ before)) = false

/-- A part of a handler takes a log to the next one, and keeps the held response or releases it
after the terminal record. -/
def Turn (o o' : Bool) (d d' : Device) : Prop :=
  d.Logs o → d'.Logs o' ∧ ∃ as, d'.trace = d.trace ++ as ∧ d.Keeps d' as

namespace Turn

variable {d d₁ d₂ : Device} {o o₁ o₂ : Bool}

/-- What the log does not mention is free. -/
theorem frame (hs : d₁.sequence = d.sequence) (hn : d₁.submitId = d.submitId)
    (hk : d₁.kernelId = d.kernelId) (ht : d₁.trace = d.trace)
    (hheld : d₁.opDoorbellResp = d.opDoorbellResp) : Turn o o d d₁ := by
  intro h
  refine ⟨?_, [], by rw [ht, List.append_nil], Or.inl hheld⟩
  rw [Logs, hs, hn, hk, ht]
  exact h

/-- Nothing happens. -/
theorem refl (o : Bool) (d : Device) : Turn o o d d := frame rfl rfl rfl rfl rfl

/-- Two turns in a row. -/
theorem trans (h₁ : Turn o o₁ d d₁) (h₂ : Turn o₁ o₂ d₁ d₂) : Turn o o₂ d d₂ := by
  intro h
  obtain ⟨hlogs₁, as, htrace₁, hkeep₁⟩ := h₁ h
  obtain ⟨hlogs₂, bs, htrace₂, hkeep₂⟩ := h₂ hlogs₁
  refine ⟨hlogs₂, as ++ bs, by rw [htrace₂, htrace₁, List.append_assoc], ?_⟩
  rcases hkeep₁ with hsame | ⟨hnone, hsent⟩
  · rcases hkeep₂ with hsame₂ | ⟨hnone₂, hsent₂⟩
    · exact Or.inl (hsame₂.trans hsame)
    · refine Or.inr ⟨hnone₂, fun id hid => ?_⟩
      obtain ⟨before, after, rfl, hclosed⟩ := hsent₂ id (hsame.trans hid)
      refine ⟨as ++ before, after, by rw [List.append_assoc], ?_⟩
      rw [← List.append_assoc, ← htrace₁]
      exact hclosed
  · refine Or.inr ⟨?_, fun id hid => ?_⟩
    · rcases hkeep₂ with hsame₂ | ⟨hnone₂, -⟩
      · exact hsame₂.trans hnone
      · exact hnone₂
    · obtain ⟨before, after, rfl, hclosed⟩ := hsent id hid
      exact ⟨before, after ++ bs, by simp, hclosed⟩

/-- An action that is not a record. -/
theorem emit (d : Device) {a : Action} (hentry : a.entry = none) (hdis : a.Discloses → o = false) :
    Turn o o d (d.emit a) :=
  fun h => ⟨Logged.emit h hentry hdis, [a], rfl, Or.inl rfl⟩

/-- An action that is no record and discloses nothing. -/
theorem say (d : Device) (a : Action) (hentry : a.entry = none) (hdis : ¬a.Discloses) :
    Turn o o d (d.emit a) :=
  emit d hentry fun h => absurd h hdis

/-- A record of the guest. -/
theorem emitEvent (p : Params) (hfile : p.eventFile = true) (d : Device) {r : Record}
    (hr : r.accelerator = false) (hbusy : ∀ value busy, r = .cpuCheckpoint value busy → busy = o)
    (hdis : ∀ s n, Action.Discloses (.event s n r) → o = false) : Turn o o d (d.emitEvent p r) := by
  intro h
  rw [Device.emitEvent, if_pos hfile]
  exact ⟨Logged.observer h hr hbusy (hdis _ _), _, rfl, Or.inl rfl⟩

variable {p : Params}

/-- A hold call is such an action. -/
theorem updatePrimaryHold (d : Device) (b : Bool) : Turn o o d (d.updatePrimaryHold b) := by
  rw [Device.updatePrimaryHold]
  split_ifs
  · exact (say d .doNotEndSim rfl fun h => h).trans (frame rfl rfl rfl rfl rfl)
  · exact refl o d
  · exact (say d .okToEndSim rfl fun h => h).trans (frame rfl rfl rfl rfl rfl)
  · exact refl o d

/-- An interrupt record; one of a raised line comes when no operation is open. -/
theorem emitIrqEvent (hfile : p.eventFile = true) (d : Device) {kind : String} (value : UInt32)
    (observer : String) (hkind : kind = "irq-asserted" → o = false) :
    Turn o o d (d.emitIrqEvent p kind value observer) := by
  rw [Device.emitIrqEvent]
  split_ifs
  · exact emitEvent p hfile d rfl (fun _ _ h => by cases h) fun _ _ h => hkind h
  · exact refl o d

/-- The completion interrupt is raised on a closed log. -/
theorem raiseIrqOnRetire (hfile : p.eventFile = true) (d : Device) :
    Turn false false d (d.raiseIrqOnRetire p) := by
  rw [Device.raiseIrqOnRetire]
  dsimp only
  split_ifs
  · exact refl false d
  · exact frame rfl rfl rfl rfl rfl
  · have hcount : Turn false false d { d with irqEvents := d.irqEvents + 1, irqPending := true } :=
      frame rfl rfl rfl rfl rfl
    exact (hcount.trans (emitIrqEvent hfile _ _ _ fun _ => rfl)).trans (emit _ rfl fun _ => rfl)

/-- An acknowledgement, with its records. -/
theorem ackIrq (hfile : p.eventFile = true) (d : Device) (consume : UInt64) :
    Turn o o d (d.ackIrq p consume) := by
  rw [Device.ackIrq]
  dsimp only
  have hack : Turn o o d (d.emitIrqEvent p "irq-acknowledged" consume.toUInt32) :=
    emitIrqEvent hfile d _ _ fun h => by simp at h
  have hcount {n : ℕ} {pending : Bool} : Turn o o d
      { d.emitIrqEvent p "irq-acknowledged" consume.toUInt32 with
        irqEvents := n, irqPending := pending } := hack.trans (frame rfl rfl rfl rfl rfl)
  have hdrop {n : ℕ} : Turn o o d ((Device.emitIrqEvent p
      { d.emitIrqEvent p "irq-acknowledged" consume.toUInt32 with
        irqEvents := n, irqPending := false } "irq-deasserted" 0).emit (.irqSend 0)) :=
    (hcount.trans (emitIrqEvent hfile _ _ _ fun h => by simp at h)).trans
      (say _ (.irqSend 0) rfl fun h => h)
  split_ifs
  · exact refl o d
  · exact hack.trans (frame rfl rfl rfl rfl rfl)
  · exact hdrop
  · exact hack.trans (frame rfl rfl rfl rfl rfl)
  · exact hdrop

/-- The held response is sent on a closed log. -/
theorem releaseOpDoorbell (d : Device) : Turn false false d d.releaseOpDoorbell := by
  rw [Device.releaseOpDoorbell]
  cases hheld : d.opDoorbellResp with
  | none => exact refl false d
  | some id =>
      intro h
      have hlog : Logged d.sequence d.submitId d.kernelId false (d.trace ++ [.writeResp id]) :=
        Logged.emit h rfl fun hd => False.elim hd
      refine ⟨hlog, [.writeResp id], rfl, Or.inr ⟨rfl, fun id' hid => ?_⟩⟩
      cases hheld.symm.trans hid
      refine ⟨[], [], rfl, ?_⟩
      rw [List.append_nil]
      exact h.opened

/-! ### The end of an operation -/

/-- A rejection closes the log before the device is idle. -/
theorem opReject (hfile : p.eventFile = true) (d : Device) (why : String) :
    Turn true false d (d.opReject p why) := by
  have hrecord : Turn true false d (d.emitEvent p (.error "operation-rejected")) := by
    intro h
    rw [Device.emitEvent, if_pos hfile]
    have hlog := Logged.ended (r := .error "operation-rejected") h trivial
    exact ⟨hlog, _, rfl, Or.inl rfl⟩
  have hreject : Turn true false d ((d.emitEvent p (.error "operation-rejected")).emit
      (.reject why)) := hrecord.trans (emit _ rfl fun _ => rfl)
  have hidle : Turn true false d
      { (d.emitEvent p (.error "operation-rejected")).emit (.reject why) with
        op := { (d.emitEvent p (.error "operation-rejected")).op with phase := .idle }
        busyUntilClk := 0 } := hreject.trans (frame rfl rfl rfl rfl rfl)
  rw [Device.opReject]
  refine hidle.trans ?_
  exact (releaseOpDoorbell _).trans (updatePrimaryHold _ true)

/-- A completion closes the log before the device is idle and counts. -/
theorem opFinish (hfile : p.eventFile = true) (d : Device) : Turn true false d (d.opFinish p) := by
  have hrecord : Turn true false d { (d.emitEvent p .completed).emit .finish with
      op := { (d.emitEvent p .completed).op with phase := .idle }
      kernelId := (d.emitEvent p .completed).kernelId + 1 } := by
    intro h
    rw [Device.emitEvent, if_pos hfile]
    have hlog : Logged (d.sequence + 1) d.submitId (d.kernelId + 1) false
        ((d.trace ++ [.event d.sequence d.submitId .completed]) ++ [.finish]) :=
      (Logged.ended (r := .completed) h trivial).emit rfl fun _ => rfl
    exact ⟨hlog, [.event d.sequence d.submitId .completed, .finish], by simp [Device.emit],
      Or.inl rfl⟩
  rw [Device.opFinish]
  refine hrecord.trans ?_
  exact ((releaseOpDoorbell _).trans (raiseIrqOnRetire hfile _)).trans (updatePrimaryHold _ true)

/-! ### The phases of an operation -/

/-- A request to the memory. -/
theorem sendMem (d : Device) (q : MemRequest) : Turn o o d (d.sendMem q) :=
  (say d (.memSend q) rfl fun h => h).trans (frame rfl rfl rfl rfl rfl)

/-- The reads of an operation, by induction on the room for them. -/
theorem opIssueReads (d : Device) (fuel : ℕ) : Turn o o d (d.opIssueReads p fuel) := by
  induction fuel generalizing d with
  | zero => exact refl o d
  | succ fuel ih =>
      rw [Device.opIssueReads]
      split_ifs
      · refine Turn.trans ?_ (ih (d.opIssueRead p))
        rw [Device.opIssueRead]
        exact Turn.trans (frame rfl rfl rfl rfl rfl) (sendMem _ _)
      · exact refl o d

/-- The writes of an operation. -/
theorem opIssueWrites (d : Device) (fuel : ℕ) : Turn o o d (d.opIssueWrites p fuel) := by
  induction fuel generalizing d with
  | zero => exact refl o d
  | succ fuel ih =>
      rw [Device.opIssueWrites]
      split_ifs
      · refine Turn.trans ?_ (ih (d.opIssueWrite p))
        rw [Device.opIssueWrite]
        exact Turn.trans (frame rfl rfl rfl rfl rfl) (sendMem _ _)
      · exact refl o d

end Turn

/-! ### The handlers -/

/-- An operation is in progress. -/
def active (d : Device) : Bool := d.op.phase != .idle

variable {p : Params} {k : QuetzKernel} {d d' : Device}

/-- A quiet change does not end an operation. -/
theorem active_quiet (h : Quiet d d') : d'.active = d.active :=
  congrArg (fun x : OpsView => x.op.phase != .idle) (opsView_quiet h)

/-- A rejection ends it. -/
theorem active_opReject (why : String) : (d.opReject p why).active = false :=
  congrArg (fun x : OpsView => x.op.phase != .idle) (opsView_opReject p d why)

/-- The finish ends it. -/
theorem active_opFinish : (d.opFinish p).active = false := by
  rw [opFinish, active_quiet (.updatePrimaryHold _ _), active_quiet (.raiseIrqOnRetire _ _)]
  exact congrArg (fun x : OpsView => x.op.phase != .idle) (opsView_releaseOpDoorbell _)

/-- Issuing reads does not. -/
theorem active_opIssueReads (fuel : ℕ) : (d.opIssueReads p fuel).active = d.active := by
  induction fuel generalizing d with
  | zero => rfl
  | succ fuel ih =>
      rw [opIssueReads]
      split_ifs
      · exact ih
      · rfl

/-- Issuing writes does not. -/
theorem active_opIssueWrites (fuel : ℕ) : (d.opIssueWrites p fuel).active = d.active := by
  induction fuel generalizing d with
  | zero => rfl
  | succ fuel ih =>
      rw [opIssueWrites]
      split_ifs
      · exact ih
      · rfl

/-- An operation is rejected at its doorbell, or its reads begin. -/
theorem turn_opStartDma (hfile : p.eventFile = true) (k : QuetzKernel) (d : Device) :
    Turn true (d.opStartDma p k).active d (d.opStartDma p k) := by
  rw [opStartDma]
  dsimp only
  have hreject (why : String) : Turn true (Device.active (opReject p why
      { d with op := { d.op with inBytes := (k.inputBytes d.op.args).1.toNat } })) d
      (opReject p why { d with op :=
      { d.op with inBytes := (k.inputBytes d.op.args).1.toNat } }) := by
    rw [active_opReject]
    refine Turn.trans ?_ (Turn.opReject hfile _ why)
    exact Turn.frame rfl rfl rfl rfl rfl
  split_ifs
  · exact hreject _
  · exact hreject _
  · exact hreject _
  · exact hreject _
  · rw [active_quiet (.updatePrimaryHold _ _), opIssueReadWindow, active_opIssueReads]
    refine Turn.trans ?_ (Turn.updatePrimaryHold _ false)
    refine Turn.trans ?_ (Turn.opIssueReads _ _)
    exact Turn.frame rfl rfl rfl rfl rfl

/-- The output of an operation is rejected, or its writes begin. -/
theorem turn_opBeginWriteback (hfile : p.eventFile = true) (d : Device) :
    Turn true (d.opBeginWriteback p).active d (d.opBeginWriteback p) := by
  rw [opBeginWriteback]
  split_ifs
  · rw [active_opReject]
    exact Turn.opReject hfile d _
  · dsimp only
    rw [active_quiet (.updatePrimaryHold _ _), opIssueWriteWindow, active_opIssueWrites]
    refine Turn.trans ?_ (Turn.updatePrimaryHold _ false)
    refine Turn.trans ?_ (Turn.opIssueWrites _ _)
    exact Turn.frame rfl rfl rfl rfl rfl

/-- A computation leaves the operation in progress, unless its output is rejected at once. -/
theorem turn_opComputeAndStartBusy (hfile : p.eventFile = true) (hactive : d.active = true)
    (h : d.opComputeAndStartBusy p k = .ok d') : Turn true d'.active d d' := by
  have hcompute : Turn true true d (d.computed k) :=
    (Turn.say d (.compute d.op.args d.op.input) rfl fun h => h).trans
      (Turn.frame rfl rfl rfl rfl rfl)
  rw [opComputeAndStartBusy_eq h]
  split_ifs
  · exact hcompute.trans (turn_opBeginWriteback hfile _)
  · rw [active_quiet (.updatePrimaryHold _ _)]
    have hstill : Device.active { d.computed k with
      busyUntilClk := wrap64 (d.gpuClk + d.opLatency p k) } = true := hactive
    rw [hstill]
    refine Turn.trans ?_ (Turn.updatePrimaryHold _ false)
    exact hcompute.trans (Turn.frame rfl rfl rfl rfl rfl)

/-- The answer to a read. -/
theorem turn_opOnReadResp (hfile : p.eventFile = true) (hactive : d.active = true) {id : ℕ}
    {data : List UInt8} (h : d.opOnReadResp p k id data = .ok d') : Turn true d'.active d d' := by
  rw [opOnReadResp] at h
  cases hoff : d.op.reqOff id with
  | none =>
      rw [hoff] at h
      cases h
  | some off =>
      rw [hoff] at h
      dsimp only at h
      set d₁ : Device := opIssueReadWindow p { d with op := { d.op with
        reqOff := Function.update d.op.reqOff id none
        input := overwrite d.op.input off (data.take (d.op.inBytes - off))
        outstanding := d.op.outstanding - 1 } } with hd₁
      have hactive₁ : d₁.active = true := by
        rw [hd₁, opIssueReadWindow, active_opIssueReads]
        exact hactive
      have hwindow : Turn true true d d₁ := by
        rw [hd₁]
        refine Turn.trans ?_ (Turn.opIssueReads _ _)
        exact Turn.frame rfl rfl rfl rfl rfl
      split_ifs at h
      · exact hwindow.trans (turn_opComputeAndStartBusy hfile hactive₁ h)
      · rw [← Except.ok.inj h, hactive₁]
        exact hwindow

/-- The answer to a write. -/
theorem turn_opOnWriteResp (hfile : p.eventFile = true) (hactive : d.active = true) :
    Turn true (d.opOnWriteResp p).active d (d.opOnWriteResp p) := by
  rw [opOnWriteResp]
  dsimp only
  split_ifs
  · rw [hactive]
    exact Turn.refl true d
  · rw [active_opFinish]
    refine Turn.trans ?_ (Turn.opFinish hfile _)
    refine Turn.trans ?_ (Turn.opIssueWrites _ _)
    exact Turn.frame rfl rfl rfl rfl rfl
  · rw [opIssueWriteWindow, active_opIssueWrites]
    have hstill : Device.active { d with op := { d.op with outstanding := d.op.outstanding - 1 } } =
      true := hactive
    rw [hstill]
    refine Turn.trans ?_ (Turn.opIssueWrites _ _)
    exact Turn.frame rfl rfl rfl rfl rfl

/-- The end of the busy window, which only an operation in progress has. -/
theorem turn_retireIfReady (hk : p.kernel = some k) (hfile : p.eventFile = true)
    (hsound : d.opsView.Sound p) (nowClk : ℕ) :
    Turn d.active (d.retireIfReady p nowClk).active d (d.retireIfReady p nowClk) := by
  rw [retireIfReady]
  by_cases hready : d.busyUntilClk = 0 ∨ nowClk < d.busyUntilClk
  · rw [if_pos hready]
    exact Turn.refl d.active d
  · rw [if_neg hready]
    have hbusy : d.busyUntilClk ≠ 0 := fun h0 => hready (Or.inl h0)
    cases hsound.stage with
    | idle hidle => exact absurd hidle.busy hbusy
    | writing hwriting => exact absurd hwriting.busy hbusy
    | reading hread =>
        have hphase : d.op.phase = .reading := hread.phase
        have hactive : d.active = true := by
          rw [active, hphase]
          rfl
        rw [if_pos ⟨by rw [hk]; rfl, hphase⟩, hactive]
        refine Turn.trans ?_ (turn_opBeginWriteback hfile _)
        exact Turn.frame rfl rfl rfl rfl rfl

/-- The device as its doorbell leaves it to the DMA. -/
def requested (p : Params) (write : MmioWrite) (d : Device) : Device :=
  let d := if !write.posted && p.doorbellBlocking then
    { d with opDoorbellResp := some write.id } else d
  let d := { d with submitId := d.submitId + 1, op := { d.op with args := d.argRegs } }
  (d.emit (.launch d.submitId)).emitEvent p .requested

/-- An accepted doorbell opens an operation. -/
theorem turn_requested (hfile : p.eventFile = true) (write : MmioWrite) (d : Device) :
    Turn false true
      (if !write.posted && p.doorbellBlocking then
        { d with opDoorbellResp := some write.id } else d) (d.requested p write) := by
  rw [requested]
  generalize (if !write.posted && p.doorbellBlocking then
    { d with opDoorbellResp := some write.id } else d) = d₀
  intro h
  rw [emitEvent, if_pos hfile]
  have hlaunch : Logged d₀.sequence d₀.submitId d₀.kernelId false
      (d₀.trace ++ [.launch (d₀.submitId + 1)]) := Logged.emit h rfl fun hd => False.elim hd
  exact ⟨hlaunch.requested, [.launch (d₀.submitId + 1),
    .event d₀.sequence (d₀.submitId + 1) .requested], by simp [emit], Or.inl rfl⟩

/-- The doorbell writes the request, and holds its response back from then on. -/
theorem turn_kernelDoorbell (hfile : p.eventFile = true) {write : MmioWrite}
    (h : d.kernelDoorbell p k write = .ok d') : d.active = false ∧ Turn false d'.active
      (if !write.posted && p.doorbellBlocking then
        { d with opDoorbellResp := some write.id } else d) d' := by
  rw [kernelDoorbell] at h
  by_cases hbusy : d.op.phase ≠ .idle ∨ d.isBusyAt
  · rw [if_pos hbusy] at h
    cases h
  rw [if_neg hbusy] at h
  constructor
  · exact bne_eq_false_iff_eq.mpr (not_not.mp fun hne => hbusy (Or.inl hne))
  · have hstart :=
      (turn_requested hfile write d).trans (turn_opStartDma hfile k (d.requested p write))
    rw [← Except.ok.inj h]
    by_cases hreply : (!write.posted && !p.doorbellBlocking) = true
    · rw [if_pos hreply]
      exact hstart.trans (Turn.say _ (.writeResp write.id) rfl fun h => h)
    · rw [if_neg hreply]
      exact hstart

/-- A checkpoint says whether an operation is in progress. -/
theorem turn_checkpoint (hfile : p.eventFile = true) (d : Device) (value : UInt32) :
    Turn d.active d.active d (d.emitEvent p (.cpuCheckpoint value (d.op.phase != .idle))) := by
  refine Turn.emitEvent p hfile d rfl ?_ fun _ _ hd => False.elim hd
  rintro _ _ hrecord
  cases hrecord
  rfl

/-- A write to another register. -/
theorem turn_writeRegister (hfile : p.eventFile = true) {write : MmioWrite} (hw : ¬write.rings p)
    (h : d.writeRegister p (write.pAddr - p.baseAddr) write = .ok d') :
    Turn d.active d'.active d d' := by
  have hdoor : ¬write.pAddr - p.baseAddr = REG_DOORBELL := hw
  have hstill : d'.active = d.active :=
    congrArg (fun x : OpsView => x.op.phase != .idle) (opsView_writeRegister hw h)
  rw [hstill]
  cases writeRegister_cases h with
  | doorbell hring => exact absurd hring hdoor
  -- The records of the guest: a witness of an interrupt, and a checkpoint.
  | delivered => exact Turn.emitIrqEvent hfile _ _ _ fun hkind => by simp at hkind
  | settled => exact Turn.emitIrqEvent hfile _ _ _ fun hkind => by simp at hkind
  | checkpoint => exact turn_checkpoint hfile d _
  | latency => exact Turn.frame rfl rfl rfl rfl rfl
  | args => exact Turn.frame rfl rfl rfl rfl rfl
  | ack => exact Turn.ackIrq hfile _ _
  | nothing => exact Turn.refl _ _

/-- The device as a read of a register finds it. -/
def looked (p : Params) (read : MmioRead) (d : Device) : Device :=
  if LaunchView.polls p read then d.retireIfReady p d.gpuClk else d

/-- The value a read of a register returns. -/
def readValue (offset : UInt64) (d : Device) : UInt64 :=
  if offset = REG_STATUS then if d.isBusyAt ∨ d.op.phase ≠ .idle then 1 else 0
  else if offset = REG_KERNEL_ID ∨ offset = REG_RESULT then .ofNat d.kernelId
  else if offset = REG_TICKET then .ofNat d.submitId
  else if offset = REG_IRQ_ACK then if d.irqPending then 1 else 0
  else 0

/-- A read looks at the clock first, and the answer is the last thing it does. -/
theorem handleRead_eq (p : Params) (read : MmioRead) (d : Device) : d.handleRead p read =
    (d.looked p read).emit (.readResp read.id
      (u64ToData ((d.looked p read).readValue (read.pAddr - p.baseAddr)) read.size)) := rfl

/-- A read that looks at the clock may end the busy window. -/
theorem turn_looked (hk : p.kernel = some k) (hfile : p.eventFile = true)
    (hsound : d.opsView.Sound p) (read : MmioRead) :
    Turn d.active (d.looked p read).active d (d.looked p read) := by
  rw [looked]
  split_ifs
  · exact turn_retireIfReady hk hfile hsound _
  · exact Turn.refl d.active d

/-- What the doorbell of an event holds back is held from the start of the event. -/
def holding (p : Params) (d : Device) : DeviceEvent → Device
  | .write write =>
    if write.rings p ∧ (!write.posted && p.doorbellBlocking) then
      { d with opDoorbellResp := some write.id } else d
  | _ => d

/-- **One event.** -/
theorem turn_step (hk : p.kernel = some k) (hfile : p.eventFile = true) (hsound : d.opsView.Sound p)
    {e : DeviceEvent} (h : d.step p e = .ok d') : Turn d.active d'.active (d.holding p e) d' := by
  cases e with
  | read read =>
      rw [← Except.ok.inj h, handleRead_eq]
      exact (turn_looked hk hfile hsound read).trans (Turn.say _ (.readResp ..) rfl fun h => h)
  | tick =>
      rw [← Except.ok.inj h, tickBusy]
      dsimp only
      rw [active_quiet (.updatePrimaryHold _ _)]
      refine Turn.trans ?_ (Turn.updatePrimaryHold _ true)
      generalize wrap64 (d.gpuClk + 1) = clk
      have hclock : Turn d.active d.active d { d with gpuClk := clk } :=
        Turn.frame rfl rfl rfl rfl rfl
      have hsound₁ : (Device.opsView { d with gpuClk := clk }).Sound p := hsound
      exact hclock.trans (turn_retireIfReady hk hfile hsound₁ clk)
  | respond i data =>
      rw [step] at h
      have hlink {q : MemRequest} (hi : d.memIface[i]? = some q) : d.active = true := by
        have hmem : q ∈ d.memIface := List.mem_of_getElem? hi
        refine bne_iff_ne.mpr fun hphase => ?_
        cases hsound.stage with
        | idle hidle =>
            have hlink : d.memIface = [] := hidle.link
            rw [hlink] at hmem
            cases hmem
        | reading hread => exact absurd (hphase.symm.trans hread.phase) (by decide)
        | writing hwriting => exact absurd (hphase.symm.trans hwriting.phase) (by decide)
      have htake (link : List MemRequest) : Turn d.active d.active d { d with memIface := link } :=
        Turn.frame rfl rfl rfl rfl rfl
      cases hi : d.memIface[i]? with
      | none =>
          rw [hi] at h
          rw [← Except.ok.inj h]
          exact Turn.refl d.active d
      | some q =>
          have hactive := hlink hi
          rw [hactive] at htake ⊢
          rw [hi, hk] at h
          cases q with
          | read id addr size =>
              have hactive₁ : Device.active { d with memIface := d.memIface.eraseIdx i } = true :=
                hactive
              exact (htake _).trans (turn_opOnReadResp hfile hactive₁ h)
          | write id addr bytes =>
              have hactive₁ : Device.active { d with memIface := d.memIface.eraseIdx i } = true :=
                hactive
              rw [← Except.ok.inj h]
              exact (htake _).trans (turn_opOnWriteResp hfile hactive₁)
  | write write =>
      rw [step, handleWrite, hk] at h
      dsimp only at h
      by_cases hw : write.rings p
      · rw [if_pos (rings_iff.mp hw)] at h
        obtain ⟨hidle, hturn⟩ := turn_kernelDoorbell hfile h
        rw [hidle, holding]
        simp only [hw, true_and]
        exact hturn
      · rw [if_neg (mt rings_iff.mpr hw)] at h
        obtain ⟨d₁, hreg, hd'⟩ := eq_ok_of_bind h
        have hturn := turn_writeRegister hfile hw hreg
        rw [holding, if_neg fun hc => hw hc.1, ← Except.ok.inj hd']
        split_ifs
        · exact hturn.trans (Turn.say _ (.writeResp write.id) rfl fun h => h)
        · exact hturn

/-- Holding a response back is no action. -/
theorem holding_trace (e : DeviceEvent) : (d.holding p e).trace = d.trace := by
  rw [holding.eq_def]
  cases e with
  | write write => dsimp only; split_ifs <;> rfl
  | _ => rfl

/-- It is not seen in the log. -/
theorem logs_holding {o : Bool} (h : d.Logs o) (e : DeviceEvent) : (d.holding p e).Logs o := by
  rw [holding.eq_def]
  cases e with
  | write write => dsimp only; split_ifs <;> exact h
  | _ => exact h

/-- An idle device holds nothing back and is not busy. -/
theorem idle_of_active (hsound : d.opsView.Sound p) (hactive : d.active = false) :
    d.opsView.Idle := by
  have hphase : d.op.phase = .idle := bne_eq_false_iff_eq.mp hactive
  cases hsound.stage with
  | idle hidle => exact hidle
  | reading hread => exact absurd (hphase.symm.trans hread.phase) (by decide)
  | writing hwriting => exact absurd (hphase.symm.trans hwriting.phase) (by decide)

/-- A doorbell is held back for an operation. -/
theorem active_of_held (hsound : d.opsView.Sound p) {id : ℕ} (hheld : d.opDoorbellResp = some id) :
    d.active = true := by
  by_contra hactive
  have hnone : d.opDoorbellResp = none :=
    (idle_of_active hsound (Bool.not_eq_true _ ▸ hactive)).held
  rw [hheld] at hnone
  cases hnone

/-- The response of a doorbell is held from its event on. -/
theorem holding_held (hk : p.kernel = some k) (hfile : p.eventFile = true)
    (hsound : d.opsView.Sound p) {e : DeviceEvent} (hstep : d.step p e = .ok d') {id : ℕ}
    (h : HeldDuring p d e id) : (d.holding p e).opDoorbellResp = some id := by
  rcases h with hheld | ⟨write, rfl, hrings, hposted, hblock, rfl⟩
  · rw [holding.eq_def]
    cases e with
    | write write =>
        dsimp only
        split_ifs with hring
        · rw [step, handleWrite, hk] at hstep
          dsimp only at hstep
          rw [if_pos (rings_iff.mp hring.1)] at hstep
          have hidle := (turn_kernelDoorbell hfile hstep).1
          exact absurd (hidle.symm.trans (active_of_held hsound hheld)) (by decide)
        · exact hheld
    | read read => exact hheld
    | tick => exact hheld
    | respond i data => exact hheld
  · rw [holding, if_pos ⟨hrings, by simp [hposted, hblock]⟩]

end Device

variable {p : Params} {k : QuetzKernel} {ok : Device → DeviceEvent → Prop} {d : Device}

/-- The log of every reachable device. -/
theorem Device.Reaches.logs (hk : p.kernel = some k) (hfile : p.eventFile = true)
    (hd : Device.Reaches p ok d) : d.Logs d.active := by
  induction hd with
  | start hd =>
      obtain rfl := construct_eq_ok hd
      exact Logged.nil.emit (a := .doNotEndSim) rfl fun h => False.elim h
  | step e hreach hok hstep ih =>
      exact (Device.turn_step hk hfile (hreach.sound hk) hstep (Device.logs_holding ih e)).1

/-- What the event file says about the operations, and what the guest sees of them: the status, the
completion count and a held response follow the records that are already written. -/
structure LogSound (p : Params) (d : Device) : Prop where
  file : WellFormed d.trace
  status : isOpen (entries d.trace) = true ↔ d.op.phase ≠ .idle
  count : completions (entries d.trace) = d.kernelId
  reads : ∀ read d', d.step p (.read read) = .ok d' → ∃ before data,
    d'.trace = before ++ [.readResp read.id data] ∧
    (read.pAddr - p.baseAddr = REG_STATUS →
      data = u64ToData (if isOpen (entries before) then 1 else 0) read.size) ∧
    (read.pAddr - p.baseAddr = REG_KERNEL_ID ∨ read.pAddr - p.baseAddr = REG_RESULT →
      data = u64ToData (.ofNat (completions (entries before))) read.size)
  released : ∀ e d' id, d.step p e = .ok d' → HeldDuring p d e id →
    d'.opDoorbellResp = some id ∧ isOpen (entries d'.trace) = true ∨
    d'.opDoorbellResp = none ∧ ∃ before after,
      d'.trace = d.trace ++ before ++ .writeResp id :: after ∧
      isOpen (entries (d.trace ++ before)) = false

/-- **The event file is well formed**, in every run of a device with a kernel and an event file. -/
theorem event_log_sound (hk : p.kernel = some k) (hfile : p.eventFile = true)
    (hd : Device.Reaches p ok d) : LogSound p d := by
  have hlogs := hd.logs hk hfile
  have hsound := hd.sound hk
  constructor
  case file => exact Logged.wellFormed hlogs
  case status =>
    rw [hlogs.opened]
    exact bne_iff_ne
  case count => exact hlogs.done
  case reads =>
    intro read d' hstep
    have hlogs₁ := (Device.turn_looked hk hfile hsound read hlogs).1
    have hsound₁ : (d.looked p read).opsView.Sound p := by
      rw [Device.looked]
      split_ifs
      · exact (retireIfReady_sound hk hsound _).1
      · exact hsound
    rw [← Except.ok.inj hstep, Device.handleRead_eq]
    generalize d.looked p read = d₁ at hlogs₁ hsound₁ ⊢
    refine ⟨d₁.trace, _, rfl, fun hstatus => ?_, fun hcount => ?_⟩
    · have hbusy : (d₁.isBusyAt = true ∨ d₁.op.phase ≠ .idle) ↔ d₁.active = true := by
        constructor
        · rintro (hbusy | hphase)
          · by_contra hactive
            have hzero : d₁.busyUntilClk = 0 :=
              (Device.idle_of_active hsound₁ (Bool.not_eq_true _ ▸ hactive)).busy
            exact bne_iff_ne.mp hbusy hzero
          · exact bne_iff_ne.mpr hphase
        · exact fun hactive => Or.inr (bne_iff_ne.mp hactive)
      rw [hstatus, Device.readValue, if_pos rfl, hlogs₁.opened, if_congr hbusy rfl rfl]
    · have hvalue : d₁.readValue (read.pAddr - p.baseAddr) = .ofNat d₁.kernelId := by
        rcases hcount with hcount | hcount <;> rw [hcount, Device.readValue, if_neg (by decide),
          if_pos (by decide)]
      rw [hvalue, hlogs₁.done]
  case released =>
    intro e d' id hstep hheld
    have hsound' := (hsound.step hk hstep).1
    obtain ⟨hlogs', as, htrace, hkeep⟩ :=
      Device.turn_step hk hfile hsound hstep (Device.logs_holding hlogs e)
    have hstart := Device.holding_held hk hfile hsound hstep hheld
    rw [Device.holding_trace] at htrace
    rcases hkeep with hsame | ⟨hnone, hsent⟩
    · have hheld' := hsame.trans hstart
      exact Or.inl ⟨hheld', hlogs'.opened.trans (Device.active_of_held hsound' hheld')⟩
    · obtain ⟨before, after, rfl, hclosed⟩ := hsent id hstart
      rw [Device.holding_trace] at hclosed
      exact Or.inr ⟨hnone, before, after, by rw [htrace, List.append_assoc], hclosed⟩

/-- A device that writes everything down, on an interrupt line. -/
def loggedParams : Params :=
  { copierParams with
    cpuCheckpoints := true
    irqWitnesses := true
    irqLine := 0
    eventFile := true
    hasIrqLink := true }

/-- A write of 32 bits to a register. -/
def write32 (id : ℕ) (reg value : UInt64) : DeviceEvent :=
  .write ⟨id, reg, 4, u64ToData value 4, false⟩

/-- An operation whose output does not fit, and one that completes, with a checkpoint during each
and an acknowledgement at the end. -/
def loggedRun : List DeviceEvent :=
  [write64 0 REG_ARG0 0x1000, write64 1 REG_ARG1 0x1ffd, write64 2 REG_ARG2 4,
    write64 3 REG_DOORBELL 1, write32 4 REG_CPU_CHECKPOINT 7, .respond 0 [1, 2, 3, 4],
    write64 5 REG_ARG1 0x1ffc, write64 6 REG_DOORBELL 1, .respond 0 [1, 2, 3, 4],
    write32 7 REG_CPU_CHECKPOINT 8, .respond 0 [], write64 8 REG_IRQ_ACK 1]

/-- The file of that run. -/
theorem event_log_sound_copier : ∃ d, Device.Reaches loggedParams (fun _ _ => True) d ∧
    LogSound loggedParams d ∧ entries d.trace =
      [⟨0, 1, .requested⟩, ⟨1, 1, .cpuCheckpoint 7 true⟩, ⟨2, 1, .error "operation-rejected"⟩,
        ⟨3, 2, .requested⟩, ⟨4, 2, .cpuCheckpoint 8 true⟩, ⟨5, 2, .completed⟩,
        ⟨6, 2, .irq "irq-asserted" 1 true "device"⟩,
        ⟨7, 2, .irq "irq-acknowledged" 1 true "device"⟩,
        ⟨8, 2, .irq "irq-deasserted" 0 false "device"⟩] := by
  have hfin : (Device.runs loggedParams (fun _ _ => True) loggedRun constructed).any (fun d =>
      decide (entries d.trace =
        [⟨0, 1, .requested⟩, ⟨1, 1, .cpuCheckpoint 7 true⟩, ⟨2, 1, .error "operation-rejected"⟩,
          ⟨3, 2, .requested⟩, ⟨4, 2, .cpuCheckpoint 8 true⟩, ⟨5, 2, .completed⟩,
          ⟨6, 2, .irq "irq-asserted" 1 true "device"⟩,
          ⟨7, 2, .irq "irq-acknowledged" 1 true "device"⟩,
          ⟨8, 2, .irq "irq-deasserted" 0 false "device"⟩])) = true := by
    decide +kernel
  obtain ⟨d, hrun, hfin⟩ := (Option.any_eq_true _ _).mp hfin
  have hreach := Device.Reaches.runs (.start (by rfl)) hrun
  exact ⟨d, hreach, event_log_sound rfl rfl hreach, of_decide_eq_true hfin⟩

end Quetz.GpuDevice
