import Quetz.Pipeline

/-!
# Compute Runs and Plain Computations

A compute run in the trace ring stands for a number of NOPs, and `refill` expands it where the
NOPs would have been read (`src/quetz_pipeline_input.cc`). A run may be larger than the room in
the queue, so a part of it is carried over to the next ticks.

`feed` is the list of the events that are still to be queued: what is left of the run, then the
expanded ring. A tick depends on the ring and on the run only through the feed
(`tick_eq_feedTick`), so two streams with the same feed are indistinguishable downstream.

## Main results

* `refill_spec`: the refill moves a beginning of the feed into the queue.
* `tick_eq_feedTick`: a tick, seen from behind the feed.
* `coalescing_invisible`: a coalesced stream and its plain one.
-/

namespace Quetz

open MemRequestEmitter

/-! ### The feed -/

/-- The events of a command. -/
def eventsOf (l : PipelineLimits) (cmd : QuetzCommand) : List PipelineEvent :=
  if cmd.cmd = .computeRun then
    List.replicate (if cmd.size ≠ 0 then cmd.size else 1) ⟨{ cmd with cmd := .nop, size := 0 },
      if cmd.insnClass < insnClassCount then l.computeLatency cmd.insnClass else 0⟩
  else [⟨cmd, Pipeline.stallOf l cmd⟩]

/-- The events that are still to be queued. -/
def feed (l : PipelineLimits) (ring : List QuetzCommand) (s : Pipeline) : List PipelineEvent :=
  List.replicate s.runRemaining ⟨s.runNop, s.runStall⟩ ++ ring.flatMap (eventsOf l)

/-- Take up to `n` events, and none after an exit. -/
def takeFeed : ℕ → List PipelineEvent → List PipelineEvent × List PipelineEvent
  | 0, evs => ([], evs)
  | _ + 1, [] => ([], [])
  | n + 1, ev :: evs =>
    if ev.cmd.cmd = .exit then ([ev], evs)
    else (ev :: (takeFeed n evs).1, (takeFeed n evs).2)

/-- Of a run as much is taken as there is room for. -/
theorem takeFeed_run {ev : PipelineEvent} (hev : ev.cmd.cmd ≠ .exit) (rest : List PipelineEvent)
    (n room : ℕ) : takeFeed room (List.replicate n ev ++ rest) =
      (List.replicate (min n room) ev ++
          (takeFeed (room - min n room) (List.replicate (n - room) ev ++ rest)).1,
        (takeFeed (room - min n room) (List.replicate (n - room) ev ++ rest)).2) := by
  induction n generalizing room with
  | zero => simp
  | succ n ih =>
      cases room with
      | zero => simp [takeFeed]
      | succ room =>
          rw [List.replicate_succ, List.cons_append, takeFeed, if_neg hev, ih room,
            Nat.succ_min_succ, Nat.succ_sub_succ, Nat.succ_sub_succ, List.replicate_succ]
          rfl

/-- Expanding a run fills the queue with as much of it as there is room for. -/
theorem drainRunLoop_eq (m : ℕ) (ev : PipelineEvent) (r : ℕ) (q : List PipelineEvent) :
    drainRunLoop m ev r q =
      (r - (m - q.length), q ++ List.replicate (min r (m - q.length)) ev) := by
  induction r generalizing q with
  | zero => simp [drainRunLoop]
  | succ r ih =>
      rw [drainRunLoop]
      by_cases hroom : q.length < m
      · have hmin : min (r + 1) (m - q.length) = min r (m - (q.length + 1)) + 1 := by omega
        rw [if_pos hroom, ih, hmin, List.replicate_succ, List.append_assoc, List.singleton_append,
          List.length_append, List.length_singleton]
        congr 1
        omega
      · have hzero : m - q.length = 0 := by omega
        rw [if_neg hroom, hzero, Nat.min_zero, List.replicate_zero, List.append_nil, Nat.sub_zero]

/-- The state after a refill: the queue grew, and the run and the log of the ring changed. -/
structure Refilled (l : PipelineLimits) (ring : List QuetzCommand) (s : Pipeline)
    (res : List QuetzCommand × Pipeline) : Prop where
  rest : (takeFeed (l.maxQueueLen - s.coreQ.length) (feed l ring s)).2 = feed l res.1 res.2
  pipe : res.2 = { s with
    runNop := res.2.runNop
    runStall := res.2.runStall
    runRemaining := res.2.runRemaining
    read := res.2.read
    coreQ := s.coreQ ++ (takeFeed (l.maxQueueLen - s.coreQ.length) (feed l ring s)).1 }
  nop : res.2.runNop.cmd = .nop

variable {l : PipelineLimits} {ring : List QuetzCommand} {s s₁ : Pipeline}

/-- A refill that reads nothing. -/
theorem refilled_self (hnop : s.runNop.cmd = .nop)
    (h : takeFeed (l.maxQueueLen - s.coreQ.length) (feed l ring s) = ([], feed l ring s)) :
    Refilled l ring s (ring, s) := by
  refine ⟨by rw [h], ?_, hnop⟩
  rw [h, List.append_nil]

/-- A refill that first queues `evs` and then goes on. -/
theorem Refilled.after {res : List QuetzCommand × Pipeline} {ring₁ : List QuetzCommand}
    {evs : List PipelineEvent} (h : Refilled l ring₁ s₁ res)
    (hpipe : s₁ = { s with
      runNop := s₁.runNop
      runStall := s₁.runStall
      runRemaining := s₁.runRemaining
      read := s₁.read
      coreQ := s.coreQ ++ evs })
    (htake : takeFeed (l.maxQueueLen - s.coreQ.length) (feed l ring s) =
      (evs ++ (takeFeed (l.maxQueueLen - s₁.coreQ.length) (feed l ring₁ s₁)).1,
        (takeFeed (l.maxQueueLen - s₁.coreQ.length) (feed l ring₁ s₁)).2)) :
    Refilled l ring s res := by
  refine ⟨by rw [htake]; exact h.rest, ?_, h.nop⟩
  have hres := h.pipe
  rw [htake]
  generalize (takeFeed (l.maxQueueLen - s₁.coreQ.length) (feed l ring₁ s₁)).1 = more at hres
  rw [hpipe] at hres
  dsimp only at hres ⊢
  rw [← List.append_assoc]
  exact hres

/-- The run that a command starts, and what of it is queued at once. -/
theorem drainRun_startRun (cmd : QuetzCommand) :
    ∃ n, (if cmd.size ≠ 0 then cmd.size else 1) = n ∧
      Pipeline.drainRun l (Pipeline.startRun l cmd { s with read := s.read ++ [cmd] }) = { s with
        runNop := { cmd with cmd := .nop, size := 0 }
        runStall := if cmd.insnClass < insnClassCount then l.computeLatency cmd.insnClass else 0
        runRemaining := n - (l.maxQueueLen - s.coreQ.length)
        read := s.read ++ [cmd]
        coreQ := s.coreQ ++ List.replicate (min n (l.maxQueueLen - s.coreQ.length))
          ⟨{ cmd with cmd := .nop, size := 0 },
            if cmd.insnClass < insnClassCount then l.computeLatency cmd.insnClass else 0⟩ } := by
  refine ⟨_, rfl, ?_⟩
  rw [Pipeline.drainRun]
  simp only [Pipeline.startRun, drainRunLoop_eq]

/-- The loop, by induction on the ring. -/
theorem refillLoop_spec (ring : List QuetzCommand) {s : Pipeline} (hnop : s.runNop.cmd = .nop)
    (hstop : s.runRemaining = 0 ∨ l.maxQueueLen ≤ s.coreQ.length) :
    Refilled l ring s (Pipeline.refillLoop l ring s) := by
  have hfull : ∀ evs, l.maxQueueLen ≤ s.coreQ.length →
      takeFeed (l.maxQueueLen - s.coreQ.length) evs = ([], evs) := fun evs hle => by
    rw [Nat.sub_eq_zero_of_le hle, takeFeed]
  induction ring generalizing s with
  | nil =>
      refine refilled_self hnop ?_
      rcases hstop with hzero | hle
      · rw [feed, hzero]
        cases l.maxQueueLen - s.coreQ.length <;> rfl
      · exact hfull _ hle
  | cons cmd ring ih =>
      rw [Pipeline.refillLoop]
      by_cases hgo : s.coreQ.length < l.maxQueueLen ∧ s.runRemaining = 0
      · rw [if_pos hgo]
        obtain ⟨hroom, hzero⟩ := hgo
        obtain ⟨room, hroomEq⟩ : ∃ room, l.maxQueueLen - s.coreQ.length = room + 1 :=
          ⟨l.maxQueueLen - s.coreQ.length - 1, by omega⟩
        dsimp only
        by_cases hrun : cmd.cmd = .computeRun
        · rw [if_pos hrun]
          obtain ⟨n, hn, hdrain⟩ := drainRun_startRun (l := l) (s := s) cmd
          rw [hdrain]
          have hfeed : feed l (cmd :: ring) s = List.replicate n
              ⟨{ cmd with cmd := .nop, size := 0 },
                if cmd.insnClass < insnClassCount then l.computeLatency cmd.insnClass else 0⟩ ++
              ring.flatMap (eventsOf l) := by
            rw [feed, hzero, List.flatMap_cons, eventsOf, if_pos hrun, hn]
            rfl
          have hne : ShmemCmd.nop ≠ .exit := by decide
          refine (ih rfl ?_ ?_).after rfl ?_
          · simp only [List.length_append, List.length_replicate]
            omega
          · intro evs hle
            rw [Nat.sub_eq_zero_of_le hle, takeFeed]
          · rw [hfeed, takeFeed_run hne]
            simp only [feed, List.length_append, List.length_replicate, Nat.sub_add_eq]
        · rw [if_neg hrun]
          have hfeed : feed l (cmd :: ring) s =
              ⟨cmd, Pipeline.stallOf l cmd⟩ :: ring.flatMap (eventsOf l) := by
            rw [feed, hzero, List.flatMap_cons, eventsOf, if_neg hrun]
            rfl
          by_cases hexit : cmd.cmd = .exit
          · rw [if_pos hexit]
            have htake : takeFeed (l.maxQueueLen - s.coreQ.length) (feed l (cmd :: ring) s) =
                ([⟨cmd, Pipeline.stallOf l cmd⟩], ring.flatMap (eventsOf l)) := by
              rw [hfeed, hroomEq, takeFeed, if_pos hexit]
            refine ⟨?_, by rw [htake], hnop⟩
            rw [htake, feed]
            simp only [hzero, List.replicate_zero, List.nil_append]
          · rw [if_neg hexit]
            refine (ih ?_ ?_ ?_).after rfl ?_
            · exact hnop
            · exact Or.inl hzero
            · intro evs hle
              rw [Nat.sub_eq_zero_of_le hle, takeFeed]
            · have hless : l.maxQueueLen - (s.coreQ.length + 1) = room := by omega
              rw [hfeed, hroomEq, takeFeed, if_neg hexit]
              simp only [feed, hzero, List.replicate_zero, List.nil_append, List.length_append,
                List.length_singleton, hless, List.singleton_append]
      · rw [if_neg hgo]
        refine refilled_self hnop (hfull _ ?_)
        omega

/-- The refill moves a beginning of the feed into the queue. -/
theorem refill_spec (ring : List QuetzCommand) {s : Pipeline} (hnop : s.runNop.cmd = .nop) :
    Refilled l ring s (Pipeline.refill l ring s) := by
  have hne : s.runNop.cmd ≠ .exit := by simp [hnop]
  have hdrain : Pipeline.drainRun l s = { s with
      runRemaining := s.runRemaining - (l.maxQueueLen - s.coreQ.length)
      coreQ := s.coreQ ++ List.replicate (min s.runRemaining (l.maxQueueLen - s.coreQ.length))
        ⟨s.runNop, s.runStall⟩ } := by
    rw [Pipeline.drainRun, drainRunLoop_eq]
  rw [Pipeline.refill, hdrain]
  refine (refillLoop_spec ring ?_ ?_).after rfl ?_
  · exact hnop
  · simp only [List.length_append, List.length_replicate]
    omega
  · rw [feed, takeFeed_run hne]
    simp only [feed, List.length_append, List.length_replicate, Nat.sub_add_eq]

/-! ### Downstream of the feed -/

/-- The part of the pipeline that only `refill` reads. -/
structure RunPart where
  nop : QuetzCommand
  stall : ℕ
  remaining : ℕ
  read : List QuetzCommand

/-- The run of a pipeline. -/
def Pipeline.runPart (s : Pipeline) : RunPart := ⟨s.runNop, s.runStall, s.runRemaining, s.read⟩

/-- A change of events that the stages after the input do not notice. -/
structure Unnoticed (g : PipelineEvent → PipelineEvent) : Prop where
  other : ∀ ev, ev.cmd.cmd ≠ .nop → g ev = ev
  cmd : ∀ ev, (g ev).cmd.cmd = ev.cmd.cmd
  insnClass : ∀ ev, (g ev).cmd.insnClass = ev.cmd.insnClass
  stall : ∀ ev, (g ev).remainingStall = ev.remainingStall
  wait : ∀ ev n, g { ev with remainingStall := n } = { g ev with remainingStall := n }

/-- An event that stays as it is. -/
theorem unnoticed_id : Unnoticed id :=
  ⟨fun _ _ => rfl, fun _ => rfl, fun _ => rfl, fun _ => rfl, fun _ _ => rfl⟩

/-- The event without the program counter of a computation. -/
def PipelineEvent.unpc (ev : PipelineEvent) : PipelineEvent :=
  if ev.cmd.cmd = .nop then { ev with cmd := { ev.cmd with pc := 0 } } else ev

/-- The stages do not look at the program counter of a computation. -/
theorem unnoticed_unpc : Unnoticed PipelineEvent.unpc := by
  refine ⟨fun ev hev => if_neg hev, fun ev => ?_, fun ev => ?_, fun ev => ?_, fun ev n => ?_⟩
  all_goals
    unfold PipelineEvent.unpc
    split_ifs <;> rfl

section Recast

variable {c : CoreContext} {g : PipelineEvent → PipelineEvent} {r : RunPart}

/-- Another run, and changed events in the queue. -/
def recast (g : PipelineEvent → PipelineEvent) (r : RunPart) (s : Pipeline) : Pipeline :=
  { s with
    runNop := r.nop
    runStall := r.stall
    runRemaining := r.remaining
    read := r.read
    coreQ := s.coreQ.map g }

section

variable (s : Pipeline)

@[simp] theorem recast_instCount : (recast g r s).instCount = s.instCount := rfl

@[simp] theorem recast_halted : (recast g r s).halted = s.halted := rfl

@[simp] theorem recast_fatal : (recast g r s).fatal = s.fatal := rfl

@[simp] theorem recast_pendingOp : (recast g r s).pendingOp = s.pendingOp := rfl

@[simp] theorem recast_offset : (recast g r s).offset = s.offset := rfl

@[simp] theorem recast_emitter : (recast g r s).emitter = s.emitter := rfl

end

/-- The change of the head of the queue. -/
def Pipeline.Head.recast (g : PipelineEvent → PipelineEvent) : Pipeline.Head → Pipeline.Head
  | .stall ev => .stall (g ev)
  | head => head

/-- The limit on instructions counts, it does not look at events. -/
theorem checkMaxInsts_recast (s : Pipeline) :
    Pipeline.checkMaxInsts l (recast g r s) = recast g r (Pipeline.checkMaxInsts l s) := by
  rw [Pipeline.checkMaxInsts, Pipeline.checkMaxInsts, recast_instCount]
  by_cases hmax : 0 < l.maxInsts ∧ l.maxInsts ≤ s.instCount
  · rw [if_pos hmax, if_pos hmax]
    rfl
  · rw [if_neg hmax, if_neg hmax]

/-- Retiring an instruction counts. -/
theorem retire_recast (s : Pipeline) :
    Pipeline.retire l (recast g r s) = recast g r (Pipeline.retire l s) :=
  checkMaxInsts_recast { s with instCount := s.instCount + 1 }

/-- So does the end of a tick. -/
theorem endTick_recast (issued : ℕ) (s : Pipeline) :
    Pipeline.endTick issued (recast g r s) = recast g r (Pipeline.endTick issued s) := by
  rw [Pipeline.endTick, Pipeline.endTick, recast_fatal]
  by_cases hfatal : s.fatal.isSome = true
  · rw [if_pos hfatal, if_pos hfatal]
  · rw [if_neg hfatal, if_neg hfatal]
    rfl

/-- The filter looks at accesses only. -/
theorem filterHandle_recast (cmd : QuetzCommand) (s : Pipeline) :
    filterHandle c cmd (recast g r s) =
      ((filterHandle c cmd s).1, recast g r (filterHandle c cmd s).2) := by
  unfold filterHandle
  cases c.regionTable with
  | none => rfl
  | some table =>
      dsimp only
      cases (handleMemoryAccess table c.filterUnmatchedRegions cmd).stat <;> rfl

/-- The transform does not look at what the change touches. -/
theorem transformProcess_recast (hg : Unnoticed g) (ev : PipelineEvent)
    (action : MemRegionHandler.Action) :
    transformProcess (g ev) action = match transformProcess ev action with
      | .stall ev => .stall (g ev)
      | result => result := by
  by_cases hnop : ev.cmd.cmd = .nop
  · have hexit : ShmemCmd.nop ≠ .exit := by decide
    rw [transformProcess, transformProcess, hg.cmd, hg.stall, hnop, if_neg hexit, if_neg hexit]
    by_cases hend : action = .endSim
    · rw [if_pos hend, if_pos hend]
    rw [if_neg hend, if_neg hend]
    by_cases hstall : 0 < ev.remainingStall
    · rw [if_pos hstall, if_pos hstall, ← hg.wait]
    · rw [if_neg hstall, if_neg hstall, if_pos rfl, if_pos rfl]
  · rw [hg.other ev hnop]
    cases hres : transformProcess ev action with
    | stall ev' =>
        have hev' : ev'.cmd.cmd ≠ .nop := by
          rw [transformProcess] at hres
          split_ifs at hres
          cases hres
          exact hnop
        simp only [hg.other ev' hev']
    | _ => rfl

/-- Classification commutes with the change. -/
theorem classify_recast (hg : Unnoticed g) (ev : PipelineEvent) (s : Pipeline) :
    Pipeline.classify c (g ev) (recast g r s) =
      ((Pipeline.classify c ev s).1.recast g, recast g r (Pipeline.classify c ev s).2) := by
  have haccess : (g ev).cmd.isAccess = ev.cmd.isAccess := by
    simp only [QuetzCommand.isAccess, hg.cmd]
  have hcmd : ev.cmd.isAccess = true → (g ev).cmd = ev.cmd := fun h => by
    rw [hg.other ev]
    intro hnop
    simp [QuetzCommand.isAccess, hnop] at h
  have hstats : ∀ result, transformStats c (g ev) (match result with
      | TransformResult.stall ev => .stall (g ev)
      | result => result) = transformStats c ev result := fun result => by
    cases result <;> simp only [transformStats, hg.cmd, hg.insnClass]
  unfold Pipeline.classify
  cases hop : s.pendingOp with
  | some op =>
      simp only [recast, hop]
      rfl
  | none =>
      have hfilter : (if (g ev).cmd.isAccess = true then filterHandle c (g ev).cmd (recast g r s)
          else (.forward, recast g r s)) =
          ((if ev.cmd.isAccess = true then filterHandle c ev.cmd s else (.forward, s)).1,
            recast g r (if ev.cmd.isAccess = true then filterHandle c ev.cmd s
              else (.forward, s)).2) := by
        by_cases hacc : ev.cmd.isAccess = true
        · rw [haccess, if_pos hacc, if_pos hacc, hcmd hacc, filterHandle_recast]
        · rw [haccess, if_neg hacc, if_neg hacc]
      rw [recast_pendingOp, hop]
      dsimp only
      rw [hfilter, haccess, transformProcess_recast hg]
      generalize (if ev.cmd.isAccess = true then filterHandle c ev.cmd s else (.forward, s)) = f
      by_cases hconsume : ev.cmd.isAccess = true ∧ f.1 = .consume
      · rw [if_pos hconsume, if_pos hconsume]
        rfl
      · rw [if_neg hconsume, if_neg hconsume, hstats]
        cases transformProcess ev f.1 <;> rfl

/-- The issue of an operation looks at no queued event. -/
theorem issueMemOp_recast (op : MemOp) (issued : ℕ) (h : Host) (s : Pipeline) :
    Pipeline.issueMemOp c l op issued h (recast g r s) =
      { Pipeline.issueMemOp c l op issued h s with
        pipe := recast g r (Pipeline.issueMemOp c l op issued h s).pipe } := by
  unfold Pipeline.issueMemOp Pipeline.issueAvailable
  rw [recast_emitter, recast_offset]
  by_cases hbudget : min (l.maxIssuePerCycle - issued) (l.maxPending - s.emitter.pendingCount) = 0
  · rw [if_pos hbudget, if_pos hbudget]
  rw [if_neg hbudget, if_neg hbudget]
  cases (if op.isRead = true then issueReadWindow c op s.offset _ h s.emitter
      else issueWriteWindow c op s.offset _ h s.emitter) with
  | error e => rfl
  | ok w =>
      dsimp only
      generalize min (l.maxIssuePerCycle - issued) (l.maxPending - s.emitter.pendingCount) = budget
      by_cases hover : w.parts > budget
      · rw [if_pos hover, if_pos hover]
        rfl
      rw [if_neg hover, if_neg hover]
      generalize decide (w.offset = op.size) = complete
      by_cases hstuck : (!complete) = true ∧ w.parts = 0 ∧ issued = 0 ∧ s.emitter.pendingCount = 0
      · rw [if_pos hstuck, if_pos hstuck]
        rfl
      rw [if_neg hstuck, if_neg hstuck]
      cases complete with
      | true =>
          exact congrArg (fun p => (⟨true, issued + w.parts, w.host, p⟩ : Pipeline.Issue))
            (retire_recast (Pipeline.addData .insnCount { s with
              pendingOp := none, offset := 0, emitter := w.emitter }))
      | false => rfl

/-- The issue loop does not notice the change. -/
theorem issueLoop_recast (hg : Unnoticed g) (q : List PipelineEvent) (issued : ℕ) (h : Host)
    (s : Pipeline) : Pipeline.issueLoop c l (q.map g) issued h (recast g r s) =
      ((Pipeline.issueLoop c l q issued h s).1,
        recast g r (Pipeline.issueLoop c l q issued h s).2) := by
  induction q generalizing issued h s with
  | nil => exact congrArg (Prod.mk h) (endTick_recast issued { s with coreQ := [] })
  | cons ev q ih =>
      rw [List.map_cons, Pipeline.issueLoop, Pipeline.issueLoop, classify_recast hg]
      cases hclass : Pipeline.classify c ev s with
      | mk head s₁ =>
      cases head with
      | issue op =>
          simp only [Pipeline.Head.recast, issueMemOp_recast]
          generalize Pipeline.issueMemOp c l op issued h s₁ = res
          by_cases hdone : res.complete = true
          · have hgo : ¬(!res.complete) = true := by simp [hdone]
            rw [if_neg hgo, if_neg hgo]
            rw [recast_halted]
            by_cases hhalt : res.pipe.halted = true
            · rw [if_pos hhalt, if_pos hhalt]
              exact congrArg (Prod.mk res.host) (endTick_recast _ { res.pipe with coreQ := q })
            · rw [if_neg hhalt, if_neg hhalt]
              exact ih res.issued res.host res.pipe
          · have hstop : (!res.complete) = true := by simp [hdone]
            rw [if_pos hstop, if_pos hstop]
            exact congrArg (Prod.mk res.host) (endTick_recast _ { res.pipe with coreQ := ev :: q })
      | retire =>
          simp only [Pipeline.Head.recast, retire_recast]
          generalize Pipeline.retire l s₁ = s₂
          rw [recast_halted]
          by_cases hhalt : s₂.halted = true
          · rw [if_pos hhalt, if_pos hhalt]
            rfl
          · rw [if_neg hhalt, if_neg hhalt]
            exact ih issued h s₂
      | stall ev' => exact congrArg (Prod.mk h) (endTick_recast _ { s₁ with coreQ := ev' :: q })
      | halt =>
          simp only [Pipeline.Head.recast, hg.cmd]
          rfl

end Recast

/-! ### A tick behind the feed -/

/-- The pipeline without its run and without the program counters of computations. -/
def view (s : Pipeline) : Pipeline := recast PipelineEvent.unpc ⟨{ cmd := .nop }, 0, 0, []⟩ s

/-- The feed without the program counters of computations. -/
def viewFeed (l : PipelineLimits) (ring : List QuetzCommand) (s : Pipeline) :
    List PipelineEvent := (feed l ring s).map PipelineEvent.unpc

/-- A tick that takes its events from a feed. -/
def feedTick (c : CoreContext) (l : PipelineLimits) (h : Host) (evs : List PipelineEvent)
    (s : Pipeline) : Host × List PipelineEvent × Pipeline :=
  if s.halted ∨ s.fatal.isSome then (h, evs, s)
  else
    let filled := takeFeed (l.maxQueueLen - s.coreQ.length) evs
    let q := s.coreQ ++ filled.1
    let res := Pipeline.issueLoop c l q 0 h
      { s with coreQ := q, refillHitCap := decide (l.maxQueueLen ≤ q.length) }
    (res.1, filled.2, res.2)

/-- The events taken in a tick are the changed ones. -/
theorem takeFeed_map {g : PipelineEvent → PipelineEvent} (hg : Unnoticed g) (n : ℕ)
    (evs : List PipelineEvent) :
    takeFeed n (evs.map g) = ((takeFeed n evs).1.map g, (takeFeed n evs).2.map g) := by
  induction n generalizing evs with
  | zero => rfl
  | succ n ih =>
      cases evs with
      | nil => rfl
      | cons ev evs =>
          rw [List.map_cons, takeFeed, takeFeed, hg.cmd, ih]
          split_ifs <;> rfl

variable {c : CoreContext}

/-- Only the refill touches the run. -/
theorem issueLoop_runPart (q : List PipelineEvent) (issued : ℕ) (h : Host) (s : Pipeline) :
    (Pipeline.issueLoop c l q issued h s).2.runPart = s.runPart := by
  have hsame : recast id s.runPart s = s := by simp [recast, Pipeline.runPart]
  have hloop := issueLoop_recast (c := c) (l := l) (r := s.runPart) unnoticed_id q issued h s
  rw [List.map_id, hsame] at hloop
  rw [hloop]
  rfl

/-- A tick depends on the ring and on the run only through the feed. -/
theorem tick_eq_feedTick (h : Host) (ring : List QuetzCommand) {s : Pipeline}
    (hnop : s.runNop.cmd = .nop) {h' : Host} {ring' : List QuetzCommand} {s' : Pipeline}
    (htick : s.tick c l h ring = (h', ring', s')) :
    feedTick c l h (viewFeed l ring s) (view s) = (h', viewFeed l ring' s', view s') ∧
      s'.runNop.cmd = .nop := by
  rw [Pipeline.tick] at htick
  rw [feedTick]
  by_cases hstop : s.halted = true ∨ s.fatal.isSome = true
  · have hstop' : (view s).halted = true ∨ (view s).fatal.isSome = true := hstop
    rw [if_pos hstop] at htick
    cases htick
    rw [if_pos hstop']
    exact ⟨rfl, hnop⟩
  have hgo : ¬((view s).halted = true ∨ (view s).fatal.isSome = true) := hstop
  rw [if_neg hstop] at htick
  rw [if_neg hgo]
  have hfill := refill_spec (l := l) ring hnop
  generalize Pipeline.refill l ring s = filled at hfill htick
  obtain ⟨hrest, hpipe, hnop'⟩ := hfill
  have hlen : (view s).coreQ.length = s.coreQ.length := by
    simp [view, recast]
  dsimp only at htick ⊢
  rw [hlen, viewFeed, takeFeed_map unnoticed_unpc, hrest]
  generalize (takeFeed (l.maxQueueLen - s.coreQ.length) (feed l ring s)).1 = taken at hpipe
  have hq : (view s).coreQ ++ taken.map PipelineEvent.unpc =
      filled.2.coreQ.map PipelineEvent.unpc := by
    rw [hpipe]
    simp [view, recast]
  -- The queue after the refill, and the state the issue loop starts from, seen through the view.
  rw [hq, List.length_map]
  generalize hstart : { filled.2 with
    refillHitCap := decide (l.maxQueueLen ≤ filled.2.coreQ.length) } = start at htick
  have hview : ({ view s with
      coreQ := filled.2.coreQ.map PipelineEvent.unpc
      refillHitCap := decide (l.maxQueueLen ≤ filled.2.coreQ.length) } : Pipeline) =
        view start := by
    rw [← hstart, hpipe]
    rfl
  have hcore : filled.2.coreQ = start.coreQ := by rw [← hstart]
  have hrun : start.runPart = filled.2.runPart := by rw [← hstart]; rfl
  rw [hview, hcore, view, issueLoop_recast unnoticed_unpc]
  have hpart := issueLoop_runPart (c := c) (l := l) start.coreQ 0 h start
  rw [hcore] at htick
  generalize Pipeline.issueLoop c l start.coreQ 0 h start = res at htick hpart
  cases htick
  rw [hrun] at hpart
  obtain ⟨hnopEq, hstallEq, hremEq, -⟩ := RunPart.mk.inj hpart
  refine ⟨?_, by rw [hnopEq]; exact hnop'⟩
  rw [viewFeed, feed, feed, hnopEq, hstallEq, hremEq]
  rfl

/-! ### Coalesced streams -/

/-- The second stream is the first with some of its runs of NOPs of one class replaced by a
compute run. Only their program counters tell the NOPs apart. -/
inductive Coalesced : List QuetzCommand → List QuetzCommand → Prop
  | nil : Coalesced [] []
  | keep (cmd : QuetzCommand) {p q : List QuetzCommand} :
      Coalesced p q → Coalesced (cmd :: p) (cmd :: q)
  | run (nops : List QuetzCommand) (cmd : QuetzCommand) {p q : List QuetzCommand}
      (hne : nops ≠ []) (hcmd : cmd.cmd = .computeRun) (hsize : cmd.size = nops.length)
      (hnops : ∀ nop ∈ nops, { nop with pc := cmd.pc } = { cmd with cmd := .nop, size := 0 }) :
      Coalesced p q → Coalesced (nops ++ p) (cmd :: q)

/-- The events of the NOPs that a run replaces. -/
theorem flatMap_nops {nops : List QuetzCommand} {cmd : QuetzCommand}
    (hnops : ∀ nop ∈ nops, { nop with pc := cmd.pc } = { cmd with cmd := .nop, size := 0 }) :
    (nops.flatMap (eventsOf l)).map PipelineEvent.unpc =
      List.replicate nops.length (PipelineEvent.unpc ⟨{ cmd with cmd := .nop, size := 0 },
        if cmd.insnClass < insnClassCount then l.computeLatency cmd.insnClass else 0⟩) := by
  induction nops with
  | nil => rfl
  | cons nop nops ih =>
      obtain ⟨hkind, hsize, haddr, hclass, hdata⟩ : nop.cmd = .nop ∧ nop.size = 0 ∧
          nop.addr = cmd.addr ∧ nop.insnClass = cmd.insnClass ∧ nop.data = cmd.data := by
        simpa using hnops nop (List.mem_cons_self ..)
      rw [List.flatMap_cons, List.map_append, ih fun x hx => hnops x (List.mem_cons_of_mem _ hx),
        List.length_cons, List.replicate_succ, eventsOf, if_neg (by simp [hkind])]
      simp [PipelineEvent.unpc, Pipeline.stallOf, hkind, hsize, haddr, hclass, hdata]

/-- Coalescing leaves the feed as it is. -/
theorem Coalesced.feed_eq {p q : List QuetzCommand} (h : Coalesced p q) :
    (p.flatMap (eventsOf l)).map PipelineEvent.unpc =
      (q.flatMap (eventsOf l)).map PipelineEvent.unpc := by
  induction h with
  | nil => rfl
  | keep cmd _ ih => simp only [List.flatMap_cons, List.map_append, ih]
  | run nops cmd hne hcmd hsize hnops _ ih =>
      have hpos : cmd.size ≠ 0 := by
        rw [hsize]
        exact Nat.ne_of_gt (List.length_pos_iff.mpr hne)
      rw [List.flatMap_append, List.flatMap_cons, List.map_append, List.map_append, ih,
        flatMap_nops hnops, eventsOf, if_pos hcmd, if_pos hpos, hsize, List.map_replicate]

/-- The two cores agree on everything downstream of the feed: queue contents up to the program
counters of computations, statistics, requests, counters and flags. -/
structure Agree (r r' : CoreRun) : Prop where
  host : r'.host = r.host
  queue : r'.pipe.coreQ.map PipelineEvent.unpc = r.pipe.coreQ.map PipelineEvent.unpc
  stats : r'.pipe.stats = r.pipe.stats ∧ r'.pipe.emitter.stats = r.pipe.emitter.stats
  issued : r'.pipe.emitter.issued = r.pipe.emitter.issued
  instCount : r'.pipe.instCount = r.pipe.instCount
  refillHitCap : r'.pipe.refillHitCap = r.pipe.refillHitCap
  isDrained : r'.pipe.isDrained = r.pipe.isDrained
  halted : r'.pipe.halted = r.pipe.halted

/-- The same host, the same feed and the same view. -/
structure Similar (l : PipelineLimits) (r r' : CoreRun) : Prop where
  host : r'.host = r.host
  feed : viewFeed l r'.ring r'.pipe = viewFeed l r.ring r.pipe
  view : view r'.pipe = view r.pipe
  nop : r.pipe.runNop.cmd = .nop ∧ r'.pipe.runNop.cmd = .nop

variable {r r' : CoreRun}

/-- Similar runs agree on all that is observed. -/
theorem Similar.agree (h : Similar l r r') : Agree r r' := by
  have hfield : ∀ {β : Type} (f : Pipeline → β), f (Quetz.view r'.pipe) = f (Quetz.view r.pipe) :=
    fun f => congrArg f h.view
  have hdrained : ∀ s, (Quetz.view s).isDrained = s.isDrained := fun s => by
    simp [Pipeline.isDrained, Quetz.view, recast]
  refine ⟨h.host, hfield Pipeline.coreQ, ⟨hfield Pipeline.stats, hfield fun s => s.emitter.stats⟩,
    hfield fun s => s.emitter.issued, hfield Pipeline.instCount, hfield Pipeline.refillHitCap, ?_,
    hfield Pipeline.halted⟩
  rw [← hdrained r'.pipe, ← hdrained r.pipe, h.view]

/-- A response is noted behind the feed. -/
theorem handleMemResponse_view (id : ℕ) (resp : Response) (s : Pipeline) :
    view (s.handleMemResponse id resp) = (view s).handleMemResponse id resp ∧
      (s.handleMemResponse id resp).runPart = s.runPart := by
  unfold Pipeline.handleMemResponse
  have hemitter : (view s).emitter = s.emitter := rfl
  rw [hemitter]
  rcases s.emitter.handleResponse id with ⟨- | ⟨latency, isMmio⟩, e⟩
  · exact ⟨rfl, rfl⟩
  · exact ⟨rfl, rfl⟩

/-- The feed depends on the run of the pipeline only. -/
theorem viewFeed_congr (ring : List QuetzCommand) {s s' : Pipeline} (h : s'.runPart = s.runPart) :
    viewFeed l ring s' = viewFeed l ring s := by
  obtain ⟨hnop, hstall, hremaining, -⟩ := RunPart.mk.inj h
  rw [viewFeed, viewFeed, feed, feed, hnop, hstall, hremaining]

/-- Every event keeps the two cores alike. -/
theorem Similar.step (h : Similar l r r') (e : CoreEvent) :
    Similar l (r.step c l e) (r'.step c l e) := by
  obtain ⟨hhost, hfeed, hview, hnop, hnop'⟩ := h
  have hat : ∀ now, Quetz.view (r'.pipeAt now) = Quetz.view (r.pipeAt now) := fun now =>
    congrArg (fun s => { s with emitter := { s.emitter with simTime := now } }) hview
  cases e with
  | push cmds =>
      refine ⟨hhost, ?_, hview, hnop, hnop'⟩
      simp only [CoreRun.step, viewFeed, Quetz.feed, List.flatMap_append,
        List.map_append] at hfeed ⊢
      rw [← List.append_assoc, ← List.append_assoc, hfeed]
  | tick now =>
      rcases ht : (r.pipeAt now).tick c l r.host r.ring with ⟨h₁, ring₁, s₁⟩
      rcases ht' : (r'.pipeAt now).tick c l r.host r'.ring with ⟨h₂, ring₂, s₂⟩
      obtain ⟨heq, hnop₁⟩ := tick_eq_feedTick (s := r.pipeAt now) r.host r.ring hnop ht
      obtain ⟨heq', hnop₂⟩ := tick_eq_feedTick (s := r'.pipeAt now) r.host r'.ring hnop' ht'
      have hfeed' : viewFeed l r'.ring (r'.pipeAt now) = viewFeed l r.ring (r.pipeAt now) := hfeed
      rw [hfeed', hat now, heq] at heq'
      obtain ⟨heqHost, heqRest⟩ := Prod.mk.inj heq'
      obtain ⟨heqFeed, heqView⟩ := Prod.mk.inj heqRest
      simp only [CoreRun.step, hhost, ht, ht']
      exact ⟨heqHost.symm, heqFeed.symm, heqView.symm, hnop₁, hnop₂⟩
  | answer now i data =>
      rw [CoreRun.step, CoreRun.step, hhost]
      cases r.host.inFlight[i]? with
      | none => exact ⟨hhost, hfeed, hview, hnop, hnop'⟩
      | some req =>
          obtain ⟨hone, hpart⟩ := handleMemResponse_view req.id (req.body.response data)
            (r.pipeAt now)
          obtain ⟨hone', hpart'⟩ := handleMemResponse_view req.id (req.body.response data)
            (r'.pipeAt now)
          refine ⟨rfl, ?_, ?_, ?_, ?_⟩
          · exact (viewFeed_congr _ hpart').trans (hfeed.trans (viewFeed_congr _ hpart).symm)
          · rw [hone', hat now, ← hone]
          · exact (congrArg (fun p => p.nop.cmd) hpart).trans hnop
          · exact (congrArg (fun p => p.nop.cmd) hpart').trans hnop'
  | send vcpu link body =>
      exact ⟨congrArg (fun h => h.send vcpu link body) hhost, hfeed, hview, hnop, hnop'⟩

/-- **Coalescing is invisible downstream**: on a stream and on a coalesced one, both in the ring
from the beginning, two pipelines with the same parameters that see the same responses agree
after every event. -/
theorem coalescing_invisible (c : CoreContext) (l : PipelineLimits) (h : Host)
    {p q : List QuetzCommand} (hpq : Coalesced p q) (es : List CoreEvent) :
    Agree (CoreRun.run c l ⟨h, p, {}⟩ es) (CoreRun.run c l ⟨h, q, {}⟩ es) := by
  have hstart : Similar l ⟨h, p, {}⟩ ⟨h, q, {}⟩ := ⟨rfl, hpq.feed_eq.symm, rfl, rfl, rfl⟩
  suffices hall : ∀ r r', Similar l r r' →
      Similar l (CoreRun.run c l r es) (CoreRun.run c l r' es) from (hall _ _ hstart).agree
  induction es with
  | nil => exact fun r r' hr => hr
  | cons e es ih => exact fun r r' hr => ih _ _ (hr.step e)

/-- Three computations and a load, plain and coalesced. -/
theorem coalescing_invisible_load :
    let nop : UInt64 → QuetzCommand := fun pc => { cmd := .nop, pc := pc, insnClass := 3 }
    let load : QuetzCommand := { cmd := .read, addr := 0x40, size := 8 }
    let plain := [nop 0x100, nop 0x104, nop 0x108, load]
    let runs := [{ nop 0x108 with cmd := .computeRun, size := 3 }, load]
    let es := [.tick 0, .tick 1, .answer 2 0 [], .tick 2]
    Coalesced plain runs ∧
      Agree (CoreRun.run {} {} ⟨{}, plain, {}⟩ es) (CoreRun.run {} {} ⟨{}, runs, {}⟩ es) := by
  intro nop load plain runs es
  have hpq : Coalesced plain runs :=
    .run [nop 0x100, nop 0x104, nop 0x108] _ (by simp) rfl rfl (by simp [nop])
      (.keep load .nil)
  exact ⟨hpq, coalescing_invisible {} {} {} hpq es⟩

end Quetz
