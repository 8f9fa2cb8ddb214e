import Quetz.IssueLimits
import Quetz.Lib.Fair
import Quetz.PipelineCounts

/-!
# A Core Comes to Its End

A core works in a tick if it has a command and may send a request. Each such tick either takes a
cycle off the stall of a command, sends a request or takes a command off the queue, unless it ends
the run. So the ticks in which a core works are bounded by its stream, whatever the latencies of the
memory are, and a core that is not starved comes to the end of its stream.

## Main results

* `tick_debt`: what one tick does.
* `busy_ticks_bounded`: the working ticks of a run.
* `CoreRun.fair_run_halts`: a core that is not starved halts.
-/

namespace Quetz

open MemRequestEmitter

namespace Pipeline

variable {c : CoreContext} {l : PipelineLimits} {h : Host} {s s' : Pipeline}
  {q : List PipelineEvent} {ev : PipelineEvent}

/-! ### The rank -/

/-- What an event costs: its stall, its requests, and leaving the queue. -/
def effort (c : CoreContext) (ev : PipelineEvent) : ℕ :=
  ev.remainingStall + (requestsOf c ev.cmd).length + 1

def efforts (c : CoreContext) (q : List PipelineEvent) : ℕ := (q.map (effort c)).sum

/-- What is left of a queue; the access of its head may be issued in part. -/
def left (c : CoreContext) (q : List PipelineEvent) (s : Pipeline) : ℕ :=
  match s.pendingOp with
  | none => efforts c q
  | some op => (op.requestsFrom c s.offset).length + 1 + efforts c q.tail

/-- The run is over. -/
def Over (s : Pipeline) : Prop := s.halted = true ∨ s.fatal.isSome = true

/-- The effort of the head, and of the rest. -/
theorem efforts_cons (ev : PipelineEvent) (q : List PipelineEvent) :
    efforts c (ev :: q) = effort c ev + efforts c q := List.sum_cons

/-- The efforts of two queues add up. -/
theorem efforts_append (q q' : List PipelineEvent) :
    efforts c (q ++ q') = efforts c q + efforts c q' := by
  rw [efforts, List.map_append, List.sum_append]
  rfl

/-- Without a pending operation the whole queue is left. -/
theorem left_of_idle (hop : s.pendingOp = none) : left c q s = efforts c q := by
  rw [left, hop]

/-- Of the pending operation the requests behind its cursor are left. -/
theorem left_of_pending {op : MemOp} (hop : s.pendingOp = some op) : left c (ev :: q) s =
    (op.requestsFrom c s.offset).length + 1 + efforts c q := by
  rw [left, hop]
  rfl

/-- The pending operation and its cursor decide. -/
theorem left_congr (hop : s'.pendingOp = s.pendingOp) (hoff : s'.offset = s.offset) :
    left c q s' = left c q s := by
  rw [left, left, hop, hoff]

/-- The end of a tick only feeds statistics. -/
theorem endTick_left (issued : ℕ) (s : Pipeline) :
    left c (endTick issued { s with coreQ := q }).coreQ (endTick issued { s with coreQ := q }) =
      left c q s := by
  obtain ⟨stats, htick, -⟩ := endTick_eq issued { s with coreQ := q }
  rw [htick]
  rfl

/-- A run that is over stays over at the end of a tick. -/
theorem endTick_over (issued : ℕ) (hs : Over s) : Over (endTick issued { s with coreQ := q }) := by
  obtain ⟨stats, htick, -⟩ := endTick_eq issued { s with coreQ := q }
  rw [htick]
  exact hs

/-! ### One round -/

/-- A stall is a cycle of the event. -/
theorem transformProcess_stall {action : MemRegionHandler.Action} {ev' : PipelineEvent}
    (hres : transformProcess ev action = .stall ev') :
    ev'.remainingStall + 1 = ev.remainingStall := by
  rw [transformProcess] at hres
  split_ifs at hres with hexit hend hstall hnop
  obtain rfl := TransformResult.stall.inj hres
  exact Nat.sub_add_cancel hstall

/-- A stall takes one tick off the event. -/
theorem classify_stall {ev' : PipelineEvent} (hclass : classify c ev s = (.stall ev', s')) :
    ev'.remainingStall + 1 = ev.remainingStall := by
  rw [classify] at hclass
  cases hop : s.pendingOp with
  | some op =>
      rw [hop] at hclass
      cases hclass
  | none =>
      rw [hop] at hclass
      dsimp only at hclass
      generalize (if ev.cmd.isAccess then filterHandle c ev.cmd s else (.forward, s)) = filtered
        at hclass
      by_cases hconsume : ev.cmd.isAccess = true ∧ filtered.1 = .consume
      · rw [if_pos hconsume] at hclass
        cases hclass
      · rw [if_neg hconsume] at hclass
        cases hres : transformProcess ev filtered.1 with
        | stall ev₁ =>
            rw [hres] at hclass
            cases hclass
            exact transformProcess_stall hres
        | consumedNoop => rw [hres] at hclass; cases hclass
        | emitMemop op => rw [hres] at hclass; cases hclass
        | haltExit => rw [hres] at hclass; cases hclass

/-- What a round can do. A run that ends does so with the rest of the queue. -/
inductive Rounded (c : CoreContext) (l : PipelineLimits) (issued : ℕ) (h : Host) (s : Pipeline) :
    List PipelineEvent → Round → Prop
  | empty : Rounded c l issued h s [] (.done h (endTick issued { s with coreQ := [] }))
  | blocked {ev : PipelineEvent} {q : List PipelineEvent} (hbudget : budgetOf l issued s = 0) :
      Rounded c l issued h s (ev :: q) (.done h (endTick issued { s with coreQ := ev :: q }))
  | fails {ev : PipelineEvent} {q : List PipelineEvent} {s' : Pipeline} {f : PipelineFatal}
      (hissues : Issues c ev.cmd) (hw : issueWindow c (opOf c ev.cmd) s.offset
        (budgetOf l issued s) h s.emitter = .error f) (hfatal : s'.fatal = some f) :
      Rounded c l issued h s (ev :: q) (.done h (endTick issued { s' with coreQ := ev :: q }))
  | postpones {ev : PipelineEvent} {q : List PipelineEvent} {issued' : ℕ} {h' : Host}
      {s' : Pipeline} (hpending : s.pendingOp = some (opOf c ev.cmd))
      (hop : s'.pendingOp = some (opOf c ev.cmd))
      (hshorter : ((opOf c ev.cmd).requestsFrom c s'.offset).length <
        ((opOf c ev.cmd).requestsFrom c s.offset).length) (hfatal : s'.fatal = s.fatal) :
      Rounded c l issued h s (ev :: q) (.done h' (endTick issued' { s' with coreQ := ev :: q }))
  | issues {ev : PipelineEvent} {q : List PipelineEvent} {s' : Pipeline}
      (hissues : Issues c ev.cmd) (hidle : s.pendingOp = none)
      (hop : s'.pendingOp = some (opOf c ev.cmd)) (hoff : s'.offset = 0)
      (hemitter : s'.emitter = s.emitter) : Rounded c l issued h s (ev :: q)
        (.next (ev :: q) issued h s')
  | leaves {ev : PipelineEvent} {q : List PipelineEvent} {issued' : ℕ} {h' : Host}
      {s' : Pipeline} (hop : s'.pendingOp = none) :
      Rounded c l issued h s (ev :: q) (.next q issued' h' s')
  | stalls {ev : PipelineEvent} {q : List PipelineEvent} {s' : Pipeline} {n : ℕ}
      (hidle : s.pendingOp = none) (hop : s'.pendingOp = none)
      (hn : n + 1 = ev.remainingStall) (hfatal : s'.fatal = s.fatal) :
      Rounded c l issued h s (ev :: q)
        (.done h (endTick issued { s' with coreQ := { ev with remainingStall := n } :: q }))
  | ends {ev : PipelineEvent} {q : List PipelineEvent} {h' : Host} {s' : Pipeline}
      (hhalted : s'.halted = true) (hfatal : s'.fatal = s.fatal) (hq : s'.coreQ = q) :
      Rounded c l issued h s (ev :: q) (.done h' s')

/-- The loop may go on from a state: a tick that has not ended. -/
structure Going (c : CoreContext) (q : List PipelineEvent) (s : Pipeline) : Prop where
  shape : Shape c q s
  halted : s.halted = false
  fatal : s.fatal = none

variable {issued : ℕ}

/-- A command leaves the queue. -/
theorem rounded_retire (hs : Going c (ev :: q) s) (hop : s.pendingOp = none)
    (hasked : Asked c ev.cmd s s') (hhalts : ¬Halts c ev.cmd) (hnone : requestsOf c ev.cmd = []) :
    ∀ res, res = (if (retire l s').halted then Round.done h { retire l s' with coreQ := q }
        else .next q issued h (retire l s')) →
      Rounded c l issued h s (ev :: q) res ∧
        res.Keeps (fun q _ _ s => Going c q s) (fun _ _ => True) := by
  rintro res rfl
  have hmoves := moves_retired (l := l) (h := h) hs.halted hs.shape hop hasked hhalts hnone
  obtain ⟨stats, -, rfl⟩ := hasked
  obtain ⟨halted, hretire, -⟩ := retire_eq l { s with
    handled := s.handled ++ (answerOf c ev.cmd).toList.map fun a => (ev.cmd, a)
    stats := stats }
  rw [hretire] at hmoves ⊢
  cases halted with
  | true => exact ⟨.ends rfl rfl rfl, trivial⟩
  | false => exact ⟨.leaves hop, hmoves.shape, rfl, hs.fatal⟩

/-- A pending access is issued as far as the budget goes. -/
theorem rounded_pending (hs : Going c (ev :: q) s) {op : MemOp} (hop : s.pendingOp = some op) :
    Rounded c l issued h s (ev :: q) (round c l (ev :: q) issued h s) ∧
      (round c l (ev :: q) issued h s).Keeps (fun q _ _ s => Going c q s) (fun _ _ => True) := by
  obtain ⟨ev', q', hq, hissues, rfl, hcursor⟩ := hs.shape.pending op hop
  cases hq
  rw [round, hop]
  dsimp only
  rcases Nat.eq_zero_or_pos (budgetOf l issued s) with hzero | hbudget
  · rw [issueMemOp_idle hzero, if_pos (by rfl)]
    exact ⟨.blocked hzero, trivial⟩
  cases hw : issueWindow c (opOf c ev.cmd) s.offset (budgetOf l issued s) h s.emitter with
  | error f =>
      rw [issueMemOp_error hbudget hw, if_pos (by rfl)]
      exact ⟨.fails hissues hw rfl, trivial⟩
  | ok w =>
      have hadv := issueWindow_advances hcursor hbudget hw
      have hsent := issueWindow_sent hbudget hw
      rw [issueMemOp_ok hcursor hbudget hw]
      by_cases hend : w.offset = (opOf c ev.cmd).size
      · rw [if_pos hend, if_neg (by exact Bool.false_ne_true)]
        dsimp only
        obtain ⟨halted, hretire, -⟩ := retire_eq l
          (addData .insnCount { s with pendingOp := none, offset := 0, emitter := w.emitter })
        rw [hretire]
        cases halted with
        | true =>
            rw [if_pos rfl]
            obtain ⟨stats, htick, -⟩ := endTick_eq (issued + w.parts) { s with
              pendingOp := none, offset := 0, emitter := w.emitter, coreQ := q, halted := true }
            refine ⟨.ends ?_ ?_ ?_, trivial⟩
            · rw [endTick]; split_ifs <;> rfl
            · rw [endTick]; split_ifs <;> rfl
            · rw [endTick_coreQ]
        | false =>
            rw [if_neg Bool.false_ne_true]
            exact ⟨.leaves rfl, ⟨fun ev' hmem => hs.shape.noRuns ev' (List.mem_cons_of_mem _ hmem),
              fun _ => rfl, fun _ hnone => absurd hnone (Option.some_ne_none _).symm⟩,
              rfl, hs.fatal⟩
      · obtain ⟨hpos, -, htraffic⟩ := hadv.incomplete hend
        have hlength := congrArg List.length htraffic
        rw [List.length_append, List.length_append, hsent] at hlength
        rw [if_neg hend, if_pos (by rfl)]
        refine ⟨.postpones hop hop ?_ rfl, trivial⟩
        dsimp only
        omega

/-- **What a round does**, and that the loop may go on after it. -/
theorem round_spec (hs : Going c q s) (issued : ℕ) (h : Host) :
    Rounded c l issued h s q (round c l q issued h s) ∧
      (round c l q issued h s).Keeps (fun q _ _ s => Going c q s) (fun _ _ => True) := by
  cases q with
  | nil => exact ⟨.empty, trivial⟩
  | cons ev q =>
      cases hop : s.pendingOp with
      | some op => exact rounded_pending hs hop
      | none =>
          have hclass := classify_spec c ev s
          rw [round, hop]
          dsimp only
          generalize hres : classify c ev s = res at hclass
          cases hclass with
          | pending op hsome =>
              rw [hop] at hsome
              cases hsome
          | @issues s₁ hasked hnone hissues =>
              have hissues := hissues (hs.shape.noRuns ev List.mem_cons_self)
              have hmoves := moves_pending (l := l) (h := h) hs.halted hs.shape hop hasked hissues
              have hoff := hs.shape.idle hop
              obtain ⟨stats, -, rfl⟩ := hasked
              exact ⟨.issues hissues hop rfl hoff rfl, hmoves.shape, hs.halted, hs.fatal⟩
          | @consumed s₁ hasked hnone hact =>
              exact rounded_retire hs hop hasked (not_halts_of_consume hact)
                (if_neg fun hissues => hissues.2.1 hact) _ rfl
          | @noop s₁ hasked hnone hnop =>
              have hcompute : ev.cmd.isCompute = true := by rw [QuetzCommand.isCompute, hnop]; rfl
              exact rounded_retire hs hop hasked (not_halts_of_isCompute hcompute)
                (requestsOf_of_isCompute hcompute) _ rfl
          | @stalls s₁ n hasked hnone hact hhalts =>
              have hstall := classify_stall hres
              obtain ⟨stats, -, rfl⟩ := hasked
              exact ⟨.stalls hop hop hstall rfl, trivial⟩
          | @halts s₁ hasked hnone hhalts =>
              obtain ⟨stats, -, rfl⟩ := hasked
              exact ⟨.ends rfl rfl rfl, trivial⟩

/-! ### Work -/

/-- Before a round of a tick: something was done in this tick, or the first round may do it. -/
structure Working (c : CoreContext) (l : PipelineLimits) (start : ℕ) (q : List PipelineEvent)
    (issued : ℕ) (s : Pipeline) : Prop where
  going : Going c q s
  rank : left c q s + 1 ≤ start ∨ left c q s ≤ start ∧ q ≠ [] ∧ issued = 0 ∧
    s.emitter.pendingCount < l.maxPending

/-- After a tick: it ended the run or did something. -/
def Worked (c : CoreContext) (start : ℕ) (s : Pipeline) : Prop :=
  Over s ∨ left c s.coreQ s + 1 ≤ start

variable {start : ℕ}

/-- At least one step is left for the head. -/
theorem left_cons_le (ev : PipelineEvent) (q : List PipelineEvent) (s : Pipeline) :
    efforts c q + 1 ≤ left c (ev :: q) s := by
  cases hop : s.pendingOp with
  | none =>
      rw [left_of_idle hop, efforts_cons, effort]
      omega
  | some op =>
      rw [left_of_pending hop]
      omega

/-- **One round of a tick.** -/
theorem worked_round (q : List PipelineEvent) (issued : ℕ) (h : Host) (s : Pipeline)
    (hs : Working c l start q issued s) :
    (round c l q issued h s).Keeps (fun q issued _ s => Working c l start q issued s)
      (fun _ s => Worked c start s) := by
  have hrank := hs.rank
  obtain ⟨hround, hgoing⟩ := round_spec (l := l) hs.going issued h
  generalize round c l q issued h s = res at hround hgoing
  cases hround with
  | empty =>
      refine Or.inr ?_
      rw [endTick_left]
      rcases hrank with hdone | ⟨-, hne, -⟩
      · exact hdone
      · exact absurd rfl hne
  | blocked hbudget =>
      refine Or.inr ?_
      rw [endTick_left]
      rcases hrank with hdone | ⟨-, -, rfl, hfree⟩
      · exact hdone
      · have hissue := l.maxIssuePerCycle_pos
        rw [budgetOf] at hbudget
        omega
  | fails hissues hw hfatal =>
      refine Or.inl (endTick_over issued (Or.inr ?_))
      rw [hfatal]
      rfl
  | postpones hpending hop hshorter hfatal =>
      refine Or.inr ?_
      rw [left_of_pending hpending] at hrank
      rw [endTick_left, left_of_pending hop]
      omega
  | @issues ev q s' hissues hidle hop hoff hemitter =>
      rw [left_of_idle hidle, efforts_cons, effort, hissues.requestsOf] at hrank
      refine ⟨hgoing, ?_⟩
      rw [left_of_pending hop, hoff, hemitter]
      rcases hrank with hdone | ⟨hle, -, hfirst⟩
      · exact Or.inl (by omega)
      · exact Or.inr ⟨by omega, List.cons_ne_nil _ _, hfirst⟩
  | @leaves ev q issued' h' s' hop =>
      have hle := left_cons_le (c := c) ev q s
      refine ⟨hgoing, Or.inl ?_⟩
      rw [left_of_idle hop]
      omega
  | @stalls ev q s' n hidle hop hn hfatal =>
      rw [left_of_idle hidle, efforts_cons, effort] at hrank
      refine Or.inr ?_
      rw [endTick_left, left_of_idle (by exact hop), efforts_cons, effort]
      dsimp only
      omega
  | ends hhalted hfatal hq => exact Or.inl (Or.inl hhalted)

/-! ### A tick -/

/-- What is left of the queue, the compute run and the ring. -/
def debt (c : CoreContext) (l : PipelineLimits) (ring : List QuetzCommand) (s : Pipeline) : ℕ :=
  left c s.coreQ s + efforts c (feed l ring s)

/-- Events may be queued before or after. -/
theorem left_append (hshape : Shape c q s) (evs : List PipelineEvent) :
    left c (q ++ evs) s = left c q s + efforts c evs := by
  cases hop : s.pendingOp with
  | none => rw [left_of_idle hop, left_of_idle hop, efforts_append]
  | some op =>
      obtain ⟨ev, q', rfl, -, -, -⟩ := hshape.pending op hop
      rw [List.cons_append, left_of_pending hop, left_of_pending hop, efforts_append]
      omega

/-- A run that is over does not tick. -/
theorem tick_of_over (hover : Over s) (h : Host) (ring : List QuetzCommand) :
    tick c l h ring s = (h, ring, s) := if_pos hover

/-- A command has an event at least. -/
theorem eventsOf_ne_nil (cmd : QuetzCommand) : eventsOf l cmd ≠ [] := by
  rw [eventsOf]
  by_cases hrun : cmd.cmd = .computeRun
  · rw [if_pos hrun, ne_eq, List.replicate_eq_nil_iff]
    by_cases hsize : cmd.size ≠ 0
    · rwa [if_pos hsize]
    · rw [if_neg hsize]
      exact Nat.one_ne_zero
  · rw [if_neg hrun]
    exact List.cons_ne_nil _ _

/-- How a tick starts: with the commands that were there, some of them now in the queue. -/
structure Starts (c : CoreContext) (l : PipelineLimits) (h : Host) (ring : List QuetzCommand)
    (s : Pipeline) (res : Host × List QuetzCommand × Pipeline) (start : Pipeline) : Prop where
  going : Going c start.coreQ start
  pendingOp : start.pendingOp = s.pendingOp
  offset : start.offset = s.offset
  emitter : start.emitter = s.emitter
  events : start.coreQ ++ feed l res.2.1 res.2.2 = s.coreQ ++ feed l ring s
  queued : s.coreQ ++ feed l ring s ≠ [] → start.coreQ ≠ []
  loop : res.2.2 = (issueLoop c l start.coreQ 0 h start).2

/-- **A tick** refills the queue and runs its loop. -/
theorem tick_starts (hok : Ok c l s) (hgo : ¬Over s) (h : Host) (ring : List QuetzCommand) :
    ∃ start, Starts c l h ring s (tick c l h ring s) start := by
  rw [Over] at hgo
  rw [tick, if_neg hgo]
  rw [not_or, Bool.not_eq_true, Option.not_isSome_iff_eq_none] at hgo
  have hrefills := refill_refills (l := l) ring hok
  have hfill := refill_spec (l := l) ring hok.nop
  have htake := takeFeed_append (l.maxQueueLen - s.coreQ.length) (feed l ring s)
  generalize refill l ring s = filled at hrefills hfill
  have hqueue : filled.2.coreQ =
      s.coreQ ++ (takeFeed (l.maxQueueLen - s.coreQ.length) (feed l ring s)).1 := by
    rw [hfill.pipe]
  dsimp only
  refine ⟨{ filled.2 with refillHitCap := decide (l.maxQueueLen ≤ filled.2.coreQ.length) },
    ⟨hrefills.ok.shape.congr rfl rfl, hrefills.halted.trans hgo.1, hrefills.fatal.trans hgo.2⟩,
    ?_, ?_, hrefills.emitter, ?_, fun hne hempty => ?_, rfl⟩
  · rw [hfill.pipe]
  · rw [hfill.pipe]
  · have hpart := issueLoop_runPart (c := c) (l := l) filled.2.coreQ 0 h
      { filled.2 with refillHitCap := decide (l.maxQueueLen ≤ filled.2.coreQ.length) }
    obtain ⟨hnop, hstall, hremaining, -⟩ := RunPart.mk.inj hpart
    dsimp only at hnop hstall hremaining ⊢
    rw [feed, hnop, hstall, hremaining, ← feed, ← hfill.rest, hqueue, List.append_assoc, htake]
  · rw [hempty] at hqueue
    obtain ⟨hcoreQ, htaken⟩ := List.append_eq_nil_iff.mp hqueue.symm
    rw [hcoreQ, List.nil_append] at hne
    obtain ⟨ev, evs, hfeed⟩ := List.exists_cons_of_ne_nil hne
    obtain ⟨room, hroom⟩ := Nat.exists_eq_succ_of_ne_zero (Nat.ne_of_gt l.maxQueueLen_pos)
    rw [hcoreQ, List.length_nil, Nat.sub_zero, hroom, hfeed, takeFeed] at htaken
    split_ifs at htaken

/-- A queue that is not empty takes a step. -/
theorem efforts_pos (hne : q ≠ []) : 0 < efforts c q := by
  obtain ⟨ev, q, rfl⟩ := List.exists_cons_of_ne_nil hne
  rw [efforts_cons, effort]
  omega

/-- Something is left while there is a command. -/
theorem debt_pos {ring : List QuetzCommand} (hne : s.coreQ ++ feed l ring s ≠ []) :
    0 < debt c l ring s := by
  rw [debt]
  cases hop : s.pendingOp with
  | none =>
      rw [left_of_idle hop, ← efforts_append]
      exact efforts_pos hne
  | some op =>
      rw [left, hop]
      dsimp only
      omega

/-- The core has a command and may send a request. -/
def Ready (l : PipelineLimits) (ring : List QuetzCommand) (s : Pipeline) : Prop :=
  s.coreQ ++ feed l ring s ≠ [] ∧ s.emitter.pendingCount < l.maxPending

/-- **One tick.** Unless it ends the run it does not raise what is left, and lowers it if the core
is ready. -/
theorem tick_debt (hok : Ok c l s) (hgo : ¬Over s) (h : Host) (ring : List QuetzCommand) :
    Over (tick c l h ring s).2.2 ∨
      debt c l (tick c l h ring s).2.1 (tick c l h ring s).2.2 ≤ debt c l ring s ∧
      (Ready l ring s →
        debt c l (tick c l h ring s).2.1 (tick c l h ring s).2.2 + 1 ≤ debt c l ring s) := by
  obtain ⟨start, hstart⟩ := tick_starts hok hgo h ring
  generalize tick c l h ring s = res at hstart
  have hsame : Shape c start.coreQ s :=
    hstart.going.shape.congr hstart.pendingOp.symm hstart.offset.symm
  have hdebt : debt c l ring s = left c start.coreQ start + efforts c (feed l res.2.1 res.2.2) := by
    rw [debt, ← left_append hok.shape, ← hstart.events, left_append hsame,
      left_congr hstart.pendingOp hstart.offset]
  have hloop : ∀ {rank : ℕ}, Working c l rank start.coreQ 0 start → Worked c rank res.2.2 := by
    intro rank hworking
    rw [hstart.loop]
    exact issueLoop_rule worked_round hworking
  rw [debt, hdebt]
  rcases hloop ⟨hstart.going, Or.inl le_rfl⟩ with hover | hkept
  · exact Or.inl hover
  by_cases hwork : Ready l ring s
  · have hfree : start.emitter.pendingCount < l.maxPending := by
      rw [hstart.emitter]
      exact hwork.2
    rcases hloop ⟨hstart.going, Or.inr ⟨le_rfl, hstart.queued hwork.1, rfl, hfree⟩⟩ with
      hover | hdone
    · exact Or.inl hover
    · exact Or.inr ⟨by omega, fun _ => by omega⟩
  · exact Or.inr ⟨by omega, fun hready => absurd hready hwork⟩

/-! ### Accesses without an error -/

/-- The access of a command stays inside the address space and has its link. -/
def Sound (c : CoreContext) (cmd : QuetzCommand) : Prop :=
  Issues c cmd → cmd.size ≠ 0 → (opOf c cmd).Fits ∧ linked c (opOf c cmd) = true

instance (c : CoreContext) (cmd : QuetzCommand) : Decidable (Sound c cmd) :=
  inferInstanceAs (Decidable (_ → _ → _))

/-- A computation never fails. -/
theorem sound_of_isCompute {cmd : QuetzCommand} (hcompute : cmd.isCompute = true) : Sound c cmd :=
  fun hissues => absurd hissues (not_issues_of_isCompute hcompute)

/-- The events of a sound command are sound. -/
theorem sound_eventsOf {cmd : QuetzCommand} (hsound : Sound c cmd) :
    ∀ ev ∈ eventsOf l cmd, Sound c ev.cmd := by
  intro ev hev
  rw [eventsOf] at hev
  by_cases hrun : cmd.cmd = .computeRun
  · rw [if_pos hrun] at hev
    rw [List.eq_of_mem_replicate hev]
    exact sound_of_isCompute rfl
  · rw [if_neg hrun] at hev
    rw [List.mem_singleton.mp hev]
    exact hsound

/-- The window of such an access opens. -/
theorem issueWindow_sound {cmd : QuetzCommand} (hsound : Sound c cmd) (hissues : Issues c cmd)
    {offset budget : ℕ} {e : MemRequestEmitter} {f : PipelineFatal} :
    issueWindow c (opOf c cmd) offset budget h e ≠ .error f := by
  intro herr
  by_cases hsize : cmd.size = 0
  · have hsize' : (opOf c cmd).size = 0 := hsize
    rw [issueWindow, issueReadWindow, issueWriteWindow, if_pos (Or.inl hsize'),
      if_pos (Or.inl hsize'), ite_self] at herr
    cases herr
  · exact window_error herr (hsound hissues hsize)

/-- After a tick without an error. -/
def NoFault (c : CoreContext) (s : Pipeline) : Prop :=
  s.fatal = none ∧ ∀ ev ∈ s.coreQ, Sound c ev.cmd

/-- The end of a tick fails nothing. -/
theorem noFault_endTick (issued : ℕ) (hfatal : s.fatal = none) (hq : ∀ ev ∈ q, Sound c ev.cmd) :
    NoFault c (endTick issued { s with coreQ := q }) := by
  obtain ⟨stats, htick, -⟩ := endTick_eq issued { s with coreQ := q }
  rw [htick]
  exact ⟨hfatal, hq⟩

/-- **One round of a tick** without an error. -/
theorem noFault_round (q : List PipelineEvent) (issued : ℕ) (h : Host) (s : Pipeline)
    (hs : Going c q s ∧ ∀ ev ∈ q, Sound c ev.cmd) : (round c l q issued h s).Keeps
      (fun q _ _ s => Going c q s ∧ ∀ ev ∈ q, Sound c ev.cmd) (fun _ s => NoFault c s) := by
  obtain ⟨hgo, hsound⟩ := hs
  obtain ⟨hround, hgoing⟩ := round_spec (l := l) hgo issued h
  generalize round c l q issued h s = res at hround hgoing
  cases hround with
  | empty => exact noFault_endTick issued hgo.fatal hsound
  | blocked hbudget => exact noFault_endTick issued hgo.fatal hsound
  | @fails ev q s' f hissues hw hfatal =>
      exact absurd hw (issueWindow_sound (hsound ev List.mem_cons_self) hissues)
  | postpones hpending hop hshorter hfatal =>
      exact noFault_endTick _ (hfatal.trans hgo.fatal) hsound
  | issues hissues hidle hop hoff hemitter => exact ⟨hgoing, hsound⟩
  | leaves hop => exact ⟨hgoing, fun ev hmem => hsound ev (List.mem_cons_of_mem _ hmem)⟩
  | @stalls ev q s' n hidle hop hn hfatal =>
      refine noFault_endTick issued (hfatal.trans hgo.fatal) fun ev' hmem => ?_
      rcases List.mem_cons.mp hmem with rfl | hmem
      · exact hsound ev List.mem_cons_self
      · exact hsound ev' (List.mem_cons_of_mem _ hmem)
  | @ends ev q h' s' hhalted hfatal hq =>
      refine ⟨hfatal.trans hgo.fatal, fun ev' hmem => hsound ev' (List.mem_cons_of_mem _ ?_)⟩
      rwa [hq] at hmem

end Pipeline

/-! ### Runs -/

namespace CoreRun

open Pipeline

variable {c : CoreContext} {l : PipelineLimits} {r : CoreRun} {stream : List QuetzCommand}

/-- What is left of a core and its ring. -/
def debt (c : CoreContext) (l : PipelineLimits) (r : CoreRun) : ℕ := Pipeline.debt c l r.ring r.pipe

/-- What the commands of a stream cost: the stall, the requests and one cycle for each. -/
def cost (c : CoreContext) (l : PipelineLimits) (stream : List QuetzCommand) : ℕ :=
  efforts c (stream.flatMap (eventsOf l))

/-- The core works in a tick: it has not ended, has a command and may send a request. -/
def works (l : PipelineLimits) (r : CoreRun) : CoreEvent → Bool
  | .tick _ => !r.pipe.halted && r.pipe.fatal.isNone &&
      !(r.pipe.coreQ ++ feed l r.ring r.pipe).isEmpty &&
      decide (r.pipe.emitter.pendingCount < l.maxPending)
  | .push _ | .answer .. | .send .. => false

/-- The ticks of a run in which the core works. -/
def busyTicks (c : CoreContext) (l : PipelineLimits) : CoreRun → List CoreEvent → ℕ
  | _, [] => 0
  | r, e :: es => (if r.works l e then 1 else 0) + busyTicks c l (r.step c l e) es

/-- The costs of two streams add up. -/
theorem cost_append (cmds cmds' : List QuetzCommand) :
    cost c l (cmds ++ cmds') = cost c l cmds + cost c l cmds' := by
  rw [cost, List.flatMap_append, efforts_append]
  rfl

/-- The commands of the first event, and of the rest. -/
theorem pushed_cons (e : CoreEvent) (es : List CoreEvent) :
    pushed (e :: es) = pushed [e] ++ pushed es := by
  simp [pushed]

/-- A tick works if the run is not over and the core has something it may do. -/
theorem works_tick_iff (now : ℕ) :
    r.works l (.tick now) = true ↔ ¬Over r.pipe ∧ Ready l r.ring r.pipe := by
  simp [works, Over, Ready, and_assoc, Option.isNone_iff_eq_none]

/-- A run that is over stays over. -/
theorem over_step (hover : Over r.pipe) (e : CoreEvent) : Over (r.step c l e).pipe := by
  cases e with
  | push cmds => exact hover
  | tick now =>
      rw [CoreRun.step, tick_of_over (by exact hover)]
      exact hover
  | answer now i data =>
      rw [CoreRun.step]
      cases r.host.inFlight[i]? with
      | none => exact hover
      | some req =>
          obtain ⟨e, stats, hframe, -⟩ :=
            handleMemResponse_frame req.id (req.body.response data) (r.pipeAt now)
          dsimp only
          rw [hframe]
          exact hover
  | send vcpu link body => exact hover

/-- **One event**: a working tick lowers what is left, and only new commands raise it. -/
theorem Ok.step_debt (hok : Ok c l stream r) (hgo : ¬Over r.pipe) (e : CoreEvent) :
    Over (r.step c l e).pipe ∨
      (r.step c l e).debt c l + (if r.works l e then 1 else 0) ≤
        r.debt c l + cost c l (pushed [e]) := by
  cases e with
  | push cmds =>
      refine Or.inr ?_
      have hpushed : pushed [.push cmds] = cmds := List.append_nil _
      have hfeed : feed l (r.ring ++ cmds) r.pipe =
          feed l r.ring r.pipe ++ cmds.flatMap (eventsOf l) := by
        rw [feed, List.flatMap_append, ← List.append_assoc]
        rfl
      rw [hpushed, CoreRun.step, debt, Pipeline.debt, hfeed, efforts_append, works,
        if_neg Bool.false_ne_true, Nat.add_zero, ← Nat.add_assoc]
      rfl
  | tick now =>
      have hpipe : (r.pipeAt now).Ok c l := hok.pipe.quiet rfl
      rcases tick_debt hpipe hgo r.host r.ring with hover | ⟨hle, hlt⟩
      · exact Or.inl hover
      refine Or.inr ?_
      have hpushed : cost c l (pushed [.tick now]) = 0 := rfl
      rw [hpushed, Nat.add_zero]
      by_cases hworks : r.works l (.tick now) = true
      · rw [if_pos hworks]
        exact hlt ((works_tick_iff now).mp hworks).2
      · rw [if_neg hworks]
        exact hle
  | answer now i data =>
      refine Or.inr ?_
      have hpushed : cost c l (pushed [.answer now i data]) = 0 := rfl
      rw [hpushed, works, if_neg Bool.false_ne_true, Nat.add_zero, Nat.add_zero, CoreRun.step]
      cases r.host.inFlight[i]? with
      | none => exact le_rfl
      | some req =>
          obtain ⟨e, stats, hframe, -⟩ :=
            handleMemResponse_frame req.id (req.body.response data) (r.pipeAt now)
          dsimp only
          rw [hframe]
          exact le_rfl
  | send vcpu link body => exact Or.inr le_rfl

/-- No tick works when the run is over. -/
theorem busyTicks_of_over (es : List CoreEvent) : ∀ {r : CoreRun}, Over r.pipe →
    busyTicks c l r es = 0 := by
  induction es with
  | nil => exact fun _ => rfl
  | cons e es ih =>
      intro r hover
      have hidle : r.works l e = false := by
        cases e with
        | tick now =>
            by_contra hworks
            exact ((works_tick_iff now).mp (by simpa using hworks)).1 hover
        | _ => rfl
      rw [busyTicks, hidle, ih (over_step hover e)]
      rfl

/-- What is left after a run and its working ticks are bounded by what was left and what came. -/
theorem Ok.busyTicks_le (es : List CoreEvent) : ∀ {r : CoreRun} {stream : List QuetzCommand},
    Ok c l stream r → busyTicks c l r es ≤ r.debt c l + cost c l (pushed es) := by
  induction es with
  | nil => exact fun _ => Nat.zero_le _
  | cons e es ih =>
      intro r stream hok
      by_cases hover : Over r.pipe
      · rw [busyTicks_of_over _ hover]
        exact Nat.zero_le _
      rw [busyTicks, pushed_cons, cost_append]
      rcases hok.step_debt hover e with hend | hstep
      · -- The tick that ends the run may work.
        have hone : (if r.works l e then 1 else 0) ≤ r.debt c l := by
          by_cases hworks : r.works l e = true
          · cases e with
            | tick now =>
                rw [if_pos hworks]
                exact debt_pos ((works_tick_iff now).mp hworks).2.1
            | push cmds => cases hworks
            | answer now i data => cases hworks
            | send vcpu link body => cases hworks
          · rw [if_neg hworks]
            exact Nat.zero_le _
        rw [busyTicks_of_over _ hend]
        omega
      · have hrest := ih (hok.step e)
        omega

/-- **The working ticks of a run.** A core that has a command and may send a request works; over any
run, with any limits and latencies and with any schedule of the ring and of the responses, it works
in at most as many ticks as its commands have stalls, requests and commands. -/
theorem busy_ticks_bounded (c : CoreContext) (l : PipelineLimits) (h : Host)
    (es : List CoreEvent) : busyTicks c l { host := h } es ≤ cost c l (pushed es) := by
  have hstart : Ok c l [] { host := h } := ⟨ok_start c l, rfl⟩
  have hzero : ({ host := h } : CoreRun).debt c l = 0 := rfl
  have hbound := hstart.busyTicks_le es
  rwa [hzero, Nat.zero_add] at hbound

/-! ### No errors -/

/-- No command that is left of a core leads to an error, and none has. -/
def Faultless (c : CoreContext) (l : PipelineLimits) (r : CoreRun) : Prop :=
  r.pipe.fatal = none ∧ ∀ ev ∈ r.pipe.coreQ ++ feed l r.ring r.pipe, Sound c ev.cmd

/-- A tick keeps a run without faults. -/
theorem Faultless.tick (hs : Faultless c l r) (hok : Ok c l stream r) (now : ℕ) :
    Faultless c l (r.step c l (.tick now)) := by
  have hpipe : (r.pipeAt now).Ok c l := hok.pipe.quiet rfl
  by_cases hover : Over (r.pipeAt now)
  · rw [CoreRun.step, tick_of_over hover]
    exact hs
  obtain ⟨start, hstart⟩ := tick_starts hpipe hover r.host r.ring
  rw [CoreRun.step]
  generalize Pipeline.tick c l r.host r.ring (r.pipeAt now) = res at hstart
  have hsound : ∀ ev ∈ start.coreQ ++ feed l res.2.1 res.2.2, Sound c ev.cmd := by
    rw [hstart.events]
    exact hs.2
  have hend : NoFault c res.2.2 := by
    rw [hstart.loop]
    exact issueLoop_rule noFault_round
      ⟨hstart.going, fun ev hev => hsound ev (List.mem_append_left _ hev)⟩
  refine ⟨hend.1, fun ev hev => ?_⟩
  rcases List.mem_append.mp hev with hev | hev
  · exact hend.2 ev hev
  · exact hsound ev (List.mem_append_right _ hev)

/-- **One event.** -/
theorem Faultless.step (hs : Faultless c l r) (hok : Ok c l stream r) (e : CoreEvent)
    (hsound : ∀ cmd ∈ pushed [e], Sound c cmd) : Faultless c l (r.step c l e) := by
  cases e with
  | push cmds =>
      have hpushed : pushed [.push cmds] = cmds := List.append_nil _
      rw [hpushed] at hsound
      refine ⟨hs.1, fun ev hev => ?_⟩
      rw [CoreRun.step, feed, List.flatMap_append, ← List.append_assoc, ← List.append_assoc] at hev
      rcases List.mem_append.mp hev with hev | hev
      · rw [List.append_assoc] at hev
        exact hs.2 ev hev
      · obtain ⟨cmd, hcmd, hev⟩ := List.mem_flatMap.mp hev
        exact sound_eventsOf (hsound cmd hcmd) ev hev
  | tick now => exact hs.tick hok now
  | answer now i data =>
      rw [CoreRun.step]
      cases r.host.inFlight[i]? with
      | none => exact hs
      | some req =>
          obtain ⟨e, stats, hframe, -⟩ :=
            handleMemResponse_frame req.id (req.body.response data) (r.pipeAt now)
          dsimp only
          rw [hframe]
          exact hs
  | send vcpu link body => exact hs

/-! ### Fair runs -/

section

variable (c : CoreContext) (l : PipelineLimits) (h : Host) (σ : ℕ → CoreEvent)

/-- A core after the first events of an endless run. -/
def after (n : ℕ) : CoreRun := run c l { host := h } ((List.range n).map σ)

/-- What the guest has written by then. -/
def written (n : ℕ) : List QuetzCommand := pushed ((List.range n).map σ)

variable {c l h σ}

/-- One more event. -/
theorem after_succ (n : ℕ) : after c l h σ (n + 1) = (after c l h σ n).step c l (σ n) := by
  rw [after, List.range_succ, List.map_append, run, List.foldl_append]
  rfl

/-- What one more event writes. -/
theorem written_succ (σ : ℕ → CoreEvent) (n : ℕ) :
    written σ (n + 1) = written σ n ++ pushed [σ n] := by
  rw [written, List.range_succ, List.map_append, pushed, List.flatMap_append]
  rfl

/-- The run is well formed after every event. -/
theorem after_ok (c : CoreContext) (l : PipelineLimits) (h : Host) (σ : ℕ → CoreEvent) (n : ℕ) :
    Ok c l (written σ n) (after c l h σ n) := by
  have hstart : Ok c l [] { host := h } := ⟨ok_start c l, rfl⟩
  have hok := hstart.run ((List.range n).map σ)
  rwa [List.nil_append] at hok

/-- A core starves if it never again may send a request or never ticks again. -/
structure Fairly (c : CoreContext) (l : PipelineLimits) (h : Host) (σ : ℕ → CoreEvent) : Prop where
  ticks : Fair.Again fun n => ∃ now, σ n = .tick now
  answers : Fair.Again fun n => (after c l h σ n).pipe.emitter.pendingCount < l.maxPending

/-- Only a tick sends requests. -/
theorem pendingCount_step {e : CoreEvent} (hidle : ¬∃ now, e = .tick now) :
    (r.step c l e).pipe.emitter.pendingCount ≤ r.pipe.emitter.pendingCount := by
  cases e with
  | push cmds => exact le_rfl
  | tick now => exact absurd ⟨now, rfl⟩ hidle
  | answer now i data =>
      rw [CoreRun.step]
      cases r.host.inFlight[i]? with
      | none => exact le_rfl
      | some req =>
          obtain ⟨e, stats, hframe, he⟩ :=
            handleMemResponse_frame req.id (req.body.response data) (r.pipeAt now)
          dsimp only
          rw [hframe, he]
          exact pendingCount_handleResponse req.id (r.pipeAt now).emitter
  | send vcpu link body => exact le_rfl

/-- While a command is left that ends the run, the core has commands. -/
theorem Ok.commands_left (hok : Ok c l stream r) (hgo : ¬Over r.pipe)
    (hend : ∃ cmd ∈ stream, Halts c cmd) : r.pipe.coreQ ++ feed l r.ring r.pipe ≠ [] := by
  intro hempty
  obtain ⟨hcoreQ, hfeed⟩ := List.append_eq_nil_iff.mp hempty
  have hring : r.ring = [] := by
    rw [feed, List.append_eq_nil_iff, List.flatMap_eq_nil_iff] at hfeed
    exact List.eq_nil_iff_forall_not_mem.mpr fun cmd hcmd =>
      eventsOf_ne_nil cmd (hfeed.2 cmd hcmd)
  have hread : r.pipe.read = stream := by rw [← hok.ring, hring, List.append_nil]
  rw [Over, not_or, Bool.not_eq_true] at hgo
  obtain ⟨ev, hev, -⟩ := hok.pipe.stops hgo.1 (by rw [hread]; exact hend)
  rw [hcoreQ] at hev
  cases hev

/-- Where the stream is sound, the run has no fault after any event. -/
theorem after_faultless {stream : List QuetzCommand} (hsound : ∀ cmd ∈ stream, Sound c cmd)
    (hwritten : ∀ n, written σ n <+: stream) (n : ℕ) : Faultless c l (after c l h σ n) := by
  induction n with
  | zero => exact ⟨rfl, fun ev hev => absurd hev List.not_mem_nil⟩
  | succ n ih =>
      rw [after_succ]
      refine ih.step (after_ok c l h σ n) (σ n) fun cmd hcmd => hsound cmd ?_
      have hprefix := hwritten (n + 1)
      rw [written_succ] at hprefix
      exact hprefix.subset (List.mem_append_right _ hcmd)

/-- A run that is over stays over. -/
theorem over_after {n m : ℕ} (hnm : n ≤ m) (hover : Over (after c l h σ n).pipe) :
    Over (after c l h σ m).pipe := by
  induction m, hnm using Nat.le_induction with
  | base => exact hover
  | succ m hnm ih =>
      rw [after_succ]
      exact over_step ih (σ m)

/-- **A core that is not starved halts.** The guest writes a stream with a command that ends the
run, at whatever times; no access of it wraps or lacks its link. If the core ticks again and again
and may send a request again and again, then it halts, without an error. -/
theorem fair_run_halts {stream : List QuetzCommand} (hfair : Fairly c l h σ)
    (hend : ∃ cmd ∈ stream, Halts c cmd) (hsound : ∀ cmd ∈ stream, Sound c cmd)
    (hwritten : ∀ n, written σ n <+: stream) (hall : ∃ n, written σ n = stream) :
    ∃ n, ∀ m, n ≤ m → (after c l h σ m).pipe.halted = true ∧
      (after c l h σ m).pipe.fatal = none := by
  obtain ⟨start, hstart⟩ := hall
  have hstream : ∀ n, start ≤ n → written σ n = stream := by
    intro n hn
    induction n, hn using Nat.le_induction with
    | base => exact hstart
    | succ n hn ih =>
        refine (hwritten (n + 1)).eq_of_length_le ?_
        rw [written_succ, ih, List.length_append]
        omega
  have hquiet : ∀ n, start ≤ n → pushed [σ n] = [] := by
    intro n hn
    have hsame := written_succ σ n
    rw [hstream n hn, hstream (n + 1) (by omega)] at hsame
    exact List.self_eq_append_right.mp hsame
  have hwork : Fair.Again fun n => (∃ now, σ n = .tick now) ∧
      (after c l h σ n).pipe.emitter.pendingCount < l.maxPending := by
    refine Fair.again_and (fun n hfree hidle => ?_) hfair.ticks hfair.answers
    rw [after_succ]
    exact (pendingCount_step hidle).trans_lt hfree
  obtain ⟨n, hover⟩ : ∃ n, Over (after c l h σ n).pipe := by
    by_contra hnever
    have hgo : ∀ n, ¬Over (after c l h σ n).pipe := fun n hover => hnever ⟨n, hover⟩
    have hstep : ∀ n, start ≤ n → (after c l h σ (n + 1)).debt c l +
        (if (after c l h σ n).works l (σ n) then 1 else 0) ≤ (after c l h σ n).debt c l := by
      intro n hn
      have hone := (after_ok c l h σ n).step_debt (hgo n) (σ n)
      rw [hquiet n hn, ← after_succ] at hone
      exact hone.resolve_left (hgo (n + 1))
    refine hnever (Fair.eventually_of_rank (fun n => (after c l h σ n).debt c l) hwork start
      (fun n hn => Or.inr ?_) fun n hn hnow => Or.inr ?_)
    · have hone := hstep n hn
      omega
    · obtain ⟨⟨now, htick⟩, hfree⟩ := hnow
      have hok := after_ok c l h σ n
      rw [hstream n hn] at hok
      have hworks : (after c l h σ n).works l (σ n) = true := by
        rw [htick]
        exact (works_tick_iff now).mpr ⟨hgo n, hok.commands_left (hgo n) hend, hfree⟩
      have hone := hstep n hn
      rw [if_pos hworks] at hone
      exact hone
  refine ⟨n, fun m hm => ?_⟩
  have hfatal := (after_faultless (l := l) (h := h) hsound hwritten m).1
  refine ⟨(over_after hm hover).resolve_right fun hsome => ?_, hfatal⟩
  rw [hfatal] at hsome
  cases hsome

end

end CoreRun

end Quetz
