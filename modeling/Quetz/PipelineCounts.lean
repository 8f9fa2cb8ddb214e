import Quetz.PipelineDrain
import Quetz.PipelineRounds

/-!
# The Instruction Counters of a Core

A core counts the instructions of its trace: `insn_count` all of them, `noop_count` the ones
without an access, and with detailed tracking four counters the classes of these
(`src/quetz_pipeline_transform.cc`, `src/quetz_pipeline_output.cc` and the consumed accesses of
`src/quetz_pipeline.cc`). A command is counted when it leaves the staging queue, which the limits
and the latencies delay; the access that ends the run and the exit of the guest are not counted.

The invariant is that of the traffic, with the commands of the ring unrolled: what was counted and
what the queue, the compute run and the ring still lead to is the count of the whole stream.

## Main results

* `counted_round`: one round of a tick.
* `counts_independent_of_limits`: the counters of a run, whatever its limits and its schedule.
-/

namespace Quetz

open MemRequestEmitter

/-! ### What is counted -/

/-- The statistic is a counter of instructions. -/
def CoreStat.counts : CoreStat → Bool
  | .noopCount | .insnCount | .intCompute | .fpCompute | .vecCompute | .branch => true
  | _ => false

/-- The counters that a command feeds when it leaves the queue. -/
def countsOf (c : CoreContext) (cmd : QuetzCommand) : List CoreStat :=
  if Halts c cmd then []
  else if cmd.cmd = .nop then computeStats c cmd.insnClass
  else [.insnCount]

/-- The commands of a stream, with the compute runs unrolled. -/
def unrolled (stream : List QuetzCommand) : List QuetzCommand :=
  Pipeline.commands (stream.flatMap (eventsOf default))

/-- The instruction counters of a stream, in the order in which they are fed. -/
def referenceCounts (c : CoreContext) (stream : List QuetzCommand) : List CoreStat :=
  upToHalt c (countsOf c) (unrolled stream)

namespace Pipeline

/-- The entries of the instruction counters. -/
def counted (s : Pipeline) : List (CoreStat × ℕ) := s.stats.filter fun entry => entry.1.counts

variable {c : CoreContext} {l : PipelineLimits} {h : Host} {s s' : Pipeline}
  {q : List PipelineEvent} {ev : PipelineEvent}

/-- The latencies do not matter to the commands. -/
theorem commands_eventsOf (cmd : QuetzCommand) :
    commands (eventsOf l cmd) = commands (eventsOf default cmd) := by
  unfold eventsOf
  by_cases hrun : cmd.cmd = .computeRun
  · rw [if_pos hrun, if_pos hrun]
    simp only [commands, List.map_replicate]
  · rw [if_neg hrun, if_neg hrun]
    rfl

theorem commands_append (q q' : List PipelineEvent) :
    commands (q ++ q') = commands q ++ commands q' := List.map_append

theorem commands_events (stream : List QuetzCommand) :
    commands (stream.flatMap (eventsOf l)) = unrolled stream := by
  induction stream with
  | nil => rfl
  | cons cmd stream ih =>
      have hunrolled : unrolled (cmd :: stream) =
          commands (eventsOf default cmd) ++ unrolled stream := commands_append ..
      rw [List.flatMap_cons, commands_append, commands_eventsOf, ih, hunrolled]

theorem unrolled_append (stream stream' : List QuetzCommand) :
    unrolled (stream ++ stream') = unrolled stream ++ unrolled stream' := by
  rw [unrolled, List.flatMap_append, commands_append]
  rfl

/-! ### The head of the queue -/

/-- What was asked of the statistics. -/
theorem counted_addAll (stats : List CoreStat) (s : Pipeline) : (addAll stats s).counted =
    s.counted ++ (stats.filter CoreStat.counts).map fun stat => (stat, 1) := by
  rw [counted, addAll, List.filter_append, List.filter_map]
  rfl

theorem counted_addData (stat : CoreStat) (s : Pipeline) : (s.addData stat).counted =
    s.counted ++ if stat.counts then [(stat, 1)] else [] := by
  rw [counted, addData, List.filter_append, List.filter_singleton, Bool.cond_eq_ite]
  rfl

/-- The region handlers count no instruction. -/
theorem counted_filterHandle (c : CoreContext) (cmd : QuetzCommand) (s : Pipeline) :
    (filterHandle c cmd s).2.counted = s.counted := by
  rw [filterHandle]
  cases c.regionTable with
  | none => rfl
  | some table =>
      dsimp only
      cases (handleMemoryAccess table c.filterUnmatchedRegions cmd).stat with
      | none => rfl
      | some stat =>
          rw [Option.elim_some, counted_addData]
          exact List.append_nil _

/-- The counters of a computation are all counters of instructions. -/
theorem filter_computeStats (c : CoreContext) (cls : ℕ) :
    (computeStats c cls).filter CoreStat.counts = computeStats c cls := by
  rw [List.filter_eq_self]
  intro stat hstat
  unfold computeStats at hstat
  rcases List.mem_append.mp hstat with hstat | hstat
  · rcases List.mem_pair.mp hstat with rfl | rfl <;> rfl
  · split_ifs at hstat
    · split at hstat <;> simp_all [CoreStat.counts]
    · cases hstat

/-- What the head of the queue is counted as before its access is issued. -/
def Head.counts (c : CoreContext) (cmd : QuetzCommand) : Head → List CoreStat
  | .retire => countsOf c cmd
  | _ => []

/-- The filter and the transform count what leaves the queue without an access. -/
theorem counted_classify (c : CoreContext) (ev : PipelineEvent) (s : Pipeline) :
    (classify c ev s).2.counted =
      s.counted ++ ((classify c ev s).1.counts c ev.cmd).map fun stat => (stat, 1) := by
  rw [classify]
  cases hop : s.pendingOp with
  | some op => exact (List.append_nil _).symm
  | none =>
      obtain ⟨s₁, hfilter, -⟩ := filter_asked c ev.cmd s
      have hkeeps : (if ev.cmd.isAccess then filterHandle c ev.cmd s else
          (.forward, s)).2.counted = s.counted := by
        split_ifs
        · exact counted_filterHandle c ev.cmd s
        · rfl
      rw [hfilter] at hkeeps
      dsimp only at hkeeps
      dsimp only
      rw [hfilter]
      dsimp only
      by_cases hact : ev.cmd.isAccess = true ∧ actionOf c ev.cmd = .consume
      · have hnop : ev.cmd.cmd ≠ .nop := by
          intro hnop
          rw [QuetzCommand.isAccess, hnop] at hact
          exact absurd hact.1 (by decide)
        rw [if_pos hact, counted_addData, hkeeps, Head.counts, countsOf,
          if_neg (not_halts_of_consume hact.2), if_neg hnop]
        rfl
      rw [if_neg hact]
      by_cases hhalts : Halts c ev.cmd
      · rw [transformProcess_halts hhalts]
        exact (counted_addAll [] s₁).trans (by rw [hkeeps]; rfl)
      have hrun := hhalts
      rw [Halts, not_or] at hrun
      rw [transformProcess, if_neg hrun.1, if_neg hrun.2]
      by_cases hstall : 0 < ev.remainingStall
      · rw [if_pos hstall]
        dsimp only
        rw [counted_addAll, hkeeps, transformStats]
        split_ifs <;> rfl
      rw [if_neg hstall]
      by_cases hnop : ev.cmd.cmd = .nop
      · rw [if_pos hnop]
        dsimp only
        rw [counted_addAll, hkeeps, transformStats, filter_computeStats, Head.counts, countsOf,
          if_neg hhalts, if_pos hnop]
      · rw [if_neg hnop]
        exact (counted_addAll [] s₁).trans (by rw [hkeeps]; rfl)

/-! ### One round -/

/-- What the queue and the commands after it are still to be counted as. -/
def uncounted (c : CoreContext) (q : List PipelineEvent) (s : Pipeline)
    (rest : List QuetzCommand) : List CoreStat :=
  if s.halted then [] else upToHalt c (countsOf c) (commands q ++ rest)

/-- The counters so far and those still to come. -/
def census (c : CoreContext) (q : List PipelineEvent) (s : Pipeline) (rest : List QuetzCommand) :
    List (CoreStat × ℕ) := s.counted ++ (uncounted c q s rest).map fun stat => (stat, 1)

theorem census_of_running (hhalted : s.halted = false) (rest : List QuetzCommand) :
    census c q s rest = s.counted ++
      (upToHalt c (countsOf c) (commands q ++ rest)).map fun stat => (stat, 1) := by
  rw [census, uncounted, hhalted]
  rfl

theorem census_of_halted (hhalted : s.halted = true) (rest : List QuetzCommand) :
    census c q s rest = s.counted := by
  rw [census, uncounted, hhalted]
  exact List.append_nil _

/-- Of the head of a running queue only its count matters. -/
theorem census_head (hhalted : s.halted = false) (hgo : s'.halted = false)
    (hhalts : ¬Halts c ev.cmd)
    (hcounted : s'.counted = s.counted ++ (countsOf c ev.cmd).map fun stat => (stat, 1))
    (rest : List QuetzCommand) : census c q s' rest = census c (ev :: q) s rest := by
  rw [census_of_running hgo, census_of_running hhalted, upToHalt_head hhalts, hcounted,
    List.map_append, List.append_assoc]

/-- Without a limit on the instructions a retired command does not halt the pipeline. -/
theorem retire_unlimited (hmax : l.maxInsts = 0) (s : Pipeline) :
    retire l s = { s with instCount := s.instCount + 1 } := by
  rw [retire, checkMaxInsts, if_neg (by omega)]

theorem endTick_counted (issued : ℕ) (s : Pipeline) : (endTick issued s).counted = s.counted := by
  rw [endTick]
  split_ifs
  · rfl
  · rw [counted_addAll]
    exact List.append_nil _
  · rw [counted_addAll]
    exact List.append_nil _

theorem endTick_halted (issued : ℕ) (s : Pipeline) : (endTick issued s).halted = s.halted := by
  rw [endTick]
  split_ifs <;> rfl

theorem endTick_census (issued : ℕ) (s : Pipeline) (rest : List QuetzCommand) :
    census c (endTick issued { s with coreQ := q }).coreQ (endTick issued { s with coreQ := q })
      rest = census c q s rest := by
  rw [endTick_coreQ, census, census, endTick_counted, uncounted, uncounted, endTick_halted]
  rfl

/-- The invariant of the loop of a tick. -/
structure Counting (c : CoreContext) (total : List QuetzCommand → List (CoreStat × ℕ))
    (q : List PipelineEvent) (s : Pipeline) : Prop where
  shape : Shape c q s
  halted : s.halted = false
  fatal : s.fatal = none
  census : ∀ rest, census c q s rest = total rest

variable {total : List QuetzCommand → List (CoreStat × ℕ)}

/-- A pending access is counted once it is issued completely. -/
theorem counted_round_pending (hmax : l.maxInsts = 0) (hs : Counting c total (ev :: q) s)
    {op : MemOp} (hop : s.pendingOp = some op) (issued : ℕ) :
    (round c l (ev :: q) issued h s).Keeps (fun q _ _ s => Counting c total q s)
      (fun _ s => ∀ rest, Pipeline.census c s.coreQ s rest = total rest) := by
  obtain ⟨ev', q', hq, hissues, hopOf, hcursor⟩ := hs.shape.pending op hop
  cases hq
  have hattempt : Attempt c l op h s (issueMemOp c l op issued h s) :=
    issueMemOp_spec hcursor hs.fatal issued
  rw [round, hop]
  dsimp only
  generalize issueMemOp c l op issued h s = res at hattempt
  cases hcomplete : res.complete with
  | false =>
      obtain ⟨e, offset, fatal, -, -, -, -, hpipe⟩ := hattempt.incomplete hcomplete
      rw [if_pos (by rfl)]
      intro rest
      rw [endTick_census, ← hs.census rest, hpipe]
      rfl
  | true =>
      have hdone := hattempt.complete hcomplete
      have hmoves := hdone.moves hs.halted hs.shape hop
      obtain ⟨e, -, -, hpipe⟩ := hdone
      rw [retire_unlimited hmax] at hpipe
      have hgo : res.pipe.halted = false := by rw [hpipe]; exact hs.halted
      have hnop : ev.cmd.cmd ≠ .nop := fun hnop => hissues.1 (Or.inl hnop)
      have hcounts : countsOf c ev.cmd = [.insnCount] := by
        rw [countsOf, if_neg hissues.2.2, if_neg hnop]
      rw [if_neg (by decide), if_neg (by rw [hgo]; decide)]
      refine ⟨hmoves.shape, hgo, ?_, fun rest => ?_⟩
      · rw [hpipe]
        exact hs.fatal
      · rw [← hs.census rest]
        refine census_head hs.halted hgo hissues.2.2 ?_ rest
        rw [hpipe, hcounts]
        exact counted_addData .insnCount { s with pendingOp := none, offset := 0, emitter := e }

/-- A command without requests is counted when it leaves the queue. -/
theorem counted_round_retire (hmax : l.maxInsts = 0) (hs : Counting c total (ev :: q) s)
    (hop : s.pendingOp = none) (hasked : Asked c ev.cmd s s') (hhalts : ¬Halts c ev.cmd)
    (hnone : requestsOf c ev.cmd = [])
    (hcounted : s'.counted = s.counted ++ (countsOf c ev.cmd).map fun stat => (stat, 1)) :
    (retire l s').halted = false ∧ Counting c total q (retire l s') := by
  have hmoves := moves_retired (l := l) (h := {}) hs.halted hs.shape hop hasked hhalts hnone
  rw [retire_unlimited hmax] at hmoves ⊢
  obtain ⟨stats, -, rfl⟩ := hasked
  refine ⟨hs.halted, hmoves.shape, hs.halted, hs.fatal, fun rest => ?_⟩
  rw [← hs.census rest]
  refine census_head hs.halted ?_ hhalts hcounted rest
  exact hs.halted

/-- **One round of a tick** keeps the census. -/
theorem counted_round (hmax : l.maxInsts = 0) (q : List PipelineEvent) (issued : ℕ) (h : Host)
    (s : Pipeline) (hs : Counting c total q s) :
    (round c l q issued h s).Keeps (fun q _ _ s => Counting c total q s)
      (fun _ s => ∀ rest, Pipeline.census c s.coreQ s rest = total rest) := by
  cases q with
  | nil =>
      intro rest
      rw [endTick_census]
      exact hs.census rest
  | cons ev q =>
      cases hop : s.pendingOp with
      | some op => exact counted_round_pending hmax hs hop issued
      | none =>
          have hcounted := counted_classify c ev s
          have hclass := classify_spec c ev s
          rw [round, hop]
          dsimp only
          generalize hres : classify c ev s = res at hclass hcounted
          cases hclass with
          | pending op hsome =>
              rw [hop] at hsome
              cases hsome
          | @issues s₁ hasked hnone hissues =>
              have hissues := hissues (hs.shape.noRuns ev List.mem_cons_self)
              have hmoves := moves_pending (l := l) (h := h) hs.halted hs.shape hop hasked hissues
              obtain ⟨stats, -, rfl⟩ := hasked
              refine ⟨hmoves.shape, hs.halted, hs.fatal, fun rest => ?_⟩
              rw [← hs.census rest, census_of_running hs.halted,
                census_of_running (by exact hs.halted), hcounted]
              simp only [Head.counts, List.map_nil, List.append_nil]
          | @consumed s₁ hasked hnone hact =>
              obtain ⟨hgo, hnext⟩ := counted_round_retire hmax hs hop hasked
                (not_halts_of_consume hact) (if_neg fun hissues => hissues.2.1 hact) hcounted
              dsimp only
              rw [if_neg (by rw [hgo]; decide)]
              exact hnext
          | @noop s₁ hasked hnone hnop =>
              have hcompute : ev.cmd.isCompute = true := by rw [QuetzCommand.isCompute, hnop]; rfl
              obtain ⟨hgo, hnext⟩ := counted_round_retire hmax hs hop hasked
                (not_halts_of_isCompute hcompute) (requestsOf_of_isCompute hcompute) hcounted
              dsimp only
              rw [if_neg (by rw [hgo]; decide)]
              exact hnext
          | @stalls s₁ n hasked hnone hact hhalts =>
              obtain ⟨stats, -, rfl⟩ := hasked
              intro rest
              rw [endTick_census, ← hs.census rest, census_of_running hs.halted,
                census_of_running (by exact hs.halted), hcounted]
              simp only [Head.counts, List.map_nil, List.append_nil]
              rfl
          | @halts s₁ hasked hnone hhalts =>
              intro rest
              have hcounts : countsOf c ev.cmd = [] := if_pos hhalts
              rw [census_of_halted rfl, ← hs.census rest, census_of_running hs.halted, commands,
                List.map_cons, List.cons_append, upToHalt, if_pos hhalts, hcounts]
              exact hcounted

/-! ### Runs -/

/-- Taking events off a feed leaves the rest of it. -/
theorem takeFeed_append (n : ℕ) (evs : List PipelineEvent) :
    (takeFeed n evs).1 ++ (takeFeed n evs).2 = evs := by
  induction n generalizing evs with
  | zero => rfl
  | succ n ih =>
      cases evs with
      | nil => rfl
      | cons ev evs =>
          rw [takeFeed]
          split_ifs
          · rfl
          · rw [List.cons_append, ih]

/-- The queue and the commands that the ring and the compute run still lead to. -/
def ahead (ring : List QuetzCommand) (s : Pipeline) : List QuetzCommand :=
  commands (feed default ring s)

theorem commands_feed (ring : List QuetzCommand) (s : Pipeline) :
    commands (feed l ring s) = ahead ring s := by
  rw [ahead, feed, feed, commands_append, commands_append, commands_events, commands_events]

theorem ahead_append (ring cmds : List QuetzCommand) (s : Pipeline) :
    ahead (ring ++ cmds) s = ahead ring s ++ unrolled cmds := by
  rw [ahead, feed, List.flatMap_append, ← List.append_assoc, commands_append, commands_events]
  rfl

/-- A refill moves commands into the queue. -/
theorem refill_ahead (hnop : s.runNop.cmd = .nop) (ring : List QuetzCommand) :
    commands (refill l ring s).2.coreQ ++ ahead (refill l ring s).1 (refill l ring s).2 =
      commands s.coreQ ++ ahead ring s := by
  have hfill := refill_spec (l := l) ring hnop
  generalize refill l ring s = filled at hfill
  have hqueue : filled.2.coreQ =
      s.coreQ ++ (takeFeed (l.maxQueueLen - s.coreQ.length) (feed l ring s)).1 := by
    rw [hfill.pipe]
  rw [← commands_feed (l := l) filled.1 filled.2, ← hfill.rest, hqueue, commands_append,
    List.append_assoc, ← commands_append, takeFeed_append, commands_feed]

/-- What the ring still leads to depends on the compute run only. -/
theorem ahead_congr (h : s'.runPart = s.runPart) (ring : List QuetzCommand) :
    ahead ring s' = ahead ring s := by
  obtain ⟨hnop, hstall, hremaining, -⟩ := RunPart.mk.inj h
  rw [ahead, ahead, feed, feed, hnop, hstall, hremaining]

/-- **A tick** keeps the census of the queue and what comes after it. -/
theorem tick_census (hmax : l.maxInsts = 0) (hok : Ok c l s) (h : Host) (ring : List QuetzCommand)
    (rest : List QuetzCommand) {res : Host × List QuetzCommand × Pipeline}
    (hres : tick c l h ring s = res) :
    census c res.2.2.coreQ res.2.2 (ahead res.2.1 res.2.2 ++ rest) =
      census c s.coreQ s (ahead ring s ++ rest) := by
  obtain rfl := hres
  rw [tick]
  by_cases hstop : s.halted = true ∨ s.fatal.isSome = true
  · rw [if_pos hstop]
  rw [if_neg hstop]
  rw [not_or, Bool.not_eq_true, Option.not_isSome_iff_eq_none] at hstop
  have hrefills := refill_refills (l := l) ring hok
  have hahead := refill_ahead (l := l) hok.nop ring
  have hpipe := (refill_spec (l := l) ring hok.nop).pipe
  generalize refill l ring s = filled at hrefills hahead hpipe
  have hgo : filled.2.halted = false := hrefills.halted.trans hstop.1
  have hcounted : filled.2.counted = s.counted := by rw [hpipe]; rfl
  dsimp only
  generalize hstart : { filled.2 with
    refillHitCap := decide (l.maxQueueLen ≤ filled.2.coreQ.length) } = start
  have hrun : start.runPart = filled.2.runPart := by rw [← hstart]; rfl
  have hcensus : ∀ rest, census c filled.2.coreQ start rest =
      census c filled.2.coreQ filled.2 rest := by
    intro rest
    rw [← hstart]
    rfl
  have hloop : Counting c (census c filled.2.coreQ filled.2) filled.2.coreQ start := by
    refine ⟨?_, ?_, ?_, hcensus⟩
    · rw [← hstart]
      exact hrefills.ok.shape.congr rfl rfl
    · rw [← hstart]
      exact hgo
    · rw [← hstart]
      exact hrefills.fatal.trans hstop.2
  have hend : ∀ rest, census c (issueLoop c l filled.2.coreQ 0 h start).2.coreQ
      (issueLoop c l filled.2.coreQ 0 h start).2 rest = census c filled.2.coreQ filled.2 rest :=
    issueLoop_rule (counted_round hmax) hloop
  have hpart := issueLoop_runPart (c := c) (l := l) filled.2.coreQ 0 h start
  rw [hend, ahead_congr (hpart.trans hrun), census_of_running hgo, census_of_running hstop.1,
    hcounted, ← List.append_assoc, hahead, List.append_assoc]

/-- A response counts no instruction. -/
theorem handleMemResponse_counted (id : ℕ) (resp : Response) (s : Pipeline) :
    (handleMemResponse id resp s).counted = s.counted := by
  unfold handleMemResponse
  dsimp only
  cases (s.emitter.handleResponse id).1 with
  | none => rfl
  | some info =>
      have hlatency : ∀ isMmio isRead, (latencyStat isMmio isRead).counts = false := by decide
      dsimp only
      rw [counted, List.filter_append, List.filter_singleton, hlatency]
      exact List.append_nil _

end Pipeline

namespace CoreRun

open Pipeline

variable {c : CoreContext} {l : PipelineLimits} {r : CoreRun}

/-- The invariant of a run: the census is the count of the stream, whatever comes after it. -/
def Counted (c : CoreContext) (stream : List QuetzCommand) (r : CoreRun) : Prop :=
  ∀ rest, census c r.pipe.coreQ r.pipe (ahead r.ring r.pipe ++ rest) =
    (upToHalt c (countsOf c) (unrolled stream ++ rest)).map fun stat => (stat, 1)

/-- **One event.** -/
theorem Counted.step (hmax : l.maxInsts = 0) {stream : List QuetzCommand}
    (hcounted : Counted c stream r) (hok : Ok c l stream r) (e : CoreEvent) :
    Counted c (stream ++ pushed [e]) (r.step c l e) := by
  cases e with
  | push cmds =>
      have hpushed : pushed [.push cmds] = cmds := List.append_nil _
      intro rest
      rw [hpushed, unrolled_append, List.append_assoc, ← hcounted, ← List.append_assoc]
      exact congrArg (fun q => census c r.pipe.coreQ r.pipe (q ++ rest))
        (ahead_append r.ring cmds r.pipe)
  | tick now =>
      have hpipe : (r.pipeAt now).Ok c l := hok.pipe.quiet rfl
      intro rest
      rw [show stream ++ pushed [.tick now] = stream from List.append_nil _, ← hcounted]
      exact tick_census hmax hpipe r.host r.ring rest rfl
  | answer now i data =>
      intro rest
      rw [show stream ++ pushed [.answer now i data] = stream from List.append_nil _, ← hcounted,
        CoreRun.step]
      cases r.host.inFlight[i]? with
      | none => rfl
      | some req =>
          have hsame := handleMemResponse_counted req.id (req.body.response data) (r.pipeAt now)
          obtain ⟨e, stats, hframe, -⟩ :=
            handleMemResponse_frame req.id (req.body.response data) (r.pipeAt now)
          dsimp only
          rw [hframe] at hsame ⊢
          rw [census, census, hsame]
          rfl
  | send vcpu link body =>
      rw [show stream ++ pushed [.send vcpu link body] = stream from List.append_nil _]
      exact hcounted

/-- **A whole run.** -/
theorem Counted.run (hmax : l.maxInsts = 0) (es : List CoreEvent) :
    ∀ {r : CoreRun} {stream : List QuetzCommand}, Counted c stream r → Ok c l stream r →
    Counted c (stream ++ pushed es) (r.run c l es) := by
  induction es with
  | nil =>
      intro r stream hcounted hok
      simpa [pushed, CoreRun.run] using hcounted
  | cons e es ih =>
      intro r stream hcounted hok
      have hrest := ih (hcounted.step hmax hok e) (hok.step e)
      have hpushed : pushed (e :: es) = pushed [e] ++ pushed es := by
        simp [pushed]
      rw [List.append_assoc, ← hpushed] at hrest
      exact hrest

/-- The counters of a run are a beginning of those of the stream, and all of them once the run
halted. -/
theorem run_counts (hmax : l.maxInsts = 0) (h : Host) (es : List CoreEvent)
    {stream : List QuetzCommand} (hstream : pushed es <+: stream) :
    (run c l { host := h } es).pipe.counted <+:
        (referenceCounts c stream).map (fun stat => (stat, 1)) ∧
      ((run c l { host := h } es).pipe.halted = true → (run c l { host := h } es).pipe.counted =
        (referenceCounts c stream).map fun stat => (stat, 1)) := by
  have hstart : Counted c [] { host := h } := fun rest => rfl
  have hcounted := hstart.run hmax es ⟨ok_start c l, rfl⟩
  rw [List.nil_append] at hcounted
  obtain ⟨more, rfl⟩ := hstream
  have hall := hcounted (unrolled more)
  rw [← unrolled_append] at hall
  rw [referenceCounts, ← hall]
  refine ⟨List.prefix_append .., fun hhalted => ?_⟩
  rw [census_of_halted hhalted]

/-- **Limits change timing, not counts.** Two runs of cores with any limits, latencies, schedules of
the ring and of the responses, on beginnings of one stream: the instruction counters of both are fed
with the instructions of the stream, in order, a computation with its class and an access once,
however many requests it takes. If both halted, the counters are the same, and those of the whole
stream up to the access that ends the run. -/
theorem counts_independent_of_limits (c : CoreContext) (l₁ l₂ : PipelineLimits)
    (hl₁ : l₁.maxInsts = 0) (hl₂ : l₂.maxInsts = 0) (stream : List QuetzCommand) (h₁ h₂ : Host)
    (es₁ es₂ : List CoreEvent) (hes₁ : pushed es₁ <+: stream) (hes₂ : pushed es₂ <+: stream) :
    let counts := (referenceCounts c stream).map fun stat => (stat, 1)
    let r₁ := run c l₁ { host := h₁ } es₁
    let r₂ := run c l₂ { host := h₂ } es₂
    r₁.pipe.counted <+: counts ∧ r₂.pipe.counted <+: counts ∧
      (r₁.pipe.halted = true → r₂.pipe.halted = true →
        r₁.pipe.counted = counts ∧ r₂.pipe.counted = r₁.pipe.counted) := by
  obtain ⟨hprefix₁, hhalted₁⟩ := run_counts (c := c) hl₁ h₁ es₁ hes₁
  obtain ⟨hprefix₂, hhalted₂⟩ := run_counts (c := c) hl₂ h₂ es₂ hes₂
  refine ⟨hprefix₁, hprefix₂, fun hend₁ hend₂ => ⟨hhalted₁ hend₁, ?_⟩⟩
  rw [hhalted₁ hend₁, hhalted₂ hend₂]

/-- The read, the three computations and the consumed write are counted, the write that ends the
run is not. -/
theorem counts_independent_of_limits_pages :
    (run pagesContext {} {} wideEvents).pipe.counted =
      [(.insnCount, 1), (.noopCount, 1), (.insnCount, 1), (.noopCount, 1), (.insnCount, 1),
        (.noopCount, 1), (.insnCount, 1), (.insnCount, 1)] ∧
    (run pagesContext narrowLimits {} narrowEvents).pipe.counted =
      (run pagesContext {} {} wideEvents).pipe.counted := by
  have hhalted₁ : (run pagesContext {} {} wideEvents).pipe.halted = true := by decide +kernel
  have hhalted₂ : (run pagesContext narrowLimits {} narrowEvents).pipe.halted = true := by
    decide +kernel
  obtain ⟨hall, hsame⟩ := (counts_independent_of_limits pagesContext {} narrowLimits rfl rfl
    pagesStream {} {} wideEvents narrowEvents (by decide +kernel) (by decide +kernel)).2.2
    hhalted₁ hhalted₂
  refine ⟨hall.trans ?_, hsame⟩
  decide +kernel

end CoreRun

end Quetz
