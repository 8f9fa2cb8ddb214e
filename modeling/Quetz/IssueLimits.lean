import Quetz.IssueWindows
import Quetz.PipelineBound
import Quetz.PipelineRounds

/-!
# The Limits of the Pipeline

The limits of `QuetzCoreContext`: the requests of a tick, the requests without an answer and the
length of the staging queue. The budget of an attempt is what is left of the first two, so they hold
after every round of a tick, and an attempt with a budget issues something, so an access that is
wider than both limits goes on. The instructions that retired are those of the statistic.

## Main results

* `issueMemOp_parts`: an attempt stays in its budget and is not fatal for it.
* `round_keeps`: one round of a tick.
* `issue_limits`: the limits hold in every run.
-/

namespace Quetz

open MemRequestEmitter Tiling

/-! ### Counted requests -/

namespace MemRequestEmitter

variable {c : CoreContext} {h h' : Host} {e e' : MemRequestEmitter}

/-- The requests that were sent are counted. -/
theorem Emitted.count (hem : Emitted c h e h' e') :
    e'.pendingCount + e.traffic.length = e.pendingCount + e'.traffic.length := by
  induction hem with
  | refl => rfl
  | addData stat n _ ih => exact ih
  | emit link body _ ih =>
      rw [traffic_emit, List.length_append, List.length_singleton, ← Nat.add_assoc, ← ih]
      exact Nat.add_right_comm ..

/-- The requests that were sent stay sent. -/
theorem Emitted.sends (hem : Emitted c h e h' e') : e.traffic <+: e'.traffic := by
  induction hem with
  | refl => exact List.prefix_rfl
  | addData stat n _ ih => exact ih
  | emit link body _ ih =>
      rw [traffic_emit]
      exact ih.trans (List.prefix_append ..)

/-! ### Requests without an answer -/

/-- The requests of the emitter that wait for their answer. -/
def unanswered (h : Host) (e : MemRequestEmitter) : List Request :=
  h.inFlight.filter fun r => decide (r ∈ e.issued)

/-- What the emitter tracks is a request of its own in flight. -/
def Backed (h : Host) (e : MemRequestEmitter) : Prop :=
  ∀ p ∈ e.pendingTxns, ∃ r ∈ e.issued, r ∈ h.inFlight ∧ r.id = p.id

/-- Requests of others are sent. -/
theorem Backed.grows (hb : Backed h e) (hg : h.Grows h') : Backed h' e := by
  obtain ⟨news, heq, -⟩ := hg.inFlight
  intro p hp
  obtain ⟨r, hr, hflight, hid⟩ := hb p hp
  exact ⟨r, hr, by rw [heq]; exact List.mem_append_left _ hflight, hid⟩

theorem Backed.emit (hb : Backed h e) (c : CoreContext) (link : Link) (body : Body) :
    Backed (emit c link body h e).1 (emit c link body h e).2 := by
  intro p hp
  rcases List.mem_append.mp hp with hp | hp
  · obtain ⟨r, hr, hflight, hid⟩ := hb p hp
    exact ⟨r, List.mem_append_left _ hr, List.mem_append_left _ hflight, hid⟩
  · rw [List.mem_singleton.mp hp]
    exact ⟨_, List.mem_append_right _ (List.mem_singleton_self _),
      List.mem_append_right _ (List.mem_singleton_self _), rfl⟩

theorem Emitted.backed (hem : Emitted c h e h' e') (hb : Backed h e) : Backed h' e' := by
  induction hem with
  | refl => exact hb
  | addData stat n _ ih => exact ih
  | emit link body _ ih => exact ih.emit c link body

theorem Emitted.ok (hem : Emitted c h e h' e') (hok : h.Ok) : h'.Ok := by
  induction hem with
  | refl => exact hok
  | addData stat n _ ih => exact ih
  | emit link body _ ih => exact ih.send _ _ _

/-- A response takes its request off the list. -/
theorem Backed.response (hb : Backed h e) (hok : h.Ok) {i : ℕ} {r : Request}
    (hi : h.inFlight[i]? = some r) : Backed (h.take i) (e.handleResponse r.id).2 := by
  have hkept : ∀ p ∈ e.pendingTxns, p.id ≠ r.id →
      ∃ r' ∈ e.issued, r' ∈ (h.take i).inFlight ∧ r'.id = p.id := by
    intro p hp hne
    obtain ⟨r', hr', hflight, hid⟩ := hb p hp
    refine ⟨r', hr', ?_, hid⟩
    rcases List.mem_cons.mp ((hok.taken hi).1.mem_iff.mpr hflight) with rfl | hmem
    · exact absurd hid.symm hne
    · exact hmem
  rw [handleResponse]
  cases hfind : e.pendingTxns.find? fun p => p.id == r.id with
  | none =>
      intro p hp
      have hne := List.find?_eq_none.mp hfind p hp
      exact hkept p hp (by simpa using hne)
  | some first =>
      intro p hp
      obtain ⟨hp, hne⟩ := List.mem_filter.mp hp
      exact hkept p hp (by simpa using hne)

/-- **The emitter tracks the requests without an answer**, one entry for each. -/
theorem unanswered_perm (hok : h.Ok) (ht : Tracks h e) (hb : Backed h e) :
    ((unanswered h e).map Request.id).Perm (e.pendingTxns.map QuetzPendingReq.id) := by
  have hnodup : ((unanswered h e).map Request.id).Nodup :=
    hok.nodup.sublist (List.filter_sublist.map _)
  refine (List.perm_ext_iff_of_nodup hnodup ht.nodup).mpr fun id => ?_
  simp only [unanswered, List.mem_map, List.mem_filter, decide_eq_true_eq]
  constructor
  · rintro ⟨r, ⟨hflight, hissued⟩, rfl⟩
    exact ht.waits r hissued hflight
  · rintro ⟨p, hp, rfl⟩
    obtain ⟨r, hissued, hflight, hid⟩ := hb p hp
    exact ⟨r, ⟨hflight, hissued⟩, hid⟩

end MemRequestEmitter

namespace Pipeline

variable {c : CoreContext} {l : PipelineLimits} {op : MemOp} {h : Host} {s : Pipeline}
  {ev : PipelineEvent} {q : List PipelineEvent}

/-! ### One attempt -/

/-- The budget of an attempt. -/
def budgetOf (l : PipelineLimits) (issued : ℕ) (s : Pipeline) : ℕ :=
  min (l.maxIssuePerCycle - issued) (l.maxPending - s.emitter.pendingCount)

/-- An attempt without a budget. -/
theorem issueMemOp_idle {issued : ℕ} (hbudget : budgetOf l issued s = 0) :
    issueMemOp c l op issued h s = ⟨false, issued, h, s⟩ := if_pos hbudget

/-- An attempt whose window fails. -/
theorem issueMemOp_error {issued : ℕ} (hbudget : 0 < budgetOf l issued s) {f : PipelineFatal}
    (hw : issueWindow c op s.offset (budgetOf l issued s) h s.emitter = .error f) :
    issueMemOp c l op issued h s = ⟨false, issued, h, { s with fatal := some f }⟩ := by
  have havail : issueAvailable c op (budgetOf l issued s) h s = .error f := by
    rw [issueAvailable]
    rw [issueWindow] at hw
    rw [hw]
  rw [budgetOf] at hbudget havail
  rw [issueMemOp, if_neg (Nat.ne_of_gt hbudget), havail]

/-- An attempt whose window opens: it completes the access or leaves the rest of it pending. -/
theorem issueMemOp_ok {issued : ℕ} (hc : op.Cursor s.offset) (hbudget : 0 < budgetOf l issued s)
    {w : Window}
    (hw : issueWindow c op s.offset (budgetOf l issued s) h s.emitter = .ok w) :
    issueMemOp c l op issued h s =
      if w.offset = op.size then ⟨true, issued + w.parts, w.host, retire l (addData .insnCount
        { s with pendingOp := none, offset := 0, emitter := w.emitter })⟩
      else ⟨false, issued + w.parts, w.host,
        { s with offset := w.offset, emitter := w.emitter }⟩ := by
  have hadv := issueWindow_advances hc hbudget hw
  have hparts := hadv.parts_le
  have havail : issueAvailable c op (budgetOf l issued s) h s =
      .ok (w.parts, decide (w.offset = op.size), w.host,
        { s with offset := if w.offset = op.size then 0 else w.offset, emitter := w.emitter }) := by
    rw [issueAvailable]
    rw [issueWindow] at hw
    rw [hw]
    simp
  rw [budgetOf] at hbudget havail hparts
  rw [issueMemOp, if_neg (Nat.ne_of_gt hbudget), havail]
  dsimp only
  rw [if_neg (Nat.not_lt.mpr hparts)]
  by_cases hend : w.offset = op.size
  · simp [hend]
  · obtain ⟨hpos, -⟩ := hadv.incomplete hend
    rw [if_neg (by omega)]
    simp [hend]

/-- An attempt issued some requests, in its budget. An access that fits and has its link goes on if
there is a budget. -/
structure Parts (c : CoreContext) (l : PipelineLimits) (op : MemOp) (issued : ℕ) (s : Pipeline)
    (r : Issue) (parts : ℕ) : Prop where
  counted : r.issued = issued + parts
  budget : parts ≤ budgetOf l issued s
  sent : r.pipe.emitter.traffic.length = s.emitter.traffic.length + parts
  fatal : r.pipe.fatal ≠ some .exceededBudget ∧ r.pipe.fatal ≠ some .cannotSplit
  begun : r.pipe.offset ≠ 0 → s.offset ≠ 0 ∨ linked c op = true
  moves : op.Fits → linked c op = true → op.size ≠ 0 → 0 < budgetOf l issued s → 0 < parts

/-- **An attempt stays in its budget**, and one with a budget issues something. -/
theorem issueMemOp_parts (hc : op.Cursor s.offset) (hfatal : s.fatal = none) (issued : ℕ) :
    ∃ parts, Parts c l op issued s (issueMemOp c l op issued h s) parts := by
  rcases Nat.eq_zero_or_pos (budgetOf l issued s) with hzero | hbudget
  · rw [issueMemOp_idle hzero]
    refine ⟨0, rfl, Nat.zero_le _, rfl, by simp [hfatal], Or.inl, fun _ _ _ hpos => ?_⟩
    exact absurd hzero (Nat.ne_of_gt hpos)
  cases hw : issueWindow c op s.offset (budgetOf l issued s) h s.emitter with
  | error f =>
      have hne := windowFatal_ne c op
      rw [← issueWindow_fatal hbudget hw] at hne
      rw [issueMemOp_error hbudget hw]
      refine ⟨0, rfl, Nat.zero_le _, rfl, by simpa using hne, Or.inl, fun hfits hlink => ?_⟩
      exact absurd ⟨hfits, hlink⟩ (window_error hw)
  | ok w =>
      have hadv := issueWindow_advances hc hbudget hw
      have hsent := issueWindow_sent hbudget hw
      rw [issueMemOp_ok hc hbudget hw]
      have hmoves : op.Fits → linked c op = true → op.size ≠ 0 → 0 < budgetOf l issued s →
          0 < w.parts := fun _ _ hsize _ => hadv.parts_pos hc hsize hsent
      by_cases hend : w.offset = op.size
      · obtain ⟨halted, hretire, -⟩ := retire_eq l (addData .insnCount
          { s with pendingOp := none, offset := 0, emitter := w.emitter })
        rw [if_pos hend, hretire]
        exact ⟨w.parts, rfl, hadv.parts_le, hsent, by simp [addData, hfatal],
          fun hne => absurd rfl hne,
          hmoves⟩
      · rw [if_neg hend]
        refine ⟨w.parts, rfl, hadv.parts_le, hsent, by simp [hfatal], fun hne => Or.inr ?_, hmoves⟩
        have hcursor := (hadv.incomplete hend).2.1
        have hcap := op.captured_le
        have hle := hcursor.le
        exact (issueWindow_good (by change w.offset ≠ 0 at hne; omega) hbudget hw).2

/-! ### Retired instructions -/

/-- The instructions that retired are those of the statistic, and a limit on them holds; it halts
the pipeline when it is reached. -/
structure Retired (l : PipelineLimits) (s : Pipeline) : Prop where
  counted : s.instCount = tally .insnCount s.stats
  capped : 0 < l.maxInsts → s.instCount ≤ l.maxInsts ∧ (s.halted = false → s.instCount < l.maxInsts)

/-- An instruction retires that the statistic has counted. -/
theorem Retired.retire {s₁ : Pipeline} (hr : Retired l s) (hhalted : s.halted = false)
    (hcount : s₁.instCount = s.instCount)
    (htally : tally .insnCount s₁.stats = tally .insnCount s.stats + 1) :
    Retired l (retire l s₁) := by
  have hcapped := hr.capped
  have hcounted := hr.counted
  rw [Pipeline.retire, checkMaxInsts]
  split_ifs with hlimit
  · refine ⟨?_, fun hpos => ⟨?_, fun hlive => by cases hlive⟩⟩
    · dsimp only
      omega
    · have hlt := (hcapped hpos).2 hhalted
      dsimp only
      omega
  · refine ⟨?_, fun hpos => ?_⟩
    · dsimp only
      omega
    · dsimp only at hlimit ⊢
      omega

/-- The end of a tick feeds other statistics. -/
theorem endTick_eq (issued : ℕ) (s : Pipeline) : ∃ stats,
    endTick issued s = { s with stats := stats } ∧
      tally .insnCount stats = tally .insnCount s.stats := by
  rw [endTick]
  split_ifs
  · exact ⟨s.stats, rfl, rfl⟩
  · exact ⟨_, rfl, by simp [tally]⟩
  · exact ⟨_, rfl, by simp [tally]⟩

/-- The total of a statistic that is fed with ones. -/
theorem tally_ones (stat : CoreStat) (stats : List CoreStat) :
    tally stat (stats.map fun stat => (stat, 1)) = stats.count stat := by
  induction stats with
  | nil => rfl
  | cons other stats ih =>
      rw [List.map_cons, ← List.singleton_append, tally_append, ih, tally_singleton,
        List.count_cons, Nat.add_comm]
      simp

theorem count_computeStats (c : CoreContext) (insnClass : ℕ) :
    (computeStats c insnClass).count .insnCount = 1 := by
  unfold computeStats
  dsimp only
  split_ifs
  · split <;> rfl
  · rfl

/-- What the transform feeds counts an instruction if it was consumed. -/
theorem count_transformStats (c : CoreContext) (ev : PipelineEvent) (r : TransformResult) :
    (transformStats c ev r).count .insnCount = if r = .consumedNoop then 1 else 0 := by
  cases r with
  | stall ev' =>
      have hstall : TransformResult.stall ev' ≠ .consumedNoop := nofun
      rw [transformStats, if_neg hstall]
      split_ifs <;> rfl
  | consumedNoop =>
      rw [if_pos rfl]
      exact count_computeStats c ev.cmd.insnClass
  | emitMemop op => rfl
  | haltExit => rfl

/-- The filter feeds the counters of the region handlers. -/
theorem filter_counts (c : CoreContext) (cmd : QuetzCommand) (s : Pipeline) :
    let filtered := if cmd.isAccess then filterHandle c cmd s else (.forward, s)
    tally .insnCount filtered.2.stats = tally .insnCount s.stats ∧
      filtered.2.instCount = s.instCount := by
  dsimp only
  split_ifs
  · rw [filterHandle]
    cases c.regionTable with
    | none => exact ⟨rfl, rfl⟩
    | some table =>
        dsimp only
        cases (handleMemoryAccess table c.filterUnmatchedRegions cmd).stat with
        | none => exact ⟨rfl, rfl⟩
        | some stat => exact ⟨by simp [addData], rfl⟩
  · exact ⟨rfl, rfl⟩

/-- The head of the queue is counted when it is retired without an access. -/
theorem classify_counts (c : CoreContext) (ev : PipelineEvent) (s : Pipeline) :
    let res := classify c ev s
    tally .insnCount res.2.stats = tally .insnCount s.stats + (if res.1 = .retire then 1 else 0) ∧
      res.2.instCount = s.instCount := by
  rw [classify]
  cases s.pendingOp with
  | some op => exact ⟨rfl, rfl⟩
  | none =>
      obtain ⟨hstats, hcount⟩ := filter_counts c ev.cmd s
      dsimp only
      generalize (if ev.cmd.isAccess then filterHandle c ev.cmd s else (.forward, s)) =
        filtered at *
      by_cases hconsume : ev.cmd.isAccess = true ∧ filtered.1 = .consume
      · rw [if_pos hconsume]
        exact ⟨by simp [addData, hstats], hcount⟩
      · rw [if_neg hconsume]
        generalize transformProcess ev filtered.1 = result
        have hadd : tally .insnCount (addAll (transformStats c ev result) filtered.2).stats =
            tally .insnCount s.stats + if result = .consumedNoop then 1 else 0 := by
          rw [addAll, tally_append, tally_ones, hstats, count_transformStats]
        cases result with
        | haltExit => exact ⟨by simpa using hadd, hcount⟩
        | stall ev' => exact ⟨by simpa using hadd, hcount⟩
        | consumedNoop => exact ⟨by simpa using hadd, hcount⟩
        | emitMemop op => exact ⟨by simpa using hadd, hcount⟩

/-! ### Refills -/

/-- What a refill leaves alone, and the length of the queue. -/
structure Filled (l : PipelineLimits) (s s' : Pipeline) : Prop where
  pendingOp : s'.pendingOp = s.pendingOp
  offset : s'.offset = s.offset
  retired : Retired l s → Retired l s'
  queue : s.coreQ.length ≤ l.maxQueueLen → s'.coreQ.length ≤ l.maxQueueLen

theorem Filled.trans {s₁ s₂ : Pipeline} (h₀₁ : Filled l s s₁) (h₁₂ : Filled l s₁ s₂) :
    Filled l s s₂ where
  pendingOp := h₁₂.pendingOp.trans h₀₁.pendingOp
  offset := h₁₂.offset.trans h₀₁.offset
  retired hs := h₁₂.retired (h₀₁.retired hs)
  queue hs := h₁₂.queue (h₀₁.queue hs)

theorem drainRun_filled (l : PipelineLimits) (s : Pipeline) : Filled l s (drainRun l s) := by
  refine ⟨rfl, rfl, fun hs => ⟨hs.counted, hs.capped⟩, fun hs => ?_⟩
  rw [drainRun, drainRunLoop_eq]
  simp only [List.length_append, List.length_replicate]
  omega

theorem startRun_filled (l : PipelineLimits) (cmd : QuetzCommand) (s : Pipeline) :
    Filled l s (startRun l cmd { s with read := s.read ++ [cmd] }) :=
  ⟨rfl, rfl, fun hs => ⟨hs.counted, hs.capped⟩, id⟩

theorem refillLoop_filled (ring : List QuetzCommand) : ∀ s : Pipeline,
    Filled l s (refillLoop l ring s).2 := by
  induction ring with
  | nil => exact fun s => ⟨rfl, rfl, id, id⟩
  | cons cmd ring ih =>
      intro s
      rw [refillLoop]
      by_cases hroom : s.coreQ.length < l.maxQueueLen ∧ s.runRemaining = 0
      · rw [if_pos hroom]
        dsimp only
        by_cases hrun : cmd.cmd = .computeRun
        · rw [if_pos hrun]
          exact ((startRun_filled l cmd s).trans (drainRun_filled l _)).trans (ih _)
        · have hread : Filled l s { s with
              read := s.read ++ [cmd]
              coreQ := s.coreQ ++ [⟨cmd, stallOf l cmd⟩] } := by
            refine ⟨rfl, rfl, fun hs => ⟨hs.counted, hs.capped⟩, fun _ => ?_⟩
            rw [List.length_append, List.length_singleton]
            exact hroom.1
          rw [if_neg hrun]
          by_cases hexit : cmd.cmd = .exit
          · rw [if_pos hexit]
            exact hread
          · rw [if_neg hexit]
            exact hread.trans (ih _)
      · rw [if_neg hroom]
        exact ⟨rfl, rfl, id, id⟩

/-- **A refill** does not fill the queue beyond its limit. -/
theorem refill_filled (ring : List QuetzCommand) (s : Pipeline) : Filled l s (refill l ring s).2 :=
  (drainRun_filled l s).trans (refillLoop_filled ring _)

/-! ### The rounds of a tick -/

/-- The limits in a tick that started with `start` requests sent, for the queue `q`. -/
structure Limited (c : CoreContext) (l : PipelineLimits) (start : ℕ) (q : List PipelineEvent)
    (s : Pipeline) : Prop where
  begun : ∀ op, s.pendingOp = some op → s.offset ≠ 0 → linked c op = true
  stopped : s.halted = true → s.pendingOp = none
  fatal : s.fatal ≠ some .exceededBudget ∧ s.fatal ≠ some .cannotSplit
  sent : s.emitter.traffic.length ≤ start + l.maxIssuePerCycle
  pending : s.emitter.pendingCount ≤ l.maxPending
  retired : Retired l s
  queue : q.length ≤ l.maxQueueLen

/-- Before a round of a tick with `issued` requests so far. -/
structure AtRound (c : CoreContext) (l : PipelineLimits) (start : ℕ) (q : List PipelineEvent)
    (issued : ℕ) (h : Host) (s : Pipeline) : Prop where
  limited : Limited c l start q s
  halted : s.halted = false
  fatal : s.fatal = none
  shape : Shape c q s
  issued_le : issued ≤ l.maxIssuePerCycle
  sent : s.emitter.traffic.length = start + issued

/-- The end of a tick. -/
theorem Limited.endTick {start : ℕ} (hl : Limited c l start q s) (issued : ℕ) :
    Limited c l start (endTick issued { s with coreQ := q }).coreQ
      (endTick issued { s with coreQ := q }) := by
  obtain ⟨stats, htick, htally⟩ := endTick_eq issued { s with coreQ := q }
  rw [htick]
  exact ⟨hl.begun, hl.stopped, hl.fatal, hl.sent, hl.pending, ⟨hl.retired.counted.trans htally.symm,
    hl.retired.capped⟩, hl.queue⟩

/-- The requests of an attempt are in the limits. -/
theorem Parts.limits {start issued parts : ℕ} {r : Issue} (hp : Parts c l op issued s r parts)
    (hs : AtRound c l start q issued h s) (hem : Emitted c h s.emitter r.host r.pipe.emitter) :
    r.issued ≤ l.maxIssuePerCycle ∧ r.pipe.emitter.traffic.length = start + r.issued ∧
      r.pipe.emitter.pendingCount ≤ l.maxPending := by
  have hbudget := hp.budget
  have hcounted := hp.counted
  have hsent := hp.sent
  have hcount := hem.count
  have hstart := hs.sent
  have hle := hs.issued_le
  have hpending := hs.limited.pending
  rw [budgetOf] at hbudget
  omega

/-- The attempt on the pending access. -/
theorem round_pending {start issued : ℕ} (hs : AtRound c l start (ev :: q) issued h s)
    (hop : s.pendingOp = some op) :
    (round c l (ev :: q) issued h s).Keeps (AtRound c l start)
      (fun _ s => Limited c l start s.coreQ s) := by
  obtain ⟨-, -, -, -, -, hcursor⟩ := hs.shape.pending op hop
  obtain ⟨parts, hparts⟩ := issueMemOp_parts (c := c) (l := l) (h := h) hcursor hs.fatal issued
  have hattempt : Attempt c l op h s (issueMemOp c l op issued h s) :=
    issueMemOp_spec hcursor hs.fatal issued
  have hqueue := hs.limited.queue
  rw [round, hop]
  dsimp only
  generalize issueMemOp c l op issued h s = res at hparts hattempt
  cases hcomplete : res.complete with
  | false =>
      have hpost := hattempt.incomplete hcomplete
      obtain ⟨e, offset, fatal, hem, -, -, -, hpipe⟩ := hpost
      have hemitter : res.pipe.emitter = e := by rw [hpipe]
      rw [← hemitter] at hem
      obtain ⟨hle, hsent, hpending⟩ := hparts.limits hs hem
      have hlimited : Limited c l start (ev :: q) res.pipe := by
        have hgo : res.pipe.halted = false := by
          rw [hpipe]
          exact hs.halted
        refine ⟨fun op' hop' hoff => ?_, fun hstop => ?_, hparts.fatal, by omega, hpending, ?_,
          hqueue⟩
        · have hsame : s.pendingOp = some op' := by
            rw [hpipe] at hop'
            exact hop'
          obtain rfl : op = op' := Option.some.inj (hop.symm.trans hsame)
          rcases hparts.begun hoff with hbegun | hlink
          · exact hs.limited.begun op hop hbegun
          · exact hlink
        · rw [hgo] at hstop
          cases hstop
        · rw [hpipe]
          exact ⟨hs.limited.retired.counted, hs.limited.retired.capped⟩
      exact hlimited.endTick _
  | true =>
      have hdone := hattempt.complete hcomplete
      have hshape := (hdone.moves hs.halted hs.shape hop).shape
      obtain ⟨e, hem, -, hpipe⟩ := hdone
      have hretired : Retired l res.pipe := by
        rw [hpipe]
        exact hs.limited.retired.retire hs.halted rfl (by simp [addData])
      obtain ⟨halted, hretire, -⟩ := retire_eq l
        (addData .insnCount { s with pendingOp := none, offset := 0, emitter := e })
      rw [hretire] at hpipe
      have hemitter : res.pipe.emitter = e := by
        rw [hpipe]
        rfl
      have hidle : res.pipe.pendingOp = none := by
        rw [hpipe]
        rfl
      have hfatal : res.pipe.fatal = none := by
        rw [hpipe]
        exact hs.fatal
      rw [← hemitter] at hem
      obtain ⟨hle, hsent, hpending⟩ := hparts.limits hs hem
      rw [List.length_cons] at hqueue
      have hlimited : Limited c l start q res.pipe := by
        refine ⟨fun op' hop' => ?_, fun _ => hidle, hparts.fatal, by omega, hpending, hretired,
          by omega⟩
        rw [hidle] at hop'
        cases hop'
      have hnext : ¬(!true) = true := Bool.false_ne_true
      rw [if_neg hnext]
      by_cases hstop : res.pipe.halted = true
      · rw [if_pos hstop]
        exact hlimited.endTick _
      · rw [if_neg hstop]
        exact ⟨hlimited, by simpa using hstop, hfatal, hshape, hle, hsent⟩

/-- What the filter and the transform leave alone. -/
theorem Asked.frame {s₁ : Pipeline} (hasked : Asked c ev.cmd s s₁) :
    s₁.halted = s.halted ∧ s₁.fatal = s.fatal ∧ s₁.pendingOp = s.pendingOp ∧
      s₁.offset = s.offset ∧ s₁.emitter = s.emitter := by
  obtain ⟨stats, -, rfl⟩ := hasked
  exact ⟨rfl, rfl, rfl, rfl, rfl⟩

/-- A state with the same requests and no access begun. -/
theorem Limited.congr {start : ℕ} (hl : Limited c l start q s) {s' : Pipeline}
    {q' : List PipelineEvent} (hoff : s'.offset = 0)
    (hstopped : s'.halted = true → s'.pendingOp = none) (hfatal : s'.fatal = s.fatal)
    (hemitter : s'.emitter = s.emitter) (hretired : Retired l s')
    (hqueue : q'.length ≤ q.length) : Limited c l start q' s' := by
  refine ⟨fun op _ hne => absurd hoff hne, hstopped, ?_, ?_, ?_, hretired, hqueue.trans hl.queue⟩
  · rw [hfatal]
    exact hl.fatal
  · rw [hemitter]
    exact hl.sent
  · rw [hemitter]
    exact hl.pending

/-- An instruction that is not counted does not retire. -/
theorem Retired.congr {s' : Pipeline} (hr : Retired l s) (hcount : s'.instCount = s.instCount)
    (htally : tally .insnCount s'.stats = tally .insnCount s.stats)
    (hhalted : s'.halted = false → s.halted = false) : Retired l s' := by
  refine ⟨by rw [hcount, htally, hr.counted], fun hpos => ?_⟩
  rw [hcount]
  exact ⟨(hr.capped hpos).1, fun hgo => (hr.capped hpos).2 (hhalted hgo)⟩

/-- A command that retires without an access. -/
theorem round_retired {start issued : ℕ} (hs : AtRound c l start (ev :: q) issued h s)
    (hop : s.pendingOp = none) {s₁ : Pipeline} (hasked : Asked c ev.cmd s s₁)
    (hhalts : ¬Halts c ev.cmd) (hnone : requestsOf c ev.cmd = [])
    (htally : tally .insnCount s₁.stats = tally .insnCount s.stats + 1)
    (hcount : s₁.instCount = s.instCount) :
    Round.Keeps (AtRound c l start) (fun _ s => Limited c l start s.coreQ s)
      (if (retire l s₁).halted then .done h { retire l s₁ with coreQ := q }
        else .next q issued h (retire l s₁)) := by
  have hshape := (moves_retired (l := l) (h := h) hs.halted hs.shape hop hasked hhalts hnone).shape
  have hretired : Retired l (retire l s₁) :=
    hs.limited.retired.retire hs.halted hcount htally
  obtain ⟨-, hfatal, hidle, hoff, hemitter⟩ := hasked.frame
  obtain ⟨halted, hpipe, -⟩ := retire_eq l s₁
  rw [hs.shape.idle hop] at hoff
  rw [hop] at hidle
  rw [hpipe] at hretired hshape ⊢
  have hqueue : q.length ≤ (ev :: q).length := Nat.le_succ _
  by_cases hstop : halted = true
  · rw [if_pos (by exact hstop)]
    exact hs.limited.congr (by exact hoff) (fun _ => hidle) (by exact hfatal) (by exact hemitter)
      ⟨hretired.counted, hretired.capped⟩ hqueue
  · rw [if_neg (by exact hstop)]
    refine ⟨hs.limited.congr (by exact hoff) (fun _ => hidle) (by exact hfatal)
      (by exact hemitter) hretired hqueue,
      by simpa using hstop, hfatal.trans hs.fatal, hshape, hs.issued_le, ?_⟩
    dsimp only
    rw [hemitter, hs.sent]

/-- **One round** keeps the limits. -/
theorem round_keeps {start issued : ℕ} (hs : AtRound c l start q issued h s) :
    (round c l q issued h s).Keeps (AtRound c l start)
    (fun _ s => Limited c l start s.coreQ s) := by
  cases q with
  | nil => exact hs.limited.endTick issued
  | cons ev q =>
      cases hop : s.pendingOp with
      | some op => exact round_pending hs hop
      | none =>
          have hclass := classify_spec c ev s
          have hcounts := classify_counts c ev s
          have hidle := hs.shape.idle hop
          rw [round, hop]
          dsimp only at hcounts ⊢
          generalize classify c ev s = res at hclass hcounts
          cases hclass with
          | pending op hop' =>
              rw [hop] at hop'
              cases hop'
          | @issues s₁ hasked hop hissues =>
              have hissues := hissues (hs.shape.noRuns ev List.mem_cons_self)
              have hshape := (moves_pending (l := l) (h := h) hs.halted hs.shape hop hasked
                hissues).shape
              obtain ⟨hhalted, hfatal, -, hoff, hemitter⟩ := hasked.frame
              have hgo : s₁.halted = false := hhalted.trans hs.halted
              have hretired : Retired l { s₁ with pendingOp := some (opOf c ev.cmd) } :=
                hs.limited.retired.congr hcounts.2 (by simpa using hcounts.1) fun _ => hs.halted
              refine ⟨hs.limited.congr (hoff.trans hidle) (fun hstop => ?_) hfatal hemitter hretired
                le_rfl, hgo, hfatal.trans hs.fatal, hshape, hs.issued_le, ?_⟩
              · rw [show s₁.halted = true from hstop] at hgo
                cases hgo
              dsimp only
              rw [hemitter, hs.sent]
          | @consumed s₁ hasked hop hact =>
              exact round_retired hs hop hasked (not_halts_of_consume hact)
                (if_neg fun hissues => hissues.2.1 hact) (by simpa using hcounts.1) hcounts.2
          | @noop s₁ hasked hop hnop =>
              have hcompute : ev.cmd.isCompute = true := by rw [QuetzCommand.isCompute, hnop]; rfl
              exact round_retired hs hop hasked (not_halts_of_isCompute hcompute)
                (requestsOf_of_isCompute hcompute) (by simpa using hcounts.1) hcounts.2
          | @stalls s₁ n hasked hop hact hhalts =>
              obtain ⟨-, hfatal, hpending, hoff, hemitter⟩ := hasked.frame
              have hretired : Retired l s₁ :=
                hs.limited.retired.congr hcounts.2 (by simpa using hcounts.1) fun _ => hs.halted
              have hlimited : Limited c l start ({ ev with remainingStall := n } :: q) s₁ :=
                hs.limited.congr (hoff.trans hidle) (fun _ => hpending.trans hop) hfatal hemitter
                  hretired le_rfl
              exact hlimited.endTick issued
          | @halts s₁ hasked hop hhalts =>
              obtain ⟨-, hfatal, hpending, hoff, hemitter⟩ := hasked.frame
              have hretired : Retired l { s₁ with
                  guestExit := ev.cmd.cmd == .exit
                  halted := true
                  coreQ := q } :=
                hs.limited.retired.congr hcounts.2 (by simpa using hcounts.1) fun _ => hs.halted
              exact hs.limited.congr (hoff.trans hidle)
                (fun _ => hpending.trans hop) hfatal hemitter
                hretired (Nat.le_succ _)

/-! ### Ticks -/

/-- A tick that goes on, after its refill. -/
theorem refill_atRound (hok : Ok c l s) (hgo : s.halted = false) (hfatal : s.fatal = none)
    (hl : Limited c l s.emitter.traffic.length s.coreQ s) (h : Host) (ring : List QuetzCommand) :
    let filled := (refill l ring s).2
    AtRound c l s.emitter.traffic.length filled.coreQ 0 h
      { filled with refillHitCap := decide (l.maxQueueLen ≤ filled.coreQ.length) } := by
  have hrefills := refill_refills (l := l) ring hok
  have hfilled := refill_filled (l := l) ring s
  dsimp only
  generalize refill l ring s = filled at hrefills hfilled
  have hretired := hfilled.retired hl.retired
  refine ⟨⟨?_, ?_, ?_, ?_, ?_, ⟨hretired.counted, hretired.capped⟩, hfilled.queue hl.queue⟩,
    hrefills.halted.trans hgo, hrefills.fatal.trans hfatal, hrefills.ok.shape.congr rfl rfl,
    Nat.zero_le _, ?_⟩
  · dsimp only
    rw [hfilled.pendingOp, hfilled.offset]
    exact hl.begun
  · dsimp only
    rw [hrefills.halted, hfilled.pendingOp]
    exact hl.stopped
  · dsimp only
    rw [hrefills.fatal]
    exact hl.fatal
  · dsimp only
    rw [hrefills.emitter]
    exact hl.sent
  · dsimp only
    rw [hrefills.emitter]
    exact hl.pending
  · dsimp only
    rw [hrefills.emitter]
    rfl

/-- **One tick** keeps the limits. -/
theorem tick_limited (hok : Ok c l s) (hl : Limited c l s.emitter.traffic.length s.coreQ s)
    (h : Host) (ring : List QuetzCommand) :
    Limited c l s.emitter.traffic.length (tick c l h ring s).2.2.coreQ (tick c l h ring s).2.2 := by
  rw [tick]
  by_cases hstop : s.halted = true ∨ s.fatal.isSome = true
  · rw [if_pos hstop]
    exact hl
  · rw [if_neg hstop]
    rw [not_or, Bool.not_eq_true, Option.not_isSome_iff_eq_none] at hstop
    exact issueLoop_rule (fun _ _ _ _ => round_keeps) (refill_atRound hok hstop.1 hstop.2 hl h ring)

/-! ### Progress -/

/-- What the loop issues after the attempt on its head stays issued. -/
theorem issueLoop_sends (hhalted : s.halted = false) (hfatal : s.fatal = none)
    (hshape : Shape c (ev :: q) s) (hop : s.pendingOp = some op) :
    (issueMemOp c l op 0 h s).pipe.emitter.traffic <+:
      (issueLoop c l (ev :: q) 0 h s).2.emitter.traffic := by
  obtain ⟨-, -, -, -, -, hcursor⟩ := hshape.pending op hop
  have hattempt : Attempt c l op h s (issueMemOp c l op 0 h s) :=
    issueMemOp_spec hcursor hfatal 0
  have hend : ∀ (issued : ℕ) (q' : List PipelineEvent) (s' : Pipeline),
      (endTick issued { s' with coreQ := q' }).emitter.traffic = s'.emitter.traffic := by
    intro issued q' s'
    obtain ⟨stats, htick, -⟩ := endTick_eq issued { s' with coreQ := q' }
    rw [htick]
  rw [issueLoop, classify_pending hop]
  dsimp only
  generalize issueMemOp c l op 0 h s = res at hattempt
  cases hcomplete : res.complete with
  | false =>
      rw [if_pos (by rfl)]
      exact (hend _ _ _).symm ▸ List.prefix_rfl
  | true =>
      have hdone := hattempt.complete hcomplete
      have hshape' := (hdone.moves hhalted hshape hop).shape
      have hok : res.pipe.fatal = none := by
        obtain ⟨e, -, -, hpipe⟩ := hdone
        obtain ⟨halted, hretire, -⟩ := retire_eq l
          (addData .insnCount { s with pendingOp := none, offset := 0, emitter := e })
        rw [hpipe, hretire]
        exact hfatal
      have hnext : ¬(!true) = true := Bool.false_ne_true
      rw [if_neg hnext]
      by_cases hstop : res.pipe.halted = true
      · rw [if_pos hstop]
        exact (hend _ _ _).symm ▸ List.prefix_rfl
      · rw [if_neg hstop]
        exact (issueLoop_moves q res.issued (by simpa using hstop) hok hshape').emitted.sends

/-- A loop with a free slot issues something of the access that is pending. -/
theorem issueLoop_progress {start : ℕ} (hs : AtRound c l start q 0 h s)
    (hop : s.pendingOp = some op) (hsize : op.size ≠ 0) (hfits : op.Fits)
    (hlink : linked c op = true) (hfree : s.emitter.pendingCount < l.maxPending) :
    start < (issueLoop c l q 0 h s).2.emitter.traffic.length := by
  obtain ⟨ev, q, rfl, -, -, hcursor⟩ := hs.shape.pending op hop
  obtain ⟨parts, hparts⟩ := issueMemOp_parts (c := c) (l := l) (h := h) hcursor hs.fatal 0
  have hbudget : 0 < budgetOf l 0 s := by
    have hissue := l.maxIssuePerCycle_pos
    rw [budgetOf]
    omega
  have hpos := hparts.moves hfits hlink hsize hbudget
  have hsent := hparts.sent
  have hstart := hs.sent
  have hkept := (issueLoop_sends (l := l) (h := h) hs.halted hs.fatal hs.shape hop).length_le
  omega

/-- **A tick with a free slot goes on with the pending access**: the first request that is left of
it is the next one. -/
theorem tick_progress (hok : Ok c l s) (hl : Limited c l s.emitter.traffic.length s.coreQ s)
    (hfatal : s.fatal = none) (hop : s.pendingOp = some op)
    (hfree : s.emitter.pendingCount < l.maxPending)
    (hgo : s.offset ≠ 0 ∨ op.size ≠ 0 ∧ op.Fits ∧ linked c op = true) (h : Host)
    (ring : List QuetzCommand) :
    ∃ first more, op.requestsFrom c s.offset = first :: more ∧
      s.emitter.traffic ++ [first] <+: (tick c l h ring s).2.2.emitter.traffic := by
  obtain ⟨ev, q, hq, -, -, hcursor⟩ := hok.shape.pending op hop
  have hhalted : s.halted = false := by
    by_contra hstop
    rw [hl.stopped (by simpa using hstop)] at hop
    cases hop
  have hgood : op.size ≠ 0 ∧ op.Fits ∧ linked c op = true := by
    rcases hgo with hoff | hgood
    · rcases hcursor with hzero | ⟨-, hlt, hfits⟩
      · exact absurd hzero hoff
      · have hcap := op.captured_le
        exact ⟨by omega, hfits, hl.begun op hop hoff⟩
    · exact hgood
  obtain ⟨hsize, hfits, hlink⟩ := hgood
  have hlonger : s.emitter.traffic.length < (tick c l h ring s).2.2.emitter.traffic.length := by
    have hemitter := (refill_refills (l := l) ring hok).emitter
    have hstop : ¬(s.halted = true ∨ s.fatal.isSome = true) := by simp [hhalted, hfatal]
    rw [tick, if_neg hstop]
    refine issueLoop_progress (refill_atRound hok hhalted hfatal hl h ring)
      ((refill_filled ring s).pendingOp.trans hop) hsize hfits hlink ?_
    dsimp only
    rwa [hemitter]
  obtain ⟨first, more, hmore⟩ := List.exists_cons_of_ne_nil
    (requestsFrom_ne_nil (c := c) hsize hcursor)
  refine ⟨first, more, hmore, ?_⟩
  have hbounds := (tick_bounds (l := l) hok h ring []).1
  rw [hq, due_of_pending hop, if_pos hfits, hmore, List.cons_append, ← List.singleton_append,
    ← List.append_assoc] at hbounds
  refine List.prefix_of_prefix_length_le (List.prefix_append _ _) hbounds ?_
  rw [List.length_append, List.length_singleton]
  exact hlonger

/-! ### Responses -/

theorem pendingCount_handleResponse (id : ℕ) (e : MemRequestEmitter) :
    (e.handleResponse id).2.pendingCount ≤ e.pendingCount := by
  rw [handleResponse]
  cases e.pendingTxns.find? fun p => p.id == id with
  | none => exact le_rfl
  | some p => exact Nat.sub_le ..

/-- A response feeds a latency. -/
theorem handleMemResponse_stats (id : ℕ) (resp : Response) (s : Pipeline) :
    tally .insnCount (handleMemResponse id resp s).stats = tally .insnCount s.stats := by
  unfold handleMemResponse
  dsimp only
  cases (s.emitter.handleResponse id).1 with
  | none => rfl
  | some info =>
      dsimp only
      rw [tally_append, tally_singleton, if_neg, Nat.add_zero]
      unfold latencyStat
      split_ifs <;> exact nofun

/-- **A response** keeps the limits. -/
theorem Limited.response (hl : Limited c l s.emitter.traffic.length s.coreQ s) (id : ℕ)
    (resp : Response) :
    Limited c l (handleMemResponse id resp s).emitter.traffic.length
      (handleMemResponse id resp s).coreQ (handleMemResponse id resp s) := by
  have htally := handleMemResponse_stats id resp s
  obtain ⟨e, stats, hpipe, he⟩ := handleMemResponse_frame id resp s
  rw [hpipe] at htally ⊢
  refine ⟨hl.begun, hl.stopped, hl.fatal, Nat.le_add_right _ _, ?_,
    ⟨hl.retired.counted.trans htally.symm, hl.retired.capped⟩, hl.queue⟩
  dsimp only
  rw [he]
  exact (pendingCount_handleResponse id s.emitter).trans hl.pending

end Pipeline

/-! ### Runs -/

namespace CoreRun

open Pipeline

variable {c : CoreContext} {l : PipelineLimits} {r : CoreRun} {stream : List QuetzCommand}

/-- The limits between two events of a run, and what the emitter tracks. -/
structure Within (c : CoreContext) (l : PipelineLimits) (r : CoreRun) : Prop where
  host : r.host.Ok
  tracks : Tracks r.host r.pipe.emitter
  backed : Backed r.host r.pipe.emitter
  limited : Limited c l r.traffic.length r.pipe.coreQ r.pipe

/-- The time does not matter. -/
theorem Within.pipeAt (hw : Within c l r) (now : ℕ) :
    Limited c l (r.pipeAt now).emitter.traffic.length (r.pipeAt now).coreQ (r.pipeAt now) :=
  have hl := hw.limited
  ⟨hl.begun, hl.stopped, hl.fatal, hl.sent, hl.pending, ⟨hl.retired.counted, hl.retired.capped⟩,
    hl.queue⟩

theorem within_start (c : CoreContext) (l : PipelineLimits) : Within c l {} := by
  refine ⟨⟨nofun, List.nodup_nil⟩, ⟨rfl, List.nodup_nil, nofun, nofun, nofun⟩, nofun,
    ⟨nofun, nofun, ⟨nofun, nofun⟩, Nat.zero_le _, Nat.zero_le _,
      ⟨rfl, fun hpos => ⟨hpos.le, fun _ => hpos⟩⟩, Nat.zero_le _⟩⟩

/-- **One event.** -/
theorem Within.step (hw : Within c l r) (hok : Ok c l stream r) (e : CoreEvent) :
    Within c l (r.step c l e) := by
  cases e with
  | push cmds => exact ⟨hw.host, hw.tracks, hw.backed, hw.limited⟩
  | tick now =>
      have hpipe : (r.pipeAt now).Ok c l := hok.pipe.quiet rfl
      have hticked := tick_ticked hpipe r.host r.ring
      have htracks : Tracks r.host (r.pipeAt now).emitter := hw.tracks.congr rfl rfl rfl
      have hafter := tick_limited hpipe (hw.pipeAt now) r.host r.ring
      refine ⟨hticked.emitted.ok hw.host, hticked.emitted.tracks htracks,
        hticked.emitted.backed hw.backed, ?_⟩
      exact ⟨hafter.begun, hafter.stopped, hafter.fatal, Nat.le_add_right _ _, hafter.pending,
        hafter.retired, hafter.queue⟩
  | answer now i data =>
      rw [CoreRun.step]
      cases hi : r.host.inFlight[i]? with
      | none => exact hw
      | some req =>
          have htracks : Tracks r.host (r.pipeAt now).emitter := hw.tracks.congr rfl rfl rfl
          have hbacked : Backed r.host (r.pipeAt now).emitter := hw.backed
          have hafter := (hw.pipeAt now).response req.id (req.body.response data)
          obtain ⟨e, stats, hpipe, he⟩ :=
            handleMemResponse_frame req.id (req.body.response data) (r.pipeAt now)
          dsimp only
          refine ⟨hw.host.take i, ?_, ?_, hafter⟩
          · rw [hpipe, he]
            exact htracks.response hw.host hi
          · rw [hpipe, he]
            exact hbacked.response hw.host hi
  | send vcpu link body =>
      have hgrows : r.host.Grows (r.host.send vcpu link body) := Host.Grows.send ..
      exact ⟨hw.host.send vcpu link body, hw.tracks.later hgrows.later, hw.backed.grows hgrows,
        hw.limited⟩

/-- **A whole run.** -/
theorem Within.run (es : List CoreEvent) : ∀ {r : CoreRun} {stream : List QuetzCommand},
    Within c l r → Ok c l stream r → Within c l (r.run c l es) := by
  induction es with
  | nil => exact fun hw _ => hw
  | cons e es ih => exact fun hw hok => ih (hw.step hok e) (hok.step e)

/-- What holds of the tick that comes next: its requests, the queue it works on, that it ends, and
that it goes on with an access that was begun or that fits and has its link. -/
structure TickLimits (c : CoreContext) (l : PipelineLimits) (r : CoreRun) (now : ℕ) : Prop where
  issued : (r.step c l (.tick now)).traffic.length ≤ r.traffic.length + l.maxIssuePerCycle
  queue : (refill l r.ring (r.pipeAt now)).2.coreQ.length ≤ l.maxQueueLen
  ends : ∀ fuel, 2 * l.maxQueueLen + 1 ≤ fuel →
    tickRounds c l fuel r.host r.ring (r.pipeAt now) =
      some ((r.pipeAt now).tick c l r.host r.ring)
  goesOn : r.pipe.fatal = none → ∀ op, r.pipe.pendingOp = some op →
    r.pipe.emitter.pendingTxns.length < l.maxPending →
    (r.pipe.offset ≠ 0 ∨ op.size ≠ 0 ∧ op.Fits ∧ linked c op = true) →
    ∃ first more, op.requestsFrom c r.pipe.offset = first :: more ∧
      r.traffic ++ [first] <+: (r.step c l (.tick now)).traffic

theorem Within.tick (hw : Within c l r) (hok : Ok c l stream r) (now : ℕ) :
    TickLimits c l r now := by
  have hpipe : (r.pipeAt now).Ok c l := hok.pipe.quiet rfl
  have hlimited := hw.pipeAt now
  have hqueue := (refill_filled (l := l) r.ring (r.pipeAt now)).queue hlimited.queue
  refine ⟨(tick_limited hpipe hlimited r.host r.ring).sent, hqueue, fun fuel hfuel => ?_,
    fun hfatal op hop hfree hgo => ?_⟩
  · exact tickRounds_eq r.host r.ring (r.pipeAt now) (by omega)
  · rw [← hw.tracks.count] at hfree
    exact tick_progress hpipe hlimited hfatal hop hfree hgo r.host r.ring

/-- **The limits of a run.** After any events the requests without an answer are those the emitter
tracks and counts, and they and the queue are in their limits. The pipeline did not fail for its
budget. The instructions that retired are those of the statistic and in their limit. And the limits
hold of the next tick, which ends and goes on with the access that is pending. -/
theorem issue_limits (c : CoreContext) (l : PipelineLimits) (es : List CoreEvent) :
    let r := run c l {} es
    (unanswered r.host r.pipe.emitter).length = r.pipe.emitter.pendingTxns.length ∧
      r.pipe.emitter.pendingCount = r.pipe.emitter.pendingTxns.length ∧
      r.pipe.emitter.pendingTxns.length ≤ l.maxPending ∧
      r.pipe.coreQ.length ≤ l.maxQueueLen ∧
      (r.pipe.fatal ≠ some .exceededBudget ∧ r.pipe.fatal ≠ some .cannotSplit) ∧
      r.pipe.instCount = tally .insnCount r.pipe.stats ∧
      (0 < l.maxInsts → r.pipe.instCount ≤ l.maxInsts) ∧
      ∀ now, TickLimits c l r now := by
  have hstart : Ok c l [] {} := ⟨ok_start c l, rfl⟩
  have hok := hstart.run es
  have hw := (within_start c l).run es hstart
  dsimp only
  generalize run c l {} es = r at hok hw
  have hperm := (unanswered_perm hw.host hw.tracks hw.backed).length_eq
  rw [List.length_map, List.length_map] at hperm
  have hpending := hw.limited.pending
  rw [hw.tracks.count] at hpending
  exact ⟨hperm, hw.tracks.count, hpending, hw.limited.queue, hw.limited.fatal,
    hw.limited.retired.counted, fun hpos => (hw.limited.retired.capped hpos).1, hw.tick hok⟩

/-- A read across a line. -/
def splitRead : QuetzCommand := { cmd := .read, addr := 0x3c, size := 6 }

/-- With limits of one, one request of it is sent and answered. -/
def splitEvents : List CoreEvent := [.push [splitRead], .tick 0, .answer 1 0 []]

/-- The next tick sends the other request. -/
theorem issue_limits_split :
    (run default narrowLimits {} splitEvents).pipe.offset = 4 ∧
      ∃ first, ((run default narrowLimits {} splitEvents).traffic ++ [first]) <+:
        ((run default narrowLimits {} splitEvents).step default narrowLimits
          (.tick 2)).traffic := by
  obtain ⟨-, -, -, -, -, -, -, hticks⟩ := issue_limits default narrowLimits splitEvents
  have hoff : (run default narrowLimits {} splitEvents).pipe.offset = 4 := by decide
  obtain ⟨first, -, -, hnext⟩ := (hticks 2).goesOn (by decide) (opOf default splitRead) (by decide)
    (by decide) (Or.inl (by rw [hoff]; decide))
  exact ⟨hoff, first, hnext⟩

end CoreRun

end Quetz
