import Quetz.PipelineDrain

/-!
# What a Pipeline May Issue

The reference of a stream says what a pipeline issues that never stops early. A pipeline also stops
at the limit on the instructions, in the middle of a tick, and at an access that wraps the address
space, of which it issues nothing. `bound` is the reference up to the first such access.

## Main results

* `issueLoop_bounds`: the issue loop stays in front of what is due.
* `traffic_bounded`: the requests of a run, with any limits, are a beginning of the bound.
-/

namespace Quetz

open MemRequestEmitter Pipeline

/-! ### The bound -/

section Bound

variable (c : CoreContext)

instance (op : MemOp) : Decidable op.Fits := inferInstanceAs (Decidable (_ = true))

/-- The access of the command wraps the address space, and the pipeline stops at it. -/
def Wraps (cmd : QuetzCommand) : Prop := Issues c cmd ∧ ¬(opOf c cmd).Fits

instance (cmd : QuetzCommand) : Decidable (Wraps c cmd) := inferInstanceAs (Decidable (_ ∧ _))

/-- The requests of a stream up to the first access that wraps. -/
def bound : List QuetzCommand → List (Link × Body)
  | [] => []
  | cmd :: cmds =>
    if Wraps c cmd then [] else requestsOf c cmd ++ if Halts c cmd then [] else bound cmds

variable {c} {cmd : QuetzCommand}

theorem not_wraps_of_not_issues (h : ¬Issues c cmd) : ¬Wraps c cmd := fun hwraps => h hwraps.1

/-- A command that issues nothing and does not end the run. -/
theorem bound_cons_silent (hissues : ¬Issues c cmd) (hhalts : ¬Halts c cmd)
    (cmds : List QuetzCommand) : bound c (cmd :: cmds) = bound c cmds := by
  rw [bound, if_neg (not_wraps_of_not_issues hissues), requestsOf, if_neg hissues, if_neg hhalts,
    List.nil_append]

theorem not_issues_of_isCompute (h : cmd.isCompute = true) : ¬Issues c cmd := fun hissues =>
  hissues.1 (by simpa [QuetzCommand.isCompute] using h)

/-- Computations can be left out. -/
theorem bound_computes {cs : List QuetzCommand} (hcs : ∀ cmd ∈ cs, cmd.isCompute = true)
    (rest : List QuetzCommand) : ∀ cmds, bound c (cmds ++ (cs ++ rest)) = bound c (cmds ++ rest)
  | [] => by
    rw [List.nil_append, List.nil_append]
    induction cs with
    | nil => rfl
    | cons cmd cs ih =>
        have hcmd := hcs cmd List.mem_cons_self
        rw [List.cons_append, bound_cons_silent (not_issues_of_isCompute hcmd)
          (not_halts_of_isCompute hcmd)]
        exact ih fun cmd hmem => hcs cmd (List.mem_cons_of_mem _ hmem)
  | cmd :: cmds => by
    rw [List.cons_append, List.cons_append, bound, bound, bound_computes hcs rest cmds]

/-- The bound of the commands before one that is not reached, or the requests up to it. -/
theorem bound_append (before : List QuetzCommand) (cmds : List QuetzCommand) :
    bound c (before ++ cmds) = bound c before ∨
      bound c (before ++ cmds) = bound c before ++ bound c cmds := by
  induction before with
  | nil => exact .inr rfl
  | cons cmd before ih =>
      rw [List.cons_append, bound, bound]
      split_ifs
      · exact .inl rfl
      · exact .inl rfl
      · rcases ih with ih | ih
        · exact .inl (by rw [ih])
        · exact .inr (by rw [ih, List.append_assoc])

end Bound

namespace MemRequestEmitter

variable {c : CoreContext} {op : MemOp} {offset budget : ℕ} {h : Host} {e : MemRequestEmitter}

/-- A window opens only on an access that fits. -/
theorem window_fits (hbudget : 0 < budget) {w : Window}
    (hok : (if op.isRead then issueReadWindow c op offset budget h e
      else issueWriteWindow c op offset budget h e) = .ok w) : op.Fits := by
  by_contra hfits
  have hsize : ¬(op.size = 0 ∨ budget = 0) := by
    rintro (hzero | hzero)
    · refine hfits ?_
      have hcap : op.captured = 0 := Nat.le_zero.mp (hzero ▸ op.captured_le)
      rw [MemOp.Fits, hcap]
      rfl
    · omega
  by_cases hread : op.isRead = true
  · rw [MemOp.Fits, MemOp.captured, if_pos hread, Bool.not_eq_true] at hfits
    rw [if_pos hread, issueReadWindow, if_neg hsize, hfits, if_pos (by rfl)] at hok
    cases hok
  · rw [MemOp.Fits, MemOp.captured, if_neg hread, Bool.not_eq_true] at hfits
    rw [if_neg hread, issueWriteWindow, if_neg hsize, hfits, if_pos (by rfl)] at hok
    cases hok

/-- A response issues nothing. -/
theorem traffic_handleResponse (id : ℕ) : (e.handleResponse id).2.traffic = e.traffic := by
  rw [handleResponse]
  cases e.pendingTxns.find? fun p => p.id == id <;> rfl

end MemRequestEmitter

namespace Pipeline

variable {c : CoreContext} {l : PipelineLimits} {h h' : Host} {s s' : Pipeline}
  {q q' : List PipelineEvent} {ev : PipelineEvent} {rest : List QuetzCommand}

/-- An access that was issued completely fits. -/
theorem issueMemOp_fits (op : MemOp) (issued : ℕ)
    (hcomplete : (issueMemOp c l op issued h s).complete = true) : op.Fits := by
  rw [issueMemOp] at hcomplete
  by_cases hbudget : min (l.maxIssuePerCycle - issued) (l.maxPending - s.emitter.pendingCount) = 0
  · rw [if_pos hbudget] at hcomplete
    cases hcomplete
  · rw [if_neg hbudget] at hcomplete
    cases hres : issueAvailable c op
        (min (l.maxIssuePerCycle - issued) (l.maxPending - s.emitter.pendingCount)) h s with
    | error e =>
        rw [hres] at hcomplete
        cases hcomplete
    | ok res =>
        rw [issueAvailable] at hres
        cases hw : (if op.isRead then issueReadWindow c op s.offset _ h s.emitter
            else issueWriteWindow c op s.offset _ h s.emitter) with
        | error f =>
            rw [hw] at hres
            cases hres
        | ok w => exact window_fits (Nat.pos_of_ne_zero hbudget) hw

/-! ### The issue loop -/

/-- The requests that are due: those of the queue `q` and the commands `rest` after it. -/
def due (c : CoreContext) (q : List PipelineEvent) (s : Pipeline) (rest : List QuetzCommand) :
    List (Link × Body) :=
  match s.pendingOp with
  | some op =>
    if op.Fits then op.requestsFrom c s.offset ++ bound c (commands q.tail ++ rest) else []
  | none => bound c (commands q ++ rest)

/-- A part of what was due was issued; a state that runs on has the rest of it before it. -/
structure Bounds (c : CoreContext) (q : List PipelineEvent) (s : Pipeline)
    (q' : List PipelineEvent) (s' : Pipeline) (rest : List QuetzCommand) : Prop where
  issued : s'.emitter.traffic <+: s.emitter.traffic ++ due c q s rest
  live : s'.halted = false → s'.fatal = none →
    s'.emitter.traffic ++ due c q' s' rest = s.emitter.traffic ++ due c q s rest

theorem Bounds.trans {s₁ : Pipeline} {q₁ : List PipelineEvent} (h₀₁ : Bounds c q s q₁ s₁ rest)
    (hhalted : s₁.halted = false) (hfatal : s₁.fatal = none)
    (h₁₂ : Bounds c q₁ s₁ q' s' rest) : Bounds c q s q' s' rest := by
  have heq := h₀₁.live hhalted hfatal
  constructor
  · rw [← heq]
    exact h₁₂.issued
  · intro hgo hnone
    rw [← heq]
    exact h₁₂.live hgo hnone

/-- Nothing was issued, and the same is due. -/
theorem Bounds.still (htraffic : s'.emitter.traffic = s.emitter.traffic)
    (hdue : s'.halted = false → due c q' s' rest = due c q s rest) : Bounds c q s q' s' rest := by
  constructor
  · rw [htraffic]
    exact List.prefix_append _ _
  · intro hgo _
    rw [htraffic, hdue hgo]

/-- The end of a tick only feeds statistics. -/
theorem Bounds.endTick (hb : Bounds c q s q' s' rest) (issued : ℕ) :
    Bounds c q s q' (endTick issued { s' with coreQ := q' }) rest := by
  rw [Pipeline.endTick]
  split_ifs <;> exact ⟨hb.issued, hb.live⟩

theorem due_of_idle (hop : s.pendingOp = none) : due c q s rest = bound c (commands q ++ rest) := by
  rw [due, hop]

theorem due_of_pending {op : MemOp} (hop : s.pendingOp = some op) : due c (ev :: q) s rest =
    if op.Fits then op.requestsFrom c s.offset ++ bound c (commands q ++ rest) else [] := by
  rw [due, hop]
  rfl

/-- The head of the queue leaves it without a request. -/
theorem bounds_retired (hop : s.pendingOp = none) {s₁ : Pipeline} (hasked : Asked c ev.cmd s s₁)
    (hissues : ¬Issues c ev.cmd) (hhalts : ¬Halts c ev.cmd) :
    Bounds c (ev :: q) s q (retire l s₁) rest := by
  obtain ⟨stats, -, rfl⟩ := hasked
  obtain ⟨halted, hretire, -⟩ := retire_eq l { s with
    handled := s.handled ++ (answerOf c ev.cmd).toList.map fun a => (ev.cmd, a)
    stats := stats }
  rw [hretire]
  refine .still rfl fun _ => ?_
  rw [due_of_idle hop, due_of_idle (by exact hop)]
  exact (bound_cons_silent hissues hhalts _).symm

/-- The access of the head of the queue becomes pending. -/
theorem bounds_pending (hoff : s.offset = 0) (hop : s.pendingOp = none) {s₁ : Pipeline}
    (hasked : Asked c ev.cmd s s₁) (hissues : Issues c ev.cmd) :
    Bounds c (ev :: q) s (ev :: q) { s₁ with pendingOp := some (opOf c ev.cmd) } rest := by
  obtain ⟨stats, -, rfl⟩ := hasked
  refine .still rfl fun _ => ?_
  rw [due_of_idle hop, due_of_pending rfl]
  change _ = bound c (ev.cmd :: (commands q ++ rest))
  rw [bound]
  by_cases hfits : (opOf c ev.cmd).Fits
  · rw [if_pos hfits, if_neg fun hwraps => hwraps.2 hfits, hissues.requestsOf,
      if_neg hissues.2.2, hoff]
  · rw [if_neg hfits, if_pos ⟨hissues, hfits⟩]

/-- A part of the pending access was issued, and nothing of one that wraps. -/
theorem Postponed.bounds {op : MemOp} {r : Issue} (hpost : Postponed c op h s r)
    (hcursor : op.Cursor s.offset) (hop : s.pendingOp = some op) :
    Bounds c (ev :: q) s (ev :: q) r.pipe rest := by
  obtain ⟨e, offset, fatal, -, hcursor', htraffic, -, hpipe⟩ := hpost
  rw [hpipe]
  have hlive : e.traffic ++ due c (ev :: q)
      { s with offset := offset, emitter := e, fatal := fatal } rest =
        s.emitter.traffic ++ due c (ev :: q) s rest := by
    rw [due_of_pending (by exact hop), due_of_pending hop]
    by_cases hfits : op.Fits
    · rw [if_pos hfits, if_pos hfits, ← List.append_assoc, ← List.append_assoc, htraffic]
    · have hstart : ∀ n, op.Cursor n → n = 0 := by
        rintro n (hzero | ⟨-, -, hfit⟩)
        · exact hzero
        · exact absurd hfit hfits
      rw [hstart _ hcursor', hstart _ hcursor] at htraffic
      rw [if_neg hfits, if_neg hfits, List.append_cancel_right htraffic]
  exact ⟨⟨_, hlive⟩, fun _ _ => hlive⟩

/-- The pending access was issued completely and leaves the queue. -/
theorem Completed.bounds {op : MemOp} {r : Issue} (hdone : Completed c l op h s r)
    (hfits : op.Fits) (hop : s.pendingOp = some op) :
    Bounds c (ev :: q) s q r.pipe rest := by
  obtain ⟨e, -, htraffic, hpipe⟩ := hdone
  obtain ⟨halted, hretire, -⟩ := retire_eq l
    (addData .insnCount { s with pendingOp := none, offset := 0, emitter := e })
  rw [hpipe, hretire]
  have hlive : e.traffic ++ bound c (commands q ++ rest) =
      s.emitter.traffic ++ due c (ev :: q) s rest := by
    rw [htraffic, due_of_pending hop, if_pos hfits, List.append_assoc]
  exact ⟨⟨_, hlive⟩, fun _ _ => hlive⟩

/-- **The issue loop** issues a beginning of what is due, whatever stops it. -/
theorem issueLoop_bounds (rest : List QuetzCommand) (q : List PipelineEvent) :
    ∀ (issued : ℕ) {h : Host} {s : Pipeline}, s.halted = false → s.fatal = none → Shape c q s →
    Bounds c q s (issueLoop c l q issued h s).2.coreQ (issueLoop c l q issued h s).2 rest := by
  -- The induction is on the queue, as for the outlook.
  induction q with
  | nil =>
      intro issued h s _ _ _
      rw [issueLoop]
      dsimp only
      rw [endTick_coreQ]
      exact Bounds.endTick (.still rfl fun _ => rfl) issued
  | cons ev q ih =>
      intro issued h s hhalted hfatal hshape
      have hissue : ∀ {op : MemOp} {s₁ : Pipeline}, s₁.pendingOp = some op →
          Bounds c (ev :: q) s (ev :: q) s₁ rest → Shape c (ev :: q) s₁ → s₁.halted = false →
          s₁.fatal = none → classify c ev s = (.issue op, s₁) →
          Bounds c (ev :: q) s (issueLoop c l (ev :: q) issued h s).2.coreQ
            (issueLoop c l (ev :: q) issued h s).2 rest := by
        intro op s₁ hop hbounds hshape₁ hhalted₁ hfatal₁ hclass
        obtain ⟨-, -, -, -, -, hcursor⟩ := hshape₁.pending op hop
        have hattempt : Attempt c l op h s₁ (issueMemOp c l op issued h s₁) :=
          issueMemOp_spec hcursor hfatal₁ issued
        have hfits := issueMemOp_fits (c := c) (l := l) (h := h) (s := s₁) op issued
        rw [issueLoop, hclass]
        dsimp only
        generalize issueMemOp c l op issued h s₁ = res at hattempt hfits
        cases hcomplete : res.complete with
        | false =>
            have hpost : Bounds c (ev :: q) s₁ (ev :: q) res.pipe rest :=
              (hattempt.incomplete hcomplete).bounds hcursor hop
            rw [if_pos (by rfl), endTick_coreQ]
            exact (hbounds.trans hhalted₁ hfatal₁ hpost).endTick _
        | true =>
            have hdone := hattempt.complete hcomplete
            have hretired : Bounds c (ev :: q) s q res.pipe rest :=
              hbounds.trans hhalted₁ hfatal₁ (hdone.bounds (hfits hcomplete) hop)
            have hshape₂ := (hdone.moves hhalted₁ hshape₁ hop).shape
            have hok : res.pipe.fatal = none := by
              obtain ⟨e, -, -, hpipe⟩ := hdone
              obtain ⟨halted, hretire, -⟩ := retire_eq l
                (addData .insnCount { s₁ with pendingOp := none, offset := 0, emitter := e })
              rw [hpipe, hretire]
              exact hfatal₁
            have hnext : ¬(!true) = true := Bool.false_ne_true
            rw [if_neg hnext]
            by_cases hstop : res.pipe.halted = true
            · rw [if_pos hstop, endTick_coreQ]
              exact hretired.endTick _
            · rw [if_neg hstop]
              have hgo : res.pipe.halted = false := by simpa using hstop
              exact hretired.trans hgo hok (ih res.issued hgo hok hshape₂)
      have hretire : ∀ {s₁ : Pipeline}, Asked c ev.cmd s s₁ → s.pendingOp = none →
          ¬Issues c ev.cmd → ¬Halts c ev.cmd → classify c ev s = (.retire, s₁) →
          Bounds c (ev :: q) s (issueLoop c l (ev :: q) issued h s).2.coreQ
            (issueLoop c l (ev :: q) issued h s).2 rest := by
        intro s₁ hasked hop hissues hhalts hclass
        have hbounds : Bounds c (ev :: q) s q (retire l s₁) rest :=
          bounds_retired hop hasked hissues hhalts
        have hshape₁ := (moves_retired (l := l) (h := h) hhalted hshape hop hasked hhalts
          (if_neg hissues)).shape
        have hok : (retire l s₁).fatal = none := by
          obtain ⟨halted, hretire, -⟩ := retire_eq l s₁
          obtain ⟨stats, -, rfl⟩ := hasked
          rw [hretire]
          exact hfatal
        rw [issueLoop, hclass]
        dsimp only
        by_cases hstop : (retire l s₁).halted = true
        · rw [if_pos hstop]
          exact ⟨hbounds.issued, hbounds.live⟩
        · rw [if_neg hstop]
          have hgo : (retire l s₁).halted = false := by simpa using hstop
          exact hbounds.trans hgo hok (ih issued hgo hok hshape₁)
      have hclass := classify_spec c ev s
      generalize hres : classify c ev s = res at hclass
      cases hclass with
      | pending op hop => exact hissue hop (.still rfl fun _ => rfl) hshape hhalted hfatal hres
      | @issues s₁ hasked hop hissues =>
          have hissues := hissues (hshape.noRuns ev List.mem_cons_self)
          have hshape₁ := (moves_pending (l := l) (h := h) hhalted hshape hop hasked hissues).shape
          have hbounds : Bounds c (ev :: q) s (ev :: q)
              { s₁ with pendingOp := some (opOf c ev.cmd) } rest :=
            bounds_pending (hshape.idle hop) hop hasked hissues
          obtain ⟨stats, -, rfl⟩ := hasked
          exact hissue rfl hbounds hshape₁ hhalted hfatal hres
      | @consumed s₁ hasked hop hact =>
          exact hretire hasked hop (fun hissues => hissues.2.1 hact)
            (not_halts_of_consume hact) hres
      | @noop s₁ hasked hop hnop =>
          have hcompute : ev.cmd.isCompute = true := by rw [QuetzCommand.isCompute, hnop]; rfl
          exact hretire hasked hop (not_issues_of_isCompute hcompute)
            (not_halts_of_isCompute hcompute) hres
      | @stalls s₁ n hasked hop hact hhalts =>
          have hstill : Bounds c (ev :: q) s ({ ev with remainingStall := n } :: q) s₁ rest := by
            obtain ⟨stats, -, rfl⟩ := hasked
            refine .still rfl fun _ => ?_
            rw [due_of_idle hop, due_of_idle (by exact hop)]
            rfl
          rw [issueLoop, hres]
          dsimp only
          rw [endTick_coreQ]
          exact hstill.endTick issued
      | @halts s₁ hasked hop hhalts =>
          obtain ⟨stats, -, rfl⟩ := hasked
          rw [issueLoop, hres]
          exact .still rfl fun hlive => by cases hlive

/-! ### Refills -/

/-- Queued commands come before the rest. -/
theorem due_queue (hshape : Shape c q s) (evs : List PipelineEvent) (rest : List QuetzCommand) :
    due c (q ++ evs) s rest = due c q s (commands evs ++ rest) := by
  have hcommands : ∀ q : List PipelineEvent,
      commands (q ++ evs) ++ rest = commands q ++ (commands evs ++ rest) := fun q => by
    rw [commands, List.map_append, List.append_assoc]
    rfl
  cases hop : s.pendingOp with
  | none => rw [due_of_idle hop, due_of_idle hop, hcommands]
  | some op =>
      obtain ⟨ev, q', rfl, -, -, -⟩ := hshape.pending op hop
      rw [List.cons_append, due_of_pending hop, due_of_pending hop, hcommands]

/-- Computations are not due. -/
theorem due_computes {cs : List QuetzCommand} (hcs : ∀ cmd ∈ cs, cmd.isCompute = true)
    (rest : List QuetzCommand) : due c q s (cs ++ rest) = due c q s rest := by
  rw [due, due]
  split
  · rw [bound_computes hcs]
  · exact bound_computes hcs rest _

theorem due_drainRun (hok : Ok c l s) (rest : List QuetzCommand) :
    due c (drainRun l s).coreQ (drainRun l s) rest = due c s.coreQ s rest := by
  rw [drainRun, drainRunLoop_eq]
  have hcompute : ∀ cmd ∈ commands (List.replicate (min s.runRemaining
      (l.maxQueueLen - s.coreQ.length)) ⟨s.runNop, s.runStall⟩), cmd.isCompute = true := by
    intro cmd hmem
    obtain ⟨ev, hev, rfl⟩ := List.mem_map.mp hmem
    rw [List.eq_of_mem_replicate hev, QuetzCommand.isCompute, hok.nop]
    rfl
  exact (due_queue hok.shape _ rest).trans (due_computes hcompute rest)

/-- Reading the ring moves commands to the queue. -/
theorem due_refillLoop (ring : List QuetzCommand) : ∀ {s : Pipeline}, Ok c l s →
    ∀ rest, due c (refillLoop l ring s).2.coreQ (refillLoop l ring s).2
      ((refillLoop l ring s).1 ++ rest) = due c s.coreQ s (ring ++ rest) := by
  induction ring with
  | nil => exact fun _ _ => rfl
  | cons cmd ring ih =>
      intro s hok rest
      rw [refillLoop]
      by_cases hgo : s.coreQ.length < l.maxQueueLen ∧ s.runRemaining = 0
      · rw [if_pos hgo]
        dsimp only
        by_cases hrun : cmd.cmd = .computeRun
        · rw [if_pos hrun]
          have hcompute : ∀ cmd' ∈ [cmd], cmd'.isCompute = true := by
            intro cmd' hmem
            rw [List.mem_singleton.mp hmem, QuetzCommand.isCompute, hrun]
            rfl
          have hstart := hok.startRun hrun
          rw [ih hstart.drainRun, due_drainRun hstart]
          exact (due_computes hcompute _).symm
        · rw [if_neg hrun]
          have hread := hok.read hrun (stallOf l cmd)
          have hqueue := due_queue hok.shape [⟨cmd, stallOf l cmd⟩] (ring ++ rest)
          by_cases hexit : cmd.cmd = .exit
          · rw [if_pos hexit]
            exact hqueue
          · rw [if_neg hexit, ih hread]
            exact hqueue
      · rw [if_neg hgo]

theorem due_refill (ring : List QuetzCommand) (hok : Ok c l s) (rest : List QuetzCommand) :
    due c (refill l ring s).2.coreQ (refill l ring s).2 ((refill l ring s).1 ++ rest) =
      due c s.coreQ s (ring ++ rest) := by
  rw [refill, due_refillLoop ring hok.drainRun, due_drainRun hok]

/-- **One tick** issues a beginning of what is due. -/
theorem tick_bounds (hok : Ok c l s) (h : Host) (ring rest : List QuetzCommand) :
    (tick c l h ring s).2.2.emitter.traffic <+:
        s.emitter.traffic ++ due c s.coreQ s (ring ++ rest) ∧
      ((tick c l h ring s).2.2.halted = false → (tick c l h ring s).2.2.fatal = none →
        (tick c l h ring s).2.2.emitter.traffic ++
            due c (tick c l h ring s).2.2.coreQ (tick c l h ring s).2.2
              ((tick c l h ring s).2.1 ++ rest) =
          s.emitter.traffic ++ due c s.coreQ s (ring ++ rest)) := by
  rw [tick]
  by_cases hstop : s.halted = true ∨ s.fatal.isSome = true
  · rw [if_pos hstop]
    exact ⟨List.prefix_append _ _, fun _ _ => rfl⟩
  rw [if_neg hstop]
  rw [not_or, Bool.not_eq_true, Option.not_isSome_iff_eq_none] at hstop
  have hrefills := refill_refills (l := l) ring hok
  rw [← due_refill ring hok, ← hrefills.emitter]
  generalize refill l ring s = filled at hrefills
  have hbounds := issueLoop_bounds (l := l) (h := h) (filled.1 ++ rest) filled.2.coreQ 0
    (s := { filled.2 with refillHitCap := decide (l.maxQueueLen ≤ filled.2.coreQ.length) })
    (hrefills.halted.trans hstop.1) (hrefills.fatal.trans hstop.2)
    (hrefills.ok.shape.congr rfl rfl)
  exact ⟨hbounds.issued, hbounds.live⟩

end Pipeline

/-! ### Runs -/

namespace CoreRun

open Pipeline

variable {c : CoreContext} {l : PipelineLimits} {r : CoreRun} {stream : List QuetzCommand}

/-- The requests of a run, with what is due while it runs, are in the bound of its stream. -/
structure Bounded (c : CoreContext) (stream : List QuetzCommand) (r : CoreRun) : Prop where
  issued : ∀ rest, r.traffic <+: bound c (stream ++ rest)
  live : r.pipe.halted = false → r.pipe.fatal = none → ∀ rest,
    r.traffic ++ due c r.pipe.coreQ r.pipe (r.ring ++ rest) = bound c (stream ++ rest)

/-- **One event.** -/
theorem Bounded.step (hb : Bounded c stream r) (hok : Ok c l stream r) (e : CoreEvent) :
    Bounded c (stream ++ pushed [e]) (r.step c l e) := by
  cases e with
  | push cmds =>
      have hpushed : pushed [.push cmds] = cmds := by simp [pushed]
      rw [hpushed]
      constructor
      · intro rest
        rw [List.append_assoc]
        exact hb.issued _
      · intro hgo hfatal rest
        rw [List.append_assoc, ← hb.live hgo hfatal (cmds ++ rest), ← List.append_assoc r.ring]
        rfl
  | tick now =>
      have hpipe : (r.pipeAt now).Ok c l := hok.pipe.quiet rfl
      have hpushed : pushed [.tick now] = [] := rfl
      rw [hpushed, List.append_nil]
      by_cases hlive : r.pipe.halted = false ∧ r.pipe.fatal = none
      · have hticked := fun rest => tick_bounds hpipe r.host r.ring rest
        have hdue := hb.live hlive.1 hlive.2
        constructor
        · intro rest
          rw [← hdue rest]
          exact (hticked rest).1
        · intro hgo hfatal rest
          rw [← hdue rest]
          exact (hticked rest).2 hgo hfatal
      · have hstop : (r.pipeAt now).halted = true ∨ (r.pipeAt now).fatal.isSome = true := by
          by_contra hgo
          rw [not_or, Bool.not_eq_true, Option.not_isSome_iff_eq_none] at hgo
          exact hlive hgo
        have hstill : (r.pipeAt now).tick c l r.host r.ring = (r.host, r.ring, r.pipeAt now) :=
          if_pos hstop
        rw [CoreRun.step, hstill]
        exact ⟨hb.issued, hb.live⟩
  | answer now i data =>
      have hpushed : pushed [.answer now i data] = [] := rfl
      rw [hpushed, List.append_nil, CoreRun.step]
      cases r.host.inFlight[i]? with
      | none => exact hb
      | some req =>
          obtain ⟨e, stats, hpipe, he⟩ :=
            handleMemResponse_frame req.id (req.body.response data) (r.pipeAt now)
          have htraffic : e.traffic = r.traffic := by
            rw [he, traffic_handleResponse]
            rfl
          dsimp only
          rw [hpipe]
          refine ⟨fun rest => ?_, fun hgo hfatal rest => ?_⟩
          · rw [CoreRun.traffic, htraffic]
            exact hb.issued rest
          · rw [CoreRun.traffic, htraffic]
            exact hb.live hgo hfatal rest
  | send vcpu link body =>
      have hpushed : pushed [.send vcpu link body] = [] := rfl
      rw [hpushed, List.append_nil]
      exact ⟨hb.issued, hb.live⟩

/-- **A whole run.** -/
theorem Bounded.run (es : List CoreEvent) : ∀ {r : CoreRun} {stream : List QuetzCommand},
    Bounded c stream r → Ok c l stream r → Bounded c (stream ++ pushed es) (r.run c l es) := by
  induction es with
  | nil =>
      intro r stream hb _
      have hpushed : pushed [] = [] := rfl
      rw [hpushed, List.append_nil]
      exact hb
  | cons e es ih =>
      intro r stream hb hok
      have hpushed : pushed (e :: es) = pushed [e] ++ pushed es := by
        simp [pushed]
      rw [hpushed, ← List.append_assoc]
      exact ih (hb.step hok e) (hok.step e)

/-- **The requests of a run are a beginning of the bound of its stream**, whatever the limits and
latencies, the schedules of the ring and of the responses, and the reason the run stops. -/
theorem traffic_bounded (h : Host) (es : List CoreEvent) {stream : List QuetzCommand}
    (hstream : pushed es <+: stream) :
    (run c l { host := h } es).traffic <+: bound c stream := by
  have hstart : Bounded c [] { host := h } := ⟨fun _ => List.nil_prefix, fun _ _ _ => rfl⟩
  have hrun := hstart.run (l := l) es ⟨ok_start c l, rfl⟩
  obtain ⟨more, rfl⟩ := hstream
  exact hrun.issued more

end CoreRun

end Quetz
