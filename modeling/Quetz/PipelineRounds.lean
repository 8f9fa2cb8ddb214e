import Quetz.PipelineTraffic

/-!
# The Rounds of a Tick

`QuetzEventPipeline::tick` (`src/quetz_pipeline.cc`) is a loop that runs while the staging queue is
not empty, with a `continue` after a command that left the queue or whose access became pending.
`round` is one pass through it. `issueLoop` is its end: a command takes two rounds at most, one
until its access is pending and one that issues it.

## Main results

* `rounds_eq`: the loop ends, and with the state of `issueLoop`.
* `issueLoop_rule`: what each round keeps holds at the end.
-/

namespace Quetz

namespace Pipeline

/-! ### One round -/

/-- How a round ends: the loop goes on with the rest of the queue and the requests of this tick, or
the tick is over. -/
inductive Round where
  | next (q : List PipelineEvent) (issued : ℕ) (h : Host) (s : Pipeline)
  | done (h : Host) (s : Pipeline)

/-- One round of the loop of a tick. -/
def round (c : CoreContext) (l : PipelineLimits) (q : List PipelineEvent) (issued : ℕ) (h : Host)
    (s : Pipeline) : Round :=
  match q with
  | [] => .done h (endTick issued { s with coreQ := [] })
  | ev :: q =>
    match s.pendingOp with
    | some op =>
      let res := issueMemOp c l op issued h s
      if !res.complete then .done res.host (endTick res.issued { res.pipe with coreQ := ev :: q })
      else if res.pipe.halted then .done res.host (endTick res.issued { res.pipe with coreQ := q })
      else .next q res.issued res.host res.pipe
    | none =>
      match classify c ev s with
      | (.issue _, s) => .next (ev :: q) issued h s
      | (.retire, s) =>
        let s := retire l s
        if s.halted then .done h { s with coreQ := q } else .next q issued h s
      | (.stall ev, s) => .done h (endTick issued { s with coreQ := ev :: q })
      | (.halt, s) => .done h { s with
          guestExit := ev.cmd.cmd == .exit
          halted := true
          coreQ := q }

/-- The loop of a tick, for at most some rounds; `none` if it is not over then. -/
def rounds (c : CoreContext) (l : PipelineLimits) :
    ℕ → List PipelineEvent → ℕ → Host → Pipeline → Option (Host × Pipeline)
  | 0, _, _, _, _ => none
  | fuel + 1, q, issued, h, s =>
    match round c l q issued h s with
    | .next q issued h s => rounds c l fuel q issued h s
    | .done h s => some (h, s)

/-- A tick whose loop runs for at most some rounds. -/
def tickRounds (c : CoreContext) (l : PipelineLimits) (fuel : ℕ) (h : Host)
    (ring : List QuetzCommand) (s : Pipeline) : Option (Host × List QuetzCommand × Pipeline) :=
  if s.halted ∨ s.fatal.isSome then some (h, ring, s)
  else
    let filled := refill l ring s
    let s := { filled.2 with refillHitCap := decide (l.maxQueueLen ≤ filled.2.coreQ.length) }
    (rounds c l fuel s.coreQ 0 h s).map fun res => (res.1, filled.1, res.2)

/-! ### The end of the loop -/

variable {c : CoreContext} {l : PipelineLimits} {q : List PipelineEvent} {ev : PipelineEvent}
  {op : MemOp}

theorem classify_pending {s : Pipeline} (hop : s.pendingOp = some op) :
    classify c ev s = (.issue op, s) := by
  rw [classify, hop]

/-- A command that is to be issued has its access pending. -/
theorem pendingOp_classify {s s₁ : Pipeline} (hclass : classify c ev s = (.issue op, s₁)) :
    s₁.pendingOp = some op := by
  have hspec := classify_spec c ev s
  rw [hclass] at hspec
  cases hspec with
  | pending op hop => exact hop
  | issues hasked hop hissues => rfl

/-- A pending access takes one round. -/
theorem rounds_pending {fuel : ℕ} (ih : ∀ issued h s, rounds c l fuel q issued h s =
      some (issueLoop c l q issued h s)) (issued : ℕ) (h : Host) {s : Pipeline}
    (hop : s.pendingOp = some op) :
    rounds c l (fuel + 1) (ev :: q) issued h s = some (issueLoop c l (ev :: q) issued h s) := by
  rw [rounds, round, hop, issueLoop, classify_pending hop]
  dsimp only
  generalize issueMemOp c l op issued h s = res
  by_cases hopen : (!res.complete) = true
  · rw [if_pos hopen, if_pos hopen]
  · rw [if_neg hopen, if_neg hopen]
    by_cases hstop : res.pipe.halted = true
    · rw [if_pos hstop, if_pos hstop]
    · rw [if_neg hstop, if_neg hstop]
      exact ih _ _ _

/-- **The loop ends** after two rounds for each command and one for the empty queue. -/
theorem rounds_eq (q : List PipelineEvent) : ∀ {fuel : ℕ}, 2 * q.length + 1 ≤ fuel →
    ∀ (issued : ℕ) (h : Host) (s : Pipeline),
    rounds c l fuel q issued h s = some (issueLoop c l q issued h s) := by
  induction q with
  | nil =>
      intro fuel hfuel issued h s
      obtain ⟨fuel, rfl⟩ := Nat.exists_eq_add_of_le' hfuel
      rfl
  | cons ev q ih =>
      intro fuel hfuel issued h s
      rw [List.length_cons] at hfuel
      obtain ⟨fuel, rfl⟩ := Nat.exists_eq_add_of_le' (show 2 ≤ fuel by omega)
      cases hop : s.pendingOp with
      | some op => exact rounds_pending (ih (by omega)) issued h hop
      | none =>
          have hrest : ∀ issued h s, rounds c l fuel q issued h s =
              some (issueLoop c l q issued h s) := ih (by omega)
          rw [rounds, round, hop]
          dsimp only
          rcases hclass : classify c ev s with ⟨head, s₁⟩
          cases head with
          | issue op =>
              have hop₁ : s₁.pendingOp = some op := pendingOp_classify hclass
              dsimp only
              rw [rounds_pending hrest issued h hop₁, issueLoop, issueLoop, hclass,
                classify_pending hop₁]
          | retire =>
              dsimp only
              rw [issueLoop, hclass]
              dsimp only
              by_cases hstop : (retire l s₁).halted = true
              · rw [if_pos hstop, if_pos hstop]
              · rw [if_neg hstop, if_neg hstop]
                exact ih (by omega) _ _ _
          | stall ev' => rw [issueLoop, hclass]
          | halt => rw [issueLoop, hclass]

/-- A tick ends. -/
theorem tickRounds_eq (h : Host) (ring : List QuetzCommand) (s : Pipeline) {fuel : ℕ}
    (hfuel : 2 * (refill l ring s).2.coreQ.length + 1 ≤ fuel) :
    tickRounds c l fuel h ring s = some (tick c l h ring s) := by
  rw [tickRounds, tick]
  by_cases hstop : s.halted = true ∨ s.fatal.isSome = true
  · rw [if_pos hstop, if_pos hstop]
  · rw [if_neg hstop, if_neg hstop]
    dsimp only
    rw [rounds_eq _ hfuel]
    rfl

/-! ### What each round keeps -/

/-- How a round ends, for an invariant of the loop and what holds at its end. -/
def Round.Keeps (I : List PipelineEvent → ℕ → Host → Pipeline → Prop)
    (R : Host → Pipeline → Prop) : Round → Prop
  | .next q issued h s => I q issued h s
  | .done h s => R h s

/-- **The rule of the loop.** -/
theorem issueLoop_rule {I : List PipelineEvent → ℕ → Host → Pipeline → Prop}
    {R : Host → Pipeline → Prop}
    (hround : ∀ q issued h s, I q issued h s → (round c l q issued h s).Keeps I R)
    {q : List PipelineEvent} {issued : ℕ} {h : Host} {s : Pipeline} (hstart : I q issued h s) :
    R (issueLoop c l q issued h s).1 (issueLoop c l q issued h s).2 := by
  have hkeep : ∀ (fuel : ℕ) {q : List PipelineEvent} {issued : ℕ} {h : Host} {s : Pipeline},
      I q issued h s → ∀ res ∈ rounds c l fuel q issued h s, R res.1 res.2 := by
    intro fuel
    induction fuel with
    | zero => exact fun _ res hres => (by cases hres)
    | succ fuel ih =>
        intro q issued h s hI res hres
        have hone := hround q issued h s hI
        rw [rounds] at hres
        cases hend : round c l q issued h s with
        | next q' issued' h' s' =>
            rw [hend] at hres hone
            exact ih hone res hres
        | done h' s' =>
            rw [hend] at hres hone
            obtain rfl : (h', s') = res := Option.some.inj hres
            exact hone
  exact hkeep (2 * q.length + 1) hstart _ (rounds_eq q le_rfl issued h s)

end Pipeline

end Quetz
