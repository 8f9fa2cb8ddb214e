import Quetz.Coalescing
import Quetz.PipelineIssue

/-!
# The Traffic of the Pipeline

What a stream of commands becomes does not depend on the limits of the pipeline. `reference` is
the list of requests of a stream, computed without queues, stalls or budgets, and `outlook` adds
to the requests of a state those that its queue and the commands after it still lead to. The
invariant is that the outlook is the reference of the commands read so far, whatever comes after
them: every refill, every stall and every part of an access keeps it.

## Main results

* `issueLoop_moves` / `refill_refills`: the two halves of a tick.
* `traffic_independent_of_limits`: two runs on one stream.
-/

namespace Quetz

open MemRequestEmitter

/-! ### The reference -/

section Reference

variable (c : CoreContext)

/-- The answer of the region table to a command. -/
def answerOf (cmd : QuetzCommand) : Option Handled :=
  if cmd.isAccess then
    c.regionTable.map fun table => handleMemoryAccess table c.filterUnmatchedRegions cmd
  else none

/-- What becomes of a command. -/
def actionOf (cmd : QuetzCommand) : MemRegionHandler.Action :=
  (answerOf c cmd).elim .forward Handled.action

/-- The access of a command. -/
def opOf (cmd : QuetzCommand) : MemOp where
  isRead := cmd.cmd == .read
  isMmio := actionOf c cmd == .forwardMmio
  addr := cmd.addr
  size := cmd.size
  data := cmd.data

/-- The command ends the run. -/
def Halts (cmd : QuetzCommand) : Prop := cmd.cmd = .exit ∨ actionOf c cmd = .endSim

/-- The command is an access that goes to a link. -/
def Issues (cmd : QuetzCommand) : Prop :=
  ¬(cmd.cmd = .nop ∨ cmd.cmd = .computeRun) ∧ actionOf c cmd ≠ .consume ∧ ¬Halts c cmd

instance (cmd : QuetzCommand) : Decidable (Halts c cmd) := inferInstanceAs (Decidable (_ ∨ _))

instance (cmd : QuetzCommand) : Decidable (Issues c cmd) := inferInstanceAs (Decidable (_ ∧ _))

/-- The requests of a command: its access, cut at the cache lines unless it is mmio. -/
def requestsOf (cmd : QuetzCommand) : List (Link × Body) :=
  if Issues c cmd then (opOf c cmd).requestsFrom c 0 else []

/-- The access went no further than its region handler. -/
def Handled.final (a : Handled) : Bool := a.action == .consume || a.action == .endSim

/-- The charge of a command that is consumed or ends the run. -/
def chargesOf (cmd : QuetzCommand) : List (QuetzCommand × Handled) :=
  ((answerOf c cmd).toList.filter Handled.final).map fun a => (cmd, a)

variable {β : Type}

/-- What the commands contribute, in order, up to the one that ends the run. -/
def upToHalt (f : QuetzCommand → List β) : List QuetzCommand → List β
  | [] => []
  | cmd :: cmds => f cmd ++ if Halts c cmd then [] else upToHalt f cmds

/-- The requests of a stream of commands. -/
def reference (stream : List QuetzCommand) : List (Link × Body) :=
  upToHalt c (requestsOf c) stream

/-- The charges of a stream of commands. -/
def referenceCharges (stream : List QuetzCommand) : List (QuetzCommand × Handled) :=
  upToHalt c (chargesOf c) stream

variable {c} {cmd : QuetzCommand}

/-- No region answers a command that is no access. -/
theorem answerOf_of_not_access (h : cmd.isAccess = false) : answerOf c cmd = none := by
  rw [answerOf, h]
  rfl

/-- Such a command is forwarded. -/
theorem actionOf_of_not_access (h : cmd.isAccess = false) : actionOf c cmd = .forward := by
  rw [actionOf, answerOf_of_not_access h]
  rfl

/-- It charges no region. -/
theorem chargesOf_of_not_access (h : cmd.isAccess = false) : chargesOf c cmd = [] := by
  rw [chargesOf, answerOf_of_not_access h]
  rfl

/-- The command is part of a compute run, or stands for one. -/
def QuetzCommand.isCompute (cmd : QuetzCommand) : Bool := cmd.cmd == .nop || cmd.cmd == .computeRun

/-- A computation is no access. -/
theorem QuetzCommand.not_access_of_isCompute (h : cmd.isCompute = true) : cmd.isAccess = false := by
  simp only [isCompute, Bool.or_eq_true, beq_iff_eq] at h
  rcases h with h | h <;> rw [isAccess, h] <;> rfl

/-- A computation neither ends the run nor contributes to it. -/
theorem not_halts_of_isCompute (h : cmd.isCompute = true) : ¬Halts c cmd := by
  rintro (hexit | hend)
  · rw [QuetzCommand.isCompute, hexit] at h
    cases h
  · rw [actionOf_of_not_access (QuetzCommand.not_access_of_isCompute h)] at hend
    cases hend

/-- A computation requests nothing. -/
theorem requestsOf_of_isCompute (h : cmd.isCompute = true) : requestsOf c cmd = [] := by
  refine if_neg fun hissues => hissues.1 ?_
  simpa [QuetzCommand.isCompute] using h

/-- It charges no region. -/
theorem chargesOf_of_isCompute (h : cmd.isCompute = true) : chargesOf c cmd = [] :=
  chargesOf_of_not_access (QuetzCommand.not_access_of_isCompute h)

/-- Computations can be left out. -/
theorem upToHalt_computes {f : QuetzCommand → List β}
    (hf : ∀ cmd, cmd.isCompute = true → f cmd = []) {cs : List QuetzCommand}
    (hcs : ∀ cmd ∈ cs, cmd.isCompute = true) (rest : List QuetzCommand) : ∀ cmds,
    upToHalt c f (cmds ++ (cs ++ rest)) = upToHalt c f (cmds ++ rest)
  | [] => by
    rw [List.nil_append, List.nil_append]
    induction cs with
    | nil => rfl
    | cons cmd cs ih =>
        have hcmd := hcs cmd List.mem_cons_self
        rw [List.cons_append, upToHalt, hf cmd hcmd, if_neg (not_halts_of_isCompute hcmd),
          List.nil_append]
        exact ih fun cmd hmem => hcs cmd (List.mem_cons_of_mem _ hmem)
  | cmd :: cmds => by
    rw [List.cons_append, List.cons_append, upToHalt, upToHalt, upToHalt_computes hf hcs rest cmds]

/-- An access that the region table lets pass is not charged. -/
theorem chargesOf_of_passes (hconsume : actionOf c cmd ≠ .consume)
    (hend : actionOf c cmd ≠ .endSim) : chargesOf c cmd = [] := by
  rw [chargesOf]
  rw [actionOf] at hconsume hend
  cases hanswer : answerOf c cmd with
  | none => rfl
  | some a =>
      rw [hanswer] at hconsume hend
      have hfinal : a.final = false := by
        simp only [Handled.final, Bool.or_eq_false_iff, beq_eq_false_iff_ne]
        exact ⟨hconsume, hend⟩
      simp [hfinal]

/-- An access that is issued charges no region. -/
theorem Issues.chargesOf (h : Issues c cmd) : chargesOf c cmd = [] :=
  chargesOf_of_passes h.2.1 fun hend => h.2.2 (Or.inr hend)

/-- It requests what its operation does from the start. -/
theorem Issues.requestsOf (h : Issues c cmd) :
    requestsOf c cmd = (opOf c cmd).requestsFrom c 0 := if_pos h

/-- A consumed access is neither issued nor the end of the run. -/
theorem not_halts_of_consume (h : actionOf c cmd = .consume) : ¬Halts c cmd := by
  rintro (hexit | hend)
  · have hacc : cmd.isAccess = false := by rw [QuetzCommand.isAccess, hexit]; rfl
    rw [actionOf_of_not_access hacc] at h
    cases h
  · rw [h] at hend
    cases hend

/-- What the beginning of a stream contributes is a prefix. -/
theorem upToHalt_prefix (f : QuetzCommand → List β) : ∀ cmds more,
    upToHalt c f cmds <+: upToHalt c f (cmds ++ more)
  | [], _ => List.nil_prefix
  | cmd :: cmds, more => by
    rw [List.cons_append, upToHalt, upToHalt, List.prefix_append_right_inj]
    split_ifs
    · exact List.prefix_refl _
    · exact upToHalt_prefix f cmds more

end Reference

/-! ### What a state still leads to -/

namespace Pipeline

/-- The commands of a queue. -/
def commands (q : List PipelineEvent) : List QuetzCommand := q.map PipelineEvent.cmd

/-- The accesses that went no further than their region handler, with its answer. -/
def finals (s : Pipeline) : List (QuetzCommand × Handled) := s.handled.filter fun a => a.2.final

/-- The counter of a region handler, if the statistic is one. -/
def regionStat : CoreStat → Option RegionStat
  | .region stat => some stat
  | _ => none

/-- The charges of the region handlers in the statistics. -/
def regionStats (stats : List (CoreStat × ℕ)) : List RegionStat :=
  stats.filterMap fun entry => regionStat entry.1

/-- The statistics have one entry for each charge of a region handler. -/
def Charged (s : Pipeline) : Prop :=
  regionStats s.stats = s.handled.filterMap fun a => a.2.stat

section Outlook

variable (c : CoreContext) (q : List PipelineEvent) (s : Pipeline) (rest : List QuetzCommand)

/-- The requests that the queue `q` and the commands `rest` after it still lead to. -/
def todo : List (Link × Body) :=
  if s.halted then []
  else
    match s.pendingOp with
    | some op => op.requestsFrom c s.offset ++
        upToHalt c (requestsOf c) (commands q.tail ++ rest)
    | none => upToHalt c (requestsOf c) (commands q ++ rest)

/-- The charges that the queue `q` and the commands `rest` after it still lead to. -/
def owed : List (QuetzCommand × Handled) :=
  if s.halted then [] else upToHalt c (chargesOf c) (commands q ++ rest)

/-- The requests and the charges so far and those still to come. -/
def outlook : List (Link × Body) × List (QuetzCommand × Handled) :=
  (s.emitter.traffic ++ todo c q s rest, finals s ++ owed c q s rest)

/-- The queue has no compute run, and a pending access is that of its head. -/
structure Shape : Prop where
  noRuns : ∀ ev ∈ q, ev.cmd.cmd ≠ .computeRun
  idle : s.pendingOp = none → s.offset = 0
  pending : ∀ op, s.pendingOp = some op → ∃ ev q', q = ev :: q' ∧ Issues c ev.cmd ∧
    op = opOf c ev.cmd ∧ op.Cursor s.offset

end Outlook

variable {c : CoreContext} {l : PipelineLimits} {h h' : Host} {s s' : Pipeline}
  {q q' : List PipelineEvent} {ev : PipelineEvent} {rest : List QuetzCommand}

/-- A command in the queue ends the run. -/
def Stops (c : CoreContext) (q : List PipelineEvent) : Prop := ∃ ev ∈ q, Halts c ev.cmd

/-- The state did not halt at the limit on the instructions. -/
def Unlimited (l : PipelineLimits) (s : Pipeline) : Prop := l.maxInsts = 0 ∨ s.halted = false

/-- From one state of the issue loop to another: the outlook stays, and a command that ends the
run stays in the queue until it does. -/
structure Moves (c : CoreContext) (l : PipelineLimits) (q : List PipelineEvent) (h : Host)
    (s : Pipeline) (q' : List PipelineEvent) (h' : Host) (s' : Pipeline) : Prop where
  shape : Shape c q' s'
  outlook : Unlimited l s' → ∀ rest, outlook c q' s' rest = outlook c q s rest
  running : s'.halted = false → s.halted = false ∧ (Stops c q → Stops c q')
  emitted : Emitted c h s.emitter h' s'.emitter
  run : s'.runPart = s.runPart
  cap : s'.refillHitCap = s.refillHitCap
  charged : Charged s → Charged s'

/-- A run that has not met the limit never had. -/
theorem Moves.unlimited (hmoves : Moves c l q h s q' h' s') (hs' : Unlimited l s') :
    Unlimited l s :=
  hs'.imp id fun hgo => (hmoves.running hgo).1

/-- Two moves, one after the other. -/
theorem Moves.trans {h₁ : Host} {s₁ : Pipeline} {q₁ : List PipelineEvent}
    (h₀₁ : Moves c l q h s q₁ h₁ s₁) (h₁₂ : Moves c l q₁ h₁ s₁ q' h' s') :
    Moves c l q h s q' h' s' where
  shape := h₁₂.shape
  outlook hs' rest := (h₁₂.outlook hs' rest).trans (h₀₁.outlook (h₁₂.unlimited hs') rest)
  running hgo := by
    obtain ⟨hgo₁, hstops₁₂⟩ := h₁₂.running hgo
    obtain ⟨hgo₀, hstops₀₁⟩ := h₀₁.running hgo₁
    exact ⟨hgo₀, fun hstops => hstops₁₂ (hstops₀₁ hstops)⟩
  emitted := h₀₁.emitted.trans h₁₂.emitted
  run := h₁₂.run.trans h₀₁.run
  cap := h₁₂.cap.trans h₀₁.cap
  charged hs := h₁₂.charged (h₀₁.charged hs)

/-- The head of the queue leaves it, unless it ends the run. -/
theorem Stops.tail (hstops : Stops c (ev :: q)) (hhalts : ¬Halts c ev.cmd) : Stops c q := by
  obtain ⟨ev', hmem, hev'⟩ := hstops
  rcases List.mem_cons.mp hmem with rfl | hmem
  · exact absurd hev' hhalts
  · exact ⟨ev', hmem, hev'⟩

/-- The pending operation and its cursor decide. -/
theorem Shape.congr (hshape : Shape c q s) (hop : s'.pendingOp = s.pendingOp)
    (hoff : s'.offset = s.offset) : Shape c q s' :=
  ⟨hshape.noRuns, fun hnone => hoff.trans (hshape.idle (hop.symm.trans hnone)),
    fun op hsome => by
      rw [hoff]
      exact hshape.pending op (hop.symm.trans hsome)⟩

/-! ### The head of the queue -/

/-- The region table was asked about a command: the answer is noted and charged. -/
def Asked (c : CoreContext) (cmd : QuetzCommand) (s s₁ : Pipeline) : Prop :=
  ∃ stats, regionStats stats = regionStats s.stats ++
      (answerOf c cmd).toList.filterMap Handled.stat ∧
    s₁ = { s with
      handled := s.handled ++ (answerOf c cmd).toList.map fun a => (cmd, a)
      stats := stats }

/-- A command that is asked adds its charges. -/
theorem Asked.finals {cmd : QuetzCommand} (hs : Asked c cmd s s') :
    finals s' = finals s ++ chargesOf c cmd := by
  obtain ⟨stats, -, rfl⟩ := hs
  rw [Pipeline.finals, Pipeline.finals, List.filter_append, chargesOf, List.filter_map]
  rfl

/-- Nothing but regions is charged. -/
theorem Asked.charged {cmd : QuetzCommand} (hs : Asked c cmd s s') (hcharged : Charged s) :
    Charged s' := by
  obtain ⟨stats, hstats, rfl⟩ := hs
  rw [Charged] at hcharged ⊢
  rw [List.filterMap_append, ← hcharged, hstats, List.filterMap_map]
  rfl

/-- Further statistics that are not charges. -/
theorem Asked.addAll {cmd : QuetzCommand} (hs : Asked c cmd s s') {stats : List CoreStat}
    (hstats : ∀ stat ∈ stats, regionStat stat = none) : Asked c cmd s (addAll stats s') := by
  obtain ⟨stats', hstats', rfl⟩ := hs
  refine ⟨stats' ++ stats.map fun stat => (stat, 1), ?_, rfl⟩
  have hnone : (stats.map fun stat => (stat, 1)).filterMap
      (fun entry : CoreStat × ℕ => regionStat entry.1) = [] := by
    rw [List.filterMap_map, List.filterMap_eq_nil_iff]
    exact hstats
  rw [← hstats', regionStats, List.filterMap_append, hnone, List.append_nil, regionStats]

/-- The filter asks the region table about an access. -/
theorem filter_asked (c : CoreContext) (cmd : QuetzCommand) (s : Pipeline) :
    ∃ s₁, (if cmd.isAccess then filterHandle c cmd s else (.forward, s)) = (actionOf c cmd, s₁) ∧
      Asked c cmd s s₁ := by
  by_cases hacc : cmd.isAccess = true
  · rw [if_pos hacc, filterHandle]
    cases htable : c.regionTable with
    | none =>
        have hnone : answerOf c cmd = none := by rw [answerOf, if_pos hacc, htable]; rfl
        refine ⟨s, ?_, s.stats, ?_, ?_⟩
        · rw [actionOf, hnone]
          rfl
        · simp [hnone]
        · simp [hnone]
    | some table =>
        have hsome : answerOf c cmd =
            some (handleMemoryAccess table c.filterUnmatchedRegions cmd) := by
          rw [answerOf, if_pos hacc, htable]
          rfl
        dsimp only
        generalize handleMemoryAccess table c.filterUnmatchedRegions cmd = answer at hsome
        refine ⟨_, by rw [actionOf, hsome]; rfl, ?_⟩
        cases hstat : answer.stat with
        | none => exact ⟨s.stats, by simp [hsome, hstat], by simp [hsome]⟩
        | some stat =>
            refine ⟨s.stats ++ [(.region stat, 1)], ?_, ?_⟩
            · simp [hsome, hstat, regionStats, regionStat]
            · simp [hsome, addData]
  · have hacc' : cmd.isAccess = false := by simpa using hacc
    have hnone := answerOf_of_not_access (c := c) hacc'
    rw [if_neg hacc]
    refine ⟨s, ?_, s.stats, ?_, ?_⟩
    · rw [actionOf_of_not_access hacc']
    · simp [hnone]
    · simp [hnone]

/-- Everything the filter and the transform can do with the head of the queue. -/
inductive Classified (c : CoreContext) (ev : PipelineEvent) (s : Pipeline) :
    Head × Pipeline → Prop
  | pending (op : MemOp) (hop : s.pendingOp = some op) : Classified c ev s (.issue op, s)
  | consumed {s₁ : Pipeline} (hasked : Asked c ev.cmd s s₁) (hop : s.pendingOp = none)
      (hact : actionOf c ev.cmd = .consume) : Classified c ev s (.retire, s₁)
  | halts {s₁ : Pipeline} (hasked : Asked c ev.cmd s s₁) (hop : s.pendingOp = none)
      (hhalts : Halts c ev.cmd) : Classified c ev s (.halt, s₁)
  | stalls {s₁ : Pipeline} (n : ℕ) (hasked : Asked c ev.cmd s s₁) (hop : s.pendingOp = none)
      (hact : actionOf c ev.cmd ≠ .consume) (hhalts : ¬Halts c ev.cmd) :
      Classified c ev s (.stall { ev with remainingStall := n }, s₁)
  | noop {s₁ : Pipeline} (hasked : Asked c ev.cmd s s₁) (hop : s.pendingOp = none)
      (hnop : ev.cmd.cmd = .nop) : Classified c ev s (.retire, s₁)
  | issues {s₁ : Pipeline} (hasked : Asked c ev.cmd s s₁) (hop : s.pendingOp = none)
      (hissues : ev.cmd.cmd ≠ .computeRun → Issues c ev.cmd) :
      Classified c ev s (.issue (opOf c ev.cmd), { s₁ with pendingOp := some (opOf c ev.cmd) })

/-- The statistics of the transform are not those of a region. -/
theorem regionStat_transformStats (c : CoreContext) (ev : PipelineEvent) (r : TransformResult) :
    ∀ stat ∈ transformStats c ev r, regionStat stat = none := by
  intro stat hstat
  cases r with
  | stall ev' =>
      rw [transformStats, List.mem_singleton] at hstat
      rw [hstat]
      split_ifs <;> rfl
  | consumedNoop =>
      unfold transformStats computeStats at hstat
      simp only [List.mem_append, List.mem_cons, List.not_mem_nil, or_false] at hstat
      rcases hstat with (rfl | rfl) | hstat
      · rfl
      · rfl
      · split_ifs at hstat
        · split at hstat <;> simp_all [regionStat]
        · cases hstat
  | emitMemop op => cases hstat
  | haltExit => cases hstat

/-- A command that halts is transformed to an exit. -/
theorem transformProcess_halts (hhalts : Halts c ev.cmd) :
    transformProcess ev (actionOf c ev.cmd) = .haltExit := by
  rw [transformProcess]
  rcases hhalts with hexit | hend
  · rw [if_pos hexit]
  · rw [if_pos hend, ite_self]

/-- What classifying an event does. -/
theorem classify_spec (c : CoreContext) (ev : PipelineEvent) (s : Pipeline) :
    Classified c ev s (classify c ev s) := by
  rw [classify]
  cases hop : s.pendingOp with
  | some op => exact .pending op hop
  | none =>
      obtain ⟨s₁, hfilter, hasked⟩ := filter_asked c ev.cmd s
      dsimp only
      rw [hfilter]
      have hconsume : (ev.cmd.isAccess = true ∧ actionOf c ev.cmd = .consume) ↔
          actionOf c ev.cmd = .consume := by
        refine ⟨fun hand => hand.2, fun hact => ⟨?_, hact⟩⟩
        by_contra hacc
        rw [actionOf_of_not_access (by simpa using hacc)] at hact
        cases hact
      by_cases hact : actionOf c ev.cmd = .consume
      · rw [if_pos (hconsume.mpr hact)]
        have hnone : ∀ stat ∈ [CoreStat.insnCount], regionStat stat = none := by decide
        exact .consumed (hasked.addAll hnone) hop hact
      rw [if_neg (fun hand => hact (hconsume.mp hand))]
      have hasked' := hasked.addAll (regionStat_transformStats c ev
        (transformProcess ev (actionOf c ev.cmd)))
      dsimp only
      generalize addAll (transformStats c ev (transformProcess ev (actionOf c ev.cmd))) s₁ = s₂
        at hasked'
      by_cases hhalts : Halts c ev.cmd
      · rw [transformProcess_halts hhalts]
        exact .halts hasked' hop hhalts
      rw [Halts, not_or] at hhalts
      rw [transformProcess, if_neg hhalts.1, if_neg hhalts.2]
      have hhalts := not_or.mpr hhalts
      by_cases hstall : 0 < ev.remainingStall
      · rw [if_pos hstall]
        exact .stalls _ hasked' hop hact hhalts
      rw [if_neg hstall]
      by_cases hnop : ev.cmd.cmd = .nop
      · rw [if_pos hnop]
        exact .noop hasked' hop hnop
      rw [if_neg hnop]
      exact .issues hasked' hop fun hrun => ⟨not_or.mpr ⟨hnop, hrun⟩, hact, hhalts⟩

/-! ### The issue loop -/

/-- The rest of the pending operation comes first. -/
theorem todo_of_pending (hhalted : s.halted = false) {op : MemOp} (hop : s.pendingOp = some op) :
    todo c (ev :: q) s rest = op.requestsFrom c s.offset ++
      upToHalt c (requestsOf c) (commands q ++ rest) := by
  rw [todo, hhalted, hop]
  rfl

/-- Without one the queue comes first. -/
theorem todo_of_idle (hhalted : s.halted = false) (hop : s.pendingOp = none) :
    todo c q s rest = upToHalt c (requestsOf c) (commands q ++ rest) := by
  rw [todo, hhalted, hop]
  rfl

/-- A pipeline that runs owes the charges of its queue and its ring. -/
theorem owed_of_running (hhalted : s.halted = false) :
    owed c q s rest = upToHalt c (chargesOf c) (commands q ++ rest) := by
  rw [owed, hhalted]
  rfl

/-- The head of a queue, without the rest of it. -/
theorem upToHalt_head {β : Type} {f : QuetzCommand → List β} (hhalts : ¬Halts c ev.cmd) :
    upToHalt c f (commands (ev :: q) ++ rest) = f ev.cmd ++ upToHalt c f (commands q ++ rest) := by
  rw [commands, List.map_cons, List.cons_append, upToHalt, if_neg hhalts]
  rfl

/-- A retired command counts, and it halts only at the limit on the instructions. -/
theorem retire_eq (l : PipelineLimits) (s : Pipeline) : ∃ halted,
    retire l s = { s with instCount := s.instCount + 1, halted := halted } ∧
      (l.maxInsts = 0 ∨ halted = false → halted = s.halted) := by
  rw [retire, checkMaxInsts]
  split_ifs with hlimit
  · refine ⟨true, rfl, fun hor => ?_⟩
    rcases hor with hzero | hgo
    · exact absurd hlimit.1 (by omega)
    · cases hgo
  · exact ⟨s.halted, rfl, fun _ => rfl⟩

/-- The head of the queue leaves it without a request. -/
theorem moves_retired (hhalted : s.halted = false) (hshape : Shape c (ev :: q) s)
    (hop : s.pendingOp = none) {s₁ : Pipeline} (hasked : Asked c ev.cmd s s₁)
    (hhalts : ¬Halts c ev.cmd) (hnone : requestsOf c ev.cmd = []) :
    Moves c l (ev :: q) h s q h (retire l s₁) := by
  have hfinals := hasked.finals
  have hcharged : Charged s → Charged s₁ := hasked.charged
  obtain ⟨stats, -, rfl⟩ := hasked
  obtain ⟨halted, hretire, hlimit⟩ := retire_eq l { s with
    handled := s.handled ++ (answerOf c ev.cmd).toList.map fun a => (ev.cmd, a)
    stats := stats }
  rw [hretire]
  refine ⟨⟨fun ev' hmem => hshape.noRuns ev' (List.mem_cons_of_mem _ hmem), hshape.idle,
    fun op hsome => ?_⟩, fun hunlimited rest => ?_, fun _ => ⟨hhalted, fun hstops => ?_⟩, .refl,
      rfl,
    rfl, hcharged⟩
  · rw [hop] at hsome
    cases hsome
  · have hgo : halted = false := (hlimit hunlimited).trans hhalted
    rw [outlook, outlook, todo_of_idle hhalted hop, owed_of_running hhalted, upToHalt_head hhalts,
      upToHalt_head hhalts, hnone, List.nil_append, ← List.append_assoc, ← hfinals]
    rw [todo_of_idle (by exact hgo) (by exact hop), owed_of_running (by exact hgo)]
    rfl
  · exact hstops.tail hhalts

/-- The access of the head of the queue becomes pending. -/
theorem moves_pending (hhalted : s.halted = false) (hshape : Shape c (ev :: q) s)
    (hop : s.pendingOp = none) {s₁ : Pipeline} (hasked : Asked c ev.cmd s s₁)
    (hissues : Issues c ev.cmd) :
    Moves c l (ev :: q) h s (ev :: q) h { s₁ with pendingOp := some (opOf c ev.cmd) } := by
  have hfinals := hasked.finals
  have hcharged : Charged s → Charged s₁ := hasked.charged
  rw [hissues.chargesOf, List.append_nil] at hfinals
  obtain ⟨stats, -, rfl⟩ := hasked
  have hoff := hshape.idle hop
  refine ⟨⟨hshape.noRuns, fun hnone => (by cases hnone), fun op hsome => ?_⟩, fun _ rest => ?_,
    fun _ => ⟨hhalted, id⟩, .refl, rfl, rfl, hcharged⟩
  · cases hsome
    exact ⟨ev, q, rfl, hissues, rfl, Or.inl hoff⟩
  · rw [outlook, outlook, todo_of_idle hhalted hop, upToHalt_head hissues.2.2, hissues.requestsOf,
      todo_of_pending (by exact hhalted) rfl, owed_of_running hhalted,
      owed_of_running (by exact hhalted), ← hfinals]
    simp only [hoff]
    rfl

/-- The head of the queue stalls. -/
theorem moves_stalled (hhalted : s.halted = false) (hshape : Shape c (ev :: q) s)
    (hop : s.pendingOp = none) {s₁ : Pipeline} (hasked : Asked c ev.cmd s s₁)
    (hact : actionOf c ev.cmd ≠ .consume) (hhalts : ¬Halts c ev.cmd) (n : ℕ) :
    Moves c l (ev :: q) h s ({ ev with remainingStall := n } :: q) h s₁ := by
  have hfinals := hasked.finals
  have hcharged : Charged s → Charged s₁ := hasked.charged
  rw [chargesOf_of_passes hact fun hend => hhalts (Or.inr hend), List.append_nil] at hfinals
  obtain ⟨stats, -, rfl⟩ := hasked
  refine ⟨⟨fun ev' hmem => ?_, hshape.idle, fun op hsome => ?_⟩, fun _ rest => ?_,
    fun _ => ⟨hhalted, fun hstops => ?_⟩, .refl, rfl, rfl, hcharged⟩
  · rcases List.mem_cons.mp hmem with rfl | hmem
    · exact hshape.noRuns ev List.mem_cons_self
    · exact hshape.noRuns ev' (List.mem_cons_of_mem _ hmem)
  · rw [show s.pendingOp = some op from hsome] at hop
    cases hop
  · rw [outlook, outlook, todo_of_idle hhalted hop, owed_of_running hhalted, ← hfinals,
      todo_of_idle (by exact hhalted) (by exact hop), owed_of_running (by exact hhalted)]
    rfl
  · obtain ⟨ev', hmem, hev'⟩ := hstops.tail hhalts
    exact ⟨ev', List.mem_cons_of_mem _ hmem, hev'⟩

/-- The head of the queue ends the run. -/
theorem moves_halted (hhalted : s.halted = false) (hshape : Shape c (ev :: q) s)
    (hop : s.pendingOp = none) {s₁ : Pipeline} (hasked : Asked c ev.cmd s s₁)
    (hhalts : Halts c ev.cmd) (guestExit : Bool) :
    Moves c l (ev :: q) h s q h
      { s₁ with guestExit := guestExit, halted := true, coreQ := q } := by
  have hfinals := hasked.finals
  have hcharged : Charged s → Charged s₁ := hasked.charged
  obtain ⟨stats, -, rfl⟩ := hasked
  have hnone : requestsOf c ev.cmd = [] := if_neg fun hissues => hissues.2.2 hhalts
  refine ⟨⟨fun ev' hmem => hshape.noRuns ev' (List.mem_cons_of_mem _ hmem), hshape.idle,
    fun op hsome => ?_⟩, fun _ rest => ?_, nofun, .refl, rfl, rfl, hcharged⟩
  · rw [show s.pendingOp = some op from hsome] at hop
    cases hop
  · rw [outlook, outlook, todo_of_idle hhalted hop, owed_of_running hhalted, commands,
      List.map_cons, List.cons_append, upToHalt, upToHalt, if_pos hhalts, if_pos hhalts, hnone]
    simp only [List.append_nil, ← hfinals, todo, owed, if_true]
    rfl

/-- The end of a tick leaves the queue alone. -/
theorem endTick_coreQ (issued : ℕ) (s : Pipeline) : (endTick issued s).coreQ = s.coreQ := by
  rw [endTick]
  split_ifs <;> rfl

/-- The end of a tick only feeds statistics. -/
theorem endTick_moves (hshape : Shape c q s) (issued : ℕ) :
    Moves c l q h s (endTick issued { s with coreQ := q }).coreQ h
      (endTick issued { s with coreQ := q }) := by
  rw [endTick_coreQ]
  rw [endTick]
  by_cases hfatal : s.fatal.isSome = true
  · rw [if_pos hfatal]
    exact ⟨hshape.congr rfl rfl, fun _ _ => rfl, fun hgo => ⟨hgo, id⟩, .refl, rfl, rfl, id⟩
  · rw [if_neg hfatal]
    refine ⟨hshape.congr rfl rfl, fun _ _ => rfl, fun hgo => ⟨hgo, id⟩, .refl, rfl, rfl,
      fun hcharged => ?_⟩
    rw [Charged] at hcharged ⊢
    rw [addAll, regionStats, List.filterMap_append, ← regionStats, hcharged]
    split_ifs <;> simp [regionStat]

/-- A part of the pending access was issued. -/
theorem Postponed.moves {op : MemOp} {r : Issue} (hpost : Postponed c op h s r)
    (hhalted : s.halted = false) (hshape : Shape c (ev :: q) s) (hop : s.pendingOp = some op) :
    Moves c l (ev :: q) h s (ev :: q) r.host r.pipe := by
  obtain ⟨e, offset, fatal, hemitted, hcursor, htraffic, -, hpipe⟩ := hpost
  obtain ⟨ev', q', hq, hissues, hopOf, -⟩ := hshape.pending op hop
  cases hq
  rw [hpipe]
  refine ⟨⟨hshape.noRuns, fun hnone => ?_, fun op' hsome => ?_⟩, fun _ rest => ?_,
    fun hgo => ⟨hgo, id⟩, hemitted, rfl, rfl, id⟩
  · rw [show s.pendingOp = none from hnone] at hop
    cases hop
  · rw [show s.pendingOp = some op' from hsome] at hop
    cases hop
    exact ⟨ev, q, rfl, hissues, hopOf, hcursor⟩
  · rw [outlook, outlook, todo_of_pending hhalted hop,
      todo_of_pending (by exact hhalted) (by exact hop), ← List.append_assoc, ← List.append_assoc]
    dsimp only
    rw [htraffic]
    rfl

/-- The pending access was issued completely and leaves the queue. -/
theorem Completed.moves {op : MemOp} {r : Issue} (hdone : Completed c l op h s r)
    (hhalted : s.halted = false) (hshape : Shape c (ev :: q) s) (hop : s.pendingOp = some op) :
    Moves c l (ev :: q) h s q r.host r.pipe := by
  obtain ⟨e, hemitted, htraffic, hpipe⟩ := hdone
  obtain ⟨ev', q', hq, hissues, hopOf, -⟩ := hshape.pending op hop
  cases hq
  obtain ⟨halted, hretire, hlimit⟩ := retire_eq l
    (addData .insnCount { s with pendingOp := none, offset := 0, emitter := e })
  rw [hpipe, hretire]
  refine ⟨⟨fun ev' hmem => hshape.noRuns ev' (List.mem_cons_of_mem _ hmem), fun _ => rfl,
    fun op' hsome => (by cases hsome)⟩, fun hunlimited rest => ?_,
    fun _ => ⟨hhalted, fun hstops => hstops.tail hissues.2.2⟩, hemitted, rfl, rfl,
    fun hcharged => ?_⟩
  · have hgo : halted = false := (hlimit hunlimited).trans hhalted
    rw [outlook, outlook, todo_of_pending hhalted hop, todo_of_idle (by exact hgo) rfl,
      owed_of_running hhalted, owed_of_running (by exact hgo), upToHalt_head hissues.2.2,
      hissues.chargesOf, List.nil_append, ← List.append_assoc, ← htraffic]
    rfl
  · rw [Charged] at hcharged ⊢
    rw [addData, regionStats, List.filterMap_append, ← regionStats, hcharged]
    simp [regionStat]

/-- **The issue loop** keeps the outlook: what it sends was to come. -/
theorem issueLoop_moves (q : List PipelineEvent) :
    ∀ (issued : ℕ) {h : Host} {s : Pipeline}, s.halted = false → s.fatal = none → Shape c q s →
    Moves c l q h s (issueLoop c l q issued h s).2.coreQ (issueLoop c l q issued h s).1
      (issueLoop c l q issued h s).2 := by
  -- The induction is on the queue: each round either leaves the head or takes it off.
  induction q with
  | nil =>
      intro issued h s hhalted hfatal hshape
      exact endTick_moves hshape issued
  | cons ev q ih =>
      intro issued h s hhalted hfatal hshape
      have hissue : ∀ {op : MemOp} {s₁ : Pipeline}, s₁.pendingOp = some op →
          Moves c l (ev :: q) h s (ev :: q) h s₁ → s₁.halted = false → s₁.fatal = none →
          classify c ev s = (.issue op, s₁) →
          Moves c l (ev :: q) h s (issueLoop c l (ev :: q) issued h s).2.coreQ
            (issueLoop c l (ev :: q) issued h s).1 (issueLoop c l (ev :: q) issued h s).2 := by
        intro op s₁ hop hmoves hhalted₁ hfatal₁ hclass
        obtain ⟨-, -, -, -, -, hcursor⟩ := hmoves.shape.pending op hop
        have hattempt : Attempt c l op h s₁ (issueMemOp c l op issued h s₁) :=
          issueMemOp_spec hcursor hfatal₁ issued
        rw [issueLoop, hclass]
        dsimp only
        generalize issueMemOp c l op issued h s₁ = res at hattempt
        cases hcomplete : res.complete with
        | false =>
            have hpost := (hattempt.incomplete hcomplete).moves (l := l) hhalted₁ hmoves.shape hop
            have hstop : (!false) = true := rfl
            rw [if_pos hstop]
            exact hmoves.trans (hpost.trans (endTick_moves hpost.shape res.issued))
        | true =>
            have hdone := hattempt.complete hcomplete
            have hretired := hdone.moves hhalted₁ hmoves.shape hop
            have hok : res.pipe.fatal = none := by
              obtain ⟨e, -, -, hpipe⟩ := hdone
              obtain ⟨halted, hretire, -⟩ := retire_eq l
                (addData .insnCount { s₁ with pendingOp := none, offset := 0, emitter := e })
              rw [hpipe, hretire]
              exact hfatal₁
            have hnext : ¬(!true) = true := Bool.false_ne_true
            rw [if_neg hnext]
            by_cases hstop : res.pipe.halted = true
            · rw [if_pos hstop]
              exact hmoves.trans (hretired.trans (endTick_moves hretired.shape res.issued))
            · rw [if_neg hstop]
              have hgo : res.pipe.halted = false := by simpa using hstop
              exact hmoves.trans (hretired.trans (ih res.issued hgo hok hretired.shape))
      have hretire : ∀ {s₁ : Pipeline}, Asked c ev.cmd s s₁ → s.pendingOp = none →
          ¬Halts c ev.cmd → requestsOf c ev.cmd = [] → classify c ev s = (.retire, s₁) →
          Moves c l (ev :: q) h s (issueLoop c l (ev :: q) issued h s).2.coreQ
            (issueLoop c l (ev :: q) issued h s).1 (issueLoop c l (ev :: q) issued h s).2 := by
        intro s₁ hasked hop hhalts hnone hclass
        have hmoves := moves_retired (l := l) (h := h) hhalted hshape hop hasked hhalts hnone
        have hok : (retire l s₁).fatal = none := by
          obtain ⟨halted, hretire, -⟩ := retire_eq l s₁
          obtain ⟨stats, -, rfl⟩ := hasked
          rw [hretire]
          exact hfatal
        rw [issueLoop, hclass]
        dsimp only
        by_cases hstop : (retire l s₁).halted = true
        · rw [if_pos hstop]
          refine ⟨hmoves.shape.congr rfl rfl, hmoves.outlook, hmoves.running, hmoves.emitted,
            hmoves.run, hmoves.cap, hmoves.charged⟩
        · rw [if_neg hstop]
          have hgo : (retire l s₁).halted = false := by simpa using hstop
          exact hmoves.trans (ih issued hgo hok hmoves.shape)
      have hclass := classify_spec c ev s
      generalize hres : classify c ev s = res at hclass
      cases hclass with
      | pending op hop =>
          exact hissue hop ⟨hshape, fun _ _ => rfl, fun hgo => ⟨hgo, id⟩, .refl, rfl, rfl, id⟩
            hhalted hfatal hres
      | @issues s₁ hasked hop hissues =>
          have hmoves := moves_pending (l := l) (h := h) hhalted hshape hop hasked
            (hissues (hshape.noRuns ev List.mem_cons_self))
          obtain ⟨stats, -, rfl⟩ := hasked
          exact hissue rfl hmoves hhalted hfatal hres
      | @consumed s₁ hasked hop hact =>
          refine hretire hasked hop (not_halts_of_consume hact) ?_ hres
          exact if_neg fun hissues => hissues.2.1 hact
      | @noop s₁ hasked hop hnop =>
          have hcompute : ev.cmd.isCompute = true := by rw [QuetzCommand.isCompute, hnop]; rfl
          exact hretire hasked hop (not_halts_of_isCompute hcompute)
            (requestsOf_of_isCompute hcompute) hres
      | @stalls s₁ n hasked hop hact hhalts =>
          have hmoves := moves_stalled (l := l) (h := h) hhalted hshape hop hasked hact hhalts n
          rw [issueLoop, hres]
          exact hmoves.trans (endTick_moves hmoves.shape issued)
      | @halts s₁ hasked hop hhalts =>
          rw [issueLoop, hres]
          exact moves_halted hhalted hshape hop hasked hhalts _

/-! ### Refills -/

/-- The invariant of the pipeline: the outlook is the reference of the commands read so far,
whatever comes after them, and a command that ends the run is in the queue until it does. -/
structure Ok (c : CoreContext) (l : PipelineLimits) (s : Pipeline) : Prop where
  nop : s.runNop.cmd = .nop
  shape : Shape c s.coreQ s
  tracks : Unlimited l s → ∀ rest, outlook c s.coreQ s rest =
    (reference c (s.read ++ rest), referenceCharges c (s.read ++ rest))
  stops : s.halted = false → (∃ cmd ∈ s.read, Halts c cmd) → Stops c s.coreQ
  charged : Charged s

/-- Queued commands come before the rest. -/
theorem outlook_queue (hshape : Shape c q s) (evs : List PipelineEvent)
    (rest : List QuetzCommand) :
    outlook c (q ++ evs) s rest = outlook c q s (commands evs ++ rest) := by
  have hcommands : ∀ q : List PipelineEvent,
      commands (q ++ evs) ++ rest = commands q ++ (commands evs ++ rest) := fun q => by
    rw [commands, List.map_append, List.append_assoc]
    rfl
  have htodo : todo c (q ++ evs) s rest = todo c q s (commands evs ++ rest) := by
    unfold todo
    cases hop : s.pendingOp with
    | none =>
        dsimp only
        rw [hcommands]
    | some op =>
        obtain ⟨ev, q', rfl, -, -, -⟩ := hshape.pending op hop
        dsimp only
        rw [List.cons_append, List.tail_cons, List.tail_cons, hcommands]
  rw [outlook, outlook, htodo, owed, owed, hcommands]

/-- Computations change no outlook. -/
theorem outlook_computes {cs : List QuetzCommand} (hcs : ∀ cmd ∈ cs, cmd.isCompute = true)
    (rest : List QuetzCommand) : outlook c q s (cs ++ rest) = outlook c q s rest := by
  have hrequests := fun q : List PipelineEvent => upToHalt_computes (c := c)
    (fun _ => requestsOf_of_isCompute (c := c)) hcs rest (commands q)
  have hcharges := upToHalt_computes (c := c) (fun _ => chargesOf_of_isCompute (c := c)) hcs rest
    (commands q)
  unfold outlook todo owed
  rw [hrequests, hrequests, hcharges]

/-- Computations in a stream request and charge nothing. -/
theorem reference_computes {cs : List QuetzCommand} (hcs : ∀ cmd ∈ cs, cmd.isCompute = true)
    (cmds rest : List QuetzCommand) :
    reference c (cmds ++ (cs ++ rest)) = reference c (cmds ++ rest) ∧
      referenceCharges c (cmds ++ (cs ++ rest)) = referenceCharges c (cmds ++ rest) :=
  ⟨upToHalt_computes (fun _ hcmd => requestsOf_of_isCompute hcmd) hcs rest cmds,
    upToHalt_computes (fun _ hcmd => chargesOf_of_isCompute hcmd) hcs rest cmds⟩

/-- Events are queued behind the pending operation. -/
theorem Shape.queue (hshape : Shape c q s) {evs : List PipelineEvent}
    (hevs : ∀ ev ∈ evs, ev.cmd.cmd ≠ .computeRun) : Shape c (q ++ evs) s := by
  refine ⟨fun ev hmem => ?_, hshape.idle, fun op hop => ?_⟩
  · rcases List.mem_append.mp hmem with hmem | hmem
    · exact hshape.noRuns ev hmem
    · exact hevs ev hmem
  · obtain ⟨ev, q', rfl, hissues, hopOf, hcursor⟩ := hshape.pending op hop
    exact ⟨ev, q' ++ evs, rfl, hissues, hopOf, hcursor⟩

/-- Events behind the one that stops the tick do not matter. -/
theorem Stops.queue (hstops : Stops c q) (evs : List PipelineEvent) : Stops c (q ++ evs) := by
  obtain ⟨ev, hmem, hev⟩ := hstops
  exact ⟨ev, List.mem_append_left _ hmem, hev⟩

/-- A part of a compute run is queued. -/
theorem Ok.drainRun (hok : Ok c l s) : Ok c l (drainRun l s) := by
  rw [Pipeline.drainRun, drainRunLoop_eq]
  generalize min s.runRemaining (l.maxQueueLen - s.coreQ.length) = n
  have hnop : ∀ ev ∈ List.replicate n (⟨s.runNop, s.runStall⟩ : PipelineEvent),
      ev.cmd.cmd = .nop := by
    intro ev hmem
    rw [List.eq_of_mem_replicate hmem]
    exact hok.nop
  have hshape : Shape c (s.coreQ ++ List.replicate n ⟨s.runNop, s.runStall⟩) s :=
    hok.shape.queue fun ev hmem => by simp [hnop ev hmem]
  refine ⟨hok.nop, hshape.congr rfl rfl, fun hunlimited rest => ?_,
    fun hgo hread => (hok.stops hgo hread).queue _, hok.charged⟩
  have hcompute : ∀ cmd ∈ commands (List.replicate n ⟨s.runNop, s.runStall⟩),
      cmd.isCompute = true := by
    intro cmd hmem
    obtain ⟨ev, hev, rfl⟩ := List.mem_map.mp hmem
    rw [QuetzCommand.isCompute, hnop ev hev]
    rfl
  have hqueue := outlook_queue hok.shape (List.replicate n ⟨s.runNop, s.runStall⟩) rest
  rw [outlook_computes hcompute, hok.tracks hunlimited] at hqueue
  exact hqueue

/-- A compute run is read. -/
theorem Ok.startRun (hok : Ok c l s) {cmd : QuetzCommand} (hrun : cmd.cmd = .computeRun) :
    Ok c l (startRun l cmd { s with read := s.read ++ [cmd] }) := by
  have hcompute : ∀ cmd' ∈ [cmd], cmd'.isCompute = true := by
    intro cmd' hmem
    rw [List.mem_singleton.mp hmem, QuetzCommand.isCompute, hrun]
    rfl
  refine ⟨rfl, hok.shape.congr rfl rfl, fun hunlimited rest => ?_, fun hgo hread => ?_, hok.charged⟩
  · obtain ⟨hreference, hcharges⟩ := reference_computes (c := c) hcompute s.read rest
    rw [← List.append_assoc] at hreference hcharges
    have htracks := hok.tracks hunlimited rest
    rw [← hreference, ← hcharges] at htracks
    exact htracks
  · obtain ⟨cmd', hmem, hhalts⟩ := hread
    rcases List.mem_append.mp hmem with hmem | hmem
    · exact hok.stops hgo ⟨cmd', hmem, hhalts⟩
    · exact absurd hhalts (not_halts_of_isCompute (hcompute cmd' hmem))

/-- Another command is read and queued. -/
theorem Ok.read (hok : Ok c l s) {cmd : QuetzCommand} (hrun : cmd.cmd ≠ .computeRun) (n : ℕ) :
    Ok c l { s with read := s.read ++ [cmd], coreQ := s.coreQ ++ [⟨cmd, n⟩] } := by
  have hshape : Shape c (s.coreQ ++ [⟨cmd, n⟩]) s :=
    hok.shape.queue fun ev hmem => by rw [List.mem_singleton.mp hmem]; exact hrun
  refine ⟨hok.nop, hshape.congr rfl rfl, fun hunlimited rest => ?_, fun hgo hread => ?_,
    hok.charged⟩
  · have hqueue := outlook_queue hok.shape [⟨cmd, n⟩] rest
    rw [hok.tracks hunlimited] at hqueue
    dsimp only
    rw [List.append_assoc]
    exact hqueue
  · obtain ⟨cmd', hmem, hhalts⟩ := hread
    rcases List.mem_append.mp hmem with hmem | hmem
    · exact (hok.stops hgo ⟨cmd', hmem, hhalts⟩).queue _
    · rw [List.mem_singleton.mp hmem] at hhalts
      exact ⟨_, List.mem_append_right _ (List.mem_singleton_self _), hhalts⟩

/-- What a refill does to the state and the ring. -/
structure Refills (c : CoreContext) (l : PipelineLimits) (ring : List QuetzCommand) (s : Pipeline)
    (res : List QuetzCommand × Pipeline) : Prop where
  ok : Ok c l res.2
  ring : res.2.read ++ res.1 = s.read ++ ring
  halted : res.2.halted = s.halted
  fatal : res.2.fatal = s.fatal
  emitter : res.2.emitter = s.emitter
  full : l.maxQueueLen ≤ res.2.coreQ.length ∨ res.1 = [] ∧ res.2.runRemaining = 0 ∨
    ∃ ev ∈ res.2.coreQ, ev.cmd.cmd = .exit

/-- A run is drained to its end, or the queue is full. -/
theorem drainRun_full (l : PipelineLimits) (s : Pipeline) :
    (drainRun l s).runRemaining = 0 ∨ l.maxQueueLen ≤ (drainRun l s).coreQ.length := by
  rw [Pipeline.drainRun, drainRunLoop_eq]
  simp only [List.length_append, List.length_replicate]
  omega

/-- The loop, by induction on the ring. -/
theorem refillLoop_refills (ring : List QuetzCommand) : ∀ {s : Pipeline}, Ok c l s →
    (s.runRemaining = 0 ∨ l.maxQueueLen ≤ s.coreQ.length) →
    Refills c l ring s (refillLoop l ring s) := by
  induction ring with
  | nil =>
      intro s hok hstop
      refine ⟨hok, rfl, rfl, rfl, rfl, ?_⟩
      rcases hstop with hzero | hfull
      · exact Or.inr (Or.inl ⟨rfl, hzero⟩)
      · exact Or.inl hfull
  | cons cmd ring ih =>
      intro s hok hstop
      rw [refillLoop]
      by_cases hgo : s.coreQ.length < l.maxQueueLen ∧ s.runRemaining = 0
      · rw [if_pos hgo]
        dsimp only
        by_cases hrun : cmd.cmd = .computeRun
        · rw [if_pos hrun]
          have hrest := ih (hok.startRun hrun).drainRun (drainRun_full l _)
          refine ⟨hrest.ok, ?_, hrest.halted, hrest.fatal, hrest.emitter, hrest.full⟩
          exact hrest.ring.trans (List.append_assoc ..)
        · rw [if_neg hrun]
          have hread := hok.read hrun (stallOf l cmd)
          by_cases hexit : cmd.cmd = .exit
          · rw [if_pos hexit]
            refine ⟨hread, List.append_assoc .., rfl, rfl, rfl, Or.inr (Or.inr ?_)⟩
            exact ⟨_, List.mem_append_right _ (List.mem_singleton_self _), hexit⟩
          · rw [if_neg hexit]
            have hrest := ih hread (Or.inl hgo.2)
            refine ⟨hrest.ok, ?_, hrest.halted, hrest.fatal, hrest.emitter, hrest.full⟩
            exact hrest.ring.trans (List.append_assoc ..)
      · rw [if_neg hgo]
        refine ⟨hok, rfl, rfl, rfl, rfl, Or.inl ?_⟩
        dsimp only
        omega

/-- A refill moves commands from the ring to the queue, in order. -/
theorem refill_refills (ring : List QuetzCommand) (hok : Ok c l s) :
    Refills c l ring s (refill l ring s) := by
  have hloop := refillLoop_refills ring hok.drainRun (drainRun_full l s)
  exact ⟨hloop.ok, hloop.ring, hloop.halted, hloop.fatal, hloop.emitter, hloop.full⟩

/-! ### Ticks and responses -/

/-- What a tick does to the state, the ring and the links. If it leaves nothing in the queue and
did not stop at its length, then it left nothing in the ring either. -/
structure Ticked (c : CoreContext) (l : PipelineLimits) (h : Host) (ring : List QuetzCommand)
    (s : Pipeline) (res : Host × List QuetzCommand × Pipeline) : Prop where
  ok : Ok c l res.2.2
  ring : res.2.2.read ++ res.2.1 = s.read ++ ring
  emitted : Emitted c h s.emitter res.1 res.2.2.emitter
  drained : s.fatal = none → res.2.2.halted = false → res.2.2.coreQ = [] →
    res.2.2.refillHitCap = false → res.2.1 = [] ∧ res.2.2.runRemaining = 0

/-- What a tick does. -/
theorem tick_ticked (hok : Ok c l s) (h : Host) (ring : List QuetzCommand) :
    Ticked c l h ring s (tick c l h ring s) := by
  rw [tick]
  by_cases hstop : s.halted = true ∨ s.fatal.isSome = true
  · rw [if_pos hstop]
    refine ⟨hok, rfl, .refl, fun hfatal hgo => ?_⟩
    simp only [hfatal, Option.isSome_none, Bool.false_eq_true, or_false] at hstop
    rw [hstop] at hgo
    cases hgo
  rw [if_neg hstop]
  rw [not_or, Bool.not_eq_true, Option.not_isSome_iff_eq_none] at hstop
  have hrefills := refill_refills (l := l) ring hok
  generalize refill l ring s = filled at hrefills
  have hfilled := hrefills.ok
  have hmoves := issueLoop_moves (l := l) (h := h) filled.2.coreQ 0
    (s := { filled.2 with refillHitCap := decide (l.maxQueueLen ≤ filled.2.coreQ.length) })
    (hrefills.halted.trans hstop.1) (hrefills.fatal.trans hstop.2) (hfilled.shape.congr rfl rfl)
  dsimp only
  generalize issueLoop c l filled.2.coreQ 0 h _ = res at hmoves
  have hrun := hmoves.run
  simp only [runPart, RunPart.mk.injEq] at hrun
  obtain ⟨hnop, -, hremaining, hread⟩ := hrun
  have hstops : res.2.halted = false → Stops c filled.2.coreQ → Stops c res.2.coreQ :=
    fun hgo => (hmoves.running hgo).2
  refine ⟨⟨?_, hmoves.shape, fun hunlimited rest => ?_, fun hgo hhalts => ?_,
    hmoves.charged hfilled.charged⟩, ?_, ?_, fun _ hgo hempty hcap => ?_⟩
  · rw [hnop]
    exact hfilled.nop
  · rw [hmoves.outlook hunlimited, hread]
    exact hfilled.tracks (hmoves.unlimited hunlimited) rest
  · rw [hread] at hhalts
    exact hstops hgo (hfilled.stops (hmoves.running hgo).1 hhalts)
  · rw [hread]
    exact hrefills.ring
  · rw [← hrefills.emitter]
    exact hmoves.emitted
  · rw [hmoves.cap] at hcap
    rcases hrefills.full with hfull | hdone | ⟨ev, hmem, hexit⟩
    · exact absurd hfull (of_decide_eq_false hcap)
    · exact ⟨hdone.1, hremaining.trans hdone.2⟩
    · obtain ⟨ev', hmem', -⟩ := hstops hgo ⟨ev, hmem, Or.inl hexit⟩
      rw [hempty] at hmem'
      cases hmem'

/-- A change of the emitter that issues nothing. -/
theorem Ok.quiet (hok : Ok c l s) {e : MemRequestEmitter} (he : e.issued = s.emitter.issued) :
    Ok c l { s with emitter := e } := by
  refine ⟨hok.nop, hok.shape.congr rfl rfl, fun hunlimited rest => ?_, hok.stops, hok.charged⟩
  rw [← hok.tracks hunlimited rest]
  have htraffic : e.traffic = s.emitter.traffic := by
    rw [MemRequestEmitter.traffic, he]
    rfl
  exact congrArg (fun t => (t ++ todo c s.coreQ s rest, finals s ++ owed c s.coreQ s rest)) htraffic

/-- A response reads no command. -/
theorem handleMemResponse_read (id : ℕ) (resp : Response) (s : Pipeline) :
    (handleMemResponse id resp s).read = s.read := by
  unfold handleMemResponse
  dsimp only
  cases (s.emitter.handleResponse id).1 <;> rfl

/-- A response issues nothing. -/
theorem Ok.handleMemResponse (hok : Ok c l s) (id : ℕ) (resp : Response) :
    Ok c l (handleMemResponse id resp s) := by
  have hissued : (s.emitter.handleResponse id).2.issued = s.emitter.issued := by
    rw [MemRequestEmitter.handleResponse]
    cases s.emitter.pendingTxns.find? fun p => p.id == id <;> rfl
  unfold Pipeline.handleMemResponse
  dsimp only
  cases hres : (s.emitter.handleResponse id).1 with
  | none => exact hok.quiet hissued
  | some info =>
      have hquiet := hok.quiet hissued
      refine ⟨hquiet.nop, hquiet.shape.congr rfl rfl, hquiet.tracks, hquiet.stops, ?_⟩
      have hcharged := hok.charged
      rw [Charged] at hcharged ⊢
      dsimp only
      rw [regionStats, List.filterMap_append, ← regionStats, hcharged]
      unfold latencyStat
      split_ifs <;> simp [regionStat]

/-- A pipeline that has not run is in order. -/
theorem ok_start (c : CoreContext) (l : PipelineLimits) : Ok c l {} := by
  refine ⟨rfl, ⟨fun _ hmem => (by cases hmem), fun _ => rfl, fun _ hop => (by cases hop)⟩,
    fun _ _ => rfl, fun _ hread => ?_, rfl⟩
  obtain ⟨cmd, hmem, -⟩ := hread
  cases hmem

end Pipeline

/-! ### Runs -/

namespace CoreRun

open Pipeline

variable {c : CoreContext} {l : PipelineLimits} {r : CoreRun}

/-- The commands that the guest writes to the ring. -/
def pushed (es : List CoreEvent) : List QuetzCommand :=
  es.flatMap fun e => match e with
    | .push cmds => cmds
    | _ => []

/-- The invariant of a run: the pipeline is in order, and what it did not read is in the ring. -/
structure Ok (c : CoreContext) (l : PipelineLimits) (stream : List QuetzCommand) (r : CoreRun) :
    Prop where
  pipe : r.pipe.Ok c l
  ring : r.pipe.read ++ r.ring = stream

/-- **One event.** -/
theorem Ok.step {stream : List QuetzCommand} (hok : Ok c l stream r) (e : CoreEvent) :
    Ok c l (stream ++ pushed [e]) (r.step c l e) := by
  cases e with
  | push cmds =>
      refine ⟨hok.pipe, ?_⟩
      simp only [pushed, List.flatMap_cons, List.flatMap_nil, List.append_nil, ← hok.ring]
      rw [List.append_assoc]
      rfl
  | tick now =>
      have hpipe : (r.pipeAt now).Ok c l := hok.pipe.quiet rfl
      have hticked := tick_ticked hpipe r.host r.ring
      refine ⟨hticked.ok, ?_⟩
      simp only [pushed, List.flatMap_cons, List.flatMap_nil, List.append_nil, ← hok.ring]
      exact hticked.ring
  | answer now i data =>
      simp only [pushed, List.flatMap_cons, List.flatMap_nil, List.append_nil]
      rw [CoreRun.step]
      cases r.host.inFlight[i]? with
      | none => exact hok
      | some req =>
          have hpipe : (r.pipeAt now).Ok c l := hok.pipe.quiet rfl
          refine ⟨hpipe.handleMemResponse _ _, ?_⟩
          rw [← hok.ring]
          dsimp only
          rw [handleMemResponse_read]
          rfl
  | send vcpu link body =>
      simp only [pushed, List.flatMap_cons, List.flatMap_nil, List.append_nil]
      exact ⟨hok.pipe, hok.ring⟩

/-- **A whole run.** -/
theorem Ok.run (es : List CoreEvent) : ∀ {r : CoreRun} {stream : List QuetzCommand},
    Ok c l stream r → Ok c l (stream ++ pushed es) (r.run c l es) := by
  induction es with
  | nil =>
      intro r stream hok
      simpa [pushed, CoreRun.run] using hok
  | cons e es ih =>
      intro r stream hok
      have hrest := ih (hok.step e)
      have hpushed : pushed (e :: es) = pushed [e] ++ pushed es := by
        simp [pushed]
      rw [List.append_assoc, ← hpushed] at hrest
      exact hrest

/-- The requests of the pipeline, in order. -/
def traffic (r : CoreRun) : List (Link × Body) := r.pipe.emitter.traffic

/-- The requests of a run are a beginning of the reference, and all of it once the run halted;
then every access that was consumed or ended the run was charged once. -/
theorem run_reference (hmax : l.maxInsts = 0) (h : Host) (es : List CoreEvent)
    {stream : List QuetzCommand} (hstream : pushed es <+: stream) :
    (run c l { host := h } es).traffic <+: reference c stream ∧
      ((run c l { host := h } es).pipe.halted = true →
        (run c l { host := h } es).traffic = reference c stream ∧
          (run c l { host := h } es).pipe.finals = referenceCharges c stream) ∧
      (run c l { host := h } es).pipe.Charged := by
  have hstart : Ok c l [] { host := h } := ⟨ok_start c l, rfl⟩
  have hok := hstart.run es
  rw [List.nil_append] at hok
  generalize run c l { host := h } es = r at hok
  obtain ⟨more, hmore⟩ := hstream
  have htracks := hok.pipe.tracks (Or.inl hmax) (r.ring ++ more)
  rw [← List.append_assoc, hok.ring, hmore, outlook, Prod.mk.injEq] at htracks
  obtain ⟨htraffic, hcharges⟩ := htracks
  refine ⟨⟨_, htraffic⟩, fun hhalted => ?_, hok.pipe.charged⟩
  rw [todo, hhalted, if_pos rfl, List.append_nil] at htraffic
  rw [owed, hhalted, if_pos rfl, List.append_nil] at hcharges
  exact ⟨htraffic, hcharges⟩

/-- **Limits change timing, not traffic.** Two runs of pipelines with any limits, latencies,
schedules of the ring and of the responses, on beginnings of one stream: the requests of both are
beginnings of the reference of the stream. If both halted the requests are the same, and the
accesses that were consumed or ended the run, with the answers of their handlers, are in both
those of the reference, each charged once in the statistics. -/
theorem traffic_independent_of_limits (c : CoreContext) (l₁ l₂ : PipelineLimits)
    (hl₁ : l₁.maxInsts = 0) (hl₂ : l₂.maxInsts = 0) (stream : List QuetzCommand) (h₁ h₂ : Host)
    (es₁ es₂ : List CoreEvent) (hes₁ : pushed es₁ <+: stream) (hes₂ : pushed es₂ <+: stream) :
    (run c l₁ { host := h₁ } es₁).traffic <+: reference c stream ∧
    (run c l₂ { host := h₂ } es₂).traffic <+: reference c stream ∧
    ((run c l₁ { host := h₁ } es₁).pipe.halted = true →
      (run c l₂ { host := h₂ } es₂).pipe.halted = true →
      (run c l₁ { host := h₁ } es₁).traffic = (run c l₂ { host := h₂ } es₂).traffic ∧
      (run c l₁ { host := h₁ } es₁).pipe.finals = referenceCharges c stream ∧
      (run c l₂ { host := h₂ } es₂).pipe.finals = referenceCharges c stream) ∧
    (run c l₁ { host := h₁ } es₁).pipe.Charged ∧ (run c l₂ { host := h₂ } es₂).pipe.Charged := by
  obtain ⟨hprefix₁, hhalted₁, hcharged₁⟩ := run_reference (c := c) hl₁ h₁ es₁ hes₁
  obtain ⟨hprefix₂, hhalted₂, hcharged₂⟩ := run_reference (c := c) hl₂ h₂ es₂ hes₂
  refine ⟨hprefix₁, hprefix₂, fun hend₁ hend₂ => ?_, hcharged₁, hcharged₂⟩
  obtain ⟨htraffic₁, hfinals₁⟩ := hhalted₁ hend₁
  obtain ⟨htraffic₂, hfinals₂⟩ := hhalted₂ hend₂
  exact ⟨htraffic₁.trans htraffic₂.symm, hfinals₁, hfinals₂⟩

/-- A core whose region table consumes one page and ends the run at another. -/
def pagesContext : CoreContext :=
  { (default : CoreContext) with
    regionTable :=
      some [testFinisherRegionHandler 0x1000 0x1fff, filteredRegionHandler 0x2000 0x2fff] }

/-- A read across a line, a compute run, a consumed write and a write that ends the run. -/
def pagesStream : List QuetzCommand :=
  [{ cmd := .read, addr := 0x3e, size := 4 }, { cmd := .computeRun, size := 3 },
    { cmd := .write, addr := 0x2000, size := 4 }, { cmd := .write, addr := 0x1000, size := 4 }]

/-- The narrowest pipeline. -/
def narrowLimits : PipelineLimits where
  maxQueueLen := 1
  maxIssuePerCycle := 1
  maxPending := 1
  computeLatency _ := 1

/-- The whole stream at once. -/
def wideEvents : List CoreEvent := [.push pagesStream, .tick 0, .tick 1]

/-- The stream in two pieces; the second part of the read waits for the first answer. -/
def narrowEvents : List CoreEvent :=
  [.push (pagesStream.take 1), .tick 0, .tick 1, .answer 2 0 [], .tick 3,
    .push (pagesStream.drop 1)] ++ (List.range 12).map .tick

theorem traffic_independent_of_limits_pages :
    (run pagesContext {} {} wideEvents).pipe.halted = true ∧
    (run pagesContext narrowLimits {} narrowEvents).pipe.halted = true ∧
    (run pagesContext {} {} wideEvents).traffic =
      (run pagesContext narrowLimits {} narrowEvents).traffic ∧
    (run pagesContext {} {} wideEvents).traffic =
      [(.mem, .read 0x3e 2), (.mem, .read 0x40 2)] := by
  have hhalted₁ : (run pagesContext {} {} wideEvents).pipe.halted = true := by decide +kernel
  have hhalted₂ : (run pagesContext narrowLimits {} narrowEvents).pipe.halted = true := by
    decide +kernel
  have hsame := (traffic_independent_of_limits pagesContext {} narrowLimits rfl rfl pagesStream
    {} {} wideEvents narrowEvents (by decide +kernel) (by decide +kernel)).2.2.1 hhalted₁ hhalted₂
  exact ⟨hhalted₁, hhalted₂, hsame.1, by decide +kernel⟩

end CoreRun

end Quetz
