import Quetz.DecodedTrace
import Quetz.RegionLog

/-!
# What a Guest Prints

The region handlers (`src/quetz_region_handlers.{h,cc}`) are shared by all cores, so what they keep
depends on the order of the cores' accesses; what one core contributes does not. The region table is
asked about an access on every tick in which the access stalls. A handler changes only with an
access that it consumes or that ends the run, and about these it is asked once.

## Main results

* `CoreRun.run_answered`: a core logs the answers of its region table.
* `BoundedRegionHandler.handler_sees`: what a handler sees of all cores.
* `Plugin.guest_text`: the text of a UART, from the stores of the guest.
* `Plugin.guest_doorbells`: the doorbells that were traced.
* `Plugin.guest_verdict`: the verdict of the test finisher.
-/

namespace Quetz

/-! ### The answers in a run -/

namespace Pipeline

variable {c : CoreContext} {l : PipelineLimits} {s : Pipeline}

/-- The log holds the answers of the region table. -/
def Answered (c : CoreContext) (s : Pipeline) : Prop :=
  ∀ a ∈ s.handled, answerOf c a.1 = some a.2

/-- The handler that is asked is recorded with its answer. -/
theorem Asked.answered {cmd : QuetzCommand} {s₁ : Pipeline} (hasked : Asked c cmd s s₁)
    (hs : Answered c s) : Answered c s₁ := by
  obtain ⟨stats, -, rfl⟩ := hasked
  intro a ha
  rcases List.mem_append.mp ha with ha | ha
  · exact hs a ha
  · obtain ⟨answer, hanswer, rfl⟩ := List.mem_map.mp ha
    exact Option.mem_toList.mp hanswer

/-- Classifying an event asks at most one handler. -/
theorem answered_classify (hs : Answered c s) (ev : PipelineEvent) :
    Answered c (classify c ev s).2 := by
  have hclass := classify_spec c ev s
  generalize classify c ev s = res at hclass
  cases hclass with
  | pending op hop => exact hs
  | issues hasked hop hissues => exact hasked.answered hs
  | consumed hasked hop hact => exact hasked.answered hs
  | noop hasked hop hnop => exact hasked.answered hs
  | stalls n hasked hop hact hhalts => exact hasked.answered hs
  | halts hasked hop hhalts => exact hasked.answered hs

/-- Retiring an instruction asks none. -/
theorem retire_handled (l : PipelineLimits) (s : Pipeline) : (retire l s).handled = s.handled := by
  obtain ⟨halted, hretire, -⟩ := retire_eq l s
  rw [hretire]

/-- The end of a tick asks none. -/
theorem endTick_handled (issued : ℕ) (s : Pipeline) : (endTick issued s).handled = s.handled := by
  rw [endTick]
  split_ifs <;> rfl

/-- Issuing an access asks nothing. -/
theorem issueMemOp_handled (op : MemOp) (issued : ℕ) (h : Host) (s : Pipeline) :
    (issueMemOp c l op issued h s).pipe.handled = s.handled := by
  rw [issueMemOp]
  split_ifs
  · rfl
  · cases hissue : issueAvailable c op _ h s with
    | error e => rfl
    | ok res =>
        obtain ⟨count, complete, h', s'⟩ := res
        have hkeeps : s'.handled = s.handled := by
          rw [issueAvailable] at hissue
          generalize (if op.isRead then
              MemRequestEmitter.issueReadWindow c op s.offset _ h s.emitter
            else MemRequestEmitter.issueWriteWindow c op s.offset _ h s.emitter) = window at hissue
          cases window with
          | error e => cases hissue
          | ok w =>
              cases hissue
              rfl
        dsimp only
        split_ifs
        · exact hkeeps
        · exact hkeeps
        · exact (retire_handled l _).trans hkeeps
        · exact hkeeps

/-- **One round of a tick.** -/
theorem answered_round (q : List PipelineEvent) (issued : ℕ) (h : Host) (s : Pipeline)
    (hs : Answered c s) : (round c l q issued h s).Keeps (fun _ _ _ s => Answered c s)
      (fun _ s => Answered c s) := by
  cases q with
  | nil =>
      rw [round, Round.Keeps, Answered, endTick_handled]
      exact hs
  | cons ev q =>
      rw [round]
      cases hop : s.pendingOp with
      | some op =>
          have hres : Answered c (issueMemOp c l op issued h s).pipe := by
            rw [Answered, issueMemOp_handled]
            exact hs
          dsimp only
          generalize issueMemOp c l op issued h s = res at hres
          split_ifs
          · rw [Round.Keeps, Answered, endTick_handled]
            exact hres
          · rw [Round.Keeps, Answered, endTick_handled]
            exact hres
          · exact hres
      | none =>
          have hclass := answered_classify (c := c) hs ev
          rcases hres : classify c ev s with ⟨head, s₁⟩
          rw [hres] at hclass
          cases head with
          | issue op => exact hclass
          | retire =>
              have hretire : Answered c (retire l s₁) := by
                rw [Answered, retire_handled]
                exact hclass
              dsimp only
              split_ifs
              · exact hretire
              · exact hretire
          | stall ev' =>
              rw [Round.Keeps, Answered, endTick_handled]
              exact hclass
          | halt => exact hclass

/-- All handlers asked in a tick are recorded with their answers. -/
theorem tick_answered (hok : Ok c l s) (hs : Answered c s) (h : Host)
    (ring : List QuetzCommand) : Answered c (tick c l h ring s).2.2 := by
  rw [tick]
  split_ifs
  · exact hs
  · have hpipe := (refill_spec (l := l) ring hok.nop).pipe
    have hfilled : Answered c (refill l ring s).2 := by
      rw [Answered, hpipe]
      exact hs
    exact issueLoop_rule answered_round hfilled

end Pipeline

namespace CoreRun

open Pipeline

variable {c : CoreContext} {l : PipelineLimits} {r : CoreRun}

/-- **A whole run.** -/
theorem run_answered (es : List CoreEvent) : ∀ {r : CoreRun} {stream : List QuetzCommand},
    Ok c l stream r → Answered c r.pipe → Answered c (run c l r es).pipe := by
  induction es with
  | nil => exact fun _ hr => hr
  | cons e es ih =>
      intro r stream hok hr
      refine ih (hok.step e) ?_
      cases e with
      | push cmds => exact hr
      | tick now =>
          have hpipe : (r.pipeAt now).Ok c l := hok.pipe.quiet rfl
          exact tick_answered hpipe hr r.host r.ring
      | answer now i data =>
          rw [CoreRun.step]
          cases r.host.inFlight[i]? with
          | none => exact hr
          | some req =>
              obtain ⟨e, stats, hframe, -⟩ :=
                handleMemResponse_frame req.id (req.body.response data) (r.pipeAt now)
              dsimp only
              rw [hframe]
              exact hr
      | send vcpu link body => exact hr

end CoreRun

/-! ### The log of all cores -/

section

variable {β : Type} {c : CoreContext}

/-- What a stream leads to is derived from its contributions. -/
theorem upToHalt_flatMap {γ : Type} (f : QuetzCommand → List β) (g : β → List γ)
    (cmds : List QuetzCommand) :
    (upToHalt c f cmds).flatMap g = upToHalt c (fun cmd => (f cmd).flatMap g) cmds := by
  induction cmds with
  | nil => rfl
  | cons cmd cmds ih =>
      rw [upToHalt, upToHalt, List.flatMap_append]
      split_ifs
      · rfl
      · rw [ih]

end

namespace BoundedRegionHandler

variable {table : List BoundedRegionHandler} {c : ℕ → CoreContext}
  {log : List (ℕ × QuetzCommand × Handled)} {k n : ℕ}

/-- The table after the accesses that it was asked about. -/
def tableAfter (table : List BoundedRegionHandler) (log : List (ℕ × QuetzCommand × Handled)) :
    List BoundedRegionHandler := (log.map fun e => e.2.1).foldl accessTable table

/-- The cores share the table, and the log holds its answers to them. -/
structure Serves (c : ℕ → CoreContext) (table : List BoundedRegionHandler)
    (log : List (ℕ × QuetzCommand × Handled)) : Prop where
  shared : ∀ v, (c v).regionTable = some (table.map policy)
  answered : ∀ e ∈ log, answerOf (c e.1) e.2.1 = some e.2.2

/-- An access that goes on to a link leaves the table alone. -/
theorem accessTable_of_passes {c : CoreContext} {cmd : QuetzCommand} {a : Handled}
    (hshared : c.regionTable = some (table.map policy)) (hanswer : answerOf c cmd = some a)
    (hpass : a.final = false) : accessTable table cmd = table := by
  have hacc : cmd.isAccess = true := by
    by_contra hacc
    rw [answerOf_of_not_access (by simpa using hacc)] at hanswer
    cases hanswer
  rw [answerOf, if_pos hacc, hshared, Option.map_some, Option.some.injEq] at hanswer
  rw [accessTable]
  cases howner : owner table cmd.addr with
  | none => rfl
  | some k =>
      refine List.ext_getElem? fun j => ?_
      rw [List.getElem?_modify]
      cases hj : table[j]? with
      | none => rfl
      | some h =>
          refine congrArg some ?_
          dsimp only
          split_ifs with hjk
          · subst hjk
            rw [answer_of_owner hacc howner hj] at hanswer
            exact access_of_passes (hanswer ▸ hpass)
          · rfl

/-- Only the accesses that go no further change the table. -/
theorem tableAfter_finals (hs : Serves c table log) :
    tableAfter table log = tableAfter table (log.filter fun e => e.2.2.final) := by
  induction log generalizing table with
  | nil => rfl
  | cons e log ih =>
      have hhead : tableAfter table (e :: log) = tableAfter (accessTable table e.2.1) log := rfl
      have hnext : Serves c (accessTable table e.2.1) log := by
        refine ⟨fun v => ?_, fun e' he' => hs.answered e' (List.mem_cons_of_mem _ he')⟩
        rw [map_policy_accessTable]
        exact hs.shared v
      rw [hhead, ih hnext, List.filter_cons]
      cases hfinal : e.2.2.final with
      | true => rfl
      | false =>
          rw [accessTable_of_passes (hs.shared e.1) (hs.answered e List.mem_cons_self) hfinal]
          rfl

/-- What a command lets a handler see: the access, if the handler is the first to cover it and it
goes no further. -/
def seenBy (c : CoreContext) (table : List BoundedRegionHandler) (k : ℕ) (cmd : QuetzCommand) :
    List QuetzCommand :=
  if owner table cmd.addr = some k then (chargesOf c cmd).map Prod.fst else []

/-- **What a handler sees of all cores**, in any order of their accesses: of each core the accesses
of its stream, in order, up to the one that ends its run. -/
theorem handler_sees (hs : Serves c table log) (hlog : ∀ e ∈ log, e.1 < n)
    {stream : ℕ → List QuetzCommand}
    (hcores : ∀ v < n, (Logs.of v log).filter (fun a => a.2.final) =
      referenceCharges (c v) (stream v)) (k : ℕ) :
    ∃ accesses : List (ℕ × QuetzCommand), (∀ e ∈ accesses, e.1 < n) ∧
      (tableAfter table log)[k]? = table[k]?.map (fun h => h.after (accesses.map Prod.snd)) ∧
      ∀ v < n, Logs.of v accesses = upToHalt (c v) (seenBy (c v) table k) (stream v) := by
  let own : QuetzCommand × Handled → List QuetzCommand :=
    fun a => if owner table a.1.addr = some k then [a.1] else []
  refine ⟨Logs.derived own (log.filter fun e => e.2.2.final),
    Logs.derived_tags (p := fun v => v < n) fun e he => hlog e (List.mem_of_mem_filter he),
    ?_, fun v hv => ?_⟩
  · have hfilter : ∀ entries : List (QuetzCommand × Handled),
        (entries.map Prod.fst).filter (fun cmd => owner table cmd.addr = some k) =
          entries.flatMap own := by
      intro entries
      induction entries with
      | nil => rfl
      | cons a entries ih =>
          rw [List.map_cons, List.filter_cons, List.flatMap_cons, ih]
          by_cases howner : owner table a.1.addr = some k
          · simp only [own, howner, decide_true, if_true, List.singleton_append]
          · simp only [own, howner, decide_false, if_false, List.nil_append, Bool.false_eq_true]
    rw [tableAfter_finals hs, tableAfter, getElem?_foldl_access, Logs.map_snd_derived, ← hfilter,
      List.map_map]
    rfl
  · rw [Logs.of_derived, Logs.of_filter v (fun a : QuetzCommand × Handled => a.2.final) log,
      hcores v hv, referenceCharges, upToHalt_flatMap]
    refine congrArg (upToHalt (c v) · (stream v)) (funext fun cmd => ?_)
    rw [seenBy, chargesOf, List.flatMap_map, List.map_map]
    by_cases howner : owner table cmd.addr = some k
    · simp only [own, howner, if_true]
      exact List.map_eq_flatMap.symm
    · simp only [own, howner, if_false]
      exact List.flatMap_eq_nil_iff.mpr fun _ _ => rfl

/-- What a command contributes to a handler. -/
def ownedBy {β : Type} (table : List BoundedRegionHandler) (k : ℕ) (f : QuetzCommand → List β)
    (cmd : QuetzCommand) : List β :=
  if cmd.isAccess = true ∧ owner table cmd.addr = some k then f cmd else []

/-- A handler that lets nothing pass sees all accesses that it is the first to cover. -/
theorem seenBy_of_final {c : CoreContext} (hshared : c.regionTable = some (table.map policy))
    {h : BoundedRegionHandler} (hk : table[k]? = some h)
    (hfinal : ∀ cmd, (h.access cmd).1.final = true) {β : Type} (f : QuetzCommand → List β)
    (cmd : QuetzCommand) : (seenBy c table k cmd).flatMap f = ownedBy table k f cmd := by
  rw [seenBy, ownedBy]
  by_cases howner : owner table cmd.addr = some k
  · cases hacc : cmd.isAccess with
    | false =>
        rw [if_pos howner, chargesOf_of_not_access hacc, if_neg fun hand => by cases hand.1]
        rfl
    | true =>
        have hanswer : answerOf c cmd = some (h.access cmd).1 := by
          rw [answerOf, if_pos hacc, hshared, Option.map_some, answer_of_owner hacc howner hk]
        rw [if_pos howner, if_pos ⟨rfl, howner⟩, chargesOf, hanswer]
        simp [hfinal cmd]
  · rw [if_neg howner, if_neg fun hand => howner hand.2]
    rfl

/-- An access that the UART answers goes no further. -/
theorem access_uart_final (start last : UInt64) (log : UartLog) (cmd : QuetzCommand) :
    (access ⟨start, last, .uart log⟩ cmd).1.final = true := by
  unfold access onRead onWrite
  split_ifs <;> rfl

/-- Nor does one that the test finisher answers. -/
theorem access_testFinisher_final (start last : UInt64) (log : TestFinisherLog)
    (cmd : QuetzCommand) : (access ⟨start, last, .testFinisher log⟩ cmd).1.final = true := by
  unfold access onRead onWrite
  split_ifs <;> rfl

/-- Nor does one that the GPU tracer answers. -/
theorem access_gpuTrace_final (start last : UInt64) (log : GpuTraceLog) (cmd : QuetzCommand) :
    (access ⟨start, last, .gpuTrace log⟩ cmd).1.final = true := by
  unfold access onRead onWrite
  dsimp only
  split_ifs <;> rfl

/-- A store to the test finisher ends the run of the core. -/
theorem halts_of_signals {c : CoreContext} (hshared : c.regionTable = some (table.map policy))
    {start last : UInt64} {finisher : TestFinisherLog}
    (hk : table[k]? = some ⟨start, last, .testFinisher finisher⟩) {cmd : QuetzCommand}
    (hsignals : ownedBy table k signals cmd ≠ []) : Halts c cmd := by
  rw [ownedBy] at hsignals
  split_ifs at hsignals with hown
  · have hwrite : cmd.cmd ≠ .read := fun hread => hsignals (by rw [signals, hread]; rfl)
    have hanswer : answerOf c cmd = some ⟨.endSim, some .filteredWrites⟩ := by
      rw [answerOf, if_pos hown.1, hshared, Option.map_some, answer_of_owner hown.1 hown.2 hk,
        access, if_neg hwrite]
      rfl
    refine Or.inr ?_
    rw [actionOf, hanswer]
    rfl
  · exact absurd rfl hsignals

end BoundedRegionHandler

/-- A stream whose contributions end the run contributes once at most. -/
theorem length_upToHalt_le {β : Type} {c : CoreContext} {f : QuetzCommand → List β}
    (hf : ∀ cmd, (f cmd).length ≤ 1) (hhalts : ∀ cmd, f cmd ≠ [] → Halts c cmd)
    (cmds : List QuetzCommand) : (upToHalt c f cmds).length ≤ 1 := by
  induction cmds with
  | nil => exact Nat.zero_le 1
  | cons cmd cmds ih =>
      rw [upToHalt]
      by_cases hempty : f cmd = []
      · rw [hempty, List.nil_append]
        split_ifs
        · exact Nat.zero_le 1
        · exact ih
      · rw [if_pos (hhalts cmd hempty), List.append_nil]
        exact hf cmd

/-! ### The end of a run -/

open BoundedRegionHandler

/-- Cores that share a region table have run the rings of their vCPUs to the end. The log is an
interleaving of what they asked the table. -/
structure SharedRun (c : ℕ → CoreContext) (table : List BoundedRegionHandler) (n : ℕ)
    (rings : ℕ → List QuetzCommand) (r : ℕ → CoreRun)
    (log : List (ℕ × QuetzCommand × Handled)) : Prop where
  shared : ∀ v, (c v).regionTable = some (table.map policy)
  ran : ∀ v < n, ∃ (l : PipelineLimits) (host : Host) (es : List CoreEvent), l.maxInsts = 0 ∧
    CoreRun.pushed es <+: rings v ∧ r v = CoreRun.run (c v) l { host := host } es
  halted : ∀ v < n, (r v).pipe.halted = true
  cores : ∀ e ∈ log, e.1 < n
  interleaved : ∀ v < n, Logs.of v log = (r v).pipe.handled

namespace SharedRun

variable {c : ℕ → CoreContext} {table : List BoundedRegionHandler} {n : ℕ}
  {rings : ℕ → List QuetzCommand} {r : ℕ → CoreRun} {log : List (ℕ × QuetzCommand × Handled)}

/-- The log holds the answers of the table. -/
theorem serves (h : SharedRun c table n rings r log) : Serves c table log := by
  refine ⟨h.shared, fun e he => ?_⟩
  obtain ⟨l, host, es, -, -, hr⟩ := h.ran e.1 (h.cores e he)
  have hmem : e.2 ∈ (r e.1).pipe.handled := by
    rw [← h.interleaved e.1 (h.cores e he)]
    exact Logs.mem_of he
  rw [hr] at hmem
  have hstart : CoreRun.Ok (c e.1) l [] { host := host } := ⟨Pipeline.ok_start (c e.1) l, rfl⟩
  exact CoreRun.run_answered es hstart (fun a ha => absurd ha List.not_mem_nil) e.2 hmem

/-- A halted core was charged for all of its ring. -/
theorem charges (h : SharedRun c table n rings r log) {v : ℕ} (hv : v < n) :
    (Logs.of v log).filter (fun a => a.2.final) = referenceCharges (c v) (rings v) := by
  obtain ⟨l, host, es, hlimit, hes, hr⟩ := h.ran v hv
  have hhalted := h.halted v hv
  rw [h.interleaved v hv]
  rw [hr] at hhalted ⊢
  exact ((CoreRun.run_reference (c := c v) hlimit host es hes).2.1 hhalted).2

end SharedRun

namespace Plugin

variable {i : Installed} {version n : ℕ} {insns : ℕ → List TranslatedInsn}
  {cbs : List PluginCallback}

section

variable {registered : List (List Char × InsnClassifier)} {handlers : List (List Char × Unit)}
  {attach : List Char → Option UInt32} {info : Option QemuInfo} {argv : List (List Char)}

/-- What a handler that lets nothing pass keeps of a guest. -/
theorem guest_kept
    (hinstall : install version registered handlers attach info argv = .ok i) (hpos : 0 < n)
    (hn : n ≤ i.configuredVcpus.toNat) (h : ∀ v < n, Translates i version v (insns v) cbs) :
    ∃ s, run (i.config version) (cbs ++ [.atexit n]) {} = .ok s ∧
      ∀ {c : ℕ → CoreContext} {table : List BoundedRegionHandler} {r : ℕ → CoreRun}
        {log : List (ℕ × QuetzCommand × Handled)}, SharedRun c table n s.rings r log →
        ∀ {k : ℕ} {handler : BoundedRegionHandler}, table[k]? = some handler →
        (∀ cmd, (handler.access cmd).1.final = true) →
        ∃ accesses : List (ℕ × QuetzCommand), (∀ e ∈ accesses, e.1 < n) ∧
          (tableAfter table log)[k]? = some (handler.after (accesses.map Prod.snd)) ∧
          ∀ {β : Type} (f : QuetzCommand → List β), ∀ v < n,
            Logs.of v (Logs.derived f accesses) =
              upToHalt (c v) (ownedBy table k f) (guestCommands i version (insns v)) := by
  obtain ⟨s, hs, -⟩ := ring_translated hinstall hpos hn (h 0 hpos)
  refine ⟨s, hs, fun {c table r log} hrun {k handler} hk hfinal => ?_⟩
  have hcores : ∀ v < n, (Logs.of v log).filter (fun a => a.2.final) =
      referenceCharges (c v) (guestCommands i version (insns v)) := by
    intro v hv
    obtain ⟨s', hs', hring⟩ := ring_translated hinstall hv hn (h v hv)
    obtain rfl := Except.ok.inj (hs.symm.trans hs')
    rw [hrun.charges hv, referenceCharges_expand, hring, referenceCharges]
  obtain ⟨accesses, htags, htable, haccesses⟩ := handler_sees hrun.serves hrun.cores hcores k
  rw [hk] at htable
  refine ⟨accesses, htags, htable, fun f v hv => ?_⟩
  rw [Logs.of_derived, haccesses v hv, upToHalt_flatMap]
  exact congrArg (upToHalt (c v) · (guestCommands i version (insns v)))
    (funext fun cmd => seenBy_of_final (hrun.shared v) hk hfinal f cmd)

/-! A board of two vCPUs: each stores a letter to a UART, the first one rings a doorbell, the second
one signals the test finisher. -/

/-- A UART, a traced GPU and a test finisher. -/
def boardTable : List BoundedRegionHandler :=
  [⟨0x10000000, 0x100000ff, .uart {}⟩, ⟨0x20000000, 0x20000fff, .gpuTrace {}⟩,
    ⟨0x100000, 0x100fff, .testFinisher {}⟩]

def boardPlugin : Installed := ⟨{ shmemName := ['a'] }, false, .riscv, 2, none⟩

/-- `sw a0, 0(a1)`. -/
def storeWord (pc addr : UInt64) (value : UInt32) : TranslatedInsn :=
  ⟨pc, [0x23, 0xa0, 0xa5, 0x00], [(⟨true, 2, .u32 value⟩, addr)]⟩

def boardGuest : ℕ → List TranslatedInsn
  | 0 => [storeWord 0x100 0x10000000 72, storeWord 0x104 0x20000000 0x4000]
  | 1 => [storeWord 0x200 0x10000000 105, storeWord 0x204 0x100000 0x5555]
  | _ => []

def boardCallbacks : List PluginCallback :=
  (boardGuest 0).flatMap (TranslatedInsn.callbacks boardPlugin 0) ++
    (boardGuest 1).flatMap (TranslatedInsn.callbacks boardPlugin 1)

def boardContext : CoreContext :=
  { (default : CoreContext) with regionTable := some (boardTable.map policy) }

/-- The commands of the two stores of a vCPU and of its end. -/
def boardRing (v : ℕ) : List QuetzCommand := guestCommands boardPlugin 4 (boardGuest v)

def boardCore (v : ℕ) : CoreRun :=
  CoreRun.run boardContext default {} [.push (boardRing v), .tick 0, .tick 1]

/-- The second core is served first. -/
def boardLog : List (ℕ × QuetzCommand × Handled) :=
  ((boardCore 1).pipe.handled.map fun a => (1, a)) ++
    (boardCore 0).pipe.handled.map fun a => (0, a)

/-- The plugin of the example installs. -/
theorem install_board : install 4 classifiers memHandlers (fun _ => some 2)
    (some ⟨some "riscv64".toList, false, 2⟩) ["shmname=a".toList] = .ok boardPlugin := rfl

/-- The callbacks of the example are those of its two programs. -/
theorem translates_board : ∀ v < 2, Translates boardPlugin 4 v (boardGuest v) boardCallbacks := by
  have hcbs : boardCallbacks =
      [.mem 0 ⟨true, 2, .u32 72⟩ 0x10000000 0x100 .intMem,
        .mem 0 ⟨true, 2, .u32 0x4000⟩ 0x20000000 0x104 .intMem,
        .mem 1 ⟨true, 2, .u32 105⟩ 0x10000000 0x200 .intMem,
        .mem 1 ⟨true, 2, .u32 0x5555⟩ 0x100000 0x204 .intMem] := by decide
  have hown : ∀ v < 2, boardCallbacks.filter (fun cb => cb.vcpu == some v) =
      (boardGuest v).flatMap (TranslatedInsn.callbacks boardPlugin v) := by decide
  have hattached : ∀ cb ∈ boardCallbacks, Attached (boardPlugin.config 4) cb := by
    rw [hcbs]
    intro cb hcb
    simp only [List.mem_cons, List.not_mem_nil, or_false] at hcb
    rcases hcb with rfl | rfl | rfl | rfl
    · exact Nat.two_pos
    · exact Nat.two_pos
    · exact Nat.one_lt_two
    · exact Nat.one_lt_two
  exact fun v hv => ⟨hown v hv, by rw [hcbs]; decide, hattached⟩

/-- The two cores run to their end. -/
theorem sharedRun_board {s : PluginState}
    (hs : run (boardPlugin.config 4) (boardCallbacks ++ [.atexit 2]) {} = .ok s) :
    SharedRun (fun _ => boardContext) boardTable 2 s.rings boardCore boardLog := by
  have hrings : ∀ v < 2, s.rings v = boardRing v := by
    obtain rfl := Except.ok.inj hs
    decide +kernel
  refine ⟨fun _ => rfl, fun v hv => ⟨default, {}, _, rfl, ?_, rfl⟩, ?_, ?_, ?_⟩
  · rw [hrings v hv]
    exact ⟨[], by simp [CoreRun.pushed]⟩
  · decide +kernel
  · decide +kernel
  · decide +kernel

/-- **The text of a guest.** The cores share a UART. Whatever order they get at it, what it prints
at the end, for every core, is an interleaving of the texts of the vCPUs, and the text of a vCPU is
what its instructions store to the data register, in program order, up to an access that ends the
simulation. -/
theorem guest_text
    (hinstall : install version registered handlers attach info argv = .ok i) (hpos : 0 < n)
    (hn : n ≤ i.configuredVcpus.toNat) (h : ∀ v < n, Translates i version v (insns v) cbs) :
    ∃ s, run (i.config version) (cbs ++ [.atexit n]) {} = .ok s ∧
      ∀ {c : ℕ → CoreContext} {table : List BoundedRegionHandler} {r : ℕ → CoreRun}
        {log : List (ℕ × QuetzCommand × Handled)}, SharedRun c table n s.rings r log →
        ∀ {k : ℕ} {start last : UInt64} {offset : UInt32},
        table[k]? = some ⟨start, last, .uart { txOffset := offset }⟩ →
        ∃ text : List (ℕ × UInt8), (∀ e ∈ text, e.1 < n) ∧
          (∀ coreId, (tableAfter table log)[k]?.map (fun h => h.finish coreId) =
            some (uartLine coreId (text.map Prod.snd))) ∧
          ∀ v < n, Logs.of v text = upToHalt (c v)
            (ownedBy table k fun cmd => txBytes start cmd offset)
            (guestCommands i version (insns v)) := by
  obtain ⟨s, hs, hkept⟩ := guest_kept hinstall hpos hn h
  refine ⟨s, hs, fun {c table r log} hrun {k start last offset} hk => ?_⟩
  obtain ⟨accesses, htags, htable, hown⟩ := hkept hrun hk (access_uart_final start last _)
  refine ⟨Logs.derived (fun cmd => txBytes start cmd offset) accesses,
    Logs.derived_tags (p := fun v => v < n) htags, fun coreId => ?_,
    hown fun cmd => txBytes start cmd offset⟩
  rw [htable, uart_after, Logs.map_snd_derived, Option.map_some]
  rfl

/-- The second letter comes first. -/
theorem guest_text_board :
    ∃ s, run (boardPlugin.config 4) (boardCallbacks ++ [.atexit 2]) {} = .ok s ∧
      ∃ text : List (ℕ × UInt8), Logs.of 0 text = [72] ∧ Logs.of 1 text = [105] ∧
        (∀ coreId, (tableAfter boardTable boardLog)[0]?.map (fun h => h.finish coreId) =
          some (uartLine coreId (text.map Prod.snd))) ∧
        (tableAfter boardTable boardLog)[0]?.map (fun h => h.finish 0) =
          some "UART[0]: iH\n".toList := by
  obtain ⟨s, hs, hall⟩ := guest_text install_board Nat.two_pos le_rfl translates_board
  obtain ⟨text, -, hprint, hown⟩ := hall (sharedRun_board hs) (k := 0) rfl
  refine ⟨s, hs, text, (hown 0 Nat.two_pos).trans ?_, (hown 1 Nat.one_lt_two).trans ?_, hprint, ?_⟩
  · decide +kernel
  · decide +kernel
  · decide +kernel

/-- **The doorbells of a guest.** The numbers of doorbells and of polls are the sums over the vCPUs,
whatever order the cores get at the tracer; the payloads that are kept are the last ones of an
interleaving of those of the vCPUs. -/
theorem guest_doorbells
    (hinstall : install version registered handlers attach info argv = .ok i) (hpos : 0 < n)
    (hn : n ≤ i.configuredVcpus.toNat) (h : ∀ v < n, Translates i version v (insns v) cbs) :
    ∃ s, run (i.config version) (cbs ++ [.atexit n]) {} = .ok s ∧
      ∀ {c : ℕ → CoreContext} {table : List BoundedRegionHandler} {r : ℕ → CoreRun}
        {log : List (ℕ × QuetzCommand × Handled)}, SharedRun c table n s.rings r log →
        ∀ {k : ℕ} {start last : UInt64} {doorbell status bound : UInt32},
        table[k]? = some ⟨start, last, .gpuTrace
          { doorbellOffset := doorbell, statusOffset := status, maxPayloadLog := bound }⟩ →
        let rung v := upToHalt (c v) (ownedBy table k fun cmd => doorbells start cmd doorbell)
          (guestCommands i version (insns v))
        let polled v := upToHalt (c v) (ownedBy table k fun cmd => polls start cmd status)
          (guestCommands i version (insns v))
        ∃ payloads : List (ℕ × UInt64), (∀ e ∈ payloads, e.1 < n) ∧
          (∀ v < n, Logs.of v payloads = rung v) ∧
          (tableAfter table log)[k]? = some ⟨start, last, .gpuTrace {
            doorbellOffset := doorbell
            statusOffset := status
            maxPayloadLog := bound
            doorbellCount := .ofNat (∑ v ∈ Finset.range n, (rung v).length)
            pollCount := .ofNat (∑ v ∈ Finset.range n, (polled v).length)
            recentDoorbellLo := (payloads.map Prod.snd).rtake bound.toNat }⟩ := by
  obtain ⟨s, hs, hkept⟩ := guest_kept hinstall hpos hn h
  refine ⟨s, hs, fun {c table r log} hrun {k start last doorbell status bound} hk => ?_⟩
  obtain ⟨accesses, htags, htable, hown⟩ := hkept hrun hk (access_gpuTrace_final start last _)
  have hsum : ∀ {β : Type} (f : QuetzCommand → List β),
      ((accesses.map Prod.snd).flatMap f).length = ∑ v ∈ Finset.range n,
        (upToHalt (c v) (ownedBy table k f) (guestCommands i version (insns v))).length := by
    intro β f
    rw [← Logs.map_snd_derived, List.length_map,
      Logs.length_eq_sum (Logs.derived_tags (p := fun v => v < n) htags)]
    exact Finset.sum_congr rfl fun v hv => by rw [hown f v (Finset.mem_range.mp hv)]
  refine ⟨Logs.derived (fun cmd => doorbells start cmd doorbell) accesses,
    Logs.derived_tags (p := fun v => v < n) htags, hown fun cmd => doorbells start cmd doorbell, ?_⟩
  have hafter := @gpuTrace_after start last (accesses.map Prod.snd)
    { doorbellOffset := doorbell, statusOffset := status, maxPayloadLog := bound } []
  rw [List.rtake_nil, List.nil_append, hsum, hsum, ← Logs.map_snd_derived] at hafter
  rw [htable, hafter]
  simp only [UInt64.zero_add]

/-- One doorbell, of the first vCPU. -/
theorem guest_doorbells_board :
    ∃ s, run (boardPlugin.config 4) (boardCallbacks ++ [.atexit 2]) {} = .ok s ∧
      ∃ payloads : List (ℕ × UInt64), Logs.of 0 payloads = [0x4000] ∧ Logs.of 1 payloads = [] ∧
        (tableAfter boardTable boardLog)[1]? = some ⟨0x20000000, 0x20000fff, .gpuTrace
          { doorbellCount := 1, recentDoorbellLo := (payloads.map Prod.snd).rtake 8 }⟩ := by
  obtain ⟨s, hs, hall⟩ := guest_doorbells install_board Nat.two_pos le_rfl translates_board
  obtain ⟨payloads, -, hown, htable⟩ := hall (sharedRun_board hs) (k := 1) rfl
  refine ⟨s, hs, payloads, (hown 0 Nat.two_pos).trans ?_, (hown 1 Nat.one_lt_two).trans ?_,
    htable.trans ?_⟩
  · decide +kernel
  · decide +kernel
  · have hcounts : ∀ doorbells polls : UInt64, doorbells = 1 → polls = 0 →
        some (BoundedRegionHandler.mk 0x20000000 0x20000fff (.gpuTrace
          { doorbellCount := doorbells, pollCount := polls,
            recentDoorbellLo := (payloads.map Prod.snd).rtake 8 })) =
        some ⟨0x20000000, 0x20000fff, .gpuTrace
          { doorbellCount := 1, recentDoorbellLo := (payloads.map Prod.snd).rtake 8 }⟩ := by
      rintro _ _ rfl rfl
      rfl
    exact hcounts _ _ (by decide +kernel) (by decide +kernel)

/-- **The verdict of a guest.** A core signals the test finisher once at most, since it ends with
the signal. What is printed at the end is the verdict on the last of the signals, and nothing if no
core has signalled. -/
theorem guest_verdict
    (hinstall : install version registered handlers attach info argv = .ok i) (hpos : 0 < n)
    (hn : n ≤ i.configuredVcpus.toNat) (h : ∀ v < n, Translates i version v (insns v) cbs) :
    ∃ s, run (i.config version) (cbs ++ [.atexit n]) {} = .ok s ∧
      ∀ {c : ℕ → CoreContext} {table : List BoundedRegionHandler} {r : ℕ → CoreRun}
        {log : List (ℕ × QuetzCommand × Handled)}, SharedRun c table n s.rings r log →
        ∀ {k : ℕ} {start last : UInt64} {pass : UInt32},
        table[k]? = some ⟨start, last, .testFinisher { passValue := pass }⟩ →
        ∃ signalled : List (ℕ × UInt32), (∀ e ∈ signalled, e.1 < n) ∧
          (∀ v < n, Logs.of v signalled = upToHalt (c v) (ownedBy table k signals)
              (guestCommands i version (insns v)) ∧ (Logs.of v signalled).length ≤ 1) ∧
          ∀ coreId, (tableAfter table log)[k]?.map (fun h => h.finish coreId) =
            some (match signalled.getLast? with
              | none => []
              | some e => verdictLine coreId pass e.2) := by
  obtain ⟨s, hs, hkept⟩ := guest_kept hinstall hpos hn h
  refine ⟨s, hs, fun {c table r log} hrun {k start last pass} hk => ?_⟩
  obtain ⟨accesses, htags, htable, hown⟩ := hkept hrun hk (access_testFinisher_final start last _)
  refine ⟨Logs.derived signals accesses, Logs.derived_tags (p := fun v => v < n) htags,
    fun v hv => ⟨hown signals v hv, ?_⟩, fun coreId => ?_⟩
  · rw [hown signals v hv]
    refine length_upToHalt_le (fun cmd => ?_) (fun cmd => halts_of_signals (hrun.shared v) hk) _
    rw [ownedBy, signals]
    split_ifs <;> simp
  · rw [htable, testFinisher_after, ← Logs.map_snd_derived, Option.map_some, List.getLast?_map]
    cases hlast : (Logs.derived signals accesses).getLast? with
    | none =>
        rw [List.getLast?_eq_none_iff.mp hlast]
        rfl
    | some e =>
        have hne : (Logs.derived signals accesses).isEmpty = false := by
          cases hderived : Logs.derived signals accesses with
          | nil => rw [hderived] at hlast; cases hlast
          | cons a as => rfl
        rw [List.isEmpty_map, hne]
        rfl

/-- The second vCPU has signalled that the guest passed. -/
theorem guest_verdict_board :
    ∃ s, run (boardPlugin.config 4) (boardCallbacks ++ [.atexit 2]) {} = .ok s ∧
      ∃ signalled : List (ℕ × UInt32), Logs.of 0 signalled = [] ∧
        Logs.of 1 signalled = [0x5555] ∧
        (∀ coreId, (tableAfter boardTable boardLog)[2]?.map (fun h => h.finish coreId) =
          some (match signalled.getLast? with
            | none => []
            | some e => verdictLine coreId 0x5555 e.2)) ∧
        (tableAfter boardTable boardLog)[2]?.map (fun h => h.finish 1) =
          some "TESTFINISH[1]: guest signalled completion, value=0x5555 (PASS)\n".toList := by
  obtain ⟨s, hs, hall⟩ := guest_verdict install_board Nat.two_pos le_rfl translates_board
  obtain ⟨signalled, -, hown, hprint⟩ := hall (sharedRun_board hs) (k := 2) rfl
  refine ⟨s, hs, signalled, (hown 0 Nat.two_pos).1.trans ?_, (hown 1 Nat.one_lt_two).1.trans ?_,
    hprint, ?_⟩
  · decide +kernel
  · decide +kernel
  · decide +kernel

end

end Plugin

end Quetz
