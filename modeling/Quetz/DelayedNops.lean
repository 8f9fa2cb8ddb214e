import Quetz.PluginTrace

/-!
# Delayed Classification

An ISA without a decoder gives the plugin one callback for every instruction, before it executes,
and callbacks for its accesses. Whether an instruction is a computation is known only afterwards,
so `handle_exec_delayed` judges the instruction *before*: a NOP is reported unless an access set
`g_mem_seen`. The flag starts cleared and nothing tells the first instruction from the others, so
the first callback reports a NOP for an instruction that never executed; and `cb_atexit` judges
nothing, so the last instruction is never reported. An ISA with a decoder reports each instruction
in its own callback.

The instructions of one vCPU are taken in any interleaving with the callbacks of the others.

## Main results

* `Plugin.reported_delayed`: the trace of any instruction sequence.
* `Plugin.nops_delayed`, `Plugin.delayed_before`: how many NOPs it has, and where.
* `Plugin.delayed_classified_iff`: when every computation is counted once.
-/

namespace Quetz

/-! ### Executed instructions -/

/-- An instruction that executed: whether it is a cache operation, and its accesses. -/
structure ExecutedInsn where
  pc : UInt64
  cacheOp : Bool := false
  accesses : List (MemInfo × UInt64) := []
deriving DecidableEq, Repr

/-- The vCPU of a callback; the end of the guest is of no vCPU. -/
def PluginCallback.vcpu : PluginCallback → Option ℕ
  | .emitNop v .. | .execDelayed v .. | .mem v .. | .cacheOp v => some v
  | .atexit _ => none

/-- The callbacks that `cb_tb_trans` registers for an instruction without a decoder, in the order
in which QEMU calls them. -/
def ExecutedInsn.callbacks (v : ℕ) (i : ExecutedInsn) : List PluginCallback :=
  (if i.cacheOp then [.cacheOp v] else []) ++
    .execDelayed v i.pc .other :: i.accesses.map fun a => .mem v a.1 a.2 i.pc .intMem

namespace Plugin

variable (p : PluginConfig)

/-- The records of an instruction: one for every access that is neither to the doorbell range nor
to the window. -/
def records (i : ExecutedInsn) : List QuetzCommand :=
  (i.accesses.filter fun a => !isSync p a.2).map fun a => accessCommand p a.1 a.2 i.pc .intMem

/-- The instruction made no traced access. -/
def nonMemory (i : ExecutedInsn) : Bool := (records p i).isEmpty

/-- The callbacks of `v` are those of an instruction sequence, and the guest has not ended. -/
structure Executes (v : ℕ) (insns : List ExecutedInsn) (cbs : List PluginCallback) : Prop where
  own : cbs.filter (fun cb => cb.vcpu == some v) = insns.flatMap (ExecutedInsn.callbacks v)
  running : ∀ cb ∈ cbs, cb.vcpu ≠ none

/-! ### NOPs and records of a trace -/

/-- A NOP of an expanded ring. -/
def isNop : TraceItem → Bool
  | .compute _ => true
  | _ => false

/-- The record of an expanded ring. -/
def record? : TraceItem → Option QuetzCommand
  | .access cmd => some cmd
  | _ => none

/-- Every instruction that made no traced access is counted once: the NOPs stand for them in order,
and the NOPs of the instructions before another one precede its records and all later ones. -/
structure Classified (insns : List ExecutedInsn) (trace : List TraceItem) : Prop where
  counted : trace.countP isNop = insns.countP (nonMemory p)
  inOrder : ∀ before i after, insns = before ++ i :: after → ∃ front back, trace = front ++ back ∧
    front.filterMap record? = before.flatMap (records p) ∧
    before.countP (nonMemory p) ≤ front.countP isNop

/-- The trace of an instruction sequence; `seen` is the flag when it starts. -/
def delayed (seen : Bool) : List ExecutedInsn → List TraceItem
  | [] => []
  | i :: insns =>
    (if seen then [] else [.compute InsnClass.other.code]) ++
      ((records p i).map .access ++ delayed (!nonMemory p i) insns)

/-- The flag after an instruction sequence. -/
def seenAfter (seen : Bool) (insns : List ExecutedInsn) : Bool :=
  insns.foldl (fun _ i => !nonMemory p i) seen

/-! ### What the callbacks report -/

variable {p} {v : ℕ}

/-- A callback of another vCPU reports nothing. -/
theorem observe_other {cb : PluginCallback} (hrun : cb.vcpu ≠ none) (hcb : cb.vcpu ≠ some v)
    (o : Observed) : observe p v o cb = o := by
  cases cb with
  | emitNop u pc cls => exact if_neg fun huv => hcb (congrArg some huv)
  | execDelayed u pc cls => exact if_neg fun huv => hcb (congrArg some huv)
  | mem u info vaddr pc cls => exact if_neg fun huv => hcb (congrArg some huv.1)
  | cacheOp u => rfl
  | atexit n => exact absurd rfl hrun

theorem foldl_observe_own (cbs : List PluginCallback) (hrun : ∀ cb ∈ cbs, cb.vcpu ≠ none)
    (o : Observed) : cbs.foldl (observe p v) o =
      (cbs.filter fun cb => cb.vcpu == some v).foldl (observe p v) o := by
  induction cbs generalizing o with
  | nil => rfl
  | cons cb cbs ih =>
      have hrest := ih fun cb' hcb' => hrun cb' (List.mem_cons_of_mem _ hcb')
      by_cases hown : cb.vcpu = some v
      · rw [List.filter_cons_of_pos (by simpa using hown), List.foldl_cons, List.foldl_cons, hrest]
      · rw [List.filter_cons_of_neg (by simpa using hown), List.foldl_cons,
          observe_other (hrun cb List.mem_cons_self) hown, hrest]

/-- The accesses of an instruction. -/
theorem observe_accesses (pc : UInt64) (accesses : List (MemInfo × UInt64)) (o : Observed) :
    (accesses.map fun a => PluginCallback.mem v a.1 a.2 pc .intMem).foldl (observe p v) o =
      { memSeen := o.memSeen || !(records p ⟨pc, false, accesses⟩).isEmpty
        prevCls := o.prevCls
        trace := o.trace ++ (records p ⟨pc, false, accesses⟩).map .access } := by
  induction accesses generalizing o with
  | nil => simp [records]
  | cons a accesses ih =>
      rw [List.map_cons, List.foldl_cons, ih, observe]
      cases hsync : isSync p a.2 with
      | true => simp [records, hsync]
      | false => simp [records, hsync]

/-- One instruction: the one before is judged, and its own accesses are reported. -/
theorem observe_insn (i : ExecutedInsn) (o : Observed) :
    (i.callbacks v).foldl (observe p v) o =
      { memSeen := !nonMemory p i
        prevCls := .other
        trace := o.trace ++ ((if o.memSeen then [] else [.compute o.prevCls.code]) ++
          (records p i).map .access) } := by
  have hflush : ((if i.cacheOp then [.cacheOp v] else []) : List PluginCallback).foldl
      (observe p v) o = o := by
    split_ifs <;> rfl
  rw [ExecutedInsn.callbacks, List.foldl_append, hflush, List.foldl_cons, observe, if_pos rfl,
    observe_accesses]
  cases o.memSeen with
  | true => simp [nonMemory, records]
  | false => simp [nonMemory, records]

/-- An instruction sequence. -/
theorem observe_insns (insns : List ExecutedInsn) (o : Observed) (hcls : o.prevCls = .other) :
    (insns.flatMap (ExecutedInsn.callbacks v)).foldl (observe p v) o =
      { memSeen := seenAfter p o.memSeen insns
        prevCls := .other
        trace := o.trace ++ delayed p o.memSeen insns } := by
  induction insns generalizing o with
  | nil =>
      obtain ⟨seen, cls, trace⟩ := o
      obtain rfl : cls = .other := hcls
      simp [seenAfter, delayed]
  | cons i insns ih =>
      rw [List.flatMap_cons, List.foldl_append, observe_insn, ih _ rfl, hcls]
      simp [seenAfter, delayed]

/-- **The trace of an instruction sequence**; callbacks of other vCPUs may come in between. -/
theorem reported_delayed {insns : List ExecutedInsn} {cbs : List PluginCallback}
    (h : Executes v insns cbs) : reported p v cbs = delayed p false insns := by
  rw [reported, foldl_observe_own cbs h.running, h.own, observe_insns insns {} rfl]
  exact List.nil_append _

/-- The end of the guest reports no instruction. -/
theorem reported_atexit (cbs : List PluginCallback) {n : ℕ} (hn : v < n) :
    reported p v (cbs ++ [.atexit n]) = reported p v cbs ++ [.exit] := by
  rw [reported, reported, List.foldl_append, List.foldl_cons, List.foldl_nil, observe,
    if_neg (Nat.ne_of_gt (Nat.zero_lt_of_lt hn)), if_pos hn]

/-! ### Counting -/

theorem countP_records (cmds : List QuetzCommand) :
    (cmds.map TraceItem.access).countP isNop = 0 := by
  induction cmds with
  | nil => rfl
  | cons cmd cmds ih =>
      rw [List.map_cons, List.countP_cons_of_neg (fun h => Bool.noConfusion h), ih]

theorem filterMap_records (cmds : List QuetzCommand) :
    (cmds.map TraceItem.access).filterMap record? = cmds := by
  induction cmds with
  | nil => rfl
  | cons cmd cmds ih => rw [List.map_cons, List.filterMap_cons, record?, ih]

/-- The NOP of the callback that finds the flag cleared. -/
theorem countP_judged (seen : Bool) :
    (if seen then [] else [TraceItem.compute InsnClass.other.code]).countP isNop =
      (!seen).toNat := by
  cases seen with
  | true => rfl
  | false => rfl

theorem filterMap_judged (seen : Bool) :
    (if seen then [] else [TraceItem.compute InsnClass.other.code]).filterMap record? = [] := by
  cases seen with
  | true => rfl
  | false => rfl

/-- **The NOPs of an instruction sequence**: one for each computation, one more for the cleared
flag at the start, and one less if the flag is cleared at the end. -/
theorem nops_delayed (seen : Bool) (insns : List ExecutedInsn) :
    (delayed p seen insns).countP isNop + (!seenAfter p seen insns).toNat =
      (!seen).toNat + insns.countP (nonMemory p) := by
  induction insns generalizing seen with
  | nil => simp [delayed, seenAfter]
  | cons i insns ih =>
      have hrest := ih (!nonMemory p i)
      have hafter : seenAfter p seen (i :: insns) = seenAfter p (!nonMemory p i) insns := rfl
      have hcount : (i :: insns).countP (nonMemory p) =
          insns.countP (nonMemory p) + (nonMemory p i).toNat := by
        rw [List.countP_cons]
        cases nonMemory p i with
        | true => rfl
        | false => rfl
      rw [Bool.not_not] at hrest
      rw [delayed, List.countP_append, List.countP_append, countP_judged, countP_records, hafter,
        hcount]
      omega

theorem filterMap_delayed (seen : Bool) (insns : List ExecutedInsn) :
    (delayed p seen insns).filterMap record? = insns.flatMap (records p) := by
  induction insns generalizing seen with
  | nil => rfl
  | cons i insns ih =>
      rw [delayed, List.filterMap_append, List.filterMap_append, filterMap_judged,
        filterMap_records, ih, List.nil_append, List.flatMap_cons]

theorem delayed_append (seen : Bool) (insns insns' : List ExecutedInsn) :
    delayed p seen (insns ++ insns') =
      delayed p seen insns ++ delayed p (seenAfter p seen insns) insns' := by
  induction insns generalizing seen with
  | nil => rfl
  | cons i insns ih =>
      rw [List.cons_append, delayed, delayed, ih, List.append_assoc, List.append_assoc]
      rfl

/-- **Where the NOPs are**: what precedes the records of an instruction holds all earlier records,
no other, and more NOPs than there were computations. -/
theorem delayed_before (insns : List ExecutedInsn) (i : ExecutedInsn) (insns' : List ExecutedInsn) :
    ∃ front back, delayed p false (insns ++ i :: insns') = front ++ back ∧
      front.filterMap record? = insns.flatMap (records p) ∧
      front.countP isNop = insns.countP (nonMemory p) + 1 := by
  refine ⟨delayed p false insns ++
    (if seenAfter p false insns then [] else [.compute InsnClass.other.code]),
    (records p i).map .access ++ delayed p (!nonMemory p i) insns', ?_, ?_, ?_⟩
  · rw [delayed_append, delayed, List.append_assoc]
  · rw [List.filterMap_append, filterMap_delayed, filterMap_judged, List.append_nil]
  · have hcount := nops_delayed (p := p) false insns
    rw [List.countP_append, countP_judged, hcount]
    exact Nat.add_comm ..

/-! ### Every computation once -/

/-- The flag after a sequence is that of its last instruction. -/
theorem seenAfter_eq_false_iff (insns : List ExecutedInsn) (hne : insns ≠ []) :
    seenAfter p false insns = false ↔ nonMemory p (insns.getLast hne) = true := by
  obtain ⟨front, last, rfl⟩ := (List.eq_nil_or_concat insns).resolve_left hne
  simp [seenAfter, List.foldl_append]

/-- The trace of the code is right exactly if the instruction that is never judged needs no NOP,
or takes the place of the first one. -/
theorem classified_delayed_iff (insns : List ExecutedInsn) :
    Classified p insns (delayed p false insns ++ [.exit]) ↔
      ∀ last, insns.getLast? = some last → nonMemory p last = true := by
  have hexit : (delayed p false insns ++ [TraceItem.exit]).countP isNop =
      (delayed p false insns).countP isNop := by
    rw [List.countP_append]
    rfl
  have hcount := nops_delayed (p := p) false insns
  have hone : (!false).toNat = 1 := rfl
  rw [hone] at hcount
  rcases eq_or_ne insns [] with rfl | hne
  · constructor
    · exact fun _ last hlast => by cases hlast
    · exact fun _ => ⟨rfl, fun before i after h => by simp at h⟩
  · rw [List.getLast?_eq_some_getLast hne]
    have hflag := seenAfter_eq_false_iff (p := p) insns hne
    constructor
    · rintro h last hlast
      obtain rfl := Option.some.inj hlast
      refine hflag.mp ?_
      have hnops := h.counted
      rw [hexit] at hnops
      cases hseen : seenAfter p false insns with
      | true =>
          rw [hseen] at hcount
          have hzero : (!true).toNat = 0 := rfl
          omega
      | false => rfl
    · intro hlast
      rw [hflag.mpr (hlast _ rfl), hone] at hcount
      refine ⟨by omega, fun before i after hinsns => ?_⟩
      obtain ⟨front, back, htrace, hrecords, hnops⟩ := delayed_before (p := p) before i after
      refine ⟨front, back ++ [.exit], ?_, hrecords, by omega⟩
      rw [hinsns, htrace, List.append_assoc]

/-- **Delayed classification**: when the guest has ended, the ring of a vCPU counts every
instruction without a traced access once, before the records of later ones, exactly if no
instruction was executed or the last one made no traced access. -/
theorem delayed_classified_iff (hmax : p.configuredVcpus ≤ pluginMaxVcpus) {n : ℕ} (hv : v < n)
    (hn : n ≤ p.configuredVcpus) {insns : List ExecutedInsn} {cbs : List PluginCallback}
    (hcbs : ∀ cb ∈ cbs, Attached p cb) (h : Executes v insns cbs) :
    ∃ s, run p (cbs ++ [.atexit n]) {} = .ok s ∧ (Classified p insns (expand (s.rings v)) ↔
      ∀ last, insns.getLast? = some last → nonMemory p last = true) := by
  have hattached : ∀ cb ∈ cbs ++ [.atexit n], Attached p cb := by
    intro cb hcb
    rcases List.mem_append.mp hcb with hcb | hcb
    · exact hcbs cb hcb
    · obtain rfl := List.mem_singleton.mp hcb
      exact hn
  obtain ⟨s, hs, htrip⟩ := trace_round_trips hmax (hv.trans_le hn) _ hattached
  have hend : Ordered v (.atexit n) := by
    rw [Ordered, if_neg (Nat.ne_of_gt (Nat.zero_lt_of_lt hv))]
    exact hv
  obtain ⟨-, hring⟩ := htrip.ordered (.atexit n) List.getLast?_concat hend
  refine ⟨s, hs, ?_⟩
  rw [hring, reported_atexit cbs hv, reported_delayed h]
  exact classified_delayed_iff insns

/-- A vCPU without precise memory callbacks. -/
def delayedConfig : PluginConfig := { usesPreciseMemCallbacks := false }

/-- A load. -/
def loadInsn : ExecutedInsn := ⟨0x100, false, [(⟨false, 2, .u32 0⟩, 0x4000)]⟩

/-- A load and a computation are classified. -/
theorem delayed_classified_load : ∃ s, run delayedConfig (loadInsn.callbacks 0 ++
    ExecutedInsn.callbacks 0 ⟨0x104, false, []⟩ ++ [.atexit 1]) {} = .ok s ∧
      Classified delayedConfig [loadInsn, ⟨0x104, false, []⟩] (expand (s.rings 0)) := by
  have hattached : ∀ cb ∈ loadInsn.callbacks 0 ++ ExecutedInsn.callbacks 0 ⟨0x104, false, []⟩,
      Attached delayedConfig cb := by
    intro cb hcb
    simp only [ExecutedInsn.callbacks, loadInsn, List.map_cons, List.map_nil, Bool.false_eq_true,
      if_false, List.nil_append, List.cons_append, List.mem_cons, List.not_mem_nil, or_false] at hcb
    rcases hcb with rfl | rfl | rfl <;> exact Nat.one_pos
  have hexec : Executes 0 [loadInsn, ⟨0x104, false, []⟩]
      (loadInsn.callbacks 0 ++ ExecutedInsn.callbacks 0 ⟨0x104, false, []⟩) :=
    ⟨by decide, by decide⟩
  obtain ⟨s, hs, hiff⟩ := delayed_classified_iff (by decide) Nat.one_pos le_rfl hattached hexec
  refine ⟨s, hs, hiff.mpr fun last hlast => ?_⟩
  obtain rfl := Option.some.inj hlast
  rfl

/-- A load alone leaves a NOP on the ring. -/
theorem lone_load_not_classified : ∃ s,
    run delayedConfig (loadInsn.callbacks 0 ++ [.atexit 1]) {} = .ok s ∧
      ¬Classified delayedConfig [loadInsn] (expand (s.rings 0)) :=
  ⟨_, rfl, fun h => absurd h.counted (by decide)⟩

end Plugin

end Quetz
