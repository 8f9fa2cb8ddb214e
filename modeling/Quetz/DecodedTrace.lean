import Quetz.CacheOps
import Quetz.DelayedNops
import Quetz.PipelineCounts
import Quetz.PluginInstall
import Quetz.RiscvMmio

/-!
# From the Instructions of the Guest to the Links

When QEMU translates a block, the plugin decodes each instruction and decides which callbacks it
gets (`cb_tb_trans` in `src/qemu_plugin/instrument.cpp`, `decoder_riscv.h`, `decoder_aarch64.h`). An
instruction of a memory class gets a callback for its accesses and nothing else, any other one a
callback that reports a computation; an access of an instruction that the decoder takes for a
computation is not traced. A target without a decoder is judged afterwards.

Together with the ring and the pipeline this says what a core makes of a program: the requests on
its links and its instruction counters are those of the instructions of the guest, in program
order, however the vCPUs interleave, the plugin coalesces and the pipeline is limited.

## Main results

* `Riscv.classify_of_decodeLdst`: a serviced load or store is of a memory class.
* `Plugin.reported_translated`: what is reported of an instruction sequence.
* `Plugin.guest_reaches_links`: the requests and the counters of a core.
-/

namespace Quetz

open BitFields Bytes

/-! ### The decoders -/

/-- The instructions with an access callback. -/
def InsnClass.isMem : InsnClass → Bool
  | .intMem | .fpMem | .vecMem => true
  | _ => false

/-- `classify_rvc_rv64`: the compressed instructions. -/
def classifyRvcRv64 (enc : ℕ) : InsnClass :=
  let quad := field enc 0 2
  let fn3 := field enc 13 3
  if quad = 0 then
    match fn3 with
    | 1 => .fpMem
    | 2 => .intMem
    | 3 => .intMem
    | 5 => .fpMem
    | 6 => .intMem
    | 7 => .intMem
    | _ => .intCompute
  else if quad = 1 then
    match fn3 with
    | 5 | 6 | 7 => .branch
    | _ => .intCompute
  else
    match fn3 with
    | 1 => .fpMem
    | 2 => .intMem
    | 3 => .intMem
    | 4 =>
      if field enc 2 5 ≠ 0 then .intCompute
      else if field enc 12 1 = 0 then .branch
      else if field enc 7 5 = 0 then .other
      else .branch
    | 5 => .fpMem
    | 6 => .intMem
    | 7 => .intMem
    | _ => .intCompute

/-- `classify_riscv_insn`. -/
def classifyRiscvInsn (enc : ℕ) : InsnClass :=
  if field enc 0 2 ≠ 3 then classifyRvcRv64 enc
  else
    let funct3 := field enc 12 3
    match field enc 0 7 with
    | 0x03 | 0x23 => .intMem
    | 0x07 | 0x27 => if funct3 = 2 ∨ funct3 = 3 ∨ funct3 = 4 then .fpMem else .vecMem
    | 0x2f => .intMem
    | 0x43 | 0x47 | 0x4b | 0x4f => .fpCompute
    | 0x53 => .fpCompute
    | 0x57 => .vecCompute
    | 0x63 | 0x67 | 0x6f => .branch
    | 0x13 | 0x33 | 0x1b | 0x3b | 0x17 | 0x37 | 0x0f => .intCompute
    | _ => .other

/-- `classify_aarch64_insn`. -/
def classifyAarch64Insn (enc : ℕ) : InsnClass :=
  if field enc 27 1 ≠ 0 ∧ field enc 25 1 = 0 then
    if field enc 26 1 ≠ 0 then .vecMem else .intMem
  else
    match field enc 25 4 with
    | 0x8 | 0x9 => .intCompute
    | 0x5 | 0xd => .intCompute
    | 0x7 => .vecCompute
    | 0xe | 0xf => .fpCompute
    | 0x2 | 0x3 | 0xa | 0xb => .branch
    | 0x1 => .vecCompute
    | _ => .other

def InsnClassifier.classify : InsnClassifier → ℕ → InsnClass
  | riscv => classifyRiscvInsn
  | aarch64 => classifyAarch64Insn
  | generic => fun _ => .other

/-! ### The decoder and the fault handler -/

namespace UserMode.Riscv

variable {insn : ℕ} {d : LdSt}

/-- The decoder looks at the bytes of a compressed instruction only. -/
theorem classify_compressed (hrvc : field insn 0 2 ≠ 3) :
    classifyRiscvInsn (insn % 2 ^ 16) = classifyRvcRv64 insn := by
  have hmod : classifyRvcRv64 (insn % 2 ^ 16) = classifyRvcRv64 insn := by
    unfold classifyRvcRv64
    rw [field_mod (by decide), field_mod (by decide), field_mod (by decide), field_mod (by decide),
      field_mod (by decide)]
  rw [classifyRiscvInsn, field_mod (by decide), if_pos hrvc, hmod]

/-- A load or a store of the base encoding. -/
theorem classify_word (hword : field insn 0 2 = 3)
    (hop : field insn 0 7 = 3 ∨ field insn 0 7 = 35) :
    classifyRiscvInsn (insn % 2 ^ 32) = .intMem := by
  have hopcode : field (insn % 2 ^ 32) 0 7 = field insn 0 7 := field_mod (by decide) insn
  rw [classifyRiscvInsn, field_mod (by decide), if_neg (not_not.mpr hword), hopcode]
  rcases hop with hop | hop
  · rw [hop]
    rfl
  · rw [hop]
    rfl

/-- **Both decoders agree.** A load or a store that the fault handler services is of a memory class,
so that an access of it that does not fault is traced. -/
theorem classify_of_decodeLdst (h : decodeLdst insn = some d) :
    classifyRiscvInsn (insn % 2 ^ (8 * d.len)) = .intMem := by
  rw [decodeLdst] at h
  split at h
  next hrvc =>
    simp only at h
    split at h
    · exact absurd h (by rintro ⟨⟩)
    rename_i hq
    have hclass : ∀ n, n = 2 ∨ n = 3 ∨ n = 6 ∨ n = 7 → field insn 13 3 = n →
        classifyRiscvInsn (insn % 2 ^ 16) = .intMem := by
      intro n hn hf
      rw [classify_compressed hrvc, classifyRvcRv64, not_not.mp hq, hf]
      rcases hn with rfl | rfl | rfl | rfl <;> rfl
    split at h
    next hf => exact Option.some.inj h ▸ hclass 2 (by decide) hf
    next hf => exact Option.some.inj h ▸ hclass 3 (by decide) hf
    next hf => exact Option.some.inj h ▸ hclass 6 (by decide) hf
    next hf => exact Option.some.inj h ▸ hclass 7 (by decide) hf
    next => exact absurd h (by rintro ⟨⟩)
  next hword =>
    have hword := not_not.mp hword
    have hlen : d.len = 4 := by
      simp only at h
      split at h
      · split at h <;> cases h <;> rfl
      · split at h
        · split at h <;> cases h <;> rfl
        · cases h
    have hop : field insn 0 7 = 3 ∨ field insn 0 7 = 35 := by
      simp only at h
      split at h
      next hop => exact Or.inl hop
      next =>
        split at h
        next hop => exact Or.inr hop
        next => exact absurd h (by rintro ⟨⟩)
    rw [hlen]
    exact classify_word hword hop

end UserMode.Riscv

/-! ### Translation -/

/-- An instruction that executed: its bytes and its accesses. -/
structure TranslatedInsn where
  pc : UInt64
  bytes : List UInt8
  accesses : List (MemInfo × UInt64) := []
deriving DecidableEq, Repr

/-- The encoding that the decoder is given; QEMU copies at most four bytes. -/
def TranslatedInsn.enc (insn : TranslatedInsn) : ℕ := leNat (insn.bytes.take 4)

/-- The instruction has the callback of a cache operation (`instrument_cache_op`). -/
def TranslatedInsn.cacheOp (i : Installed) (insn : TranslatedInsn) : Bool :=
  i.args.cacheOps && (decodeColdFireCacheOp (insn.bytes.take 4)).valid

/-- The callbacks that `cb_tb_trans` registers for an instruction, in the order in which QEMU calls
them. -/
def TranslatedInsn.callbacks (i : Installed) (v : ℕ) (insn : TranslatedInsn) :
    List PluginCallback :=
  let cacheOp := if insn.cacheOp i then [PluginCallback.cacheOp v] else []
  if !i.classifier.usesPreciseMemCallbacks then
    cacheOp ++ .execDelayed v insn.pc .other ::
      insn.accesses.map fun a => .mem v a.1 a.2 insn.pc .intMem
  else
    let cls := i.classifier.classify insn.enc
    if cls.isMem then cacheOp ++ insn.accesses.map fun a => .mem v a.1 a.2 insn.pc cls
    else cacheOp ++ [.emitNop v insn.pc cls]

namespace Plugin

variable {i : Installed} {version v n : ℕ} {insns : List TranslatedInsn}
  {cbs : List PluginCallback}

/-- The callbacks of `v` are those of an instruction sequence, and the guest has not ended. -/
structure Translates (i : Installed) (version v : ℕ) (insns : List TranslatedInsn)
    (cbs : List PluginCallback) : Prop where
  own : cbs.filter (fun cb => cb.vcpu == some v) = insns.flatMap (TranslatedInsn.callbacks i v)
  running : ∀ cb ∈ cbs, cb.vcpu ≠ none
  attached : ∀ cb ∈ cbs, Attached (i.config version) cb

/-- The accesses of an instruction that neither the doorbell range nor the window serves. -/
def tracedAccesses (p : PluginConfig) (cls : InsnClass) (insn : TranslatedInsn) :
    List QuetzCommand :=
  (insn.accesses.filter fun a => !isSync p a.2).map fun a => accessCommand p a.1 a.2 insn.pc cls

/-- What a decoder makes of an instruction: its traced accesses, or one computation. -/
def itemsOf (i : Installed) (version : ℕ) (insn : TranslatedInsn) : List TraceItem :=
  let cls := i.classifier.classify insn.enc
  if cls.isMem then (tracedAccesses (i.config version) cls insn).map .access
  else [.compute cls.code]

/-- The instruction as one without a decoder is judged. -/
def executed (i : Installed) (insn : TranslatedInsn) : ExecutedInsn :=
  ⟨insn.pc, insn.cacheOp i, insn.accesses⟩

/-- The trace of an instruction sequence. -/
def traceOf (i : Installed) (version : ℕ) (insns : List TranslatedInsn) : List TraceItem :=
  if i.classifier.usesPreciseMemCallbacks then insns.flatMap (itemsOf i version)
  else delayed (i.config version) false (insns.map (executed i))

/-- The callbacks without a decoder are those of delayed classification. -/
theorem callbacks_executed (hgeneric : i.classifier.usesPreciseMemCallbacks = false)
    (v : ℕ) (insn : TranslatedInsn) :
    insn.callbacks i v = (executed i insn).callbacks v := by
  rw [TranslatedInsn.callbacks, hgeneric]
  rfl

/-- The accesses of an instruction of one class. -/
theorem observe_mem (p : PluginConfig) (pc : UInt64) (cls : InsnClass)
    (accesses : List (MemInfo × UInt64)) (o : Observed) :
    ∃ seen, (accesses.map fun a => PluginCallback.mem v a.1 a.2 pc cls).foldl (observe p v) o =
      { o with
        memSeen := seen
        trace := o.trace ++ (tracedAccesses p cls ⟨pc, [], accesses⟩).map .access } := by
  induction accesses generalizing o with
  | nil => exact ⟨o.memSeen, by simp [tracedAccesses]⟩
  | cons a accesses ih =>
      rw [List.map_cons, List.foldl_cons, observe]
      cases hsync : isSync p a.2 with
      | true =>
          obtain ⟨seen, hrest⟩ := ih o
          refine ⟨seen, ?_⟩
          rw [if_neg (by simp), hrest]
          simp [tracedAccesses, hsync]
      | false =>
          obtain ⟨seen, hrest⟩ := ih { o with
            memSeen := true
            trace := o.trace ++ [.access (accessCommand p a.1 a.2 pc cls)] }
          refine ⟨seen, ?_⟩
          rw [if_pos ⟨rfl, rfl⟩, hrest]
          simp [tracedAccesses, hsync]

/-- One decoded instruction. -/
theorem observe_decoded (hprecise : i.classifier.usesPreciseMemCallbacks = true)
    (insn : TranslatedInsn) (o : Observed) :
    ((insn.callbacks i v).foldl (observe (i.config version) v) o).trace =
      o.trace ++ itemsOf i version insn := by
  have hcache : ((if insn.cacheOp i then [.cacheOp v] else []) : List PluginCallback).foldl
      (observe (i.config version) v) o = o := by
    split_ifs <;> rfl
  rw [TranslatedInsn.callbacks, hprecise, if_neg (by decide), itemsOf]
  dsimp only
  by_cases hmem : (i.classifier.classify insn.enc).isMem = true
  · obtain ⟨seen, hrest⟩ := observe_mem (v := v) (i.config version) insn.pc
      (i.classifier.classify insn.enc) insn.accesses o
    rw [if_pos hmem, if_pos hmem, List.foldl_append, hcache, hrest]
    rfl
  · rw [if_neg hmem, if_neg hmem, List.foldl_append, hcache, List.foldl_cons, observe, if_pos rfl]
    rfl

/-- **What is reported of an instruction sequence**, with a decoder or without one; callbacks of
other vCPUs may come in between. -/
theorem reported_translated (h : Translates i version v insns cbs) :
    reported (i.config version) v cbs = traceOf i version insns := by
  rw [traceOf]
  split_ifs with hprecise
  · have hinsns : ∀ o : Observed, ((insns.flatMap (TranslatedInsn.callbacks i v)).foldl
        (observe (i.config version) v) o).trace = o.trace ++ insns.flatMap (itemsOf i version) := by
      intro o
      clear h
      induction insns generalizing o with
      | nil => exact (List.append_nil _).symm
      | cons insn insns ih =>
          rw [List.flatMap_cons, List.foldl_append, ih, observe_decoded hprecise,
            List.flatMap_cons, List.append_assoc]
    rw [reported, foldl_observe_own cbs h.running, h.own, hinsns]
    exact List.nil_append _
  · have hgeneric : i.classifier.usesPreciseMemCallbacks = false := by simpa using hprecise
    refine reported_delayed ⟨?_, h.running⟩
    rw [h.own, List.flatMap_map]
    exact congrArg (insns.flatMap ·) (funext fun insn => callbacks_executed hgeneric v insn)

/-! ### The pipeline of the core -/

/-- The command of an item of a trace. -/
def command : TraceItem → QuetzCommand
  | .compute cls => { cmd := .nop, insnClass := cls }
  | .access cmd => cmd
  | .exit => { cmd := .exit }

/-- The commands of an instruction sequence and of the end of the guest, one for each item. -/
def guestCommands (i : Installed) (version : ℕ) (insns : List TranslatedInsn) :
    List QuetzCommand := (traceOf i version insns ++ [TraceItem.exit]).map command

variable {c : CoreContext} {β : Type} {f : QuetzCommand → List β}

/-- What a command contributes does not depend on the program counter of a computation or on the
fields of an exit. -/
structure OfItem (f : QuetzCommand → List β) : Prop where
  nop : ∀ cmd : QuetzCommand, cmd.cmd = .nop →
    f cmd = f { cmd := .nop, insnClass := cmd.insnClass }
  exit : ∀ cmd : QuetzCommand, cmd.cmd = .exit → f cmd = f { cmd := .exit }

/-- What a command requests, its item does. -/
theorem ofItem_requestsOf (c : CoreContext) : OfItem (requestsOf c) := by
  refine ⟨fun cmd hnop => ?_, fun cmd hexit => ?_⟩
  · rw [requestsOf_of_isCompute (by rw [QuetzCommand.isCompute, hnop]; rfl),
      requestsOf_of_isCompute rfl]
  · have hnone : ∀ cmd : QuetzCommand, cmd.cmd = .exit → requestsOf c cmd = [] :=
      fun cmd hexit => if_neg fun hissues => hissues.2.2 (Or.inl hexit)
    rw [hnone cmd hexit, hnone _ rfl]

/-- So it is for the charges. -/
theorem ofItem_chargesOf (c : CoreContext) : OfItem (chargesOf c) := by
  refine ⟨fun cmd hnop => ?_, fun cmd hexit => ?_⟩
  · rw [chargesOf_of_isCompute (by rw [QuetzCommand.isCompute, hnop]; rfl),
      chargesOf_of_isCompute rfl]
  · rw [chargesOf_of_not_access (by rw [QuetzCommand.isAccess, hexit]; rfl),
      chargesOf_of_not_access rfl]

/-- So it is for the counters. -/
theorem ofItem_countsOf (c : CoreContext) : OfItem (countsOf c) := by
  refine ⟨fun cmd hnop => ?_, fun cmd hexit => ?_⟩
  · have hcompute : cmd.isCompute = true := by rw [QuetzCommand.isCompute, hnop]; rfl
    rw [countsOf, countsOf, if_neg (not_halts_of_isCompute hcompute),
      if_neg (not_halts_of_isCompute rfl), if_pos hnop, if_pos rfl]
  · have hnone : ∀ cmd : QuetzCommand, cmd.cmd = .exit → countsOf c cmd = [] :=
      fun cmd hexit => if_pos (Or.inl hexit)
    rw [hnone cmd hexit, hnone _ rfl]

/-- The unrolled commands contribute what the items of the trace do. -/
theorem upToHalt_items (hf : OfItem f) (evs : List PipelineEvent) :
    upToHalt c f (Pipeline.commands evs) =
      upToHalt c f ((evs.map TraceItem.ofEvent).map command) := by
  induction evs with
  | nil => rfl
  | cons ev evs ih =>
      have hsame : f ev.cmd = f (command (.ofEvent ev)) ∧
          (Halts c ev.cmd ↔ Halts c (command (.ofEvent ev))) := by
        rw [TraceItem.ofEvent]
        split
        next hnop =>
          have hcompute : ev.cmd.isCompute = true := by rw [QuetzCommand.isCompute, hnop]; rfl
          exact ⟨hf.nop _ hnop, iff_of_false (not_halts_of_isCompute hcompute)
            (not_halts_of_isCompute rfl)⟩
        next hexit => exact ⟨hf.exit _ hexit, iff_of_true (Or.inl hexit) (Or.inl rfl)⟩
        next => exact ⟨rfl, Iff.rfl⟩
      have hrest : Pipeline.commands (ev :: evs) = ev.cmd :: Pipeline.commands evs := rfl
      rw [hrest, List.map_cons, List.map_cons, upToHalt, upToHalt, hsame.1, ih]
      simp only [hsame.2]

/-- Unrolling a stream changes nothing to which the computations do not contribute. -/
theorem upToHalt_unrolled (hf : ∀ cmd : QuetzCommand, cmd.isCompute = true → f cmd = [])
    (stream : List QuetzCommand) : upToHalt c f stream = upToHalt c f (unrolled stream) := by
  induction stream with
  | nil => rfl
  | cons cmd stream ih =>
      rw [← List.singleton_append, Pipeline.unrolled_append, unrolled, List.flatMap_singleton,
        eventsOf, List.singleton_append, upToHalt]
      by_cases hrun : cmd.cmd = .computeRun
      · have hcompute : cmd.isCompute = true := by rw [QuetzCommand.isCompute, hrun]; rfl
        rw [if_pos hrun, hf cmd hcompute, if_neg (not_halts_of_isCompute hcompute), ih,
          List.nil_append]
        refine (upToHalt_computes hf ?_ _ []).symm
        intro nop hnop
        simp only [Pipeline.commands, List.map_replicate] at hnop
        rw [List.eq_of_mem_replicate hnop]
        rfl
      · rw [if_neg hrun, ih]
        rfl

/-- A ring leads to what its items lead to. -/
theorem upToHalt_expand (hf : OfItem f) (hcomputes : ∀ cmd : QuetzCommand,
    cmd.isCompute = true → f cmd = []) (ring : List QuetzCommand) :
    upToHalt c f ring = upToHalt c f ((expand ring).map command) := by
  rw [upToHalt_unrolled hcomputes, expand]
  exact upToHalt_items hf _

/-- The requests of a ring are those of its items. -/
theorem reference_expand (ring : List QuetzCommand) :
    reference c ring = upToHalt c (requestsOf c) ((expand ring).map command) :=
  upToHalt_expand (ofItem_requestsOf c) (fun _ => requestsOf_of_isCompute) ring

/-- The charges of a ring are those of its items. -/
theorem referenceCharges_expand (ring : List QuetzCommand) :
    referenceCharges c ring = upToHalt c (chargesOf c) ((expand ring).map command) :=
  upToHalt_expand (ofItem_chargesOf c) (fun _ => chargesOf_of_isCompute) ring

/-- The counters of a ring are those of its items. -/
theorem referenceCounts_expand (ring : List QuetzCommand) :
    referenceCounts c ring = upToHalt c (countsOf c) ((expand ring).map command) := by
  rw [referenceCounts, expand]
  exact upToHalt_items (ofItem_countsOf c) _

/-- The ring of a vCPU when the guest has ended. -/
theorem ring_translated {registered : List (List Char × InsnClassifier)}
    {handlers : List (List Char × Unit)} {attach : List Char → Option UInt32}
    {info : Option QemuInfo} {argv : List (List Char)}
    (hinstall : install version registered handlers attach info argv = .ok i) (hv : v < n)
    (hn : n ≤ i.configuredVcpus.toNat) (h : Translates i version v insns cbs) :
    ∃ s, run (i.config version) (cbs ++ [.atexit n]) {} = .ok s ∧
      (expand (s.rings v)).map command = guestCommands i version insns := by
  obtain ⟨-, hmax⟩ := vcpus_of_install hinstall
  have hattached : ∀ cb ∈ cbs ++ [.atexit n], Attached (i.config version) cb := by
    intro cb hcb
    rcases List.mem_append.mp hcb with hcb | hcb
    · exact h.attached cb hcb
    · obtain rfl := List.mem_singleton.mp hcb
      exact hn
  obtain ⟨s, hs, htrip⟩ := trace_round_trips hmax (hv.trans_le hn) _ hattached
  have hend : Ordered v (.atexit n) := by
    rw [Ordered, if_neg (Nat.ne_of_gt (Nat.zero_lt_of_lt hv))]
    exact hv
  obtain ⟨-, hring⟩ := htrip.ordered (.atexit n) List.getLast?_concat hend
  rw [reported_atexit cbs hv, reported_translated h] at hring
  exact ⟨s, hs, congrArg (List.map command) hring⟩

/-- **From the guest to the links.** A plugin that was installed, with a decoder for the target or
without one, and any order in which its vCPUs execute their instructions. When the guest has ended,
the requests of the core that reads the ring of `v` and its instruction counters are those of the
instructions of `v`, in program order, up to an access that ends the simulation. This holds for all
limits and latencies of the core, and whenever the commands become visible and the requests are
answered; a core that has not halted has sent and counted a beginning of them. -/
theorem guest_reaches_links {registered : List (List Char × InsnClassifier)}
    {handlers : List (List Char × Unit)} {attach : List Char → Option UInt32}
    {info : Option QemuInfo} {argv : List (List Char)}
    (hinstall : install version registered handlers attach info argv = .ok i) (hv : v < n)
    (hn : n ≤ i.configuredVcpus.toNat) (h : Translates i version v insns cbs) :
    ∃ s, run (i.config version) (cbs ++ [.atexit n]) {} = .ok s ∧
      ∀ (c : CoreContext) (l : PipelineLimits), l.maxInsts = 0 → ∀ (host : Host)
        (es : List CoreEvent), CoreRun.pushed es <+: s.rings v →
        let r := CoreRun.run c l { host := host } es
        let requests := upToHalt c (requestsOf c) (guestCommands i version insns)
        let counts := (upToHalt c (countsOf c) (guestCommands i version insns)).map
          fun stat => (stat, 1)
        r.traffic <+: requests ∧ r.pipe.counted <+: counts ∧
          (r.pipe.halted = true → r.traffic = requests ∧ r.pipe.counted = counts) := by
  obtain ⟨s, hs, hring⟩ := ring_translated hinstall hv hn h
  refine ⟨s, hs, fun c l hlimit host es hes => ?_⟩
  have hrequests := reference_expand (c := c) (s.rings v)
  have hcounts := referenceCounts_expand (c := c) (s.rings v)
  rw [hring] at hrequests hcounts
  obtain ⟨htraffic, hall, -⟩ := CoreRun.run_reference (c := c) hlimit host es hes
  obtain ⟨hcounted, hcountedAll⟩ := CoreRun.run_counts (c := c) hlimit host es hes
  dsimp only
  rw [← hrequests, ← hcounts]
  exact ⟨htraffic, hcounted, fun hhalted => ⟨(hall hhalted).1, hcountedAll hhalted⟩⟩

/-- A RISC-V guest of one vCPU. -/
def riscvPlugin : Installed := ⟨{ shmemName := ['a'] }, false, .riscv, 1, none⟩

/-- A load and two additions. -/
def loadAddAdd : List TranslatedInsn :=
  [⟨0x100, [0x03, 0xa5, 0x05, 0x00], [(⟨false, 2, .u32 0⟩, 0x4000)]⟩,
    ⟨0x104, [0x13, 0x05, 0x15, 0x00], []⟩, ⟨0x108, [0x13, 0x05, 0x15, 0x00], []⟩]

/-- The ring of the load and the additions. -/
def loadAddAddRing : List QuetzCommand :=
  [{ cmd := .read, size := 4, pc := 0x100, addr := 0x4000, data := List.replicate 64 0 },
    { cmd := .computeRun, size := 2, pc := 0x108, insnClass := 3 }, { cmd := .exit }]

/-- The callbacks of the load and the additions. -/
def loadAddAddCallbacks : List PluginCallback :=
  loadAddAdd.flatMap (TranslatedInsn.callbacks riscvPlugin 0)

/-- The plugin of the example installs. -/
theorem install_riscvPlugin : install 4 classifiers memHandlers (fun _ => some 1)
    (some ⟨some "riscv64".toList, false, 1⟩) ["shmname=a".toList] = .ok riscvPlugin := rfl

/-- The callbacks of the example are those of its program. -/
theorem translates_loadAddAdd : Translates riscvPlugin 4 0 loadAddAdd loadAddAddCallbacks := by
  have hcbs : loadAddAddCallbacks =
      [.mem 0 ⟨false, 2, .u32 0⟩ 0x4000 0x100 .intMem, .emitNop 0 0x104 .intCompute,
        .emitNop 0 0x108 .intCompute] := by decide
  refine ⟨by decide, by decide, ?_⟩
  rw [hcbs]
  intro cb hcb
  simp only [List.mem_cons, List.not_mem_nil, or_false] at hcb
  rcases hcb with rfl | rfl | rfl
  · exact Nat.one_pos
  · exact Nat.one_pos
  · exact Nat.one_pos

/-- The commands they write. -/
theorem rings_loadAddAdd {s : PluginState}
    (hs : run (riscvPlugin.config 4) (loadAddAddCallbacks ++ [.atexit 1]) {} = .ok s) :
    s.rings 0 = loadAddAddRing := by
  obtain rfl := Except.ok.inj hs
  decide +kernel

/-- The load is requested, and the three instructions are counted. -/
theorem guest_reaches_links_load :
    ∃ s, run (riscvPlugin.config 4) (loadAddAddCallbacks ++ [.atexit 1]) {} = .ok s ∧
      let r := CoreRun.run { detailedTracking := true } {} {} [.push (s.rings 0), .tick 0, .tick 1]
      r.traffic = [(.mem, .read 0x4000 4)] ∧
        r.pipe.counted = [(.insnCount, 1), (.noopCount, 1), (.insnCount, 1), (.intCompute, 1),
          (.noopCount, 1), (.insnCount, 1), (.intCompute, 1)] := by
  obtain ⟨s, hs, hall⟩ := guest_reaches_links install_riscvPlugin Nat.one_pos le_rfl
    translates_loadAddAdd
  rw [rings_loadAddAdd hs] at hall
  refine ⟨s, hs, ?_⟩
  rw [rings_loadAddAdd hs]
  obtain ⟨htraffic, hcounted⟩ := (hall { detailedTracking := true } {} rfl {}
    [.push loadAddAddRing, .tick 0, .tick 1] (List.prefix_refl _)).2.2 (by decide +kernel)
  exact ⟨htraffic.trans (by decide +kernel), hcounted.trans (by decide +kernel)⟩

end Plugin

end Quetz
