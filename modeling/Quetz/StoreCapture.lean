import Mathlib.Data.List.Infix
import Quetz.PipelineBound
import Quetz.PluginTrace

/-!
# The Bytes of a Store

The plugin captures the value of a store (`src/qemu_plugin/mem_access_handler.cpp`), a command
carries at most 64 bytes of it (`write_cmd`), and the request emitter cuts the access at the cache
lines. A value has at most 16 bytes, and the buffer around it is filled with zeros: an access that
is larger than its value is written with bytes that the guest never stored. The emitter leaves out
the bytes beyond the command, but not those beyond the value.

`issuedFor` is the share of one command in the requests of a run. A store that wraps the address
space stops the pipeline, and nothing is issued for it.

## Main results

* `issuedFor_isPrefix`: the share of a command is a beginning of its requests.
* `store_captured_iff`: every byte written for a store was captured exactly when the value is as
  large as the access.
-/

namespace Quetz

open Tiling MemRequestEmitter Pipeline

/-! ### The share of a command -/

section Share

variable {c : CoreContext} {before after : List QuetzCommand} {cmd : QuetzCommand}
  {traffic : List (Link × Body)}

/-- The requests issued for a command that follows the commands `before`. -/
def issuedFor (c : CoreContext) (before : List QuetzCommand) (cmd : QuetzCommand)
    (traffic : List (Link × Body)) : List (Link × Body) :=
  (traffic.drop (bound c before).length).take (requestsOf c cmd).length

/-- The share of a command is a beginning of its requests, and empty if its access wraps. -/
theorem issuedFor_isPrefix (h : traffic <+: bound c (before ++ cmd :: after)) :
    issuedFor c before cmd traffic <+: if Wraps c cmd then [] else requestsOf c cmd := by
  rcases bound_append before (cmd :: after) with hbound | hbound
  · have hlen : traffic.length ≤ (bound c before).length := hbound ▸ h.length_le
    rw [issuedFor, List.drop_eq_nil_of_le hlen, List.take_nil]
    exact List.nil_prefix
  · rw [hbound, bound] at h
    have hrest := (h.drop (bound c before).length).take (requestsOf c cmd).length
    rw [List.drop_left] at hrest
    split_ifs at hrest ⊢ with hwraps
    · rwa [List.take_nil] at hrest
    · rw [List.append_nil, List.take_length] at hrest
      exact hrest
    · rwa [List.take_left] at hrest

end Share

/-! ### The payload of a store -/

theorem leBytes_length (n x : ℕ) : (leBytes n x).length = n := by simp [leBytes]

/-- A value has at most sixteen bytes. -/
theorem MemValue.length_le (v : MemValue) : v.bytes.length ≤ 16 := by
  cases v <;> simp [bytes, leBytes_length]

namespace Plugin

variable {p : PluginConfig} {info : MemInfo} {vaddr pc : UInt64} {cls : InsnClass}

/-- The bytes of the payload inside the access: the value, and zeros beyond it. -/
theorem payload_getElem (hapi : 4 ≤ p.pluginVersion) (hstore : info.isStore = true)
    (hsize : accessSize info ≤ cmdDataBytes) {j : ℕ} (hj : j < accessSize info)
    (hvalue : j < info.value.bytes.length) :
    (payload (accessSize info) (storeData p info))[j]? = info.value.bytes[j]? := by
  have hle : (if accessSize info < cmdDataBytes then accessSize info else cmdDataBytes) =
      accessSize info := by
    split_ifs <;> omega
  have htaken : j < ((info.value.bytes ++ List.replicate
      (cmdDataBytes - info.value.bytes.length) 0).take (accessSize info)).length := by
    rw [List.length_take, List.length_append]
    omega
  rw [storeData, if_pos ⟨hstore, hsize, hapi⟩, payload, hle, List.getElem?_append_left htaken,
    List.getElem?_take_of_lt hj,
    List.getElem?_append_left hvalue]

/-- The payload fills the command. -/
theorem payload_length : (payload (accessSize info) (storeData p info)).length = cmdDataBytes := by
  have hvalue := info.value.length_le
  have hcap : cmdDataBytes = 64 := rfl
  rw [storeData]
  split_ifs with hcapture
  · rw [payload]
    simp only [List.length_append, List.length_take, List.length_replicate]
    split_ifs <;> omega
  · exact List.length_replicate

end Plugin

/-! ### The requests of a store -/

/-- Every data byte of a write was captured from the value at the same offset of the access. -/
def Captured (info : MemInfo) (vaddr : UInt64) : Body → Prop
  | .write addr size data => data.length = size ∧ ∀ (i : ℕ) (b : UInt8), data[i]? = some b →
      ∃ off : ℕ, addr + .ofNat i = vaddr + .ofNat off ∧ info.value.bytes[off]? = some b
  | _ => True

namespace Plugin

variable {p : PluginConfig} {c : CoreContext} {info : MemInfo} {vaddr pc : UInt64}
  {cls : InsnClass}

theorem opOf_accessCommand_captured (hstore : info.isStore = true) :
    (opOf c (accessCommand p info vaddr pc cls)).captured = min (accessSize info) cmdDataBytes := by
  rw [MemOp.captured, opOf, accessCommand, hstore]
  rfl

/-- A chunk of a store carries the bytes of the payload at its place. -/
theorem part_accessCommand (hstore : info.isStore = true) (chunk : Chunk) :
    (opOf c (accessCommand p info vaddr pc cls)).part chunk = .write (.ofNat chunk.1) chunk.2
      (((payload (accessSize info) (storeData p info)).drop (chunk.1 - vaddr.toNat)).take
        chunk.2) := by
  rw [MemOp.part, opOf, accessCommand, hstore]
  rfl

/-- The chunks of a store are in the captured part of the access. -/
theorem requestsOf_store (hstore : info.isStore = true)
    (hcached : actionOf c (accessCommand p info vaddr pc cls) ≠ .forwardMmio) {r : Link × Body}
    (hr : r ∈ requestsOf c (accessCommand p info vaddr pc cls)) :
    ∃ chunk : Chunk, r = (.mem, (opOf c (accessCommand p info vaddr pc cls)).part chunk) ∧
      vaddr.toNat ≤ chunk.1 ∧
      chunk.1 + chunk.2 ≤ vaddr.toNat + min (accessSize info) cmdDataBytes := by
  rw [requestsOf] at hr
  have hr := (List.mem_ite_nil_right.mp hr).2
  have hmmio : (opOf c (accessCommand p info vaddr pc cls)).isMmio = false := by
    simpa [opOf] using hcached
  rw [MemOp.requestsFrom, hmmio, if_neg Bool.false_ne_true,
    opOf_accessCommand_captured hstore] at hr
  obtain ⟨chunk, hchunk, rfl⟩ := List.mem_map.mp hr
  have hbounds := (lineSplit_tiles c.cacheLineSize_pos).bounds chunk hchunk
  exact ⟨chunk, rfl, hbounds.1, hbounds.2.2⟩

/-- A value as large as the access: every byte of the requests was captured. -/
theorem captured_of_le (hapi : 4 ≤ p.pluginVersion) (hstore : info.isStore = true)
    (hle : accessSize info ≤ info.value.bytes.length)
    (hcached : actionOf c (accessCommand p info vaddr pc cls) ≠ .forwardMmio) {r : Link × Body}
    (hr : r ∈ requestsOf c (accessCommand p info vaddr pc cls)) : Captured info vaddr r.2 := by
  have h16 := info.value.length_le
  have hcap : cmdDataBytes = 64 := rfl
  obtain ⟨chunk, rfl, hlo, hhi⟩ := requestsOf_store hstore hcached hr
  rw [part_accessCommand hstore]
  constructor
  · rw [List.length_take, List.length_drop, payload_length]
    omega
  · intro i b hb
    have hi : i < chunk.2 := by
      by_contra hge
      rw [List.getElem?_eq_none (by rw [List.length_take]; omega)] at hb
      cases hb
    refine ⟨chunk.1 - vaddr.toNat + i, ?_, ?_⟩
    · have hsum : vaddr.toNat + (chunk.1 - vaddr.toNat + i) = chunk.1 + i := by omega
      rw [← UInt64.ofNat_add, ← hsum, UInt64.ofNat_add, UInt64.ofNat_toNat]
    · rw [List.getElem?_take_of_lt hi, List.getElem?_drop,
        payload_getElem hapi hstore (by omega) (by omega) (by omega)] at hb
      exact hb

/-- A value smaller than the access: some byte of the requests was never captured. -/
theorem not_captured_of_lt (hstore : info.isStore = true)
    (hlt : info.value.bytes.length < accessSize info)
    (hissues : Issues c (accessCommand p info vaddr pc cls))
    (hcached : actionOf c (accessCommand p info vaddr pc cls) ≠ .forwardMmio) :
    ∃ r ∈ requestsOf c (accessCommand p info vaddr pc cls), ¬Captured info vaddr r.2 := by
  have h16 := info.value.length_le
  have hcap : cmdDataBytes = 64 := rfl
  have hmmio : (opOf c (accessCommand p info vaddr pc cls)).isMmio = false := by
    simpa [opOf] using hcached
  -- The first byte beyond the value.
  have htiles : Tiles (lineSplit c.cacheLineSize vaddr.toNat (min (accessSize info) cmdDataBytes))
      vaddr.toNat (vaddr.toNat + min (accessSize info) cmdDataBytes) :=
    lineSplit_tiles c.cacheLineSize_pos
  obtain ⟨chunk, hchunk, hlo, hhi⟩ := (htiles.mem_iff
    (vaddr.toNat + info.value.bytes.length)).mpr ⟨by omega, by omega⟩
  have hbounds := htiles.bounds chunk hchunk
  refine ⟨(.mem, (opOf c (accessCommand p info vaddr pc cls)).part chunk), ?_,
    fun hcaptured => ?_⟩
  · rw [hissues.requestsOf, MemOp.requestsFrom, hmmio, if_neg Bool.false_ne_true,
      opOf_accessCommand_captured hstore]
    exact List.mem_map_of_mem hchunk
  · rw [part_accessCommand hstore] at hcaptured
    have hi : vaddr.toNat + info.value.bytes.length - chunk.1 < chunk.2 := by omega
    have hbyte : chunk.1 - vaddr.toNat + (vaddr.toNat + info.value.bytes.length - chunk.1) <
        (payload (accessSize info) (storeData p info)).length := by
      rw [payload_length]
      omega
    obtain ⟨off, haddr, hoff⟩ := hcaptured.2 (vaddr.toNat + info.value.bytes.length - chunk.1) _ (by
      rw [List.getElem?_take_of_lt hi, List.getElem?_drop, List.getElem?_eq_getElem hbyte])
    have hofflt : off < info.value.bytes.length := by
      by_contra hge
      rw [List.getElem?_eq_none (by omega)] at hoff
      cases hoff
    have hnat := congrArg UInt64.toNat haddr
    have hvaddr := vaddr.toNat_lt
    rw [← UInt64.ofNat_add, UInt64.toNat_ofNat', UInt64.toNat_add, UInt64.toNat_ofNat'] at hnat
    omega

end Plugin

/-! ### A pipeline that issues a whole store -/

namespace MemRequestEmitter

variable {c : CoreContext}

/-- A budget as large as the rest of an access issues all of it. -/
theorem issueChunks_all (split : CoreStat) (body : UInt64 → ℕ → ℕ → Body) (budget : ℕ) :
    ∀ (addr : UInt64) {remaining : ℕ} (offset : ℕ) (h : Host) (e : MemRequestEmitter),
    remaining ≤ budget →
    (issueChunks c split body budget addr remaining offset h e).offset = offset + remaining := by
  induction budget with
  | zero =>
      intro addr remaining offset h e hle
      rw [Nat.le_zero.mp hle]
      rfl
  | succ budget ih =>
      intro addr remaining offset h e hle
      rw [issueChunks]
      by_cases hzero : remaining = 0
      · rw [if_pos hzero, hzero]
        rfl
      · rw [if_neg hzero]
        dsimp only
        have hpos : 0 < memoryChunkSize addr.toNat remaining c.cacheLineSize remaining :=
          memoryChunkSize_pos (Nat.pos_of_ne_zero hzero) (Nat.pos_of_ne_zero hzero)
        have hchunk : memoryChunkSize addr.toNat remaining c.cacheLineSize remaining ≤ remaining :=
          memoryChunkSize_le.1
        rw [ih _ _ _ _ (by omega)]
        omega

/-- A store that fits into the budget is issued by one window. -/
theorem issueWriteWindow_all {op : MemOp} {budget : ℕ} (hread : op.isRead = false)
    (hmmio : op.isMmio = false) (hsize : op.size ≠ 0) (hfits : op.Fits) (hmem : c.hasMem = true)
    (hbudget : op.captured ≤ budget) (h : Host) (e : MemRequestEmitter) :
    ∃ w, issueWriteWindow c op 0 budget h e = .ok w ∧ w.offset = op.size := by
  have hcap : op.captured = min op.size cmdDataBytes := by simp [MemOp.captured, hread]
  have hissue : (if op.size > cmdDataBytes then cmdDataBytes else op.size) = op.captured := by
    rw [hcap]
    split_ifs <;> omega
  have hpos := op.captured_pos hsize
  have hlink : linked c op = true := by simp [linked, hmmio, hmem]
  rw [MemOp.Fits, hcap] at hfits
  rw [issueWriteWindow, if_neg (by omega), if_neg (by simp [hfits]), if_neg (by simp [hlink]),
    hissue, if_neg (by simp [hmmio])]
  refine ⟨_, rfl, ?_⟩
  dsimp only
  rw [issueChunks_all _ _ _ _ _ _ _ (by omega), if_pos (by omega)]

end MemRequestEmitter

namespace Pipeline

variable {c : CoreContext} {l : PipelineLimits} {h : Host} {s : Pipeline} {op : MemOp}

/-- A store that fits into the budget is issued at once. -/
theorem issueMemOp_all (hread : op.isRead = false) (hmmio : op.isMmio = false)
    (hsize : op.size ≠ 0) (hfits : op.Fits) (hmem : c.hasMem = true) (hoff : s.offset = 0)
    {issued : ℕ} (hbudget : op.captured ≤
      min (l.maxIssuePerCycle - issued) (l.maxPending - s.emitter.pendingCount)) :
    (issueMemOp c l op issued h s).complete = true := by
  have hpos := op.captured_pos hsize
  obtain ⟨w, hw, hend⟩ := issueWriteWindow_all hread hmmio hsize hfits hmem hbudget h s.emitter
  have hadv := issueWriteWindow_advances hread (.inl rfl) (by omega) hw
  rw [issueMemOp, if_neg (by omega), issueAvailable, hread, if_neg Bool.false_ne_true, hoff, hw]
  dsimp only
  rw [if_neg (Nat.not_lt.mpr hadv.parts_le), if_neg (by simp [hend]), if_pos (by simp [hend])]

end Pipeline

namespace CoreRun

open Pipeline

theorem wide_pos : 0 < 64 := Nat.succ_pos 63

/-- A pipeline that issues a whole store in one cycle. -/
def wideLimits : PipelineLimits where
  maxIssuePerCycle := 64
  maxQueueLen_pos := wide_pos
  maxIssuePerCycle_pos := wide_pos
  maxPending_pos := wide_pos

theorem actionOf_default (cmd : QuetzCommand) : actionOf {} cmd = .forward := by
  rw [actionOf, answerOf]
  split_ifs <;> rfl

/-- Without a region table a store goes to the caches. -/
theorem issues_store {cmd : QuetzCommand} (hcmd : cmd.cmd = .write) : Issues {} cmd := by
  have hact := actionOf_default cmd
  refine ⟨?_, ?_, ?_⟩
  · rw [hcmd]
    decide
  · rw [hact]
    decide
  · rw [Halts, hcmd, hact]
    decide

/-- One store, one cycle. -/
theorem run_store {cmd : QuetzCommand} (hcmd : cmd.cmd = .write) (hsize : cmd.size ≠ 0)
    (hfits : (opOf {} cmd).Fits) :
    (run {} wideLimits {} [.push [cmd], .tick 0]).traffic = requestsOf {} cmd := by
  have hread : (opOf {} cmd).isRead = false := by
    rw [opOf, hcmd]
    rfl
  have hmmio : (opOf {} cmd).isMmio = false := by
    rw [opOf, actionOf_default]
    rfl
  have hcap : (opOf {} cmd).captured ≤ 64 := by
    rw [MemOp.captured, hread]
    exact Nat.min_le_right _ _
  have hrefill : refill wideLimits [cmd] {} =
      ([], { read := [cmd], coreQ := [⟨cmd, stallOf wideLimits cmd⟩] }) := by
    simp [refill, refillLoop, drainRun, drainRunLoop, hcmd, wideLimits]
  have hstall : stallOf wideLimits cmd = 0 := by
    simp [stallOf, hcmd, wideLimits]
  have hop : opOf {} cmd = ⟨(opOf {} cmd).isRead, (opOf {} cmd).isMmio, cmd.addr, cmd.size,
      cmd.data⟩ := rfl
  rw [hread, hmmio] at hop
  -- The store is the only command, and the head of the queue.
  let s₀ : Pipeline := { read := [cmd], coreQ := [⟨cmd, 0⟩], refillHitCap := false }
  let s₁ : Pipeline := { s₀ with pendingOp := some (opOf {} cmd) }
  have hclass : classify {} ⟨cmd, 0⟩ s₀ = (.issue (opOf {} cmd), s₁) := by
    simp [classify, s₀, s₁, hop, hcmd, QuetzCommand.isAccess, filterHandle, transformProcess,
      transformStats, addAll]
  have hcomplete : (issueMemOp {} wideLimits (opOf {} cmd) 0 {} s₁).complete = true :=
    issueMemOp_all hread hmmio hsize hfits rfl rfl hcap
  have hattempt : Attempt {} wideLimits (opOf {} cmd) {} s₁
      (issueMemOp {} wideLimits (opOf {} cmd) 0 {} s₁) := issueMemOp_spec (.inl rfl) rfl 0
  have hdone := hattempt.complete hcomplete
  have htick : tick {} wideLimits {} [cmd] {} =
      ((issueLoop {} wideLimits [⟨cmd, 0⟩] 0 {} s₀).1, [],
        (issueLoop {} wideLimits [⟨cmd, 0⟩] 0 {} s₀).2) := by
    rw [tick, hrefill, hstall]
    rfl
  have hloop : (issueLoop {} wideLimits [⟨cmd, 0⟩] 0 {} s₀).2.emitter =
      (issueMemOp {} wideLimits (opOf {} cmd) 0 {} s₁).pipe.emitter := by
    rw [issueLoop, hclass]
    dsimp only
    rw [hcomplete, if_neg (by decide)]
    split_ifs
    · rw [endTick]
      split_ifs <;> rfl
    · rw [issueLoop, endTick]
      split_ifs <;> rfl
  obtain ⟨e, -, htraffic, hpipe⟩ := hdone
  obtain ⟨halted, hretire, -⟩ := retire_eq wideLimits
    (addData .insnCount { s₁ with pendingOp := none, offset := 0, emitter := e })
  change (tick {} wideLimits {} [cmd] {}).2.2.emitter.traffic = requestsOf {} cmd
  rw [htick, hloop, hpipe, hretire, (issues_store hcmd).requestsOf]
  exact htraffic

end CoreRun

/-! ### What is written for a store -/

namespace Plugin

variable {p : PluginConfig} {vcpu : ℕ} {info : MemInfo} {vaddr pc : UInt64} {cls : InsnClass}

/-- In every run of every pipeline that reads the ring of the vCPU after the store was reported,
what is issued for the command of the store on the cached path are bytes that were captured. -/
def StoreCaptured (p : PluginConfig) (vcpu : ℕ) (info : MemInfo) (vaddr pc : UInt64)
    (cls : InsnClass) : Prop :=
  ∀ (s s' : PluginState) (before after : List QuetzCommand) (cmd : QuetzCommand),
    handle p vcpu info vaddr pc cls s = .ok s' → s'.rings vcpu = before ++ [cmd] →
    ∀ (c : CoreContext) (l : PipelineLimits) (h : Host) (es : List CoreEvent),
      actionOf c cmd ≠ .forwardMmio → CoreRun.pushed es <+: s'.rings vcpu ++ after →
      ∀ r ∈ issuedFor c before cmd (CoreRun.run c l { host := h } es).traffic,
        Captured info vaddr r.2

/-- A traced access is written behind what its vCPU reported before. -/
theorem handle_ring (hmax : p.configuredVcpus ≤ pluginMaxVcpus) (hv : vcpu < p.configuredVcpus)
    (htraced : isSync p vaddr = false) (info : MemInfo) (pc : UInt64) (cls : InsnClass)
    (s : PluginState) : ∃ s' before,
      handle p vcpu info vaddr pc cls s = .ok s' ∧
      s'.rings vcpu = before ++ [accessCommand p info vaddr pc cls] ∧
      (s.rings vcpu = [] → s.runCount vcpu = 0 → before = []) := by
  rw [handle_eq hmax hv, htraced, if_neg Bool.false_ne_true]
  refine ⟨_, _, rfl, Function.update_self .., fun hring hcount => ?_⟩
  rw [flushed, if_pos hcount]
  exact hring

/-- A store stays inside the address space. -/
theorem fits_accessCommand {c : CoreContext} (hstore : info.isStore = true) :
    (opOf c (accessCommand p info vaddr pc cls)).Fits ↔
      vaddr.toNat + min (accessSize info) cmdDataBytes ≤ 2 ^ 64 := by
  have hlt := vaddr.toNat_lt
  have hpos : 0 < min (accessSize info) cmdDataBytes := by
    have : 0 < accessSize info := by
      rw [accessSize]
      split_ifs
      · exact Nat.two_pow_pos _
      · decide
    exact lt_min this (by decide)
  rw [MemOp.Fits, opOf_accessCommand_captured hstore, memorySpanValid]
  simp only [Bool.or_eq_true, beq_iff_eq, decide_eq_true_eq, uint64Max]
  change _ ∨ min (accessSize info) cmdDataBytes - 1 ≤ 2 ^ 64 - 1 - vaddr.toNat ↔ _
  omega

/-- An access larger than its value: some run writes a byte that was not captured. -/
theorem not_storeCaptured (hmax : p.configuredVcpus ≤ pluginMaxVcpus)
    (hv : vcpu < p.configuredVcpus) (hstore : info.isStore = true)
    (htraced : isSync p vaddr = false) (hlt : info.value.bytes.length < accessSize info)
    (hfits : vaddr.toNat + min (accessSize info) cmdDataBytes ≤ 2 ^ 64) :
    ¬StoreCaptured p vcpu info vaddr pc cls := by
  intro hall
  obtain ⟨s', before, hs', hring, hfirst⟩ := handle_ring hmax hv htraced info pc cls {}
  obtain rfl := hfirst rfl rfl
  have hcmd : (accessCommand p info vaddr pc cls).cmd = .write := by
    rw [accessCommand, hstore]
    rfl
  have hact : actionOf {} (accessCommand p info vaddr pc cls) ≠ .forwardMmio := by
    rw [CoreRun.actionOf_default]
    decide
  have hrun := CoreRun.run_store hcmd (Nat.ne_of_gt (Nat.zero_lt_of_lt hlt))
    ((fits_accessCommand hstore).mpr hfits)
  obtain ⟨r, hr, hnot⟩ := not_captured_of_lt hstore hlt (CoreRun.issues_store hcmd) hact
  refine hnot (hall {} s' [] [] _ hs' hring {} CoreRun.wideLimits {}
    [.push [accessCommand p info vaddr pc cls], .tick 0] hact ?_ r ?_)
  · rw [hring]
    exact List.prefix_refl _
  · rw [hrun, issuedFor]
    simpa [bound] using hr

/-- A value as large as the access, or a store that wraps. -/
theorem storeCaptured_of (hapi : 4 ≤ p.pluginVersion) (hmax : p.configuredVcpus ≤ pluginMaxVcpus)
    (hv : vcpu < p.configuredVcpus) (hstore : info.isStore = true)
    (htraced : isSync p vaddr = false) (hcond : accessSize info ≤ info.value.bytes.length ∨
      2 ^ 64 < vaddr.toNat + min (accessSize info) cmdDataBytes) :
    StoreCaptured p vcpu info vaddr pc cls := by
  intro s s' before after cmd hs' hring c l h es hcached hpushed r hr
  obtain ⟨s'', before', hs'', hring', -⟩ := handle_ring hmax hv htraced info pc cls s
  rw [hs'] at hs''
  cases hs''
  obtain ⟨rfl, hlast⟩ := List.append_inj' (hring.symm.trans hring') rfl
  obtain rfl := List.head_eq_of_cons_eq hlast
  rw [hring, List.append_assoc] at hpushed
  have hbound := CoreRun.traffic_bounded (c := c) (l := l) h es hpushed
  have hmem := (issuedFor_isPrefix hbound).subset hr
  split_ifs at hmem with hwraps
  · cases hmem
  · rcases hcond with hle | hwrap
    · exact captured_of_le hapi hstore hle hcached hmem
    · refine absurd ⟨(List.mem_ite_nil_right.mp hmem).1, fun hfits => ?_⟩ hwraps
      exact absurd ((fits_accessCommand hstore).mp hfits) (Nat.not_le.mpr hwrap)

/-- **The simulation writes only bytes that the guest stored exactly when the value is as large as
the access**; a store that wraps the address space is not written at all. -/
theorem store_captured_iff (hapi : 4 ≤ p.pluginVersion) (hmax : p.configuredVcpus ≤ pluginMaxVcpus)
    (hv : vcpu < p.configuredVcpus) (hstore : info.isStore = true)
    (htraced : isSync p vaddr = false) :
    StoreCaptured p vcpu info vaddr pc cls ↔ accessSize info ≤ info.value.bytes.length ∨
      2 ^ 64 < vaddr.toNat + min (accessSize info) cmdDataBytes := by
  constructor
  · intro hall
    by_contra hneither
    rw [not_or, Nat.not_le, Nat.not_lt] at hneither
    exact not_storeCaptured hmax hv hstore htraced hneither.1 hneither.2 hall
  · exact storeCaptured_of hapi hmax hv hstore htraced

/-- A store of a vector register is written as it was captured. -/
theorem store_captured_iff_vector :
    StoreCaptured {} 0 ⟨true, 4, .u128 0x0706050403020100 0x0f0e0d0c0b0a0908⟩ 0x1038 0 .vecMem :=
  (store_captured_iff (by decide) (by decide) (by decide) rfl (by decide)).mpr (.inl (by decide))

/-- **A store of 128 bytes is written as zeros**: its value is not captured at all, and 64 of its
bytes are written. -/
theorem store_not_captured : ¬StoreCaptured {} 0
    ⟨true, 7, .u128 0x0706050403020100 0x0f0e0d0c0b0a0908⟩ 0x1000 0 .vecMem :=
  not_storeCaptured (by decide) (by decide) rfl (by decide) (by decide) (by decide)

end Plugin

end Quetz
