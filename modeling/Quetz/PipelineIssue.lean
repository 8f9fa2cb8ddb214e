import Quetz.Lib.Tiling
import Quetz.Pipeline

/-!
# Issuing an Access in Parts

A cached access is cut at the cache lines, and the request emitter issues as many of the parts
as the budget allows, with a cursor for the rest. `requestsFrom` says what is left to issue of an
access, and a window of the emitter issues a prefix of it.

## Main results

* `issueChunks_spec`: the loop of the emitter follows `Tiling.lineSplit`.
* `issueAvailable_spec`: what is issued and what is left are what was left before.
-/

namespace Quetz

open Tiling

/-! ### What an access becomes -/

namespace MemOp

variable (op : MemOp)

/-- The bytes of an access that are issued: a command carries only the first bytes of a write. -/
def captured : ℕ := if op.isRead then op.size else min op.size cmdDataBytes

/-- The request for a part of the access. -/
def part (chunk : Chunk) : Body :=
  if op.isRead then .read (.ofNat chunk.1) chunk.2
  else .write (.ofNat chunk.1) chunk.2 ((op.data.drop (chunk.1 - op.addr.toNat)).take chunk.2)

/-- The requests of the access when its first `offset` bytes were issued. -/
def requestsFrom (c : CoreContext) (offset : ℕ) : List (Link × Body) :=
  if op.isMmio then
    if op.size = 0 then [] else [(.mmio, op.part (op.addr.toNat, op.captured))]
  else (lineSplit c.cacheLineSize (op.addr.toNat + offset) (op.captured - offset)).map fun p =>
    (.mem, op.part p)

/-- The access stays inside the address space. -/
def Fits : Prop := memorySpanValid op.addr.toNat op.captured = true

/-- The cursor of an access that was not issued completely. -/
def Cursor (offset : ℕ) : Prop :=
  offset = 0 ∨ (op.isMmio = false ∧ offset < op.captured ∧ op.Fits)

variable {op}

/-- No more is captured than the access has. -/
theorem captured_le : op.captured ≤ op.size := by
  rw [captured]
  split_ifs <;> omega

/-- Of an access that has a byte, one is captured. -/
theorem captured_pos (hsize : op.size ≠ 0) : 0 < op.captured := by
  rw [captured]
  split_ifs
  · omega
  · simp only [cmdDataBytes]
    omega

/-- The captured bytes end inside the address space. -/
theorem Fits.le (hfits : op.Fits) : op.addr.toNat + op.captured ≤ 2 ^ 64 := by
  have hlt := op.addr.toNat_lt
  simp only [Fits, memorySpanValid, Bool.or_eq_true, beq_iff_eq, decide_eq_true_eq,
    uint64Max] at hfits
  omega

/-- A cursor is inside the captured bytes, or at their end. -/
theorem Cursor.le {offset : ℕ} (hc : op.Cursor offset) : offset ≤ op.captured := by
  rcases hc with rfl | ⟨-, hlt, -⟩
  · exact Nat.zero_le _
  · exact hlt.le

end MemOp

/-! ### Requests of the emitter -/

/-- The total of a statistic. -/
def tally (stat : CoreStat) (stats : List (CoreStat × ℕ)) : ℕ :=
  (stats.map fun p => if p.1 = stat then p.2 else 0).sum

/-- Statistics of two lists add up. -/
@[simp] theorem tally_append (stat : CoreStat) (xs ys : List (CoreStat × ℕ)) :
    tally stat (xs ++ ys) = tally stat xs + tally stat ys := by
  simp only [tally, List.map_append, List.sum_append]

/-- One entry counts for its own statistic. -/
@[simp] theorem tally_singleton (stat other : CoreStat) (n : ℕ) :
    tally stat [(other, n)] = if other = stat then n else 0 := by
  simp only [tally, List.map_singleton, List.sum_singleton]

/-- The link and the contents of a request. -/
def Request.contents (r : Request) : Link × Body := (r.link, r.body)

namespace MemRequestEmitter

variable {c : CoreContext} {op : MemOp} {h h' : Host} {e e' : MemRequestEmitter}

/-- The requests issued so far, in order. -/
def traffic (e : MemRequestEmitter) : List (Link × Body) := e.issued.map Request.contents

/-- A request that is emitted. -/
@[simp] theorem traffic_emit (link : Link) (body : Body) :
    (emit c link body h e).2.traffic = e.traffic ++ [(link, body)] := by
  simp [emit, traffic, Request.contents]

/-- Feeding a statistic is no request. -/
@[simp] theorem traffic_addDataIf (p : Prop) [Decidable p] (stat : CoreStat) (n : ℕ) :
    (e.addDataIf p stat n).traffic = e.traffic := by
  rw [addDataIf]
  split_ifs <;> rfl

/-- The host and the emitter after some requests of the core. -/
inductive Emitted (c : CoreContext) (h : Host) (e : MemRequestEmitter) :
    Host → MemRequestEmitter → Prop
  | refl : Emitted c h e h e
  | addData {h₁ : Host} {e₁ : MemRequestEmitter} (stat : CoreStat) (n : ℕ) : Emitted c h e h₁ e₁ →
      Emitted c h e h₁ (e₁.addData stat n)
  | emit {h₁ : Host} {e₁ : MemRequestEmitter} (link : Link) (body : Body) : Emitted c h e h₁ e₁ →
      Emitted c h e (emit c link body h₁ e₁).1 (emit c link body h₁ e₁).2

/-- Requests, and then more requests. -/
theorem Emitted.trans {h₁ h₂ : Host} {e₁ e₂ : MemRequestEmitter} (h₀₁ : Emitted c h e h₁ e₁)
    (h₁₂ : Emitted c h₁ e₁ h₂ e₂) : Emitted c h e h₂ e₂ := by
  induction h₁₂ with
  | refl => exact h₀₁
  | addData stat n _ ih => exact ih.addData stat n
  | emit link body _ ih => exact ih.emit link body

/-- A statistic that is fed conditionally. -/
theorem Emitted.addDataIf {h₁ : Host} {e₁ : MemRequestEmitter} (hem : Emitted c h e h₁ e₁)
    (p : Prop) [Decidable p] (stat : CoreStat) (n : ℕ) :
    Emitted c h e h₁ (e₁.addDataIf p stat n) := by
  rw [MemRequestEmitter.addDataIf]
  split_ifs
  · exact hem.addData stat n
  · exact hem

/-- The next chunk runs to the end of the line. -/
theorem memoryChunkSize_eq (addr remaining : ℕ) :
    memoryChunkSize addr remaining c.cacheLineSize remaining =
      min remaining (c.cacheLineSize - addr % c.cacheLineSize) := by
  simp only [memoryChunkSize, Nat.min_self, if_pos (Nat.ne_of_gt c.cacheLineSize_pos)]

/-- A chunk inside the payload carries its bytes. -/
theorem chunkData_eq (raw : List UInt8) {offset chunk : ℕ} (hpos : 0 < chunk)
    (hle : offset + chunk ≤ cmdDataBytes) :
    chunkData raw offset chunk = (raw.drop offset).take chunk := by
  have hmin : min chunk (cmdDataBytes - offset) = chunk := by omega
  rw [chunkData, if_pos (by omega)]
  simp only [hmin, Nat.sub_self, List.replicate_zero, List.append_nil]

/-- The loop of the emitter: the window issues a prefix of the parts that are left. -/
theorem issueChunks_spec (split : CoreStat) {body : UInt64 → ℕ → ℕ → Body} (hfits : op.Fits)
    (hbody : ∀ offset chunk, 0 < chunk → offset + chunk ≤ op.captured →
      body (op.addr + .ofNat offset) offset chunk = op.part (op.addr.toNat + offset, chunk))
    (budget : ℕ) {offset : ℕ} (hle : offset ≤ op.captured) (h : Host) (e : MemRequestEmitter) :
    let w := issueChunks c split body budget (op.addr + .ofNat offset) (op.captured - offset)
      offset h e
    Emitted c h e w.host w.emitter ∧ offset ≤ w.offset ∧ w.offset ≤ op.captured ∧
      w.parts ≤ budget ∧ (0 < budget → offset < op.captured → 0 < w.parts) ∧
      w.emitter.traffic ++ (lineSplit c.cacheLineSize (op.addr.toNat + w.offset)
          (op.captured - w.offset)).map (fun p => (Link.mem, op.part p)) =
        e.traffic ++ (lineSplit c.cacheLineSize (op.addr.toNat + offset)
          (op.captured - offset)).map (fun p => (Link.mem, op.part p)) := by
  -- The induction follows the budget; the cursor moves with each chunk.
  induction budget generalizing offset h e with
  | zero => exact ⟨.refl, le_rfl, hle, le_rfl, fun hlt => absurd hlt (Nat.lt_irrefl 0), rfl⟩
  | succ budget ih =>
      by_cases hzero : op.captured - offset = 0
      · rw [issueChunks, if_pos hzero]
        exact ⟨.refl, le_rfl, hle, Nat.zero_le _, fun _ hlt => by omega, rfl⟩
      · have hlt : offset < op.captured := by omega
        have haddr : (op.addr + UInt64.ofNat offset).toNat = op.addr.toNat + offset := by
          have hend := hfits.le
          rw [UInt64.toNat_add, UInt64.toNat_ofNat', Nat.add_mod_mod, Nat.mod_eq_of_lt]
          omega
        have hsplit := @lineSplit_cons c.cacheLineSize (op.addr.toNat + offset)
          (op.captured - offset) c.cacheLineSize_pos (Nat.pos_of_ne_zero hzero)
        have hmod := Nat.mod_lt (op.addr.toNat + offset) c.cacheLineSize_pos
        simp only [issueChunks, if_neg hzero, memoryChunkSize_eq, haddr]
        generalize hchunk : min (op.captured - offset)
          (c.cacheLineSize - (op.addr.toNat + offset) % c.cacheLineSize) = chunk at hsplit ⊢
        have hpos : 0 < chunk := by omega
        have hnext : op.addr + UInt64.ofNat offset + UInt64.ofNat chunk =
            op.addr + UInt64.ofNat (offset + chunk) := by
          rw [UInt64.ofNat_add, UInt64.add_assoc]
        have hrest : op.captured - offset - chunk = op.captured - (offset + chunk) := by omega
        rw [hnext, hrest, hbody offset chunk hpos (by omega)]
        obtain ⟨hem, hge, hle', hparts, -, htraffic⟩ := ih
          (show offset + chunk ≤ op.captured by omega)
          (emit c .mem (op.part (op.addr.toNat + offset, chunk)) h
            (e.addDataIf (offset ≠ 0) split 1)).1
          (emit c .mem (op.part (op.addr.toNat + offset, chunk)) h
            (e.addDataIf (offset ≠ 0) split 1)).2
        refine ⟨((Emitted.refl.addDataIf _ _ _).emit _ _).trans hem, by omega, hle',
          Nat.succ_le_succ hparts,
          fun _ _ => Nat.succ_pos _, ?_⟩
        rw [htraffic, traffic_emit, traffic_addDataIf, hsplit, List.map_cons, List.append_assoc,
          List.singleton_append, hrest, Nat.add_assoc]

/-- A window of the emitter issues a prefix of what is left of the access, and something unless
the access is complete. -/
structure Advances (c : CoreContext) (op : MemOp) (offset budget : ℕ) (h : Host)
    (e : MemRequestEmitter) (w : Window) : Prop where
  emitted : Emitted c h e w.host w.emitter
  parts_le : w.parts ≤ budget
  complete : w.offset = op.size →
    w.emitter.traffic = e.traffic ++ op.requestsFrom c offset
  incomplete : w.offset ≠ op.size → 0 < w.parts ∧ op.Cursor w.offset ∧
    w.emitter.traffic ++ op.requestsFrom c w.offset = e.traffic ++ op.requestsFrom c offset

variable {offset budget : ℕ} {w : Window}

/-- There is nothing to issue of an empty access. -/
theorem advances_empty (hsize : op.size = 0) (hc : op.Cursor offset) :
    Advances c op offset budget h e ⟨0, offset, h, e⟩ := by
  have hcap : op.captured = 0 := Nat.le_zero.mp (hsize ▸ op.captured_le)
  have hoff : offset = 0 := Nat.le_zero.mp (hcap ▸ hc.le)
  have hnil : op.requestsFrom c offset = [] := by
    rw [MemOp.requestsFrom, hcap, Nat.zero_sub, lineSplit_zero, List.map_nil, if_pos hsize]
    exact ite_self _
  exact ⟨.refl, Nat.zero_le _, fun _ => by rw [hnil, List.append_nil],
    fun hne => absurd (hoff.trans hsize.symm) hne⟩

/-- An mmio access is one request. -/
theorem advances_mmio (hmmio : op.isMmio = true) (hsize : op.size ≠ 0) (hbudget : 0 < budget)
    {body : Body} (hbody : body = op.part (op.addr.toNat, op.captured))
    (hem : Emitted c h e h e') (htraffic : e'.traffic = e.traffic) :
    Advances c op offset budget h e
      ⟨1, op.size, (emit c .mmio body h e').1, (emit c .mmio body h e').2⟩ := by
  refine ⟨hem.emit _ _, hbudget, fun _ => ?_, fun hne => absurd rfl hne⟩
  rw [traffic_emit, htraffic, MemOp.requestsFrom, if_pos hmmio, if_neg hsize, hbody]

/-- A cached access is issued in parts; the cursor of a complete one is at the end of the
access, also when not all of its bytes were captured. -/
theorem advances_cached (split : CoreStat) (body : UInt64 → ℕ → ℕ → Body)
    (hmmio : op.isMmio = false)
    (hsize : op.size ≠ 0) (hbudget : 0 < budget) (hc : op.Cursor offset) (hfits : op.Fits)
    (hbody : ∀ offset chunk, 0 < chunk → offset + chunk ≤ op.captured →
      body (op.addr + .ofNat offset) offset chunk = op.part (op.addr.toNat + offset, chunk))
    (last : ℕ → ℕ) (hlast : ∀ n ≤ op.captured,
      last n = if n = op.captured then op.size else n)
    (hem₀ : Emitted c h e h e') (htraffic₀ : e'.traffic = e.traffic) :
    Advances c op offset budget h e
      (let w := issueChunks c split body budget (op.addr + .ofNat offset) (op.captured - offset)
        offset h e'
      { w with offset := last w.offset }) := by
  obtain ⟨hem, -, hend, hparts, hpos, htraffic⟩ :=
    issueChunks_spec split hfits hbody budget hc.le h e'
  rw [htraffic₀] at htraffic
  dsimp only
  generalize issueChunks c split body budget _ _ offset h e' = w at *
  have hlt : offset < op.captured := by
    rcases hc with rfl | ⟨-, hlt, -⟩
    · exact op.captured_pos hsize
    · exact hlt
  refine ⟨hem₀.trans hem, hparts, fun heq => ?_, fun hne => ?_⟩
  · have hdone : w.offset = op.captured := by
      by_contra hopen
      simp only [hlast _ hend, if_neg hopen] at heq
      have := op.captured_le
      omega
    rw [hdone, Nat.sub_self, lineSplit_zero, List.map_nil, List.append_nil] at htraffic
    rw [htraffic, MemOp.requestsFrom, hmmio]
    rfl
  · have hopen : w.offset ≠ op.captured := fun heq => hne (by
      simp only [hlast _ hend, if_pos heq])
    simp only [hlast _ hend, if_neg hopen] at hne ⊢
    refine ⟨hpos hbudget hlt, Or.inr ⟨hmmio, by omega, hfits⟩, ?_⟩
    simpa [MemOp.requestsFrom, hmmio] using htraffic

/-- The address of the part at the cursor. -/
theorem ofNat_addr (op : MemOp) (offset : ℕ) :
    UInt64.ofNat (op.addr.toNat + offset) = op.addr + UInt64.ofNat offset := by
  rw [UInt64.ofNat_add, UInt64.ofNat_toNat]

/-- A window of a read: each piece is one request, as far as the budget goes. -/
theorem issueReadWindow_advances (hread : op.isRead = true) (hc : op.Cursor offset)
    (hbudget : 0 < budget) (hok : issueReadWindow c op offset budget h e = .ok w) :
    Advances c op offset budget h e w := by
  have hcap : op.captured = op.size := by rw [MemOp.captured, if_pos hread]
  rw [issueReadWindow] at hok
  by_cases hsize : op.size = 0
  · rw [if_pos (Or.inl hsize)] at hok
    cases hok
    exact advances_empty hsize hc
  rw [if_neg (by omega)] at hok
  by_cases hfits : memorySpanValid op.addr.toNat op.size = true
  · rw [if_neg (by simp [hfits])] at hok
    by_cases hlink : linked c op = true
    · rw [if_neg (by simp [hlink])] at hok
      by_cases hmmio : op.isMmio = true
      · rw [if_pos hmmio] at hok
        cases hok
        refine advances_mmio hmmio hsize hbudget ?_ .refl rfl
        rw [MemOp.part, if_pos hread, UInt64.ofNat_toNat, hcap]
      · rw [if_neg hmmio] at hok
        cases hok
        have hbody : ∀ offset chunk, 0 < chunk → offset + chunk ≤ op.captured →
            Body.read (op.addr + .ofNat offset) chunk = op.part (op.addr.toNat + offset, chunk) :=
          fun offset chunk _ _ => by rw [MemOp.part, if_pos hread, ofNat_addr]
        have hlast : ∀ n ≤ op.captured, id n = if n = op.captured then op.size else n := by
          intro n _
          rw [hcap]
          split_ifs with heq
          · exact heq
          · rfl
        have hadv := advances_cached (c := c) (h := h) (e := e) .splitReads
          (fun addr _ chunk => .read addr chunk) (by simpa using hmmio) hsize hbudget hc
          (by rw [MemOp.Fits, hcap]; exact hfits) hbody id hlast
          (Emitted.refl.addDataIf (offset = 0) .readReqSizes op.size) (traffic_addDataIf ..)
        rw [hcap] at hadv
        exact hadv
    · rw [if_pos (by simp [hlink])] at hok
      cases hok
  · rw [if_pos (by simp [hfits])] at hok
    cases hok

/-- A window of a write. -/
theorem issueWriteWindow_advances (hread : op.isRead = false) (hc : op.Cursor offset)
    (hbudget : 0 < budget) (hok : issueWriteWindow c op offset budget h e = .ok w) :
    Advances c op offset budget h e w := by
  have hcap : op.captured = min op.size cmdDataBytes := by simp [MemOp.captured, hread]
  have hissue : (if op.size > cmdDataBytes then cmdDataBytes else op.size) = op.captured := by
    rw [hcap]
    split_ifs <;> omega
  rw [issueWriteWindow, ← hcap] at hok
  by_cases hsize : op.size = 0
  · rw [if_pos (Or.inl hsize)] at hok
    cases hok
    exact advances_empty hsize hc
  rw [if_neg (by omega)] at hok
  by_cases hfits : memorySpanValid op.addr.toNat op.captured = true
  · rw [if_neg (by simp [hfits])] at hok
    by_cases hlink : linked c op = true
    · rw [if_neg (by simp [hlink]), hissue] at hok
      by_cases hmmio : op.isMmio = true
      · rw [if_pos hmmio] at hok
        cases hok
        refine advances_mmio hmmio hsize hbudget ?_ (Emitted.refl.addDataIf _ _ _)
          (traffic_addDataIf ..)
        rw [MemOp.part, hread, UInt64.ofNat_toNat, Nat.sub_self, List.drop_zero]
        rfl
      · rw [if_neg hmmio] at hok
        cases hok
        have hbody : ∀ offset chunk, 0 < chunk → offset + chunk ≤ op.captured →
            Body.write (op.addr + .ofNat offset) chunk (chunkData op.data offset chunk) =
              op.part (op.addr.toNat + offset, chunk) := by
          intro offset chunk hpos hle
          rw [MemOp.part, hread, ofNat_addr, Nat.add_sub_cancel_left,
            chunkData_eq op.data hpos (by omega)]
          rfl
        refine advances_cached .splitWrites
          (fun addr offset chunk => .write addr chunk (chunkData op.data offset chunk))
          (by simpa using hmmio) hsize hbudget hc hfits hbody
          (fun n => if n = op.captured then op.size else n) (fun n _ => rfl)
          ((Emitted.refl.addDataIf _ _ _).addDataIf _ _ _) ?_
        rw [traffic_addDataIf, traffic_addDataIf]
    · rw [if_pos (by simp [hlink])] at hok
      cases hok
  · rw [if_pos (by simp [hfits])] at hok
    cases hok

/-- A window fails only if the access wraps or its link is missing. -/
theorem window_error {f : PipelineFatal}
    (herr : (if op.isRead then issueReadWindow c op offset budget h e
      else issueWriteWindow c op offset budget h e) = .error f) :
    ¬(op.Fits ∧ linked c op = true) := by
  rintro ⟨hfits, hlink⟩
  by_cases hread : op.isRead = true
  · rw [if_pos hread, issueReadWindow] at herr
    rw [MemOp.Fits, MemOp.captured, if_pos hread] at hfits
    simp only [hfits, hlink, Bool.not_true, Bool.false_eq_true, if_false] at herr
    split_ifs at herr
  · rw [if_neg hread, issueWriteWindow] at herr
    rw [MemOp.Fits, MemOp.captured, if_neg hread] at hfits
    simp only [hfits, hlink, Bool.not_true, Bool.false_eq_true, if_false] at herr
    split_ifs at herr

end MemRequestEmitter

/-! ### One attempt -/

namespace Pipeline

open MemRequestEmitter

variable {c : CoreContext} {l : PipelineLimits} {op : MemOp} {h : Host} {s : Pipeline}

/-- What is issued and what is left are what was left before. -/
theorem issueAvailable_spec (hc : op.Cursor s.offset) {budget : ℕ} (hbudget : 0 < budget)
    {res : ℕ × Bool × Host × Pipeline} (hok : issueAvailable c op budget h s = .ok res) :
    ∃ w : Window, Advances c op s.offset budget h s.emitter w ∧
      res = (w.parts, decide (w.offset = op.size), w.host,
        { s with
          offset := if w.offset = op.size then 0 else w.offset
          emitter := w.emitter }) := by
  rw [issueAvailable] at hok
  cases hres : (if op.isRead then issueReadWindow c op s.offset budget h s.emitter
      else issueWriteWindow c op s.offset budget h s.emitter) with
  | error e =>
      rw [hres] at hok
      cases hok
  | ok w =>
      rw [hres] at hok
      refine ⟨w, ?_, by simpa using (Except.ok.inj hok).symm⟩
      by_cases hread : op.isRead = true
      · rw [if_pos hread] at hres
        exact issueReadWindow_advances hread hc hbudget hres
      · rw [if_neg hread] at hres
        exact issueWriteWindow_advances (by simpa using hread) hc hbudget hres

/-- The access was issued completely. -/
def Completed (c : CoreContext) (l : PipelineLimits) (op : MemOp) (h : Host) (s : Pipeline)
    (r : Issue) : Prop :=
  ∃ e, Emitted c h s.emitter r.host e ∧
    e.traffic = s.emitter.traffic ++ op.requestsFrom c s.offset ∧
    r.pipe = retire l (addData .insnCount { s with pendingOp := none, offset := 0, emitter := e })

/-- A part of the access was issued, or nothing. -/
def Postponed (c : CoreContext) (op : MemOp) (h : Host) (s : Pipeline) (r : Issue) : Prop :=
  ∃ e offset fatal, Emitted c h s.emitter r.host e ∧ op.Cursor offset ∧
    e.traffic ++ op.requestsFrom c offset = s.emitter.traffic ++ op.requestsFrom c s.offset ∧
    (op.Fits → linked c op = true → fatal = none) ∧
    r.pipe = { s with offset := offset, emitter := e, fatal := fatal }

/-- The outcome of an attempt. -/
structure Attempt (c : CoreContext) (l : PipelineLimits) (op : MemOp) (h : Host) (s : Pipeline)
    (r : Issue) : Prop where
  complete : r.complete = true → Completed c l op h s r
  incomplete : r.complete = false → Postponed c op h s r

/-- An attempt to issue the pending access. -/
theorem issueMemOp_spec (hc : op.Cursor s.offset) (hfatal : s.fatal = none) (issued : ℕ) :
    Attempt c l op h s (issueMemOp c l op issued h s) := by
  have hself : s = { s with fatal := none } := by rw [← hfatal]
  rw [issueMemOp]
  by_cases hbudget : min (l.maxIssuePerCycle - issued) (l.maxPending - s.emitter.pendingCount) = 0
  · rw [if_pos hbudget]
    exact ⟨nofun, fun _ => ⟨_, _, _, .refl, hc, rfl, fun _ _ => rfl, hself⟩⟩
  rw [if_neg hbudget]
  cases hres : issueAvailable c op
      (min (l.maxIssuePerCycle - issued) (l.maxPending - s.emitter.pendingCount)) h s with
  | error e =>
      refine ⟨nofun, fun _ => ⟨_, _, _, .refl, hc, rfl, fun hfits hlink => ?_, rfl⟩⟩
      rw [issueAvailable] at hres
      cases hw : (if op.isRead then issueReadWindow c op s.offset _ h s.emitter
          else issueWriteWindow c op s.offset _ h s.emitter) with
      | error f => exact absurd ⟨hfits, hlink⟩ (window_error hw)
      | ok w =>
          rw [hw] at hres
          cases hres
  | ok res =>
      obtain ⟨w, hadv, rfl⟩ := issueAvailable_spec hc (Nat.pos_of_ne_zero hbudget) hres
      have hparts := hadv.parts_le
      dsimp only
      rw [if_neg (Nat.not_lt.mpr hparts)]
      by_cases hcomplete : w.offset = op.size
      · rw [if_neg (by simp [hcomplete]), if_pos (by simpa using hcomplete)]
        refine ⟨fun _ => ⟨w.emitter, hadv.emitted, hadv.complete hcomplete, ?_⟩, nofun⟩
        simp only [hcomplete, if_true]
      · obtain ⟨hpos, hcursor, htraffic⟩ := hadv.incomplete hcomplete
        rw [if_neg (by omega), if_neg (by simpa using hcomplete)]
        refine ⟨nofun, fun _ => ⟨_, _, _, hadv.emitted, hcursor, htraffic, fun _ _ => rfl, ?_⟩⟩
        simp only [hcomplete, if_false, ← hfatal]

end Pipeline

end Quetz
