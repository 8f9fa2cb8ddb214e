import Quetz.PipelineIssue

/-!
# Issuing in Windows and at Once

`MemRequestEmitter` (`src/quetz_mem_issue.cc`) issues an access at once (`issueRead`, `issueWrite`)
or in windows, call after call, with the cursor kept in between. Both are the same loop: what a
window leaves is what the rest of the loop does, so the budgets cannot be seen in what was sent,
tracked and counted.

The number of the requests is `slotsNeeded`. The payload of a write is that of a command; for a null
pointer the source writes zeros, as for a payload of zeros.

## Main results

* `chunksFrom_append`: two windows are one with both budgets.
* `windowed_issue`: any windows are one issue, and what that is on the cached path.
-/

namespace Quetz

open Tiling

/-! ### Lines and slots -/

/-- The slots of a span are the lines it meets. -/
theorem memorySlots_eq {addr n line : ℕ} (hline : 0 < line) :
    memorySlots addr n line = lineCount line addr n := by
  rw [memorySlots, lineCount]
  split_ifs with hn
  · rfl
  · have hdiv := Nat.div_add_mod addr line
    have hsplit : addr + n - 1 = addr % line + n - 1 + line * (addr / line) := by omega
    rw [hsplit, Nat.add_mul_div_left _ _ hline, Nat.add_sub_cancel, Nat.add_comm]

namespace MemRequestEmitter

/-! ### Issue at once -/

/-- The largest 32-bit value. -/
abbrev uint32Max : ℕ := 2 ^ 32 - 1

/-- The requests an access becomes. -/
def slotsNeeded (c : CoreContext) (vaddr : UInt64) (size : ℕ) (isMmio : Bool) : ℕ :=
  if isMmio then 1 else memorySlots vaddr.toNat size c.cacheLineSize

def issueRead (c : CoreContext) (op : MemOp) (h : Host) (e : MemRequestEmitter) :
    Except PipelineFatal Window := issueReadWindow c op 0 uint32Max h e

def issueWrite (c : CoreContext) (op : MemOp) (h : Host) (e : MemRequestEmitter) :
    Except PipelineFatal Window := issueWriteWindow c op 0 uint32Max h e

/-- Issue an access at once. -/
def issue (c : CoreContext) (op : MemOp) (h : Host) (e : MemRequestEmitter) :
    Except PipelineFatal Window :=
  if op.isRead then issueRead c op h e else issueWrite c op h e

/-! ### Issue in windows -/

/-- One window of an access. -/
def issueWindow (c : CoreContext) (op : MemOp) (offset budget : ℕ) (h : Host)
    (e : MemRequestEmitter) : Except PipelineFatal Window :=
  if op.isRead then issueReadWindow c op offset budget h e
  else issueWriteWindow c op offset budget h e

/-- One window after the other, with the retained cursor, until the access is complete. -/
def issueWindows (c : CoreContext) (op : MemOp) :
    List ℕ → ℕ → Host → MemRequestEmitter → Except PipelineFatal Window
  | [], offset, h, e => .ok ⟨0, offset, h, e⟩
  | budget :: budgets, offset, h, e =>
    if offset = op.size then .ok ⟨0, offset, h, e⟩
    else do
      let w ← issueWindow c op offset budget h e
      let rest ← issueWindows c op budgets w.offset w.host w.emitter
      .ok { rest with parts := w.parts + rest.parts }

/-! ### The loop over the chunks -/

@[simp] theorem tally_addDataIf (p : Prop) [Decidable p] (stat other : CoreStat) (n : ℕ)
    (e : MemRequestEmitter) :
    tally stat (e.addDataIf p other n).stats =
      tally stat e.stats + if p ∧ other = stat then n else 0 := by
  rw [addDataIf]
  split_ifs with hp hand hand
  · simp [addData, hand.2]
  · have hne : other ≠ stat := fun heq => hand ⟨hp, heq⟩
    simp [addData, hne]
  · exact absurd hand.1 hp
  · rfl

section Chunks

variable (c : CoreContext) (split : CoreStat) (body : UInt64 → ℕ → ℕ → Body) (base : UInt64)
  (total : ℕ)

/-- The loop from the cursor on. -/
def chunksFrom (budget offset : ℕ) (h : Host) (e : MemRequestEmitter) : Window :=
  issueChunks c split body budget (base + .ofNat offset) (total - offset) offset h e

/-- The chunk at the cursor. -/
def chunkAt (offset : ℕ) : ℕ :=
  memoryChunkSize (base + .ofNat offset).toNat (total - offset) c.cacheLineSize (total - offset)

/-- The host and the emitter after the chunk at the cursor. -/
def emitChunk (offset : ℕ) (h : Host) (e : MemRequestEmitter) : Host × MemRequestEmitter :=
  emit c .mem (body (base + .ofNat offset) offset (chunkAt c base total offset)) h
    (e.addDataIf (offset ≠ 0) split 1)

/-- The window after some requests. -/
def Window.after (w : Window) (parts : ℕ) : Window := { w with parts := w.parts + parts }

variable {c split body base total} {offset : ℕ}

theorem chunkAt_pos (hopen : offset < total) : 0 < chunkAt c base total offset :=
  memoryChunkSize_pos (Nat.sub_pos_of_lt hopen) (Nat.sub_pos_of_lt hopen)

theorem add_chunkAt_le (hopen : offset < total) : offset + chunkAt c base total offset ≤ total := by
  have hle : chunkAt c base total offset ≤ total - offset := memoryChunkSize_le.1
  omega

theorem chunksFrom_done (budget : ℕ) (hdone : total ≤ offset) (h : Host) (e : MemRequestEmitter) :
    chunksFrom c split body base total budget offset h e = ⟨0, offset, h, e⟩ := by
  have hzero : total - offset = 0 := Nat.sub_eq_zero_of_le hdone
  cases budget with
  | zero => rfl
  | succ budget => rw [chunksFrom, issueChunks, if_pos hzero]

/-- One pass of the loop. -/
theorem chunksFrom_succ (budget : ℕ) (hopen : offset < total) (h : Host) (e : MemRequestEmitter) :
    chunksFrom c split body base total (budget + 1) offset h e =
      (chunksFrom c split body base total budget (offset + chunkAt c base total offset)
        (emitChunk c split body base total offset h e).1
        (emitChunk c split body base total offset h e).2).after 1 := by
  have hrest : ¬total - offset = 0 := by omega
  simp only [chunksFrom, issueChunks, if_neg hrest, emitChunk, chunkAt, Window.after,
    UInt64.ofNat_add, UInt64.add_assoc, Nat.sub_sub]

/-- **Two windows are one.** The second goes on where the first stopped. -/
theorem chunksFrom_append (b₁ b₂ : ℕ) : ∀ (offset : ℕ) (h : Host) (e : MemRequestEmitter),
    chunksFrom c split body base total (b₁ + b₂) offset h e =
      let w := chunksFrom c split body base total b₁ offset h e
      (chunksFrom c split body base total b₂ w.offset w.host w.emitter).after w.parts := by
  induction b₁ with
  | zero =>
      intro offset h e
      rw [Nat.zero_add]
      rfl
  | succ b₁ ih =>
      intro offset h e
      rcases Nat.lt_or_ge offset total with hopen | hdone
      · rw [Nat.succ_add_eq_add_succ, Nat.add_succ, chunksFrom_succ _ hopen, ih,
          chunksFrom_succ _ hopen]
        simp only [Window.after, Nat.add_assoc]
      · simp only [chunksFrom_done _ hdone, Window.after]

/-- What a window leaves: the cursor is in the access, and it is at its end or the budget is used
up. -/
theorem chunksFrom_bounds (budget : ℕ) : ∀ (offset : ℕ), offset ≤ total →
    ∀ (h : Host) (e : MemRequestEmitter),
    let w := chunksFrom c split body base total budget offset h e
    offset + w.parts ≤ w.offset ∧ w.offset ≤ total ∧ (w.offset = total ∨ w.parts = budget) := by
  induction budget with
  | zero => exact fun offset hle h e => ⟨le_rfl, hle, Or.inr rfl⟩
  | succ budget ih =>
      intro offset hle h e
      rcases Nat.lt_or_ge offset total with hopen | hdone
      · rw [chunksFrom_succ _ hopen]
        have hpos : 0 < chunkAt c base total offset := chunkAt_pos hopen
        obtain ⟨hparts, hend, hused⟩ := ih _ (add_chunkAt_le hopen)
          (emitChunk c split body base total offset h e).1
          (emitChunk c split body base total offset h e).2
        dsimp only [Window.after]
        exact ⟨by omega, hend, hused.imp_right fun h => by rw [h]⟩
      · rw [chunksFrom_done _ hdone]
        exact ⟨le_rfl, hle, Or.inl (le_antisymm hle hdone)⟩

/-- A budget as large as the access is enough for it. -/
theorem chunksFrom_all {budget : ℕ} (hbudget : total - offset ≤ budget) (hle : offset ≤ total)
    (h : Host) (e : MemRequestEmitter) :
    (chunksFrom c split body base total budget offset h e).offset = total := by
  obtain ⟨hparts, hend, hused⟩ := @chunksFrom_bounds c split body base total budget offset hle h e
  omega

/-- More budget than that changes nothing. -/
theorem chunksFrom_enough {b₁ b₂ : ℕ} (h₁ : total - offset ≤ b₁) (h₂ : b₁ ≤ b₂)
    (hle : offset ≤ total) (h : Host) (e : MemRequestEmitter) :
    chunksFrom c split body base total b₂ offset h e =
      chunksFrom c split body base total b₁ offset h e := by
  obtain ⟨k, rfl⟩ := Nat.exists_eq_add_of_le h₂
  rw [chunksFrom_append]
  dsimp only
  rw [chunksFrom_done _ (chunksFrom_all h₁ hle h e).ge]
  simp [Window.after]

/-- What a window leaves is what the rest of the loop does. -/
theorem chunksFrom_resume (budget : ℕ) (hle : offset ≤ total) (h : Host) (e : MemRequestEmitter) :
    chunksFrom c split body base total (total - offset) offset h e =
      let w := chunksFrom c split body base total budget offset h e
      (chunksFrom c split body base total (total - w.offset) w.offset w.host w.emitter).after
        w.parts := by
  obtain ⟨hparts, hend, -⟩ := @chunksFrom_bounds c split body base total budget offset hle h e
  rw [← chunksFrom_enough le_rfl (Nat.le_add_left (total - offset) budget) hle, chunksFrom_append]
  dsimp only
  rw [chunksFrom_enough le_rfl (by omega) hend]

theorem length_traffic_emitChunk (h : Host) (e : MemRequestEmitter) :
    (emitChunk c split body base total offset h e).2.traffic.length = e.traffic.length + 1 := by
  simp [emitChunk]

/-- A chunk counts as split unless it is the first. -/
theorem tally_emitChunk (hsplit : ∀ addr offset chunk,
      requestStat .mem (body addr offset chunk) ≠ split) (h : Host) (e : MemRequestEmitter) :
    tally split (emitChunk c split body base total offset h e).2.stats =
      tally split e.stats + if offset = 0 then 0 else 1 := by
  simp only [emitChunk, emit, tally_append, tally_singleton, if_neg (hsplit _ _ _), tally_addDataIf]
  by_cases hoff : offset = 0
  · simp [hoff]
  · simp [hoff]

/-- Each part is a request. -/
theorem chunksFrom_sent (budget : ℕ) : ∀ (offset : ℕ) (h : Host) (e : MemRequestEmitter),
    let w := chunksFrom c split body base total budget offset h e
    w.emitter.traffic.length = e.traffic.length + w.parts := by
  induction budget with
  | zero => exact fun offset h e => rfl
  | succ budget ih =>
      intro offset h e
      rcases Nat.lt_or_ge offset total with hopen | hdone
      · rw [chunksFrom_succ _ hopen]
        have hlen := ih (offset + chunkAt c base total offset)
          (emitChunk c split body base total offset h e).1
          (emitChunk c split body base total offset h e).2
        dsimp only [Window.after]
        rw [hlen, length_traffic_emitChunk]
        omega
      · rw [chunksFrom_done _ hdone]
        exact rfl

/-- Each part but the first of the access counts as split. -/
theorem chunksFrom_split (hsplit : ∀ addr offset chunk,
      requestStat .mem (body addr offset chunk) ≠ split) (budget : ℕ) :
    ∀ (offset : ℕ) (h : Host) (e : MemRequestEmitter),
    let w := chunksFrom c split body base total budget offset h e
    tally split w.emitter.stats =
      tally split e.stats + (w.parts - if offset = 0 then 1 else 0) := by
  induction budget with
  | zero => exact fun offset h e => by simp [chunksFrom, issueChunks]
  | succ budget ih =>
      intro offset h e
      rcases Nat.lt_or_ge offset total with hopen | hdone
      · rw [chunksFrom_succ _ hopen]
        have hpos : 0 < chunkAt c base total offset := chunkAt_pos hopen
        have hnext : offset + chunkAt c base total offset ≠ 0 := by omega
        have hcount := ih (offset + chunkAt c base total offset)
          (emitChunk c split body base total offset h e).1
          (emitChunk c split body base total offset h e).2
        dsimp only [Window.after] at hcount ⊢
        rw [hcount, if_neg hnext, tally_emitChunk hsplit]
        split_ifs <;> omega
      · rw [chunksFrom_done _ hdone]
        simp

end Chunks

/-! ### One window -/

section Windows

variable {c : CoreContext} {op : MemOp} {offset budget : ℕ} {h : Host} {e : MemRequestEmitter}

/-- The counter of the chunks after the first. -/
def splitStat (op : MemOp) : CoreStat := if op.isRead then .splitReads else .splitWrites

/-- The body of a chunk. -/
def chunkBody (op : MemOp) (addr : UInt64) (offset chunk : ℕ) : Body :=
  if op.isRead then .read addr chunk else .write addr chunk (chunkData op.data offset chunk)

/-- The size of a cached access is counted with its first window. -/
def sized (op : MemOp) (offset : ℕ) (e : MemRequestEmitter) : MemRequestEmitter :=
  if op.isRead then e.addDataIf (offset = 0) .readReqSizes op.size
  else (e.addDataIf (offset = 0) .writeReqSizes op.size).addDataIf
    (op.size > cmdDataBytes ∧ offset = 0) .cachedTruncatedWrites 1

theorem sized_of_ne (hoff : offset ≠ 0) : sized op offset e = e := by
  simp [sized, addDataIf, hoff]

/-- The loop over the chunks of an access. -/
def cachedFrom (c : CoreContext) (op : MemOp) (budget offset : ℕ) (h : Host)
    (e : MemRequestEmitter) : Window :=
  chunksFrom c (splitStat op) (chunkBody op) op.addr op.captured budget offset h (sized op offset e)

/-- The size of an access is not a request. -/
theorem traffic_sized (op : MemOp) (offset : ℕ) (e : MemRequestEmitter) :
    (sized op offset e).traffic = e.traffic := by
  rw [sized]
  split_ifs
  · rw [traffic_addDataIf]
  · rw [traffic_addDataIf, traffic_addDataIf]

/-- Each part of a cached access is a request. -/
theorem cachedFrom_sent :
    let w := cachedFrom c op budget offset h e
    w.emitter.traffic.length = e.traffic.length + w.parts := by
  have hlen := @chunksFrom_sent c (splitStat op) (chunkBody op) op.addr op.captured budget offset h
    (sized op offset e)
  rwa [traffic_sized] at hlen

/-- The window with the cursor of a complete access at its end, where some bytes were not
captured. -/
def Window.closed (op : MemOp) (w : Window) : Window :=
  { w with offset := if w.offset = op.captured then op.size else w.offset }

/-- A window of a cached access. -/
theorem issueWindow_cached (hmmio : op.isMmio = false) (hsize : op.size ≠ 0) (hbudget : 0 < budget)
    (hfits : op.Fits) (hlink : linked c op = true) :
    issueWindow c op offset budget h e = .ok ((cachedFrom c op budget offset h e).closed op) := by
  have hopen : ¬(op.size = 0 ∨ budget = 0) := by omega
  rw [issueWindow, Window.closed, cachedFrom]
  cases hread : op.isRead with
  | true =>
      have hcap : op.captured = op.size := by rw [MemOp.captured, if_pos hread]
      have hspan : memorySpanValid op.addr.toNat op.size = true := hcap ▸ hfits
      have hsplit : splitStat op = .splitReads := if_pos hread
      have hbody : chunkBody op = fun addr _ chunk => .read addr chunk := by
        funext addr offset chunk
        exact if_pos hread
      have hsized : sized op offset e = e.addDataIf (offset = 0) .readReqSizes op.size :=
        if_pos hread
      have hlast (n : ℕ) : (if n = op.size then op.size else n) = n := by
        split_ifs with hn
        · exact hn.symm
        · rfl
      rw [if_pos rfl, issueReadWindow, if_neg hopen, hspan, hlink, hmmio, hcap, hsplit, hbody,
        hsized]
      simp only [hlast]
      rfl
  | false =>
      have hnot : ¬op.isRead = true := by simp [hread]
      have hcap : op.captured = min op.size cmdDataBytes := if_neg hnot
      have hissue : (if op.size > cmdDataBytes then cmdDataBytes else op.size) = op.captured := by
        rw [hcap]
        split_ifs <;> omega
      have hspan : memorySpanValid op.addr.toNat (min op.size cmdDataBytes) = true := hcap ▸ hfits
      have hsplit : splitStat op = .splitWrites := if_neg hnot
      have hbody : chunkBody op =
          fun addr offset chunk => .write addr chunk (chunkData op.data offset chunk) := by
        funext addr offset chunk
        exact if_neg hnot
      have hsized : sized op offset e = (e.addDataIf (offset = 0) .writeReqSizes op.size).addDataIf
          (op.size > cmdDataBytes ∧ offset = 0) .cachedTruncatedWrites 1 := if_neg hnot
      rw [if_neg Bool.false_ne_true, issueWriteWindow, if_neg hopen, hspan, hlink, hmmio, hissue,
        hsplit, hbody, hsized]
      rfl

/-- A window of an mmio access is the whole access. -/
theorem issueWindow_mmio (c : CoreContext) (h : Host) (e : MemRequestEmitter)
    (hmmio : op.isMmio = true) (hsize : op.size ≠ 0) (hfits : op.Fits)
    (hlink : linked c op = true) :
    ∃ w : Window, w.offset = op.size ∧ w.emitter.traffic.length = e.traffic.length + w.parts ∧
      ∀ offset budget, 0 < budget → issueWindow c op offset budget h e = .ok w := by
  cases hread : op.isRead with
  | true =>
      have hspan : memorySpanValid op.addr.toNat op.size = true := by
        rwa [MemOp.Fits, MemOp.captured, if_pos hread] at hfits
      let res := emit c .mmio (.read op.addr op.size) h e
      refine ⟨⟨1, op.size, res.1, res.2⟩, rfl, by simp [res], fun offset budget hbudget => ?_⟩
      have hopen : ¬(op.size = 0 ∨ budget = 0) := by omega
      rw [issueWindow, if_pos hread, issueReadWindow, if_neg hopen, hspan, hlink, hmmio]
      rfl
  | false =>
      have hnot : ¬op.isRead = true := by simp [hread]
      have hspan : memorySpanValid op.addr.toNat (min op.size cmdDataBytes) = true := by
        rwa [MemOp.Fits, MemOp.captured, if_neg hnot] at hfits
      let issueSize := if op.size > cmdDataBytes then cmdDataBytes else op.size
      let res := emit c .mmio (.write op.addr issueSize (op.data.take issueSize)) h
        (e.addDataIf (op.size > cmdDataBytes) .mmioTruncatedWrites 1)
      refine ⟨⟨1, op.size, res.1, res.2⟩, rfl, by simp [res], fun offset budget hbudget => ?_⟩
      have hopen : ¬(op.size = 0 ∨ budget = 0) := by omega
      rw [issueWindow, if_neg hnot, issueWriteWindow, if_neg hopen, hspan, hlink, hmmio]
      rfl

/-- The error of an access that wraps or whose link is missing. -/
def windowFatal (c : CoreContext) (op : MemOp) : PipelineFatal :=
  if memorySpanValid op.addr.toNat op.captured then
    .notConnected c.coreId op.isMmio op.isRead op.addr
  else if op.isRead then .readWraps else .writeWraps

/-- The error of an access is that of each window. -/
theorem issueWindow_error (hsize : op.size ≠ 0) (hbad : ¬(op.Fits ∧ linked c op = true))
    (hbudget : 0 < budget) : issueWindow c op offset budget h e = .error (windowFatal c op) := by
  have hopen : ¬(op.size = 0 ∨ budget = 0) := by omega
  rw [MemOp.Fits] at hbad
  rw [issueWindow, windowFatal]
  cases hread : op.isRead with
  | true =>
      have hcap : op.captured = op.size := by rw [MemOp.captured, if_pos hread]
      rw [if_pos rfl, issueReadWindow, if_neg hopen, hcap]
      rw [hcap] at hbad
      cases hspan : memorySpanValid op.addr.toNat op.size with
      | false => rfl
      | true =>
          have hlink : linked c op = false := by simpa [hspan] using hbad
          rw [hlink]
          rfl
  | false =>
      have hcap : op.captured = min op.size cmdDataBytes := by simp [MemOp.captured, hread]
      rw [if_neg Bool.false_ne_true, issueWriteWindow, if_neg hopen, hcap]
      rw [hcap] at hbad
      cases hspan : memorySpanValid op.addr.toNat (min op.size cmdDataBytes) with
      | false => rfl
      | true =>
          have hlink : linked c op = false := by simpa [hspan] using hbad
          rw [hlink]
          rfl

/-- The errors of a window are those of the access. -/
theorem windowFatal_ne (c : CoreContext) (op : MemOp) :
    windowFatal c op ≠ .exceededBudget ∧ windowFatal c op ≠ .cannotSplit := by
  rw [windowFatal]
  split_ifs
  · exact ⟨nofun, nofun⟩
  · exact ⟨nofun, nofun⟩
  · exact ⟨nofun, nofun⟩

/-- Each part of a window is a request. -/
theorem issueWindow_sent (hbudget : 0 < budget) {w : Window}
    (hok : issueWindow c op offset budget h e = .ok w) :
    w.emitter.traffic.length = e.traffic.length + w.parts := by
  by_cases hsize : op.size = 0
  · rw [issueWindow, issueReadWindow, issueWriteWindow, if_pos (Or.inl hsize),
      if_pos (Or.inl hsize), ite_self, Except.ok.injEq] at hok
    rw [← hok]
    rfl
  by_cases hgood : op.Fits ∧ linked c op = true
  · cases hmmio : op.isMmio with
    | true =>
        obtain ⟨v, -, hsent, hwindow⟩ := issueWindow_mmio c h e hmmio hsize hgood.1 hgood.2
        rw [hwindow offset budget hbudget, Except.ok.injEq] at hok
        rw [← hok, hsent]
    | false =>
        rw [issueWindow_cached hmmio hsize hbudget hgood.1 hgood.2, Except.ok.injEq] at hok
        rw [← hok]
        exact cachedFrom_sent
  · rw [issueWindow_error hsize hgood hbudget] at hok
    cases hok

/-- A window opens on an access that fits and has its link. -/
theorem issueWindow_good (hsize : op.size ≠ 0) (hbudget : 0 < budget) {w : Window}
    (hok : issueWindow c op offset budget h e = .ok w) : op.Fits ∧ linked c op = true := by
  by_contra hbad
  rw [issueWindow_error hsize hbad hbudget] at hok
  cases hok

/-- A window of the emitter advances the access. -/
theorem issueWindow_advances (hc : op.Cursor offset) (hbudget : 0 < budget) {w : Window}
    (hok : issueWindow c op offset budget h e = .ok w) : Advances c op offset budget h e w := by
  rw [issueWindow] at hok
  by_cases hread : op.isRead = true
  · rw [if_pos hread] at hok
    exact issueReadWindow_advances hread hc hbudget hok
  · rw [if_neg hread] at hok
    exact issueWriteWindow_advances (by simpa using hread) hc hbudget hok

/-- Something is left to issue of an access that is not complete. -/
theorem requestsFrom_ne_nil (hsize : op.size ≠ 0) (hc : op.Cursor offset) :
    op.requestsFrom c offset ≠ [] := by
  rw [MemOp.requestsFrom]
  by_cases hmmio : op.isMmio = true
  · rw [if_pos hmmio, if_neg hsize]
    exact List.cons_ne_nil _ _
  · have hlt : 0 < op.captured - offset := by
      have hcap := op.captured_pos hsize
      rcases hc with rfl | ⟨-, hlt, -⟩
      · exact hcap
      · omega
    rw [if_neg hmmio, lineSplit_cons c.cacheLineSize_pos hlt, List.map_cons]
    exact List.cons_ne_nil _ _

/-- A window of an access that is not empty issues something. -/
theorem Advances.parts_pos {w : Window} (hadv : Advances c op offset budget h e w)
    (hc : op.Cursor offset) (hsize : op.size ≠ 0)
    (hsent : w.emitter.traffic.length = e.traffic.length + w.parts) : 0 < w.parts := by
  by_cases hend : w.offset = op.size
  · have hpos := List.length_pos_iff.mpr (requestsFrom_ne_nil (c := c) hsize hc)
    rw [hadv.complete hend, List.length_append] at hsent
    omega
  · exact (hadv.incomplete hend).1

/-- A window fails only with an error of the access. -/
theorem issueWindow_fatal (hbudget : 0 < budget) {f : PipelineFatal}
    (herr : issueWindow c op offset budget h e = .error f) : f = windowFatal c op := by
  have hbad : ¬(op.Fits ∧ linked c op = true) := window_error herr
  by_cases hsize : op.size = 0
  · rw [issueWindow, issueReadWindow, issueWriteWindow, if_pos (Or.inl hsize),
      if_pos (Or.inl hsize), ite_self] at herr
    cases herr
  · rw [issueWindow_error hsize hbad hbudget, Except.error.injEq] at herr
    exact herr.symm

/-! ### Any windows -/

/-- A complete access has no more windows. -/
theorem issueWindows_done (budgets : List ℕ) (h : Host) (e : MemRequestEmitter) :
    issueWindows c op budgets op.size h e = .ok ⟨0, op.size, h, e⟩ := by
  cases budgets with
  | nil => rfl
  | cons budget budgets => rw [issueWindows, if_pos rfl]

/-- What a window leaves of a cached access. -/
theorem cachedFrom_bounds (hle : offset ≤ op.captured) :
    let w := cachedFrom c op budget offset h e
    offset + w.parts ≤ w.offset ∧ w.offset ≤ op.captured ∧
      (w.offset = op.captured ∨ w.parts = budget) :=
  chunksFrom_bounds budget offset hle h (sized op offset e)

theorem cachedFrom_done (hoff : offset ≠ 0) (hdone : op.captured ≤ offset) :
    cachedFrom c op budget offset h e = ⟨0, offset, h, e⟩ := by
  rw [cachedFrom, chunksFrom_done _ hdone, sized_of_ne hoff]

/-- What a window leaves of a cached access is what the rest of the loop does. -/
theorem cachedFrom_resume (hle : offset ≤ op.captured)
    (hnext : (cachedFrom c op budget offset h e).offset ≠ 0) :
    cachedFrom c op (op.captured - offset) offset h e =
      let w := cachedFrom c op budget offset h e
      (cachedFrom c op (op.captured - w.offset) w.offset w.host w.emitter).after w.parts := by
  have hresume := @chunksFrom_resume c (splitStat op) (chunkBody op) op.addr op.captured offset
    budget hle h (sized op offset e)
  dsimp only
  rw [cachedFrom] at hnext
  rw [cachedFrom, hresume, cachedFrom, cachedFrom, sized_of_ne hnext]

/-- **Windows of a cached access.** They do what the rest of the loop does, and there are enough
of them when there is one for each byte. -/
theorem issueWindows_cached (hmmio : op.isMmio = false) (hfits : op.Fits)
    (hlink : linked c op = true) (budgets : List ℕ) (hbudgets : ∀ budget ∈ budgets, 1 ≤ budget) :
    ∀ offset < op.captured, ∀ (h : Host) (e : MemRequestEmitter),
    ∃ w, issueWindows c op budgets offset h e = .ok w ∧
      (w.offset = op.size → w = (cachedFrom c op (op.captured - offset) offset h e).closed op) ∧
      (op.captured ≤ offset + budgets.length → w.offset = op.size) := by
  have hcap := op.captured_le
  induction budgets with
  | nil =>
      intro offset hlt h e
      refine ⟨⟨0, offset, h, e⟩, rfl, fun hend => ?_, fun hlen => ?_⟩
      · exact absurd hend (by dsimp only; omega)
      · exact absurd hlen (by simpa using hlt)
  | cons budget budgets ih =>
      intro offset hlt h e
      have hbudget : 1 ≤ budget := hbudgets budget List.mem_cons_self
      have hrest : ∀ b ∈ budgets, 1 ≤ b := fun b hb => hbudgets b (List.mem_cons_of_mem _ hb)
      have hwindow :=
        @issueWindow_cached c op offset budget h e hmmio (by omega) hbudget hfits hlink
      obtain ⟨hparts, hend, hused⟩ := @cachedFrom_bounds c op offset budget h e hlt.le
      have hnext : (cachedFrom c op budget offset h e).offset ≠ 0 := by omega
      have hresume := cachedFrom_resume hlt.le hnext
      rw [issueWindows, if_neg (by omega), hwindow]
      generalize cachedFrom c op budget offset h e = v at *
      rcases Nat.lt_or_ge v.offset op.captured with hopen | hdone
      · -- The next window goes on at a cursor that is not the first byte.
        have hclosed : v.closed op = v := by rw [Window.closed, if_neg (Nat.ne_of_lt hopen)]
        obtain ⟨w, hok, hw, hlen⟩ := ih hrest v.offset hopen v.host v.emitter
        refine ⟨{ w with parts := v.parts + w.parts }, ?_, fun heq => ?_, fun hle => ?_⟩
        · simp only [hclosed, bind, Except.bind, hok]
        · rw [hresume, hw heq]
          simp only [Window.closed, Window.after, Nat.add_comm]
        · rw [List.length_cons] at hle
          exact hlen (by omega)
      · have heq : v.offset = op.captured := le_antisymm hend hdone
        have hclosed : v.closed op = { v with offset := op.size } := by
          rw [Window.closed, if_pos heq]
        refine ⟨{ v with offset := op.size }, ?_, fun _ => ?_, fun _ => rfl⟩
        · simp only [hclosed, bind, Except.bind, issueWindows_done, Nat.add_zero]
        · rw [hresume]
          dsimp only
          rw [cachedFrom_done hnext hdone]
          simp only [Window.closed, Window.after, heq, if_true, Nat.zero_add]

/-! ### At once -/

/-- An access at once is one window. -/
theorem issue_eq (c : CoreContext) (op : MemOp) (h : Host) (e : MemRequestEmitter) :
    issue c op h e = issueWindow c op 0 uint32Max h e := rfl

theorem issue_empty (hsize : op.size = 0) : issue c op h e = .ok ⟨0, 0, h, e⟩ := by
  rw [issue_eq, issueWindow, issueReadWindow, issueWriteWindow, if_pos (Or.inl hsize),
    if_pos (Or.inl hsize), ite_self]

/-- A cached access at once is the whole loop. -/
theorem issue_cached (hmmio : op.isMmio = false) (hsize : op.size ≠ 0) (hmax : op.size ≤ uint32Max)
    (hfits : op.Fits) (hlink : linked c op = true) :
    issue c op h e = .ok ((cachedFrom c op (op.captured - 0) 0 h e).closed op) := by
  have hcap := op.captured_le
  rw [issue_eq, issueWindow_cached hmmio hsize (by decide) hfits hlink, cachedFrom, cachedFrom,
    chunksFrom_enough le_rfl (by omega) (Nat.zero_le _)]

/-- The chunks of a cached access are those of the lines. -/
structure CachedIssue (c : CoreContext) (op : MemOp) (e : MemRequestEmitter) (w : Window)
    (chunks : List Chunk) : Prop where
  traffic : w.emitter.traffic = e.traffic ++ chunks.map fun p => (.mem, op.part p)
  tiles : Tiles chunks op.addr.toNat (op.addr.toNat + op.captured)
  line : ∀ p ∈ chunks, (p.1 + p.2 - 1) / c.cacheLineSize = p.1 / c.cacheLineSize
  slots : chunks.length = slotsNeeded c op.addr op.captured false
  split : tally (splitStat op) w.emitter.stats =
    tally (splitStat op) e.stats + (chunks.length - 1)

theorem requestStat_chunkBody (op : MemOp) (addr : UInt64) (offset chunk : ℕ) :
    requestStat .mem (chunkBody op addr offset chunk) ≠ splitStat op := by
  rw [chunkBody, splitStat]
  split_ifs
  · exact nofun
  · exact nofun

/-- Each part of a cached access but the first counts as split. -/
theorem cachedFrom_split :
    let w := cachedFrom c op budget 0 h e
    tally (splitStat op) w.emitter.stats = tally (splitStat op) e.stats + (w.parts - 1) := by
  have htally : tally (splitStat op) (sized op 0 e).stats = tally (splitStat op) e.stats := by
    rw [sized, splitStat]
    split_ifs
    · simp
    · simp
  have hcount := @chunksFrom_split c (splitStat op) (chunkBody op) op.addr op.captured
    (requestStat_chunkBody op) budget 0 h (sized op 0 e)
  rwa [htally, if_pos rfl] at hcount

/-- A cached access at once is one request for each line. -/
theorem issue_lines (hmmio : op.isMmio = false) (hmax : op.size ≤ uint32Max) (hfits : op.Fits)
    (hlink : linked c op = true) {w : Window} (hok : issue c op h e = .ok w)
    (hend : w.offset = op.size) :
    CachedIssue c op e w (lineSplit c.cacheLineSize op.addr.toNat op.captured) := by
  have htraffic : w.emitter.traffic = e.traffic ++
      (lineSplit c.cacheLineSize op.addr.toNat op.captured).map fun p => (.mem, op.part p) := by
    have hadv := (issueWindow_advances (Or.inl rfl) (by decide)
      (issue_eq c op h e ▸ hok)).complete hend
    rwa [MemOp.requestsFrom, hmmio, if_neg Bool.false_ne_true, Nat.add_zero, Nat.sub_zero] at hadv
  refine ⟨htraffic, lineSplit_tiles c.cacheLineSize_pos,
    fun p hp => lineSplit_same_line c.cacheLineSize_pos hp, ?_, ?_⟩
  · rw [slotsNeeded, if_neg Bool.false_ne_true, memorySlots_eq c.cacheLineSize_pos,
      length_lineSplit]
  · by_cases hsize : op.size = 0
    · have hcap : op.captured = 0 := Nat.le_zero.mp (hsize ▸ op.captured_le)
      rw [issue_empty hsize, Except.ok.injEq] at hok
      rw [← hok, hcap]
      rfl
    · rw [issue_cached hmmio hsize hmax hfits hlink, Except.ok.injEq] at hok
      have hlen := @cachedFrom_sent c op 0 (op.captured - 0) h e
      rw [← hok] at htraffic ⊢
      rw [Window.closed, cachedFrom_split]
      rw [Window.closed] at htraffic
      dsimp only at hlen htraffic
      rw [htraffic, List.length_append, List.length_map, Nat.add_left_cancel_iff] at hlen
      rw [hlen]

theorem issueWindows_empty (hsize : op.size = 0) (budgets : List ℕ) :
    issueWindows c op budgets 0 h e = issue c op h e := by
  have hdone := @issueWindows_done c op budgets h e
  rw [hsize] at hdone
  rw [hdone, issue_empty hsize]

/-- The first window of an access that is not cut is one issue. -/
theorem issueWindows_whole (hsize : op.size ≠ 0) (hbudget : 0 < budget)
    (hwhole : ¬(op.isMmio = false ∧ op.Fits ∧ linked c op = true)) (budgets : List ℕ) :
    issueWindows c op (budget :: budgets) 0 h e = issue c op h e := by
  rw [issueWindows, if_neg (Ne.symm hsize), issue_eq]
  by_cases hgood : op.Fits ∧ linked c op = true
  · have hmmio : op.isMmio = true := by
      by_contra hcached
      exact hwhole ⟨by simpa using hcached, hgood⟩
    obtain ⟨w, hw, -, hwindow⟩ := issueWindow_mmio c h e hmmio hsize hgood.1 hgood.2
    rw [hwindow 0 budget hbudget, hwindow 0 uint32Max (by decide)]
    simp only [bind, Except.bind, hw, issueWindows_done, Nat.add_zero]
    rw [← hw]
  · rw [issueWindow_error hsize hgood hbudget, issueWindow_error hsize hgood (by decide)]
    rfl

/-- Any windows that complete the access are one issue. -/
theorem issueWindows_complete (hmax : op.size ≤ uint32Max) {budgets : List ℕ}
    (hbudgets : ∀ budget ∈ budgets, 1 ≤ budget) {w : Window}
    (hok : issueWindows c op budgets 0 h e = .ok w) (hend : w.offset = op.size) :
    issue c op h e = .ok w := by
  by_cases hsize : op.size = 0
  · rw [← issueWindows_empty hsize budgets, hok]
  by_cases hcached : op.isMmio = false ∧ op.Fits ∧ linked c op = true
  · obtain ⟨hmmio, hfits, hlink⟩ := hcached
    obtain ⟨v, hv, hw, -⟩ := issueWindows_cached hmmio hfits hlink _ hbudgets 0
      (op.captured_pos hsize) h e
    obtain rfl : v = w := Except.ok.inj (hv.symm.trans hok)
    rw [issue_cached hmmio hsize hmax hfits hlink, ← hw hend]
  cases budgets with
  | nil =>
      rw [issueWindows, Except.ok.injEq] at hok
      exact absurd hend (by rw [← hok]; exact Ne.symm hsize)
  | cons budget budgets =>
      rw [← issueWindows_whole hsize (hbudgets budget List.mem_cons_self) hcached budgets, hok]

/-- One window for each byte is enough, also for the error. -/
theorem issueWindows_enough (hmax : op.size ≤ uint32Max) {budgets : List ℕ}
    (hbudgets : ∀ budget ∈ budgets, 1 ≤ budget) (hlen : op.size ≤ budgets.length) :
    issueWindows c op budgets 0 h e = issue c op h e := by
  by_cases hsize : op.size = 0
  · exact issueWindows_empty hsize budgets
  by_cases hcached : op.isMmio = false ∧ op.Fits ∧ linked c op = true
  · obtain ⟨hmmio, hfits, hlink⟩ := hcached
    obtain ⟨w, hw, -, hcomplete⟩ := issueWindows_cached hmmio hfits hlink _ hbudgets 0
      (op.captured_pos hsize) h e
    have hcap := op.captured_le
    rw [hw, issueWindows_complete hmax hbudgets hw (hcomplete (by omega))]
  cases budgets with
  | nil => exact absurd (Nat.le_zero.mp hlen) hsize
  | cons budget budgets =>
      exact issueWindows_whole hsize (hbudgets budget List.mem_cons_self) hcached budgets

/-- An access that fits is issued to its end. -/
theorem issue_fits (hmax : op.size ≤ uint32Max) (hfits : op.Fits) (hlink : linked c op = true) :
    ∃ w, issue c op h e = .ok w ∧ w.offset = op.size := by
  by_cases hsize : op.size = 0
  · exact ⟨_, issue_empty hsize, hsize.symm⟩
  cases hmmio : op.isMmio with
  | true =>
      obtain ⟨w, hw, -, hwindow⟩ := issueWindow_mmio c h e hmmio hsize hfits hlink
      exact ⟨w, hwindow 0 uint32Max (by decide), hw⟩
  | false =>
      refine ⟨_, issue_cached hmmio hsize hmax hfits hlink, ?_⟩
      have hend : (cachedFrom c op (op.captured - 0) 0 h e).offset = op.captured :=
        chunksFrom_all le_rfl (Nat.zero_le _) h (sized op 0 e)
      rw [Window.closed, if_pos hend]

end Windows

/-- **Windows equal one issue.** The windows that complete an access do together what one issue
does: the requests on the links, the requests that are tracked and the statistics are the same.
With one window for each byte they complete it or fail as one issue does. An access that fits is
complete, and on the cached path its requests are the parts of what was captured in the lines. -/
theorem windowed_issue (c : CoreContext) (op : MemOp) (h : Host) (e : MemRequestEmitter)
    (hmax : op.size ≤ uint32Max) :
    (∀ budgets : List ℕ, (∀ budget ∈ budgets, 1 ≤ budget) →
      (∀ w, issueWindows c op budgets 0 h e = .ok w → w.offset = op.size →
        issue c op h e = .ok w) ∧
      (op.size ≤ budgets.length → issueWindows c op budgets 0 h e = issue c op h e)) ∧
    (op.Fits → linked c op = true → ∃ w, issue c op h e = .ok w ∧ w.offset = op.size ∧
      (op.isMmio = false → ∃ chunks, CachedIssue c op e w chunks)) := by
  refine ⟨fun budgets hbudgets => ⟨fun w hok hend => ?_, fun hlen => ?_⟩, fun hfits hlink => ?_⟩
  · exact issueWindows_complete hmax hbudgets hok hend
  · exact issueWindows_enough hmax hbudgets hlen
  · obtain ⟨w, hok, hend⟩ := @issue_fits c op h e hmax hfits hlink
    exact ⟨w, hok, hend, fun hmmio => ⟨_, issue_lines hmmio hmax hfits hlink hok hend⟩⟩

/-- A read of six bytes across a line. -/
def lineRead : MemOp := ⟨true, false, 0x3c, 6, []⟩

/-- Two bytes of it are in the next line; six windows are enough. -/
theorem windowed_issue_line :
    issueWindows default lineRead [1, 1, 1, 1, 1, 1] 0 {} {} = issue default lineRead {} {} ∧
      ∃ w, issue default lineRead {} {} = .ok w ∧ w.offset = 6 ∧
        ∃ chunks, CachedIssue default lineRead {} w chunks := by
  obtain ⟨hwindows, hissue⟩ := windowed_issue default lineRead {} {} (by decide)
  obtain ⟨w, hok, hend, hlines⟩ := hissue rfl rfl
  exact ⟨(hwindows [1, 1, 1, 1, 1, 1] (by decide)).2 (by decide), w, hok, hend, hlines rfl⟩

end MemRequestEmitter

end Quetz
