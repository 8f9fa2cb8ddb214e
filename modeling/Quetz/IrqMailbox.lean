import Mathlib.Algebra.Group.Nat.Defs
import Mathlib.Data.List.GetD
import Mathlib.Data.List.Induction
import Mathlib.Order.Basic
import Mathlib.Logic.Function.Basic
import Mathlib.Tactic.Common

/-!
# The Interrupt Mailbox

Levels of interrupt lines go from the simulator to QEMU through shared memory.
`QuetzMmioSync::postIrq` (`src/quetz_mmio_sync.h`) stores the level of a slot, then the slot's
sequence number, then the generation of the whole matrix; `quetz_ipc_irq_drain`
(`qemu-overlay/quetz_ipc_client.c`) loads the generation, skips the matrix if it has not moved,
and else compares the sequence number of every polled slot with a shadow and loads the level of
those that changed. Every store and every load is a step of its own, and they interleave freely.
The counters have 32 bits.

`World` counts the posts beside the mailbox. The shadow of a slot stands for a number of its posts,
at least those that were complete when the last complete drain began, and the reported level is
one of a post that is not older than the shadow.

## Main results

* `Inv.step`: every store and every load keeps the invariant.
* `drains_converge`: after a complete drain that began after the last post every reported level
  is the posted one, and a skipped scan loses nothing.
-/

namespace Quetz.IrqMailbox

/-! ### Shared memory and the client -/

def QUETZ_MAX_MMIO_VCORES : ℕ := 256

def QUETZ_MAX_IRQ_LINES : ℕ := 64

/-- A row and a column of `irq_slot`. -/
abbrev Slot := ℕ × ℕ

/-- One entry of the drain's output, or one post. -/
structure Change where
  slot : Slot
  level : UInt32
deriving DecidableEq, Repr

/-- The next store of `postIrq`. -/
inductive Writer where
  | idle
  | levelStored (slot : Slot)
  | seqStored
deriving DecidableEq, Repr

/-- The next load of `quetz_ipc_irq_drain`: the sequence number of the next slot, or the level of
a slot whose number has changed. `n` changes are in the output buffer of `maxOut` entries. -/
inductive Drain where
  | idle
  | scan (gen : UInt32) (n maxOut : ℕ) (todo : List Slot)
  | level (gen : UInt32) (n maxOut : ℕ) (slot : Slot) (todo : List Slot)
deriving DecidableEq, Repr

/-- The mailbox, the client's shadows and the two programs. -/
structure Mailbox where
  level : Slot → UInt32 := fun _ => 0
  seq : Slot → UInt32 := fun _ => 0
  irqGeneration : UInt32 := 0
  /-- The shadows of the client. -/
  irqSeq : Slot → UInt32 := fun _ => 0
  irqGen : UInt32 := 0
  writer : Writer := .idle
  drain : Drain := .idle

/-- The slots a drain looks at, in its order. -/
def polled (numCores maxLines : ℕ) : List Slot :=
  (List.range (min numCores QUETZ_MAX_MMIO_VCORES)).flatMap fun v =>
    (List.range (min maxLines QUETZ_MAX_IRQ_LINES)).map fun l => (v, l)

/-- One store of the simulator or one load of QEMU. -/
inductive Event where
  /-- Begin a post: store the level. -/
  | post (vcpu line : ℕ) (level : UInt32)
  | storeSeq
  | storeGeneration
  /-- Begin a drain: load the generation. -/
  | drain (maxOut : ℕ)
  /-- The next load of the drain, or its return. -/
  | load

namespace Mailbox

/-- The mailbox after an event, if the programs allow it. -/
def step (slots : List Slot) (s : Mailbox) : Event → Option Mailbox
  | .post vcpu line level =>
    if s.writer = .idle ∧ vcpu < QUETZ_MAX_MMIO_VCORES ∧ line < QUETZ_MAX_IRQ_LINES then
      some { s with
        level := Function.update s.level (vcpu, line) level
        writer := .levelStored (vcpu, line) }
    else none
  | .storeSeq =>
    match s.writer with
    | .levelStored slot =>
      some { s with seq := Function.update s.seq slot (s.seq slot + 1), writer := .seqStored }
    | _ => none
  | .storeGeneration =>
    match s.writer with
    | .seqStored => some { s with irqGeneration := s.irqGeneration + 1, writer := .idle }
    | _ => none
  | .drain maxOut =>
    if s.drain = .idle ∧ 0 < maxOut then
      if s.irqGeneration = s.irqGen then some s
      else some { s with drain := .scan s.irqGeneration 0 maxOut slots }
    else none
  | .load =>
    match s.drain with
    | .idle => none
    | .scan gen _ _ [] => some { s with irqGen := gen, drain := .idle }
    | .scan gen n maxOut (slot :: todo) =>
      if s.seq slot = s.irqSeq slot then some { s with drain := .scan gen n maxOut todo }
      else some { s with
        irqSeq := Function.update s.irqSeq slot (s.seq slot)
        drain := .level gen n maxOut slot todo }
    | .level gen n maxOut _ todo =>
      if n + 1 = maxOut then some { s with drain := .idle }
      else some { s with drain := .scan gen (n + 1) maxOut todo }

/-- The entry a load adds to the output. -/
def report (s : Mailbox) : Event → List Change
  | .load =>
    match s.drain with
    | .level _ _ _ slot _ => [⟨slot, s.level slot⟩]
    | _ => []
  | _ => []

end Mailbox

/-! ### What is posted and what is reported -/

/-- A drain that has returned: the posts that were complete at its first load, the changes it
returned and the size of its buffer. -/
structure Return where
  began : ℕ
  count : ℕ
  maxOut : ℕ
deriving DecidableEq, Repr

/-- The mailbox and its history. -/
structure World where
  box : Mailbox := {}
  /-- The posts that have begun, oldest first. -/
  posts : List Change := []
  /-- The stores of sequence numbers and of the generation. -/
  stored : ℕ := 0
  completed : ℕ := 0
  /-- The complete posts at the first load of the last complete scan, and of the drain in
  progress. -/
  scanned : ℕ := 0
  began : ℕ := 0
  /-- The number of posts the shadow of a slot stands for. -/
  seen : Slot → ℕ := fun _ => 0
  /-- The changes reported, oldest first. -/
  reports : List Change := []
  returns : List Return := []

/-- The levels of the changes of one slot. -/
def levels (slot : Slot) (changes : List Change) : List UInt32 :=
  (changes.filter (·.slot = slot)).map (·.level)

/-- The last level of a slot; lines start low. -/
def lastLevel (slot : Slot) (changes : List Change) : UInt32 := (levels slot changes).getLastD 0

namespace World

/-- The history after an event that took the mailbox to `box`. -/
def after (w : World) (e : Event) (box : Mailbox) : World :=
  let w' := { w with box, reports := w.reports ++ w.box.report e }
  match e with
  | .post vcpu line level => { w' with posts := w.posts ++ [⟨(vcpu, line), level⟩] }
  | .storeSeq => { w' with stored := w.stored + 1 }
  | .storeGeneration => { w' with completed := w.completed + 1 }
  | .drain maxOut =>
    if w.box.irqGeneration = w.box.irqGen then
      { w' with returns := w.returns ++ [⟨w.completed, 0, maxOut⟩] }
    else { w' with began := w.completed }
  | .load =>
    match w.box.drain with
    | .idle => w'
    | .scan _ n maxOut [] =>
      { w' with scanned := w.began, returns := w.returns ++ [⟨w.began, n, maxOut⟩] }
    | .scan _ _ _ (slot :: _) =>
      if w.box.seq slot = w.box.irqSeq slot then w'
      else { w' with
        seen := Function.update w.seen slot (levels slot (w.posts.take w.stored)).length }
    | .level _ n maxOut _ _ =>
      if n + 1 = maxOut then { w' with returns := w.returns ++ [⟨w.began, n + 1, maxOut⟩] } else w'

/-- Fewer than `2 ^ 32` posts were in progress or began since the first load of the last complete
scan. -/
def InDomain (w : World) : Prop := w.posts.length < w.scanned + 2 ^ 32

/-- The worlds that interleavings of posts and drains reach. -/
inductive Reachable (slots : List Slot) : World → Prop
  | start : Reachable slots {}
  | step {w : World} {box : Mailbox} (e : Event) : Reachable slots w →
      w.box.step slots e = some box → (w.after e box).InDomain → Reachable slots (w.after e box)

end World

/-! ### Counting posts -/

variable {slot : Slot} {changes : List Change} {a b : ℕ}

/-- The levels of two parts are those of the whole. -/
@[simp] theorem levels_append (slot : Slot) (xs ys : List Change) :
    levels slot (xs ++ ys) = levels slot xs ++ levels slot ys := by
  simp [levels]

/-- A change is seen in its own slot. -/
theorem levels_singleton (slot : Slot) (c : Change) :
    levels slot [c] = if c.slot = slot then [c.level] else [] := by
  by_cases h : c.slot = slot <;> simp [levels, h]

/-- A longer prefix has no fewer levels. -/
theorem levels_take_le (h : a ≤ b) :
    (levels slot (changes.take a)).length ≤ (levels slot (changes.take b)).length := by
  obtain ⟨n, rfl⟩ := Nat.exists_eq_add_of_le h
  rw [List.take_add, levels_append, List.length_append]
  exact Nat.le_add_right _ _

/-- A slot has at most as many new posts as there are. -/
theorem levels_take_add (h : a ≤ b) : (levels slot (changes.take b)).length ≤
    (levels slot (changes.take a)).length + (b - a) := by
  obtain ⟨n, rfl⟩ := Nat.exists_eq_add_of_le h
  rw [List.take_add, levels_append, List.length_append, Nat.add_sub_cancel_left]
  refine Nat.add_le_add_left ?_ _
  calc (levels slot ((changes.drop a).take n)).length
      ≤ ((changes.drop a).take n).length := by
        rw [levels, List.length_map]
        exact List.length_filter_le _ _
    _ ≤ n := List.length_take_le _ _

/-- The level after the first `m` posts of a slot. -/
def levelAfter (slot : Slot) (changes : List Change) (m : ℕ) : UInt32 :=
  (0 :: levels slot changes).getD m 0

/-- After all its changes a slot has its last level. -/
theorem levelAfter_length (slot : Slot) (changes : List Change) :
    levelAfter slot changes (levels slot changes).length = lastLevel slot changes := by
  unfold levelAfter lastLevel
  generalize levels slot changes = l
  induction l using List.reverseRecOn with
  | nil => rfl
  | append_singleton l x _ => simp

/-- Later posts do not change the level after the first ones. -/
theorem levelAfter_append (slot : Slot) (xs ys : List Change) {m : ℕ}
    (hm : m ≤ (levels slot xs).length) : levelAfter slot (xs ++ ys) m = levelAfter slot xs m := by
  unfold levelAfter
  rw [levels_append, ← List.cons_append, List.getD_append]
  rw [List.length_cons]
  omega

/-- 32-bit counters that are close are equal only if the counts are. -/
theorem ofNat_inj_of_close (hab : a ≤ b) (hclose : b < a + 2 ^ 32)
    (h : UInt32.ofNat a = UInt32.ofNat b) : a = b := by
  have hmod : a % 2 ^ 32 = b % 2 ^ 32 := by
    simpa using congrArg UInt32.toNat h
  obtain ⟨n, rfl⟩ := Nat.exists_eq_add_of_le hab
  omega

/-- The generation counts up, modulo `2 ^ 32`. -/
theorem ofNat_succ (n : ℕ) : UInt32.ofNat n + 1 = UInt32.ofNat (n + 1) := by
  rw [UInt32.ofNat_add]
  rfl

/-! ### The invariant -/

/-- The drain is in a scan with these slots to do. -/
def Drain.InScan (d : Drain) (gen : UInt32) (n maxOut : ℕ) (todo : List Slot) : Prop :=
  d = .scan gen n maxOut todo ∨ ∃ slot, d = .level gen n maxOut slot todo

/-- The slot whose level is about to be loaded. -/
def Drain.pending : Drain → Option Slot
  | .level _ _ _ slot _ => some slot
  | _ => none

namespace World

/-- Where the writer stands in its post. -/
def WriterOk (w : World) : Prop :=
  match w.box.writer with
  | .idle => w.stored = w.posts.length ∧ w.completed = w.posts.length
  | .levelStored slot => ∃ before level, w.posts = before ++ [⟨slot, level⟩] ∧
      w.stored = before.length ∧ w.completed = before.length
  | .seqStored => w.stored = w.posts.length ∧ w.completed + 1 = w.posts.length

/-- A drain in progress has brought the shadows of the slots behind it up to its first load. -/
structure Scanning (w : World) (slots : List Slot) (gen : UInt32) (n maxOut : ℕ)
    (todo : List Slot) : Prop where
  gen : gen = UInt32.ofNat w.began
  moved : w.scanned < w.began
  began_le : w.began ≤ w.completed
  room : n < maxOut
  within : ∀ s ∈ todo, s ∈ slots
  covered : ∀ s ∈ slots, s ∉ todo → (levels s (w.posts.take w.began)).length ≤ w.seen s

/-- Where the drain stands. -/
def DrainOk (w : World) (slots : List Slot) : Prop :=
  ∀ gen n maxOut todo, w.box.drain.InScan gen n maxOut todo → w.Scanning slots gen n maxOut todo

/-- Shared memory, shadows and reports in terms of the posts. -/
structure Inv (w : World) (slots : List Slot) : Prop where
  writer : w.WriterOk
  level : ∀ s, w.box.level s = lastLevel s w.posts
  seq : ∀ s, w.box.seq s = UInt32.ofNat (levels s (w.posts.take w.stored)).length
  generation : w.box.irqGeneration = UInt32.ofNat w.completed
  irqGen : w.box.irqGen = UInt32.ofNat w.scanned
  irqSeq : ∀ s, w.box.irqSeq s = UInt32.ofNat (w.seen s)
  seen_le : ∀ s, w.seen s ≤ (levels s (w.posts.take w.stored)).length
  scanned_le : w.scanned ≤ w.completed
  seen_ge : ∀ s ∈ slots, (levels s (w.posts.take w.scanned)).length ≤ w.seen s
  drain : w.DrainOk slots
  /-- The reported level is the one of a post that is not older than the shadow. -/
  reported : ∀ s ∈ slots, w.box.drain.pending ≠ some s →
    ∃ m, w.seen s ≤ m ∧ m ≤ (levels s w.posts).length ∧
      lastLevel s w.reports = levelAfter s w.posts m
  /-- A drain that did not fill its buffer was complete. -/
  returns : ∀ r ∈ w.returns, r.count < r.maxOut → r.began ≤ w.scanned
  domain : w.InDomain

variable {w : World} {slots : List Slot} {box : Mailbox}

/-- The bounds of a scan stay while more is completed. -/
theorem Scanning.congr {w' : World} {gen : UInt32} {n maxOut : ℕ} {todo : List Slot}
    (h : w.Scanning slots gen n maxOut todo) (hbegan : w'.began = w.began)
    (hscanned : w'.scanned = w.scanned) (hcompleted : w.completed ≤ w'.completed)
    (hposts : w'.posts = w.posts) (hseen : w'.seen = w.seen) :
    w'.Scanning slots gen n maxOut todo := by
  refine ⟨hbegan ▸ h.gen, ?_, ?_, h.room, h.within, ?_⟩
  · rw [hbegan, hscanned]
    exact h.moved
  · rw [hbegan]
    exact Nat.le_trans h.began_le hcompleted
  · rw [hbegan, hposts, hseen]
    exact h.covered

/-- At most one post is under way. -/
theorem WriterOk.counts (h : w.WriterOk) :
    w.completed ≤ w.stored ∧ w.stored ≤ w.posts.length ∧ w.posts.length ≤ w.completed + 1 := by
  rw [WriterOk] at h
  cases hw : w.box.writer with
  | idle =>
      rw [hw] at h
      dsimp only at h
      omega
  | levelStored slot =>
      rw [hw] at h
      obtain ⟨before, level, hposts, hs, hc⟩ := h
      rw [hposts, List.length_append, List.length_singleton]
      omega
  | seqStored =>
      rw [hw] at h
      dsimp only at h
      omega

/-- A slot whose number equals its shadow has no new post. -/
theorem Inv.seen_eq (h : w.Inv slots) {s : Slot} (hs : s ∈ slots)
    (heq : w.box.seq s = w.box.irqSeq s) :
    w.seen s = (levels s (w.posts.take w.stored)).length := by
  rw [h.seq, h.irqSeq] at heq
  obtain ⟨hc, hst, -⟩ := h.writer.counts
  have hle := h.scanned_le
  have hge := h.seen_ge s hs
  have hadd : (levels s (w.posts.take w.stored)).length ≤
      (levels s (w.posts.take w.scanned)).length + (w.stored - w.scanned) :=
    levels_take_add (Nat.le_trans hle hc)
  have hdom : w.posts.length < w.scanned + 2 ^ 32 := h.domain
  exact ofNat_inj_of_close (h.seen_le s) (by omega) heq.symm

/-- An unmoved generation has no new complete post. -/
theorem Inv.completed_eq (h : w.Inv slots) (heq : w.box.irqGeneration = w.box.irqGen) :
    w.completed = w.scanned := by
  rw [h.generation, h.irqGen] at heq
  obtain ⟨hc, hst, -⟩ := h.writer.counts
  have hdom : w.posts.length < w.scanned + 2 ^ 32 := h.domain
  exact (ofNat_inj_of_close h.scanned_le (by omega) heq.symm).symm

/-! ### Stores of the simulator -/

/-- A new post does not change what is known of the old ones. -/
theorem take_append_post {n : ℕ} (posts : List Change) (c : Change) (hn : n ≤ posts.length) :
    (posts ++ [c]).take n = posts.take n := List.take_append_of_le_length hn

/-- A post begins with the store of its level. -/
theorem Inv.post (h : w.Inv slots) {vcpu line : ℕ} {level : UInt32}
    (hstep : w.box.step slots (.post vcpu line level) = some box)
    (hdom : (w.after (.post vcpu line level) box).InDomain) :
    (w.after (.post vcpu line level) box).Inv slots := by
  simp only [Mailbox.step] at hstep
  split_ifs at hstep with hcond
  cases hstep
  obtain ⟨hc, hst, -⟩ := h.writer.counts
  have hidle := h.writer
  rw [WriterOk, hcond.1] at hidle
  obtain ⟨hstored, hcompleted⟩ := hidle
  have htake {n : ℕ} (hn : n ≤ w.posts.length) (s : Slot) :
      levels s (w.posts.take n) =
        levels s ((w.posts ++ [(⟨(vcpu, line), level⟩ : Change)]).take n) := by
    rw [take_append_post _ _ hn]
  have hscanned : w.scanned ≤ w.posts.length := by
    have := h.scanned_le
    omega
  refine
    { writer := ⟨w.posts, level, rfl, hstored, hcompleted⟩
      level := ?_
      seq := fun s => (h.seq s).trans (by rw [htake hst]; rfl)
      generation := h.generation
      irqGen := h.irqGen
      irqSeq := h.irqSeq
      seen_le := fun s => (htake hst s) ▸ h.seen_le s
      scanned_le := h.scanned_le
      seen_ge := fun s hs => (htake hscanned s) ▸ h.seen_ge s hs
      drain := ?_
      reported := ?_
      returns := h.returns
      domain := hdom }
  · intro s
    show Function.update w.box.level (vcpu, line) level s =
      lastLevel s (w.posts ++ [(⟨(vcpu, line), level⟩ : Change)])
    rw [lastLevel, levels_append, levels_singleton]
    by_cases hs : (vcpu, line) = s
    · rw [if_pos hs, List.getLastD_concat, ← hs, Function.update_self]
    · rw [if_neg hs, List.append_nil, Function.update_of_ne (Ne.symm hs), h.level]
      rfl
  · intro gen n maxOut todo hin
    have hsc := h.drain gen n maxOut todo hin
    have hb : w.began ≤ w.posts.length := by
      have := hsc.began_le
      omega
    exact ⟨hsc.gen, hsc.moved, hsc.began_le, hsc.room, hsc.within,
      fun s hs hnot => (htake hb s) ▸ hsc.covered s hs hnot⟩
  · intro s hs hpend
    obtain ⟨m, hm, hle, hrep⟩ := h.reported s hs hpend
    refine ⟨m, hm, ?_, ?_⟩
    · show m ≤ (levels s (w.posts ++ [_])).length
      rw [levels_append, List.length_append]
      omega
    · show lastLevel s (w.reports ++ []) = levelAfter s (w.posts ++ [_]) m
      rw [List.append_nil, levelAfter_append _ _ _ hle]
      exact hrep

/-- Its sequence number is stored. -/
theorem Inv.storeSeq (h : w.Inv slots) (hstep : w.box.step slots .storeSeq = some box) :
    (w.after .storeSeq box).Inv slots := by
  simp only [Mailbox.step] at hstep
  split at hstep
  case h_2 => cases hstep
  rename_i slot hwriter
  cases hstep
  have hw := h.writer
  rw [WriterOk, hwriter] at hw
  obtain ⟨before, level, hposts, hstored, hcompleted⟩ := hw
  have hlen : w.posts.length = w.stored + 1 := by
    rw [hposts, List.length_append, List.length_singleton, hstored]
  have hall : w.posts.take (w.stored + 1) = w.posts := by
    rw [← hlen, List.take_length]
  have hold : w.posts.take w.stored = before := by
    rw [hposts, hstored, List.take_left]
  have hgrow (s : Slot) : levels s (w.posts.take (w.stored + 1)) =
      levels s (w.posts.take w.stored) ++ (if slot = s then [level] else []) := by
    rw [hall, hold, hposts, levels_append, levels_singleton]
  refine
    { writer := ⟨hlen.symm, (congrArg (· + 1) (hcompleted.trans hstored.symm)).trans hlen.symm⟩
      level := h.level
      seq := ?_
      generation := h.generation
      irqGen := h.irqGen
      irqSeq := h.irqSeq
      seen_le := fun s => Nat.le_trans (h.seen_le s) (levels_take_le (Nat.le_succ _))
      scanned_le := h.scanned_le
      seen_ge := h.seen_ge
      drain := fun gen n maxOut todo hin =>
        (h.drain gen n maxOut todo hin).congr rfl rfl (Nat.le_refl _) rfl rfl
      reported := ?_
      returns := h.returns
      domain := h.domain }
  · intro s
    show Function.update w.box.seq slot (w.box.seq slot + 1) s =
      UInt32.ofNat (levels s (w.posts.take (w.stored + 1))).length
    rw [hgrow, List.length_append]
    by_cases hs : slot = s
    · subst hs
      rw [Function.update_self, h.seq, if_pos rfl, ofNat_succ]
      rfl
    · rw [Function.update_of_ne (Ne.symm hs), if_neg hs, h.seq]
      rfl
  · intro s hs hpend
    show ∃ m, _ ∧ _ ∧ lastLevel s (w.reports ++ []) = _
    rw [List.append_nil]
    exact h.reported s hs hpend

/-- The generation is stored, and the post is complete. -/
theorem Inv.storeGeneration (h : w.Inv slots)
    (hstep : w.box.step slots .storeGeneration = some box) :
    (w.after .storeGeneration box).Inv slots := by
  simp only [Mailbox.step] at hstep
  split at hstep
  case h_2 => cases hstep
  rename_i hwriter
  cases hstep
  have hw := h.writer
  rw [WriterOk, hwriter] at hw
  refine
    { writer := ⟨hw.1, hw.2⟩
      level := h.level
      seq := h.seq
      generation := ?_
      irqGen := h.irqGen
      irqSeq := h.irqSeq
      seen_le := h.seen_le
      scanned_le := Nat.le_succ_of_le h.scanned_le
      seen_ge := h.seen_ge
      drain := fun gen n maxOut todo hin =>
        (h.drain gen n maxOut todo hin).congr rfl rfl (Nat.le_succ _) rfl rfl
      reported := ?_
      returns := h.returns
      domain := h.domain }
  · show w.box.irqGeneration + 1 = UInt32.ofNat (w.completed + 1)
    rw [h.generation, ofNat_succ]
  · intro s hs hpend
    show ∃ m, _ ∧ _ ∧ lastLevel s (w.reports ++ []) = _
    rw [List.append_nil]
    exact h.reported s hs hpend

/-! ### Loads of the drain -/

/-- A drain begins. It returns at once if no post has completed since the last complete scan. -/
theorem Inv.drainStart (h : w.Inv slots) {maxOut : ℕ}
    (hstep : w.box.step slots (.drain maxOut) = some box) :
    (w.after (.drain maxOut) box).Inv slots := by
  simp only [Mailbox.step] at hstep
  split_ifs at hstep with hcond hgen
  · cases hstep
    have hafter : w.after (.drain maxOut) w.box =
        { w with returns := w.returns ++ [⟨w.completed, 0, maxOut⟩] } := by
      simp only [after, if_pos hgen, Mailbox.report, List.append_nil]
    rw [hafter]
    refine { h with
      drain := fun gen n maxOut todo hin =>
        (h.drain gen n maxOut todo hin).congr rfl rfl (Nat.le_refl _) rfl rfl
      returns := ?_ }
    intro r hr hcount
    rcases List.mem_append.mp hr with hr | hr
    · exact h.returns r hr hcount
    · rw [List.mem_singleton.mp hr]
      exact Nat.le_of_eq (h.completed_eq hgen)
  · cases hstep
    have hafter : w.after (.drain maxOut)
        { w.box with drain := .scan w.box.irqGeneration 0 maxOut slots } =
        { w with
          began := w.completed
          box := { w.box with drain := .scan w.box.irqGeneration 0 maxOut slots } } := by
      simp only [after, if_neg hgen, Mailbox.report, List.append_nil]
    rw [hafter]
    have hmoved : w.scanned < w.completed := by
      refine Nat.lt_of_le_of_ne h.scanned_le fun heq => hgen ?_
      rw [h.generation, h.irqGen, heq]
    refine { h with drain := ?_, reported := ?_ }
    · rintro gen n m todo (hin | ⟨slot, hin⟩)
      · cases hin
        exact ⟨h.generation, hmoved, Nat.le_refl _, hcond.2, fun _ hs => hs,
          fun s hs hnot => absurd hs hnot⟩
      · cases hin
    · intro s hs _
      refine h.reported s hs ?_
      rw [hcond.1]
      nofun

/-- The next slot of a scan. -/
theorem Inv.loadSeq (h : w.Inv slots) {gen : UInt32} {n maxOut : ℕ} {slot : Slot}
    {todo : List Slot} (hd : w.box.drain = .scan gen n maxOut (slot :: todo))
    (hstep : w.box.step slots .load = some box) : (w.after .load box).Inv slots := by
  have hsc := h.drain gen n maxOut (slot :: todo) (.inl hd)
  have hslot : slot ∈ slots := hsc.within slot List.mem_cons_self
  obtain ⟨hc, hst, -⟩ := h.writer.counts
  have hbegan : w.began ≤ w.stored := Nat.le_trans hsc.began_le hc
  simp only [Mailbox.step, hd] at hstep
  split_ifs at hstep with heq
  · cases hstep
    have hafter : w.after .load { w.box with drain := .scan gen n maxOut todo } =
        { w with box := { w.box with drain := .scan gen n maxOut todo } } := by
      simp only [after, hd, if_pos heq, Mailbox.report, List.append_nil]
    rw [hafter]
    refine { h with drain := ?_, reported := ?_ }
    · rintro gen' n' m' todo' (hin | ⟨slot', hin⟩)
      · cases hin
        refine ⟨hsc.gen, hsc.moved, hsc.began_le, hsc.room,
          fun s hs => hsc.within s (List.mem_cons_of_mem _ hs), fun s hs hnot => ?_⟩
        by_cases hhere : s = slot
        · subst hhere
          rw [show World.seen _ s = w.seen s from rfl, h.seen_eq hslot heq]
          exact levels_take_le hbegan
        · exact hsc.covered s hs fun hmem => (List.mem_cons.mp hmem).elim hhere hnot
      · cases hin
    · intro s hs _
      refine h.reported s hs ?_
      rw [hd]
      nofun
  · cases hstep
    set seen' := Function.update w.seen slot (levels slot (w.posts.take w.stored)).length
      with hseen'
    set box' : Mailbox := { w.box with
      irqSeq := Function.update w.box.irqSeq slot (w.box.seq slot)
      drain := .level gen n maxOut slot todo } with hbox'
    have hafter : w.after .load box' = { w with seen := seen', box := box' } := by
      simp only [after, hd, if_neg heq, Mailbox.report, List.append_nil, hseen']
    rw [hafter]
    have hgrow (s : Slot) : w.seen s ≤ seen' s := by
      by_cases hs : s = slot
      · subst hs
        rw [hseen', Function.update_self]
        exact h.seen_le s
      · exact Nat.le_of_eq (by rw [hseen', Function.update_of_ne hs])
    refine { h with irqSeq := ?_, seen_le := ?_, seen_ge := ?_, drain := ?_, reported := ?_ }
    · intro s
      show Function.update w.box.irqSeq slot (w.box.seq slot) s = UInt32.ofNat (seen' s)
      by_cases hs : s = slot
      · subst hs
        rw [Function.update_self, hseen', Function.update_self, h.seq]
      · rw [Function.update_of_ne hs, hseen', Function.update_of_ne hs, h.irqSeq]
    · intro s
      show seen' s ≤ _
      by_cases hs : s = slot
      · subst hs
        exact Nat.le_of_eq (by rw [hseen', Function.update_self])
      · rw [hseen', Function.update_of_ne hs]
        exact h.seen_le s
    · exact fun s hs => Nat.le_trans (h.seen_ge s hs) (hgrow s)
    · rintro gen' n' m' todo' (hin | ⟨slot', hin⟩)
      · cases hin
      · cases hin
        refine ⟨hsc.gen, hsc.moved, hsc.began_le, hsc.room,
          fun s hs => hsc.within s (List.mem_cons_of_mem _ hs), fun s hs hnot => ?_⟩
        show _ ≤ seen' s
        by_cases hhere : s = slot
        · subst hhere
          rw [hseen', Function.update_self]
          exact levels_take_le hbegan
        · exact Nat.le_trans
            (hsc.covered s hs fun hmem => (List.mem_cons.mp hmem).elim hhere hnot) (hgrow s)
    · intro s hs hpend
      have hne : s ≠ slot := fun heq => hpend (congrArg some heq.symm)
      show ∃ m, seen' s ≤ m ∧ _ ∧ _
      rw [hseen', Function.update_of_ne hne]
      refine h.reported s hs ?_
      rw [hd]
      nofun

/-- The level of a changed slot. -/
theorem Inv.loadLevel (h : w.Inv slots) {gen : UInt32} {n maxOut : ℕ} {slot : Slot}
    {todo : List Slot} (hd : w.box.drain = .level gen n maxOut slot todo)
    (hstep : w.box.step slots .load = some box) : (w.after .load box).Inv slots := by
  have hsc := h.drain gen n maxOut todo (.inr ⟨slot, hd⟩)
  obtain ⟨-, hst, -⟩ := h.writer.counts
  have hreported : ∀ s ∈ slots, ∃ m, w.seen s ≤ m ∧ m ≤ (levels s w.posts).length ∧
      lastLevel s (w.reports ++ [⟨slot, w.box.level slot⟩]) = levelAfter s w.posts m := by
    intro s hs
    by_cases hhere : slot = s
    · subst hhere
      refine ⟨(levels slot w.posts).length, ?_, Nat.le_refl _, ?_⟩
      · refine Nat.le_trans (h.seen_le slot) ?_
        have hall : (levels slot (w.posts.take w.stored)).length ≤
            (levels slot (w.posts.take w.posts.length)).length := levels_take_le hst
        rwa [List.take_length] at hall
      · rw [levelAfter_length, lastLevel, levels_append, levels_singleton, if_pos rfl,
          List.getLastD_concat, h.level]
    · have hother : w.box.drain.pending ≠ some s := by
        rw [hd]
        exact fun heq => hhere (Option.some.inj heq)
      obtain ⟨m, hm, hle, hrep⟩ := h.reported s hs hother
      refine ⟨m, hm, hle, ?_⟩
      rw [lastLevel, levels_append, levels_singleton, if_neg hhere, List.append_nil]
      exact hrep
  simp only [Mailbox.step, hd] at hstep
  split_ifs at hstep with hfull
  · cases hstep
    have hafter : w.after .load { w.box with drain := .idle } = { w with
        box := { w.box with drain := .idle }
        reports := w.reports ++ [⟨slot, w.box.level slot⟩]
        returns := w.returns ++ [⟨w.began, n + 1, maxOut⟩] } := by
      simp only [after, hd, if_pos hfull, Mailbox.report]
    rw [hafter]
    refine { h with drain := ?_, reported := fun s hs _ => hreported s hs, returns := ?_ }
    · rintro gen' n' m' todo' (hin | ⟨slot', hin⟩) <;> cases hin
    · intro r hr hcount
      rcases List.mem_append.mp hr with hr | hr
      · exact h.returns r hr hcount
      · rw [List.mem_singleton.mp hr] at hcount
        exact absurd hfull (Nat.ne_of_lt hcount)
  · cases hstep
    have hafter : w.after .load { w.box with drain := .scan gen (n + 1) maxOut todo } = { w with
        box := { w.box with drain := .scan gen (n + 1) maxOut todo }
        reports := w.reports ++ [⟨slot, w.box.level slot⟩] } := by
      simp only [after, hd, if_neg hfull, Mailbox.report]
    rw [hafter]
    refine { h with drain := ?_, reported := fun s hs _ => hreported s hs }
    rintro gen' n' m' todo' (hin | ⟨slot', hin⟩)
    · cases hin
      have hroom := hsc.room
      exact ⟨hsc.gen, hsc.moved, hsc.began_le, by omega, hsc.within, hsc.covered⟩
    · cases hin

/-- The end of a complete scan. -/
theorem Inv.scanEnd (h : w.Inv slots) {gen : UInt32} {n maxOut : ℕ}
    (hd : w.box.drain = .scan gen n maxOut []) (hstep : w.box.step slots .load = some box) :
    (w.after .load box).Inv slots := by
  have hsc := h.drain gen n maxOut [] (.inl hd)
  simp only [Mailbox.step, hd] at hstep
  cases hstep
  have hafter : w.after .load { w.box with irqGen := gen, drain := .idle } = { w with
      box := { w.box with irqGen := gen, drain := .idle }
      scanned := w.began
      returns := w.returns ++ [⟨w.began, n, maxOut⟩] } := by
    simp only [after, hd, Mailbox.report, List.append_nil]
  rw [hafter]
  have hdom : w.posts.length < w.scanned + 2 ^ 32 := h.domain
  refine { h with
    irqGen := hsc.gen
    scanned_le := hsc.began_le
    seen_ge := fun s hs => hsc.covered s hs nofun
    drain := ?_
    reported := ?_
    returns := ?_
    domain := ?_ }
  · rintro gen' n' m' todo' (hin | ⟨slot', hin⟩) <;> cases hin
  · intro s hs _
    refine h.reported s hs ?_
    rw [hd]
    nofun
  · intro r hr hcount
    rcases List.mem_append.mp hr with hr | hr
    · exact Nat.le_trans (h.returns r hr hcount) (Nat.le_of_lt hsc.moved)
    · obtain rfl := List.mem_singleton.mp hr
      exact Nat.le_refl _
  · have hmoved := hsc.moved
    show w.posts.length < w.began + 2 ^ 32
    omega

/-- Every store and every load keeps the invariant. -/
theorem Inv.step (h : w.Inv slots) {e : Event} (hstep : w.box.step slots e = some box)
    (hdom : (w.after e box).InDomain) : (w.after e box).Inv slots := by
  cases e with
  | post vcpu line level => exact h.post hstep hdom
  | storeSeq => exact h.storeSeq hstep
  | storeGeneration => exact h.storeGeneration hstep
  | drain maxOut => exact h.drainStart hstep
  | load =>
      cases hd : w.box.drain with
      | idle =>
          simp only [Mailbox.step, hd] at hstep
          cases hstep
      | scan gen n maxOut todo =>
          cases todo with
          | nil => exact h.scanEnd hd hstep
          | cons slot todo => exact h.loadSeq hd hstep
      | level gen n maxOut slot todo => exact h.loadLevel hd hstep

/-- In every reachable state, by induction on the run. -/
theorem Reachable.inv (hw : Reachable slots w) : w.Inv slots := by
  induction hw with
  | start =>
      exact
        { writer := ⟨rfl, rfl⟩
          level := fun _ => rfl
          seq := fun _ => rfl
          generation := rfl
          irqGen := rfl
          irqSeq := fun _ => rfl
          seen_le := fun _ => Nat.le_refl _
          scanned_le := Nat.le_refl _
          seen_ge := fun _ _ => Nat.le_refl _
          drain := fun _ _ _ _ hin => by rcases hin with hin | ⟨_, hin⟩ <;> cases hin
          reported := fun _ _ _ => ⟨0, Nat.le_refl _, Nat.le_refl _, rfl⟩
          returns := nofun
          domain := (by decide : 0 < 0 + 2 ^ 32) }
  | step e _ hstep hdom ih => exact ih.step hstep hdom

/-! ### Convergence -/

/-- A generation that has not moved, and no post between its last two stores: no polled slot has a
new post. -/
theorem Inv.seen_all (h : w.Inv slots) (hgen : w.box.irqGen = w.box.irqGeneration)
    (hwriter : w.box.writer ≠ .seqStored) {s : Slot} (hs : s ∈ slots) :
    w.seen s = (levels s (w.posts.take w.stored)).length := by
  have hcompleted := h.completed_eq hgen.symm
  have hstored : w.stored = w.completed := by
    have hw := h.writer
    rw [WriterOk] at hw
    cases hcase : w.box.writer with
    | idle =>
        rw [hcase] at hw
        exact hw.1.trans hw.2.symm
    | levelStored slot =>
        rw [hcase] at hw
        obtain ⟨before, level, -, hst, hc⟩ := hw
        exact hst.trans hc.symm
    | seqStored => exact absurd hcase hwriter
  refine Nat.le_antisymm (h.seen_le s) ?_
  rw [hstored, hcompleted]
  exact h.seen_ge s hs

/-- After a complete drain that began after the last post, the reports are up to date. -/
theorem Inv.reports_eq (h : w.Inv slots) {r : Return} (hr : r ∈ w.returns)
    (hbegan : r.began = w.posts.length) (hcount : r.count < r.maxOut) {s : Slot} (hs : s ∈ slots) :
    lastLevel s w.reports = lastLevel s w.posts := by
  obtain ⟨hc, hst, hone⟩ := h.writer.counts
  have hscanned := h.returns r hr hcount
  have hle := h.scanned_le
  have hidle : w.box.drain.pending ≠ some s := by
    intro hpend
    cases hd : w.box.drain with
    | idle =>
        rw [hd] at hpend
        cases hpend
    | scan gen n maxOut todo =>
        rw [hd] at hpend
        cases hpend
    | level gen n maxOut slot todo =>
        have hsc := h.drain gen n maxOut todo (.inr ⟨slot, hd⟩)
        have hmoved := hsc.moved
        have hb := hsc.began_le
        omega
  obtain ⟨m, hm, hmax, hrep⟩ := h.reported s hs hidle
  have hseen := h.seen_ge s hs
  rw [show w.scanned = w.posts.length by omega, List.take_length] at hseen
  rw [hrep, show m = (levels s w.posts).length by omega, levelAfter_length]

end World

/-! ### The bridge -/

/-- The interrupt lines after `qemu_set_irq` for each change. The bridge wires row 0 only and
stops the machine at a change of another row. -/
def setIrqs : List Change → (ℕ → Bool) → Option (ℕ → Bool)
  | [], irqs => some irqs
  | c :: changes, irqs =>
    if c.slot.1 = 0 then setIrqs changes (Function.update irqs c.slot.2 (c.level != 0)) else none

/-- A line has the level of its last reported change, or the one it had. -/
theorem setIrqs_eq {changes : List Change} {irqs irqs' : ℕ → Bool}
    (h : setIrqs changes irqs = some irqs') (line : ℕ) :
    irqs' line = ((levels (0, line) changes).getLast?.map (· != 0)).getD (irqs line) := by
  induction changes generalizing irqs with
  | nil =>
      cases h
      rfl
  | cons c changes ih =>
      rw [setIrqs] at h
      split_ifs at h with hrow
      have hcons : levels (0, line) (c :: changes) =
          (if c.slot = (0, line) then [c.level] else []) ++ levels (0, line) changes := by
        rw [← levels_singleton, ← levels_append]
        rfl
      rw [ih h, hcons]
      by_cases hline : c.slot.2 = line
      · have hslot : c.slot = (0, line) := Prod.ext hrow hline
        rw [if_pos hslot, ← hline, Function.update_self]
        cases levels (0, c.slot.2) changes using List.reverseRecOn with
        | nil => rfl
        | append_singleton l x =>
            rw [← List.append_assoc, List.getLast?_concat, List.getLast?_concat]
            rfl
      · rw [if_neg fun heq => hline (congrArg Prod.snd heq), List.nil_append,
          Function.update_of_ne (Ne.symm hline)]

/-- The line of the bridge is the last reported level of row 0. -/
theorem setIrqs_lastLevel {changes : List Change} {irqs : ℕ → Bool}
    (h : setIrqs changes (fun _ => false) = some irqs) (line : ℕ) :
    irqs line = (lastLevel (0, line) changes != 0) := by
  rw [setIrqs_eq h, lastLevel, List.getLastD_eq_getLast?]
  cases (levels (0, line) changes).getLast? <;> rfl

/-- The slots a poll looks at. -/
theorem mem_polled {numCores maxLines v l : ℕ} : (v, l) ∈ polled numCores maxLines ↔
    v < min numCores QUETZ_MAX_MMIO_VCORES ∧ l < min maxLines QUETZ_MAX_IRQ_LINES := by
  simp [polled]

/-- Reports and shadows agree with the posts. -/
structure Converged (numCores maxLines : ℕ) (w : World) : Prop where
  /-- No post is in progress, and a drain that began after the last post has not filled its
  buffer (it returned no change, or ended the bridge's loop). -/
  reports : w.box.writer = .idle →
    (∃ r ∈ w.returns, r.began = w.posts.length ∧ r.count < r.maxOut) →
    ∀ v l, v < min numCores QUETZ_MAX_MMIO_VCORES → l < min maxLines QUETZ_MAX_IRQ_LINES →
      lastLevel (v, l) w.reports = lastLevel (v, l) w.posts
  /-- A drain that skips the matrix loses nothing. -/
  skip : w.box.irqGen = w.box.irqGeneration → w.box.writer ≠ .seqStored →
    ∀ v l, v < min numCores QUETZ_MAX_MMIO_VCORES → l < min maxLines QUETZ_MAX_IRQ_LINES →
      w.box.irqSeq (v, l) = w.box.seq (v, l)
  /-- The lines of the bridge are the posted levels. -/
  bridge : w.box.writer = .idle →
    (∃ r ∈ w.returns, r.began = w.posts.length ∧ r.count < r.maxOut) →
    ∀ irqs, setIrqs w.reports (fun _ => false) = some irqs →
    0 < numCores → ∀ l < min maxLines QUETZ_MAX_IRQ_LINES,
      irqs l = (lastLevel (0, l) w.posts != 0)

/-- **The interrupt mailbox converges to the posted levels**, in every interleaving of the stores
of posts and the loads of drains. -/
theorem drains_converge {numCores maxLines : ℕ} {w : World}
    (hw : World.Reachable (polled numCores maxLines) w) : Converged numCores maxLines w := by
  have hinv := hw.inv
  have hreports : (∃ r ∈ w.returns, r.began = w.posts.length ∧ r.count < r.maxOut) →
      ∀ v l, v < min numCores QUETZ_MAX_MMIO_VCORES → l < min maxLines QUETZ_MAX_IRQ_LINES →
      lastLevel (v, l) w.reports = lastLevel (v, l) w.posts := by
    rintro ⟨r, hr, hbegan, hcount⟩ v l hv hl
    exact hinv.reports_eq hr hbegan hcount (mem_polled.mpr ⟨hv, hl⟩)
  refine ⟨fun _ => hreports, fun hgen hwriter v l hv hl => ?_,
    fun _ hcomplete irqs hirqs hcores l hl => ?_⟩
  · rw [hinv.irqSeq, hinv.seq, hinv.seen_all hgen hwriter (mem_polled.mpr ⟨hv, hl⟩)]
  · rw [setIrqs_lastLevel hirqs, hreports hcomplete 0 l ?_ hl]
    rw [QUETZ_MAX_MMIO_VCORES]
    omega

/-! ### A post in the middle of a drain -/

/-- The world after the events, if the programs allow them. -/
def World.run (slots : List Slot) : List Event → World → Option World
  | [], w => some w
  | e :: es, w =>
    match w.box.step slots e with
    | none => none
    | some box =>
      if (w.after e box).posts.length < (w.after e box).scanned + 2 ^ 32 then
        World.run slots es (w.after e box)
      else none

/-- What `run` computes is reachable. -/
theorem World.Reachable.run {slots : List Slot} {es : List Event} {w w' : World}
    (hw : World.Reachable slots w) (hrun : w.run slots es = some w') :
    World.Reachable slots w' := by
  induction es generalizing w with
  | nil =>
      cases hrun
      exact hw
  | cons e es ih =>
      rw [World.run] at hrun
      cases hstep : w.box.step slots e with
      | none =>
          rw [hstep] at hrun
          cases hrun
      | some box =>
          simp only [hstep] at hrun
          split_ifs at hrun with hdom
          exact ih (hw.step e hstep hdom) hrun

/-- A line goes up; while the drain is between the two loads of its slot the line goes down. The
second drain finds the number moved once more. -/
def crossingRun : List Event :=
  [.post 0 1 1, .storeSeq, .storeGeneration, .drain 4, .load, .load, .post 0 1 0, .load, .storeSeq,
    .storeGeneration, .load, .drain 4, .load, .load, .load, .load]

/-- The level was reported before its number; the reports end at the posted level. -/
theorem drains_converge_crossing : ∃ w, World.Reachable (polled 1 2) w ∧ Converged 1 2 w ∧
    w.reports = [⟨(0, 1), 0⟩, ⟨(0, 1), 0⟩] ∧ w.returns = [⟨1, 1, 4⟩, ⟨2, 1, 4⟩] := by
  have hfin : (World.run (polled 1 2) crossingRun {}).any (fun w =>
      decide (w.reports = [⟨(0, 1), 0⟩, ⟨(0, 1), 0⟩] ∧
        w.returns = [⟨1, 1, 4⟩, ⟨2, 1, 4⟩])) = true := by
    decide +kernel
  obtain ⟨w, hrun, hfin⟩ := (Option.any_eq_true _ _).mp hfin
  have hreach := World.Reachable.start.run hrun
  exact ⟨w, hreach, drains_converge hreach, of_decide_eq_true hfin⟩

end Quetz.IrqMailbox
