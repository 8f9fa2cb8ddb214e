import Mathlib.Data.List.Induction
import Quetz.CacheInvariant

/-!
# Dirty Lines of the Window Data Cache

The public interface of a cache is the type `Call`, and `Client.step` is one call on it: a
call that throws leaves the cache as it was. A client also remembers the last action `next`
handed out, which the cache itself does not keep.

A valid dirty line can stop being one in three ways only: its write-back is acknowledged, a
`DCINVA` control write discards it, or a write-through hit on it is acknowledged. In the first
case the request the client last saw carried the line's current bytes to the line's address.

## Main results

* `Client.Ok.step` / `ok_after`: the invariant of a cache and its last action over all calls.
* `dirty_lost_only_by`: how a dirty line is lost, in every reachable state.
-/

namespace Quetz.WindowDataCache

/-! ### The public interface -/

/-- A public call. -/
inductive Call where
  | access (address size : ℕ) (write : Bool) (bytes : List UInt8)
  | movec (reg : ℕ) (value : BitVec 32)
  | push (instruction : BitVec 16) (operand : BitVec 32)
  | next
  | complete (bytes : List UInt8)
  | reset
  | addRegion (base size : ℕ)
  | configure (base size : ℕ)
deriving DecidableEq, Repr

/-- A cache together with the last action it handed out. -/
structure Client where
  cache : WindowDataCache := {}
  last : Option Action := none

/-- The outcome of a call: the client after it, or the exception it throws. -/
def Client.call (k : Client) : Call → Except Exn Client
  | .access a n w bs => (k.cache.access a n w bs).map fun c => { k with cache := c }
  | .movec r v => (k.cache.movec r v).map fun c => { k with cache := c }
  | .push i o => (k.cache.push i o).map fun c => { k with cache := c }
  | .next => k.cache.next.map fun (c, a) => ⟨c, some a⟩
  | .complete bs => (k.cache.complete bs).map fun c => { k with cache := c }
  | .reset => k.cache.reset.map fun c => { k with cache := c }
  | .addRegion b n => (k.cache.addRegion b n).map fun c => { k with cache := c }
  | .configure b n => (k.cache.configure b n).map fun c => { k with cache := c }

/-- One public step; an exception leaves the client unchanged. -/
def Client.step (k : Client) (call : Call) : Client := (k.call call).toOption.getD k

/-- The client after a sequence of calls on a fresh cache. -/
def after (calls : List Call) : Client := calls.foldl Client.step {}

/-- The slot holds a valid dirty line with that tag. -/
def HoldsDirty (c : WindowDataCache) (s : Slot) (a : ℕ) : Prop :=
  (c.lines s).valid = true ∧ (c.lines s).dirty = true ∧ (c.lines s).address = a

instance (c : WindowDataCache) (s : Slot) (a : ℕ) : Decidable (HoldsDirty c s a) :=
  inferInstanceAs (Decidable (_ ∧ _))

/-- Every dirty line of `c` is still there in `d`. -/
def KeepsDirty (c d : WindowDataCache) : Prop := ∀ s a, HoldsDirty c s a → HoldsDirty d s a

/-! ### What one call does to the dirty lines -/

variable {c : WindowDataCache}

theorem KeepsDirty.of_lines {c d : WindowDataCache} (h : d.lines = c.lines) :
    KeepsDirty c d := by
  intro s a hs
  simpa only [HoldsDirty, h] using hs

/-- Replacing one line keeps the dirty lines when it keeps that one. -/
theorem KeepsDirty.of_update {c d : WindowDataCache} {s : Slot} {line : Line}
    (h : d.lines = Function.update c.lines s line)
    (hs : (c.lines s).valid = true → (c.lines s).dirty = true →
      line.valid = true ∧ line.dirty = true ∧ line.address = (c.lines s).address) :
    KeepsDirty c d := by
  rintro t a ⟨hv, hd, ha⟩
  by_cases hts : t = s
  · subst hts
    obtain ⟨hv', hd', ha'⟩ := hs hv hd
    simp [HoldsDirty, h, hv', hd', ha', ha]
  · simp [HoldsDirty, h, Function.update_of_ne hts, hv, hd, ha]

/-- Replacing one line loses at most the dirty line of that slot. -/
theorem lost_update {c d : WindowDataCache} {s t : Slot} {line : Line} {a : ℕ}
    (h : d.lines = Function.update c.lines s line) (hb : HoldsDirty c t a)
    (hl : ¬HoldsDirty d t a) : t = s := by
  by_contra hts
  apply hl
  simpa only [HoldsDirty, h, Function.update_of_ne hts] using hb

/-- One pass of the access loop keeps every dirty line. -/
theorem Pass.keepsDirty {r : (WindowDataCache × Action) ⊕ WindowDataCache} (h : Pass c r) :
    KeepsDirty c (r.elim Prod.fst id) := by
  cases h with
  | bypassWrite => exact .of_lines rfl
  | bypassRead => exact .of_lines rfl
  | evict => exact .of_lines rfl
  | fill => exact .of_lines rfl
  | writeThrough slot => exact .of_update rfl fun hv hd => ⟨hv, hd, rfl⟩
  | writeHit slot => exact .of_update rfl fun hv hd => ⟨hv, rfl, rfl⟩
  | readHit => exact .of_lines rfl

/-- A pass that asks for an eviction hands out the victim's address and bytes. -/
theorem Pass.evict_action {d : WindowDataCache} {a : Action} (h : Pass c (.inl (d, a)))
    (hp : d.pending = .evict) :
    a = ⟨.write, (d.lines d.pendingSlot).address, 16,
      List.ofFn (d.lines d.pendingSlot).bytes⟩ := by
  cases h with
  | evict => rfl
  | bypassWrite => cases hp
  | bypassRead => cases hp
  | fill => cases hp
  | writeThrough => cases hp

/-- A pass counts no discard. -/
theorem Pass.discards {r : (WindowDataCache × Action) ⊕ WindowDataCache} (h : Pass c r) :
    (r.elim Prod.fst id).dirtyDiscards = c.dirtyDiscards := by
  cases h <;> rfl

/-- A pass never asks for a push. -/
theorem Pass.pending_ne_push {d : WindowDataCache} {a : Action} (h : Pass c (.inl (d, a))) :
    d.pending ≠ .push := by
  cases h <;> simp

/-- A request to write a whole line back carries the line's address and bytes. -/
def WritesBack (c : WindowDataCache) (a : Action) : Prop :=
  c.pending = .evict ∨ c.pending = .push →
    a = ⟨.write, (c.lines c.pendingSlot).address, 16,
      List.ofFn (c.lines c.pendingSlot).bytes⟩

/-- `next` keeps every dirty line and counts no discard, and a write-back it asks for is of
the line its slot still holds. -/
theorem next_dirty (h : Inv c) {r : WindowDataCache × Action} (hc : c.next = .ok r) :
    KeepsDirty c r.1 ∧ WritesBack r.1 r.2 ∧ r.1.dirtyDiscards = c.dirtyDiscards := by
  obtain ⟨ha, hp, rfl⟩ := next_eq_ok.mp hc
  split
  · next hpush =>
      rw [nextPush]
      dsimp only
      split
      · exact ⟨.of_lines rfl, fun _ => rfl, rfl⟩
      · next hvd =>
          rw [Bool.and_eq_true] at hvd
          refine ⟨?_, fun hpend => ?_, rfl⟩
          · cases hinv : c.invalidatePush with
            | true =>
                exact .of_update (by simp [finish]; rfl) fun hv hd => absurd ⟨hv, hd⟩ hvd
            | false => exact .of_lines (by simp [finish])
          · simp [finish, hp] at hpend
  · next hpush =>
      refine nextAccess_induct
        (P := fun d => Inv d ∧ Looping d ∧ KeepsDirty c d ∧
          d.dirtyDiscards = c.dirtyDiscards)
        (Q := fun r => KeepsDirty c r.1 ∧ WritesBack r.1 r.2 ∧
          r.1.dirtyDiscards = c.dirtyDiscards)
        ?_ ?_ ?_ (c.count - c.offset) c
        ⟨h, ⟨ha, by simpa using hpush, hp⟩, .of_lines rfl, rfl⟩ le_rfl
      · rintro d ⟨-, hld, hk, hn⟩ -
        refine ⟨hk, fun hpend => ?_, hn⟩
        simp [finish, hld.pending] at hpend
      · rintro d ⟨e, a⟩ ⟨-, -, hk, hn⟩ - hr
        refine ⟨fun s b hs => hr.keepsDirty s b (hk s b hs), ?_, hr.discards.trans hn⟩
        rintro (hev | hpsh)
        · exact hr.evict_action hev
        · exact absurd hpsh hr.pending_ne_push
      · rintro d e ⟨hd, hld, hk, hn⟩ ho hr
        obtain ⟨he, hle, hcount, hoff⟩ :=
          (hd.aim hld.pending).pass_hit hld.aim (aimed_aim d) ho hr
        exact ⟨⟨he, hle, fun s b hs => hr.keepsDirty s b (hk s b hs), hr.discards.trans hn⟩,
          hcount, hoff⟩

/-- An accepted answer loses at most the line of the pending slot, and only as the answer to
a write-back or to a write-through hit. -/
theorem complete_dirty (h : Inv c) {bs : List UInt8} {d : WindowDataCache}
    (hc : c.complete bs = .ok d) {s : Slot} {a : ℕ} (hb : HoldsDirty c s a)
    (hl : ¬HoldsDirty d s a) :
    s = c.pendingSlot ∧
      (c.pending = .evict ∨ c.pending = .push ∨ c.pending = .writeThrough) := by
  obtain ⟨-, hcomp⟩ := complete_ok hc
  cases hcomp with
  | fill hp hlen =>
      have hs := lost_update rfl hb hl
      have hpend := h.pendingOk
      simp only [PendingOk, hp] at hpend
      subst hs
      exact absurd ⟨hb.1, hb.2.1⟩ hpend.2.2.2.2.2.1
  | bypassRead => exact absurd hb hl
  | push hp => exact ⟨lost_update rfl hb hl, Or.inr (Or.inl hp)⟩
  | evict hp => exact ⟨lost_update rfl hb hl, Or.inl hp⟩
  | bypassWrite => exact absurd hb hl
  | writeThrough hp => exact ⟨lost_update rfl hb hl, Or.inr (Or.inr hp)⟩

/-- An accepted answer settles the request and counts no discard. -/
theorem complete_settles {bs : List UInt8} {d : WindowDataCache} (hc : c.complete bs = .ok d) :
    d.pending = .none ∧ d.dirtyDiscards = c.dirtyDiscards := by
  obtain ⟨-, hcomp⟩ := complete_ok hc
  cases hcomp <;> exact ⟨rfl, rfl⟩

/-- What a control write does to the lines and to the discard counter. -/
theorem control_dirty (reg : ℕ) (value : BitVec 32) :
    ((c.control reg value).lines = c.lines ∨ (reg = 2 ∧ value &&& DCINVA ≠ 0)) ∧
      (c.control reg value).dirtyDiscards = c.dirtyDiscards +
        (if reg = 2 ∧ value &&& DCINVA ≠ 0 then dirtyCount c.lines else 0) ∧
      (c.control reg value).pending = c.pending := by
  rw [control]
  by_cases hreg : reg = 2
  · by_cases hinv : value &&& DCINVA ≠ 0
    · simp only [if_pos hreg, if_pos hinv, if_pos (And.intro hreg hinv)]
      exact ⟨Or.inr ⟨hreg, hinv⟩, trivial, trivial⟩
    · have hno : ¬(reg = 2 ∧ value &&& DCINVA ≠ 0) := fun h => hinv h.2
      simp only [if_pos hreg, if_neg hinv, if_neg hno]
      exact ⟨Or.inl trivial, rfl, trivial⟩
  · have hno : ¬(reg = 2 ∧ value &&& DCINVA ≠ 0) := fun h => hreg h.1
    simp only [if_neg hreg, if_neg hno]
    exact ⟨Or.inl trivial, rfl, trivial⟩

/-- A step that leaves lines and counter alone and nothing pending. -/
structure Quiet (c d : WindowDataCache) : Prop where
  inv : Inv d
  pending : d.pending = .none
  lines : d.lines = c.lines
  discards : d.dirtyDiscards = c.dirtyDiscards

theorem access_quiet (h : Inv c) {a n : ℕ} {w : Bool} {bs : List UInt8} {d : WindowDataCache}
    (hc : c.access a n w bs = .ok d) : Quiet c d := by
  have hd := h.access hc
  obtain ⟨-, -, -, -, -, rfl⟩ := access_ok hc
  exact ⟨hd, rfl, rfl, rfl⟩

theorem push_quiet (h : Inv c) {i : BitVec 16} {o : BitVec 32} {d : WindowDataCache}
    (hc : c.push i o = .ok d) : Quiet c d := by
  have hd := h.push hc
  obtain ⟨-, -, rfl⟩ := push_eq_ok.mp hc
  have hsel : (c.started.select i o).pending = .none ∧
      (c.started.select i o).lines = c.lines ∧
      (c.started.select i o).dirtyDiscards = c.dirtyDiscards := by
    rw [select]
    split <;> exact ⟨rfl, rfl, rfl⟩
  exact ⟨hd, hsel.1, hsel.2.1, hsel.2.2⟩

theorem reset_quiet (h : Inv c) {d : WindowDataCache} (hc : c.reset = .ok d) : Quiet c d := by
  have hd := h.reset hc
  rw [reset] at hc
  split_ifs at hc with hact
  cases hc
  exact ⟨hd, h.pending_of_idle (by simpa using hact), rfl, rfl⟩

theorem addRegion_quiet (h : Inv c) {b n : ℕ} {d : WindowDataCache}
    (hc : c.addRegion b n = .ok d) : Quiet c d := by
  have hd := h.addRegion hc
  obtain ⟨hidle, rfl⟩ := addRegion_ok hc
  exact ⟨hd, h.pending_of_idle hidle, rfl, rfl⟩

/-! ### The invariant over all calls -/

/-- The cache is consistent, and a pending write-back is the last action handed out. -/
structure Client.Ok (k : Client) : Prop where
  inv : Inv k.cache
  writesBack : k.cache.pending = .evict ∨ k.cache.pending = .push →
    k.last = some ⟨.write, (k.cache.lines k.cache.pendingSlot).address, 16,
      List.ofFn (k.cache.lines k.cache.pendingSlot).bytes⟩

/-- A control write that discards every line. -/
def Call.Invalidates : Call → Prop
  | .movec reg value => reg = 2 ∧ value &&& DCINVA ≠ 0
  | _ => False

instance : DecidablePred Call.Invalidates
  | .movec reg value => inferInstanceAs (Decidable (reg = 2 ∧ value &&& DCINVA ≠ 0))
  | .access .. | .push .. | .next | .complete .. | .reset | .addRegion .. | .configure .. =>
    inferInstanceAs (Decidable False)

/-- The call answers an eviction or a push of the slot, and the request was to write the
slot's current bytes to `a`. -/
def Client.AnswersWriteBack (k : Client) (call : Call) (s : Slot) (a : ℕ) : Prop :=
  (∃ bs, call = .complete bs) ∧ (k.cache.pending = .evict ∨ k.cache.pending = .push) ∧
    k.cache.pendingSlot = s ∧
    k.last = some ⟨.write, a, 16, List.ofFn (k.cache.lines s).bytes⟩

/-- The call answers a write-through hit on the slot. -/
def Client.AnswersWriteThrough (k : Client) (call : Call) (s : Slot) : Prop :=
  (∃ bs, call = .complete bs) ∧ k.cache.pending = .writeThrough ∧ k.cache.pendingSlot = s

/-- What an accepted call does to a consistent client. -/
structure Client.Does (k : Client) (call : Call) (k' : Client) : Prop where
  ok : k'.Ok
  lost : ∀ s a, HoldsDirty k.cache s a → ¬HoldsDirty k'.cache s a →
    k.AnswersWriteBack call s a ∨ call.Invalidates ∨ k.AnswersWriteThrough call s
  discards : k'.cache.dirtyDiscards = k.cache.dirtyDiscards +
    if call.Invalidates then dirtyCount k.cache.lines else 0

theorem Quiet.does {k k' : Client} {call : Call} (h : Quiet k.cache k'.cache)
    (hcall : ¬call.Invalidates) : k.Does call k' where
  ok := ⟨h.inv, fun hp => by simp [h.pending] at hp⟩
  lost s a hb hl := absurd (KeepsDirty.of_lines h.lines s a hb) hl
  discards := by rw [if_neg hcall, h.discards, Nat.add_zero]

/-- A member function that returns a new cache, lifted to the client. -/
theorem map_cache_eq_ok {k k' : Client} {r : Except Exn WindowDataCache}
    (h : (r.map fun c => { k with cache := c }) = .ok k') :
    r = .ok k'.cache ∧ k'.last = k.last := by
  cases r with
  | error e => cases h
  | ok c =>
      cases h
      exact ⟨rfl, rfl⟩

/-- **One step.** Every accepted call on a consistent client. -/
theorem Client.Ok.call {k k' : Client} {call : Call} (h : k.Ok) (hk : k.call call = .ok k') :
    k.Does call k' := by
  cases call with
  | access a n w bs => exact (access_quiet h.inv (map_cache_eq_ok hk).1).does id
  | push i o => exact (push_quiet h.inv (map_cache_eq_ok hk).1).does id
  | reset => exact (reset_quiet h.inv (map_cache_eq_ok hk).1).does id
  | addRegion b n => exact (addRegion_quiet h.inv (map_cache_eq_ok hk).1).does id
  | configure b n => exact (addRegion_quiet h.inv (configure_ok (map_cache_eq_ok hk).1)).does id
  | movec reg value =>
      obtain ⟨hc, -⟩ := map_cache_eq_ok hk
      have hinv := h.inv.movec hc
      obtain ⟨-, -, he⟩ := movec_eq_ok.mp hc
      obtain ⟨hlines, hcount, hpend⟩ := control_dirty (c := k.cache.started) reg value
      rw [← he] at hlines hcount hpend
      refine ⟨⟨hinv, fun hp => ?_⟩, fun s a hb hl => ?_, hcount⟩
      · rw [hpend] at hp
        simp [started] at hp
      · rcases hlines with hlines | hinval
        · exact absurd (KeepsDirty.of_lines hlines s a hb) hl
        · exact Or.inr (Or.inl hinval)
  | next =>
      cases hn : k.cache.next with
      | error e =>
          simp only [Client.call, hn] at hk
          cases hk
      | ok r =>
          simp only [Client.call, hn] at hk
          cases hk
          obtain ⟨hkeep, hwb, hcount⟩ := next_dirty h.inv hn
          refine ⟨⟨h.inv.next hn, fun hp => congrArg some (hwb hp)⟩,
            fun s a hb hl => absurd (hkeep s a hb) hl, ?_⟩
          rw [if_neg (show ¬Call.Invalidates .next from id), Nat.add_zero]
          exact hcount
  | complete bs =>
      obtain ⟨hc, -⟩ := map_cache_eq_ok hk
      obtain ⟨hpend, hcount⟩ := complete_settles hc
      refine ⟨⟨h.inv.complete hc, fun hp => by simp [hpend] at hp⟩, fun s a hb hl => ?_, ?_⟩
      · obtain ⟨hs, hkind⟩ := complete_dirty h.inv hc hb hl
        rw [← or_assoc] at hkind
        rcases hkind with hkind | hwt
        · refine Or.inl ⟨⟨bs, rfl⟩, hkind, hs.symm, ?_⟩
          rw [h.writesBack hkind, ← hs, hb.2.2]
        · exact Or.inr (Or.inr ⟨⟨bs, rfl⟩, hwt, hs.symm⟩)
      · rw [if_neg (show ¬Call.Invalidates (.complete bs) from id), Nat.add_zero]
        exact hcount

/-- A call that throws changes nothing. -/
theorem Client.step_of_error {k : Client} {call : Call} {e : Exn} (h : k.call call = .error e) :
    k.step call = k := by
  simp [Client.step, h, Except.toOption]

theorem Client.step_of_ok {k k' : Client} {call : Call} (h : k.call call = .ok k') :
    k.step call = k' := by
  simp [Client.step, h, Except.toOption]

/-- Every call keeps a consistent client consistent. -/
theorem Client.Ok.step {k : Client} (h : k.Ok) (call : Call) : (k.step call).Ok := by
  cases hk : k.call call with
  | error e => rwa [Client.step_of_error hk]
  | ok k' =>
      rw [Client.step_of_ok hk]
      exact (h.call hk).ok

/-- **Every reachable client is consistent.** -/
theorem ok_after (calls : List Call) : (after calls).Ok := by
  induction calls using List.reverseRecOn with
  | nil => exact ⟨inv_default, fun hp => by simp [after] at hp⟩
  | append_singleton calls call ih =>
      rw [after, List.foldl_append]
      exact ih.step call

/-- **No dirty byte is lost silently.** In every reachable state and for every public call, a
slot that stops holding a valid dirty line with tag `a` does so because its write-back, with
its current bytes and its address, is acknowledged, because of an accepted `DCINVA`, or because
a write-through hit on it is acknowledged. The discard counter grows by the number of valid
dirty lines on every accepted `DCINVA` and on no other call. -/
theorem dirty_lost_only_by (calls : List Call) (call : Call) :
    (∀ s a, HoldsDirty (after calls).cache s a →
      ¬HoldsDirty ((after calls).step call).cache s a →
        (∃ k, (after calls).call call = .ok k) ∧
          ((after calls).AnswersWriteBack call s a ∨ call.Invalidates ∨
            (after calls).AnswersWriteThrough call s)) ∧
      ((after calls).step call).cache.dirtyDiscards = (after calls).cache.dirtyDiscards +
        if call.Invalidates ∧ ((after calls).call call).isOk then
          dirtyCount (after calls).cache.lines else 0 := by
  have h := ok_after calls
  cases hk : (after calls).call call with
  | error e =>
      rw [Client.step_of_error hk]
      refine ⟨fun s a hb hl => absurd hb hl, ?_⟩
      simp [Except.isOk, Except.toBool]
  | ok k' =>
      rw [Client.step_of_ok hk]
      obtain ⟨-, hlost, hcount⟩ := h.call hk
      refine ⟨fun s a hb hl => ⟨⟨k', rfl⟩, hlost s a hb hl⟩, ?_⟩
      simpa [Except.isOk, Except.toBool] using hcount

/-- A copyback write of one byte, then a CPUSHL of its line up to the write-back request. -/
def pushedByte : List Call :=
  [.addRegion 4096 64, .movec 2 0x82000000, .next, .access 4096 1 true [5], .next,
    .complete (List.replicate 16 0), .next, .push 0xf468 4096, .next]

/-- The acknowledgement of that write-back cleans the line. -/
theorem dirty_lost_only_by_push :
    HoldsDirty (after pushedByte).cache 1024 4096 ∧
      ¬HoldsDirty ((after pushedByte).step (.complete [])).cache 1024 4096 ∧
      ((after pushedByte).AnswersWriteBack (.complete []) 1024 4096 ∨
        Call.Invalidates (.complete []) ∨
        (after pushedByte).AnswersWriteThrough (.complete []) 1024) := by
  have hb : HoldsDirty (after pushedByte).cache 1024 4096 := by decide +kernel
  have hl : ¬HoldsDirty ((after pushedByte).step (.complete [])).cache 1024 4096 := by
    decide +kernel
  exact ⟨hb, hl, ((dirty_lost_only_by pushedByte (.complete [])).1 1024 4096 hb hl).2⟩

end Quetz.WindowDataCache
