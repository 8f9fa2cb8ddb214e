import Mathlib.Data.List.Infix
import Quetz.CacheSafety
import Quetz.CacheTransparency

/-!
# The Half-Lock of the Window Cache

With `DHLCK` set the replacement policy allocates ways two and three only. A valid line in way
zero or one then leaves the cache by a CPUSHL or a `DCINVA`, never by an access: no eviction and no
fill takes its slot, and its bytes change only where a write of the CPU hits them.

## Main results

* `half_lock`: what the half-lock protects over any run, how a victim is chosen in any state, and
  that without it every way of every set is evicted and filled in some run.
-/

open ByteMemory

namespace Quetz.WindowDataCache

variable {c d : WindowDataCache}

/-- The half-lock is on. -/
def Locked (c : WindowDataCache) : Prop := c.cacr &&& DHLCK ≠ 0

instance (c : WindowDataCache) : Decidable (Locked c) := inferInstanceAs (Decidable (_ ≠ _))

theorem firstWay_of_locked (h : Locked c) : c.firstWay = 2 := if_pos h

theorem firstWay_of_unlocked (h : ¬Locked c) : c.firstWay = 0 := if_neg h

/-! ### What one call leaves of a line -/

/-- The open write hits the byte `i` of the line of a slot, in a cached mode, with the value `b`. -/
structure WriteHit (c : WindowDataCache) (s : Slot) (i : Fin lineBytes) (b : UInt8) : Prop where
  write : c.write = true
  cached : c.mode (c.lines s).address < 2
  lower : c.address + c.offset ≤ (c.lines s).address + i
  upper : (c.lines s).address + i < c.address + c.count
  value : c.bytes[(c.lines s).address + i - c.address]? = some b

/-- The slot keeps a valid line and its tag, and its bytes but for what the open write hits. -/
structure Hit (c d : WindowDataCache) (s : Slot) : Prop where
  valid : (d.lines s).valid = true
  address : (d.lines s).address = (c.lines s).address
  bytes : ∀ i, (d.lines s).bytes i = (c.lines s).bytes i ∨ WriteHit c s i ((d.lines s).bytes i)

/-- A line nobody touched. -/
theorem Hit.of_lines (h : d.lines = c.lines) {s : Slot} (hs : (c.lines s).valid = true) :
    Hit c d s := by
  constructor
  · rwa [h]
  · rw [h]
  · intro i
    rw [h]
    exact Or.inl rfl

/-- The loop state `d` is that of the access `c` some hits later. -/
structure Hitting (c d : WindowDataCache) : Prop where
  controls : SameControls c d
  address : d.address = c.address
  count : d.count = c.count
  write : d.write = c.write
  bytes : d.write = true → d.bytes = c.bytes
  offset_le : c.offset ≤ d.offset
  hit : ∀ s, (c.lines s).valid = true → Hit c d s

theorem Hitting.refl (c : WindowDataCache) : Hitting c c :=
  ⟨⟨rfl, rfl, rfl⟩, rfl, rfl, rfl, fun _ => rfl, le_rfl, fun _ => Hit.of_lines rfl⟩

/-- A hit of the later state is one of the access. -/
theorem Hitting.writeHit (h : Hitting c d) {s : Slot} {i : Fin lineBytes} {b : UInt8}
    (hs : (c.lines s).valid = true) (hw : WriteHit d s i b) : WriteHit c s i b := by
  obtain ⟨hwrite, hcached, hlower, hupper, hvalue⟩ := hw
  rw [(h.hit s hs).address] at hcached hlower hupper hvalue
  rw [h.controls.mode] at hcached
  rw [h.address] at hlower hupper hvalue
  rw [h.count] at hupper
  rw [h.bytes hwrite] at hvalue
  refine ⟨h.write ▸ hwrite, hcached, ?_, hupper, hvalue⟩
  exact (Nat.add_le_add_left h.offset_le _).trans hlower

/-- A line hit later is a line hit. -/
theorem Hitting.trans_hit (h : Hitting c d) {e : WindowDataCache} {s : Slot}
    (hs : (c.lines s).valid = true) (hd : Hit d e s) : Hit c e s := by
  have hc := h.hit s hs
  refine ⟨hd.valid, hd.address.trans hc.address, fun i => ?_⟩
  rcases hd.bytes i with hsame | hw
  · rw [hsame]
    exact (hc.bytes i).imp id id
  · exact Or.inr (h.writeHit hs hw)

/-- A byte of a line after the chunk was copied into it. -/
theorem copyInto_chunk (haim : Aimed c) (ho : c.offset < c.count) (b : Fin lineBytes → UInt8)
    (i : Fin lineBytes) :
    copyInto b (c.address + c.offset - c.pendingAddress) c.chunk i = b i ∨
      (c.address + c.offset ≤ c.pendingAddress + i ∧ c.pendingAddress + i < c.address + c.count ∧
        c.bytes[c.pendingAddress + i - c.address]? =
          some (copyInto b (c.address + c.offset - c.pendingAddress) c.chunk i)) := by
  obtain ⟨-, hsize, hlo, -⟩ := haim.bounds ho
  rw [copyInto]
  split_ifs with hi
  · rw [List.getD_eq_getElem?_getD]
    cases hget : c.chunk[(i : ℕ) - (c.address + c.offset - c.pendingAddress)]? with
    | none => exact Or.inl rfl
    | some x =>
        right
        rw [chunk, List.getElem?_take] at hget
        split_ifs at hget with hlt
        rw [List.getElem?_drop] at hget
        refine ⟨by omega, by omega, ?_⟩
        rw [Option.getD_some, ← hget]
        congr 1
        omega
  · exact Or.inl rfl

/-- The chunk copied into the line that holds it. -/
theorem hit_copyInto {slot : Slot} (dirty : Bool) (haim : Aimed c) (ho : c.offset < c.count)
    (hf : c.find c.pendingAddress = some slot) (hw : c.write = true)
    (hm : c.mode (c.address + c.offset) < 2)
    (hd : d.lines = Function.update c.lines slot { c.lines slot with
      bytes := copyInto (c.lines slot).bytes (c.address + c.offset - c.pendingAddress) c.chunk
      dirty := dirty })
    (s : Slot) (hs : (c.lines s).valid = true) : Hit c d s := by
  obtain ⟨-, haddress, -⟩ := find_eq_some hf
  by_cases hslot : s = slot
  · subst hslot
    have hline := congrFun hd s
    rw [Function.update_self] at hline
    refine ⟨?_, ?_, fun i => ?_⟩
    · rw [hline, hs]
    · rw [hline]
    · rw [hline]
      refine (copyInto_chunk haim ho _ i).imp_right ?_
      rintro ⟨hlower, hupper, hvalue⟩
      rw [haim.2] at haddress
      refine ⟨hw, ?_, ?_, ?_, ?_⟩
      · rwa [haddress, mode_lineOf]
      all_goals rwa [haddress, ← haim.2]
  · have hline : d.lines s = c.lines s := by rw [hd, Function.update_of_ne hslot]
    refine ⟨?_, ?_, fun i => ?_⟩
    · rwa [hline]
    · rw [hline]
    · rw [hline]
      exact Or.inl rfl

/-- A pass hits lines and does nothing else to them. -/
theorem Pass.hit {r : (WindowDataCache × Action) ⊕ WindowDataCache} (haim : Aimed c)
    (ho : c.offset < c.count) (h : Pass c r) (s : Slot) (hs : (c.lines s).valid = true) :
    Hit c (r.elim Prod.fst id) s := by
  cases h with
  | writeThrough slot hf hw hm =>
      exact hit_copyInto (c.lines slot).dirty haim ho hf hw (by omega) rfl s hs
  | writeHit slot hf hw hm => exact hit_copyInto true haim ho hf hw (by omega) rfl s hs
  | _ =>
      refine Hit.of_lines ?_ hs
      rfl

/-- Aiming the loop at its next chunk hits nothing. -/
theorem Hitting.aim (h : Hitting c d) : Hitting c d.aim := by
  obtain ⟨⟨hregions, hcacr, hacr⟩, haddress, hcount, hwrite, hbytes, hoffset, hhit⟩ := h
  refine ⟨⟨hregions, hcacr, hacr⟩, haddress, hcount, hwrite, hbytes, hoffset, fun s hs => ?_⟩
  obtain ⟨hv, ha, hb⟩ := hhit s hs
  exact ⟨hv, ha, hb⟩

/-- A pass on a later state hits lines of the access. -/
theorem Hitting.pass_hit (h : Hitting c d) (haim : Aimed d) (ho : d.offset < d.count)
    {r : (WindowDataCache × Action) ⊕ WindowDataCache} (hr : Pass d r) (s : Slot)
    (hs : (c.lines s).valid = true) : Hit c (r.elim Prod.fst id) s :=
  h.trans_hit hs (hr.hit haim ho s (h.hit s hs).valid)

/-- A hit advances the access. -/
theorem Hitting.pass {e : WindowDataCache} (h : Hitting c d) (haim : Aimed d)
    (ho : d.offset < d.count) (hr : Pass d (.inr e)) : Hitting c e := by
  have hhit := h.pass_hit haim ho hr
  have hcontrols := h.controls
  have hoffset : c.offset ≤ d.offset + d.pendingSize := h.offset_le.trans (Nat.le_add_right _ _)
  cases hr with
  | writeHit slot hf hw hm =>
      exact ⟨⟨hcontrols.1, hcontrols.2, hcontrols.3⟩, h.address, h.count, h.write, h.bytes,
        hoffset, hhit⟩
  | readHit slot hf hw hm =>
      refine ⟨⟨hcontrols.1, hcontrols.2, hcontrols.3⟩, h.address, h.count, h.write,
        fun hwrite => ?_, hoffset, hhit⟩
      exact absurd (hw.symm.trans hwrite) Bool.false_ne_true

/-- The next request of an access hits lines and does nothing else to them. -/
theorem next_hit (h : Inv c) (hpush : c.pushing = false) {r : WindowDataCache × Action}
    (hn : c.next = .ok r) :
    r.1.pushing = false ∧ ∀ s, (c.lines s).valid = true → Hit c r.1 s := by
  obtain ⟨hact, hpend, rfl⟩ := next_eq_ok.mp hn
  rw [if_neg (by simp [hpush])]
  refine nextAccess_induct (P := fun e => Inv e ∧ Looping e ∧ Hitting c e)
    (Q := fun r => r.1.pushing = false ∧ ∀ s, (c.lines s).valid = true → Hit c r.1 s) ?_ ?_ ?_ _ c
    ⟨h, ⟨hact, hpush, hpend⟩, .refl c⟩ le_rfl
  · rintro e ⟨-, hle, hhit⟩ -
    refine ⟨hle.pushing, fun s hs => ?_⟩
    obtain ⟨hv, ha, hb⟩ := hhit.hit s hs
    exact ⟨hv, ha, hb⟩
  · rintro e ⟨f, a⟩ ⟨-, hle, hhit⟩ ho hr
    refine ⟨?_, fun s hs => ?_⟩
    · cases hr <;> exact hle.pushing
    · exact hhit.aim.pass_hit (aimed_aim e) ho hr s hs
  · rintro e f ⟨he, hle, hhit⟩ ho hr
    obtain ⟨hf, hlf, hcount, hoff⟩ := (he.aim hle.pending).pass_hit hle.aim (aimed_aim e) ho hr
    exact ⟨⟨hf, hlf, hhit.aim.pass (aimed_aim e) ho hr⟩, hcount, hoff⟩

/-- What a call leaves of the line of a slot: its tag, and its bytes but for what a write of the CPU
hits. -/
structure Keeps (c d : WindowDataCache) (call : Call) (s : Slot) : Prop where
  valid : (d.lines s).valid = true
  address : (d.lines s).address = (c.lines s).address
  bytes : ∀ i, (d.lines s).bytes i = (c.lines s).bytes i ∨
    call = .next ∧ WriteHit c s i ((d.lines s).bytes i)

/-- A line nobody touched. -/
theorem Keeps.of_line {s : Slot} (h : d.lines s = c.lines s) (hs : (c.lines s).valid = true)
    (call : Call) : Keeps c d call s := by
  constructor
  · rwa [h]
  · rw [h]
  · intro i
    rw [h]
    exact Or.inl rfl

/-- The transaction chose the slot to evict or to fill. -/
def Chooses (c : WindowDataCache) (s : Slot) : Prop :=
  (c.pending = .evict ∨ c.pending = .fill) ∧ s = c.pendingSlot

/-- The open transaction is a CPUSHL of the slot. -/
def Selects (c : WindowDataCache) (s : Slot) : Prop := c.pushing = true ∧ s = c.pendingSlot

/-- A call leaves the line of a slot, unless an access chose it or a CPUSHL selects it, and opens no
CPUSHL. -/
structure Leaves (c d : WindowDataCache) (call : Call) (s : Slot) : Prop where
  keeps : (c.lines s).valid = true → Keeps c d call s ∨ Chooses c s ∨ Selects c s
  selects : Selects d s → Selects c s

/-- Only the line of one slot was touched. -/
theorem Leaves.of_update {call : Call} {slot : Slot} {line : Line}
    (hd : d.lines = Function.update c.lines slot line) (hslot : slot = c.pendingSlot)
    (hp : (c.pending = .evict ∨ c.pending = .fill) ∨ c.pushing = true) (s : Slot)
    (hs : Selects d s → Selects c s) : Leaves c d call s where
  keeps hv := by
    by_cases hne : s = slot
    · refine Or.inr (hp.imp (fun h => ⟨h, ?_⟩) fun h => ⟨h, ?_⟩) <;> rw [hne, hslot]
    · exact Or.inl (.of_line (by rw [hd, Function.update_of_ne hne]) hv call)
  selects := hs

/-- No line was touched. -/
theorem Leaves.of_lines {call : Call} (hd : d.lines = c.lines) (s : Slot)
    (hs : Selects d s → Selects c s) : Leaves c d call s where
  keeps hv := Or.inl (.of_line (congrFun hd s) hv call)
  selects := hs

/-- The request of a CPUSHL touches the selected line only. -/
theorem nextPush_leaves (hpush : c.pushing = true) (s : Slot) :
    Leaves c c.nextPush.1 .next s := by
  rw [nextPush]
  dsimp only
  split_ifs with hdirty hinv
  · refine .of_lines ?_ s fun hs => ?_
    · rfl
    · exact hs
  · refine .of_update rfl rfl (Or.inr hpush) s fun hs => ?_
    cases hs.1
  · refine .of_lines ?_ s fun hs => ?_
    · rfl
    · cases hs.1

/-- The next request. -/
theorem next_leaves (h : Inv c) {r : WindowDataCache × Action} (hn : c.next = .ok r) (s : Slot) :
    Leaves c r.1 .next s := by
  cases hpush : c.pushing with
  | true =>
      obtain ⟨-, -, rfl⟩ := next_eq_ok.mp hn
      rw [if_pos hpush]
      exact nextPush_leaves hpush s
  | false =>
      obtain ⟨hpush', hhit⟩ := next_hit h hpush hn
      refine ⟨fun hv => Or.inl ?_, fun hs => absurd (hpush'.symm.trans hs.1) Bool.false_ne_true⟩
      obtain ⟨hv', ha, hb⟩ := hhit s hv
      exact ⟨hv', ha, fun i => (hb i).imp_right fun hw => ⟨rfl, hw⟩⟩

/-- An answer. -/
theorem complete_leaves (h : Inv c) {bs : List UInt8} (hc : c.complete bs = .ok d) (s : Slot) :
    Leaves c d (.complete bs) s := by
  obtain ⟨-, hcomp⟩ := complete_ok hc
  cases hcomp with
  | fill hp => exact .of_update rfl rfl (Or.inl (Or.inr hp)) s id
  | evict hp => exact .of_update rfl rfl (Or.inl (Or.inl hp)) s id
  | bypassRead =>
      refine .of_lines ?_ s fun hs => ?_
      · rfl
      · exact hs
  | bypassWrite =>
      refine .of_lines ?_ s fun hs => ?_
      · rfl
      · exact hs
  | push hp =>
      have hpend := h.pendingOk
      rw [PendingOk, hp] at hpend
      refine .of_update rfl rfl (Or.inr hpend.2.1) s fun hs => ?_
      cases hs.1
  | writeThrough =>
      refine ⟨fun hv => Or.inl ?_, id⟩
      by_cases hslot : s = c.pendingSlot
      · subst hslot
        refine ⟨?_, ?_, fun i => Or.inl ?_⟩
        all_goals simp only [Function.update_self, hv]
      · exact .of_line (Function.update_of_ne hslot _ _) hv _

/-- A call that neither opens a CPUSHL nor discards the lines: an access, its requests and its
answers, a control write or a new region. -/
def Call.Spares : Call → Prop
  | .push .. => False
  | call => ¬call.Invalidates

/-- Every such call leaves the lines. -/
theorem Client.Ok.step_leaves {k : Client} (h : k.Ok) {call : Call} (hcall : call.Spares)
    (s : Slot) : Leaves k.cache (k.step call).cache call s := by
  cases hk : k.call call with
  | error e =>
      rw [Client.step_of_error hk]
      exact .of_lines rfl s id
  | ok k' =>
      rw [Client.step_of_ok hk]
      cases call with
      | access a n w bs =>
          obtain ⟨-, -, -, -, -, he⟩ := access_ok (map_cache_eq_ok hk).1
          rw [he]
          refine .of_lines ?_ s fun hs => ?_
          · rfl
          · cases hs.1
      | movec reg value =>
          obtain ⟨-, -, he⟩ := movec_eq_ok.mp (map_cache_eq_ok hk).1
          have hlines : (k.cache.started.control reg value).lines = k.cache.lines :=
            (control_dirty reg value).1.resolve_right hcall
          rw [he]
          refine .of_lines hlines s ?_
          rw [control]
          split_ifs <;> exact fun hs => absurd hs.1 Bool.false_ne_true
      | push i o => exact absurd hcall id
      | next =>
          cases hn : k.cache.next with
          | error e =>
              simp only [Client.call, hn] at hk
              cases hk
          | ok r =>
              simp only [Client.call, hn] at hk
              cases hk
              exact next_leaves h.inv hn s
      | complete bs => exact complete_leaves h.inv (map_cache_eq_ok hk).1 s
      | reset =>
          have hc := (map_cache_eq_ok hk).1
          rw [reset] at hc
          split_ifs at hc
          rw [← Except.ok.inj hc]
          refine .of_lines ?_ s fun hs => ?_
          · rfl
          · exact hs
      | addRegion b n =>
          obtain ⟨-, he⟩ := addRegion_ok (map_cache_eq_ok hk).1
          rw [he]
          refine .of_lines ?_ s fun hs => ?_
          · rfl
          · exact hs
      | configure b n =>
          obtain ⟨-, he⟩ := addRegion_ok (configure_ok (map_cache_eq_ok hk).1)
          rw [he]
          refine .of_lines ?_ s fun hs => ?_
          · rfl
          · exact hs

/-! ### Runs under the half-lock -/

theorem after_append (calls cs : List Call) :
    after (calls ++ cs) = cs.foldl Client.step (after calls) :=
  List.foldl_append

theorem after_concat (calls : List Call) (call : Call) :
    after (calls ++ [call]) = (after calls).step call :=
  after_append calls [call]

/-- Under the half-lock a slot to evict or to fill is in way two or three. -/
theorem Locked.chosen (hlocked : Locked c) (h : Discipline c)
    (hp : c.pending = .evict ∨ c.pending = .fill) : 2 ≤ wayOf c.pendingSlot := by
  have hallowed := (h.chosen hp).allowed
  rwa [firstWay_of_locked hlocked] at hallowed

/-- Under the half-lock a step keeps every valid line of ways zero and one. -/
theorem Locked.step_keeps (calls : List Call) (hlocked : Locked (after calls).cache) {call : Call}
    (hcall : call.Spares) {s : Slot} (hway : wayOf s < 2) (hs : ¬Selects (after calls).cache s)
    (hv : ((after calls).cache.lines s).valid = true) :
    Keeps (after calls).cache (after (calls ++ [call])).cache call s := by
  rw [after_concat]
  refine (((ok_after calls).step_leaves hcall s).keeps hv).resolve_right ?_
  rintro (⟨hp, rfl⟩ | hselects)
  · exact absurd (hlocked.chosen (discipline_after calls) hp) (Nat.not_le_of_lt hway)
  · exact hs hselects

/-- No call that spares the lines opens a CPUSHL. -/
theorem not_selects_after (calls : List Call) {s : Slot} (hs : ¬Selects (after calls).cache s)
    {cs : List Call} (hcs : ∀ call ∈ cs, call.Spares) : ¬Selects (after (calls ++ cs)).cache s := by
  induction cs using List.reverseRecOn with
  | nil => rwa [List.append_nil]
  | append_singleton cs call ih =>
      have hcs' := List.forall_mem_append.mp hcs
      have hcall := hcs'.2 call (List.mem_singleton_self call)
      rw [← List.append_assoc, after_concat]
      exact fun h => ih hcs'.1 (((ok_after (calls ++ cs)).step_leaves hcall s).selects h)

/-- Under the half-lock a run keeps the tag of every valid line of ways zero and one. -/
theorem Locked.run_keeps (calls : List Call) {cs : List Call} (hcs : ∀ call ∈ cs, call.Spares)
    (hlocked : ∀ ds, ds <+: cs → Locked (after (calls ++ ds)).cache) {s : Slot}
    (hway : wayOf s < 2) (hs : ¬Selects (after calls).cache s)
    (hv : ((after calls).cache.lines s).valid = true) :
    ((after (calls ++ cs)).cache.lines s).valid = true ∧
      ((after (calls ++ cs)).cache.lines s).address = ((after calls).cache.lines s).address := by
  induction cs using List.reverseRecOn with
  | nil =>
      rw [List.append_nil]
      exact ⟨hv, rfl⟩
  | append_singleton cs call ih =>
      have hcs' := List.forall_mem_append.mp hcs
      obtain ⟨hv', ha⟩ := ih hcs'.1 fun ds hds => hlocked ds (hds.trans (List.prefix_append _ _))
      have hkeeps := (hlocked cs (List.prefix_append _ _)).step_keeps (calls ++ cs)
        (hcs'.2 call (List.mem_singleton_self call)) hway (not_selects_after calls hs hcs'.1) hv'
      rw [List.append_assoc] at hkeeps
      exact ⟨hkeeps.valid, hkeeps.address.trans ha⟩

/-! ### Without the half-lock -/

/-- The first free allowed way of a set is the victim. -/
theorem victim_of_free {set : Fin sets} {w : Fin ways} (hw : c.firstWay ≤ w)
    (hfree : (c.lines (slotOf set w)).valid = false)
    (hfirst : ∀ w' < w, (c.lines (slotOf set w')).valid = true) : c.victim set = slotOf set w := by
  have hfind : (List.finRange ways).find? (fun w : Fin ways =>
      decide (c.firstWay ≤ (w : ℕ)) && !(c.lines (slotOf set w)).valid) = some w := by
    rw [List.find?_eq_some_iff_getElem]
    refine ⟨by simp [hw, hfree], w, by simp, by simp, fun j hj => ?_⟩
    rw [List.getElem_finRange]
    simp [hfirst ⟨j, hj.trans w.isLt⟩ (Fin.lt_def.mpr hj)]
  rw [victim, hfind]

/-- In a set with no free allowed way the counter shows the victim. -/
theorem victim_of_full {set : Fin sets}
    (hfull : ∀ w : Fin ways, (c.lines (slotOf set w)).valid = true) :
    c.victim set = slotOf set c.roundRobin := by
  have hfind : (List.finRange ways).find? (fun w : Fin ways =>
      decide (c.firstWay ≤ (w : ℕ)) && !(c.lines (slotOf set w)).valid) = none := by
    rw [List.find?_eq_none]
    intro w _
    simp [hfull w]
  rw [victim, hfind]

/-- The state of an access once a slot is chosen for its line. -/
def aimedAt (c : WindowDataCache) (slot : Slot) (p : Pending) : WindowDataCache :=
  { c.aim with pendingSlot := slot, pending := p }

/-- The first pass of the access loop, and the passes after a hit. -/
theorem next_eq_pass (hl : Looping c) (ho : c.offset < c.count) :
    c.next = .ok (match c.aim.pass with
      | .inl r => r
      | .inr d => nextAccess (c.count - c.offset - 1) d) := by
  have hnext : c.next = .ok (nextAccess (c.count - c.offset) c) := by
    rw [next_eq_ok.mpr ⟨hl.active, hl.pending, rfl⟩, hl.pushing]
    rfl
  obtain ⟨n, hn⟩ : ∃ n, c.count - c.offset = n + 1 := ⟨c.count - c.offset - 1, by omega⟩
  have hrest : c.count - c.offset - 1 = n := by omega
  rw [hnext, hrest, hn, nextAccess]
  exact congrArg Except.ok (if_pos ho)

/-- The request of an access that misses in copyback mode. -/
theorem next_miss (hl : Looping c) (ho : c.offset < c.count)
    (hm : c.mode (c.address + c.offset) = 1) (hf : c.find (lineOf (c.address + c.offset)) = none)
    {slot : Slot} (hslot : c.victim (setIndex (lineOf (c.address + c.offset))) = slot) :
    ∃ a, c.next = .ok (c.aimedAt slot
      (if (c.lines slot).valid && (c.lines slot).dirty then .evict else .fill), a) := by
  have hmode : c.aim.mode (c.aim.address + c.aim.offset) = 1 := hm
  have hfind : c.aim.find c.aim.pendingAddress = none := hf
  have hvictim : c.aim.victim (setIndex c.aim.pendingAddress) = slot := hslot
  rw [next_eq_pass hl ho]
  have hpass := pass_spec c.aim
  generalize c.aim.pass = r at hpass ⊢
  cases hpass with
  | bypassWrite hw hb => exact absurd hb (by simp [hmode])
  | bypassRead hw hb => omega
  | evict victim hs hf hm hv hd =>
      obtain rfl := hs.trans hvictim
      have hdirty : ((c.lines victim).valid && (c.lines victim).dirty) = true :=
        Bool.and_eq_true_iff.mpr ⟨hv, hd⟩
      rw [if_pos hdirty]
      exact ⟨_, rfl⟩
  | fill victim hs hf hm hv =>
      obtain rfl := hs.trans hvictim
      have hclean : ¬((c.lines victim).valid && (c.lines victim).dirty) = true :=
        fun h => hv (Bool.and_eq_true_iff.mp h)
      rw [if_neg hclean]
      exact ⟨_, rfl⟩
  | writeThrough slot' hf' => exact absurd (hf'.symm.trans hfind) (by simp)
  | writeHit slot' hf' => exact absurd (hf'.symm.trans hfind) (by simp)
  | readHit slot' hf' => exact absurd (hf'.symm.trans hfind) (by simp)

/-- A write of one byte that hits in copyback mode finishes, and leaves its line dirty. -/
theorem next_hit_write (hl : Looping c) (ho : c.offset + 1 = c.count) (hw : c.write = true)
    (hm : c.mode (c.address + c.offset) = 1) {slot : Slot}
    (hf : c.find (lineOf (c.address + c.offset)) = some slot) :
    ∃ d a bytes, c.next = .ok (d, a) ∧ d.active = false ∧ SameControls c d ∧
      d.replacement = c.replacement ∧ d.lines = Function.update c.lines slot
        { c.lines slot with bytes := bytes, dirty := true } := by
  have hmode : c.aim.mode (c.aim.address + c.aim.offset) = 1 := hm
  have hfind : c.aim.find c.aim.pendingAddress = some slot := hf
  have hwrite : c.aim.write = true := hw
  have hlast : c.count - c.offset - 1 = 0 := by omega
  rw [next_eq_pass hl (by omega), hlast]
  have hpass := pass_spec c.aim
  generalize c.aim.pass = r at hpass ⊢
  cases hpass with
  | bypassWrite hw hb => exact absurd hb (by simp [hmode])
  | bypassRead hw' => exact absurd (hw'.symm.trans hwrite) (by simp)
  | evict _ _ hf' => exact absurd (hf'.symm.trans hfind) (by simp)
  | fill _ _ hf' => exact absurd (hf'.symm.trans hfind) (by simp)
  | writeThrough slot' hf' hw' hm' => omega
  | writeHit slot' hf' hw' hm' =>
      obtain rfl := Option.some.inj (hf'.symm.trans hfind)
      exact ⟨_, _, _, rfl, rfl, ⟨rfl, rfl, rfl⟩, rfl, rfl⟩
  | readHit slot' hf' hw' => exact absurd (hw'.symm.trans hwrite) (by simp)

/-- The `k`-th line of a set. -/
def lineNo (set : Fin sets) (k : ℕ) : ℕ := set * 16 + k * 8192

theorem setIndex_lineNo (set : Fin sets) (k : ℕ) : setIndex (lineNo set k) = set := by
  have := set.isLt
  apply Fin.ext
  simp only [setIndex, lineNo, Fin.ofNat, lineBytes, sets] at *
  omega

theorem lineOf_lineNo (set : Fin sets) (k : ℕ) : lineOf (lineNo set k) = lineNo set k :=
  lineOf_eq (by simp only [lineNo]; omega) le_rfl (by omega)

theorem lineNo_injective (set : Fin sets) : Function.Injective (lineNo set) := by
  intro i j h
  simp only [lineNo] at h
  omega

/-- One write to each of the first `k` lines of a set, on a cache in copyback mode. -/
structure Warm (set : Fin sets) (k : ℕ) (c : WindowDataCache) : Prop where
  idle : c.active = false
  regions : c.regions = [⟨0, 0x100000⟩]
  cacr : c.cacr = 0x82000000
  acr : c.acr = fun _ => 0
  replacement : c.replacement = Fin.ofNat ways k
  full : ∀ w : Fin ways, w < k → (c.lines (slotOf set w)).valid = true ∧
    (c.lines (slotOf set w)).dirty = true ∧ ∃ j < k, (c.lines (slotOf set w)).address = lineNo set j
  free : ∀ w : Fin ways, k ≤ w → (c.lines (slotOf set w)).valid = false

/-- A write to the `k`-th line of a set, with every answer its requests may need: where no eviction
comes first, the empty answer and the call after it are rejected. -/
def miss (set : Fin sets) (k : ℕ) : List Call :=
  [.access (lineNo set k) 1 true [0], .next, .complete [], .next, .complete (List.replicate 16 0),
    .next]

/-- The way the `k`-th line of a set goes to. -/
def wayNo (k : ℕ) : Fin ways := Fin.ofNat ways k

theorem wayNo_of_le {w : Fin ways} {k : ℕ} (hw : w ≠ wayNo k) (h : w ≤ k) : (w : ℕ) < k := by
  refine lt_of_le_of_ne h fun he => hw (Fin.ext ?_)
  rw [wayNo, ← he]
  exact (Nat.mod_eq_of_lt w.isLt).symm

/-- The way of the next line is below it, once the ways have filled. -/
theorem wayNo_le (k : ℕ) : (wayNo k : ℕ) ≤ k := Nat.mod_le _ _

/-- The state of the `k`-th write while it waits for its line. -/
structure Filling (set : Fin sets) (k : ℕ) (c : WindowDataCache) : Prop where
  active : c.active = true
  pushing : c.pushing = false
  pending : c.pending = .fill
  write : c.write = true
  address : c.address = lineNo set k
  count : c.count = 1
  offset : c.offset = 0
  pendingAddress : c.pendingAddress = lineNo set k
  pendingSlot : c.pendingSlot = slotOf set (wayNo k)
  regions : c.regions = [⟨0, 0x100000⟩]
  cacr : c.cacr = 0x82000000
  acr : c.acr = fun _ => 0
  replacement : c.replacement = wayNo k
  full : ∀ w : Fin ways, w ≠ wayNo k → w < k → (c.lines (slotOf set w)).valid = true ∧
    (c.lines (slotOf set w)).dirty = true ∧ ∃ j < k, (c.lines (slotOf set w)).address = lineNo set j
  free : ∀ w : Fin ways, w ≠ wayNo k → k ≤ w → (c.lines (slotOf set w)).valid = false

/-- Every address is in copyback mode. -/
theorem mode_copyback (hcacr : c.cacr = 0x82000000) (hacr : c.acr = fun _ => 0) (a : ℕ) :
    c.mode a = 1 := by
  rw [mode, hcacr, hacr]
  rfl

theorem slotOf_injective (set : Fin sets) {w w' : Fin ways} (h : slotOf set w = slotOf set w') :
    w = w' := by
  apply Fin.ext
  rw [← wayOf_slotOf set w, ← wayOf_slotOf set w', h]

/-- The cache after the answer to a fill. -/
def filled (c : WindowDataCache) (bs : List UInt8) : WindowDataCache :=
  { c with
    lines := Function.update c.lines c.pendingSlot
      { bytes := fun i => bs.getD i 0, address := c.pendingAddress, valid := true }
    replacement := c.replacement + 1, pending := .none }

theorem complete_fill (hact : c.active = true) (hp : c.pending = .fill) {bs : List UInt8}
    (hlen : bs.length = 16) : c.complete bs = .ok (c.filled bs) := by
  rw [complete, if_neg (by simp [hact])]
  simp only [hp, hlen, ne_eq, not_true_eq_false, if_false]
  rfl

/-- The answer to the fill, and the hit that ends the write. -/
theorem Filling.ends {set : Fin sets} {k : ℕ} (h : Filling set k c) (hinv : Inv c) :
    ∃ d e a, c.complete (List.replicate 16 0) = .ok d ∧ d.next = .ok (e, a) ∧
      Warm set (k + 1) e := by
  have hfill := complete_fill h.active h.pending (@List.length_replicate UInt8 16 0)
  set d := c.filled (List.replicate 16 0)
  have hloop : Looping d := ⟨h.active, h.pushing, rfl⟩
  have hoffset : d.offset = 0 := h.offset
  have hcount : d.count = 1 := h.count
  have hline : d.lines = Function.update c.lines (slotOf set (wayNo k))
      { bytes := fun i => (List.replicate 16 0).getD i 0, address := lineNo set k,
        valid := true } := by
    rw [← h.pendingSlot, ← h.pendingAddress]
    rfl
  have haddress : lineOf (d.address + d.offset) = lineNo set k := by
    rw [show d.address = lineNo set k from h.address, hoffset]
    exact lineOf_lineNo set k
  have hfind : d.find (lineOf (d.address + d.offset)) = some (slotOf set (wayNo k)) := by
    have hself := find_of_valid (hinv.complete hfill).linesOk (s := slotOf set (wayNo k))
      (by rw [hline, Function.update_self])
    rwa [hline, Function.update_self, ← haddress] at hself
  obtain ⟨e, a, bytes, hnext, hidle, hsame, hreplacement, hlines⟩ :=
    next_hit_write hloop (by rw [hoffset, hcount]) h.write (mode_copyback h.cacr h.acr _) hfind
  refine ⟨d, e, a, hfill, hnext, hidle, hsame.regions.trans h.regions, hsame.cacr.trans h.cacr,
    hsame.acr.trans h.acr, ?_, fun w hw => ?_, fun w hw => ?_⟩
  · rw [hreplacement, show d.replacement = c.replacement + 1 from rfl, h.replacement]
    apply Fin.ext
    simp [wayNo, Fin.ofNat, Fin.val_add]
  · by_cases hway : w = wayNo k
    · subst hway
      rw [hlines, Function.update_self, hline, Function.update_self]
      exact ⟨rfl, rfl, k, Nat.lt_succ_self k, rfl⟩
    · have hne : slotOf set w ≠ slotOf set (wayNo k) := fun he => hway (slotOf_injective set he)
      obtain ⟨hv, hdirty, j, hj, ha⟩ := h.full w hway (wayNo_of_le hway (Nat.lt_succ_iff.mp hw))
      rw [hlines, Function.update_of_ne hne, hline, Function.update_of_ne hne]
      exact ⟨hv, hdirty, j, Nat.lt_succ_of_lt hj, ha⟩
  · have hway : w ≠ wayNo k := by
      rintro rfl
      exact absurd (wayNo_le k) (by omega)
    have hne : slotOf set w ≠ slotOf set (wayNo k) := fun he => hway (slotOf_injective set he)
    rw [hlines, Function.update_of_ne hne, hline, Function.update_of_ne hne]
    exact h.free w hway (Nat.le_of_succ_le hw)

/-- The way the next line goes to, free or not. -/
theorem Warm.victim {set : Fin sets} {k : ℕ} (h : Warm set k c) :
    c.victim set = slotOf set (wayNo k) := by
  have hfirst : c.firstWay = 0 := firstWay_of_unlocked (by rw [Locked, h.cacr]; decide)
  by_cases hk : k < ways
  · have hval : (wayNo k : ℕ) = k := Nat.mod_eq_of_lt hk
    refine victim_of_free (by omega) (h.free _ hval.ge) fun w hw => (h.full w ?_).1
    exact hval ▸ Fin.lt_def.mp hw
  · rw [victim_of_full fun w => (h.full w (w.isLt.trans_le (Nat.le_of_not_lt hk))).1, roundRobin,
      if_pos hfirst, h.replacement]
    rfl

/-- The `k`-th line is not there before its turn. -/
theorem Warm.absent {set : Fin sets} {k : ℕ} (h : Warm set k c) (hinv : Inv c) :
    c.find (lineNo set k) = none := by
  refine (find_eq_none hinv.linesOk).mpr fun s hs ha => ?_
  have hset : setOf s = set := by rw [hinv.linesOk.home s hs, ha, setIndex_lineNo]
  obtain ⟨w, rfl⟩ := exists_way hset
  have hlt : (w : ℕ) < k := by
    by_contra hge
    exact absurd (hs.symm.trans (h.free w (Nat.le_of_not_lt hge))) (by simp)
  obtain ⟨-, -, j, hj, hline⟩ := h.full w hlt
  exact hj.ne (lineNo_injective set (hline.symm.trans ha))

/-- The write to the next line chooses the next way: it evicts what is there. -/
theorem Warm.opens {set : Fin sets} {k : ℕ} (h : Warm set k c) (hinv : Inv c) (hk : k ≤ 100) :
    ∃ a, c.access (lineNo set k) 1 true [0] = .ok (c.opened (lineNo set k) 1 true [0]) ∧
      (c.opened (lineNo set k) 1 true [0]).next =
        .ok ((c.opened (lineNo set k) 1 true [0]).aimedAt (slotOf set (wayNo k))
          (if k < ways then .fill else .evict), a) := by
  have hset := set.isLt
  have hwithin : Within c.regions (lineNo set k) 1 := by
    refine ⟨⟨0, 0x100000⟩, by rw [h.regions]; exact List.mem_singleton_self _, Nat.zero_le _, ?_⟩
    simp only [lineNo, sets] at *
    omega
  have haccess := access_of_within hinv h.idle true [0] one_pos (by omega) hwithin fun _ => rfl
  set o := c.opened (lineNo set k) 1 true [0]
  have hold : o.lines = c.lines := rfl
  have hline : lineOf (o.address + o.offset) = lineNo set k := lineOf_lineNo set k
  have hvictim : o.victim (setIndex (lineOf (o.address + o.offset))) = slotOf set (wayNo k) := by
    rw [hline, setIndex_lineNo]
    exact h.victim
  obtain ⟨a, hnext⟩ := next_miss (c := o) ⟨rfl, rfl, rfl⟩ Nat.one_pos
    (mode_copyback h.cacr h.acr _) (by rw [hline]; exact h.absent hinv) hvictim
  refine ⟨a, haccess, ?_⟩
  rw [hnext, hold]
  congr 3
  by_cases hfree : k < ways
  · have hinvalid := h.free (wayNo k) (Nat.mod_eq_of_lt hfree).ge
    rw [if_pos hfree]
    exact if_neg (by simp [hinvalid])
  · obtain ⟨hv, hdirty, -⟩ := h.full (wayNo k) ((wayNo k).isLt.trans_le (Nat.le_of_not_lt hfree))
    rw [if_neg hfree]
    exact if_pos (by simp [hv, hdirty])

/-- Whatever way the slot was freed, the write now waits for its line. -/
theorem Warm.filling {set : Fin sets} {k : ℕ} (h : Warm set k c) {ls : Slot → Line}
    (hls : ∀ w ≠ wayNo k, ls (slotOf set w) = c.lines (slotOf set w)) :
    Filling set k (({ c.opened (lineNo set k) 1 true [0] with lines := ls } :
      WindowDataCache).aimedAt (slotOf set (wayNo k)) .fill) where
  active := rfl
  pushing := rfl
  pending := rfl
  write := rfl
  address := rfl
  count := rfl
  offset := rfl
  pendingAddress := lineOf_lineNo set k
  pendingSlot := rfl
  regions := h.regions
  cacr := h.cacr
  acr := h.acr
  replacement := h.replacement
  full w hw hlt := by
    change (ls (slotOf set w)).valid = true ∧ (ls (slotOf set w)).dirty = true ∧
      ∃ j < k, (ls (slotOf set w)).address = lineNo set j
    rw [hls w hw]
    exact h.full w hlt
  free w hw hge := by
    change (ls (slotOf set w)).valid = false
    rw [hls w hw]
    exact h.free w hge

/-- The lines of a cache whose pending slot is written back. -/
def dropped (c : WindowDataCache) (s : Slot) : Slot → Line :=
  Function.update c.lines s { c.lines s with valid := false, dirty := false }

theorem complete_evict (hact : c.active = true) (hp : c.pending = .evict) (bs : List UInt8) :
    c.complete bs = .ok { c with lines := c.dropped c.pendingSlot, pending := .none } := by
  rw [complete, if_neg (by simp [hact])]
  simp only [hp]
  rfl

/-- The write to the next line of a full set evicts, and then fills the slot it has freed. -/
theorem Warm.evicts {set : Fin sets} {k : ℕ} (h : Warm set k c) (hinv : Inv c) (hk : ways ≤ k)
    (hd : Inv ((c.opened (lineNo set k) 1 true [0]).aimedAt (slotOf set (wayNo k)) .evict)) :
    ∃ e f a,
      ((c.opened (lineNo set k) 1 true [0]).aimedAt (slotOf set (wayNo k)) .evict).complete []
      = .ok e ∧ e.next = .ok (f, a) ∧ Filling set k f := by
  set slot := slotOf set (wayNo k) with hslot
  set d := (c.opened (lineNo set k) 1 true [0]).aimedAt slot .evict
  have hcomplete := complete_evict (c := d) rfl rfl []
  set e : WindowDataCache := { d with lines := d.dropped d.pendingSlot, pending := .none }
  have hlines : e.lines = c.dropped slot := rfl
  have hcacr : e.cacr = 0x82000000 := h.cacr
  have hkept {w : Fin ways} (hw : w ≠ wayNo k) :
      e.lines (slotOf set w) = c.lines (slotOf set w) := by
    rw [hlines, dropped, Function.update_of_ne fun he => hw (slotOf_injective set he)]
  have hfreed : (e.lines slot).valid = false := by
    rw [hlines, dropped, Function.update_self]
  have hline : lineOf (e.address + e.offset) = lineNo set k := lineOf_lineNo set k
  have hfind : e.find (lineOf (e.address + e.offset)) = none := by
    refine (find_eq_none (hd.complete hcomplete).linesOk).mpr fun s hs => ?_
    rw [hline]
    by_cases hfree : s = slot
    · rw [hfree, hfreed] at hs
      cases hs
    · rw [hlines, dropped, Function.update_of_ne hfree] at hs ⊢
      exact (find_eq_none hinv.linesOk).mp (h.absent hinv) s hs
  have hvictim : e.victim (setIndex (lineOf (e.address + e.offset))) = slot := by
    rw [hline, setIndex_lineNo]
    have hfirst : e.firstWay = 0 := firstWay_of_unlocked (by rw [Locked, hcacr]; decide)
    refine victim_of_free (by omega) hfreed fun w hw => ?_
    rw [hkept hw.ne]
    exact (h.full w (w.isLt.trans_le hk)).1
  obtain ⟨a, hnext⟩ := next_miss (c := e) ⟨rfl, rfl, rfl⟩ Nat.one_pos
    (mode_copyback hcacr h.acr _) hfind hvictim
  rw [if_neg (by simp [hfreed])] at hnext
  exact ⟨e, _, a, hcomplete, hnext, h.filling fun w hw => hkept hw⟩

theorem Client.step_access {k : Client} {a n : ℕ} {w : Bool} {bs : List UInt8}
    (h : k.cache.access a n w bs = .ok d) :
    k.step (.access a n w bs) = { k with cache := d } :=
  step_of_ok (by rw [Client.call, h]; rfl)

theorem Client.step_next {k : Client} {a : Action} (h : k.cache.next = .ok (d, a)) :
    k.step .next = ⟨d, some a⟩ :=
  step_of_ok (by rw [Client.call, h]; rfl)

/-- While a fill is pending, an empty answer and the call after it are rejected. -/
theorem Client.step_rejected {k : Client} (hact : k.cache.active = true)
    (hp : k.cache.pending = .fill) : (k.step (.complete [])).step .next = k := by
  have hcomplete : k.call (.complete []) =
    .error (.runtimeError "short window cache line fill") := by
    rw [Client.call, complete, if_neg (by simp [hact])]
    simp only [hp]
    rfl
  have hnext : k.call .next = .error (.logicError "window cache transaction ordering error") := by
    rw [Client.call, next, if_pos (Or.inr (by simp [hp]))]
    rfl
  rw [step_of_error hcomplete, step_of_error hnext]

/-- An answer and the request after it. -/
theorem Client.step_answer {bs : List UInt8} {e f : WindowDataCache} {a : Action}
    (last : Option Action) (hcomplete : d.complete bs = .ok e) (hnext : e.next = .ok (f, a)) :
    ((⟨d, last⟩ : Client).step (.complete bs)).step .next = ⟨f, some a⟩ := by
  have hstep : (⟨d, last⟩ : Client).call (.complete bs) = .ok ⟨e, last⟩ := by
    rw [Client.call, hcomplete]
    rfl
  rw [step_of_ok hstep]
  exact step_next hnext

/-- The fill and the hit that end a write. -/
theorem Filling.foldl {set : Fin sets} {k : ℕ} {client : Client} (h : Filling set k client.cache)
    (hok : client.Ok) :
    Warm set (k + 1)
      ((client.step (.complete (List.replicate 16 0))).step .next).cache := by
  obtain ⟨d, e, a, hcomplete, hnext, hwarm⟩ := h.ends hok.inv
  rwa [Client.step_answer client.last hcomplete hnext]

/-- **One write.** It chooses the next way of its set, and the answers bring its line there. -/
theorem Warm.miss {set : Fin sets} {k : ℕ} {client : Client} (h : Warm set k client.cache)
    (hok : client.Ok) (hk : k ≤ 100) :
    ((client.step (.access (lineNo set k) 1 true [0])).step .next).cache =
      (client.cache.opened (lineNo set k) 1 true [0]).aimedAt (slotOf set (wayNo k))
        (if k < ways then .fill else .evict) ∧
      Warm set (k + 1) ((miss set k).foldl Client.step client).cache := by
  obtain ⟨a, haccess, hnext⟩ := h.opens hok.inv hk
  have hok' := (hok.step (.access (lineNo set k) 1 true [0])).step .next
  have hchosen : (client.step (.access (lineNo set k) 1 true [0])).step .next =
      ⟨(client.cache.opened (lineNo set k) 1 true [0]).aimedAt (slotOf set (wayNo k))
        (if k < ways then .fill else .evict), some a⟩ := by
    rw [Client.step_access haccess]
    exact Client.step_next hnext
  refine ⟨congrArg Client.cache hchosen, ?_⟩
  simp only [WindowDataCache.miss, List.foldl_cons, List.foldl_nil]
  rw [hchosen] at hok' ⊢
  by_cases hfree : k < ways
  · rw [if_pos hfree] at hok' ⊢
    rw [Client.step_rejected rfl rfl]
    exact (h.filling fun w _ => rfl).foldl hok'
  · rw [if_neg hfree] at hok' ⊢
    obtain ⟨e, f, b, hcomplete, hnext', hfilling⟩ :=
      h.evicts hok.inv (Nat.le_of_not_lt hfree) hok'.inv
    have hok'' := (hok'.step (.complete [])).step .next
    rw [Client.step_answer (some a) hcomplete hnext'] at hok'' ⊢
    exact hfilling.foldl hok''

/-- A cache over one region in copyback mode. -/
def warmUp : List Call := [.addRegion 0 0x100000, .movec 2 0x82000000, .next]

/-- The writes to the first `k` lines of a set. -/
def misses (set : Fin sets) (k : ℕ) : List Call := warmUp ++ (List.range k).flatMap (miss set)

theorem warm_misses (set : Fin sets) {k : ℕ} (hk : k ≤ 100) :
    Warm set k (after (misses set k)).cache := by
  induction k with
  | zero => exact ⟨rfl, rfl, rfl, rfl, rfl, fun w hw => absurd hw (Nat.not_lt_zero _),
    fun _ _ => rfl⟩
  | succ k ih =>
      have hsplit : misses set (k + 1) = misses set k ++ miss set k := by
        rw [misses, List.range_succ, List.flatMap_append, List.flatMap_singleton,
          ← List.append_assoc]
        rfl
      have hlt := Nat.le_of_succ_le hk
      rw [hsplit, after_append]
      exact ((ih hlt).miss (ok_after _) hlt).2

/-- **Without the half-lock** every way of every set is filled, and evicted, in some run. -/
theorem exists_chosen (set : Fin sets) (way : Fin ways) {p : Pending}
    (hp : p = .evict ∨ p = .fill) :
    ∃ calls, ¬Locked (after calls).cache ∧ (after calls).cache.pending = p ∧
      (after calls).cache.pendingSlot = slotOf set way := by
  obtain ⟨k, hk, hway, hkind⟩ :
      ∃ k ≤ 100, wayNo k = way ∧ (if k < ways then Pending.fill else .evict) = p := by
    have hlt := way.isLt
    rcases hp with rfl | rfl
    · refine ⟨way + ways, by simp only [ways] at *; omega, Fin.ext ?_, if_neg (by omega)⟩
      simp [wayNo, Fin.ofNat, Nat.mod_eq_of_lt hlt]
    · refine ⟨way, by simp only [ways] at *; omega, Fin.ext ?_, if_pos hlt⟩
      exact Nat.mod_eq_of_lt hlt
  have hwarm := warm_misses set hk
  refine ⟨misses set k ++ [.access (lineNo set k) 1 true [0], .next], ?_⟩
  rw [after_append]
  simp only [List.foldl_cons, List.foldl_nil]
  rw [(hwarm.miss (ok_after _) hk).1, hkind, hway]
  refine ⟨?_, rfl, rfl⟩
  rw [Locked, show ((((after (misses set k)).cache.opened (lineNo set k) 1 true [0]).aimedAt
    (slotOf set way) p).cacr) = 0x82000000 from hwarm.cacr]
  decide

/-! ### The half-lock -/

/-- **The half-lock protects ways zero and one.** While `DHLCK` stays set no eviction and no fill
selects way zero or one, and any calls but a CPUSHL and a `DCINVA` keep every valid line there that
no CPUSHL has selected before: its tag at the end, and at each call its bytes but for what a write
of the CPU hits. In every state, locked or not, the slot of an eviction or a fill lies in the set of
the line it makes room for, and is valid only if no allowed way is free. Without the half-lock every
way of every set is evicted and filled in some run. -/
theorem half_lock (calls cs : List Call)
    (hlocked : ∀ ds, ds <+: cs → Locked (after (calls ++ ds)).cache) :
    (∀ ds, ds <+: cs → ∀ s, Chooses (after (calls ++ ds)).cache s → 2 ≤ wayOf s) ∧
      ((∀ call ∈ cs, call.Spares) → ∀ s, wayOf s < 2 → ¬Selects (after calls).cache s →
        ((after calls).cache.lines s).valid = true →
          (∀ ds call, ds ++ [call] <+: cs → Keeps (after (calls ++ ds)).cache
            (after (calls ++ ds ++ [call])).cache call s) ∧
          ((after (calls ++ cs)).cache.lines s).valid = true ∧
          ((after (calls ++ cs)).cache.lines s).address = ((after calls).cache.lines s).address) ∧
      (∀ history : List Call, (after history).cache.pending = .evict ∨
        (after history).cache.pending = .fill → Chosen (after history).cache) ∧
      ∀ (set : Fin sets) (way : Fin ways) (p : Pending), p = .evict ∨ p = .fill →
        ∃ history, ¬Locked (after history).cache ∧ (after history).cache.pending = p ∧
          (after history).cache.pendingSlot = slotOf set way := by
  refine ⟨?_, ?_, ?_, ?_⟩
  · rintro ds hds s ⟨hp, rfl⟩
    exact (hlocked ds hds).chosen (discipline_after _) hp
  · intro hcs s hway hs hv
    refine ⟨fun ds call hds => ?_, Locked.run_keeps calls hcs hlocked hway hs hv⟩
    have hpart := (List.prefix_append ds [call]).trans hds
    have hspared : ∀ call ∈ ds, call.Spares := fun call hcall => hcs call (hpart.subset hcall)
    have hkept := Locked.run_keeps calls hspared (fun es hes => hlocked es (hes.trans hpart)) hway
      hs hv
    exact (hlocked ds hpart).step_keeps (calls ++ ds)
      (hcs call (hds.subset (List.mem_append_right ds (List.mem_singleton_self call)))) hway
      (not_selects_after calls hs hspared) hkept.1
  · exact fun history hp => (discipline_after history).chosen hp
  · exact fun set way p hp => exists_chosen set way hp

/-- A copyback write that brings a line to way zero, and then the half-lock. -/
def lockedLine : List Call :=
  [.addRegion 4096 64, .movec 2 0x82000000, .next, .access 4096 1 true [5], .next,
    .complete (List.replicate 16 0), .next, .movec 2 0x8a000000, .next]

/-- Under the half-lock a write still hits that line. -/
theorem half_lock_write :
    Keeps (after (lockedLine ++ [.access 4096 1 true [7]])).cache
      (after (lockedLine ++ [.access 4096 1 true [7]] ++ [.next])).cache .next 1024 ∧
      ((after (lockedLine ++ [.access 4096 1 true [7], .next])).cache.lines 1024).bytes 0 = 7 := by
  have hlocked : ∀ ds, ds <+: [.access 4096 1 true [7], .next] →
      Locked (after (lockedLine ++ ds)).cache := by
    have hinits : ∀ ds ∈ [Call.access 4096 1 true [7], .next].inits,
        Locked (after (lockedLine ++ ds)).cache := by decide +kernel
    exact fun ds hds => hinits ds ((List.mem_inits _ _).mpr hds)
  have hspares : ∀ call ∈ [Call.access 4096 1 true [7], .next], call.Spares := by
    simp [Call.Spares, Call.Invalidates]
  have hidle : ¬Selects (after lockedLine).cache 1024 := by
    rintro ⟨hpush, -⟩
    exact absurd hpush (by decide +kernel)
  refine ⟨?_, by decide +kernel⟩
  exact ((half_lock lockedLine [.access 4096 1 true [7], .next] hlocked).2.1 hspares 1024
    (by decide)
    hidle (by decide +kernel)).1 [.access 4096 1 true [7]] .next (List.prefix_refl _)

end Quetz.WindowDataCache
