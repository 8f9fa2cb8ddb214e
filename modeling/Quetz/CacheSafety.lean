import Quetz.CacheDirty

/-!
# What Every State of the Window Cache Guarantees

The representation invariant of a cache in the terms of its lines, for every state that calls of
the public interface reach, rejected calls included: what holds of the lines, and what the slot of
an outstanding request still is. From it follows where the backing requests of a cache go.

## Main results

* `represented_after`: the representation invariant.
* `next_actionOk`: a backing request lies in one region and carries as many bytes as it says.
* `discipline_after`: how a victim was chosen, in every state, and that a push is alone.
-/

namespace Quetz.WindowDataCache

variable {c : WindowDataCache}

/-! ### The representation -/

/-- The state of a cache, and of the request it waits for, which is the last one handed out. -/
structure Represented (k : Client) : Prop where
  dirty_valid : ∀ s, (k.cache.lines s).dirty = true → (k.cache.lines s).valid = true
  aligned : ∀ s, (k.cache.lines s).valid = true → 16 ∣ (k.cache.lines s).address
  within : ∀ s, (k.cache.lines s).valid = true → ∃ r ∈ k.cache.regions,
    r.base ≤ (k.cache.lines s).address ∧ (k.cache.lines s).address + 16 ≤ r.base + r.size
  home : ∀ s, (k.cache.lines s).valid = true → setOf s = setIndex (k.cache.lines s).address
  unique : ∀ s t, (k.cache.lines s).valid = true → (k.cache.lines t).valid = true →
    (k.cache.lines s).address = (k.cache.lines t).address → s = t
  replacement : (k.cache.replacement : ℕ) < 4
  writeBack : k.cache.pending = .evict ∨ k.cache.pending = .push →
    HoldsDirty k.cache k.cache.pendingSlot (k.cache.lines k.cache.pendingSlot).address ∧
      k.last = some ⟨.write, (k.cache.lines k.cache.pendingSlot).address, 16,
        List.ofFn (k.cache.lines k.cache.pendingSlot).bytes⟩
  fill : k.cache.pending = .fill → setOf k.cache.pendingSlot = setIndex k.cache.pendingAddress ∧
    ¬((k.cache.lines k.cache.pendingSlot).valid = true ∧
      (k.cache.lines k.cache.pendingSlot).dirty = true) ∧
    ∀ s, (k.cache.lines s).valid = true → (k.cache.lines s).address ≠ k.cache.pendingAddress
  writeThrough : k.cache.pending = .writeThrough →
    (k.cache.lines k.cache.pendingSlot).valid = true ∧
      (k.cache.lines k.cache.pendingSlot).address = k.cache.pendingAddress

/-- A consistent client is represented as the interface promises. -/
theorem Client.Ok.represented {k : Client} (h : k.Ok) : Represented k := by
  have hlines := h.inv.linesOk
  have hpend := h.inv.pendingOk
  rw [PendingOk] at hpend
  constructor
  · exact hlines.dirty_valid
  · exact fun s hs => Nat.dvd_of_mod_eq_zero (hlines.aligned s hs)
  · exact hlines.within
  · exact hlines.home
  · exact hlines.unique
  · exact k.cache.replacement.isLt
  · rintro (hp | hp)
    · rw [hp] at hpend
      obtain ⟨-, -, -, -, hv, hd⟩ := hpend
      exact ⟨⟨hv, hd, rfl⟩, h.writesBack (.inl hp)⟩
    · rw [hp] at hpend
      obtain ⟨-, -, hv, hd⟩ := hpend
      exact ⟨⟨hv, hd, rfl⟩, h.writesBack (.inr hp)⟩
  · intro hp
    rw [hp] at hpend
    obtain ⟨-, -, -, -, hset, hclean, habsent⟩ := hpend
    exact ⟨hset, hclean, habsent⟩
  · intro hp
    rw [hp] at hpend
    obtain ⟨-, -, -, -, -, hv, ha⟩ := hpend
    exact ⟨hv, ha⟩

/-- **The representation invariant** holds after any calls on a fresh cache. -/
theorem represented_after (calls : List Call) : Represented (after calls) :=
  (ok_after calls).represented

/-! ### Backing requests -/

/-- A backing request asks for some bytes of one region, and a write brings them. -/
structure ActionOk (rs : List Region) (a : Action) : Prop where
  size_pos : 1 ≤ a.size
  within : Within rs a.address a.size
  length : a.kind = .write → a.bytes.length = a.size

/-- The chunk of an access lies in the region of the access. -/
theorem Inv.within_chunk (h : Inv c) (hact : c.active = true) (haim : Aimed c)
    (ho : c.offset < c.count) :
    Within c.regions (c.address + c.offset) c.pendingSize := by
  obtain ⟨-, hsize, -, -⟩ := haim.bounds ho
  obtain ⟨r, hr, hlo, hhi⟩ := (h.accessOk hact).within (Nat.zero_lt_of_lt ho)
  exact ⟨r, hr, hlo.trans (Nat.le_add_right _ _), by omega⟩

/-- The requests of a loop pass. -/
theorem Pass.actionOk (h : Inv c) (hact : c.active = true) (haim : Aimed c)
    (ho : c.offset < c.count) {c' : WindowDataCache} {a : Action} (hr : Pass c (.inl (c', a))) :
    ActionOk c.regions a := by
  obtain ⟨hpos, hsize, -, -⟩ := haim.bounds ho
  have hchunk := length_chunk (h.accessOk hact) hsize
  have hwithin := h.within_chunk hact haim ho
  cases hr with
  | bypassWrite => exact ⟨hpos, hwithin, fun _ => hchunk⟩
  | bypassRead => exact ⟨hpos, hwithin, fun hk => by cases hk⟩
  | evict slot hs hf hm hv hd =>
      exact ⟨Nat.le_add_left 1 15, h.linesOk.within _ hv, fun _ => List.length_ofFn⟩
  | fill =>
      refine ⟨Nat.le_add_left 1 15, ?_, fun hk => by cases hk⟩
      rw [haim.2]
      exact hwithin.line h.regionsOk hpos
  | writeThrough => exact ⟨hpos, hwithin, fun _ => hchunk⟩

/-- **Every backing request stays inside one region**, whatever state the cache is in. -/
theorem next_actionOk (h : Inv c) {c' : WindowDataCache} {a : Action}
    (hn : c.next = .ok (c', a)) (hkind : a.kind ≠ .done) : ActionOk c.regions a := by
  obtain ⟨hact, hpend, heq⟩ := next_eq_ok.mp hn
  split_ifs at heq with hpush
  · rw [nextPush] at heq
    dsimp only at heq
    split_ifs at heq with hdirty
    · obtain ⟨rfl, rfl⟩ := Prod.mk.inj heq
      rw [Bool.and_eq_true] at hdirty
      exact ⟨Nat.le_add_left 1 15, h.linesOk.within _ hdirty.1, fun _ => List.length_ofFn⟩
    all_goals
      obtain ⟨-, rfl⟩ := Prod.mk.inj heq
      exact absurd rfl hkind
  · obtain ⟨rfl, rfl⟩ := Prod.ext_iff.mp heq
    refine nextAccess_induct (P := fun e => Inv e ∧ Looping e ∧ e.regions = c.regions)
      (Q := fun r => r.2.kind ≠ .done → ActionOk c.regions r.2) ?_ ?_ ?_ _ c
      ⟨h, ⟨hact, by simpa using hpush, hpend⟩, rfl⟩ le_rfl hkind
    · rintro e - - hdone
      exact absurd rfl hdone
    · rintro e ⟨e', a⟩ ⟨he, hle, hregions⟩ ho hr -
      have hok := hr.actionOk (he.aim hle.pending) hle.active (aimed_aim e) ho
      rwa [show e.aim.regions = c.regions from hregions] at hok
    · rintro e e' ⟨he, hle, hregions⟩ ho hr
      obtain ⟨he', hle', hcount, hoff⟩ :=
        (he.aim hle.pending).pass_hit hle.aim (aimed_aim e) ho hr
      refine ⟨⟨he', hle', ?_⟩, hcount, hoff⟩
      cases hr <;> exact hregions

/-! ### The discipline of the transactions -/

/-- The way of a slot in its set. -/
def wayOf (s : Slot) : ℕ := s % ways

@[simp] theorem wayOf_slotOf (set : Fin sets) (way : Fin ways) :
    wayOf (slotOf set way) = way := by
  have := way.isLt
  simp only [wayOf, slotOf, ways] at *
  omega

/-- The pending slot was chosen for the pending line: it lies in the set of the line and is not
locked, and it is valid only if no other allowed way is free. -/
structure Chosen (c : WindowDataCache) : Prop where
  set : setOf c.pendingSlot = setIndex c.pendingAddress
  allowed : c.firstWay ≤ wayOf c.pendingSlot
  invalid_first : (c.lines c.pendingSlot).valid = true → ∀ w : Fin ways, c.firstWay ≤ w →
    (c.lines (slotOf (setIndex c.pendingAddress) w)).valid = true

/-- What the open transaction keeps to, besides the representation invariant: a push accesses
nothing, a closed transaction is no push, and a slot to evict or to fill was chosen for its line. -/
structure Discipline (c : WindowDataCache) : Prop where
  push_empty : c.pushing = true → c.count = 0
  idle : c.active = false → c.pushing = false
  chosen : c.pending = .evict ∨ c.pending = .fill → Chosen c

/-- The victim of the aimed line. -/
theorem chosen_victim {d : WindowDataCache} (hlines : d.lines = c.lines) (hcacr : d.cacr = c.cacr)
    (haddress : d.pendingAddress = c.pendingAddress)
    (hslot : d.pendingSlot = c.victim (setIndex c.pendingAddress)) : Chosen d := by
  have hfirst : d.firstWay = c.firstWay := by rw [firstWay, firstWay, hcacr]
  refine ⟨?_, ?_, fun hv w hw => ?_⟩
  · rw [hslot, haddress, setOf_victim]
  · obtain ⟨w, hw, hvictim⟩ := @victim_allowed c (setIndex c.pendingAddress)
    rwa [hslot, hvictim, wayOf_slotOf, hfirst]
  · rw [hslot, hlines] at hv
    rw [hlines, haddress]
    by_contra hinvalid
    rw [victim_invalid (hfirst ▸ hw) (Bool.not_eq_true _ ▸ hinvalid)] at hv
    cases hv

/-- Nothing is outstanding, and no push is open. -/
theorem Discipline.of_none (hpush : c.pushing = false) (hpend : c.pending = .none) :
    Discipline c where
  push_empty := fun hp => absurd (hpush.symm.trans hp) Bool.false_ne_true
  idle := fun _ => hpush
  chosen := by
    rw [hpend]
    rintro (hp | hp) <;> cases hp

/-- A request of a loop pass. -/
theorem Pass.discipline (hl : Looping c) {c' : WindowDataCache} {a : Action}
    (hr : Pass c (.inl (c', a))) : Discipline c' := by
  have hpush : c'.pushing = false := by
    cases hr <;> exact hl.pushing
  refine ⟨fun hp => absurd (hpush.symm.trans hp) Bool.false_ne_true, fun _ => hpush, fun hp => ?_⟩
  cases hr with
  | evict slot hs => exact chosen_victim rfl rfl rfl hs
  | fill slot hs => exact chosen_victim rfl rfl rfl hs
  | _ => rcases hp with hp | hp <;> cases hp

/-- The next request keeps the discipline. -/
theorem Discipline.next (h : Discipline c) (hinv : Inv c) {r : WindowDataCache × Action}
    (hn : c.next = .ok r) : Discipline r.1 := by
  obtain ⟨hact, hpend, rfl⟩ := next_eq_ok.mp hn
  split_ifs with hpush
  · rw [nextPush]
    dsimp only
    split_ifs with hdirty
    · refine ⟨fun _ => h.push_empty hpush, fun ha => ?_, fun hp => ?_⟩
      · exact absurd (hact.symm.trans ha) (by simp)
      · rcases hp with hp | hp <;> cases hp
    all_goals
      exact .of_none rfl hpend
  · refine nextAccess_induct (P := fun e => Inv e ∧ Looping e) (Q := fun r => Discipline r.1)
      ?_ ?_ ?_ _ c ⟨hinv, hact, by simpa using hpush, hpend⟩ le_rfl
    · rintro e ⟨-, hle⟩ -
      exact .of_none hle.pushing hle.pending
    · rintro e ⟨e', a⟩ ⟨-, hle⟩ - hr
      exact hr.discipline hle.aim
    · rintro e e' ⟨he, hle⟩ ho hr
      obtain ⟨he', hle', hcount, hoff⟩ :=
        (he.aim hle.pending).pass_hit hle.aim (aimed_aim e) ho hr
      exact ⟨⟨he', hle'⟩, hcount, hoff⟩

/-- An answer keeps the discipline. -/
theorem Discipline.complete (h : Discipline c) {bs : List UInt8} {d : WindowDataCache}
    (hc : c.complete bs = .ok d) : Discipline d := by
  obtain ⟨hact, hcomp⟩ := complete_ok hc
  have hopen {p : Prop} (ha : c.active = false) : p :=
    absurd (hact.symm.trans ha) (by simp)
  cases hcomp with
  | push => exact .of_none rfl rfl
  | _ =>
      refine ⟨h.push_empty, fun ha => hopen ha, fun hp => ?_⟩
      rcases hp with hp | hp <;> cases hp

/-- Every call keeps the discipline. -/
theorem Discipline.call {k k' : Client} {call : Call} (h : Discipline k.cache)
    (hinv : Inv k.cache) (hk : k.call call = .ok k') : Discipline k'.cache := by
  have hregion {b n : ℕ} (hadd : k.cache.addRegion b n = .ok k'.cache) : Discipline k'.cache := by
    obtain ⟨-, hcache⟩ := addRegion_ok hadd
    rw [hcache]
    refine ⟨h.push_empty, h.idle, fun hp => ?_⟩
    obtain ⟨hset, hallowed, hinvalid⟩ := h.chosen hp
    exact ⟨hset, hallowed, hinvalid⟩
  cases call with
  | access a n w bs =>
      obtain ⟨-, -, -, -, -, hcache⟩ := access_ok (map_cache_eq_ok hk).1
      rw [hcache]
      exact .of_none rfl rfl
  | movec reg value =>
      obtain ⟨-, -, hcache⟩ := movec_eq_ok.mp (map_cache_eq_ok hk).1
      rw [hcache, control]
      split_ifs <;> exact .of_none rfl rfl
  | push i o =>
      obtain ⟨-, -, hcache⟩ := push_eq_ok.mp (map_cache_eq_ok hk).1
      rw [hcache, select]
      split_ifs
      · exact .of_none rfl rfl
      · refine ⟨fun _ => rfl, (fun hidle => by cases hidle), ?_⟩
        rintro (hp | hp) <;> cases hp
  | next =>
      cases hn : k.cache.next with
      | error e =>
          simp only [Client.call, hn] at hk
          cases hk
      | ok r =>
          simp only [Client.call, hn] at hk
          cases hk
          exact h.next hinv hn
  | complete bs => exact h.complete (map_cache_eq_ok hk).1
  | reset =>
      obtain ⟨hc, -⟩ := map_cache_eq_ok hk
      rw [reset] at hc
      split_ifs at hc with hact
      have hidle : k.cache.active = false := by simpa using hact
      rw [← Except.ok.inj hc]
      exact .of_none (h.idle hidle) (hinv.pending_of_idle hidle)
  | addRegion b n => exact hregion (map_cache_eq_ok hk).1
  | configure b n => exact hregion (configure_ok (map_cache_eq_ok hk).1)

/-- **Every reachable cache keeps the discipline.** -/
theorem discipline_after (calls : List Call) : Discipline (after calls).cache := by
  induction calls using List.reverseRecOn with
  | nil => exact .of_none rfl rfl
  | append_singleton calls call ih =>
      rw [after, List.foldl_append]
      change Discipline ((after calls).step call).cache
      cases hk : (after calls).call call with
      | error e => rwa [Client.step_of_error hk]
      | ok k' =>
          rw [Client.step_of_ok hk]
          exact ih.call (ok_after calls).inv hk

end Quetz.WindowDataCache
