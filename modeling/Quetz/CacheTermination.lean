import Quetz.CacheSafety
import Quetz.CacheService

/-!
# Every Transaction of the Window Cache Ends

An access has at most eight bytes, so it touches at most two lines. A line that is served from
memory takes one request; a line that is served from the cache takes a write-back of its victim and
a fill before it hits, and a write-through takes one request for the hit. Hence four requests are
enough for an access. The mode of the line, the lock and the victim cannot change in between,
since no control register is written during a transaction.

## Main results

* `requestsLeft_lt`: every answered request leaves fewer requests.
* `drive_spec`: a transaction whose requests are answered ends, and nothing throws on the way.
* `open_access`, `open_push`, `open_movec`: four requests for an access, one for a push and none for
  a control write.
-/

namespace Quetz.WindowDataCache

variable {c : WindowDataCache}

/-! ### Counting the requests of an access -/

/-- The requests that the current chunk still makes. -/
def chunkRequests (c : WindowDataCache) : ℕ :=
  if 2 ≤ c.mode (c.address + c.offset) ∨
      (c.write = true ∧ c.mode (c.address + c.offset) = 0) then 1
  else c.stage

/-- The lines that the access touches after the current one. -/
def linesAfter (c : WindowDataCache) : ℕ :=
  (c.address + c.count - 1) / 16 - (c.address + c.offset) / 16

/-- A bound on the requests that the open access still makes. -/
def accessRequests (c : WindowDataCache) : ℕ :=
  if c.offset < c.count then c.chunkRequests + 2 * c.linesAfter else 0

theorem chunkRequests_le (c : WindowDataCache) : c.chunkRequests ≤ 2 := by
  have := c.stage_le
  unfold chunkRequests
  split_ifs <;> omega

/-- Eight bytes touch at most two lines. -/
theorem accessRequests_le (h : c.count ≤ 8) : c.accessRequests ≤ 4 := by
  have hchunk := c.chunkRequests_le
  rw [accessRequests]
  split_ifs with ho
  · rw [linesAfter]
    omega
  · exact Nat.zero_le 4

/-- The rest of an access after its current chunk. -/
theorem accessRequests_advance {d : WindowDataCache} (haim : Aimed c) (ho : c.offset < c.count)
    (haddress : d.address = c.address) (hcount : d.count = c.count)
    (hoffset : d.offset = c.offset + c.pendingSize) : d.accessRequests ≤ 2 * c.linesAfter := by
  have hchunk := d.chunkRequests_le
  have hsize := haim.1
  rw [accessRequests]
  split_ifs with hd
  · rw [linesAfter, linesAfter]
    simp only [haddress, hcount, hoffset, lineOf, lineBytes] at *
    omega
  · exact Nat.zero_le _

/-- A chunk that is served from the cache makes the requests of its stage. -/
theorem chunkRequests_cached (h : ¬(2 ≤ c.mode (c.address + c.offset) ∨
    (c.write = true ∧ c.mode (c.address + c.offset) = 0))) : c.chunkRequests = c.stage :=
  if_neg h

/-- Allocating a line keeps the mode of the chunk. -/
theorem chunkRequests_lt {d : WindowDataCache} (h : ¬(2 ≤ c.mode (c.address + c.offset) ∨
    (c.write = true ∧ c.mode (c.address + c.offset) = 0))) (hcontrols : SameControls c d)
    (haddress : d.address = c.address) (hoffset : d.offset = c.offset) (hwrite : d.write = c.write)
    (hstage : d.stage < c.stage) : d.chunkRequests < c.chunkRequests := by
  have hd : ¬(2 ≤ d.mode (d.address + d.offset) ∨
      (d.write = true ∧ d.mode (d.address + d.offset) = 0)) := by
    rwa [hcontrols.mode, haddress, hoffset, hwrite]
  rwa [chunkRequests_cached h, chunkRequests_cached hd]

/-! ### One request -/

/-- An answered request leaves fewer requests. -/
theorem Pass.complete_accessRequests (h : Inv c) (hl : Looping c) (haim : Aimed c)
    (ho : c.offset < c.count) {c' d : WindowDataCache} {a : Action} {bs : List UInt8}
    (hpass : c.pass = .inl (c', a)) (hd : c'.complete bs = .ok d) :
    d.accessRequests < c.accessRequests := by
  have hr := hpass ▸ pass_spec c
  have hinv : Inv d := (h.pass_request hl haim ho hr).complete hd
  obtain ⟨-, hcomp⟩ := complete_ok hd
  have hbefore : c.accessRequests = c.chunkRequests + 2 * c.linesAfter := if_pos ho
  have hone (hmode : 2 ≤ c.mode (c.address + c.offset) ∨
      (c.write = true ∧ c.mode (c.address + c.offset) = 0)) : c.chunkRequests = 1 := if_pos hmode
  have hadvance (haddress : d.address = c.address) (hcount : d.count = c.count)
      (hoffset : d.offset = c.offset + c.pendingSize) (hchunk : c.chunkRequests = 1) :
      d.accessRequests < c.accessRequests := by
    have hafter := accessRequests_advance haim ho haddress hcount hoffset
    omega
  -- a request that allocates leaves the access where it is
  have hallocate (hp : c'.pending = .evict ∨ c'.pending = .fill) (hcontrols : SameControls c d)
      (haddress : d.address = c.address) (hcount : d.count = c.count)
      (hoffset : d.offset = c.offset)
      (hwrite : d.write = c.write) (hstage : d.stage < c.stage) :
      d.accessRequests < c.accessRequests := by
    have hlt := chunkRequests_lt (pass_allocates hpass hp) hcontrols haddress hoffset hwrite hstage
    have hafter : d.accessRequests = d.chunkRequests + 2 * c.linesAfter := by
      rw [accessRequests, linesAfter, linesAfter, haddress, hcount, hoffset, if_pos ho]
    omega
  cases hr with
  | bypassWrite hw hm =>
      have hchunk := hone (hm.imp_right fun h => ⟨hw, h.1⟩)
      cases hcomp with
      | bypassWrite hp => exact hadvance rfl rfl rfl hchunk
      | _ hp => cases hp
  | bypassRead hw hm =>
      have hchunk := hone (.inl hm)
      cases hcomp with
      | bypassRead hp hlen => exact hadvance rfl rfl rfl hchunk
      | _ hp => cases hp
  | evict slot hs hf hm hv hdirty =>
      cases hcomp with
      | evict hp =>
          exact hallocate (.inl rfl) ⟨rfl, rfl, rfl⟩ rfl rfl rfl rfl
            (stage_evict haim hs hf hv hdirty)
      | _ hp => cases hp
  | fill slot hs hf hm hv =>
      cases hcomp with
      | fill hp hlen =>
          exact hallocate (.inr rfl) ⟨rfl, rfl, rfl⟩ rfl rfl rfl rfl
            (stage_fill slot haim hf hinv.linesOk (by simp) (by simp) rfl rfl)
      | _ hp => cases hp
  | writeThrough slot hf hw hm =>
      have hchunk := hone (.inr ⟨hw, hm⟩)
      cases hcomp with
      | writeThrough hp => exact hadvance rfl rfl rfl hchunk
      | _ hp => cases hp

/-- A chunk that hits adds none. -/
theorem Pass.hit_accessRequests (haim : Aimed c) (ho : c.offset < c.count) {d : WindowDataCache}
    (hr : Pass c (.inr d)) : d.accessRequests ≤ c.accessRequests := by
  have hbefore : c.accessRequests = c.chunkRequests + 2 * c.linesAfter := if_pos ho
  have hadvance : d.accessRequests ≤ 2 * c.linesAfter := by
    cases hr with
    | writeHit => exact accessRequests_advance haim ho rfl rfl rfl
    | readHit => exact accessRequests_advance haim ho rfl rfl rfl
  omega

/-- The bytes that a request asks for are accepted. -/
theorem Pass.complete_accepts (hl : Looping c) {c' : WindowDataCache} {a : Action}
    (hr : Pass c (.inl (c', a))) {bs : List UInt8} (hbs : a.kind = .read → bs.length = a.size) :
    ∃ d, c'.complete bs = .ok d := by
  have hact : ¬c.active = false := by simp [hl.active]
  cases hr with
  | fill =>
      have hlen : bs.length = lineBytes := hbs rfl
      rw [complete, if_neg hact]
      dsimp only
      rw [if_neg (not_not.mpr hlen)]
      exact ⟨_, rfl⟩
  | bypassRead =>
      have hlen : bs.length = c.pendingSize := hbs rfl
      rw [complete, if_neg hact]
      dsimp only
      rw [if_neg (not_not.mpr hlen)]
      exact ⟨_, rfl⟩
  | _ =>
      rw [complete, if_neg hact]
      exact ⟨_, rfl⟩

/-! ### Driving a transaction -/

/-- Alternate `next` with the answers to its requests, `n` of them at most; `none` if the
transaction is not over by then. The requests are listed in their order. -/
def drive (answer : ℕ → Action → List UInt8) :
    ℕ → WindowDataCache → Except Exn (Option (WindowDataCache × List Action))
  | n, c =>
    match c.next with
    | .error e => .error e
    | .ok (c, a) =>
      if a.kind = .done then .ok (some (c, []))
      else
        match n with
        | 0 => .ok none
        | n + 1 =>
          match c.complete (answer n a) with
          | .error e => .error e
          | .ok c => (drive answer n c).map fun o => o.map fun (c, as) => (c, a :: as)

/-- A read is answered with the bytes it asks for. -/
def Answers (answer : ℕ → Action → List UInt8) : Prop :=
  ∀ n a, a.kind = .read → (answer n a).length = a.size

section

variable {answer : ℕ → Action → List UInt8} {n : ℕ}

/-- The transaction ends, after at most `n` requests, and leaves the cache idle. -/
def Ends (answer : ℕ → Action → List UInt8) (n : ℕ) (c : WindowDataCache) : Prop :=
  ∃ d as, drive answer n c = .ok (some (d, as)) ∧ as.length ≤ n ∧ d.active = false

theorem ends_of_done {d : WindowDataCache} {a : Action} (hn : c.next = .ok (d, a))
    (hdone : a.kind = .done) (hidle : d.active = false) : Ends answer n c := by
  refine ⟨d, [], ?_, Nat.zero_le _, hidle⟩
  rw [drive, hn]
  exact if_pos hdone

theorem ends_of_request {d e : WindowDataCache} {a : Action} (hn : c.next = .ok (d, a))
    (hkind : a.kind ≠ .done) (hd : d.complete (answer n a) = .ok e) (he : Ends answer n e) :
    Ends answer (n + 1) c := by
  obtain ⟨f, as, hdrive, hlen, hidle⟩ := he
  refine ⟨f, a :: as, ?_, Nat.succ_le_succ hlen, hidle⟩
  rw [drive, hn]
  dsimp only
  rw [if_neg hkind, hd]
  dsimp only
  rw [hdrive]
  rfl

/-- What `next` makes of an open access: it is over, or any answer of the right size is taken
and leaves fewer requests. -/
theorem next_access_spec (h : Inv c) (hl : Looping c) : ∃ d a, c.next = .ok (d, a) ∧
    ((a.kind = .done ∧ d.active = false) ∨
      (a.kind ≠ .done ∧ ∀ bs : List UInt8, (a.kind = .read → bs.length = a.size) →
        ∃ e, d.complete bs = .ok e ∧ Inv e ∧ Looping e ∧ e.accessRequests < c.accessRequests)) := by
  have hn : c.next = .ok (nextAccess (c.count - c.offset) c) := by
    refine next_eq_ok.mpr ⟨hl.active, hl.pending, ?_⟩
    rw [if_neg (by simp [hl.pushing])]
  refine ⟨_, _, hn, ?_⟩
  refine nextAccess_rule (P := fun e => Inv e ∧ Looping e ∧ e.accessRequests ≤ c.accessRequests)
    (Q := fun r => (r.2.kind = .done ∧ r.1.active = false) ∨
      (r.2.kind ≠ .done ∧ ∀ bs : List UInt8, (r.2.kind = .read → bs.length = r.2.size) →
        ∃ e, r.1.complete bs = .ok e ∧ Inv e ∧ Looping e ∧
          e.accessRequests < c.accessRequests)) ?_ ?_ ?_ _ c ⟨h, hl, le_rfl⟩ le_rfl
  · rintro e - -
    exact .inl ⟨rfl, rfl⟩
  · rintro e ⟨e', a⟩ ⟨he, hle, hrequests⟩ ho hpass
    have hr := hpass ▸ pass_spec e.aim
    refine .inr ⟨?_, fun bs hbs => ?_⟩
    · cases hr <;> simp
    · obtain ⟨d, hd⟩ := hr.complete_accepts hle.aim hbs
      have hinv := ((he.aim hle.pending).pass_request hle.aim (aimed_aim e) ho hr).complete hd
      have hlt :=
        Pass.complete_accessRequests (he.aim hle.pending) hle.aim (aimed_aim e) ho hpass hd
      obtain ⟨hact, hcomp⟩ := complete_ok hd
      obtain ⟨hactive, hpushing, hpending⟩ := hcomp.kind
      refine ⟨d, hd, hinv, ⟨hactive.trans hact, hpushing ?_, hpending⟩, ?_⟩
      · cases hr <;> exact hle.pushing
      · exact Nat.lt_of_lt_of_le hlt hrequests
  · rintro e e' ⟨he, hle, hrequests⟩ ho hpass
    have hr := hpass ▸ pass_spec e.aim
    obtain ⟨he', hle', hcount, hoff⟩ := (he.aim hle.pending).pass_hit hle.aim (aimed_aim e) ho hr
    exact ⟨⟨he', hle', (hr.hit_accessRequests (aimed_aim e) ho).trans hrequests⟩, hcount, hoff⟩

/-- An open transaction with nothing outstanding. -/
structure Open (c : WindowDataCache) : Prop where
  inv : Inv c
  active : c.active = true
  pending : c.pending = .none
  push_empty : c.pushing = true → c.count = 0

/-- A bound on the requests that the open transaction still makes. -/
def requestsLeft (c : WindowDataCache) : ℕ := if c.pushing then 1 else c.accessRequests

theorem accessRequests_empty (h : c.count = 0) : c.accessRequests = 0 :=
  if_neg (by simp [h])

/-- What `next` makes of a push. -/
theorem next_push_spec (h : Open c) (hpush : c.pushing = true) : ∃ d a, c.next = .ok (d, a) ∧
    ((a.kind = .done ∧ d.active = false) ∨
      (a.kind ≠ .done ∧ ∀ bs : List UInt8,
        ∃ e, d.complete bs = .ok e ∧ Open e ∧ e.requestsLeft = 0)) := by
  have hn : c.next = .ok c.nextPush := by
    refine next_eq_ok.mpr ⟨h.active, h.pending, ?_⟩
    rw [if_pos hpush]
  refine ⟨c.nextPush.1, c.nextPush.2, hn, ?_⟩
  by_cases hdirty : ((c.lines c.pendingSlot).valid && (c.lines c.pendingSlot).dirty) = true
  · have heq : c.nextPush = ({ c with pending := .push }, ⟨.write,
        (c.lines c.pendingSlot).address, lineBytes, List.ofFn (c.lines c.pendingSlot).bytes⟩) := by
      rw [nextPush]
      exact if_pos hdirty
    have hinv := heq ▸ h.inv.nextPush h.active hpush h.pending
    rw [heq]
    refine .inr ⟨by simp, fun bs => ?_⟩
    have hact : ¬(WindowDataCache.active { c with pending := .push }) = false := by simp [h.active]
    have hcomp : ∃ e, complete { c with pending := .push } bs = .ok e := by
      rw [complete, if_neg hact]
      exact ⟨_, rfl⟩
    obtain ⟨e, he⟩ := hcomp
    have hempty := h.push_empty hpush
    refine ⟨e, he, ?_⟩
    have hinv' := hinv.complete he
    obtain ⟨-, hcompletes⟩ := complete_ok he
    cases hcompletes with
    | push => exact ⟨⟨hinv', h.active, rfl, fun hpush => by cases hpush⟩,
      accessRequests_empty hempty⟩
    | _ hp => cases hp
  · rw [nextPush]
    dsimp only
    rw [if_neg hdirty]
    exact .inl ⟨rfl, rfl⟩

/-- **One round.** The transaction is over, or any answer of the right size is taken and leaves
fewer requests. -/
theorem requestsLeft_lt (h : Open c) : ∃ d a, c.next = .ok (d, a) ∧
    ((a.kind = .done ∧ d.active = false) ∨
      (a.kind ≠ .done ∧ ∀ bs : List UInt8, (a.kind = .read → bs.length = a.size) →
        ∃ e, d.complete bs = .ok e ∧ Open e ∧ e.requestsLeft < c.requestsLeft)) := by
  cases hpush : c.pushing with
  | true =>
      obtain ⟨d, a, hn, hdone | ⟨hkind, hd⟩⟩ := next_push_spec h hpush
      · exact ⟨d, a, hn, .inl hdone⟩
      · refine ⟨d, a, hn, .inr ⟨hkind, fun bs _ => ?_⟩⟩
        obtain ⟨e, he, hopen, hzero⟩ := hd bs
        refine ⟨e, he, hopen, ?_⟩
        rw [hzero, requestsLeft, if_pos hpush]
        exact Nat.one_pos
  | false =>
      obtain ⟨d, a, hn, hdone | ⟨hkind, hd⟩⟩ := next_access_spec h.inv ⟨h.active, hpush, h.pending⟩
      · exact ⟨d, a, hn, .inl hdone⟩
      · refine ⟨d, a, hn, .inr ⟨hkind, fun bs hbs => ?_⟩⟩
        obtain ⟨e, he, hinv, hl, hlt⟩ := hd bs hbs
        refine ⟨e, he, ⟨hinv, hl.active, hl.pending, fun hp => ?_⟩, ?_⟩
        · exact absurd (hl.pushing.symm.trans hp) Bool.false_ne_true
        · rwa [requestsLeft, requestsLeft, if_neg (by simp [hl.pushing]), if_neg (by simp [hpush])]

/-- **A transaction whose requests are answered ends**, and nothing throws on the way. -/
theorem drive_spec (hanswer : Answers answer) : ∀ (n : ℕ) (c : WindowDataCache), Open c →
    c.requestsLeft ≤ n → Ends answer n c := by
  intro n
  induction n with
  | zero =>
      intro c h hn
      obtain ⟨d, a, hnext, ⟨hdone, hidle⟩ | ⟨hkind, hd⟩⟩ := requestsLeft_lt h
      · exact ends_of_done hnext hdone hidle
      · obtain ⟨e, -, -, hlt⟩ := hd _ (hanswer 0 a)
        exact absurd (Nat.lt_of_lt_of_le hlt hn) (Nat.not_lt_zero _)
  | succ n ih =>
      intro c h hn
      obtain ⟨d, a, hnext, ⟨hdone, hidle⟩ | ⟨hkind, hd⟩⟩ := requestsLeft_lt h
      · exact ends_of_done hnext hdone hidle
      · obtain ⟨e, hcomp, he, hlt⟩ := hd _ (hanswer n a)
        exact ends_of_request hnext hkind hcomp
          (ih e he (Nat.le_of_lt_succ (Nat.lt_of_lt_of_le hlt hn)))

end

/-! ### Opened transactions -/

/-- An accepted access makes at most four requests. -/
theorem open_access (h : Inv c) {a n : ℕ} {w : Bool} {bs : List UInt8} {d : WindowDataCache}
    (hd : c.access a n w bs = .ok d) : Open d ∧ d.requestsLeft ≤ 4 := by
  have hinv := h.access hd
  obtain ⟨-, -, hsmall, -, -, rfl⟩ := access_ok hd
  exact ⟨⟨hinv, rfl, rfl, fun hpush => by cases hpush⟩, accessRequests_le hsmall⟩

/-- An accepted CPUSHL makes at most one. -/
theorem open_push (h : Inv c) {i : BitVec 16} {o : BitVec 32} {d : WindowDataCache}
    (hd : c.push i o = .ok d) : Open d ∧ d.requestsLeft ≤ 1 := by
  have hinv := h.push hd
  obtain ⟨-, -, heq⟩ := push_eq_ok.mp hd
  rw [select] at heq
  split_ifs at heq
  · obtain rfl := heq
    have hzero : c.started.requestsLeft = 0 := @accessRequests_empty c.started rfl
    exact ⟨⟨hinv, rfl, rfl, fun hpush => by cases hpush⟩, hzero.le.trans (Nat.zero_le 1)⟩
  · obtain rfl := heq
    exact ⟨⟨hinv, rfl, rfl, fun _ => rfl⟩, Nat.le_refl 1⟩

/-- An accepted control write makes none. -/
theorem open_movec (h : Inv c) {reg : ℕ} {value : BitVec 32} {d : WindowDataCache}
    (hd : c.movec reg value = .ok d) : Open d ∧ d.requestsLeft ≤ 0 := by
  have hinv := h.movec hd
  obtain ⟨-, -, heq⟩ := movec_eq_ok.mp hd
  have hopen : d.active = true ∧ d.pending = .none ∧ d.pushing = false ∧ d.count = 0 := by
    rw [heq, control]
    split_ifs <;> exact ⟨rfl, rfl, rfl, rfl⟩
  obtain ⟨hact, hpend, hpush, hcount⟩ := hopen
  refine ⟨⟨hinv, hact, hpend, fun _ => hcount⟩, ?_⟩
  rw [requestsLeft, if_neg (by simp [hpush]), accessRequests_empty hcount]

end Quetz.WindowDataCache
