import Mathlib.Data.List.Pairwise
import Quetz.WindowCache

/-!
# The Representation Invariant of the Window Data Cache

The lines of a cache are consistent (`LinesOk`) when every dirty line is valid, every valid
line is aligned, lies in a configured region and sits in the set its address maps to, and no
two valid lines carry the same address. `Inv` adds what the open transaction relies on: the
access stays inside one region, and the slot and the address recorded for an outstanding
backing request still mean what they meant when the request was handed out.

One pass of the access loop is described once, by the relation `Pass`, and every later
argument about `next` goes through `pass_spec` instead of unfolding the loop body.

## Main results

* `find_eq_some` / `find_eq_none`: a lookup finds a line exactly when it is resident.
* `pass_spec`: the complete list of what one loop pass can do.
* `Inv.addRegion`, `Inv.access`, `Inv.movec`, `Inv.push`, `Inv.next`, `Inv.complete`,
  `Inv.reset`: every public operation keeps the invariant.
-/

open ByteMemory

namespace Quetz.WindowDataCache

/-! ### Slots and sets -/

/-- The set a slot belongs to. -/
def setOf (s : Slot) : ℕ := s / ways

@[simp] theorem setOf_slotOf (set : Fin sets) (way : Fin ways) :
    setOf (slotOf set way) = set := by
  have := way.isLt
  simp only [setOf, slotOf, ways] at *
  omega

/-- Every slot of a set is one of its ways. -/
theorem exists_way {s : Slot} {set : Fin sets} (h : setOf s = set) :
    ∃ way, s = slotOf set way := by
  refine ⟨⟨s % ways, Nat.mod_lt _ (by decide)⟩, ?_⟩
  apply Fin.ext
  simp only [setOf, slotOf, ways] at *
  omega

/-! ### Lines of addresses -/

theorem lineOf_mod (a : ℕ) : lineOf a % 16 = 0 := by
  simp only [lineOf, lineBytes]
  omega

theorem lineOf_le (a : ℕ) : lineOf a ≤ a := by
  simp only [lineOf, lineBytes]
  omega

theorem lt_lineOf_add (a : ℕ) : a < lineOf a + 16 := by
  simp only [lineOf, lineBytes]
  omega

/-- The line of an address is the aligned block around it. -/
theorem lineOf_eq {a b : ℕ} (hb : b % 16 = 0) (h₁ : b ≤ a) (h₂ : a < b + 16) :
    lineOf a = b := by
  simp only [lineOf, lineBytes]
  omega

/-! ### Consistent lines -/

/-- A region as `addRegion` accepts it. -/
structure RegionOk (r : Region) : Prop where
  base_aligned : r.base % 16 = 0
  size_aligned : r.size % 16 = 0
  below : r.base + r.size ≤ 2 ^ 32

/-- The span `[a, a + n)` lies in one of the regions. -/
def Within (rs : List Region) (a n : ℕ) : Prop :=
  ∃ r ∈ rs, r.base ≤ a ∧ a + n ≤ r.base + r.size

/-- The line of an address inside a region lies inside that region. -/
theorem Within.line {rs : List Region} (hrs : ∀ r ∈ rs, RegionOk r) {a n : ℕ} (hn : 0 < n)
    (h : Within rs a n) : Within rs (lineOf a) 16 := by
  obtain ⟨r, hr, hlo, hhi⟩ := h
  obtain ⟨hb, hs, -⟩ := hrs r hr
  refine ⟨r, hr, ?_, ?_⟩ <;> simp only [lineOf, lineBytes] <;> omega

/-- Consistency of the line array. -/
structure LinesOk (rs : List Region) (ls : Slot → Line) : Prop where
  dirty_valid : ∀ s, (ls s).dirty = true → (ls s).valid = true
  aligned : ∀ s, (ls s).valid = true → (ls s).address % 16 = 0
  home : ∀ s, (ls s).valid = true → setOf s = setIndex (ls s).address
  within : ∀ s, (ls s).valid = true → Within rs (ls s).address 16
  unique : ∀ s t, (ls s).valid = true → (ls t).valid = true →
    (ls s).address = (ls t).address → s = t

/-- An edit that validates no line, retags no valid one and leaves no invalid line dirty
keeps the lines consistent. -/
theorem LinesOk.mono {rs : List Region} {ls ls' : Slot → Line} (h : LinesOk rs ls)
    (hv : ∀ s, (ls' s).valid = true →
      (ls s).valid = true ∧ (ls' s).address = (ls s).address)
    (hd : ∀ s, (ls' s).dirty = true → (ls' s).valid = true) : LinesOk rs ls' where
  dirty_valid := hd
  aligned s hs := by
    obtain ⟨hs', ha⟩ := hv s hs
    rw [ha]
    exact h.aligned s hs'
  home s hs := by
    obtain ⟨hs', ha⟩ := hv s hs
    rw [ha]
    exact h.home s hs'
  within s hs := by
    obtain ⟨hs', ha⟩ := hv s hs
    rw [ha]
    exact h.within s hs'
  unique s t hs ht hst := by
    obtain ⟨hs', ha⟩ := hv s hs
    obtain ⟨ht', hb⟩ := hv t ht
    exact h.unique s t hs' ht' (by rw [← ha, ← hb, hst])

/-- More regions keep the lines consistent. -/
theorem LinesOk.append {rs : List Region} {ls : Slot → Line} (h : LinesOk rs ls)
    (r : Region) : LinesOk (rs ++ [r]) ls where
  dirty_valid := h.dirty_valid
  aligned := h.aligned
  home := h.home
  within s hs := by
    obtain ⟨r', hr', hspan⟩ := h.within s hs
    exact ⟨r', List.mem_append_left _ hr', hspan⟩
  unique := h.unique

/-- Replacing the line of one slot by an edited version of itself. -/
theorem LinesOk.update_self {rs : List Region} {ls : Slot → Line} (h : LinesOk rs ls)
    (s : Slot) (line : Line)
    (hv : line.valid = true → (ls s).valid = true ∧ line.address = (ls s).address)
    (hd : line.dirty = true → line.valid = true) :
    LinesOk rs (Function.update ls s line) := by
  refine h.mono (fun t => ?_) (fun t => ?_)
  · by_cases hts : t = s
    · subst hts
      simpa using hv
    · simp [hts]
  · by_cases hts : t = s
    · subst hts
      simpa using hd
    · simpa [hts] using h.dirty_valid t

/-- Allocating an absent line in its own set. -/
theorem LinesOk.fill {rs : List Region} {ls : Slot → Line} (h : LinesOk rs ls) {s : Slot}
    {la : ℕ} (bytes : Fin lineBytes → UInt8) (hal : la % 16 = 0)
    (hset : setOf s = setIndex la) (hin : Within rs la 16)
    (habs : ∀ t, (ls t).valid = true → (ls t).address ≠ la) :
    LinesOk rs (Function.update ls s { bytes := bytes, address := la, valid := true }) := by
  have key : ∀ t, t ≠ s →
      Function.update ls s { bytes := bytes, address := la, valid := true } t = ls t :=
    fun t ht => Function.update_of_ne ht _ _
  constructor
  · intro t ht
    by_cases hts : t = s
    · subst hts
      simp at ht
    · rw [key t hts] at ht ⊢
      exact h.dirty_valid t ht
  · intro t ht
    by_cases hts : t = s
    · subst hts
      simpa using hal
    · rw [key t hts] at ht ⊢
      exact h.aligned t ht
  · intro t ht
    by_cases hts : t = s
    · subst hts
      simpa using hset
    · rw [key t hts] at ht ⊢
      exact h.home t ht
  · intro t ht
    by_cases hts : t = s
    · subst hts
      simpa using hin
    · rw [key t hts] at ht ⊢
      exact h.within t ht
  · intro t u ht hu htu
    by_cases hts : t = s <;> by_cases hus : u = s
    · rw [hts, hus]
    · subst hts
      rw [key u hus] at hu htu
      simp only [Function.update_self] at htu
      exact absurd htu.symm (habs u hu)
    · subst hus
      rw [key t hts] at ht htu
      simp only [Function.update_self] at htu
      exact absurd htu (habs t ht)
    · rw [key t hts] at ht htu
      rw [key u hus] at hu htu
      exact h.unique t u ht hu htu

/-! ### Lookup and replacement -/

variable {c : WindowDataCache}

/-- A lookup that succeeds returns a valid line with that address, in its set. -/
theorem find_eq_some {la : ℕ} {s : Slot} (h : c.find la = some s) :
    (c.lines s).valid = true ∧ (c.lines s).address = la ∧ setOf s = setIndex la := by
  have hmem := List.mem_of_find?_eq_some h
  have hp := List.find?_some h
  obtain ⟨w, -, rfl⟩ := List.mem_map.mp hmem
  simp only [Bool.and_eq_true, beq_iff_eq] at hp
  exact ⟨hp.1, hp.2, setOf_slotOf _ _⟩

/-- A lookup fails exactly when no valid line has that address. -/
theorem find_eq_none {rs : List Region} (hl : LinesOk rs c.lines) {la : ℕ} :
    c.find la = none ↔ ∀ s, (c.lines s).valid = true → (c.lines s).address ≠ la := by
  constructor
  · intro h s hs ha
    have hset : setOf s = setIndex la := by rw [hl.home s hs, ha]
    obtain ⟨w, rfl⟩ := exists_way hset
    have hnone := List.find?_eq_none.mp h (slotOf (setIndex la) w)
      (List.mem_map_of_mem (List.mem_finRange w))
    simp [hs, ha] at hnone
  · intro h
    refine List.find?_eq_none.mpr fun s _ hs => ?_
    simp only [Bool.and_eq_true, beq_iff_eq] at hs
    exact h s hs.1 hs.2

/-- A resident line is found in its own slot. -/
theorem find_of_valid {rs : List Region} (hl : LinesOk rs c.lines) {s : Slot}
    (hs : (c.lines s).valid = true) : c.find (c.lines s).address = some s := by
  cases hf : c.find (c.lines s).address with
  | none => exact absurd rfl ((find_eq_none hl).mp hf s hs)
  | some t =>
      obtain ⟨ht, ha, -⟩ := find_eq_some hf
      rw [hl.unique t s ht hs ha]

/-- The victim of a set belongs to the set. -/
@[simp] theorem setOf_victim (set : Fin sets) : setOf (c.victim set) = set := by
  rw [victim]
  split <;> exact setOf_slotOf _ _

/-- With an invalid allowed way in the set, the victim is invalid. -/
theorem victim_invalid {set : Fin sets} {w : Fin ways} (hw : c.firstWay ≤ w)
    (hi : (c.lines (slotOf set w)).valid = false) :
    (c.lines (c.victim set)).valid = false := by
  rw [victim]
  split
  · next w' hf =>
      have hp := List.find?_some hf
      simp only [Bool.and_eq_true, Bool.not_eq_true'] at hp
      exact hp.2
  · next hf =>
      have := List.find?_eq_none.mp hf w (List.mem_finRange w)
      simp [hw, hi] at this

/-- The victim is one of the ways the half-lock allows. -/
theorem victim_allowed (set : Fin sets) :
    ∃ w : Fin ways, c.firstWay ≤ w ∧ c.victim set = slotOf set w := by
  rw [victim]
  split
  · next w' hf =>
      have hp := List.find?_some hf
      simp only [Bool.and_eq_true, decide_eq_true_eq] at hp
      exact ⟨w', hp.1, rfl⟩
  · refine ⟨c.roundRobin, ?_, rfl⟩
    unfold roundRobin firstWay
    split <;> simp_all

/-! ### One pass of the access loop -/

/-- The pass is aimed: its size and line are those of the chunk at `offset`. -/
def Aimed (c : WindowDataCache) : Prop :=
  c.pendingSize =
      min (c.count - c.offset) (16 - (c.address + c.offset - lineOf (c.address + c.offset))) ∧
    c.pendingAddress = lineOf (c.address + c.offset)

theorem aimed_aim (c : WindowDataCache) : Aimed c.aim := ⟨rfl, rfl⟩

/-- Everything one pass of the access loop can do. -/
inductive Pass (c : WindowDataCache) : (WindowDataCache × Action) ⊕ WindowDataCache → Prop
  | bypassWrite (hw : c.write = true)
      (hm : 2 ≤ c.mode (c.address + c.offset) ∨
        c.mode (c.address + c.offset) = 0 ∧ c.find c.pendingAddress = none) :
      Pass c (.inl ({ c with pending := .bypassWrite },
        ⟨.write, c.address + c.offset, c.pendingSize, c.chunk⟩))
  | bypassRead (hw : c.write = false) (hm : 2 ≤ c.mode (c.address + c.offset)) :
      Pass c (.inl ({ c with pending := .bypassRead },
        ⟨.read, c.address + c.offset, c.pendingSize, []⟩))
  | evict (slot : Slot) (hs : slot = c.victim (setIndex c.pendingAddress))
      (hf : c.find c.pendingAddress = none) (hm : c.mode (c.address + c.offset) < 2)
      (hv : (c.lines slot).valid = true) (hd : (c.lines slot).dirty = true) :
      Pass c (.inl ({ c with pendingSlot := slot, pending := .evict },
        ⟨.write, (c.lines slot).address, 16, List.ofFn (c.lines slot).bytes⟩))
  | fill (slot : Slot) (hs : slot = c.victim (setIndex c.pendingAddress))
      (hf : c.find c.pendingAddress = none) (hm : c.mode (c.address + c.offset) < 2)
      (hv : ¬((c.lines slot).valid = true ∧ (c.lines slot).dirty = true)) :
      Pass c (.inl ({ c with pendingSlot := slot, pending := .fill },
        ⟨.read, c.pendingAddress, 16, []⟩))
  | writeThrough (slot : Slot) (hf : c.find c.pendingAddress = some slot)
      (hw : c.write = true) (hm : c.mode (c.address + c.offset) = 0) :
      Pass c (.inl ({ c with
          lines := Function.update c.lines slot { c.lines slot with
            bytes := copyInto (c.lines slot).bytes
              (c.address + c.offset - c.pendingAddress) c.chunk }
          pending := .writeThrough, pendingSlot := slot },
        ⟨.write, c.address + c.offset, c.pendingSize, c.chunk⟩))
  | writeHit (slot : Slot) (hf : c.find c.pendingAddress = some slot)
      (hw : c.write = true) (hm : c.mode (c.address + c.offset) = 1) :
      Pass c (.inr { c with
        lines := Function.update c.lines slot { c.lines slot with
          bytes := copyInto (c.lines slot).bytes
            (c.address + c.offset - c.pendingAddress) c.chunk
          dirty := true }
        offset := c.offset + c.pendingSize })
  | readHit (slot : Slot) (hf : c.find c.pendingAddress = some slot)
      (hw : c.write = false) (hm : c.mode (c.address + c.offset) < 2) :
      Pass c (.inr { c with
        bytes := overwrite c.bytes c.offset
          (((List.ofFn (c.lines slot).bytes).drop
            (c.address + c.offset - c.pendingAddress)).take c.pendingSize)
        offset := c.offset + c.pendingSize })

/-- The loop body does one of the things `Pass` lists. -/
theorem pass_spec (c : WindowDataCache) : Pass c c.pass := by
  rw [pass]
  dsimp only
  by_cases hb : c.mode (c.address + c.offset) ≥ 2 ∨
      (c.write = true ∧ c.mode (c.address + c.offset) = 0 ∧ c.find c.pendingAddress = none)
  · rw [if_pos hb]
    split_ifs with hw
    · refine .bypassWrite hw ?_
      rcases hb with hb | ⟨-, hm, hf⟩
      · exact Or.inl hb
      · exact Or.inr ⟨hm, hf⟩
    · exact .bypassRead (by simpa using hw) (by simpa [hw] using hb)
  · rw [if_neg hb]
    rw [not_or] at hb
    obtain ⟨hm, hwt⟩ := hb
    split
    · next hf =>
        split_ifs with hvd
        · rw [Bool.and_eq_true] at hvd
          exact .evict _ rfl hf (by omega) hvd.1 hvd.2
        · rw [Bool.and_eq_true] at hvd
          exact .fill _ rfl hf (by omega) hvd
    · next slot hf =>
        split_ifs with hw hm0
        · exact .writeThrough slot hf hw hm0
        · exact .writeHit slot hf hw (by omega)
        · exact .readHit slot hf (by simpa using hw) (by omega)

/-- A line is allocated only for a chunk that is served from the cache. -/
theorem pass_allocates {c' : WindowDataCache} {a : Action} (h : c.pass = .inl (c', a))
    (hp : c'.pending = .evict ∨ c'.pending = .fill) :
    ¬(2 ≤ c.mode (c.address + c.offset) ∨
      (c.write = true ∧ c.mode (c.address + c.offset) = 0)) := by
  rintro hb
  rw [pass] at h
  dsimp only at h
  by_cases hf : c.find c.pendingAddress = none
  · have hbypass : c.mode (c.address + c.offset) ≥ 2 ∨
        (c.write = true ∧ c.mode (c.address + c.offset) = 0 ∧ c.find c.pendingAddress = none) :=
      hb.imp_right fun hw => ⟨hw.1, hw.2, hf⟩
    rw [if_pos hbypass] at h
    split_ifs at h <;> cases h <;> rcases hp with hp | hp <;> cases hp
  · obtain ⟨slot, hslot⟩ := Option.ne_none_iff_exists'.mp hf
    simp only [hslot] at h
    split_ifs at h <;> cases h <;> rcases hp with hp | hp <;> cases hp

/-! ### The invariant -/

/-- The open access stays inside one region and its buffer has the announced length. -/
structure AccessOk (rs : List Region) (address count offset : ℕ) (bytes : List UInt8) :
    Prop where
  offset_le : offset ≤ count
  length : bytes.length = count
  small : count ≤ 8
  within : 0 < count → Within rs address count

/-- What an outstanding backing request relies on. -/
def PendingOk (c : WindowDataCache) : Prop :=
  match c.pending with
  | .none => True
  | .push => c.active = true ∧ c.pushing = true ∧
      (c.lines c.pendingSlot).valid = true ∧ (c.lines c.pendingSlot).dirty = true
  | p => c.active = true ∧ c.pushing = false ∧ c.offset < c.count ∧ Aimed c ∧
    match p with
    | .fill => setOf c.pendingSlot = setIndex c.pendingAddress ∧
        ¬((c.lines c.pendingSlot).valid = true ∧ (c.lines c.pendingSlot).dirty = true) ∧
        ∀ s, (c.lines s).valid = true → (c.lines s).address ≠ c.pendingAddress
    | .evict => (c.lines c.pendingSlot).valid = true ∧ (c.lines c.pendingSlot).dirty = true
    | .writeThrough => c.write = true ∧ (c.lines c.pendingSlot).valid = true ∧
        (c.lines c.pendingSlot).address = c.pendingAddress
    | .bypassWrite => c.write = true
    | _ => c.write = false

/-- Two regions share no address. -/
def Apart (r r' : Region) : Prop :=
  ¬(r'.base < r.base + r.size ∧ r.base < r'.base + r'.size)

instance : Std.Symm Apart := ⟨fun _ _ h => by unfold Apart at *; omega⟩

/-- The representation invariant of the cache. -/
structure Inv (c : WindowDataCache) : Prop where
  regionsOk : ∀ r ∈ c.regions, RegionOk r
  apart : c.regions.Pairwise Apart
  linesOk : LinesOk c.regions c.lines
  accessOk : c.active = true → AccessOk c.regions c.address c.count c.offset c.bytes
  pendingOk : PendingOk c

/-- A default cache satisfies the invariant. -/
theorem inv_default : Inv {} where
  regionsOk := by simp
  apart := List.Pairwise.nil
  linesOk := by constructor <;> intros <;> simp_all
  accessOk := by simp
  pendingOk := trivial

/-- An idle cache has nothing outstanding. -/
theorem Inv.pending_of_idle (h : Inv c) (hi : c.active = false) : c.pending = .none := by
  have hp := h.pendingOk
  rw [PendingOk] at hp
  split at hp <;> simp_all

/-! ### Opening a transaction -/

/-- The state `start` leaves behind. -/
def started (c : WindowDataCache) : WindowDataCache :=
  { c with
    active := true, pending := .none, pushing := false, count := 0, offset := 0,
    bytes := [], write := false }

theorem start_of_idle (h : c.active = false) : c.start = .ok c.started := by
  rw [start, if_neg (by simp [h])]
  rfl

theorem start_of_active (h : c.active = true) :
    c.start = .error (.logicError "overlapping window cache transactions") := by
  rw [start, if_pos h]

/-- A transaction opens exactly on an idle cache. -/
theorem start_map_eq_ok {c' : WindowDataCache} {f : WindowDataCache → WindowDataCache} :
    c.start.map f = .ok c' ↔ c.active = false ∧ c' = f c.started := by
  cases ha : c.active with
  | true =>
      rw [start_of_active ha]
      simp [Except.map]
  | false =>
      rw [start_of_idle ha]
      simp [Except.map, eq_comm]

/-- The state `access` leaves behind. -/
def opened (c : WindowDataCache) (address size : ℕ) (write : Bool) (bytes : List UInt8) :
    WindowDataCache :=
  { c with
    active := true, pending := .none, pushing := false
    address := address, count := size, offset := 0, write := write
    bytes := if write then bytes else List.replicate size 0 }

/-- An accepted access: what was checked, and the state it opens. -/
theorem access_ok {a n : ℕ} {w : Bool} {bs : List UInt8} {c' : WindowDataCache}
    (h : c.access a n w bs = .ok c') :
    c.active = false ∧ 0 < n ∧ n ≤ 8 ∧ Within c.regions a n ∧
      (w = true → bs.length = n) ∧ c' = c.opened a n w bs := by
  rw [access] at h
  split at h
  · cases h
  · next r hr =>
      split at h
      · cases h
      · next hc =>
          have hmem := List.mem_of_find?_eq_some hr
          have hin := List.find?_some hr
          simp only [decide_eq_true_eq] at hin
          obtain ⟨hidle, rfl⟩ := start_map_eq_ok.mp h
          have hlen : w = true → bs.length = n := by
            intro hw
            by_contra hne
            exact hc (Or.inr (Or.inr (Or.inr ⟨hw, hne⟩)))
          exact ⟨hidle, by omega, by omega, ⟨r, hmem, hin.1, by omega⟩, hlen, rfl⟩

/-- The region of an address inside a region is that region. -/
theorem regionFor_eq (h : Inv c) {r : Region} (hr : r ∈ c.regions) {a : ℕ} (hlo : r.base ≤ a)
    (hhi : a < r.base + r.size) : c.regionFor a = some r := by
  cases hf : c.regionFor a with
  | none =>
      have hnone := List.find?_eq_none.mp hf r hr
      simp only [decide_eq_true_eq] at hnone
      omega
  | some r' =>
      have hmem := List.mem_of_find?_eq_some hf
      have hin := List.find?_some hf
      simp only [decide_eq_true_eq] at hin
      by_contra hne
      have hapart := h.apart.forall hr hmem fun he => hne (he ▸ rfl)
      exact hapart ⟨by omega, by omega⟩

/-- Every small access inside a region is accepted by an idle cache. -/
theorem access_of_within (h : Inv c) (hidle : c.active = false) {a n : ℕ} (w : Bool)
    (bs : List UInt8) (hn : 0 < n) (hn8 : n ≤ 8) (hin : Within c.regions a n)
    (hw : w = true → bs.length = n) : c.access a n w bs = .ok (c.opened a n w bs) := by
  obtain ⟨r, hr, hlo, hhi⟩ := hin
  have hfor : c.regionFor a = some r := regionFor_eq h hr hlo (by omega)
  have hcheck : ¬(n = 0 ∨ n > 8 ∨ n > r.size - (a - r.base) ∨
      (w = true ∧ bs.length ≠ n)) := by
    rintro (h0 | h8 | hs | ⟨hwt, hne⟩)
    · omega
    · omega
    · omega
    · exact hne (hw hwt)
  simp only [access, hfor, hcheck, if_false]
  exact start_map_eq_ok.mpr ⟨hidle, rfl⟩

/-- The control writes `movec` accepts. -/
def ControlOk (reg : ℕ) (v : BitVec 32) : Prop :=
  (reg = 2 ∧ v &&& 0x60000000 = 0) ∨ ((reg = 4 ∨ reg = 5) ∧ v &&& 4 = 0) ∨
    reg = 6 ∨ reg = 7

theorem movec_eq_ok {reg : ℕ} {v : BitVec 32} {c' : WindowDataCache} :
    c.movec reg v = .ok c' ↔
      c.active = false ∧ ControlOk reg v ∧ c' = c.started.control reg v := by
  unfold movec ControlOk
  split_ifs with h₁ h₂ h₃
  · rw [false_iff]
    rintro ⟨-, h, -⟩
    omega
  · rw [false_iff]
    rintro ⟨-, ⟨-, h⟩ | ⟨h, -⟩ | h | h, -⟩
    · exact h₂.2 h
    all_goals omega
  · rw [false_iff]
    rintro ⟨-, ⟨h, -⟩ | ⟨-, h⟩ | h | h, -⟩
    · omega
    · exact h₃.2 h
    all_goals omega
  · rw [start_map_eq_ok]
    have hok : (reg = 2 ∧ v &&& 0x60000000 = 0) ∨ ((reg = 4 ∨ reg = 5) ∧ v &&& 4 = 0) ∨
        reg = 6 ∨ reg = 7 := by
      by_cases hreg : reg = 2
      · exact Or.inl ⟨hreg, by_contra fun h => h₂ ⟨hreg, h⟩⟩
      · by_cases h45 : reg = 4 ∨ reg = 5
        · exact Or.inr (Or.inl ⟨h45, by_contra fun h => h₃ ⟨h45, h⟩⟩)
        · omega
    exact ⟨fun ⟨ha, he⟩ => ⟨ha, hok, he⟩, fun ⟨ha, _, he⟩ => ⟨ha, he⟩⟩

/-- The CPUSHL encodings `push` accepts. -/
def PushOk (i : BitVec 16) : Prop := i &&& 0xff38 = 0xf428 ∧ i &&& 0xc0 ≠ 0

instance (i : BitVec 16) : Decidable (PushOk i) := inferInstanceAs (Decidable (_ ∧ _))

theorem push_eq_ok {i : BitVec 16} {o : BitVec 32} {c' : WindowDataCache} :
    c.push i o = .ok c' ↔ c.active = false ∧ PushOk i ∧ c' = c.started.select i o := by
  unfold push PushOk
  split_ifs with h₁
  · rw [false_iff]
    rintro ⟨-, ⟨h, h'⟩, -⟩
    rcases h₁ with h₁ | h₁
    · exact h₁ h
    · exact h' h₁
  · rw [start_map_eq_ok]
    have hok : i &&& 0xff38 = 0xf428 ∧ i &&& 0xc0 ≠ 0 :=
      ⟨not_not.mp fun h => h₁ (Or.inl h), fun h => h₁ (Or.inr h)⟩
    exact ⟨fun ⟨ha, he⟩ => ⟨ha, hok, he⟩, fun ⟨ha, _, he⟩ => ⟨ha, he⟩⟩

/-! ### Answers -/

/-- Everything an accepted answer can do. -/
inductive Completes (c : WindowDataCache) (bs : List UInt8) : WindowDataCache → Prop
  | fill (hp : c.pending = .fill) (hlen : bs.length = 16) :
      Completes c bs { c with
        lines := Function.update c.lines c.pendingSlot
          { bytes := fun i => bs.getD i 0, address := c.pendingAddress, valid := true }
        replacement := c.replacement + 1, pending := .none }
  | bypassRead (hp : c.pending = .bypassRead) (hlen : bs.length = c.pendingSize) :
      Completes c bs { c with
        bytes := overwrite c.bytes c.offset bs
        offset := c.offset + c.pendingSize, pending := .none }
  | push (hp : c.pending = .push) :
      Completes c bs { c with
        lines := Function.update c.lines c.pendingSlot { c.lines c.pendingSlot with
          dirty := false
          valid := if c.invalidatePush then false else (c.lines c.pendingSlot).valid }
        pushing := false, pending := .none }
  | evict (hp : c.pending = .evict) :
      Completes c bs { c with
        lines := Function.update c.lines c.pendingSlot { c.lines c.pendingSlot with
          valid := false, dirty := false }
        pending := .none }
  | bypassWrite (hp : c.pending = .bypassWrite) :
      Completes c bs { c with offset := c.offset + c.pendingSize, pending := .none }
  | writeThrough (hp : c.pending = .writeThrough) :
      Completes c bs { c with
        lines := Function.update c.lines c.pendingSlot { c.lines c.pendingSlot with
          dirty := false }
        offset := c.offset + c.pendingSize, pending := .none }

/-- An accepted answer does one of the things `Completes` lists. -/
theorem complete_ok {bs : List UInt8} {c' : WindowDataCache} (h : c.complete bs = .ok c') :
    c.active = true ∧ Completes c bs c' := by
  rw [complete] at h
  split at h
  · cases h
  next ha =>
    refine ⟨by simpa using ha, ?_⟩
    dsimp only at h
    split at h
    · cases h
    · next hp =>
        split at h
        · cases h
        · next hlen => cases h; exact .fill hp (not_not.mp hlen)
    · next hp =>
        split at h
        · cases h
        · next hlen => cases h; exact .bypassRead hp (not_not.mp hlen)
    · next hp => cases h; exact .push hp
    · next hp => cases h; exact .evict hp
    · next hp => cases h; exact .bypassWrite hp
    · next hp => cases h; exact .writeThrough hp

/-! ### Every operation keeps the invariant -/

/-- A chunk lies in one line and has the size the pass announced. -/
theorem Aimed.bounds (h : Aimed c) (ho : c.offset < c.count) :
    0 < c.pendingSize ∧ c.offset + c.pendingSize ≤ c.count ∧
      c.pendingAddress ≤ c.address + c.offset ∧
      c.address + c.offset + c.pendingSize ≤ c.pendingAddress + 16 := by
  obtain ⟨hsize, hline⟩ := h
  have h₁ := lineOf_le (c.address + c.offset)
  have h₂ := lt_lineOf_add (c.address + c.offset)
  refine ⟨?_, ?_, ?_, ?_⟩ <;> omega

theorem length_chunk (ha : AccessOk c.regions c.address c.count c.offset c.bytes)
    (hsize : c.offset + c.pendingSize ≤ c.count) :
    c.chunk.length = c.pendingSize := by
  have := ha.length
  simp only [chunk, List.length_take, List.length_drop]
  omega

/-- An accepted region is appended to those of an idle cache. -/
theorem addRegion_ok {base size : ℕ} {c' : WindowDataCache}
    (h : c.addRegion base size = .ok c') :
    c.active = false ∧ c' = { c with regions := c.regions ++ [⟨base, size⟩] } := by
  rw [WindowDataCache.addRegion] at h
  split_ifs at h with hact
  cases h
  exact ⟨by simpa using hact, rfl⟩

/-- A configured cache has exactly the region it was given. -/
theorem configure_ok {base size : ℕ} {c' : WindowDataCache}
    (h : c.configure base size = .ok c') : c.addRegion base size = .ok c' := by
  rw [configure] at h
  split_ifs at h
  exact h

/-- Adding an accepted region. -/
theorem Inv.addRegion {base size : ℕ} {c' : WindowDataCache} (h : Inv c)
    (hc : c.addRegion base size = .ok c') : Inv c' := by
  rw [WindowDataCache.addRegion] at hc
  split_ifs at hc with hact hbad hover
  cases hc
  have hidle : c.active = false := by simpa using hact
  have hpend := h.pending_of_idle hidle
  refine ⟨?_, ?_, h.linesOk.append _, ?_, ?_⟩
  · intro r hr
    rcases List.mem_append.mp hr with hr | hr
    · exact h.regionsOk r hr
    · obtain rfl := List.mem_singleton.mp hr
      constructor <;> simp only [lineBytes] at * <;> omega
  · refine List.pairwise_append.mpr ⟨h.apart, List.pairwise_singleton _ _, ?_⟩
    intro r hr r' hr' hov
    obtain rfl := List.mem_singleton.mp hr'
    exact hover (List.any_eq_true.mpr ⟨r, hr, by simpa using hov⟩)
  · intro ha
    simp [hidle] at ha
  · simp [PendingOk, hpend]

/-- Resetting the controls. -/
theorem Inv.reset {c' : WindowDataCache} (h : Inv c) (hc : c.reset = .ok c') : Inv c' := by
  rw [WindowDataCache.reset] at hc
  split_ifs at hc with hact
  cases hc
  have hidle : c.active = false := by simpa using hact
  refine ⟨h.regionsOk, h.apart, h.linesOk, ?_, ?_⟩
  · intro ha
    simp [hidle] at ha
  · simp [PendingOk, h.pending_of_idle hidle]

/-- A freshly started transaction touches no line and has nothing outstanding. -/
theorem Inv.started (h : Inv c) : Inv c.started :=
  ⟨h.regionsOk, h.apart, h.linesOk, fun _ => ⟨le_rfl, rfl, by simp [WindowDataCache.started],
    by simp [WindowDataCache.started]⟩, trivial⟩

/-- Opening an access. -/
theorem Inv.access {a n : ℕ} {w : Bool} {bs : List UInt8} {c' : WindowDataCache} (h : Inv c)
    (hc : c.access a n w bs = .ok c') : Inv c' := by
  obtain ⟨-, hn, hn8, hin, hlen, rfl⟩ := access_ok hc
  refine ⟨h.regionsOk, h.apart, h.linesOk, fun _ => ⟨Nat.zero_le _, ?_, hn8, fun _ => hin⟩,
    trivial⟩
  cases w with
  | true => simpa [opened] using hlen rfl
  | false => simp [opened]

/-- Dropping every line keeps the lines consistent. -/
theorem LinesOk.invalidateAll {rs : List Region} {ls : Slot → Line} (h : LinesOk rs ls) :
    LinesOk rs (invalidateAll ls) :=
  h.mono (fun s hs => by simp [WindowDataCache.invalidateAll] at hs)
    (fun s hs => by simp [WindowDataCache.invalidateAll] at hs)

/-- Writing a control register. -/
theorem Inv.movec {reg : ℕ} {v : BitVec 32} {c' : WindowDataCache} (h : Inv c)
    (hc : c.movec reg v = .ok c') : Inv c' := by
  obtain ⟨-, -, rfl⟩ := movec_eq_ok.mp hc
  have hs := h.started
  rw [control]
  split_ifs
  · exact ⟨hs.regionsOk, hs.apart, hs.linesOk.invalidateAll, hs.accessOk, trivial⟩
  · exact ⟨hs.regionsOk, hs.apart, hs.linesOk, hs.accessOk, trivial⟩
  · exact ⟨hs.regionsOk, hs.apart, hs.linesOk, hs.accessOk, trivial⟩

/-- Opening a push. -/
theorem Inv.push {i : BitVec 16} {o : BitVec 32} {c' : WindowDataCache} (h : Inv c)
    (hc : c.push i o = .ok c') : Inv c' := by
  obtain ⟨-, -, rfl⟩ := push_eq_ok.mp hc
  have hs := h.started
  rw [select]
  split_ifs
  · exact hs
  · exact ⟨hs.regionsOk, hs.apart, hs.linesOk, hs.accessOk, trivial⟩

/-- The chunk of an outstanding request advances the access inside its bounds. -/
theorem AccessOk.advance {rs : List Region} {a n o : ℕ} {bs bs' : List UInt8} {k : ℕ}
    (h : AccessOk rs a n o bs) (hk : o + k ≤ n) (hlen : bs'.length = bs.length) :
    AccessOk rs a n (o + k) bs' :=
  ⟨hk, hlen.trans h.length, h.small, h.within⟩

/-- Taking an answer. -/
theorem Inv.complete {bs : List UInt8} {c' : WindowDataCache} (h : Inv c)
    (hc : c.complete bs = .ok c') : Inv c' := by
  obtain ⟨hact, hcomp⟩ := complete_ok hc
  have hp := h.pendingOk
  rw [PendingOk] at hp
  cases hcomp with
  | fill hfill hlen =>
      simp only [hfill] at hp
      obtain ⟨-, hpush, ho, haim, hset, -, habs⟩ := hp
      have hacc := h.accessOk hact
      have hin : Within c.regions c.pendingAddress 16 := by
        obtain ⟨r, hr, hlo, hhi⟩ := hacc.within (by omega)
        rw [haim.2]
        exact Within.line h.regionsOk (n := 1) one_pos ⟨r, hr, by omega, by omega⟩
      have hal : c.pendingAddress % 16 = 0 := by
        rw [haim.2]
        exact lineOf_mod _
      exact ⟨h.regionsOk, h.apart, h.linesOk.fill _ hal hset hin habs, h.accessOk, trivial⟩
  | bypassRead hbr hlen =>
      simp only [hbr] at hp
      obtain ⟨-, hpush, ho, haim, -⟩ := hp
      have hb := haim.bounds ho
      have hacc := h.accessOk hact
      refine ⟨h.regionsOk, h.apart, h.linesOk, fun _ => ?_, trivial⟩
      have := hacc.length
      exact hacc.advance hb.2.1 (length_overwrite (by omega))
  | push hpsh =>
      refine ⟨h.regionsOk, h.apart, h.linesOk.update_self _ _ ?_ ?_, h.accessOk, trivial⟩
      · intro hv
        simp only at hv
        split at hv
        · cases hv
        · exact ⟨hv, rfl⟩
      · simp
  | evict hev =>
      simp only [hev] at hp
      obtain ⟨-, hpush, -⟩ := hp
      refine ⟨h.regionsOk, h.apart, h.linesOk.update_self _ _ ?_ ?_, h.accessOk, trivial⟩
      · simp
      · simp
  | bypassWrite hbw =>
      simp only [hbw] at hp
      obtain ⟨-, hpush, ho, haim, -⟩ := hp
      have hb := haim.bounds ho
      exact ⟨h.regionsOk, h.apart, h.linesOk,
        fun _ => (h.accessOk hact).advance hb.2.1 rfl, trivial⟩
  | writeThrough hwt =>
      simp only [hwt] at hp
      obtain ⟨-, hpush, ho, haim, -⟩ := hp
      have hb := haim.bounds ho
      refine ⟨h.regionsOk, h.apart, h.linesOk.update_self _ _ ?_ ?_,
        fun _ => (h.accessOk hact).advance hb.2.1 rfl, trivial⟩
      · exact fun hv => ⟨hv, rfl⟩
      · simp

/-- The state the access loop works in: an open access with nothing outstanding. -/
structure Looping (c : WindowDataCache) : Prop where
  active : c.active = true
  pushing : c.pushing = false
  pending : c.pending = .none

/-- Aiming the loop at its next chunk. -/
theorem Inv.aim (h : Inv c) (hp : c.pending = .none) : Inv c.aim :=
  ⟨h.regionsOk, h.apart, h.linesOk, h.accessOk, by
    unfold PendingOk WindowDataCache.aim
    simp [hp]⟩

theorem Looping.aim (h : Looping c) : Looping c.aim := ⟨h.active, h.pushing, h.pending⟩

/-- The bytes a read hit copies out of a line. -/
theorem length_hit (h : Aimed c) (ho : c.offset < c.count) (line : Line) :
    (((List.ofFn line.bytes).drop (c.address + c.offset - c.pendingAddress)).take
      c.pendingSize).length = c.pendingSize := by
  obtain ⟨-, -, hlo, hhi⟩ := h.bounds ho
  simp only [List.length_take, List.length_drop, List.length_ofFn, lineBytes]
  omega

/-- A pass that asks for a backing request keeps the invariant. -/
theorem Inv.pass_request (h : Inv c) (hl : Looping c) (haim : Aimed c)
    (ho : c.offset < c.count) {c' : WindowDataCache} {a : Action}
    (hr : Pass c (.inl (c', a))) : Inv c' := by
  cases hr with
  | bypassWrite hw hm =>
      exact ⟨h.regionsOk, h.apart, h.linesOk, h.accessOk, hl.active, hl.pushing, ho, haim, hw⟩
  | bypassRead hw hm =>
      exact ⟨h.regionsOk, h.apart, h.linesOk, h.accessOk, hl.active, hl.pushing, ho, haim, hw⟩
  | evict slot hs hf hm hv hd =>
      exact ⟨h.regionsOk, h.apart, h.linesOk, h.accessOk, hl.active, hl.pushing, ho, haim,
        hv, hd⟩
  | fill slot hs hf hm hv =>
      refine ⟨h.regionsOk, h.apart, h.linesOk, h.accessOk, hl.active, hl.pushing, ho, haim,
        ?_, hv, ?_⟩
      · rw [hs]
        exact setOf_victim _
      · exact (find_eq_none h.linesOk).mp hf
  | writeThrough slot hf hw hm =>
      obtain ⟨hv, ha, -⟩ := find_eq_some hf
      refine ⟨h.regionsOk, h.apart, h.linesOk.update_self _ _ ?_ ?_, h.accessOk, hl.active,
        hl.pushing, ho, haim, hw, ?_, ?_⟩
      · exact fun hv => ⟨hv, rfl⟩
      · exact fun _ => hv
      · simpa using hv
      · simpa using ha

/-- A pass that hits keeps the invariant and the loop state, and moves the offset forward
inside the access. -/
theorem Inv.pass_hit (h : Inv c) (hl : Looping c) (haim : Aimed c) (ho : c.offset < c.count)
    {c' : WindowDataCache} (hr : Pass c (.inr c')) :
    Inv c' ∧ Looping c' ∧ c'.count = c.count ∧ c.offset < c'.offset := by
  have hacc := h.accessOk hl.active
  have hb := haim.bounds ho
  have hpend := hl.pending
  cases hr with
  | writeHit slot hf hw hm =>
      obtain ⟨hv, -, -⟩ := find_eq_some hf
      refine ⟨⟨h.regionsOk, h.apart, h.linesOk.update_self _ _ ?_ ?_,
        fun _ => hacc.advance hb.2.1 rfl, ?_⟩, ⟨hl.active, hl.pushing, hl.pending⟩, rfl, ?_⟩
      · exact fun hv => ⟨hv, rfl⟩
      · exact fun _ => hv
      · simp [PendingOk, hpend]
      · exact Nat.lt_add_of_pos_right hb.1
  | readHit slot hf hw hm =>
      have hlen := length_hit haim ho (c.lines slot)
      have hclen := hacc.length
      refine ⟨⟨h.regionsOk, h.apart, h.linesOk,
        fun _ => hacc.advance hb.2.1 (length_overwrite (by omega)), ?_⟩,
        ⟨hl.active, hl.pushing, hl.pending⟩, rfl, Nat.lt_add_of_pos_right hb.1⟩
      simp [PendingOk, hpend]

/-- Closing a transaction. -/
theorem Inv.finish (h : Inv c) (hp : c.pending = .none) : Inv c.finish.1 := by
  refine ⟨h.regionsOk, h.apart, h.linesOk, fun ha => ?_, ?_⟩
  · simp [WindowDataCache.finish] at ha
  · simp [PendingOk, WindowDataCache.finish, hp]

/-- **The access-loop rule.** A property of the loop state that hits keep, and that yields
`Q` both at a backing request and at the end of the access, gives `Q` of the whole loop. The
induction is on the passes left; `count - offset` of them are always enough. -/
theorem nextAccess_rule {P : WindowDataCache → Prop} {Q : WindowDataCache × Action → Prop}
    (hstop : ∀ c, P c → ¬c.offset < c.count → Q c.finish)
    (hreq : ∀ c r, P c → c.offset < c.count → c.aim.pass = .inl r → Q r)
    (hhit : ∀ c d, P c → c.offset < c.count → c.aim.pass = .inr d →
      P d ∧ d.count = c.count ∧ c.offset < d.offset) (n : ℕ) :
    ∀ c, P c → c.count - c.offset ≤ n → Q (nextAccess n c) := by
  induction n with
  | zero =>
      intro c hc hn
      exact hstop c hc (by omega)
  | succ n ih =>
      intro c hc hn
      rw [nextAccess]
      split
      · next ho =>
          cases hp : c.aim.pass with
          | inl r => exact hreq c r hc ho hp
          | inr d =>
              obtain ⟨hd, hcount, hoff⟩ := hhit c d hc ho hp
              exact ih d hd (by omega)
      · next ho => exact hstop c hc ho

/-- The access-loop rule in terms of what a pass can do. -/
theorem nextAccess_induct {P : WindowDataCache → Prop} {Q : WindowDataCache × Action → Prop}
    (hstop : ∀ c, P c → ¬c.offset < c.count → Q c.finish)
    (hreq : ∀ c r, P c → c.offset < c.count → Pass c.aim (.inl r) → Q r)
    (hhit : ∀ c d, P c → c.offset < c.count → Pass c.aim (.inr d) →
      P d ∧ d.count = c.count ∧ c.offset < d.offset) (n : ℕ) :
    ∀ c, P c → c.count - c.offset ≤ n → Q (nextAccess n c) :=
  nextAccess_rule hstop (fun c r hc ho hp => hreq c r hc ho (hp ▸ pass_spec c.aim))
    (fun c d hc ho hp => hhit c d hc ho (hp ▸ pass_spec c.aim)) n

/-- The access loop keeps the invariant. -/
theorem Inv.nextAccess (h : Inv c) (hl : Looping c) :
    Inv (nextAccess (c.count - c.offset) c).1 := by
  refine nextAccess_induct (P := fun c => Inv c ∧ Looping c) (Q := fun r => Inv r.1)
    ?_ ?_ ?_ _ c ⟨h, hl⟩ le_rfl
  · rintro c ⟨h, hl⟩ -
    exact h.finish hl.pending
  · rintro c ⟨c', a⟩ ⟨h, hl⟩ ho hr
    exact (h.aim hl.pending).pass_request hl.aim (aimed_aim c) ho hr
  · rintro c d ⟨h, hl⟩ ho hr
    obtain ⟨hd, hld, hcount, hoff⟩ :=
      (h.aim hl.pending).pass_hit hl.aim (aimed_aim c) ho hr
    exact ⟨⟨hd, hld⟩, hcount, hoff⟩

/-- The push branch of `next`. -/
theorem Inv.nextPush (h : Inv c) (ha : c.active = true) (hpush : c.pushing = true)
    (hp : c.pending = .none) : Inv c.nextPush.1 := by
  rw [WindowDataCache.nextPush]
  dsimp only
  split
  · next hvd =>
      rw [Bool.and_eq_true] at hvd
      exact ⟨h.regionsOk, h.apart, h.linesOk, h.accessOk, ha, hpush, hvd.1, hvd.2⟩
  · next hvd =>
      rw [Bool.and_eq_true, not_and] at hvd
      refine Inv.finish ⟨h.regionsOk, h.apart, ?_, h.accessOk, ?_⟩ hp
      · split
        · refine h.linesOk.update_self _ _ (by simp) fun hd => ?_
          exact absurd hd (hvd (h.linesOk.dirty_valid _ hd))
        · exact h.linesOk
      · simp [PendingOk, hp]

/-- What an accepted `next` computes. -/
theorem next_eq_ok {r : WindowDataCache × Action} :
    c.next = .ok r ↔ c.active = true ∧ c.pending = .none ∧
      r = if c.pushing then c.nextPush else nextAccess (c.count - c.offset) c := by
  rw [next]
  split
  · next h =>
      refine iff_of_false (fun h' => by cases h') ?_
      rintro ⟨ha, hp, -⟩
      simp [ha, hp] at h
  · next h =>
      rw [not_or, Bool.not_eq_false, not_not] at h
      obtain ⟨ha, hp⟩ := h
      split
      · simp [ha, hp, eq_comm]
      · simp [ha, hp, eq_comm]

/-- Asking for the next backing request. -/
theorem Inv.next {r : WindowDataCache × Action} (h : Inv c) (hc : c.next = .ok r) :
    Inv r.1 := by
  obtain ⟨ha, hp, rfl⟩ := next_eq_ok.mp hc
  split
  · next hpush => exact h.nextPush ha hpush hp
  · next hpush => exact h.nextAccess ⟨ha, by simpa using hpush, hp⟩

/-! ### The regions never move -/

/-- Asking for the next backing request changes no region. -/
theorem next_regions {r : WindowDataCache × Action} (h : Inv c) (hc : c.next = .ok r) :
    r.1.regions = c.regions := by
  obtain ⟨ha, hp, rfl⟩ := next_eq_ok.mp hc
  split
  · rw [WindowDataCache.nextPush]
    dsimp only
    split <;> rfl
  · next hpush =>
      refine nextAccess_induct (P := fun d => Inv d ∧ Looping d ∧ d.regions = c.regions)
        (Q := fun r => r.1.regions = c.regions) ?_ ?_ ?_ _ c
        ⟨h, ⟨ha, by simpa using hpush, hp⟩, rfl⟩ le_rfl
      · rintro d ⟨-, -, hr⟩ -
        exact hr
      · rintro d ⟨e, a⟩ ⟨-, -, hr⟩ - hpass
        cases hpass <;> exact hr
      · rintro d e ⟨hd, hld, hr⟩ ho hpass
        obtain ⟨he, hle, hcount, hoff⟩ :=
          (hd.aim hld.pending).pass_hit hld.aim (aimed_aim d) ho hpass
        refine ⟨⟨he, hle, ?_⟩, hcount, hoff⟩
        cases hpass <;> exact hr

end Quetz.WindowDataCache
