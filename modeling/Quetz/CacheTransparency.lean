import Mathlib.Data.List.Induction
import Quetz.CacheInvariant

/-!
# Transparency of the Window Data Cache

A cache and the memory behind it together stand for one flat memory. `Backs c m v` is that
abstraction relation: every resident line holds the bytes of `v`, and the backing memory
agrees with `v` off the dirty lines. Each backing request, together with its answer, keeps
the relation or moves the flat memory by the chunk the request belongs to, so a transaction
that runs to `done` acts on `v` as one atomic read or write.

`drain` is the driver of one transaction: it asks `next`, answers from a single memory and
hands the answer to `complete`, until `done`. Its fuel is a function of the opened
transaction, and `drain` never runs out of it.

## Main results

* `drain_access`: an access to the cache is the same access to the flat memory.
* `reads_return_last_write`: in every run, each read returns the bytes last written.
-/

open ByteMemory

namespace Quetz.WindowDataCache

/-! ### Running a transaction -/

/-- The bytes a memory answers to a backing request. -/
def answer (m : ℕ → UInt8) (a : Action) : List UInt8 :=
  if a.kind = .read then readSpan m a.address a.size else []

/-- The memory after a backing request. -/
def store (m : ℕ → UInt8) (a : Action) : ℕ → UInt8 :=
  if a.kind = .write then writeSpan m a.address a.bytes else m

/-- What a transaction that ran to `done` leaves behind: the cache, the memory, the result
and the backing requests it made. -/
structure Outcome where
  cache : WindowDataCache
  memory : ℕ → UInt8
  result : List UInt8
  requests : List Action

/-- Run the open transaction to `done` over one memory. `none` is an exception or the end of
the fuel. -/
def drain : ℕ → WindowDataCache → (ℕ → UInt8) → Option Outcome
  | 0, _, _ => none
  | n + 1, c, m =>
    match c.next with
    | .error _ => none
    | .ok (c, a) =>
      if a.kind = .done then some ⟨c, m, a.bytes, []⟩
      else
        match c.complete (answer m a) with
        | .error _ => none
        | .ok c => (drain n c (store m a)).map fun o => { o with requests := a :: o.requests }

/-- The guest's transactions. -/
inductive Op where
  | read (address size : ℕ)
  | write (address : ℕ) (bytes : List UInt8)
  | push (instruction : BitVec 16) (operand : BitVec 32)
  | movec (reg : ℕ) (value : BitVec 32)
deriving DecidableEq, Repr

/-- Open a transaction. -/
def Op.open (c : WindowDataCache) : Op → Except Exn WindowDataCache
  | .read a n => c.access a n false []
  | .write a bs => c.access a bs.length true bs
  | .push i o => c.push i o
  | .movec r v => c.movec r v

/-- Open a transaction and run it to `done`. -/
def transact (c : WindowDataCache) (m : ℕ → UInt8) (op : Op) : Option Outcome :=
  match op.open c with
  | .error _ => none
  | .ok c => drain (3 * c.count + 3) c m

/-- Run a sequence of transactions, collecting their results. -/
def run : WindowDataCache → (ℕ → UInt8) → List Op →
    Option (WindowDataCache × (ℕ → UInt8) × List (List UInt8))
  | c, m, [] => some (c, m, [])
  | c, m, op :: ops =>
    match transact c m op with
    | none => none
    | some o => (run o.cache o.memory ops).map fun (c, m, rs) => (c, m, o.result :: rs)

/-- The last round of a transaction. -/
theorem drain_done {c c' : WindowDataCache} {m : ℕ → UInt8} {a : Action}
    (hnext : c.next = .ok (c', a)) (hdone : a.kind = .done) (n : ℕ) :
    drain (n + 1) c m = some ⟨c', m, a.bytes, []⟩ := by
  simp only [drain, hnext, if_pos hdone]

/-- A round with a backing request. -/
theorem drain_request {c c' d : WindowDataCache} {m : ℕ → UInt8} {a : Action} {o : Outcome}
    {n : ℕ} (hnext : c.next = .ok (c', a)) (hne : a.kind ≠ .done)
    (hcomp : c'.complete (answer m a) = .ok d) (hrest : drain n d (store m a) = some o) :
    drain (n + 1) c m = some { o with requests := a :: o.requests } := by
  simp only [drain, hnext, if_neg hne, hcomp, hrest, Option.map_some]

/-! ### The mode of a line -/

theorem shift_lineOf (a k : ℕ) (hk : 4 ≤ k) :
    BitVec.ofNat 64 (lineOf a) >>> k = BitVec.ofNat 64 a >>> k := by
  apply BitVec.eq_of_toNat_eq
  simp only [BitVec.toNat_ushiftRight, BitVec.toNat_ofNat, Nat.shiftRight_eq_div_pow, lineOf,
    lineBytes]
  obtain ⟨j, rfl⟩ := Nat.exists_eq_add_of_le hk
  rw [pow_add, ← Nat.div_div_eq_div_mul, ← Nat.div_div_eq_div_mul]
  congr 1
  omega

theorem acrMode_lineOf (acr : BitVec 32) (a : ℕ) : acrMode acr (lineOf a) = acrMode acr a := by
  unfold acrMode
  dsimp only
  rw [shift_lineOf a 24 (by decide), shift_lineOf a 20 (by decide)]

/-- The mode is the same for all addresses of a line. -/
theorem mode_lineOf (c : WindowDataCache) (a : ℕ) : c.mode (lineOf a) = c.mode a := by
  unfold mode
  simp only [acrMode_lineOf]

/-! ### The flat memory a cache stands for -/

/-- The cache `c` over the memory `m` stands for the flat memory `v`. -/
structure Backs (c : WindowDataCache) (m v : ℕ → UInt8) : Prop where
  resident : ∀ s, (c.lines s).valid = true →
    ∀ i : Fin lineBytes, (c.lines s).bytes i = v ((c.lines s).address + i)
  memory : ∀ a, (∀ s, (c.lines s).valid = true → (c.lines s).dirty = true →
    (c.lines s).address ≠ lineOf a) → m a = v a
  cacheable : ∀ s, (c.lines s).valid = true → c.mode (c.lines s).address < 2
  through : ∀ s, (c.lines s).valid = true → c.mode (c.lines s).address = 0 →
    (c.lines s).dirty = false

/-- The relation only looks at the lines and the modes. -/
theorem Backs.congr {c d : WindowDataCache} {m v : ℕ → UInt8} (h : Backs c m v)
    (hl : d.lines = c.lines) (hm : d.mode = c.mode) : Backs d m v where
  resident := by
    rw [hl]
    exact h.resident
  memory := by
    rw [hl]
    exact h.memory
  cacheable := by
    rw [hl, hm]
    exact h.cacheable
  through := by
    rw [hl, hm]
    exact h.through

variable {c : WindowDataCache} {m v : ℕ → UInt8}

/-- A cache without valid lines stands for the memory behind it. -/
theorem Backs.of_invalid (h : ∀ s, (c.lines s).valid = false) : Backs c m m where
  resident s hs := by simp [h s] at hs
  memory _ _ := rfl
  cacheable s hs := by simp [h s] at hs
  through s hs := by simp [h s] at hs

/-- Dropping a line that is not dirty changes nothing the CPU can see. -/
theorem Backs.drop_clean (h : Backs c m v) {s : Slot} (line : Line)
    (hv : line.valid = false) (hc : ¬((c.lines s).valid = true ∧ (c.lines s).dirty = true)) :
    Backs { c with lines := Function.update c.lines s line } m v := by
  have key : ∀ t, (Function.update c.lines s line t).valid = true →
      t ≠ s ∧ Function.update c.lines s line t = c.lines t := by
    intro t ht
    have hts : t ≠ s := by
      rintro rfl
      simp [hv] at ht
    exact ⟨hts, Function.update_of_ne hts _ _⟩
  constructor
  · intro t ht
    obtain ⟨-, he⟩ := key t ht
    simp only [he] at ht ⊢
    exact h.resident t ht
  · intro a ha
    refine h.memory a fun t ht hd => ?_
    have hts : t ≠ s := by
      rintro rfl
      exact hc ⟨ht, hd⟩
    have := ha t
    simp only [Function.update_of_ne hts] at this
    exact this ht hd
  · intro t ht
    obtain ⟨-, he⟩ := key t ht
    simp only [he] at ht ⊢
    exact h.cacheable t ht
  · intro t ht
    obtain ⟨-, he⟩ := key t ht
    simp only [he] at ht ⊢
    exact h.through t ht

/-- A byte of an aligned line belongs to that line only. -/
theorem lineOf_add {la : ℕ} (hla : la % 16 = 0) (i : Fin lineBytes) : lineOf (la + i) = la :=
  lineOf_eq hla (Nat.le_add_right _ _) (by have := i.isLt; simp only [lineBytes] at this; omega)

/-- Writing a dirty line back and keeping or dropping it cleanly. -/
theorem Backs.write_back (h : Backs c m v) (hl : LinesOk c.regions c.lines) {s : Slot}
    (line : Line) (hv : (c.lines s).valid = true) (hd : line.dirty = false)
    (hb : line.bytes = (c.lines s).bytes) (ha : line.address = (c.lines s).address) :
    Backs { c with lines := Function.update c.lines s line }
      (writeSpan m (c.lines s).address (List.ofFn (c.lines s).bytes)) v := by
  have key : ∀ t, (Function.update c.lines s line t).valid = true →
      (c.lines t).valid = true ∧ Function.update c.lines s line t =
        { c.lines t with
          dirty := (Function.update c.lines s line t).dirty
          valid := (Function.update c.lines s line t).valid } := by
    intro t ht
    by_cases hts : t = s
    · subst hts
      simp only [Function.update_self] at ht ⊢
      refine ⟨hv, ?_⟩
      cases line
      simp_all
    · simp only [Function.update_of_ne hts] at ht ⊢
      exact ⟨ht, trivial⟩
  constructor
  · intro t ht i
    obtain ⟨ht', he⟩ := key t ht
    dsimp only
    rw [he]
    exact h.resident t ht' i
  · intro a hna
    by_cases hla : lineOf a = (c.lines s).address
    · have hlo := lineOf_le a
      have hhi := lt_lineOf_add a
      rw [writeSpan_of_mem _ _ (by omega) (by simp [lineBytes]; omega)]
      have := h.resident s hv ⟨a - (c.lines s).address, by simp only [lineBytes]; omega⟩
      rw [List.getElem_ofFn, this]
      congr 1
      dsimp only
      omega
    · have hout : writeSpan m (c.lines s).address (List.ofFn (c.lines s).bytes) a = m a := by
        have hal := hl.aligned s hv
        rcases Nat.lt_or_ge a (c.lines s).address with hlt | hge
        · exact writeSpan_of_lt _ _ hlt
        · refine writeSpan_of_ge _ _ ?_
          by_contra hlt
          simp only [List.length_ofFn, lineBytes] at hlt
          exact hla (lineOf_eq hal hge (by omega))
      rw [hout]
      refine h.memory a fun t ht htd hta => ?_
      have hts : t ≠ s := by
        rintro rfl
        exact hla hta.symm
      have := hna t
      simp only [Function.update_of_ne hts] at this
      exact this ht htd hta
  · intro t ht
    obtain ⟨ht', he⟩ := key t ht
    dsimp only
    rw [he]
    exact h.cacheable t ht'
  · intro t ht hm
    by_cases hts : t = s
    · subst hts
      simpa using hd
    · simp only [Function.update_of_ne hts] at ht hm ⊢
      exact h.through t ht hm

/-- Filling an absent line from the memory. -/
theorem Backs.fill (h : Backs c m v) {s : Slot} {la : ℕ} (hla : la % 16 = 0)
    (hmode : c.mode la < 2)
    (habs : ∀ t, (c.lines t).valid = true → (c.lines t).address ≠ la)
    (hc : ¬((c.lines s).valid = true ∧ (c.lines s).dirty = true)) :
    Backs { c with
      lines := Function.update c.lines s
        { bytes := fun i => (readSpan m la 16).getD i 0, address := la, valid := true } } m v := by
  constructor
  · intro t ht i
    by_cases hts : t = s
    · subst hts
      have hmem : m (la + i) = v (la + i) := by
        refine h.memory _ fun u hu _ => ?_
        rw [lineOf_add hla]
        exact habs u hu
      simp [List.getD_eq_getElem?_getD, hmem]
    · simp only [Function.update_of_ne hts] at ht ⊢
      exact h.resident t ht i
  · intro a hna
    refine h.memory a fun t ht hd => ?_
    have hts : t ≠ s := by
      rintro rfl
      exact hc ⟨ht, hd⟩
    have := hna t
    simp only [Function.update_of_ne hts] at this
    exact this ht hd
  · intro t ht
    by_cases hts : t = s
    · subst hts
      simpa [mode] using hmode
    · simp only [Function.update_of_ne hts] at ht ⊢
      exact h.cacheable t ht
  · intro t ht hm
    by_cases hts : t = s
    · subst hts
      simp
    · simp only [Function.update_of_ne hts] at ht hm ⊢
      exact h.through t ht hm

/-- An address outside the line a block lies in is outside the block. -/
theorem writeSpan_off_line (w : ℕ → UInt8) {la x a : ℕ} {bs : List UInt8} (hla : la % 16 = 0)
    (hlo : la ≤ x) (hhi : x + bs.length ≤ la + 16) (ha : lineOf a ≠ la) :
    writeSpan w x bs a = w a := by
  rcases Nat.lt_or_ge a x with hlt | hge
  · exact writeSpan_of_lt _ _ hlt
  · refine writeSpan_of_ge _ _ ?_
    by_contra hin
    exact ha (lineOf_eq hla (by omega) (by omega))

/-- Two memories that agree on a cell agree on it after the same write. -/
theorem writeSpan_congr {w w' : ℕ → UInt8} {a : ℕ} (x : ℕ) (bs : List UInt8)
    (h : w a = w' a) : writeSpan w x bs a = writeSpan w' x bs a := by
  simp [writeSpan, h]

/-- A write past the cache to a line that is not resident. -/
theorem Backs.bypass (h : Backs c m v) (hl : LinesOk c.regions c.lines) {la x : ℕ}
    (bs : List UInt8) (hla : la % 16 = 0) (hlo : la ≤ x) (hhi : x + bs.length ≤ la + 16)
    (habs : ∀ t, (c.lines t).valid = true → (c.lines t).address ≠ la) :
    Backs c (writeSpan m x bs) (writeSpan v x bs) where
  resident s hs i := by
    rw [writeSpan_off_line v hla hlo hhi, h.resident s hs i]
    rw [lineOf_add (hl.aligned s hs)]
    exact habs s hs
  memory a ha := writeSpan_congr x bs (h.memory a ha)
  cacheable := h.cacheable
  through := h.through

/-- Copying a block into a line is writing it to the flat memory. -/
theorem copyInto_eq {b : Fin lineBytes → UInt8} {la x : ℕ} (hlo : la ≤ x) (bs : List UInt8)
    (i : Fin lineBytes) (h : b i = v (la + i)) :
    copyInto b (x - la) bs i = writeSpan v x bs (la + i) := by
  unfold copyInto writeSpan
  have hiff : x - la ≤ (i : ℕ) ↔ x ≤ la + i := by omega
  by_cases hx : x ≤ la + i
  · rw [if_pos (hiff.mpr hx), if_pos hx, h]
    congr 1
    omega
  · rw [if_neg (fun hn => hx (hiff.mp hn)), if_neg hx, h]

/-- Writing into a resident line. A line left clean has the block in memory too. -/
theorem Backs.write_line (h : Backs c m v) (hl : LinesOk c.regions c.lines) {s : Slot}
    {la : ℕ} (x : ℕ) (bs : List UInt8) (d : Bool) (m' : ℕ → UInt8)
    (hv : (c.lines s).valid = true) (ha : (c.lines s).address = la) (hlo : la ≤ x)
    (hhi : x + bs.length ≤ la + 16) (hmode : d = true → c.mode la ≠ 0)
    (hoff : ∀ a, lineOf a ≠ la → m' a = m a)
    (hon : d = false → ∀ a, lineOf a = la → m' a = writeSpan v x bs a) :
    Backs { c with lines := Function.update c.lines s { c.lines s with
      bytes := copyInto (c.lines s).bytes (x - la) bs, dirty := d } } m'
      (writeSpan v x bs) := by
  have hla : la % 16 = 0 := ha ▸ hl.aligned s hv
  constructor
  · intro t ht i
    by_cases hts : t = s
    · subst hts
      simp only [Function.update_self] at ht ⊢
      rw [ha]
      exact copyInto_eq hlo bs i (ha ▸ h.resident t hv i)
    · simp only [Function.update_of_ne hts] at ht ⊢
      rw [writeSpan_off_line v hla hlo hhi, h.resident t ht i]
      rw [lineOf_add (hl.aligned t ht)]
      intro hta
      exact hts (hl.unique t s ht hv (hta.trans ha.symm))
  · intro a hna
    by_cases hline : lineOf a = la
    · refine hon ?_ a hline
      have := hna s
      simp only [Function.update_self] at this
      by_contra hd
      exact this hv (by simpa using hd) (ha.trans hline.symm)
    · rw [hoff a hline, writeSpan_off_line v hla hlo hhi hline]
      refine h.memory a fun t ht hd => ?_
      by_cases hts : t = s
      · subst hts
        rw [ha]
        exact fun he => hline he.symm
      · have := hna t
        simp only [Function.update_of_ne hts] at this
        exact this ht hd
  · intro t ht
    by_cases hts : t = s
    · subst hts
      simpa [mode] using h.cacheable t hv
    · simp only [Function.update_of_ne hts] at ht ⊢
      exact h.cacheable t ht
  · intro t ht hm
    by_cases hts : t = s
    · subst hts
      simp only [Function.update_self] at hm ⊢
      by_contra hd
      exact hmode (by simpa using hd) (ha ▸ hm)
    · simp only [Function.update_of_ne hts] at ht hm ⊢
      exact h.through t ht hm

/-! ### One access -/

/-- The flat memory an access has reached: a write has stored its bytes up to `offset`. -/
def reached (c : WindowDataCache) (v : ℕ → UInt8) : ℕ → UInt8 :=
  if c.write then writeSpan v c.address (c.bytes.take c.offset) else v

theorem reached_of_write {c : WindowDataCache} {v : ℕ → UInt8} (hw : c.write = true) :
    reached c v = writeSpan v c.address (c.bytes.take c.offset) :=
  if_pos hw

theorem reached_of_read {c : WindowDataCache} {v : ℕ → UInt8} (hw : c.write = false) :
    reached c v = v :=
  if_neg (by simp [hw])

/-- Two caches with the same regions and control registers. -/
structure SameControls (c d : WindowDataCache) : Prop where
  regions : d.regions = c.regions
  cacr : d.cacr = c.cacr
  acr : d.acr = c.acr

theorem SameControls.mode {c d : WindowDataCache} (h : SameControls c d) : d.mode = c.mode := by
  funext a
  simp only [WindowDataCache.mode, h.cacr, h.acr]

/-- The state `c` over `m` is between two backing requests of the access `c₀` opened on the
flat memory `v`. -/
structure Midway (c₀ : WindowDataCache) (v : ℕ → UInt8) (c : WindowDataCache)
    (m : ℕ → UInt8) : Prop where
  inv : Inv c
  looping : Looping c
  controls : SameControls c₀ c
  address : c.address = c₀.address
  count : c.count = c₀.count
  write : c.write = c₀.write
  bytes : c.write = true → c.bytes = c₀.bytes
  backs : Backs c m (reached c v)
  filled : c.write = false → c.bytes.take c.offset = readSpan v c.address c.offset

variable {c₀ : WindowDataCache}

theorem Midway.aim (h : Midway c₀ v c m) : Midway c₀ v c.aim m :=
  ⟨h.inv.aim h.looping.pending, h.looping.aim, ⟨h.controls.1, h.controls.2, h.controls.3⟩,
    h.address, h.count, h.write, h.bytes, h.backs.congr rfl rfl, h.filled⟩

/-- Storing the next chunk advances the flat memory of a write. -/
theorem reached_advance (h : AccessOk c.regions c.address c.count c.offset c.bytes)
    (hw : c.write = true) (hsize : c.offset + c.pendingSize ≤ c.count) :
    writeSpan (reached c v) (c.address + c.offset) c.chunk =
      writeSpan v c.address (c.bytes.take (c.offset + c.pendingSize)) := by
  have hlen : (c.bytes.take c.offset).length = c.offset := by
    have := h.length
    simp only [List.length_take]
    omega
  rw [reached_of_write hw, List.take_add, chunk, ← writeSpan_append, hlen]

/-- A read that copies the next chunk of the flat memory stays correct. -/
theorem filled_advance (h : AccessOk c.regions c.address c.count c.offset c.bytes)
    (hf : c.bytes.take c.offset = readSpan v c.address c.offset) {bs : List UInt8} {k : ℕ}
    (hbs : bs = readSpan v (c.address + c.offset) k) :
    (overwrite c.bytes c.offset bs).take (c.offset + k) =
      readSpan v c.address (c.offset + k) := by
  have hlen := h.length
  have hoff := h.offset_le
  have hk : bs.length = k := by rw [hbs, length_readSpan]
  rw [← hk, take_overwrite (by omega), hf, readSpan_add, hk, hbs]

/-- The bytes of a resident line inside a chunk are those of the flat memory. -/
theorem Backs.chunk_eq (h : Backs c m v) {s : Slot} {la x k : ℕ}
    (hv : (c.lines s).valid = true) (ha : (c.lines s).address = la) (hlo : la ≤ x)
    (hhi : x + k ≤ la + 16) :
    ((List.ofFn (c.lines s).bytes).drop (x - la)).take k = readSpan v x k := by
  refine List.ext_getElem ?_ fun i h₁ h₂ => ?_
  · simp only [List.length_take, List.length_drop, List.length_ofFn, length_readSpan, lineBytes]
    omega
  · have hi : i < k := by simpa using h₂
    simp only [List.getElem_take, List.getElem_drop, List.getElem_ofFn, getElem_readSpan]
    rw [h.resident s hv, ha]
    congr 1
    dsimp only
    omega

/-- A pass that hits stays midway. -/
theorem Midway.hit (h : Midway c₀ v c m) (haim : Aimed c) (ho : c.offset < c.count)
    {d : WindowDataCache} (hr : Pass c (.inr d)) : Midway c₀ v d m := by
  have hinv := h.inv.pass_hit h.looping haim ho hr
  have hacc := h.inv.accessOk h.looping.active
  obtain ⟨hpos, hsize, hlo, hhi⟩ := haim.bounds ho
  cases hr with
  | writeHit slot hf hw hm =>
      obtain ⟨hv, ha, -⟩ := find_eq_some hf
      have hchunk := length_chunk hacc hsize
      refine ⟨hinv.1, hinv.2.1, ⟨h.controls.1, h.controls.2, h.controls.3⟩, h.address, h.count,
        h.write, h.bytes, ?_, ?_⟩
      · have hb := h.backs.write_line h.inv.linesOk (c.address + c.offset) c.chunk
          true m hv ha hlo (by omega) ?_ (fun _ _ => rfl) (by simp)
        · rw [reached_advance hacc hw hsize] at hb
          rw [reached_of_write]
          · exact hb.congr rfl rfl
          · exact hw
        · intro _
          rw [haim.2, mode_lineOf, hm]
          decide
      · exact fun hn => by simp [hw] at hn
  | readHit slot hf hw hm =>
      obtain ⟨hv, ha, -⟩ := find_eq_some hf
      have hback := h.backs
      rw [reached_of_read hw] at hback
      refine ⟨hinv.1, hinv.2.1, ⟨h.controls.1, h.controls.2, h.controls.3⟩, h.address, h.count,
        h.write, fun hn => by simp [hw] at hn, ?_, fun _ => ?_⟩
      · rw [reached_of_read]
        · exact hback.congr rfl rfl
        · exact hw
      · exact filled_advance hacc (h.filled hw) (hback.chunk_eq hv ha hlo hhi)

/-- The requests the current chunk may still need before it hits. -/
def stage (c : WindowDataCache) : ℕ :=
  let lineAddress := lineOf (c.address + c.offset)
  let old := c.lines (c.victim (setIndex lineAddress))
  if (c.find lineAddress).isSome then 0 else if old.valid && old.dirty then 2 else 1

theorem stage_le (c : WindowDataCache) : c.stage ≤ 2 := by
  unfold stage
  dsimp only
  split_ifs <;> decide

/-- A bound on the backing requests an access still makes. -/
def work (c : WindowDataCache) : ℕ := 3 * (c.count - c.offset) + c.stage

/-- Every chunk that is done with pays for the requests of the next. -/
theorem work_advance {c d : WindowDataCache} (hcount : d.count = c.count)
    (hoff : c.offset < d.offset) (hle : d.offset ≤ c.count) : d.work < c.work := by
  have := d.stage_le
  simp only [work]
  omega

/-- A request that does not advance the access still brings its chunk closer to a hit. -/
theorem work_stage {c d : WindowDataCache} (hcount : d.count = c.count)
    (hoff : d.offset = c.offset) (hstage : d.stage < c.stage) : d.work < c.work := by
  simp only [work, hcount, hoff]
  omega

/-- Evicting the victim of a missing line leaves an invalid way for it. -/
theorem stage_evict {slot : Slot} (haim : Aimed c)
    (hs : slot = c.victim (setIndex c.pendingAddress)) (hf : c.find c.pendingAddress = none)
    (hv : (c.lines slot).valid = true) (hd : (c.lines slot).dirty = true) :
    stage { c with
      lines := Function.update c.lines slot { c.lines slot with valid := false, dirty := false }
      pendingSlot := slot, pending := .none } < c.stage := by
  have hbefore : c.stage = 2 := by
    simp only [stage]
    rw [← haim.2, ← hs]
    simp [hf, hv, hd]
  obtain ⟨w, hw, hvic⟩ := victim_allowed (c := c) (setIndex c.pendingAddress)
  have hinv : (lines { c with
      lines := Function.update c.lines slot { c.lines slot with valid := false, dirty := false }
      pendingSlot := slot, pending := .none } (victim { c with
      lines := Function.update c.lines slot { c.lines slot with valid := false, dirty := false }
      pendingSlot := slot, pending := .none } (setIndex c.pendingAddress))).valid = false := by
    refine victim_invalid (w := w) hw ?_
    rw [← hvic, ← hs]
    simp
  rw [hbefore]
  rw [stage]
  dsimp only at hinv ⊢
  rw [← haim.2, hinv]
  split_ifs <;> simp_all

/-- Filling a missing line makes it hit. -/
theorem stage_fill {d : WindowDataCache} (slot : Slot) (haim : Aimed c)
    (hf : c.find c.pendingAddress = none) (hl : LinesOk d.regions d.lines)
    (hv : (d.lines slot).valid = true) (ha : (d.lines slot).address = c.pendingAddress)
    (haddr : d.address = c.address) (hoff : d.offset = c.offset) : d.stage < c.stage := by
  have hbefore : 0 < c.stage := by
    rw [stage]
    rw [← haim.2]
    simp only [hf, Option.isSome_none, Bool.false_eq_true, if_false]
    split_ifs <;> decide
  have hafter : d.stage = 0 := by
    simp only [stage]
    rw [haddr, hoff, ← haim.2, ← ha, find_of_valid hl hv]
    rfl
  omega

/-- Off the cache, the bytes a chunk reads from memory are those of the flat memory. -/
theorem Backs.readSpan_eq (h : Backs c m v) {la x k : ℕ} (hla : la % 16 = 0) (hlo : la ≤ x)
    (hhi : x + k ≤ la + 16)
    (habs : ∀ t, (c.lines t).valid = true → (c.lines t).address ≠ la) :
    readSpan m x k = readSpan v x k := by
  refine readSpan_congr fun i hi => h.memory _ fun t ht _ => ?_
  rw [lineOf_eq hla (by omega) (by omega)]
  exact habs t ht

/-- A line whose mode is uncached is not resident. -/
theorem Backs.absent (h : Backs c m v) {la : ℕ} (hm : 2 ≤ c.mode la) :
    ∀ t, (c.lines t).valid = true → (c.lines t).address ≠ la := by
  rintro t ht rfl
  have := h.cacheable t ht
  omega

/-- An answered request brings the access closer to its end. -/
theorem Pass.complete_work {c' d : WindowDataCache} {a : Action} {bs : List UInt8} (h : Inv c)
    (hl : Looping c) (haim : Aimed c) (ho : c.offset < c.count) (hr : Pass c (.inl (c', a)))
    (hd : c'.complete bs = .ok d) : d.work < c.work := by
  have hinv : Inv d := (h.pass_request hl haim ho hr).complete hd
  obtain ⟨hpos, hsize, -, -⟩ := haim.bounds ho
  obtain ⟨-, hcomp⟩ := complete_ok hd
  cases hr with
  | bypassWrite hw hm =>
      cases hcomp with
      | bypassWrite hp => exact work_advance rfl (Nat.lt_add_of_pos_right hpos) hsize
      | _ hp => cases hp
  | bypassRead hw hm =>
      cases hcomp with
      | bypassRead hp hlen => exact work_advance rfl (Nat.lt_add_of_pos_right hpos) hsize
      | _ hp => cases hp
  | evict slot hs hf hm hv hdirty =>
      cases hcomp with
      | evict hp => exact work_stage rfl rfl (stage_evict haim hs hf hv hdirty)
      | _ hp => cases hp
  | fill slot hs hf hm hv =>
      cases hcomp with
      | fill hp hlen =>
          exact work_stage rfl rfl (stage_fill slot haim hf hinv.linesOk (by simp)
            (by simp) rfl rfl)
      | _ hp => cases hp
  | writeThrough slot hf hw hm =>
      cases hcomp with
      | writeThrough hp => exact work_advance rfl (Nat.lt_add_of_pos_right hpos) hsize
      | _ hp => cases hp

/-- Answering a backing request keeps the access midway and makes progress. -/
theorem Midway.request (h : Midway c₀ v c m) (haim : Aimed c) (ho : c.offset < c.count)
    {c' : WindowDataCache} {a : Action} (hr : Pass c (.inl (c', a))) :
    a.kind ≠ .done ∧ ∃ d, c'.complete (answer m a) = .ok d ∧
      Midway c₀ v d (store m a) ∧ d.work < c.work := by
  have hinv := h.inv.pass_request h.looping haim ho hr
  have hwork : ∀ d, c'.complete (answer m a) = .ok d → d.work < c.work := fun d hd =>
    hr.complete_work h.inv h.looping haim ho hd
  have hacc := h.inv.accessOk h.looping.active
  have hact : c.active ≠ false := by simp [h.looping.active]
  have hsame : SameControls c₀ c := h.controls
  obtain ⟨hpos, hsize, hlo, hhi⟩ := haim.bounds ho
  have hla : c.pendingAddress % 16 = 0 := haim.2 ▸ lineOf_mod _
  have hmode : c.mode c.pendingAddress = c.mode (c.address + c.offset) := by
    rw [haim.2, mode_lineOf]
  cases hr with
  | bypassWrite hw hm =>
      have hd : complete { c with pending := .bypassWrite }
          (answer m ⟨.write, c.address + c.offset, c.pendingSize, c.chunk⟩) =
          .ok { c with offset := c.offset + c.pendingSize, pending := .none } := by
        rw [complete, if_neg hact]
      have hchunk := length_chunk hacc hsize
      have habs : ∀ t, (c.lines t).valid = true → (c.lines t).address ≠ c.pendingAddress := by
        rcases hm with hm | ⟨-, hf⟩
        · exact h.backs.absent (hmode ▸ hm)
        · exact (find_eq_none h.inv.linesOk).mp hf
      have hb := h.backs.bypass h.inv.linesOk c.chunk hla hlo (by omega) habs
      rw [reached_advance hacc hw hsize] at hb
      refine ⟨by simp, _, hd, ⟨hinv.complete hd, ⟨h.looping.1, h.looping.2, rfl⟩,
        ⟨hsame.1, hsame.2, hsame.3⟩, h.address, h.count, h.write, h.bytes, ?_,
        fun hn => by simp [hw] at hn⟩, hwork _ hd⟩
      rw [reached_of_write]
      · exact hb.congr rfl rfl
      · exact hw
  | bypassRead hw hm =>
      have hd : complete { c with pending := .bypassRead }
          (answer m ⟨.read, c.address + c.offset, c.pendingSize, []⟩) =
          .ok { c with
            bytes := overwrite c.bytes c.offset
              (readSpan m (c.address + c.offset) c.pendingSize)
            offset := c.offset + c.pendingSize, pending := .none } := by
        rw [complete, if_neg hact]
        simp [answer]
      have hback := h.backs
      rw [reached_of_read hw] at hback
      refine ⟨by simp, _, hd, ⟨hinv.complete hd, ⟨h.looping.1, h.looping.2, rfl⟩,
        ⟨hsame.1, hsame.2, hsame.3⟩, h.address, h.count, h.write,
        fun hn => by simp [hw] at hn, ?_, fun _ => ?_⟩,
        hwork _ hd⟩
      · rw [reached_of_read]
        · exact hback.congr rfl rfl
        · exact hw
      · exact filled_advance hacc (h.filled hw)
          (hback.readSpan_eq hla hlo hhi (hback.absent (hmode ▸ hm)))
  | evict slot hs hf hm hv hd =>
      have hcomp : complete { c with pendingSlot := slot, pending := .evict }
          (answer m ⟨.write, (c.lines slot).address, 16, List.ofFn (c.lines slot).bytes⟩) =
          .ok { c with
            lines := Function.update c.lines slot { c.lines slot with
              valid := false, dirty := false }
            pendingSlot := slot, pending := .none } := by
        rw [complete, if_neg hact]
      refine ⟨by simp, _, hcomp, ⟨hinv.complete hcomp, ⟨h.looping.1, h.looping.2, rfl⟩,
        ⟨hsame.1, hsame.2, hsame.3⟩, h.address, h.count, h.write, h.bytes, ?_, h.filled⟩, ?_⟩
      · exact (h.backs.write_back h.inv.linesOk
          { c.lines slot with valid := false, dirty := false } hv rfl rfl rfl).congr
          rfl rfl
      · exact hwork _ hcomp
  | fill slot hs hf hm hv =>
      have habs := (find_eq_none h.inv.linesOk).mp hf
      have hcomp : complete { c with pendingSlot := slot, pending := .fill }
          (answer m ⟨.read, c.pendingAddress, 16, []⟩) =
          .ok { c with
            lines := Function.update c.lines slot
              { bytes := fun i => (readSpan m c.pendingAddress 16).getD i 0
                address := c.pendingAddress, valid := true }
            replacement := c.replacement + 1
            pendingSlot := slot, pending := .none } := by
        rw [complete, if_neg hact]
        simp [answer]
      refine ⟨by simp, _, hcomp, ⟨hinv.complete hcomp, ⟨h.looping.1, h.looping.2, rfl⟩,
        ⟨hsame.1, hsame.2, hsame.3⟩, h.address, h.count, h.write, h.bytes, ?_, h.filled⟩, ?_⟩
      · exact (h.backs.fill hla (hmode ▸ hm) habs hv).congr rfl rfl
      · exact hwork _ hcomp
  | writeThrough slot hf hw hm =>
      obtain ⟨hv, ha, -⟩ := find_eq_some hf
      have hchunk := length_chunk hacc hsize
      have hcomp : complete { c with
            lines := Function.update c.lines slot { c.lines slot with
              bytes := copyInto (c.lines slot).bytes
                (c.address + c.offset - c.pendingAddress) c.chunk }
            pending := .writeThrough, pendingSlot := slot }
          (answer m ⟨.write, c.address + c.offset, c.pendingSize, c.chunk⟩) =
          .ok { c with
            lines := Function.update c.lines slot { c.lines slot with
              bytes := copyInto (c.lines slot).bytes
                (c.address + c.offset - c.pendingAddress) c.chunk
              dirty := false }
            offset := c.offset + c.pendingSize
            pending := .none, pendingSlot := slot } := by
        rw [complete, if_neg hact]
        simp [Function.update_idem]
      have hmla : c.mode c.pendingAddress = 0 := hmode.trans hm
      have hclean := h.backs.through slot hv (ha ▸ hmla)
      have hb := h.backs.write_line h.inv.linesOk (c.address + c.offset) c.chunk
        false (writeSpan m (c.address + c.offset) c.chunk) hv ha hlo (by omega)
        (by simp) (fun b hb => writeSpan_off_line m hla hlo (by omega) hb) ?_
      · rw [reached_advance hacc hw hsize] at hb
        refine ⟨by simp, _, hcomp, ⟨hinv.complete hcomp, ⟨h.looping.1, h.looping.2, rfl⟩,
          ⟨hsame.1, hsame.2, hsame.3⟩, h.address, h.count, h.write, h.bytes, ?_,
          fun hn => by simp [hw] at hn⟩, hwork _ hcomp⟩
        rw [reached_of_write]
        · exact hb.congr rfl rfl
        · exact hw
      · -- the line was clean, so its other bytes were in memory already
        intro _ b hline
        refine writeSpan_congr _ _ (h.backs.memory b fun t ht hd hta => ?_)
        have hts := h.inv.linesOk.unique t slot ht hv (hta.trans (hline.trans ha.symm))
        rw [hts, hclean] at hd
        cases hd

/-- What a finished access leaves behind. -/
structure Served (c₀ : WindowDataCache) (v : ℕ → UInt8) (o : Outcome) : Prop where
  inv : Inv o.cache
  idle : o.cache.active = false
  controls : SameControls c₀ o.cache
  backs : Backs o.cache o.memory (if c₀.write then writeSpan v c₀.address c₀.bytes else v)
  result : o.result = if c₀.write then [] else readSpan v c₀.address c₀.count

/-- At the end of the access the whole flat-memory operation is done. -/
theorem Midway.finish (h : Midway c₀ v c m) (hend : ¬c.offset < c.count) :
    Served c₀ v ⟨c.finish.1, m, c.finish.2.bytes, []⟩ := by
  have hacc := h.inv.accessOk h.looping.active
  have hoff : c.offset = c.count := by
    have := hacc.offset_le
    omega
  have hall : c.bytes.take c.offset = c.bytes := by
    rw [hoff, ← hacc.length, List.take_length]
  refine ⟨h.inv.finish h.looping.pending, rfl,
    ⟨h.controls.1, h.controls.2, h.controls.3⟩, ?_, ?_⟩
  · have hb := h.backs
    rw [reached, hall, h.address] at hb
    rw [← h.write]
    refine Backs.congr (c := c) ?_ rfl rfl
    by_cases hw : c.write = true
    · rw [h.bytes hw] at hb
      simpa [hw] using hb
    · simpa [hw] using hb
  · rw [← h.write, WindowDataCache.finish]
    by_cases hw : c.write = true
    · simp [hw]
    · have hf := h.filled (by simpa using hw)
      rw [hall, h.address, hoff, h.count] at hf
      simp [hw, hf]

/-- An access in progress runs to `done` and serves the whole operation. -/
theorem Midway.drain (n : ℕ) : ∀ c m, Midway c₀ v c m → c.work < n →
    ∃ o, drain n c m = some o ∧ Served c₀ v o := by
  induction n with
  | zero =>
      intro c m _ hn
      omega
  | succ n ih =>
      intro c m h hn
      have hnext : c.next = .ok (nextAccess (c.count - c.offset) c) :=
        next_eq_ok.mpr ⟨h.looping.active, h.looping.pending, by simp [h.looping.pushing]⟩
      have hstep := nextAccess_induct
        (P := fun d => Midway c₀ v d m ∧ d.work ≤ c.work)
        (Q := fun r => (r.2.kind = .done ∧ Served c₀ v ⟨r.1, m, r.2.bytes, []⟩) ∨
          (r.2.kind ≠ .done ∧ ∃ d, r.1.complete (answer m r.2) = .ok d ∧
            Midway c₀ v d (store m r.2) ∧ d.work < c.work))
        ?_ ?_ ?_ (c.count - c.offset) c ⟨h, le_rfl⟩ le_rfl
      · generalize nextAccess (c.count - c.offset) c = r at hnext hstep
        obtain ⟨c', a⟩ := r
        rcases hstep with ⟨hdone, hserved⟩ | ⟨hne, d, hcomp, hmid, hwork⟩
        · exact ⟨_, drain_done hnext hdone n, hserved⟩
        · obtain ⟨o, ho, hserved⟩ := ih d (store m a) hmid (by omega)
          exact ⟨_, drain_request hnext hne hcomp ho,
            ⟨hserved.1, hserved.2, hserved.3, hserved.4, hserved.5⟩⟩
      · rintro d ⟨hd, -⟩ hend
        exact Or.inl ⟨rfl, hd.finish hend⟩
      · rintro d ⟨c', a⟩ ⟨hd, hle⟩ ho hr
        obtain ⟨hne, e, hcomp, hmid, hwork⟩ := hd.aim.request (aimed_aim d) ho hr
        exact Or.inr ⟨hne, e, hcomp, hmid, lt_of_lt_of_le hwork hle⟩
      · rintro d e ⟨hd, hle⟩ ho hr
        obtain ⟨he, hle', hcount, hoff⟩ :=
          hd.aim.inv.pass_hit hd.aim.looping (aimed_aim d) ho hr
        have hacc := he.accessOk hle'.active
        have hwork : e.work < d.work :=
          work_advance hcount hoff (hcount ▸ hacc.offset_le)
        exact ⟨⟨hd.aim.hit (aimed_aim d) ho hr, by omega⟩, hcount, hoff⟩

/-- An opened transaction that is no push: an access, or a control write with nothing to
copy. It serves its whole operation. -/
theorem drain_access (c₀ : WindowDataCache) (h : Inv c₀) (hl : Looping c₀) (hoff : c₀.offset = 0)
    (hb : Backs c₀ m v) :
    ∃ o, drain (3 * c₀.count + 3) c₀ m = some o ∧ Served c₀ v o := by
  refine Midway.drain _ c₀ m ⟨h, hl, ⟨rfl, rfl, rfl⟩, rfl, rfl, rfl, fun _ => rfl, ?_, ?_⟩ ?_
  · have hreach : reached c₀ v = v := by simp [reached, hoff]
    rw [hreach]
    exact hb
  · intro _
    simp [hoff]
  · have := c₀.stage_le
    simp only [work]
    omega

/-! ### One push -/

/-- An opened push with its operand slot. -/
structure Pushing (c : WindowDataCache) : Prop where
  active : c.active = true
  pushing : c.pushing = true
  pending : c.pending = .none
  count : c.count = 0
  write : c.write = false
  bytes : c.bytes = []

/-- A push of a dirty line writes it back once and cleans it. -/
theorem drain_push_dirty (h : Pushing c) (hv : (c.lines c.pendingSlot).valid = true)
    (hd : (c.lines c.pendingSlot).dirty = true) (n : ℕ) :
    drain (n + 2) c m = some
      ⟨{ c with
          lines := Function.update c.lines c.pendingSlot { c.lines c.pendingSlot with
            dirty := false
            valid := if c.invalidatePush then false else (c.lines c.pendingSlot).valid }
          pushing := false, pending := .none, active := false },
        writeSpan m (c.lines c.pendingSlot).address (List.ofFn (c.lines c.pendingSlot).bytes),
        [], [⟨.write, (c.lines c.pendingSlot).address, 16,
          List.ofFn (c.lines c.pendingSlot).bytes⟩]⟩ := by
  have hnext : c.next = .ok ({ c with pending := .push },
      ⟨.write, (c.lines c.pendingSlot).address, 16,
        List.ofFn (c.lines c.pendingSlot).bytes⟩) := by
    refine next_eq_ok.mpr ⟨h.active, h.pending, ?_⟩
    simp [h.pushing, nextPush, hv, hd]
  have hcomp : complete { c with pending := .push } (answer m
      ⟨.write, (c.lines c.pendingSlot).address, 16, List.ofFn (c.lines c.pendingSlot).bytes⟩) =
      .ok { c with
        lines := Function.update c.lines c.pendingSlot { c.lines c.pendingSlot with
          dirty := false
          valid := if c.invalidatePush then false else (c.lines c.pendingSlot).valid }
        pushing := false, pending := .none } := by
    rw [complete, if_neg (by simp [h.active])]
  have hlast : next { c with
      lines := Function.update c.lines c.pendingSlot { c.lines c.pendingSlot with
        dirty := false
        valid := if c.invalidatePush then false else (c.lines c.pendingSlot).valid }
      pushing := false, pending := .none } = .ok ({ c with
      lines := Function.update c.lines c.pendingSlot { c.lines c.pendingSlot with
        dirty := false
        valid := if c.invalidatePush then false else (c.lines c.pendingSlot).valid }
      pushing := false, pending := .none, active := false }, ⟨.done, 0, 0, []⟩) := by
    refine next_eq_ok.mpr ⟨h.active, rfl, ?_⟩
    simp [h.count, nextAccess, finish, h.write, h.bytes]
  exact drain_request hnext (by simp) hcomp (drain_done hlast rfl n)

/-- A push of a line that is not dirty makes no request. -/
theorem drain_push_clean (h : Pushing c)
    (hc : ¬((c.lines c.pendingSlot).valid = true ∧ (c.lines c.pendingSlot).dirty = true))
    (n : ℕ) :
    drain (n + 1) c m = some
      ⟨{ c with
          lines := if c.invalidatePush then
              Function.update c.lines c.pendingSlot { c.lines c.pendingSlot with valid := false }
            else c.lines
          pushing := false, active := false }, m, [], []⟩ := by
  have hcond : ((c.lines c.pendingSlot).valid && (c.lines c.pendingSlot).dirty) = false := by
    rw [Bool.eq_false_iff, Ne, Bool.and_eq_true]
    exact hc
  have hnext : c.next = .ok ({ c with
      lines := if c.invalidatePush then
          Function.update c.lines c.pendingSlot { c.lines c.pendingSlot with valid := false }
        else c.lines
      pushing := false, active := false }, ⟨.done, 0, 0, []⟩) := by
    refine next_eq_ok.mpr ⟨h.active, h.pending, ?_⟩
    simp [h.pushing, nextPush, hcond, finish, h.write, h.bytes]
  exact drain_done hnext rfl n

/-- The push an accepted data CPUSHL opens on an idle cache. -/
theorem pushing_select {i : BitVec 16} {o : BitVec 32} (hi : i &&& 0x40 ≠ 0) :
    Pushing (c.started.select i o) := by
  rw [select, if_neg hi]
  exact ⟨rfl, rfl, rfl, rfl, rfl, rfl⟩

/-- An opened push serves no byte and changes nothing the CPU can see. -/
theorem drain_push (h : Inv c₀) (hp : Pushing c₀) (hb : Backs c₀ m v) :
    ∃ o, drain (3 * c₀.count + 3) c₀ m = some o ∧ Inv o.cache ∧ o.cache.active = false ∧
      SameControls c₀ o.cache ∧ Backs o.cache o.memory v ∧ o.result = [] := by
  rw [hp.count]
  by_cases hvd : (c₀.lines c₀.pendingSlot).valid = true ∧ (c₀.lines c₀.pendingSlot).dirty = true
  · refine ⟨_, drain_push_dirty hp hvd.1 hvd.2 1, ?_, rfl, ⟨rfl, rfl, rfl⟩, ?_, rfl⟩
    · refine ⟨h.regionsOk, h.apart, h.linesOk.update_self _ _ ?_ (by simp), by simp, trivial⟩
      intro _
      exact ⟨hvd.1, rfl⟩
    · exact (hb.write_back h.linesOk { c₀.lines c₀.pendingSlot with
        dirty := false
        valid := if c₀.invalidatePush then false else (c₀.lines c₀.pendingSlot).valid }
        hvd.1 rfl rfl rfl).congr rfl rfl
  · have hclean : (c₀.lines c₀.pendingSlot).dirty = true → False :=
      fun hd => hvd ⟨h.linesOk.dirty_valid _ hd, hd⟩
    refine ⟨_, drain_push_clean hp hvd 2, ?_, rfl, ⟨rfl, rfl, rfl⟩, ?_, rfl⟩
    · refine ⟨h.regionsOk, h.apart, ?_, by simp, ?_⟩
      · simp only
        split
        · exact h.linesOk.update_self _ _ (by simp) fun hd => (hclean hd).elim
        · exact h.linesOk
      · simp [PendingOk, hp.pending]
    · cases hinv : c₀.invalidatePush with
      | true =>
          exact (hb.drop_clean { c₀.lines c₀.pendingSlot with valid := false }
            rfl hvd).congr (by simp) rfl
      | false => exact hb.congr (by simp) rfl

/-! ### Runs of transactions -/

/-- The transactions of a run with the default mode `d` over the regions `rs`: accesses of
one to eight bytes inside a region, CPUSHL pushes, ACR2 and ACR3 writes, and CACR writes that
keep the cache enabled and the default mode and do not invalidate. -/
def Op.Ok (rs : List Region) (d : BitVec 32) : Op → Prop
  | .read a n => 0 < n ∧ n ≤ 8 ∧ Within rs a n
  | .write a bs => 0 < bs.length ∧ bs.length ≤ 8 ∧ Within rs a bs.length
  | .push i _ => PushOk i
  | .movec reg value => reg = 6 ∨ reg = 7 ∨
      (reg = 2 ∧ value &&& 0x60000000 = 0 ∧ value &&& DEC ≠ 0 ∧ (value >>> 25) &&& 3 = d ∧
        value &&& DCINVA = 0)

/-- The flat memory after a transaction. -/
def Op.act (v : ℕ → UInt8) : Op → ℕ → UInt8
  | .write a bs => writeSpan v a bs
  | _ => v

/-- The result of a transaction on the flat memory. -/
def Op.result (v : ℕ → UInt8) : Op → List UInt8
  | .read a n => readSpan v a n
  | _ => []

/-- Between two transactions of a run. -/
structure Settled (rs : List Region) (d : BitVec 32) (c : WindowDataCache)
    (m v : ℕ → UInt8) : Prop where
  inv : Inv c
  idle : c.active = false
  regions : c.regions = rs
  enabled : c.cacr &&& DEC ≠ 0
  defaultMode : (c.cacr >>> 25) &&& 3 = d
  backs : Backs c m v

variable {rs : List Region} {d : BitVec 32}

theorem Served.settled {o : Outcome} (h : Served c₀ v o) (hr : c₀.regions = rs)
    (he : c₀.cacr &&& DEC ≠ 0) (hd : (c₀.cacr >>> 25) &&& 3 = d) :
    Settled rs d o.cache o.memory
      (if c₀.write then writeSpan v c₀.address c₀.bytes else v) :=
  ⟨h.inv, h.idle, h.controls.regions.trans hr, h.controls.cacr ▸ he, h.controls.cacr ▸ hd,
    h.backs⟩

/-- The self-clearing bits of CACR are none of those that `mode` reads. -/
theorem cacr_masked (value : BitVec 32) :
    (value &&& ~~~(DCINVA ||| 0x00040100)) &&& DEC = value &&& DEC ∧
      ((value &&& ~~~(DCINVA ||| 0x00040100)) >>> 25) &&& (3 : BitVec 32) =
        (value >>> 25) &&& 3 := by
  constructor
  · rw [BitVec.and_assoc]
    rfl
  · rw [BitVec.ushiftRight_and_distrib, BitVec.and_assoc]
    rfl

/-- A control write of a run leaves the lines, the regions and every mode alone. -/
theorem control_quiet {reg : ℕ} {value : BitVec 32} (hok : Op.Ok rs d (.movec reg value))
    (he : c.cacr &&& DEC ≠ 0) (hd : (c.cacr >>> 25) &&& 3 = d) :
    (c.control reg value).lines = c.lines ∧ (c.control reg value).regions = c.regions ∧
      (c.control reg value).cacr &&& DEC ≠ 0 ∧
      ((c.control reg value).cacr >>> 25) &&& 3 = d ∧ (c.control reg value).mode = c.mode := by
  by_cases hreg : reg = 2
  · obtain ⟨-, -, hdec, hfield, hinv⟩ := (hok.resolve_left (by omega)).resolve_left (by omega)
    obtain ⟨h₁, h₂⟩ := cacr_masked value
    have hctl : c.control reg value =
        { c with cacr := value &&& ~~~(DCINVA ||| 0x00040100) } := by
      simp only [control, if_pos hreg, hinv]
      rfl
    rw [hctl]
    refine ⟨rfl, rfl, h₁ ▸ hdec, h₂ ▸ hfield, ?_⟩
    funext a
    simp only [mode, h₁, h₂, hfield, hd, if_neg hdec, if_neg he]
  · have hne : ∀ k : Fin 4, (k : ℕ) < 2 → k ≠ Fin.ofNat 4 (reg - 4) := by
      rcases hok with rfl | rfl | ⟨rfl, -⟩
      · decide
      · decide
      · exact absurd rfl hreg
    have hctl : c.control reg value =
        { c with acr := Function.update c.acr (Fin.ofNat 4 (reg - 4)) value } := by
      simp only [control, if_neg hreg]
    rw [hctl]
    refine ⟨rfl, rfl, he, hd, ?_⟩
    funext a
    simp only [mode, Function.update_of_ne (hne 0 (by decide)),
      Function.update_of_ne (hne 1 (by decide))]

/-- **One transaction.** On a settled cache every transaction of a run is accepted, runs to
`done`, and acts on the flat memory as one atomic operation. -/
theorem Settled.transact (h : Settled rs d c m v) {op : Op} (hop : op.Ok rs d) :
    ∃ o, transact c m op = some o ∧ Settled rs d o.cache o.memory (op.act v) ∧
      o.result = op.result v := by
  have hstart : Backs c.started m v := h.backs.congr rfl rfl
  cases op with
  | read a n =>
      obtain ⟨hn, hn8, hin⟩ := hop
      have hacc := access_of_within h.inv h.idle false [] hn hn8
        (h.regions ▸ hin) (by simp)
      obtain ⟨o, ho, hs⟩ := drain_access (c.opened a n false []) (h.inv.access hacc)
        ⟨rfl, rfl, rfl⟩ rfl (h.backs.congr rfl rfl)
      refine ⟨o, ?_, hs.settled h.regions h.enabled h.defaultMode, hs.result⟩
      simp only [WindowDataCache.transact, Op.open, hacc]
      exact ho
  | write a bs =>
      obtain ⟨hn, hn8, hin⟩ := hop
      have hacc := access_of_within h.inv h.idle true bs hn hn8
        (h.regions ▸ hin) (by simp)
      obtain ⟨o, ho, hs⟩ := drain_access (c.opened a bs.length true bs)
        (h.inv.access hacc) ⟨rfl, rfl, rfl⟩ rfl (h.backs.congr rfl rfl)
      refine ⟨o, ?_, hs.settled h.regions h.enabled h.defaultMode, hs.result⟩
      simp only [WindowDataCache.transact, Op.open, hacc]
      exact ho
  | push i operand =>
      have hpush : c.push i operand = .ok (c.started.select i operand) :=
        push_eq_ok.mpr ⟨h.idle, hop, rfl⟩
      by_cases hi : i &&& 0x40 = 0
      · -- an instruction-cache push selects nothing: it is an access of no bytes
        have hsel : c.started.select i operand = c.started := if_pos hi
        rw [hsel] at hpush
        obtain ⟨o, ho, hs⟩ := drain_access _ (h.inv.push hpush) ⟨rfl, rfl, rfl⟩ rfl hstart
        refine ⟨o, ?_, hs.settled h.regions h.enabled h.defaultMode, hs.result⟩
        simp only [WindowDataCache.transact, Op.open, hpush]
        exact ho
      · have hsel : (c.started.select i operand).lines = c.lines ∧
            SameControls c (c.started.select i operand) := by
          rw [select, if_neg hi]
          exact ⟨rfl, rfl, rfl, rfl⟩
        obtain ⟨o, ho, hinv, hidle, hctl, hback, hres⟩ := drain_push (h.inv.push hpush)
          (pushing_select hi) (h.backs.congr hsel.1 hsel.2.mode)
        refine ⟨o, ?_, ⟨hinv, hidle, ?_, ?_, ?_, hback⟩, hres⟩
        · simp only [WindowDataCache.transact, Op.open, hpush]
          exact ho
        · rw [hctl.regions, hsel.2.regions, h.regions]
        · rw [hctl.cacr, hsel.2.cacr]
          exact h.enabled
        · rw [hctl.cacr, hsel.2.cacr]
          exact h.defaultMode
  | movec reg value =>
      obtain ⟨hlines, hregions, hdec, hfield, hmode⟩ :=
        control_quiet (c := c.started) hop h.enabled h.defaultMode
      have hctl : ControlOk reg value := by
        rcases hop with h6 | h7 | ⟨h2, hwp, -⟩
        · exact Or.inr (Or.inr (Or.inl h6))
        · exact Or.inr (Or.inr (Or.inr h7))
        · exact Or.inl ⟨h2, hwp⟩
      have hmovec := movec_eq_ok.mpr ⟨h.idle, hctl, rfl⟩
      have hopen : Looping (c.started.control reg value) ∧
          (c.started.control reg value).offset = 0 ∧
          (c.started.control reg value).count = 0 ∧
          (c.started.control reg value).write = false := by
        rw [control]
        split_ifs <;> exact ⟨⟨rfl, rfl, rfl⟩, rfl, rfl, rfl⟩
      obtain ⟨hloop, hoff, hcount, hwrite⟩ := hopen
      obtain ⟨o, ho, hs⟩ := drain_access _ (h.inv.movec hmovec) hloop hoff
        (hstart.congr hlines hmode)
      have hset := hs.settled (hregions.trans h.regions) hdec hfield
      have hres := hs.result
      rw [hwrite] at hset hres
      refine ⟨o, ?_, hset, ?_⟩
      · simp only [WindowDataCache.transact, Op.open, hmovec]
        exact ho
      · simpa [hcount, Op.result] using hres

/-- **A whole run.** Every run of transactions succeeds, and its results are those of the
flat memory. -/
theorem Settled.run (ops : List Op) : ∀ {c m v}, Settled rs d c m v →
    (∀ op ∈ ops, op.Ok rs d) →
    ∃ c' m' results, run c m ops = some (c', m', results) ∧
      Settled rs d c' m' (ops.foldl Op.act v) ∧ results.length = ops.length ∧
      ∀ i (hi : i < ops.length), results[i]? =
        some ((ops[i]).result ((ops.take i).foldl Op.act v)) := by
  induction ops with
  | nil =>
      intro c m v h _
      exact ⟨c, m, [], rfl, h, rfl, by simp⟩
  | cons op ops ih =>
      intro c m v h hops
      obtain ⟨o, ho, hset, hres⟩ := h.transact (hops op List.mem_cons_self)
      obtain ⟨c', m', results, hrun, hset', hlen, hall⟩ :=
        ih hset fun op' hop' => hops op' (List.mem_cons_of_mem _ hop')
      refine ⟨c', m', o.result :: results, ?_, hset', by simp [hlen], ?_⟩
      · simp only [WindowDataCache.run, ho, hrun, Option.map_some]
      · intro i hi
        cases i with
        | zero => simp [hres]
        | succ i => simpa using hall i (by simpa using hi)

/-- The byte the latest write of a history (latest transaction first) left at an address, or
the initial byte if none of them wrote it. -/
def lastWritten (m : ℕ → UInt8) : List Op → ℕ → UInt8
  | [], a => m a
  | .write b bs :: earlier, a =>
    if b ≤ a ∧ a < b + bs.length then bs.getD (a - b) 0 else lastWritten m earlier a
  | _ :: earlier, a => lastWritten m earlier a

/-- The flat memory after a run holds the bytes last written. -/
theorem foldl_act_eq (m : ℕ → UInt8) (ops : List Op) :
    ops.foldl Op.act m = lastWritten m ops.reverse := by
  induction ops using List.reverseRecOn with
  | nil => rfl
  | append_singleton ops op ih =>
      funext a
      rw [List.foldl_append, List.reverse_append, ih]
      cases op with
      | write b bs =>
          simp only [List.foldl_cons, List.foldl_nil, Op.act, List.reverse_singleton,
            List.singleton_append, lastWritten]
          by_cases hin : b ≤ a ∧ a < b + bs.length
          · have hlt : a - b < bs.length := by omega
            rw [if_pos hin, writeSpan_of_mem _ _ hin.1 hlt]
            simp [hlt]
          · rw [if_neg hin]
            rcases Nat.lt_or_ge a b with hlt | hge
            · exact writeSpan_of_lt _ _ hlt
            · exact writeSpan_of_ge _ _ (by omega)
      | read => rfl
      | push => rfl
      | movec => rfl

/-- Configure a cache with a list of regions. -/
def addRegions (regions : List Region) : Except Exn WindowDataCache :=
  regions.foldlM (fun c r => c.addRegion r.base r.size) {}

/-- Configuring regions allocates no line and opens nothing. -/
theorem addRegions_spec (regions : List Region) : ∀ {c c' : WindowDataCache}, Inv c →
    regions.foldlM (fun c r => c.addRegion r.base r.size) c = .ok c' →
    Inv c' ∧ c'.lines = c.lines ∧ c'.active = c.active := by
  induction regions with
  | nil =>
      intro c c' h hc
      cases hc
      exact ⟨h, rfl, rfl⟩
  | cons r regions ih =>
      intro c c' h hc
      rw [List.foldlM_cons] at hc
      cases hadd : c.addRegion r.base r.size with
      | error e =>
          rw [hadd] at hc
          cases hc
      | ok d =>
          rw [hadd] at hc
          obtain ⟨hinv, hlines, hact⟩ := ih (h.addRegion hadd) hc
          obtain ⟨-, rfl⟩ := addRegion_ok hadd
          exact ⟨hinv, hlines, hact⟩

/-- **Transparency.** An empty cache with any configured regions, any access-control registers
and the cache enabled runs every sequence of transactions to the end, and each read returns,
byte for byte, the value last written there, or the initial memory byte. -/
theorem reads_return_last_write (regions : List Region) (c : WindowDataCache)
    (hc : addRegions regions = .ok c) (cacr : BitVec 32) (acr : Fin 4 → BitVec 32)
    (hdec : cacr &&& DEC ≠ 0) (m : ℕ → UInt8) (ops : List Op)
    (hops : ∀ op ∈ ops, op.Ok c.regions ((cacr >>> 25) &&& 3)) :
    ∃ c' m' results, run { c with cacr := cacr, acr := acr } m ops = some (c', m', results) ∧
      results.length = ops.length ∧
      ∀ i a n, ops[i]? = some (.read a n) →
        results[i]? = some (readSpan (lastWritten m (ops.take i).reverse) a n) := by
  obtain ⟨hinv, hlines, hact⟩ := addRegions_spec regions inv_default hc
  have hset : Settled c.regions ((cacr >>> 25) &&& 3)
      { c with cacr := cacr, acr := acr } m m := by
    refine ⟨⟨hinv.regionsOk, hinv.apart, hinv.linesOk, hinv.accessOk, ?_⟩, hact, rfl, hdec, rfl,
      Backs.of_invalid fun s => ?_⟩
    · simp [PendingOk, hinv.pending_of_idle hact]
    · simp [hlines]
  obtain ⟨c', m', results, hrun, -, hlen, hall⟩ := hset.run ops hops
  refine ⟨c', m', results, hrun, hlen, fun i a n hi => ?_⟩
  obtain ⟨hlt, hop⟩ := List.getElem?_eq_some_iff.mp hi
  rw [hall i hlt, hop, Op.result, foldl_act_eq]

/-- A copyback write and a read across two lines of a small window. -/
theorem reads_return_last_write_copyback :
    ∃ c' m' results, run { regions := [⟨4096, 64⟩], cacr := 0x82000000 } (fun _ => 7)
        [.write 4110 [1, 2, 3, 4], .push 0xf468 4097, .read 4108 8] = some (c', m', results) ∧
      results[2]? = some [7, 7, 1, 2, 3, 4, 7, 7] := by
  obtain ⟨c', m', results, hrun, -, hread⟩ := reads_return_last_write [⟨4096, 64⟩]
    { regions := [⟨4096, 64⟩] } rfl 0x82000000 (fun _ => 0) (by decide) (fun _ => 7)
    [.write 4110 [1, 2, 3, 4], .push 0xf468 4097, .read 4108 8] (by
      intro op hop
      simp only [List.mem_cons, List.not_mem_nil, or_false] at hop
      rcases hop with rfl | rfl | rfl
      · exact ⟨by decide, by decide, ⟨4096, 64⟩, by simp, by decide, by decide⟩
      · exact ⟨by decide, by decide⟩
      · exact ⟨by decide, by decide, ⟨4096, 64⟩, by simp, by decide, by decide⟩)
  exact ⟨c', m', results, hrun, hread 2 4108 8 rfl⟩

end Quetz.WindowDataCache
