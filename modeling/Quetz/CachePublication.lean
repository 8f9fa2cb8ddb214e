import Quetz.CacheBank
import Quetz.CacheTransparency

/-!
# Publication by Cleaning and Invalidating

The caches of a bank are not coherent. Software publishes data by pushing every line of the
writer's cache (one CPUSHL for each set and way) and by invalidating the reader's cache with a
`DCINVA` control write. This module runs both over one memory, through the bank.

`service` is the loop of `serviceWindowCache` (`src/quetzcpu_mmio_sync.cc`) with its answers:
an action on native RAM is answered directly, any other is registered with the bank under a
fresh id and answered through it.

## Main results

* `service_eq`: through the bank, a transaction does to its cache what `drain` does.
* `pushes_eq`: the exact effect of any sequence of pushes of distinct slots.
* `publication`: push everything, invalidate, and the reader gets the writer's bytes.
-/

open ByteMemory

namespace Quetz

open WindowDataCache

namespace WindowCacheBank

/-! ### Transactions through the bank -/

/-- What transactions through the bank leave behind. -/
structure Serviced where
  bank : WindowCacheBank
  memory : ℕ → UInt8
  fresh : ℕ
  results : List (List UInt8)
  requests : List Action

/-- The loop of `serviceWindowCache` for the CPU `v`, with the answers of one memory. `native`
tells the addresses of native RAM and `fresh` is the next request id. -/
def service (native : ℕ → Bool) (v : ℕ) :
    ℕ → WindowCacheBank → (ℕ → UInt8) → ℕ → Option Serviced
  | 0, _, _, _ => none
  | n + 1, b, m, fresh =>
    match b.states[v]? with
    | none => none
    | some st =>
      match st.cache.next with
      | .error _ => none
      | .ok (c, a) =>
        let b := b.setState v { st with cache := c }
        if a.kind = .done then some ⟨b, m, fresh, [a.bytes], []⟩
        else if native a.address then
          match b.onCache v fun c => c.complete (answer m a) with
          | .error _ _ => none
          | .ok _ b => (service native v n b (store m a) fresh).map fun o =>
              { o with requests := a :: o.requests }
        else
          match b.issued v fresh (a.kind = .read) with
          | .error _ _ => none
          | .ok _ b =>
            match b.complete fresh v (a.kind = .read) (answer m a) with
            | .error _ _ => none
            | .ok _ b => (service native v n b (store m a) (fresh + 1)).map fun o =>
                { o with requests := a :: o.requests }

/-- A sequence of transactions of one CPU, each run to `done`. -/
def serviceAll (native : ℕ → Bool) (v : ℕ) :
    List Op → WindowCacheBank → (ℕ → UInt8) → ℕ → Option Serviced
  | [], b, m, fresh => some ⟨b, m, fresh, [], []⟩
  | op :: ops, b, m, fresh =>
    match b.onCache v op.open with
    | .error _ _ => none
    | .ok _ b =>
      match service native v (3 * ((b.states[v]?).elim 0 fun st => st.cache.count) + 3) b m
          fresh with
      | none => none
      | some o =>
        (serviceAll native v ops o.bank o.memory o.fresh).map fun o' =>
          { o' with
            results := o.results ++ o'.results
            requests := o.requests ++ o'.requests }

variable {b : WindowCacheBank} {v : ℕ} {m : ℕ → UInt8}

/-- An id registered and answered at once leaves no trace. -/
theorem erase_insert {id : ℕ} (p : BankPending) (h : id ∉ b.pending) :
    (b.pending.insert id p).erase id = b.pending := by
  apply AList.ext
  rw [AList.insert_of_notMem h]
  exact List.kerase_cons_eq rfl

@[simp] theorem setState_setState (v : ℕ) (st st' : BankState) :
    (b.setState v st).setState v st' = b.setState v st' := by
  simp [setState]

/-- A direct answer replaces the cache. -/
theorem onCache_complete {c d : WindowDataCache} {bs : List UInt8}
    (hst : b.states[v]? = some { cache := c }) (hc : c.complete bs = .ok d) :
    b.onCache v (fun c => c.complete bs) = .ok () (b.setState v { cache := d }) := by
  simp [onCache, hst, hc]

/-- Registering a request and answering it replaces the cache. -/
theorem issued_complete {c d : WindowDataCache} {bs : List UInt8} (id : ℕ) (read : Bool)
    (hst : b.states[v]? = some { cache := c }) (hc : c.complete bs = .ok d)
    (hid : id ∉ b.pending) :
    ∃ b', b.issued v id read = .ok () b' ∧
      b'.complete id v read bs = .ok () (b.setState v { cache := d }) := by
  have hact := (complete_ok hc).1
  refine ⟨setState { b with pending := b.pending.insert id ⟨v, read⟩ } v
    { cache := c, outstanding := true }, ?_, ?_⟩
  · simp [issued, hst, hact, hid]
  · have hst' : (setState { b with pending := b.pending.insert id ⟨v, read⟩ } v
        { cache := c, outstanding := true }).states[v]? =
        some { cache := c, outstanding := true } :=
      setState_self (b := { b with pending := b.pending.insert id ⟨v, read⟩ }) hst
    simp only [complete, setState_pending, AList.lookup_insert, ne_eq, not_true_eq_false,
      if_false, hst', hc]
    simp [setState, erase_insert _ hid]

/-- **Through the bank.** A transaction that `drain` runs to the end runs to the end through
the bank, with the same requests and answers, and touches nothing but its own cache. -/
theorem service_eq (native : ℕ → Bool) (n : ℕ) :
    ∀ {b : WindowCacheBank} {m} (fresh : ℕ) {c : WindowDataCache} {o : Outcome},
    b.states[v]? = some { cache := c } → (∀ id, fresh ≤ id → id ∉ b.pending) →
    drain n c m = some o →
    ∃ fresh', fresh ≤ fresh' ∧ service native v n b m fresh =
      some ⟨b.setState v { cache := o.cache }, o.memory, fresh', [o.result], o.requests⟩ := by
  induction n with
  | zero =>
      intro b m _ c o _ _ h
      cases h
  | succ n ih =>
      intro b m fresh c o hst hfresh h
      cases hn : c.next with
      | error e => simp [drain, hn] at h
      | ok r =>
          obtain ⟨c', a⟩ := r
          simp only [service, hst, hn]
          by_cases hdone : a.kind = .done
          · rw [drain_done hn hdone] at h
            cases h
            exact ⟨fresh, le_rfl, by simp [hdone]⟩
          · simp only [drain, hn, if_neg hdone] at h
            cases hc : c'.complete (answer m a) with
            | error e => simp [hc] at h
            | ok d =>
                simp only [hc, Option.map_eq_some_iff] at h
                obtain ⟨o', ho', rfl⟩ := h
                have hst' : (b.setState v { cache := c' }).states[v]? = some { cache := c' } :=
                  setState_self hst
                have hst'' : ((b.setState v { cache := c' }).setState v { cache := d }).states[v]?
                    = some { cache := d } := setState_self hst'
                rw [if_neg hdone]
                by_cases hnat : native a.address = true
                · rw [if_pos hnat, onCache_complete hst' hc]
                  obtain ⟨k, hk, heq⟩ := ih fresh hst'' (by simpa using hfresh) ho'
                  simp only [setState_setState] at heq
                  exact ⟨k, hk, by simp [heq]⟩
                · rw [if_neg hnat]
                  obtain ⟨b', hiss, hcomp⟩ := issued_complete fresh (decide (a.kind = .read))
                    hst' hc (by simpa using hfresh fresh le_rfl)
                  obtain ⟨k, hk, heq⟩ := ih (fresh + 1) hst''
                    (fun id hid => by simpa using hfresh id (by omega)) ho'
                  simp only [setState_setState] at heq hcomp
                  exact ⟨k, by omega, by simp [hiss, hcomp, heq]⟩

/-- One transaction through the bank. -/
theorem serviceAll_cons (native : ℕ → Bool) (fresh : ℕ) {c : WindowDataCache} {o : Outcome}
    {op : Op} (ops : List Op) (hst : b.states[v]? = some { cache := c })
    (hfresh : ∀ id, fresh ≤ id → id ∉ b.pending) (ho : transact c m op = some o) :
    ∃ fresh', fresh ≤ fresh' ∧ serviceAll native v (op :: ops) b m fresh =
      (serviceAll native v ops (b.setState v { cache := o.cache }) o.memory fresh').map
        fun o' => { o' with
          results := o.result :: o'.results
          requests := o.requests ++ o'.requests } := by
  rw [transact] at ho
  cases hop : op.open c with
  | error e => simp [hop] at ho
  | ok d =>
      simp only [hop] at ho
      have hopen : b.onCache v op.open = .ok () (b.setState v { cache := d }) := by
        simp [onCache, hst, hop]
      have hst' : (b.setState v { cache := d }).states[v]? = some { cache := d } :=
        setState_self hst
      obtain ⟨k, hk, heq⟩ := service_eq native _ fresh hst' (by simpa using hfresh) ho
      refine ⟨k, hk, ?_⟩
      simp [serviceAll, hopen, hst', heq]

end WindowCacheBank

/-! ### Pushing every line -/

namespace WindowDataCache

/-- The slot a CPUSHL operand selects. -/
def pushSlot (operand : BitVec 32) : Slot :=
  slotOf (setIndex operand.toNat) (Fin.ofNat ways operand.toNat)

/-- A line that must be written back. -/
def Line.isDirty (line : Line) : Bool := line.valid && line.dirty

/-- A line after its push. -/
def Line.cleaned (line : Line) (invalidate : Bool) : Line :=
  { line with dirty := false, valid := if invalidate then false else line.valid }

theorem Line.cleaned_eq_self {line : Line} (h : line.dirty = false) :
    line.cleaned false = line := by
  cases line
  simp_all [Line.cleaned]

/-- The request that writes a line back. -/
def Line.writeBack (line : Line) : Action := ⟨.write, line.address, 16, List.ofFn line.bytes⟩

/-- The memory after the push of a line. -/
def Line.flush (line : Line) (m : ℕ → UInt8) : ℕ → UInt8 :=
  if line.isDirty then writeSpan m line.address (List.ofFn line.bytes) else m

/-- Whether a push also invalidates the line. -/
def pushInvalidates (c : WindowDataCache) : Bool := decide (c.cacr &&& DDPI = 0)

variable {c : WindowDataCache} {m : ℕ → UInt8}

/-- What the push of one slot leaves behind. -/
structure Cleans (c : WindowDataCache) (m : ℕ → UInt8) (s : Slot) (o : Outcome) : Prop where
  inv : Inv o.cache
  idle : o.cache.active = false
  controls : SameControls c o.cache
  lines : o.cache.lines =
    Function.update c.lines s ((c.lines s).cleaned c.pushInvalidates)
  memory : o.memory = (c.lines s).flush m
  requests : o.requests = if (c.lines s).isDirty then [(c.lines s).writeBack] else []

/-- **One push.** A data CPUSHL writes its line back if it is dirty and leaves it clean. -/
theorem transact_push (h : Inv c) (hidle : c.active = false) {i : BitVec 16} (o : BitVec 32)
    (hi : PushOk i) (hdata : i &&& 0x40 ≠ 0) :
    ∃ r, transact c m (.push i o) = some r ∧ Cleans c m (pushSlot o) r := by
  have hopen : Op.open c (.push i o) = .ok { c.started with
      pushing := true, invalidatePush := c.pushInvalidates, pendingSlot := pushSlot o } := by
    refine push_eq_ok.mpr ⟨hidle, hi, ?_⟩
    rw [select, if_neg hdata]
    rfl
  have hinv := h.push hopen
  have hp : Pushing { c.started with
      pushing := true, invalidatePush := c.pushInvalidates, pendingSlot := pushSlot o } :=
    ⟨rfl, rfl, rfl, rfl, rfl, rfl⟩
  simp only [transact, hopen]
  by_cases hvd : (c.lines (pushSlot o)).valid = true ∧ (c.lines (pushSlot o)).dirty = true
  · have hdirty : (c.lines (pushSlot o)).isDirty = true := by simp [Line.isDirty, hvd]
    refine ⟨_, drain_push_dirty hp hvd.1 hvd.2 1, ?_, rfl, ⟨rfl, rfl, rfl⟩, rfl, ?_, ?_⟩
    · refine ⟨h.regionsOk, h.apart, h.linesOk.update_self _ _ (fun _ => ⟨hvd.1, rfl⟩) ?_, ?_,
        trivial⟩
      · simp
      · simp
    · simp only [Line.flush, hdirty, if_true]
      rfl
    · simp only [hdirty, if_true]
      rfl
  · have hclean : (c.lines (pushSlot o)).isDirty = false := by
      simpa [Line.isDirty] using hvd
    have hd : (c.lines (pushSlot o)).dirty = false := by
      by_contra hd
      rw [Bool.not_eq_false] at hd
      exact hvd ⟨h.linesOk.dirty_valid _ hd, hd⟩
    have hlines : (if c.pushInvalidates then Function.update c.lines (pushSlot o)
        { c.lines (pushSlot o) with valid := false } else c.lines) =
        Function.update c.lines (pushSlot o)
          ((c.lines (pushSlot o)).cleaned c.pushInvalidates) := by
      cases c.pushInvalidates with
      | true => simp [Line.cleaned, hd]
      | false => simp [Line.cleaned_eq_self hd]
    refine ⟨_, drain_push_clean hp hvd 2, ?_, rfl, ⟨rfl, rfl, rfl⟩, hlines, ?_, ?_⟩
    · refine ⟨h.regionsOk, h.apart, ?_, by simp, ?_⟩
      · rw [show c.started.lines = c.lines from rfl, hlines]
        refine h.linesOk.update_self _ _ ?_ (by simp [Line.cleaned])
        simp only [Line.cleaned]
        split
        · simp
        · exact fun hv => ⟨hv, trivial⟩
      · exact trivial
    · simp [Line.flush, hclean]
    · simp [hclean]

/-! ### The memory after a list of pushes -/

variable {rs : List Region} {ls : Slot → Line}

/-- Two dirty lines at the same address are the same slot. -/
theorem LinesOk.eq_of_line (h : LinesOk rs ls) {s t : Slot} {a : ℕ}
    (hs : (ls s).isDirty = true) (ht : (ls t).isDirty = true) (hsa : (ls s).address = lineOf a)
    (hta : (ls t).address = lineOf a) : s = t := by
  simp only [Line.isDirty, Bool.and_eq_true] at hs ht
  exact h.unique s t hs.1 ht.1 (hsa.trans hta.symm)

/-- Off a dirty line its push leaves the memory alone. -/
theorem LinesOk.flush_off (h : LinesOk rs ls) {s : Slot} {a : ℕ} (m : ℕ → UInt8)
    (ha : (ls s).isDirty = true → (ls s).address ≠ lineOf a) : (ls s).flush m a = m a := by
  rw [Line.flush]
  split
  · next hd =>
      have hv : (ls s).valid = true := by
        simp only [Line.isDirty, Bool.and_eq_true] at hd
        exact hd.1
      exact writeSpan_off_line m (h.aligned s hv) le_rfl (by simp [lineBytes])
        (Ne.symm (ha hd))
  · rfl

/-- Off all dirty lines a list of pushes leaves the memory alone. -/
theorem LinesOk.foldl_flush_off (h : LinesOk rs ls) {a : ℕ} (slots : List Slot) :
    ∀ m : ℕ → UInt8, (∀ s ∈ slots, (ls s).isDirty = true → (ls s).address ≠ lineOf a) →
    slots.foldl (fun m s => (ls s).flush m) m a = m a := by
  induction slots with
  | nil => exact fun m _ => rfl
  | cons s slots ih =>
      intro m ha
      rw [List.foldl_cons, ih _ fun t ht => ha t (List.mem_cons_of_mem _ ht),
        h.flush_off m (ha s List.mem_cons_self)]

/-- On a dirty line a list of pushes leaves the line's bytes, whatever their order. -/
theorem LinesOk.foldl_flush_on (h : LinesOk rs ls) {s : Slot} (hd : (ls s).isDirty = true)
    (i : Fin lineBytes) (slots : List Slot) : ∀ m : ℕ → UInt8, s ∈ slots →
    slots.foldl (fun m s => (ls s).flush m) m ((ls s).address + i) = (ls s).bytes i := by
  have hv : (ls s).valid = true := by
    simp only [Line.isDirty, Bool.and_eq_true] at hd
    exact hd.1
  have hline := lineOf_add (h.aligned s hv) i
  induction slots with
  | nil => exact fun m hs => by cases hs
  | cons t slots ih =>
      intro m hs
      rw [List.foldl_cons]
      by_cases hmem : s ∈ slots
      · exact ih _ hmem
      · obtain rfl : s = t := (List.mem_cons.mp hs).resolve_right hmem
        rw [h.foldl_flush_off slots _ fun u hu hdu hua =>
          hmem (h.eq_of_line hd hdu hline.symm hua ▸ hu)]
        rw [Line.flush]
        rw [if_pos hd, writeSpan_of_mem _ _ (Nat.le_add_right _ _) (by simp)]
        simp only [List.getElem_ofFn, Nat.add_sub_cancel_left, Fin.eta]

end WindowDataCache

/-! ### Publication -/

namespace WindowCacheBank

/-- What pushing a list of slots leaves behind. -/
structure CleansAll (b : WindowCacheBank) (v : ℕ) (c : WindowDataCache) (m : ℕ → UInt8)
    (fresh : ℕ) (slots : List Slot) (o : Serviced) (d : WindowDataCache) : Prop where
  bank : o.bank = b.setState v { cache := d }
  fresh : fresh ≤ o.fresh
  inv : d.Inv
  idle : d.active = false
  controls : SameControls c d
  lines : ∀ s, d.lines s =
    if s ∈ slots then (c.lines s).cleaned c.pushInvalidates else c.lines s
  memory : o.memory = slots.foldl (fun m s => (c.lines s).flush m) m
  requests : o.requests =
    (slots.filter fun s => (c.lines s).isDirty).map fun s => (c.lines s).writeBack

/-- **Any list of pushes.** Data pushes of distinct slots all run to `done`; each writes its
line back if it was dirty and leaves it clean. -/
theorem pushes_eq (native : ℕ → Bool) (v : ℕ) (pushes : List (BitVec 16 × BitVec 32)) :
    ∀ {b : WindowCacheBank} {m : ℕ → UInt8} (fresh : ℕ) {c : WindowDataCache},
    b.states[v]? = some { cache := c } → (∀ id, fresh ≤ id → id ∉ b.pending) → c.Inv →
    c.active = false → (∀ p ∈ pushes, PushOk p.1 ∧ p.1 &&& 0x40 ≠ 0) →
    (pushes.map fun p => pushSlot p.2).Nodup →
    ∃ o d, serviceAll native v (pushes.map fun p => .push p.1 p.2) b m fresh = some o ∧
      CleansAll b v c m fresh (pushes.map fun p => pushSlot p.2) o d := by
  induction pushes with
  | nil =>
      intro b m fresh c hst _ hinv hidle _ _
      refine ⟨_, c, rfl, ?_, le_rfl, hinv, hidle, ⟨rfl, rfl, rfl⟩, by simp, rfl, rfl⟩
      obtain ⟨hlt, hget⟩ := List.getElem?_eq_some_iff.mp hst
      simp [setState, ← hget]
  | cons p pushes ih =>
      intro b m fresh c hst hfresh hinv hidle hok hnodup
      obtain ⟨hi, hdata⟩ := hok p List.mem_cons_self
      rw [List.map_cons, List.nodup_cons] at hnodup
      obtain ⟨hnew, hnodup⟩ := hnodup
      obtain ⟨r, hr, hcl⟩ := transact_push (m := m) hinv hidle p.2 hi hdata
      obtain ⟨k, hk, heq⟩ := serviceAll_cons native fresh
        (pushes.map fun p => .push p.1 p.2) hst hfresh hr
      obtain ⟨o, d, ho, hall⟩ := ih (b := b.setState v { cache := r.cache }) (m := r.memory)
        k (setState_self hst)
        (fun id hid => by simpa using hfresh id (by omega)) hcl.inv hcl.idle
        (fun q hq => hok q (List.mem_cons_of_mem _ hq)) hnodup
      -- the pushes that follow select other slots, which this one leaves alone
      have hsame : ∀ s ∈ pushes.map fun p => pushSlot p.2, r.cache.lines s = c.lines s := by
        intro s hs
        rw [hcl.lines, Function.update_of_ne]
        rintro rfl
        exact hnew hs
      have hinvd : r.cache.pushInvalidates = c.pushInvalidates := by
        simp only [pushInvalidates, hcl.controls.cacr]
      refine ⟨{ o with
        results := r.result :: o.results, requests := r.requests ++ o.requests }, d, ?_, ?_⟩
      · rw [List.map_cons, heq, ho]
        rfl
      refine ⟨?_, hk.trans hall.fresh, hall.inv, hall.idle, ?_, ?_, ?_, ?_⟩
      · rw [hall.bank, setState_setState]
      · exact ⟨hall.controls.regions.trans hcl.controls.regions,
          hall.controls.cacr.trans hcl.controls.cacr, hall.controls.acr.trans hcl.controls.acr⟩
      · intro s
        rw [hall.lines s, hinvd, List.map_cons]
        by_cases hs : s ∈ pushes.map fun p => pushSlot p.2
        · rw [if_pos hs, if_pos (List.mem_cons_of_mem _ hs), hsame s hs]
        · rw [if_neg hs, hcl.lines]
          by_cases hsp : s = pushSlot p.2
          · subst hsp
            simp
          · rw [Function.update_of_ne hsp, if_neg]
            rw [List.mem_cons, not_or]
            exact ⟨hsp, hs⟩
      · dsimp only
        rw [hall.memory, hcl.memory, List.map_cons, List.foldl_cons]
        exact List.foldl_ext _ _ _ fun m s hs => by rw [hsame s hs]
      · dsimp only
        rw [hall.requests, hcl.requests, List.map_cons, List.filter_cons]
        have htail : ((pushes.map fun p => pushSlot p.2).filter fun s =>
            (r.cache.lines s).isDirty).map (fun s => (r.cache.lines s).writeBack) =
            ((pushes.map fun p => pushSlot p.2).filter fun s =>
              (c.lines s).isDirty).map fun s => (c.lines s).writeBack := by
          rw [List.filter_congr fun s hs => by rw [hsame s hs]]
          exact List.map_congr_left fun s hs => by rw [hsame s (List.mem_of_mem_filter hs)]
        rw [htail]
        split <;> simp_all

/-- An invalidated cache reads from memory, whatever the mode. -/
theorem invalidate_then_read {c : WindowDataCache} (m : ℕ → UInt8) {value : BitVec 32}
    {a n : ℕ} (h : c.Inv) (hidle : c.active = false) (hctl : ControlOk 2 value)
    (hinv : value &&& DCINVA ≠ 0) (hn : 0 < n) (hn8 : n ≤ 8) (hin : Within c.regions a n) :
    ∃ o o', transact c m (.movec 2 value) = some o ∧
      transact o.cache o.memory (.read a n) = some o' ∧ o'.result = readSpan m a n := by
  have hmovec : c.movec 2 value = .ok (c.started.control 2 value) :=
    movec_eq_ok.mpr ⟨hidle, hctl, rfl⟩
  have hctrl : c.started.control 2 value = { c.started with
      dirtyDiscards := c.dirtyDiscards + dirtyCount c.lines
      lines := invalidateAll c.lines
      cacr := value &&& ~~~(DCINVA ||| 0x00040100) } := by
    simp only [WindowDataCache.control, if_true, if_pos hinv]
    rfl
  have hempty : ∀ s, ((c.started.control 2 value).lines s).valid = false := by
    rw [hctrl]
    exact fun s => rfl
  have hloop : Looping (c.started.control 2 value) := by
    rw [hctrl]
    exact ⟨rfl, rfl, rfl⟩
  have hoff : (c.started.control 2 value).offset = 0 := by rw [hctrl]; rfl
  have hwrite : (c.started.control 2 value).write = false := by rw [hctrl]; rfl
  have hreg : (c.started.control 2 value).regions = c.regions := by rw [hctrl]; rfl
  obtain ⟨o, ho, hs⟩ := drain_access (m := m) _ (h.movec hmovec) hloop hoff
    (Backs.of_invalid hempty)
  have hback := hs.backs
  rw [hwrite] at hback
  have hacc := access_of_within hs.inv hs.idle false [] hn hn8
    (by rw [hs.controls.regions, hreg]; exact hin) (by simp)
  obtain ⟨o', ho', hs'⟩ := drain_access (o.cache.opened a n false [])
    (hs.inv.access hacc) ⟨rfl, rfl, rfl⟩ rfl (hback.congr rfl rfl)
  refine ⟨o, o', ?_, ?_, hs'.result⟩
  · simp only [transact, Op.open, hmovec]
    exact ho
  · simp only [transact, Op.open, hacc]
    exact ho'

/-- **Publication.** In any bank a driven run reaches, take an idle writer `w` and push all
2048 slots of its cache in any order. Every valid dirty line is written to memory exactly once
with its bytes, no other byte of memory changes, and no line of the writer stays dirty: all are
invalid when the pushes invalidate (`DDPI` clear), and otherwise keep tag, validity and bytes.
If then an idle CPU `r` invalidates its cache and reads, it gets the writer's bytes. -/
theorem publication {b₀ : WindowCacheBank} (hb : Configured b₀) (steps : List Step)
    (hd : Driven b₀ steps) {w r : ℕ} (hwr : w ≠ r) {c d : WindowDataCache}
    (hw : (b₀.run steps).states[w]? = some { cache := c })
    (hr : (b₀.run steps).states[r]? = some { cache := d })
    (hcidle : c.active = false) (hdidle : d.active = false) (native : ℕ → Bool)
    (m : ℕ → UInt8) (fresh : ℕ) (hfresh : ∀ id, fresh ≤ id → id ∉ (b₀.run steps).pending)
    (pushes : List (BitVec 16 × BitVec 32))
    (hok : ∀ p ∈ pushes, PushOk p.1 ∧ p.1 &&& 0x40 ≠ 0)
    (hall : (pushes.map fun p => pushSlot p.2).Perm (List.finRange (sets * ways))) :
    ∃ o c', serviceAll native w (pushes.map fun p => .push p.1 p.2) (b₀.run steps) m fresh =
        some o ∧
      o.bank.states[w]? = some { cache := c' } ∧
      o.requests.Perm (((List.finRange (sets * ways)).filter fun s =>
        (c.lines s).isDirty).map fun s => (c.lines s).writeBack) ∧
      (∀ s, (c.lines s).isDirty = true → ∀ i : Fin lineBytes,
        o.memory ((c.lines s).address + i) = (c.lines s).bytes i) ∧
      (∀ a, (∀ s, (c.lines s).isDirty = true → (c.lines s).address ≠ lineOf a) →
        o.memory a = m a) ∧
      (∀ s, (c'.lines s).dirty = false) ∧
      (c.cacr &&& DDPI = 0 → ∀ s, (c'.lines s).valid = false) ∧
      (c.cacr &&& DDPI ≠ 0 → ∀ s, (c'.lines s).address = (c.lines s).address ∧
        (c'.lines s).valid = (c.lines s).valid ∧ (c'.lines s).bytes = (c.lines s).bytes) ∧
      ∀ value a n, ControlOk 2 value → value &&& DCINVA ≠ 0 → 0 < n → n ≤ 8 →
        Within c.regions a n →
        ∃ o' bytes, serviceAll native r [.movec 2 value, .read a n] o.bank o.memory o.fresh =
            some o' ∧
          o'.results[1]? = some bytes ∧ bytes.length = n ∧
          ∀ s, (c.lines s).isDirty = true → ∀ i : Fin lineBytes, ∀ j,
            (c.lines s).address + i = a + j → j < n → bytes[j]? = some ((c.lines s).bytes i) := by
  obtain ⟨k, c₀, hu⟩ := hb.uniform
  have hinv := hu.bankInv.run steps hd
  have hcinv := hinv.caches w _ hw
  have hdinv := hinv.caches r _ hr
  have hregions : d.regions = c.regions := by
    obtain ⟨st, hst, hreg⟩ := run_regions steps hu.bankInv hd w _ hw
    obtain ⟨st', hst', hreg'⟩ := run_regions steps hu.bankInv hd r _ hr
    rw [hu.getElem? hst] at hreg
    rw [hu.getElem? hst'] at hreg'
    exact hreg'.trans hreg.symm
  have hmem : ∀ s, s ∈ pushes.map fun p => pushSlot p.2 :=
    fun s => hall.mem_iff.mpr (List.mem_finRange s)
  obtain ⟨o, c', ho, hcl⟩ := pushes_eq native w pushes (m := m) fresh hw hfresh hcinv hcidle hok
    (hall.nodup_iff.mpr (List.nodup_finRange _))
  have hlines : ∀ s, c'.lines s = (c.lines s).cleaned c.pushInvalidates := fun s => by
    rw [hcl.lines s, if_pos (hmem s)]
  have hon : ∀ s, (c.lines s).isDirty = true → ∀ i : Fin lineBytes,
      o.memory ((c.lines s).address + i) = (c.lines s).bytes i := by
    intro s hs i
    rw [hcl.memory]
    exact hcinv.linesOk.foldl_flush_on hs i _ m (hmem s)
  refine ⟨o, c', ho, ?_, ?_, hon, ?_, ?_, ?_, ?_, ?_⟩
  · rw [hcl.bank]
    exact setState_self hw
  · rw [hcl.requests]
    exact (hall.filter _).map _
  · intro a ha
    rw [hcl.memory]
    exact hcinv.linesOk.foldl_flush_off _ m fun s _ => ha s
  · intro s
    rw [hlines s]
    rfl
  · intro hddpi s
    rw [hlines s]
    simp [Line.cleaned, pushInvalidates, hddpi]
  · intro hddpi s
    have hkeep : c.pushInvalidates = false := decide_eq_false hddpi
    rw [hlines s, hkeep]
    exact ⟨rfl, rfl, rfl⟩
  · intro value a n hctl hdc hn hn8 hin
    obtain ⟨o₁, o₂, h₁, h₂, hres⟩ := invalidate_then_read o.memory hdinv hdidle hctl hdc hn hn8
      (hregions ▸ hin)
    have hr' : o.bank.states[r]? = some { cache := d } := by
      rw [hcl.bank, setState_of_ne _ hwr.symm]
      exact hr
    have hpend : ∀ id, o.fresh ≤ id → id ∉ o.bank.pending := by
      intro id hid
      rw [hcl.bank, setState_pending]
      exact hfresh id (hcl.fresh.trans hid)
    obtain ⟨f₁, hf₁, heq₁⟩ := serviceAll_cons native o.fresh [.read a n] hr' hpend h₁
    obtain ⟨f₂, hf₂, heq₂⟩ := serviceAll_cons native f₁ []
      (b := o.bank.setState r { cache := o₁.cache }) (setState_self hr')
      (fun id hid => by simpa using hpend id (by omega)) h₂
    refine ⟨_, readSpan o.memory a n, by rw [heq₁, heq₂]; rfl, ?_, length_readSpan _ _ _, ?_⟩
    · simp [hres]
    · intro s hs i j hij hj
      have hget : (readSpan o.memory a n)[j]? = some (o.memory (a + j)) := by
        rw [List.getElem?_eq_getElem (by simpa using hj), getElem_readSpan]
      rw [hget, ← hij, hon s hs i]

/-- The operand that selects a slot. -/
def operandOf (s : Slot) : BitVec 32 := BitVec.ofNat 32 (s / ways * lineBytes + s % ways)

theorem pushSlot_operandOf (s : Slot) : pushSlot (operandOf s) = s := by
  have hs : (s : ℕ) < 2048 := s.isLt
  apply Fin.ext
  simp only [pushSlot, operandOf, slotOf, setIndex, Fin.ofNat, BitVec.toNat_ofNat, lineBytes,
    sets, ways]
  omega

/-- Every slot of the cache once, in slot order. -/
def pushAll : List (BitVec 16 × BitVec 32) :=
  (List.finRange (sets * ways)).map fun s => (0xf468, operandOf s)

/-- A write on CPU 0 of a small bank, up to the end of its transaction. -/
def writeOnCpu0 : List Step :=
  [.movec 0 2 0x82000000, .next 0, .access 0 4100 1 true [5], .next 0,
    .native 0 (List.replicate 16 0), .next 0]

/-- CPU 1 reads the byte that CPU 0 wrote and pushed. -/
theorem publication_small :
    ∃ o o' bytes, serviceAll (fun _ => false) 0 (pushAll.map fun p => .push p.1 p.2)
        (smallBank.run writeOnCpu0) (fun _ => 0) 0 = some o ∧
      serviceAll (fun _ => false) 1 [.movec 2 0x83000000, .read 4100 1] o.bank o.memory
        o.fresh = some o' ∧
      o'.results[1]? = some bytes ∧ bytes[0]? = some 5 := by
  have hall : (pushAll.map fun p => pushSlot p.2).Perm (List.finRange (sets * ways)) := by
    rw [pushAll, List.map_map]
    refine List.Perm.of_eq ?_
    conv_rhs => rw [← List.map_id (List.finRange (sets * ways))]
    exact List.map_congr_left fun s _ => pushSlot_operandOf s
  have hok : ∀ p ∈ pushAll, PushOk p.1 ∧ p.1 &&& 0x40 ≠ 0 := by
    intro p hp
    obtain ⟨s, -, rfl⟩ := List.mem_map.mp hp
    exact (by decide : PushOk 0xf468 ∧ (0xf468 : BitVec 16) &&& 0x40 ≠ 0)
  obtain ⟨c, hc⟩ : ∃ c, c = ((smallBank.run writeOnCpu0).states.headD { }).cache := ⟨_, rfl⟩
  have hw : (smallBank.run writeOnCpu0).states[0]? = some { cache := c } := by
    rw [hc]
    rfl
  have hdirty : (c.lines 1024).isDirty = true := by
    rw [hc]
    decide +kernel
  have haddr : (c.lines 1024).address = 4096 := by
    rw [hc]
    decide +kernel
  have hbyte : (c.lines 1024).bytes 4 = 5 := by
    rw [hc]
    decide +kernel
  obtain ⟨o, -, ho, -, -, -, -, -, -, -, hread⟩ := publication
    (.configure 2 4096 64 rfl) writeOnCpu0 (by decide +kernel)
    (w := 0) (r := 1) (by decide) hw (d := { regions := [⟨4096, 64⟩] }) rfl
    (by rw [hc]; decide +kernel) rfl (fun _ => false) (fun _ => 0) 0
    (fun id _ => AList.notMem_empty id)
    pushAll hok hall
  obtain ⟨o', bytes, ho', hres, -, hget⟩ := hread 0x83000000 4100 1 (Or.inl ⟨rfl, by decide⟩)
    (by decide) one_pos (by decide) (by rw [hc]; exact ⟨⟨4096, 64⟩, by decide +kernel, by decide⟩)
  exact ⟨o, o', bytes, ho, ho', hres, (hget 1024 hdirty 4 0 (by rw [haddr]; rfl) one_pos).trans
    (congrArg some hbyte)⟩

end WindowCacheBank

end Quetz
