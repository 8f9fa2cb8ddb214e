import Mathlib.Data.List.AList
import Quetz.CacheInvariant

/-!
# The Bank of Per-CPU Window Caches

This module embeds `WindowCacheBank` (`src/quetz_window_cache_bank.h`): one private
`WindowDataCache` per CPU, a flag per CPU that a backing request is outstanding, and a map
from request ids to the CPU and the direction they were issued for.

A member function returns `EStateM.Result`, so an exception comes with the bank as it was
when the exception left the function. `bank.cache(v)` hands out a reference, so a call on a
cache of the bank is `onCache`.

The bank is driven by `serviceWindowCache` (`src/quetzcpu_mmio_sync.cc`). For each request
that `next` hands out, it either answers the cache directly, from native RAM, or registers
the request with `issued`, and it does nothing else with it. `Step.Driven` is that discipline.

## Main results

* `BankInv.step`: every driven step keeps ownership, flags and caches consistent.
* `bank_isolates_cpus`: ownership, and the projection of every interleaving to one CPU.
-/

namespace Quetz

/-- The owner and the direction of an outstanding backing request. -/
structure BankPending where
  vcpu : ℕ
  read : Bool
deriving DecidableEq, Repr

/-- A CPU's cache and whether a backing request of it is outstanding. -/
structure BankState where
  cache : WindowDataCache := {}
  outstanding : Bool := false

/-- The caches of all CPUs and the map of outstanding request ids. -/
structure WindowCacheBank where
  states : List BankState := []
  pending : AList fun _ : ℕ => BankPending := ∅

namespace WindowCacheBank

/-- What a member function leaves behind. -/
abbrev Result := EStateM.Result Exn WindowCacheBank Unit

/-- The bank a call leaves behind, returned or thrown. -/
def Result.bank : Result → WindowCacheBank
  | .ok _ b => b
  | .error _ b => b

/-! ### The member functions -/

variable (b : WindowCacheBank)

/-- The exception of `states_.at`. -/
def rangeError : Exn := .outOfRange "vector"

/-- Replace the state of a CPU. -/
def setState (v : ℕ) (st : BankState) : WindowCacheBank := { b with states := b.states.set v st }

/-- Whether any cache is active or any request outstanding. -/
def active : Bool := !b.pending.entries.isEmpty || b.states.any fun st => st.cache.active

/-- Give every CPU a fresh cache over one region. -/
def configure (cores base size : ℕ) : Result :=
  if cores < 1 ∨ cores > 2 ∨ b.active = true then
    .error (.invalidArgument "window cache bank requires one or two idle CPUs") b
  else
    match WindowDataCache.configure {} base size with
    | .error e => .error e b
    | .ok c => .ok () { b with states := List.replicate cores { cache := c } }

/-- The loop of `addRegion` from CPU `v` on; the caches before a throwing one keep the
region. -/
def addRegionFrom (base size : ℕ) : ℕ → ℕ → WindowCacheBank → Result
  | 0, _, b => .ok () b
  | n + 1, v, b =>
    match b.states[v]? with
    | none => .ok () b
    | some st =>
      match st.cache.addRegion base size with
      | .error e => .error e b
      | .ok c => addRegionFrom base size n (v + 1) (b.setState v { st with cache := c })

/-- Add a region to every cache. -/
def addRegion (base size : ℕ) : Result :=
  if b.active then
    .error (.logicError "adding a cache region during an active transaction") b
  else addRegionFrom base size b.states.length 0 b

/-- Call a member function of `cache(v)`. -/
def onCache (v : ℕ) (f : WindowDataCache → Except Exn WindowDataCache) : Result :=
  match b.states[v]? with
  | none => .error rangeError b
  | some st =>
    match f st.cache with
    | .error e => .error e b
    | .ok c => .ok () (b.setState v { st with cache := c })

/-- Register a backing request of a CPU. -/
def issued (v id : ℕ) (read : Bool) : Result :=
  match b.states[v]? with
  | none => .error rangeError b
  | some st =>
    if st.cache.active = false ∨ st.outstanding = true ∨ id ∈ b.pending then
      .error (.logicError "overlapping window cache backing request") b
    else .ok () (setState { b with pending := b.pending.insert id ⟨v, read⟩ } v
      { st with outstanding := true })

/-- Deliver the answer to a registered request. -/
def complete (id v : ℕ) (read : Bool) (bytes : List UInt8) : Result :=
  if b.pending.lookup id ≠ some ⟨v, read⟩ then
    .error (.logicError "window cache response ownership/type mismatch") b
  else
    match b.states[v]? with
    | none => .error rangeError b
    | some st =>
      match st.cache.complete bytes with
      | .error e => .error e b
      | .ok c => .ok () (setState { b with pending := b.pending.erase id } v
          { cache := c, outstanding := false })

/-- Reset the controls of one CPU. -/
def resetCore (v : ℕ) : Result :=
  match b.states[v]? with
  | none => .error rangeError b
  | some st =>
    if st.outstanding = true ∨ st.cache.active = true then
      .error (.logicError "window cache reset during an outstanding transaction") b
    else b.onCache v WindowDataCache.reset

/-! ### Steps of the CPUs -/

/-- A step of one CPU on the bank. `native` is an answer given directly to the cache. -/
inductive Step where
  | access (v address size : ℕ) (write : Bool) (bytes : List UInt8)
  | movec (v reg : ℕ) (value : BitVec 32)
  | push (v : ℕ) (instruction : BitVec 16) (operand : BitVec 32)
  | next (v : ℕ)
  | native (v : ℕ) (bytes : List UInt8)
  | issued (v id : ℕ) (read : Bool)
  | complete (id v : ℕ) (read : Bool) (bytes : List UInt8)
  | resetCore (v : ℕ)
deriving DecidableEq, Repr

/-- The CPU a step belongs to. -/
def Step.vcpu : Step → ℕ
  | .access v .. | .movec v .. | .push v .. | .next v | .native v _ | .issued v ..
  | .complete _ v .. | .resetCore v => v

/-- The call a step makes. -/
def call : Step → Result
  | .access v a n w bs => b.onCache v fun c => c.access a n w bs
  | .movec v r x => b.onCache v fun c => c.movec r x
  | .push v i o => b.onCache v fun c => c.push i o
  | .next v => b.onCache v fun c => c.next.map Prod.fst
  | .native v bs => b.onCache v fun c => c.complete bs
  | .issued v id read => b.issued v id read
  | .complete id v read bs => b.complete id v read bs
  | .resetCore v => b.resetCore v

/-- One step; a call that throws leaves the bank its exception carries. -/
def step (s : Step) : WindowCacheBank := (b.call s).bank

/-- The bank after a sequence of steps. -/
def run (steps : List Step) : WindowCacheBank := steps.foldl step b

/-- The discipline of `serviceWindowCache`: a request is registered only while the cache
waits for an answer, and a cache is answered directly only when its request was not
registered. -/
def Step.Driven (b : WindowCacheBank) : Step → Prop
  | .issued v .. => ∀ st ∈ b.states[v]?, st.cache.active = true → st.cache.pending ≠ .none
  | .native v _ => ∀ st ∈ b.states[v]?, st.outstanding = false
  | _ => True

instance : (s : Step) → Decidable (s.Driven b)
  | .issued v .. => inferInstanceAs
      (Decidable (∀ st ∈ b.states[v]?, st.cache.active = true → st.cache.pending ≠ .none))
  | .native v _ => inferInstanceAs (Decidable (∀ st ∈ b.states[v]?, st.outstanding = false))
  | .access .. | .movec .. | .push .. | .next .. | .complete .. | .resetCore .. =>
    inferInstanceAs (Decidable True)

/-- Every step of the run is driven. -/
def Driven : WindowCacheBank → List Step → Prop
  | _, [] => True
  | b, s :: steps => s.Driven b ∧ Driven (b.step s) steps

instance decidableDriven : (b : WindowCacheBank) → (steps : List Step) →
    Decidable (Driven b steps)
  | _, [] => inferInstanceAs (Decidable True)
  | b, s :: steps =>
    have := decidableDriven (b.step s) steps
    inferInstanceAs (Decidable (s.Driven b ∧ Driven (b.step s) steps))

/-! ### What a step can do -/

variable {b : WindowCacheBank}

@[simp] theorem setState_pending (v : ℕ) (st : BankState) :
    (b.setState v st).pending = b.pending := rfl

@[simp] theorem setState_length (v : ℕ) (st : BankState) :
    (b.setState v st).states.length = b.states.length := List.length_set

theorem setState_self {v : ℕ} {st st' : BankState} (h : b.states[v]? = some st) :
    (b.setState v st').states[v]? = some st' := by
  obtain ⟨hlt, -⟩ := List.getElem?_eq_some_iff.mp h
  simp [setState, hlt]

theorem setState_of_ne {v w : ℕ} (st : BankState) (h : w ≠ v) :
    (b.setState v st).states[w]? = b.states[w]? := by
  simp [setState, List.getElem?_set_ne (Ne.symm h)]

/-- The states after replacing that of one CPU. -/
theorem setState_cases {v w : ℕ} {st st' st'' : BankState} (hst : b.states[v]? = some st)
    (h : (b.setState v st').states[w]? = some st'') :
    (w = v ∧ st'' = st') ∨ (w ≠ v ∧ b.states[w]? = some st'') := by
  by_cases hwv : w = v
  · subst hwv
    rw [setState_self hst] at h
    exact Or.inl ⟨rfl, (Option.some.inj h).symm⟩
  · rw [setState_of_ne _ hwv] at h
    exact Or.inr ⟨hwv, h⟩

/-- The call a step makes on the cache of its CPU. -/
def Step.cacheCall : Step → Option (WindowDataCache → Except Exn WindowDataCache)
  | .access _ a n w bs => some fun c => c.access a n w bs
  | .movec _ r x => some fun c => c.movec r x
  | .push _ i o => some fun c => c.push i o
  | .next _ => some fun c => c.next.map Prod.fst
  | .native _ bs => some fun c => c.complete bs
  | .resetCore _ => some WindowDataCache.reset
  | .issued .. | .complete .. => none

/-- Everything a step can do to a bank. -/
inductive Effect (b : WindowCacheBank) (s : Step) : WindowCacheBank → Prop
  | idle : Effect b s b
  | cache (f : WindowDataCache → Except Exn WindowDataCache) (st : BankState)
      (c : WindowDataCache) (hs : s.cacheCall = some f) (hst : b.states[s.vcpu]? = some st)
      (hf : f st.cache = .ok c) : Effect b s (b.setState s.vcpu { st with cache := c })
  | issued (id : ℕ) (read : Bool) (st : BankState) (hs : s = .issued s.vcpu id read)
      (hst : b.states[s.vcpu]? = some st) (hact : st.cache.active = true)
      (hout : st.outstanding = false) (hid : id ∉ b.pending) :
      Effect b s (setState { b with pending := b.pending.insert id ⟨s.vcpu, read⟩ } s.vcpu
        { st with outstanding := true })
  | complete (id : ℕ) (read : Bool) (bytes : List UInt8) (st : BankState)
      (c : WindowDataCache) (hs : s = .complete id s.vcpu read bytes)
      (hid : b.pending.lookup id = some ⟨s.vcpu, read⟩)
      (hst : b.states[s.vcpu]? = some st) (hc : st.cache.complete bytes = .ok c) :
      Effect b s (setState { b with pending := b.pending.erase id } s.vcpu
        { cache := c, outstanding := false })

/-- A call on one cache leaves the bank alone or replaces that cache. -/
theorem onCache_effect {s : Step} {f : WindowDataCache → Except Exn WindowDataCache}
    (hs : s.cacheCall = some f) : Effect b s (b.onCache s.vcpu f).bank := by
  rw [onCache]
  cases hst : b.states[s.vcpu]? with
  | none => exact .idle
  | some st =>
      cases hf : f st.cache with
      | error e =>
          simp only [hf]
          exact .idle
      | ok c =>
          simp only [hf]
          exact .cache f st c hs hst hf

/-- A step does one of the things `Effect` lists. -/
theorem step_effect (b : WindowCacheBank) (s : Step) : Effect b s (b.step s) := by
  cases s with
  | access v a n w bs => exact onCache_effect (s := .access v a n w bs) rfl
  | movec v r x => exact onCache_effect (s := .movec v r x) rfl
  | push v i o => exact onCache_effect (s := .push v i o) rfl
  | next v => exact onCache_effect (s := .next v) rfl
  | native v bs => exact onCache_effect (s := .native v bs) rfl
  | resetCore v =>
      simp only [step, call, resetCore]
      cases hst : b.states[v]? with
      | none => exact .idle
      | some st =>
          dsimp only
          split_ifs
          · exact .idle
          · exact onCache_effect (s := .resetCore v) rfl
  | issued v id read =>
      simp only [step, call, WindowCacheBank.issued]
      cases hst : b.states[v]? with
      | none => exact .idle
      | some st =>
          dsimp only
          split_ifs with hbad
          · exact .idle
          · simp only [not_or, Bool.not_eq_false, Bool.not_eq_true] at hbad
            obtain ⟨hact, hout, hid⟩ := hbad
            exact .issued id read st rfl hst hact hout hid
  | complete id v read bs =>
      simp only [step, call, WindowCacheBank.complete]
      by_cases hid : b.pending.lookup id = some ⟨v, read⟩
      · rw [if_neg (not_not.mpr hid)]
        cases hst : b.states[v]? with
        | none => exact .idle
        | some st =>
            cases hc : st.cache.complete bs with
            | error e =>
                simp only [hc]
                exact .idle
            | ok c =>
                simp only [hc]
                exact .complete id read bs st c rfl hid hst hc
      · rw [if_pos hid]
        exact .idle

/-! ### Ownership -/

/-- Flags, map and caches agree: a CPU's flag is set exactly when the map holds a request of
it, there is at most one such request, and its cache waits for the answer. -/
structure BankInv (b : WindowCacheBank) : Prop where
  caches : ∀ (v : ℕ) (st : BankState), b.states[v]? = some st → st.cache.Inv
  waiting : ∀ (v : ℕ) (st : BankState), b.states[v]? = some st → st.outstanding = true →
    st.cache.active = true ∧ st.cache.pending ≠ .none
  owned : ∀ (v : ℕ) (st : BankState), b.states[v]? = some st →
    (st.outstanding = true ↔ ∃ id p, b.pending.lookup id = some p ∧ p.vcpu = v)
  single : ∀ id id' p p', b.pending.lookup id = some p → b.pending.lookup id' = some p' →
    p.vcpu = p'.vcpu → id = id'
  inRange : ∀ id p, b.pending.lookup id = some p → p.vcpu < b.states.length

/-- Replacing the cache of a CPU that has nothing outstanding. -/
theorem BankInv.setCache (h : BankInv b) {v : ℕ} {st : BankState} {c : WindowDataCache}
    (hst : b.states[v]? = some st) (hout : st.outstanding = false) (hc : c.Inv) :
    BankInv (b.setState v { st with cache := c }) := by
  refine ⟨?_, ?_, ?_, h.single, ?_⟩
  · intro w st' hw
    rcases setState_cases hst hw with ⟨-, rfl⟩ | ⟨-, hw⟩
    · exact hc
    · exact h.caches w st' hw
  · intro w st' hw ho
    rcases setState_cases hst hw with ⟨-, rfl⟩ | ⟨-, hw⟩
    · simp [hout] at ho
    · exact h.waiting w st' hw ho
  · intro w st' hw
    rcases setState_cases hst hw with ⟨rfl, rfl⟩ | ⟨-, hw⟩
    · exact h.owned w st hst
    · exact h.owned w st' hw
  · intro id p hp
    rw [setState_length]
    exact h.inRange id p hp

/-- A cache that waits for an answer accepts nothing but the answer. -/
theorem Step.cacheCall_waiting {s : Step} {f : WindowDataCache → Except Exn WindowDataCache}
    {c d : WindowDataCache} (hs : s.cacheCall = some f) (hf : f c = .ok d)
    (hact : c.active = true) (hpend : c.pending ≠ .none) : ∃ bs, s = .native s.vcpu bs := by
  cases s with
  | access v a n w bs =>
      cases hs
      obtain ⟨hidle, -⟩ := WindowDataCache.access_ok hf
      simp [hact] at hidle
  | movec v r x =>
      cases hs
      obtain ⟨hidle, -⟩ := WindowDataCache.movec_eq_ok.mp hf
      simp [hact] at hidle
  | push v i o =>
      cases hs
      obtain ⟨hidle, -⟩ := WindowDataCache.push_eq_ok.mp hf
      simp [hact] at hidle
  | next v =>
      cases hs
      cases hn : c.next with
      | error e =>
          simp only [hn] at hf
          cases hf
      | ok r => exact absurd (WindowDataCache.next_eq_ok.mp hn).2.1 hpend
  | native v bs => exact ⟨bs, rfl⟩
  | resetCore v =>
      cases hs
      simp [WindowDataCache.reset, hact] at hf
  | issued v id read => cases hs
  | complete id v read bs => cases hs

/-- Every call on a cache keeps its invariant. -/
theorem Step.cacheCall_inv {s : Step} {f : WindowDataCache → Except Exn WindowDataCache}
    {c d : WindowDataCache} (hs : s.cacheCall = some f) (hf : f c = .ok d) (h : c.Inv) :
    d.Inv := by
  cases s with
  | access v a n w bs => cases hs; exact h.access hf
  | movec v r x => cases hs; exact h.movec hf
  | push v i o => cases hs; exact h.push hf
  | next v =>
      cases hs
      cases hn : c.next with
      | error e =>
          simp only [hn] at hf
          cases hf
      | ok r =>
          simp only [hn] at hf
          cases hf
          exact h.next hn
  | native v bs => cases hs; exact h.complete hf
  | resetCore v => cases hs; exact h.reset hf
  | issued v id read => cases hs
  | complete id v read bs => cases hs

/-- No call on a cache moves its regions. -/
theorem Step.cacheCall_regions {s : Step}
    {f : WindowDataCache → Except Exn WindowDataCache} {c d : WindowDataCache}
    (hs : s.cacheCall = some f) (hf : f c = .ok d) (h : c.Inv) : d.regions = c.regions := by
  cases s with
  | access v a n w bs =>
      cases hs
      obtain ⟨-, -, -, -, -, rfl⟩ := WindowDataCache.access_ok hf
      rfl
  | movec v r x =>
      cases hs
      obtain ⟨-, -, rfl⟩ := WindowDataCache.movec_eq_ok.mp hf
      rw [WindowDataCache.control]
      split_ifs <;> rfl
  | push v i o =>
      cases hs
      obtain ⟨-, -, rfl⟩ := WindowDataCache.push_eq_ok.mp hf
      rw [WindowDataCache.select]
      split_ifs <;> rfl
  | next v =>
      cases hs
      cases hn : c.next with
      | error e =>
          simp only [hn] at hf
          cases hf
      | ok r =>
          simp only [hn] at hf
          cases hf
          exact WindowDataCache.next_regions h hn
  | native v bs =>
      cases hs
      obtain ⟨-, hcomp⟩ := WindowDataCache.complete_ok hf
      cases hcomp <;> rfl
  | resetCore v =>
      cases hs
      rw [WindowDataCache.reset] at hf
      split_ifs at hf
      cases hf
      rfl
  | issued v id read => cases hs
  | complete id v read bs => cases hs

/-- Registering a request of a waiting cache. -/
theorem BankInv.insert (h : BankInv b) {v id : ℕ} {read : Bool} {st : BankState}
    (hst : b.states[v]? = some st) (hact : st.cache.active = true)
    (hpend : st.cache.pending ≠ .none) (hout : st.outstanding = false)
    (hid : id ∉ b.pending) :
    BankInv (setState { b with pending := b.pending.insert id ⟨v, read⟩ } v
      { st with outstanding := true }) := by
  have hnone : ∀ id' p, b.pending.lookup id' = some p → p.vcpu ≠ v := by
    intro id' p hp hv
    have := (h.owned v st hst).mpr ⟨id', p, hp, hv⟩
    simp [hout] at this
  have hlook : ∀ id' p, (b.pending.insert id ⟨v, read⟩).lookup id' = some p ↔
      (id' = id ∧ p = ⟨v, read⟩) ∨ (id' ≠ id ∧ b.pending.lookup id' = some p) := by
    intro id' p
    by_cases he : id' = id
    · subst he
      simp [eq_comm]
    · simp [AList.lookup_insert_ne he, he]
  have hcore := @setState_cases { b with pending := b.pending.insert id ⟨v, read⟩ } v
  refine ⟨?_, ?_, ?_, ?_, ?_⟩
  · intro w st' hw
    rcases hcore hst hw with ⟨-, rfl⟩ | ⟨-, hw⟩
    · exact h.caches v st hst
    · exact h.caches w st' hw
  · intro w st' hw ho
    rcases hcore hst hw with ⟨-, rfl⟩ | ⟨-, hw⟩
    · exact ⟨hact, hpend⟩
    · exact h.waiting w st' hw ho
  · intro w st' hw
    simp only [setState_pending, hlook]
    rcases hcore hst hw with ⟨rfl, rfl⟩ | ⟨hwv, hw⟩
    · exact iff_of_true rfl ⟨id, ⟨w, read⟩, Or.inl ⟨rfl, rfl⟩, rfl⟩
    · rw [h.owned w st' hw]
      constructor
      · rintro ⟨id', p, hp, hpw⟩
        refine ⟨id', p, Or.inr ⟨?_, hp⟩, hpw⟩
        rintro rfl
        exact hid (AList.lookup_isSome.mp (by simp [hp]))
      · rintro ⟨id', p, ⟨-, rfl⟩ | ⟨-, hp⟩, hpw⟩
        · exact absurd hpw.symm hwv
        · exact ⟨id', p, hp, hpw⟩
  · intro i j p q hi hj hpq
    rw [setState_pending, hlook] at hi hj
    rcases hi with ⟨rfl, rfl⟩ | ⟨-, hi⟩ <;> rcases hj with ⟨rfl, rfl⟩ | ⟨-, hj⟩
    · rfl
    · exact absurd hpq.symm (hnone j q hj)
    · exact absurd hpq (hnone i p hi)
    · exact h.single i j p q hi hj hpq
  · intro i p hp
    rw [setState_pending, hlook] at hp
    rw [setState_length]
    rcases hp with ⟨-, rfl⟩ | ⟨-, hp⟩
    · exact (List.getElem?_eq_some_iff.mp hst).1
    · exact h.inRange i p hp

/-- Delivering the answer to a registered request. -/
theorem BankInv.erase (h : BankInv b) {v id : ℕ} {read : Bool} {st : BankState}
    {c : WindowDataCache} (hst : b.states[v]? = some st)
    (hid : b.pending.lookup id = some ⟨v, read⟩) (hc : c.Inv) :
    BankInv (setState { b with pending := b.pending.erase id } v
      { cache := c, outstanding := false }) := by
  have hlook : ∀ id' p, (b.pending.erase id).lookup id' = some p ↔
      id' ≠ id ∧ b.pending.lookup id' = some p := by
    intro id' p
    by_cases he : id' = id
    · subst he
      simp
    · simp [AList.lookup_erase_ne he, he]
  have hcore := @setState_cases { b with pending := b.pending.erase id } v
  refine ⟨?_, ?_, ?_, ?_, ?_⟩
  · intro w st' hw
    rcases hcore hst hw with ⟨-, rfl⟩ | ⟨-, hw⟩
    · exact hc
    · exact h.caches w st' hw
  · intro w st' hw ho
    rcases hcore hst hw with ⟨-, rfl⟩ | ⟨-, hw⟩
    · cases ho
    · exact h.waiting w st' hw ho
  · intro w st' hw
    simp only [setState_pending, hlook]
    rcases hcore hst hw with ⟨rfl, rfl⟩ | ⟨hwv, hw⟩
    · refine iff_of_false (by simp) ?_
      rintro ⟨id', p, ⟨hne, hp⟩, hpw⟩
      exact hne (h.single id' id p ⟨w, read⟩ hp hid hpw)
    · rw [h.owned w st' hw]
      constructor
      · rintro ⟨id', p, hp, hpw⟩
        refine ⟨id', p, ⟨?_, hp⟩, hpw⟩
        rintro rfl
        rw [hid] at hp
        cases hp
        exact hwv hpw.symm
      · rintro ⟨id', p, ⟨-, hp⟩, hpw⟩
        exact ⟨id', p, hp, hpw⟩
  · intro i j p q hi hj hpq
    rw [setState_pending, hlook] at hi hj
    exact h.single i j p q hi.2 hj.2 hpq
  · intro i p hp
    rw [setState_pending, hlook] at hp
    rw [setState_length]
    exact h.inRange i p hp.2

/-- **One step.** A driven step keeps flags, map and caches in agreement. -/
theorem BankInv.step (h : BankInv b) {s : Step} (hd : s.Driven b) : BankInv (b.step s) := by
  have heff := step_effect b s
  generalize b.step s = b' at heff
  cases heff with
  | idle => exact h
  | cache f st c hs hst hf =>
      have hout : st.outstanding = false := by
        by_contra ho
        rw [Bool.not_eq_false] at ho
        obtain ⟨hact, hpend⟩ := h.waiting _ st hst ho
        obtain ⟨bs, hn⟩ := Step.cacheCall_waiting hs hf hact hpend
        rw [hn] at hd
        simp [hd st hst] at ho
      exact h.setCache hst hout (Step.cacheCall_inv hs hf (h.caches _ st hst))
  | issued id read st hs hst hact hout hid =>
      rw [hs] at hd
      exact h.insert hst hact (hd st hst hact) hout hid
  | complete id read bs st c hs hid hst hc =>
      exact h.erase hst hid ((h.caches _ st hst).complete hc)

/-- **A whole run.** -/
theorem BankInv.run (steps : List Step) : ∀ {b : WindowCacheBank}, BankInv b →
    Driven b steps → BankInv (b.run steps) := by
  induction steps with
  | nil => exact fun h _ => h
  | cons s steps ih => exact fun h hd => ih (h.step hd.1) hd.2

/-- The regions of every CPU are those it started with. -/
theorem run_regions (steps : List Step) : ∀ {b : WindowCacheBank}, BankInv b →
    Driven b steps → ∀ (v : ℕ) (st : BankState), (b.run steps).states[v]? = some st →
    ∃ st₀, b.states[v]? = some st₀ ∧ st.cache.regions = st₀.cache.regions := by
  induction steps with
  | nil => exact fun _ _ v st hst => ⟨st, hst, rfl⟩
  | cons s steps ih =>
      intro b h hd v st hst
      obtain ⟨st₁, hst₁, hreg⟩ := ih (h.step hd.1) hd.2 v st hst
      have heff := step_effect b s
      generalize b.step s = d at heff hst₁
      cases heff with
      | idle => exact ⟨st₁, hst₁, hreg⟩
      | cache f st₀ c hs hst₀ hf =>
          rcases setState_cases hst₀ hst₁ with ⟨rfl, rfl⟩ | ⟨-, hst₁⟩
          · exact ⟨st₀, hst₀, hreg.trans (Step.cacheCall_regions hs hf (h.caches _ _ hst₀))⟩
          · exact ⟨st₁, hst₁, hreg⟩
      | issued id read st₀ hs hst₀ hact hout hid =>
          rcases @setState_cases { b with pending := _ } _ _ _ _ _ hst₀ hst₁ with
            ⟨rfl, rfl⟩ | ⟨-, hst₁⟩
          · exact ⟨st₀, hst₀, hreg⟩
          · exact ⟨st₁, hst₁, hreg⟩
      | complete id read bs st₀ c hs hid hst₀ hc =>
          rcases @setState_cases { b with pending := _ } _ _ _ _ _ hst₀ hst₁ with
            ⟨rfl, rfl⟩ | ⟨-, hst₁⟩
          · refine ⟨st₀, hst₀, hreg.trans ?_⟩
            obtain ⟨-, hcomp⟩ := WindowDataCache.complete_ok hc
            cases hcomp <;> rfl
          · exact ⟨st₁, hst₁, hreg⟩

/-! ### Projection to one CPU -/

/-- The bank `b'` shows the CPU `v` the same cache, flag and requests as `b`. -/
structure Agrees (v : ℕ) (b b' : WindowCacheBank) : Prop where
  state : b'.states[v]? = b.states[v]?
  requests : ∀ id read, b'.pending.lookup id = some ⟨v, read⟩ ↔
    b.pending.lookup id = some ⟨v, read⟩
  own : ∀ id p, b'.pending.lookup id = some p → p.vcpu = v

/-- Ids that the CPU `v` will register are not outstanding for another CPU. -/
def Unclaimed (v : ℕ) (b : WindowCacheBank) (steps : List Step) : Prop :=
  ∀ id read, Step.issued v id read ∈ steps → ∀ p, b.pending.lookup id = some p → p.vcpu = v

/-- A call on the cache of `v`. -/
theorem Agrees.onCache {v : ℕ} {b b' : WindowCacheBank} (h : Agrees v b b')
    (f : WindowDataCache → Except Exn WindowDataCache) :
    Agrees v (b.onCache v f).bank (b'.onCache v f).bank := by
  have hst := h.state
  unfold WindowCacheBank.onCache
  rw [hst]
  cases hb : b.states[v]? with
  | none => exact h
  | some st =>
      dsimp only
      cases f st.cache with
      | error e => exact h
      | ok c =>
          refine ⟨?_, h.requests, h.own⟩
          rw [hb] at hst
          simp only [Result.bank]
          rw [setState_self hb, setState_self hst]

/-- Registering a request of `v` under an id no other CPU holds. -/
theorem Agrees.issued {v : ℕ} {b b' : WindowCacheBank} (h : Agrees v b b') {id : ℕ}
    (read : Bool) (hfree : ∀ p, b.pending.lookup id = some p → p.vcpu = v) :
    Agrees v (b.issued v id read).bank (b'.issued v id read).bank := by
  have hmem : id ∈ b'.pending ↔ id ∈ b.pending := by
    rw [← AList.lookup_isSome, ← AList.lookup_isSome, Option.isSome_iff_exists,
      Option.isSome_iff_exists]
    constructor
    · rintro ⟨⟨u, r⟩, hp⟩
      obtain rfl : u = v := h.own id _ hp
      exact ⟨_, (h.requests id r).mp hp⟩
    · rintro ⟨⟨u, r⟩, hp⟩
      obtain rfl : u = v := hfree _ hp
      exact ⟨_, (h.requests id r).mpr hp⟩
  have hst := h.state
  unfold WindowCacheBank.issued
  rw [hst]
  cases hb : b.states[v]? with
  | none => exact h
  | some st =>
      rw [hb] at hst
      simp only [hmem]
      split_ifs
      · exact h
      · refine ⟨?_, fun i r => ?_, fun i p hp => ?_⟩
        · simp only [Result.bank]
          rw [setState_self (b := { b with pending := b.pending.insert id ⟨v, read⟩ }) hb,
            setState_self (b := { b' with pending := b'.pending.insert id ⟨v, read⟩ }) hst]
        · by_cases hi : i = id
          · subst hi
            simp [Result.bank]
          · simpa [Result.bank, AList.lookup_insert_ne hi] using h.requests i r
        · by_cases hi : i = id
          · subst hi
            simp only [Result.bank, setState_pending, AList.lookup_insert] at hp
            cases hp
            rfl
          · simp only [Result.bank, setState_pending, AList.lookup_insert_ne hi] at hp
            exact h.own i p hp

/-- Delivering an answer to `v`. -/
theorem Agrees.complete {v : ℕ} {b b' : WindowCacheBank} (h : Agrees v b b') (id : ℕ)
    (read : Bool) (bs : List UInt8) :
    Agrees v (b.complete id v read bs).bank (b'.complete id v read bs).bank := by
  unfold WindowCacheBank.complete
  by_cases hid : b.pending.lookup id = some ⟨v, read⟩
  · rw [if_neg (not_not.mpr hid), if_neg (not_not.mpr ((h.requests id read).mpr hid))]
    have hst := h.state
    rw [hst]
    cases hb : b.states[v]? with
    | none => exact h
    | some st =>
        rw [hb] at hst
        dsimp only
        cases st.cache.complete bs with
        | error e => exact h
        | ok c =>
            refine ⟨?_, fun i r => ?_, fun i p hp => ?_⟩
            · simp only [Result.bank]
              rw [setState_self (b := { b with pending := b.pending.erase id }) hb,
                setState_self (b := { b' with pending := b'.pending.erase id }) hst]
            · by_cases hi : i = id
              · subst hi
                simp [Result.bank]
              · simpa [Result.bank, AList.lookup_erase_ne hi] using h.requests i r
            · by_cases hi : i = id
              · subst hi
                simp [Result.bank] at hp
              · simp only [Result.bank, setState_pending, AList.lookup_erase_ne hi] at hp
                exact h.own i p hp
  · rw [if_pos hid, if_pos fun hid' => hid ((h.requests id read).mp hid')]
    exact h

/-- The steps of a CPU act on what it sees only. -/
theorem Agrees.own_step {v : ℕ} {b b' : WindowCacheBank} (h : Agrees v b b') {s : Step}
    (hv : s.vcpu = v) (hfree : Unclaimed v b [s]) : Agrees v (b.step s) (b'.step s) := by
  subst hv
  cases s with
  | access w a n wr bs => exact h.onCache fun c => c.access a n wr bs
  | movec w r x => exact h.onCache fun c => c.movec r x
  | push w i o => exact h.onCache fun c => c.push i o
  | next w => exact h.onCache fun c => c.next.map Prod.fst
  | native w bs => exact h.onCache fun c => c.complete bs
  | issued w id read => exact h.issued read (hfree id read List.mem_cons_self)
  | complete id w read bs => exact h.complete id read bs
  | resetCore w =>
      have hreset := h.onCache WindowDataCache.reset
      simp only [Step.vcpu] at h hreset
      simp only [step, call, resetCore, Step.vcpu]
      rw [h.state]
      cases hb : b.states[w]? with
      | none => exact h
      | some st =>
          dsimp only
          split_ifs
          · exact h
          · exact hreset

/-- The steps of another CPU change nothing that `v` sees. -/
theorem Agrees.other_step {v : ℕ} {b b' : WindowCacheBank} (h : Agrees v b b') {s : Step}
    (hv : s.vcpu ≠ v) : Agrees v (b.step s) b' := by
  have heff := step_effect b s
  generalize b.step s = d at heff
  cases heff with
  | idle => exact h
  | cache f st c hs hst hf =>
      refine ⟨?_, h.requests, h.own⟩
      rw [setState_of_ne _ (Ne.symm hv), h.state]
  | issued id read st hs hst hact hout hid =>
      refine ⟨?_, fun i r => ?_, h.own⟩
      · rw [setState_of_ne _ (Ne.symm hv), h.state]
      · rw [h.requests, setState_pending]
        by_cases hi : i = id
        · subst hi
          rw [AList.lookup_eq_none.mpr hid, AList.lookup_insert]
          simp [hv]
        · rw [AList.lookup_insert_ne hi]
  | complete id read bs st c hs hid hst hc =>
      refine ⟨?_, fun i r => ?_, h.own⟩
      · rw [setState_of_ne _ (Ne.symm hv), h.state]
      · rw [h.requests, setState_pending]
        by_cases hi : i = id
        · subst hi
          rw [AList.lookup_erase, hid]
          simp [hv]
        · rw [AList.lookup_erase_ne hi]

/-- Two CPUs never register the same id: request ids come from one counter. -/
def DistinctIds (steps : List Step) : Prop :=
  ∀ v w id r r', Step.issued v id r ∈ steps → Step.issued w id r' ∈ steps → v = w

/-- A step registers ids of its own only. -/
theorem Unclaimed.step {v : ℕ} {b : WindowCacheBank} {s : Step} {steps : List Step}
    (h : Unclaimed v b (s :: steps)) (hids : DistinctIds (s :: steps)) :
    Unclaimed v (b.step s) steps := by
  intro id read hmem p hp
  have hlater := h id read (List.mem_cons_of_mem _ hmem)
  have heff := step_effect b s
  generalize b.step s = d at heff hp
  cases heff with
  | idle => exact hlater p hp
  | cache => exact hlater p hp
  | issued i r st hs hst hact hout hid =>
      by_cases hi : id = i
      · subst hi
        rw [setState_pending, AList.lookup_insert] at hp
        cases hp
        exact hids s.vcpu v id r read (hs ▸ List.mem_cons_self) (List.mem_cons_of_mem _ hmem)
      · rw [setState_pending, AList.lookup_insert_ne hi] at hp
        exact hlater p hp
  | complete i r bs st c hs hid hst hc =>
      by_cases hi : id = i
      · subst hi
        simp at hp
      · rw [setState_pending, AList.lookup_erase_ne hi] at hp
        exact hlater p hp

/-- **Projection.** What a CPU sees after any interleaving is what it sees after its own
steps alone. -/
theorem Agrees.run {v : ℕ} (steps : List Step) : ∀ {b b' : WindowCacheBank}, Agrees v b b' →
    Unclaimed v b steps → DistinctIds steps →
    Agrees v (b.run steps) (b'.run (steps.filter fun s => s.vcpu = v)) := by
  induction steps with
  | nil => exact fun h _ _ => h
  | cons s steps ih =>
      intro b b' h hfree hids
      have hids' : DistinctIds steps := fun u w id r r' hu hw =>
        hids u w id r r' (List.mem_cons_of_mem _ hu) (List.mem_cons_of_mem _ hw)
      by_cases hv : s.vcpu = v
      · rw [List.filter_cons_of_pos (by simpa using hv)]
        refine ih (h.own_step hv fun id r hmem => ?_) (hfree.step hids) hids'
        exact hfree id r (List.mem_singleton.mp hmem ▸ List.mem_cons_self)
      · rw [List.filter_cons_of_neg (by simpa using hv)]
        exact ih (h.other_step hv) (hfree.step hids) hids'

/-! ### Configured banks -/

/-- A bank that was configured and then given further regions. -/
inductive Configured : WindowCacheBank → Prop
  | configure (cores base size : ℕ) {b : WindowCacheBank}
      (h : WindowCacheBank.configure {} cores base size = .ok () b) : Configured b
  | addRegion {base size : ℕ} {b b' : WindowCacheBank} (hb : Configured b)
      (h : b.addRegion base size = .ok () b') : Configured b'

/-- The loop of `addRegion` treats equal caches equally. -/
theorem addRegionFrom_replicate {base size : ℕ} {c d : WindowDataCache}
    (hd : c.addRegion base size = .ok d) (n : ℕ) : ∀ (v : ℕ) (b : WindowCacheBank),
    b.states = List.replicate v { cache := d } ++ List.replicate n { cache := c } →
    addRegionFrom base size n v b =
      .ok () { b with states := List.replicate (v + n) { cache := d } } := by
  induction n with
  | zero =>
      intro v b hb
      simp only [List.replicate_zero, List.append_nil] at hb
      simp [addRegionFrom, ← hb]
  | succ n ih =>
      intro v b hb
      have hv : b.states[v]? = some { cache := c } := by
        rw [hb, List.getElem?_append_right (by simp)]
        simp
      simp only [addRegionFrom, hv, hd]
      rw [ih (v + 1) _ ?_, setState]
      · simp [Nat.add_comm, Nat.add_left_comm]
      · simp only [setState, hb]
        rw [List.set_append_right _ _ (by simp), List.replicate_succ' (n := v)]
        simp [List.replicate_succ]

/-- All caches of a configured bank are the same, idle and empty. -/
structure Uniform (b : WindowCacheBank) (n : ℕ) (c : WindowDataCache) : Prop where
  states : b.states = List.replicate n { cache := c }
  pending : b.pending = ∅
  inv : c.Inv
  idle : c.active = false
  empty : ∀ s, (c.lines s).valid = false

theorem Configured.uniform (h : Configured b) : ∃ n c, Uniform b n c := by
  induction h with
  | configure cores base size h =>
      rw [WindowCacheBank.configure] at h
      split_ifs at h
      cases hc : WindowDataCache.configure {} base size with
      | error e =>
          rw [hc] at h
          cases h
      | ok c =>
          rw [hc] at h
          cases h
          have hadd := WindowDataCache.configure_ok hc
          have hinv := WindowDataCache.inv_default.addRegion hadd
          obtain ⟨-, rfl⟩ := WindowDataCache.addRegion_ok hadd
          exact ⟨cores, _, rfl, rfl, hinv, rfl, fun _ => rfl⟩
  | @addRegion base size b b' hb h ih =>
      obtain ⟨n, c, hu⟩ := ih
      rw [WindowCacheBank.addRegion] at h
      split_ifs at h
      have hlen : b.states.length = n := by rw [hu.states, List.length_replicate]
      rw [hlen] at h
      cases hc : c.addRegion base size with
      | ok d =>
          rw [addRegionFrom_replicate hc n 0 b (by simpa using hu.states)] at h
          cases h
          have hinv := hu.inv.addRegion hc
          obtain ⟨-, rfl⟩ := WindowDataCache.addRegion_ok hc
          exact ⟨0 + n, _, rfl, hu.pending, hinv, hu.idle, hu.empty⟩
      | error e =>
          cases n with
          | zero =>
              cases h
              exact ⟨0, c, hu⟩
          | succ n =>
              have hv : b.states[0]? = some { cache := c } := by simp [hu.states]
              simp only [addRegionFrom, hv, hc] at h
              cases h

/-- A state of a uniform bank. -/
theorem Uniform.getElem? {n v : ℕ} {c : WindowDataCache} {st : BankState} (h : Uniform b n c)
    (hst : b.states[v]? = some st) : st = { cache := c } := by
  rw [h.states] at hst
  exact List.eq_of_mem_replicate (List.mem_of_getElem? hst)

/-- A configured bank is consistent. -/
theorem Uniform.bankInv {n : ℕ} {c : WindowDataCache} (h : Uniform b n c) : BankInv b := by
  refine ⟨?_, ?_, ?_, ?_, ?_⟩
  · intro v st hst
    rw [h.getElem? hst]
    exact h.inv
  · intro v st hst ho
    rw [h.getElem? hst] at ho
    cases ho
  · intro v st hst
    rw [h.getElem? hst, h.pending]
    simp
  · simp [h.pending]
  · simp [h.pending]

/-- Requests of a run were registered by a step of it. -/
theorem lookup_run (steps : List Step) : ∀ {b : WindowCacheBank} {id v : ℕ} {read : Bool},
    (b.run steps).pending.lookup id = some ⟨v, read⟩ →
    b.pending.lookup id = some ⟨v, read⟩ ∨ Step.issued v id read ∈ steps := by
  induction steps with
  | nil => exact fun h => Or.inl h
  | cons s steps ih =>
      intro b id v read h
      rcases ih h with hstep | hmem
      · have heff := step_effect b s
        generalize b.step s = d at heff hstep
        cases heff with
        | idle => exact Or.inl hstep
        | cache => exact Or.inl hstep
        | issued i r st hs hst hact hout hid =>
            by_cases hi : id = i
            · subst hi
              rw [setState_pending, AList.lookup_insert] at hstep
              cases hstep
              exact Or.inr (hs ▸ List.mem_cons_self)
            · rw [setState_pending, AList.lookup_insert_ne hi] at hstep
              exact Or.inl hstep
        | complete i r bs st c hs hid hst hc =>
            by_cases hi : id = i
            · subst hi
              simp at hstep
            · rw [setState_pending, AList.lookup_erase_ne hi] at hstep
              exact Or.inl hstep
      · exact Or.inr (List.mem_cons_of_mem _ hmem)

/-- A completion succeeds for a registered request only, and throws without effect. -/
theorem complete_result (id v : ℕ) (read : Bool) (bytes : List UInt8) :
    (∀ b', b.complete id v read bytes = .ok () b' →
      b.pending.lookup id = some ⟨v, read⟩) ∧
      ∀ e b', b.complete id v read bytes = .error e b' → b' = b := by
  rw [WindowCacheBank.complete]
  by_cases hid : b.pending.lookup id = some ⟨v, read⟩
  · rw [if_neg (not_not.mpr hid)]
    refine ⟨fun _ _ => hid, fun e b' h => ?_⟩
    cases hst : b.states[v]? with
    | none =>
        rw [hst] at h
        cases h
        rfl
    | some st =>
        rw [hst] at h
        cases hc : st.cache.complete bytes with
        | error e' =>
            simp only [hc] at h
            cases h
            rfl
        | ok c =>
            simp only [hc] at h
            cases h
  · rw [if_pos hid]
    refine ⟨fun b' h => (by cases h), fun e b' h => ?_⟩
    cases h
    rfl

theorem active_eq_false : b.active = false ↔
    (∀ st ∈ b.states, st.cache.active = false) ∧ b.pending = ∅ := by
  have hempty : b.pending.entries.isEmpty = true ↔ b.pending = ∅ := by
    rw [List.isEmpty_iff]
    exact ⟨fun h => AList.ext h, fun h => by rw [h]; rfl⟩
  simp [active, ← hempty, and_comm]

/-- **Isolation.** After any interleaving of driven steps on a configured bank: a CPU's flag is
set exactly when one outstanding request is its own, and then its cache is active; an answer is
accepted only for the id, owner and direction of a registered request, and otherwise changes
nothing; the bank is inactive exactly when all caches are and no request is outstanding; and,
when no two CPUs share a request id, each CPU's cache is the one its own steps alone produce. -/
theorem bank_isolates_cpus {b₀ : WindowCacheBank} (hb : Configured b₀) (steps : List Step)
    (hd : Driven b₀ steps) :
    (∀ (v : ℕ) (st : BankState), (b₀.run steps).states[v]? = some st →
      (st.outstanding = true ↔
        ∃! id, ∃ p, (b₀.run steps).pending.lookup id = some p ∧ p.vcpu = v) ∧
      (st.outstanding = true → st.cache.active = true)) ∧
    (∀ id v read bytes,
      (∀ b', (b₀.run steps).complete id v read bytes = .ok () b' →
        (b₀.run steps).pending.lookup id = some ⟨v, read⟩ ∧ Step.issued v id read ∈ steps) ∧
      ∀ e b', (b₀.run steps).complete id v read bytes = .error e b' → b' = b₀.run steps) ∧
    ((b₀.run steps).active = false ↔
      (∀ st ∈ (b₀.run steps).states, st.cache.active = false) ∧
        (b₀.run steps).pending = ∅) ∧
    (DistinctIds steps → ∀ v : ℕ, (b₀.run steps).states[v]? =
      (b₀.run (steps.filter fun s => s.vcpu = v)).states[v]?) := by
  obtain ⟨n, c, hu⟩ := hb.uniform
  have hinv := hu.bankInv.run steps hd
  refine ⟨fun v st hst => ⟨?_, fun ho => (hinv.waiting v st hst ho).1⟩, ?_, active_eq_false, ?_⟩
  · rw [hinv.owned v st hst]
    constructor
    · rintro ⟨id, p, hp, hv⟩
      refine ⟨id, ⟨p, hp, hv⟩, ?_⟩
      rintro id' ⟨p', hp', hv'⟩
      exact hinv.single id' id p' p hp' hp (hv'.trans hv.symm)
    · rintro ⟨id, ⟨p, hp, hv⟩, -⟩
      exact ⟨id, p, hp, hv⟩
  · intro id v read bytes
    obtain ⟨hok, herr⟩ := complete_result (b := b₀.run steps) id v read bytes
    refine ⟨fun b' h => ⟨hok b' h, ?_⟩, herr⟩
    rcases lookup_run steps (hok b' h) with hbefore | hmem
    · simp [hu.pending] at hbefore
    · exact hmem
  · intro hids v
    have hagree : Agrees v b₀ b₀ := ⟨rfl, fun _ _ => Iff.rfl, by simp [hu.pending]⟩
    have hfree : Unclaimed v b₀ steps := by simp [Unclaimed, hu.pending]
    exact (hagree.run steps hfree hids).state.symm

/-- Two CPUs read the same line and their answers come back in reverse order. -/
def reversedAnswers : List Step :=
  [.movec 0 2 0x82000000, .next 0, .movec 1 2 0x82000000, .next 1,
    .access 0 4096 4 false [], .access 1 4096 4 false [], .next 0, .next 1,
    .issued 0 10 true, .issued 1 20 true, .complete 20 1 true (List.replicate 16 0xbb),
    .next 1, .complete 10 0 true (List.replicate 16 0xaa)]

/-- Two idle CPUs over one small window. -/
def smallBank : WindowCacheBank :=
  { states := List.replicate 2 { cache := { regions := [⟨4096, 64⟩] } } }

theorem bank_isolates_reversed_answers :
    (smallBank.run reversedAnswers).states[1]? =
      (smallBank.run (reversedAnswers.filter fun s => s.vcpu = 1)).states[1]? := by
  refine (bank_isolates_cpus (.configure 2 4096 64 rfl)
    reversedAnswers (by decide +kernel)).2.2.2 ?_ 1
  intro v w id r r' hv hw
  simp only [reversedAnswers, List.mem_cons, List.not_mem_nil, reduceCtorEq, Step.issued.injEq,
    false_or, or_false] at hv hw
  rcases hv with ⟨rfl, rfl, -⟩ | ⟨rfl, rfl, -⟩ <;> rcases hw with ⟨rfl, h, -⟩ | ⟨rfl, h, -⟩ <;>
    simp_all

end WindowCacheBank

end Quetz
