import Mathlib.Algebra.Order.BigOperators.Group.List
import Quetz.CacheService
import Quetz.PortHolder

/-!
# One Answer for Every MMIO Command

A vCPU is blocked from its command until the response is posted. Four paths can hold the command:
a window cache, a port (as a doorbell or as a forwarded request) or a plain access. Every request
in flight has one holder, given by its `Role`, and the response goes to that holder. What the
holders owe a vCPU and what was posted to it add up to the commands taken from it.

## Main results

* `Parts.handleMmioSyncCommand` / `Parts.completeMmioSyncResponse`: commands and responses.
* `mmio_commands_answered_once`: at most one response for each command, not before the requests of
  the command are answered, and without the errors of a second command.
-/

namespace Quetz

open WindowCacheBank BalarPort

/-! ### Holders of requests -/

/-- Who waits for the answer to a request. -/
inductive Role where
  | core
  | cache
  | port (k : ℕ)
  | generic
deriving DecidableEq, Repr

/-- Requests from the id `n` on belong to `x`. -/
def Role.extend (ρ : ℕ → Role) (n : ℕ) (x : Role) : ℕ → Role := fun id => if id < n then ρ id else x

/-- The holder `x` keeps its requests in flight, each for the vCPU of its link, and no other. -/
def Kept (ρ : ℕ → Role) (x : Role) (h : Host) (holder : ℕ → Option ℕ) : Prop :=
  ∀ r ∈ h.inFlight, holder r.id = if ρ r.id = x then some r.vcpu else none

section Kept

variable {ρ : ℕ → Role} {x y : Role} {h h' : Host} {f f' : ℕ → Option ℕ}

theorem Role.extend_of_lt {n id : ℕ} (hlt : id < n) : Role.extend ρ n x id = ρ id := if_pos hlt

theorem Role.extend_of_ge {n id : ℕ} (hge : n ≤ id) : Role.extend ρ n x id = x :=
  if_neg (Nat.not_lt.mpr hge)

/-- A request that is kept belongs to its holder. -/
theorem Kept.role (hk : Kept ρ x h f) {r : Request} (hr : r ∈ h.inFlight) {u : ℕ}
    (hf : f r.id = some u) : ρ r.id = x ∧ r.vcpu = u := by
  have hkept := hk r hr
  rw [hf] at hkept
  by_cases hρ : ρ r.id = x
  · rw [if_pos hρ] at hkept
    exact ⟨hρ, (Option.some.inj hkept).symm⟩
  · rw [if_neg hρ] at hkept
    cases hkept

/-- A request of another holder is not kept. -/
theorem Kept.none_of_ne (hk : Kept ρ x h f) {r : Request} (hr : r ∈ h.inFlight)
    (hρ : ρ r.id ≠ x) : f r.id = none := by
  rw [hk r hr, if_neg hρ]

/-- The turn of another holder. -/
theorem Kept.turns (hk : Kept ρ y h f) (hok : h.Ok) (ht : h.Turns (ρ · = x) h') (hne : x ≠ y)
    (hfresh : ∀ id, h.nextId ≤ id → f id = none) : Kept (Role.extend ρ h.nextId x) y h' f := by
  intro r hr
  rcases ht.old r hr with hr | hge
  · rw [Role.extend_of_lt (hok.fresh r hr), hk r hr]
  · rw [Role.extend_of_ge hge, hfresh r.id hge, if_neg hne]

/-- The turn of the holder itself. -/
theorem Kept.own (hk : Kept ρ x h f) (hok : h.Ok) (ht : h.Turns (ρ · = x) h')
    (hold : ∀ r ∈ h'.inFlight, r ∈ h.inFlight → f' r.id = f r.id)
    (hnew : ∀ r ∈ h'.inFlight, h.nextId ≤ r.id → f' r.id = some r.vcpu) :
    Kept (Role.extend ρ h.nextId x) x h' f' := by
  intro r hr
  rcases ht.old r hr with hr' | hge
  · rw [Role.extend_of_lt (hok.fresh r hr'), hold r hr hr', hk r hr']
  · rw [Role.extend_of_ge hge, hnew r hr hge, if_pos rfl]

end Kept

/-! ### The window caches -/

/-- The vCPU a bank keeps a request for. -/
def bankHolder (b : WindowCacheBank) (id : ℕ) : Option ℕ :=
  (b.pending.lookup id).map BankPending.vcpu

/-- A cache with an open transaction owes its vCPU a response. -/
def cacheOwed (b : WindowCacheBank) (v : ℕ) : ℕ :=
  (b.states[v]?).elim 0 fun st => if st.cache.active then 1 else 0

/-- Between the events every open transaction waits for a request in flight. -/
structure CacheOk (ρ : ℕ → Role) (h : Host) (b : WindowCacheBank) : Prop where
  inv : BankInv b
  idle : ∀ (v : ℕ) (st : BankState), b.states[v]? = some st → st.cache.active = st.outstanding
  flying : ∀ id p, b.pending.lookup id = some p → ∃ r ∈ h.inFlight, r.id = id
  kept : Kept ρ .cache h (bankHolder b)

section Cache

variable {ρ : ℕ → Role} {x : Role} {h h' : Host} {b b₁ : WindowCacheBank} {v : ℕ}

theorem lookup_of_ge (hok : h.Ok)
    (hflying : ∀ id p, b.pending.lookup id = some p → ∃ r ∈ h.inFlight, r.id = id) {id : ℕ}
    (hge : h.nextId ≤ id) : b.pending.lookup id = none := by
  cases hl : b.pending.lookup id with
  | none => rfl
  | some p =>
      obtain ⟨r, hr, hid⟩ := hflying id p hl
      have := hok.fresh r hr
      omega

/-- The turn of another holder. -/
theorem CacheOk.turns (hc : CacheOk ρ h b) (hok : h.Ok) (ht : h.Turns (ρ · = x) h')
    (hx : x ≠ .cache) : CacheOk (Role.extend ρ h.nextId x) h' b := by
  refine ⟨hc.inv, hc.idle, fun id p hp => ?_, hc.kept.turns hok ht hx fun id hge => ?_⟩
  · obtain ⟨r, hr, rfl⟩ := hc.flying id p hp
    refine ⟨r, ht.kept r hr fun hrx => ?_, rfl⟩
    have hnone := hc.kept.none_of_ne hr (by rw [hrx]; exact hx)
    rw [bankHolder, hp] at hnone
    cases hnone
  · rw [bankHolder, lookup_of_ge hok hc.flying hge]
    rfl

/-- After the service of the cache of `v`, from a bank whose other caches are settled. -/
theorem CacheOk.of_serviced {w w' : QuetzCpu} (hs : QuetzCpu.Serviced v w w') (hok : w.host.Ok)
    (hidle : ∀ (u : ℕ) (st : BankState), u ≠ v → w.bank.states[u]? = some st →
      st.cache.active = st.outstanding)
    (hflying : ∀ id p, w.bank.pending.lookup id = some p → ∃ r ∈ w.host.inFlight, r.id = id)
    (hkept : Kept ρ .cache w.host (bankHolder w.bank)) :
    CacheOk (Role.extend ρ w.host.nextId .cache) w'.host w'.bank ∧
      ∀ u, cacheOwed w'.bank u + w'.host.posted u =
        (if u = v then 1 else cacheOwed w.bank u) + w.host.posted u := by
  cases hs with
  | done value st bank native hinv hpend hst hact hout hothers =>
      have hlook : ∀ id, bank.pending.lookup id = w.bank.pending.lookup id := fun id => by
        rw [hpend]
      refine ⟨⟨hinv, fun u st' hst' => ?_, fun id p hp => ?_, ?_⟩, fun u => ?_⟩
      · by_cases huv : u = v
        · rw [huv, hst] at hst'
          rw [← Option.some.inj hst', hact, hout]
        · rw [hothers u huv] at hst'
          exact hidle u st' huv hst'
      · rw [hlook] at hp
        exact hflying id p hp
      · refine hkept.own hok (Host.Grows.post ..).turns (fun r _ _ => ?_) fun r hr hge => ?_
        · simp only [bankHolder, hlook]
        · exact absurd (hok.fresh r hr) (Nat.not_lt.mpr hge)
      · by_cases huv : u = v
        · subst huv
          simp [cacheOwed, hst, hact]
          omega
        · simp [cacheOwed, hothers u huv, huv, Ne.symm huv]
  | waits body read st bank native hinv hpend hst hact hout hothers =>
      have hlook : ∀ id, id ≠ w.host.nextId →
          bank.pending.lookup id = w.bank.pending.lookup id := fun id hid => by
        rw [hpend, AList.lookup_insert_ne hid]
      have hnew : bank.pending.lookup w.host.nextId = some ⟨v, read⟩ := by
        rw [hpend, AList.lookup_insert]
      refine ⟨⟨hinv, fun u st' hst' => ?_, fun id p hp => ?_, ?_⟩, fun u => ?_⟩
      · by_cases huv : u = v
        · rw [huv, hst] at hst'
          rw [← Option.some.inj hst', hact, hout]
        · rw [hothers u huv] at hst'
          exact hidle u st' huv hst'
      · by_cases hid : id = w.host.nextId
        · exact ⟨⟨w.host.nextId, v, .mmio, body⟩,
            List.mem_append_right _ (List.mem_singleton.mpr rfl),
            hid.symm⟩
        · rw [hlook id hid] at hp
          obtain ⟨r, hr, hrid⟩ := hflying id p hp
          exact ⟨r, List.mem_append_left _ hr, hrid⟩
      · refine hkept.own hok (Host.Grows.send ..).turns (fun r _ hr => ?_) fun r hr hge => ?_
        · simp only [bankHolder, hlook r.id (Nat.ne_of_lt (hok.fresh r hr))]
        · rcases List.mem_append.mp hr with hr | hr
          · exact absurd (hok.fresh r hr) (Nat.not_lt.mpr hge)
          · rw [List.mem_singleton.mp hr, bankHolder, hnew]
            rfl
      · by_cases huv : u = v
        · subst huv
          simp [cacheOwed, hst, hact]
        · simp [cacheOwed, hothers u huv, huv]

/-- A cache that owes nothing is idle. -/
theorem CacheOk.idle_of_owed (hc : CacheOk ρ h b) {st : BankState}
    (hst : b.states[v]? = some st) (hzero : cacheOwed b v = 0) :
    st.cache.active = false ∧ st.outstanding = false := by
  have hact : st.cache.active = false := by
    by_contra hne
    simp [cacheOwed, hst, hne] at hzero
  exact ⟨hact, (hc.idle v st hst).symm.trans hact⟩

end Cache

/-! ### Plain accesses -/

/-- The vCPU a plain access is kept for. -/
def genericHolder (g : ℕ → Option GenericPending) (id : ℕ) : Option ℕ :=
  (g id).map GenericPending.vcpu

/-- The plain accesses of a vCPU in flight. -/
def genericOwed (h : Host) (g : ℕ → Option GenericPending) (v : ℕ) : ℕ :=
  h.inFlight.countP fun r => genericHolder g r.id == some v

structure GenericOk (ρ : ℕ → Role) (h : Host) (g : ℕ → Option GenericPending) : Prop where
  fresh : ∀ id, h.nextId ≤ id → g id = none
  kept : Kept ρ .generic h (genericHolder g)

section Generic

variable {ρ : ℕ → Role} {x : Role} {h h' : Host} {g : ℕ → Option GenericPending} {v : ℕ}

/-- The turn of another holder. -/
theorem GenericOk.turns (hg : GenericOk ρ h g) (hok : h.Ok) (ht : h.Turns (ρ · = x) h')
    (hx : x ≠ .generic) :
    GenericOk (Role.extend ρ h.nextId x) h' g ∧ ∀ u, genericOwed h' g u = genericOwed h g u := by
  have hfresh : ∀ id, h.nextId ≤ id → genericHolder g id = none := fun id hge => by
    rw [genericHolder, hg.fresh id hge]
    rfl
  refine ⟨⟨fun id hge => hg.fresh id (ht.nextId.trans hge), hg.kept.turns hok ht hx hfresh⟩,
    fun u => ht.count _ (fun r hge => ?_) fun r hr hrx => ?_⟩
  · simp [hfresh r.id hge]
  · simp [hg.kept.none_of_ne hr (by rw [hrx]; exact hx)]

/-- A plain access is sent. -/
theorem GenericOk.send (hg : GenericOk ρ h g) (hok : h.Ok) (link : Link) (body : Body)
    (p : GenericPending) :
    GenericOk (Role.extend ρ h.nextId .generic) (h.send p.vcpu link body)
        (Function.update g h.nextId (some p)) ∧
      ∀ u, genericOwed (h.send p.vcpu link body) (Function.update g h.nextId (some p)) u =
        genericOwed h g u + if p.vcpu = u then 1 else 0 := by
  have hold : ∀ r ∈ h.inFlight, genericHolder (Function.update g h.nextId (some p)) r.id =
      genericHolder g r.id := fun r hr => by
    simp only [genericHolder, Function.update_of_ne (Nat.ne_of_lt (hok.fresh r hr))]
  have hnew : genericHolder (Function.update g h.nextId (some p)) h.nextId = some p.vcpu := by
    simp only [genericHolder, Function.update_self, Option.map_some]
  refine ⟨⟨fun id hge => ?_, hg.kept.own hok (Host.Grows.send ..).turns (fun r _ hr => hold r hr)
    fun r hr hge => ?_⟩, fun u => ?_⟩
  · have hge : h.nextId + 1 ≤ id := hge
    rw [Function.update_of_ne (by omega)]
    exact hg.fresh id (by omega)
  · rcases List.mem_append.mp hr with hr | hr
    · exact absurd (hok.fresh r hr) (Nat.not_lt.mpr hge)
    · rw [List.mem_singleton.mp hr]
      exact hnew
  · rw [genericOwed, Host.countP_send (fun r => genericHolder g r.id == some u)]
    · simp [hnew, genericOwed]
    · intro r hr
      simp only [hold r hr]

/-- A plain access is answered. -/
theorem GenericOk.answer (hg : GenericOk ρ h g) (hok : h.Ok) {i : ℕ} {r : Request}
    (hi : h.inFlight[i]? = some r) {p : GenericPending} (hp : g r.id = some p) (value : UInt64) :
    GenericOk (Role.extend ρ h.nextId .generic) ((h.take i).postResponse p.vcpu value)
        (Function.update g r.id none) ∧
      ∀ u, genericOwed ((h.take i).postResponse p.vcpu value) (Function.update g r.id none) u +
        (if p.vcpu = u then 1 else 0) = genericOwed h g u := by
  have hmine : ρ r.id = .generic :=
    (hg.kept.role (List.mem_of_getElem? hi) (by rw [genericHolder, hp]; rfl)).1
  have hold : ∀ r' ∈ (h.take i).inFlight,
      genericHolder (Function.update g r.id none) r'.id = genericHolder g r'.id := fun r' hr' => by
    simp only [genericHolder, Function.update_of_ne ((hok.taken hi).2 r' hr')]
  refine ⟨⟨fun id hge => ?_, hg.kept.own hok (hok.turns_take hi hmine (Host.Grows.post ..))
    (fun r' hr' _ => hold r' hr') fun r' hr' hge => ?_⟩, fun u => ?_⟩
  · by_cases hid : id = r.id
    · rw [hid]
      exact Function.update_self ..
    · rw [Function.update_of_ne hid]
      exact hg.fresh id hge
  · exact absurd ((hok.take i).fresh r' hr') (Nat.not_lt.mpr hge)
  · rw [genericOwed, genericOwed]
    have hcount := Host.countP_take hok hi (fun r => genericHolder g r.id == some u)
      (fun r' => genericHolder (Function.update g r.id none) r'.id == some u) fun r' _ hne => by
        simp only [genericHolder, Function.update_of_ne hne]
    rw [show ((h.take i).postResponse p.vcpu value).inFlight = (h.take i).inFlight from rfl]
    simpa [genericHolder, hp] using hcount

end Generic

/-! ### The ports -/

/-- What the ports owe a vCPU. -/
def portsOwed (h : Host) (ports : List (BalarConfig × BalarPort)) (v : ℕ) : ℕ :=
  (ports.map fun p => owed h p.2 v).sum

/-- Replacing an element of a list changes a sum over it by that element. -/
theorem sum_map_set {α : Type*} {f g : α → ℕ} : ∀ {l : List α} {k : ℕ} {x : α} (y : α),
    l[k]? = some x → (∀ j z, l[j]? = some z → j ≠ k → g z = f z) →
    ((l.set k y).map g).sum + f x = (l.map f).sum + g y
  | [], _, _, _, hk, _ => by simp at hk
  | a :: l, 0, x, y, hk, hsame => by
    have hrest : l.map g = l.map f := by
      refine List.map_congr_left fun z hz => ?_
      obtain ⟨j, hj⟩ := List.getElem?_of_mem hz
      exact hsame (j + 1) z hj (Nat.succ_ne_zero j)
    have hx : a = x := by simpa using hk
    subst hx
    simp only [List.set_cons_zero, List.map_cons, List.sum_cons, hrest]
    omega
  | a :: l, k + 1, x, y, hk, hsame => by
    have ih := sum_map_set y (show l[k]? = some x from hk)
      fun j z hz hj => hsame (j + 1) z hz (by omega)
    have ha := hsame 0 a rfl (by omega)
    simp only [List.set_cons_succ, List.map_cons, List.sum_cons, ha]
    omega

structure PortsOk (ρ : ℕ → Role) (h : Host) (ports : List (BalarConfig × BalarPort)) : Prop where
  inv : ∀ (k : ℕ) (p : BalarConfig × BalarPort), ports[k]? = some p → PortInv h p.2
  kept : ∀ (k : ℕ) (p : BalarConfig × BalarPort), ports[k]? = some p →
    Kept ρ (.port k) h p.2.holder
  bound : ∀ r ∈ h.inFlight, ∀ k, ρ r.id = .port k → k < ports.length

section Ports

variable {ρ : ℕ → Role} {x : Role} {h h₀ h' : Host} {ports : List (BalarConfig × BalarPort)}
  {k : ℕ} {p : BalarConfig × BalarPort} {s' : BalarPort} {P : ℕ → Prop}

theorem holder_of_ge (hi : PortInv h p.2) {id : ℕ} (hge : h.nextId ≤ id) :
    p.2.holder id = none := by
  rw [holder, hi.flush id hge, hi.pending id hge]
  rfl

/-- A port during the turn of another holder. -/
theorem PortsOk.turns_one (hp : PortsOk ρ h ports) (hok : h.Ok) (ht : h.Turns (ρ · = x) h')
    (hk : ports[k]? = some p) (hx : x ≠ .port k) :
    (PortInv h' p.2 ∧ ∀ u, owed h' p.2 u = owed h p.2 u) ∧
      Kept (Role.extend ρ h.nextId x) (.port k) h' p.2.holder := by
  have hkept := hp.kept k p hk
  refine ⟨(hp.inv k p hk).turns ht fun r hr hrx => ?_,
    hkept.turns hok ht hx fun id hge => holder_of_ge (hp.inv k p hk) hge⟩
  exact hkept.none_of_ne hr (by rw [hrx]; exact hx)

/-- The turn of a holder that is not a port. -/
theorem PortsOk.turns (hp : PortsOk ρ h ports) (hok : h.Ok) (ht : h.Turns (ρ · = x) h')
    (hx : ∀ k, x ≠ .port k) :
    PortsOk (Role.extend ρ h.nextId x) h' ports ∧
      ∀ u, portsOwed h' ports u = portsOwed h ports u := by
  refine ⟨⟨fun k p hk => (hp.turns_one hok ht hk (hx k)).1.1,
    fun k p hk => (hp.turns_one hok ht hk (hx k)).2, fun r hr k hrk => ?_⟩, fun u => ?_⟩
  · rcases ht.old r hr with hr' | hge
    · rw [Role.extend_of_lt (hok.fresh r hr')] at hrk
      exact hp.bound r hr' k hrk
    · rw [Role.extend_of_ge hge] at hrk
      exact absurd hrk (hx k)
  · rw [portsOwed, portsOwed]
    congr 1
    refine List.map_congr_left fun q hq => ?_
    obtain ⟨j, hj⟩ := List.getElem?_of_mem hq
    exact (hp.turns_one hok ht hj (hx j)).1.2 u

/-- The turn of a port. -/
theorem PortsOk.step (hp : PortsOk ρ h ports) (hok : h.Ok) (hk : ports[k]? = some p)
    (ht : h.Turns (ρ · = .port k) h') (hinv : PortInv h' s') (hreg : Registers P h₀ h' p.2 s')
    (hnext : h₀.nextId = h.nextId) :
    PortsOk (Role.extend ρ h.nextId (.port k)) h' (ports.set k (p.1, s')) ∧
      ∀ u, portsOwed h' (ports.set k (p.1, s')) u + owed h p.2 u =
        portsOwed h ports u + owed h' s' u := by
  have hlt : k < ports.length := (List.getElem?_eq_some_iff.mp hk).1
  have hcases : ∀ j q, (ports.set k (p.1, s'))[j]? = some q →
      (j = k ∧ q = (p.1, s')) ∨ (j ≠ k ∧ ports[j]? = some q) := by
    intro j q hj
    by_cases hjk : j = k
    · subst hjk
      rw [List.getElem?_set_self hlt] at hj
      exact Or.inl ⟨rfl, (Option.some.inj hj).symm⟩
    · rw [List.getElem?_set_ne (Ne.symm hjk)] at hj
      exact Or.inr ⟨hjk, hj⟩
  have hother : ∀ j, j ≠ k → Role.port k ≠ Role.port j := fun j hj heq =>
    hj (Role.port.inj heq).symm
  -- The requests that were in flight before are those of `h₀`.
  have hold : ∀ r ∈ h'.inFlight, r ∈ h.inFlight → r ∈ h₀.inFlight := by
    intro r hr hr'
    obtain ⟨news, heq, hge⟩ := hreg.grows.inFlight
    rw [heq] at hr
    rcases List.mem_append.mp hr with hr | hr
    · exact hr
    · have := hge r hr
      have := hok.fresh r hr'
      omega
  refine ⟨⟨fun j q hj => ?_, fun j q hj => ?_, fun r hr j hrj => ?_⟩, fun u => ?_⟩
  · rcases hcases j q hj with ⟨-, rfl⟩ | ⟨hjk, hj⟩
    · exact hinv
    · exact (hp.turns_one hok ht hj (hother j hjk)).1.1
  · rcases hcases j q hj with ⟨rfl, rfl⟩ | ⟨hjk, hj⟩
    · exact (hp.kept j p hk).own hok ht (fun r hr hr' => hreg.old r (hold r hr hr'))
        fun r hr hge => (hreg.new r hr (hnext ▸ hge)).1
    · exact (hp.turns_one hok ht hj (hother j hjk)).2
  · rw [List.length_set]
    rcases ht.old r hr with hr' | hge
    · rw [Role.extend_of_lt (hok.fresh r hr')] at hrj
      exact hp.bound r hr' j hrj
    · rw [Role.extend_of_ge hge] at hrj
      rw [← Role.port.inj hrj]
      exact hlt
  · exact sum_map_set (f := fun p => owed h p.2 u) (g := fun p => owed h' p.2 u) (p.1, s') hk
      fun j q hj hjk => (hp.turns_one hok ht hj (hother j hjk)).1.2 u

end Ports

/-! ### The whole CPU -/

namespace QuetzCpu

/-- The responses the CPU owes a vCPU. -/
def owed (w : QuetzCpu) (v : ℕ) : ℕ :=
  cacheOwed w.bank v + genericOwed w.host w.genericPending v + portsOwed w.host w.ports v

/-- The requests of the pipelines are `ids`; all others are for vCPUs with an mmio link. -/
structure CoreOk (c : CpuConfig) (ids : List ℕ) (ρ : ℕ → Role) (h : Host) : Prop where
  own : ∀ r ∈ h.inFlight, ρ r.id = .core ↔ r.id ∈ ids
  fresh : ∀ id ∈ ids, id < h.nextId
  linked : ∀ r ∈ h.inFlight, ρ r.id ≠ .core → c.hasMmio r.vcpu = true

/-- Every holder keeps its requests. -/
structure Parts (c : CpuConfig) (ids : List ℕ) (ρ : ℕ → Role) (w : QuetzCpu) : Prop where
  ok : w.host.Ok
  cache : CacheOk ρ w.host w.bank
  generic : GenericOk ρ w.host w.genericPending
  ports : PortsOk ρ w.host w.ports
  core : CoreOk c ids ρ w.host

/-- A step from `w` to `w'` that makes `δ u` responses more owed or posted to each vCPU `u`. -/
structure Turned (c : CpuConfig) (ids : List ℕ) (w w' : QuetzCpu) (δ : ℕ → ℕ) : Prop where
  parts : ∃ ρ, Parts c ids ρ w'
  balance : ∀ u, w'.owed u + w'.host.posted u = w.owed u + w.host.posted u + δ u
  posts : ∀ u, w.host.posted u ≤ w'.host.posted u
  mailbox : w'.mailbox = w.mailbox
  taken : w'.taken = w.taken

section Steps

variable {c : CpuConfig} {ids : List ℕ} {ρ : ℕ → Role} {w w' : QuetzCpu} {h h₀ h' : Host}
  {k v : ℕ} {p : BalarConfig × BalarPort} {s' : BalarPort} {δ : ℕ → ℕ} {x : Role}

theorem CoreOk.turns (hc : CoreOk c ids ρ h) (hok : h.Ok) (ht : h.Turns (ρ · = x) h')
    (hx : x ≠ .core)
    (hnew : ∀ r ∈ h'.inFlight, h.nextId ≤ r.id → c.hasMmio r.vcpu = true) :
    CoreOk c ids (Role.extend ρ h.nextId x) h' := by
  refine ⟨fun r hr => ?_, fun id hid => Nat.lt_of_lt_of_le (hc.fresh id hid) ht.nextId,
    fun r hr hne => ?_⟩
  · rcases ht.old r hr with hr' | hge
    · rw [Role.extend_of_lt (hok.fresh r hr')]
      exact hc.own r hr'
    · rw [Role.extend_of_ge hge]
      exact iff_of_false hx fun hmem => Nat.not_lt.mpr hge (hc.fresh r.id hmem)
  · rcases ht.old r hr with hr' | hge
    · rw [Role.extend_of_lt (hok.fresh r hr')] at hne
      exact hc.linked r hr' hne
    · exact hnew r hr hge

/-- No new request, no new link. -/
theorem no_new (hok : h.Ok) {P : Request → Prop} :
    ∀ r ∈ h.inFlight, h.nextId ≤ r.id → P r := fun r hr hge =>
  absurd (hok.fresh r hr) (Nat.not_lt.mpr hge)

/-- The only new request is the one sent. -/
theorem new_send (hok : h.Ok) {P : Request → Prop} {vcpu : ℕ} {link : Link} {body : Body}
    (hP : P ⟨h.nextId, vcpu, link, body⟩) :
    ∀ r ∈ (h.send vcpu link body).inFlight, h.nextId ≤ r.id → P r := by
  intro r hr hge
  rcases List.mem_append.mp hr with hr | hr
  · exact no_new hok r hr hge
  · rw [List.mem_singleton.mp hr]
    exact hP

/-- The turn of a port. -/
theorem Parts.portTurn (hw : Parts c ids ρ w) (hk : w.ports[k]? = some p)
    (ht : w.host.Turns (ρ · = .port k) h')
    (hm : Moved h₀ h' s' fun u => BalarPort.owed w.host p.2 u + w.host.posted u + δ u)
    (hreg : Registers (fun u => c.hasMmio u = true) h₀ h' p.2 s')
    (hnext : h₀.nextId = w.host.nextId) (hposts : h₀.posts = w.host.posts) :
    Turned c ids w { w with host := h', ports := w.ports.set k (p.1, s') } δ := by
  have hcache := hw.cache.turns hw.ok ht (by simp)
  obtain ⟨hgen, hgowed⟩ := hw.generic.turns hw.ok ht (by simp)
  obtain ⟨hports, hpowed⟩ := hw.ports.step hw.ok hk ht hm.inv hreg hnext
  have hcore := hw.core.turns hw.ok ht (by simp) fun r hr hge =>
    (hreg.new r hr (hnext ▸ hge)).2
  refine ⟨⟨_, hm.ok, hcache, hgen, hports, hcore⟩, fun u => ?_, fun u => ?_, rfl, rfl⟩
  · have hport := hpowed u
    have hbal := hm.balance u
    show cacheOwed w.bank u + genericOwed h' w.genericPending u +
      portsOwed h' (w.ports.set k (p.1, s')) u + h'.posted u = _
    rw [hgowed u, owed]
    omega
  · have hgrow := hm.grows.posted u
    rwa [Host.posted, hposts] at hgrow

/-- The turn of a window cache, from the bank `w₁.bank` and the host `w₁.host`. -/
theorem Parts.cacheTurn (hw : Parts c ids ρ w) {bank : WindowCacheBank}
    (hs : Serviced v { w with bank := bank, host := h₀ } w') (hok₀ : h₀.Ok)
    (ht₀ : w.host.Turns (ρ · = .cache) h₀) (hnext : h₀.nextId = w.host.nextId)
    (hposts : h₀.posts = w.host.posts)
    (hidle : ∀ (u : ℕ) (st : BankState), u ≠ v → bank.states[u]? = some st →
      st.cache.active = st.outstanding)
    (hflying : ∀ id p, bank.pending.lookup id = some p → ∃ r ∈ h₀.inFlight, r.id = id)
    (hkept : Kept ρ .cache h₀ (bankHolder bank))
    (hothers : ∀ u, u ≠ v → bank.states[u]? = w.bank.states[u]?) (hlink : c.hasMmio v = true)
    (hδ : ∀ u, cacheOwed w.bank u + δ u = if u = v then 1 else cacheOwed w.bank u) :
    Turned c ids w w' δ := by
  obtain ⟨hcache, hcowed⟩ := CacheOk.of_serviced hs hok₀ hidle hflying hkept
  have hnext : ({ w with bank := bank, host := h₀ } : QuetzCpu).host.nextId = w.host.nextId := hnext
  rw [hnext] at hcache
  -- Answering and servicing together are one turn of the cache.
  have hturn : w.host.Turns (ρ · = .cache) w'.host ∧ w'.host.Ok ∧
      (∀ r ∈ w'.host.inFlight, w.host.nextId ≤ r.id → c.hasMmio r.vcpu = true) ∧
      (∀ u, w.host.posted u ≤ w'.host.posted u) ∧ w'.ports = w.ports ∧
      w'.genericPending = w.genericPending ∧ w'.mailbox = w.mailbox ∧ w'.taken = w.taken := by
    have hposted : ∀ u, h₀.posted u = w.host.posted u := fun u => by
      rw [Host.posted, Host.posted, hposts]
    cases hs with
    | done value st bank' native hinv hpend hst hact hout hoth =>
        refine ⟨⟨ht₀.nextId, ht₀.old, ht₀.kept, ht₀.count⟩, hok₀.post _ _, ?_, fun u => ?_, rfl,
          rfl,
          rfl, rfl⟩
        · intro r hr hge
          exact no_new (P := fun r => c.hasMmio r.vcpu = true) hok₀ r hr (hnext ▸ hge)
        · show w.host.posted u ≤ (h₀.postResponse v value).posted u
          rw [Host.posted_postResponse, hposted u]
          exact Nat.le_add_right _ _
    | waits body read st bank' native hinv hpend hst hact hout hoth =>
        refine ⟨?_, hok₀.send _ _ _, ?_, fun u => (hposted u).ge, rfl, rfl, rfl, rfl⟩
        · have hsend : h₀.Turns (ρ · = .cache) (h₀.send v .mmio body) := (Host.Grows.send ..).turns
          refine ⟨ht₀.nextId.trans hsend.nextId, fun r hr => ?_, fun r hr hne => ?_,
            fun q hq hq' => ?_⟩
          · rcases hsend.old r hr with hr | hge
            · exact ht₀.old r hr
            · exact Or.inr (hnext ▸ hge)
          · exact hsend.kept r (ht₀.kept r hr hne) hne
          · rw [← ht₀.count q hq hq']
            refine Host.countP_grows (Host.Grows.send ..) q fun r hge => hq r (hnext ▸ hge)
        · intro r hr hge
          exact new_send (P := fun r => c.hasMmio r.vcpu = true) hok₀ hlink r hr (hnext ▸ hge)
  obtain ⟨ht, hok', hnew, hposted, hports', hgen', hmail, htaken⟩ := hturn
  obtain ⟨hgen, hgowed⟩ := hw.generic.turns hw.ok ht (by simp)
  obtain ⟨hports, hpowed⟩ := hw.ports.turns hw.ok ht (by simp)
  refine ⟨⟨_, hok', hcache, by rw [hgen']; exact hgen, by rw [hports']; exact hports,
    hw.core.turns hw.ok ht (by simp) hnew⟩, fun u => ?_, hposted, hmail, htaken⟩
  have hcu := hcowed u
  have hdu := hδ u
  have hpu : h₀.posted u = w.host.posted u := by rw [Host.posted, Host.posted, hposts]
  have hbank : u ≠ v → cacheOwed bank u = cacheOwed w.bank u := fun huv => by
    rw [cacheOwed, cacheOwed, hothers u huv]
  simp only [owed, hports', hgen', hgowed u, hpowed u]
  by_cases huv : u = v
  · simp only [if_pos huv] at hcu hdu
    omega
  · simp only [if_neg huv, hbank huv] at hcu hdu
    omega

/-! ### Commands -/

theorem openCache_error_ne {cmd : QuetzCommand} {e : Exn} (he : openCache cmd = .error e) :
    e ≠ WindowDataCache.overlapping := by
  rintro rfl
  unfold openCache at he
  cases hcmd : cmd.cmd <;> simp only [hcmd] at he <;>
    first
    | (split_ifs at he <;> simp [WindowDataCache.overlapping] at he)
    | simp [WindowDataCache.overlapping] at he

/-- A command for the window cache. -/
theorem Parts.handleCacheCommand (hw : Parts c ids ρ w) (hzero : w.owed v = 0)
    (cmd : QuetzCommand) :
    match QuetzCpu.handleCacheCommand c v cmd w with
    | .ok w' => Turned c ids w w' (fun u => if u = v then 1 else 0) ∧ c.hasMmio v = true
    | .error e => ¬e.Nested := by
  have hcacheZero : cacheOwed w.bank v = 0 := by
    simp only [owed] at hzero
    omega
  rw [QuetzCpu.handleCacheCommand]
  by_cases hoff : c.sstWindowCache = false ∨ c.hasMmio v = false
  · rw [if_pos hoff]
    exact fun hn => hn
  rw [if_neg hoff]
  have hlink : c.hasMmio v = true := by
    simpa using (not_or.mp hoff).2
  cases hopen : openCache cmd with
  | error e => exact openCache_error_ne hopen
  | ok f =>
      dsimp only
      rw [onCache]
      cases hst : w.bank.states[v]? with
      | none => exact fun hn => by cases hn
      | some st =>
          obtain ⟨hidle, hout⟩ := hw.cache.idle_of_owed hst hcacheZero
          have hinv := hw.cache.inv.caches v st hst
          dsimp only
          cases hf : f st.cache with
          | error e =>
              intro he
              have he : e = WindowDataCache.overlapping := he
              exact WindowDataCache.openCache_ne_overlapping hopen hidle (he ▸ hf)
          | ok d =>
              obtain ⟨-, hd, hact, hpend⟩ := WindowDataCache.openCache_opens hopen hinv hf
              have hbank := hw.cache.inv.setCache hst hout hd
              have hst₁ : (w.bank.setState v { st with cache := d }).states[v]? =
                  some { st with cache := d } := setState_self hst
              have hfresh : w.host.nextId ∉ w.bank.pending :=
                AList.lookup_eq_none.mp (lookup_of_ge hw.ok hw.cache.flying (Nat.le_refl _))
              have hservice := serviceWindowCache_serviced v serviceRounds
                (w := { w with bank := w.bank.setState v { st with cache := d } }) hbank hst₁ hact
                hpend hout hfresh (WindowDataCache.rounds_lt_serviceRounds hd hact)
              revert hservice
              dsimp only
              cases serviceWindowCache v serviceRounds
                { w with bank := w.bank.setState v { st with cache := d } } with
              | error e => exact fun he => he
              | ok w' =>
                  intro hs
                  refine ⟨hw.cacheTurn hs hw.ok (Host.Grows.refl _).turns rfl rfl
                    (fun u st' huv hst' => ?_) hw.cache.flying hw.cache.kept
                    (fun u huv => setState_of_ne _ huv) hlink fun u => ?_, hlink⟩
                  · rw [setState_of_ne _ huv] at hst'
                    exact hw.cache.idle u st' hst'
                  · by_cases huv : u = v
                    · simp [huv, hcacheZero]
                    · simp [huv]

/-- A plain access. -/
theorem Parts.genericSend (hw : Parts c ids ρ w) (hlink : c.hasMmio v = true) (body : Body)
    (isRead winBe : Bool) :
    Turned c ids w { w with
      genericPending := Function.update w.genericPending w.host.nextId (some ⟨v, isRead, winBe⟩)
      host := w.host.send v .mmio body } fun u => if u = v then 1 else 0 := by
  have ht : w.host.Turns (ρ · = .generic) (w.host.send v .mmio body) :=
    (Host.Grows.send ..).turns
  obtain ⟨hgen, hgowed⟩ := hw.generic.send hw.ok .mmio body ⟨v, isRead, winBe⟩
  obtain ⟨hports, hpowed⟩ := hw.ports.turns hw.ok ht (by simp)
  refine ⟨⟨_, hw.ok.send _ _ _, hw.cache.turns hw.ok ht (by simp), hgen, hports,
    hw.core.turns hw.ok ht (by simp) ?_⟩, fun u => ?_, fun u => Nat.le_refl _, rfl, rfl⟩
  · exact new_send (P := fun r => c.hasMmio r.vcpu = true) hw.ok hlink
  · simp only [owed, hgowed u, hpowed u, Host.posted_send, eq_comm (a := u)]
    omega

/-- A command of a vCPU without an mmio link is answered at once. -/
theorem Parts.post (hw : Parts c ids ρ w) (value : UInt64) :
    Turned c ids w { w with host := w.host.postResponse v value }
      (fun u => if u = v then 1 else 0) ∧
      ∀ u, owed { w with host := w.host.postResponse v value } u = w.owed u := by
  obtain ⟨hports, hpowed⟩ := hw.ports.turns (x := .core) hw.ok
    (Host.Grows.post w.host v value).turns (by simp)
  have hsame : ∀ u, owed { w with host := w.host.postResponse v value } u = w.owed u :=
    fun u => rfl
  refine ⟨⟨⟨ρ, hw.ok.post _ _, ⟨hw.cache.inv, hw.cache.idle, hw.cache.flying, hw.cache.kept⟩,
    ⟨hw.generic.fresh, hw.generic.kept⟩, ⟨fun k p hk => (hw.ports.inv k p hk).post _ _,
      hw.ports.kept, hw.ports.bound⟩, ⟨hw.core.own, hw.core.fresh, hw.core.linked⟩⟩,
    fun u => ?_, fun u => ?_, rfl, rfl⟩, hsame⟩
  · rw [hsame u, Host.posted_postResponse]
    simp only [eq_comm (a := u)]
    omega
  · rw [Host.posted_postResponse]
    exact Nat.le_add_right _ _

/-- A port is part of what the CPU owes. -/
theorem portOwed_le (hk : w.ports[k]? = some p) (u : ℕ) :
    BalarPort.owed w.host p.2 u ≤ w.owed u := by
  have hmem : BalarPort.owed w.host p.2 u ∈ w.ports.map fun p => BalarPort.owed w.host p.2 u :=
    List.mem_map.mpr ⟨p, List.mem_of_getElem? hk, rfl⟩
  have hle := List.le_sum_of_mem hmem
  rw [owed, portsOwed]
  omega

/-- Any command of a vCPU that is owed nothing. -/
theorem Parts.handleMmioSyncCommand (hw : Parts c ids ρ w) (hzero : w.owed v = 0)
    {cmd : QuetzCommand}
    (hcmd : cmd.cmd = .mmioReadReq ∨ cmd.cmd = .mmioWriteReq ∨ cmd.cmd = .cacheOp) :
    match QuetzCpu.handleMmioSyncCommand c v cmd w with
    | .ok w' => Turned c ids w w' (fun u => if u = v then 1 else 0) ∧
        (c.hasMmio v = false → w'.owed v = 0)
    | .error e => ¬e.Nested := by
  rw [QuetzCpu.handleMmioSyncCommand]
  by_cases hrange : c.vcpuCount ≤ v
  · rw [if_pos hrange]
    exact fun hn => hn
  rw [if_neg hrange]
  by_cases hcache : cmd.cmd = .cacheOp ∨ (c.sstWindowCache && w.cacheContains v cmd.addr) = true
  · rw [if_pos hcache]
    have hres := hw.handleCacheCommand hzero cmd
    revert hres
    cases QuetzCpu.handleCacheCommand c v cmd w with
    | error e => exact fun he => he
    | ok w' => exact fun hres => ⟨hres.1, fun hoff => by simp [hres.2] at hoff⟩
  rw [if_neg hcache]
  have hcmd : cmd.cmd = .mmioReadReq ∨ cmd.cmd = .mmioWriteReq := by
    rcases hcmd with hcmd | hcmd | hcmd
    · exact Or.inl hcmd
    · exact Or.inr hcmd
    · exact absurd (Or.inl hcmd) hcache
  by_cases hlink : c.hasMmio v = false
  · rw [if_pos hlink]
    obtain ⟨hturned, hsame⟩ := hw.post (v := v) 0
    exact ⟨hturned, fun _ => (hsame v).trans hzero⟩
  rw [if_neg hlink]
  have hlink : c.hasMmio v = true := by simpa using hlink
  have hoff : ∀ {w' : QuetzCpu}, c.hasMmio v = false → w'.owed v = 0 := fun h => by
    simp [hlink] at h
  cases hport : w.portForAddr cmd.addr with
  | none =>
      dsimp only
      rcases hcmd with hcmd | hcmd
      · rw [hcmd]
        exact ⟨hw.genericSend hlink _ _ _, hoff⟩
      · rw [hcmd]
        exact ⟨hw.genericSend hlink _ _ _, hoff⟩
  | some k =>
      dsimp only
      obtain ⟨hlt, -⟩ := List.findIdx?_eq_some_iff_getElem.mp hport
      rw [List.getElem?_eq_getElem hlt]
      have hk : w.ports[k]? = some w.ports[k] := List.getElem?_eq_getElem hlt
      dsimp only
      have hpzero : BalarPort.owed w.host w.ports[k].2 v = 0 := by
        have := portOwed_le hk v
        omega
      have hmoved := handleCommand_moved w.ports[k].1 hw.ok (hw.ports.inv k _ hk) hpzero hcmd
      cases hres : BalarPort.handleCommand w.ports[k].1 v cmd w.host w.ports[k].2 with
      | error e =>
          rw [hres] at hmoved
          exact hmoved
      | ok res =>
          obtain ⟨h', s'⟩ := res
          rw [hres] at hmoved
          have hmoved : Moved w.host h' s' fun u => BalarPort.owed w.host w.ports[k].2 u +
            w.host.posted u + if v = u then 1 else 0 := hmoved
          have hreg := handleCommand_registers (P := fun u => c.hasMmio u = true) hw.ok
            (hw.ports.inv k _ hk) hlink hres
          refine ⟨hw.portTurn hk hmoved.grows.turns ?_ hreg rfl rfl, hoff⟩
          refine hmoved.after (Host.Grows.refl _) fun u => ?_
          simp only [eq_comm (a := u)]

/-! ### Ticks -/

theorem Turned.refl (hw : Parts c ids ρ w) : Turned c ids w w fun _ => 0 :=
  ⟨⟨ρ, hw⟩, fun _ => rfl, fun _ => Nat.le_refl _, rfl, rfl⟩

theorem Turned.trans {w₁ w₂ w₃ : QuetzCpu} (h₁₂ : Turned c ids w₁ w₂ fun _ => 0)
    (h₂₃ : Turned c ids w₂ w₃ δ) : Turned c ids w₁ w₃ δ := by
  refine ⟨h₂₃.parts, fun u => ?_, fun u => (h₁₂.posts u).trans (h₂₃.posts u),
    h₂₃.mailbox.trans h₁₂.mailbox, h₂₃.taken.trans h₁₂.taken⟩
  have := h₁₂.balance u
  have := h₂₃.balance u
  omega

/-- Without a command nobody is owed more. -/
theorem Turned.owed_le {u : ℕ} (ht : Turned c ids w w' δ) (hδ : δ u = 0) :
    w'.owed u ≤ w.owed u := by
  have := ht.balance u
  have := ht.posts u
  omega

/-- The ports' part of a tick. -/
theorem Parts.processPorts (drained : ℕ → Bool) (order : ℕ → List ℕ) (ks : List ℕ)
    {ρ : ℕ → Role} {w : QuetzCpu} (hw : Parts c ids ρ w) (hone : ∀ u, w.owed u ≤ 1)
    (hoff : ∀ u, c.hasMmio u = false → w.owed u = 0) :
    match QuetzCpu.processPorts drained order ks w with
    | .ok w' => Turned c ids w w' fun _ => 0
    | .error e => ¬e.Nested := by
  induction ks generalizing ρ w with
  | nil => exact Turned.refl hw
  | cons k ks ih =>
      rw [QuetzCpu.processPorts]
      cases hk : w.ports[k]? with
      | none => exact ih hw hone hoff
      | some p =>
          dsimp only
          have hone' : ∀ u, BalarPort.owed w.host p.2 u ≤ 1 := fun u =>
            (portOwed_le hk u).trans (hone u)
          -- A vCPU with an armed doorbell is owed a response, so it has a link.
          have hlink : ∀ u a, p.2.armedDoorbells u = some a → c.hasMmio u = true := by
            intro u a ha
            by_contra hne
            have hzero := hoff u (by simpa using hne)
            have hle := portOwed_le hk u
            simp [BalarPort.owed, ha] at hle
            omega
          have hmoved := process_moved p.1 drained (order k) hw.ok (hw.ports.inv k p hk) hone'
          cases hres : process p.1 drained (order k) w.host p.2 with
          | error e =>
              rw [hres] at hmoved
              exact hmoved
          | ok res =>
              obtain ⟨h', s'⟩ := res
              rw [hres] at hmoved
              have hmoved : Moved w.host h' s' fun u =>
                BalarPort.owed w.host p.2 u + w.host.posted u := hmoved
              have hreg := process_registers drained (order k) hw.ok (hw.ports.inv k p hk) hone'
                hlink hres
              have hturn : Turned c ids w _ fun _ => 0 :=
                hw.portTurn hk hmoved.grows.turns hmoved hreg rfl rfl
              obtain ⟨ρ', hw'⟩ := hturn.parts
              have hrest := ih hw' (fun u => (hturn.owed_le rfl).trans (hone u)) fun u hu =>
                Nat.le_zero.mp ((hturn.owed_le rfl).trans (hoff u hu).le)
              revert hrest
              dsimp only
              cases QuetzCpu.processPorts drained order ks _ with
              | error e => exact fun he => he
              | ok w' => exact fun hrest => hturn.trans hrest

/-- A reset of the window cache. -/
theorem Parts.pollReset (hw : Parts c ids ρ w) :
    match QuetzCpu.pollReset c v w with
    | .ok w' => Turned c ids w w' (fun _ => 0) ∧ ∀ u, w'.owed u = w.owed u
    | .error e => ¬e.Nested := by
  rw [QuetzCpu.pollReset]
  by_cases hepoch : c.sstWindowCache = true ∧ w.cpuResetEpoch v ≠ w.cacheResetEpochs v
  · rw [if_pos hepoch, resetCore]
    cases hst : w.bank.states[v]? with
    | none => exact fun hn => hn
    | some st =>
        dsimp only
        by_cases hbusy : st.outstanding = true ∨ st.cache.active = true
        · rw [if_pos hbusy]
          exact fun hn => hn
        rw [if_neg hbusy, onCache, hst]
        obtain ⟨hout, hact⟩ := not_or.mp hbusy
        simp only [Bool.not_eq_true] at hout hact
        dsimp only
        cases hreset : st.cache.reset with
        | error e => exact fun hn => hn
        | ok d =>
            have hd : d.active = false := by
              rw [WindowDataCache.reset, hact] at hreset
              cases hreset
              rfl
            have hinv :=
              hw.cache.inv.setCache hst hout ((hw.cache.inv.caches v st hst).reset hreset)
            have howed : ∀ u, cacheOwed (w.bank.setState v { st with cache := d }) u =
                cacheOwed w.bank u := fun u => by
              by_cases huv : u = v
              · rw [huv, cacheOwed, cacheOwed, setState_self hst, hst]
                simp [hact, hd]
              · rw [cacheOwed, cacheOwed, setState_of_ne _ huv]
            refine ⟨⟨⟨ρ, hw.ok, ⟨hinv, fun u st' hst' => ?_, hw.cache.flying, hw.cache.kept⟩,
              hw.generic, hw.ports, hw.core⟩, fun u => ?_, fun _ => Nat.le_refl _, rfl, rfl⟩,
              fun u => ?_⟩
            · rcases setState_cases hst hst' with ⟨-, rfl⟩ | ⟨-, hst'⟩
              · exact hd.trans hout.symm
              · exact hw.cache.idle u st' hst'
            · simp only [owed, howed u]
              rfl
            · simp only [owed, howed u]
  · rw [if_neg hepoch]
    exact ⟨Turned.refl hw, fun _ => rfl⟩

/-! ### Responses -/

variable {i : ℕ} {r : Request}

theorem complete_error_ne {b d : WindowCacheBank} {id : ℕ} {read : Bool} {bytes : List UInt8}
    {e : Exn} (he : b.complete id v read bytes = .error e d) : e ≠ WindowDataCache.overlapping := by
  rintro rfl
  rw [WindowCacheBank.complete] at he
  split_ifs at he
  · simp [WindowDataCache.overlapping] at he
  · cases hst : b.states[v]? with
    | none =>
        rw [hst] at he
        simp [rangeError, WindowDataCache.overlapping] at he
    | some st =>
        simp only [hst] at he
        cases hc : st.cache.complete bytes with
        | error e =>
            simp only [hc, EStateM.Result.error.injEq] at he
            rw [he.1] at hc
            exact WindowDataCache.complete_ne_overlapping _ hc
        | ok d => simp [hc] at he

/-- The answer to a request of a window cache. -/
theorem Parts.completeCacheResponse (hw : Parts c ids ρ w) (hi : w.host.inFlight[i]? = some r)
    (hlink : c.hasMmio r.vcpu = true) {p : BankPending}
    (hp : w.bank.pending.lookup r.id = some p) (resp : Response) (fail : Bool) :
    match QuetzCpu.completeCacheResponse r.vcpu r.id resp fail p
      { w with host := w.host.take i } with
    | .ok w' => Turned c ids w w' fun _ => 0
    | .error e => ¬e.Nested := by
  have hmem := List.mem_of_getElem? hi
  have hrole : ρ r.id = .cache ∧ r.vcpu = p.vcpu :=
    hw.cache.kept.role hmem (by rw [bankHolder, hp]; rfl)
  rw [QuetzCpu.completeCacheResponse]
  by_cases hbad : unfitResponse r.vcpu p resp fail = true
  · rw [if_pos hbad]
    exact fun hn => hn
  rw [if_neg hbad]
  dsimp only
  generalize isReadResp resp = read
  generalize respData resp = bytes
  cases hcomp : w.bank.complete r.id p.vcpu read bytes with
  | error e d => exact complete_error_ne hcomp
  | ok _ bank =>
      rw [WindowCacheBank.complete] at hcomp
      by_cases hread : w.bank.pending.lookup r.id ≠ some ⟨p.vcpu, read⟩
      · rw [if_pos hread] at hcomp
        cases hcomp
      rw [if_neg hread] at hcomp
      have hread : w.bank.pending.lookup r.id = some ⟨p.vcpu, read⟩ := not_not.mp hread
      cases hst : w.bank.states[p.vcpu]? with
      | none =>
          rw [hst] at hcomp
          cases hcomp
      | some st =>
          simp only [hst] at hcomp
          cases hc : st.cache.complete bytes with
          | error e =>
              rw [hc] at hcomp
              cases hcomp
          | ok d =>
              simp only [hc] at hcomp
              cases hcomp
              obtain ⟨hact, hkind⟩ := WindowDataCache.complete_ok hc
              have hd := (hw.cache.inv.caches _ st hst).complete hc
              have hbank := hw.cache.inv.erase hst hread hd
              have hact' : d.active = true := hkind.kind.1.trans hact
              have hlook : ∀ id, id ≠ r.id →
                  (w.bank.pending.erase r.id).lookup id = w.bank.pending.lookup id :=
                fun id hid => AList.lookup_erase_ne hid
              have hself : (w.bank.pending.erase r.id).lookup r.id = none := AList.lookup_erase ..
              have hfresh : w.host.nextId ∉ w.bank.pending.erase r.id := by
                refine AList.lookup_eq_none.mp ?_
                have hlt := hw.ok.fresh r hmem
                rw [hlook _ (by omega)]
                exact lookup_of_ge hw.ok hw.cache.flying (Nat.le_refl _)
              have hst₁ := @setState_self { w.bank with pending := w.bank.pending.erase r.id }
                p.vcpu st { cache := d, outstanding := false } hst
              have hservice := serviceWindowCache_serviced p.vcpu serviceRounds
                (w := { w with
                  bank := setState { w.bank with pending := w.bank.pending.erase r.id } p.vcpu
                    { cache := d, outstanding := false }
                  host := w.host.take i }) hbank hst₁ hact' hkind.kind.2.2 rfl hfresh
                (WindowDataCache.rounds_lt_serviceRounds hd hact')
              revert hservice
              dsimp only
              cases serviceWindowCache p.vcpu serviceRounds _ with
              | error e => exact fun he => he
              | ok w' =>
                  intro hs
                  have hothers : ∀ u, u ≠ p.vcpu →
                      (setState { w.bank with pending := w.bank.pending.erase r.id } p.vcpu
                        { cache := d, outstanding := false }).states[u]? = w.bank.states[u]? :=
                    fun u huv => setState_of_ne _ huv
                  refine hw.cacheTurn hs (hw.ok.take i)
                    (hw.ok.turns_take hi hrole.1 (Host.Grows.refl _)) rfl rfl
                    (fun u st' huv hst' => ?_) (fun id p' hp' => ?_) (fun r' hr' => ?_) hothers
                    (hrole.2 ▸ hlink) fun u => ?_
                  · rw [hothers u huv] at hst'
                    exact hw.cache.idle u st' hst'
                  · have hid : id ≠ r.id := by
                      rintro rfl
                      rw [setState_pending, hself] at hp'
                      cases hp'
                    rw [setState_pending, hlook id hid] at hp'
                    obtain ⟨r', hr', rfl⟩ := hw.cache.flying id p' hp'
                    rcases List.mem_cons.mp ((hw.ok.taken hi).1.mem_iff.mpr hr') with rfl | hr'
                    · exact absurd rfl hid
                    · exact ⟨r', hr', rfl⟩
                  · rw [bankHolder, setState_pending, hlook r'.id ((hw.ok.taken hi).2 r' hr')]
                    exact hw.cache.kept r' (List.mem_of_mem_eraseIdx hr')
                  · by_cases huv : u = p.vcpu
                    · rw [huv, cacheOwed, hst]
                      simp [hact]
                    · simp [huv]

/-- A response that no port keeps passes all ports. -/
theorem offerPorts_of_not_held {id : ℕ} (resp : Response) (h : Host) :
    ∀ {ports : List (BalarConfig × BalarPort)},
    (∀ (j : ℕ) (q : BalarConfig × BalarPort), ports[j]? = some q → q.2.holder id = none) →
    offerPorts id resp h ports = .ok none
  | [], _ => rfl
  | p :: ps, hnone => by
    rw [offerPorts, handleResponse_of_not_held resp (hnone 0 p rfl),
      offerPorts_of_not_held resp h fun j q hj => hnone (j + 1) q hj]

/-- A response goes to the port that keeps the request. -/
theorem offerPorts_of_held {id : ℕ} (resp : Response) (h : Host) :
    ∀ {ports : List (BalarConfig × BalarPort)} {k : ℕ} {p : BalarConfig × BalarPort} {v : ℕ},
    ports[k]? = some p → p.2.holder id = some v →
    (∀ (j : ℕ) (q : BalarConfig × BalarPort), ports[j]? = some q → j ≠ k →
      q.2.holder id = none) →
    offerPorts id resp h ports = (handleResponse id resp h p.2).map
      (Option.map fun res => (res.1, ports.set k (p.1, res.2)))
  | [], _, _, _, hk, _, _ => by simp at hk
  | a :: ps, 0, p, v, hk, hheld, _ => by
    obtain rfl : a = p := by simpa using hk
    have hsome : handleResponse id resp h a.2 ≠ .ok none := handleResponse_of_held hheld
    rw [offerPorts]
    cases hres : handleResponse id resp h a.2 with
    | error e => rfl
    | ok res =>
        cases res with
        | none => exact absurd hres hsome
        | some res => rfl
  | a :: ps, k + 1, p, v, hk, hheld, hnone => by
    have hk : ps[k]? = some p := hk
    have ih := offerPorts_of_held resp h hk hheld fun j q hj hjk =>
      hnone (j + 1) q hj (by omega)
    rw [offerPorts, handleResponse_of_not_held resp (hnone 0 a rfl (by omega)), ih]
    cases handleResponse id resp h p.2 with
    | error e => rfl
    | ok res => cases res <;> rfl

/-- The answer to a plain access. -/
theorem Parts.genericAnswer (hw : Parts c ids ρ w) (hi : w.host.inFlight[i]? = some r)
    {g : GenericPending} (hg : w.genericPending r.id = some g) (value : UInt64) :
    Turned c ids w { w with
      genericPending := Function.update w.genericPending r.id none
      host := (w.host.take i).postResponse g.vcpu value } fun _ => 0 := by
  have hmine : ρ r.id = .generic :=
    (hw.generic.kept.role (List.mem_of_getElem? hi) (by rw [genericHolder, hg]; rfl)).1
  have ht : w.host.Turns (ρ · = .generic) ((w.host.take i).postResponse g.vcpu value) :=
    hw.ok.turns_take hi hmine (Host.Grows.post ..)
  obtain ⟨hgen, hgowed⟩ := hw.generic.answer hw.ok hi hg value
  obtain ⟨hports, hpowed⟩ := hw.ports.turns hw.ok ht (by simp)
  refine ⟨⟨_, (hw.ok.take i).post _ _, hw.cache.turns hw.ok ht (by simp), hgen, hports,
    hw.core.turns hw.ok ht (by simp) ?_⟩, fun u => ?_, fun u => ?_, rfl, rfl⟩
  · exact no_new (P := fun r => c.hasMmio r.vcpu = true) (hw.ok.take i)
  · have hgu := hgowed u
    simp only [owed, hpowed u, Host.posted_postResponse, Host.posted_take]
    omega
  · rw [Host.posted_postResponse, Host.posted_take]
    exact Nat.le_add_right _ _

/-- The answer to a request of a pipeline. -/
theorem Parts.coreTake (hw : Parts c ids ρ w) (hi : w.host.inFlight[i]? = some r)
    (hrole : ρ r.id = .core) :
    Turned c ids w { w with host := w.host.take i } fun _ => 0 := by
  have ht : w.host.Turns (ρ · = .core) (w.host.take i) :=
    hw.ok.turns_take hi hrole (Host.Grows.refl _)
  obtain ⟨hgen, hgowed⟩ := hw.generic.turns hw.ok ht (by simp)
  obtain ⟨hports, hpowed⟩ := hw.ports.turns hw.ok ht (by simp)
  have hsame : ∀ r' ∈ (w.host.take i).inFlight,
      Role.extend ρ w.host.nextId .core r'.id = ρ r'.id := fun r' hr' =>
    Role.extend_of_lt ((hw.ok.take i).fresh r' hr')
  refine ⟨⟨_, hw.ok.take i, hw.cache.turns hw.ok ht (by simp), hgen, hports,
    fun r' hr' => ?_, hw.core.fresh, fun r' hr' hne => ?_⟩, fun u => ?_, fun u => Nat.le_refl _,
    rfl, rfl⟩
  · rw [hsame r' hr']
    exact hw.core.own r' (List.mem_of_mem_eraseIdx hr')
  · rw [hsame r' hr'] at hne
    exact hw.core.linked r' (List.mem_of_mem_eraseIdx hr') hne
  · simp only [owed, hgowed u, hpowed u, Host.posted_take]
    rfl

/-- A request of a pipeline. -/
theorem Parts.coreSend (hw : Parts c ids ρ w) (vcpu : ℕ) (link : Link) (body : Body) :
    Turned c (ids ++ [w.host.nextId]) w { w with host := w.host.send vcpu link body }
      fun _ => 0 := by
  have ht : w.host.Turns (ρ · = .core) (w.host.send vcpu link body) := (Host.Grows.send ..).turns
  obtain ⟨hgen, hgowed⟩ := hw.generic.turns hw.ok ht (by simp)
  obtain ⟨hports, hpowed⟩ := hw.ports.turns hw.ok ht (by simp)
  refine ⟨⟨_, hw.ok.send _ _ _, hw.cache.turns hw.ok ht (by simp), hgen, hports,
    fun r hr => ?_, fun id hid => ?_, fun r hr hne => ?_⟩, fun u => ?_, fun u => Nat.le_refl _,
    rfl, rfl⟩
  · rcases List.mem_append.mp hr with hr | hr
    · have hlt := hw.ok.fresh r hr
      rw [Role.extend_of_lt hlt, hw.core.own r hr, List.mem_append, List.mem_singleton]
      exact ⟨Or.inl, fun hmem => hmem.resolve_right (Nat.ne_of_lt hlt)⟩
    · rw [List.mem_singleton.mp hr, Role.extend_of_ge (Nat.le_refl _)]
      simp
  · rcases List.mem_append.mp hid with hid | hid
    · exact Nat.lt_succ_of_lt (hw.core.fresh id hid)
    · rw [List.mem_singleton.mp hid]
      exact Nat.lt_succ_self _
  · rcases List.mem_append.mp hr with hr | hr
    · rw [Role.extend_of_lt (hw.ok.fresh r hr)] at hne
      exact hw.core.linked r hr hne
    · rw [List.mem_singleton.mp hr, Role.extend_of_ge (Nat.le_refl _)] at hne
      exact absurd rfl hne
  · simp only [owed, hgowed u, hpowed u, Host.posted_send]
    rfl

/-- The answer to any request on the links of a vCPU with an mmio link. -/
theorem Parts.completeMmioSyncResponse (hw : Parts c ids ρ w)
    (hi : w.host.inFlight[i]? = some r) (hlink : c.hasMmio r.vcpu = true) (data : List UInt8)
    (fail : Bool) :
    match QuetzCpu.completeMmioSyncResponse r.vcpu r.id (r.body.response data) fail
      { w with host := w.host.take i } with
    | .ok (some w') => Turned c ids w w' fun _ => 0
    | .ok none => ρ r.id = .core
    | .error e => ¬e.Nested := by
  have hmem := List.mem_of_getElem? hi
  rw [QuetzCpu.completeMmioSyncResponse]
  dsimp only
  cases hp : w.bank.pending.lookup r.id with
  | some p =>
      have hres := hw.completeCacheResponse hi hlink hp (r.body.response data) fail
      revert hres
      dsimp only
      cases QuetzCpu.completeCacheResponse r.vcpu r.id (r.body.response data) fail p _ with
      | error e => exact fun he => he
      | ok w' => exact fun hres => hres
  | none =>
      have hcache : ρ r.id ≠ .cache := fun hρ => by
        have hkept := hw.cache.kept r hmem
        rw [bankHolder, hp, if_pos hρ] at hkept
        cases hkept
      dsimp only
      by_cases hport : ∃ k, ρ r.id = .port k
      · obtain ⟨k, hρ⟩ := hport
        have hlt := hw.ports.bound r hmem k hρ
        have hk : w.ports[k]? = some w.ports[k] := List.getElem?_eq_getElem hlt
        have hheld : w.ports[k].2.holder r.id = some r.vcpu := by
          rw [hw.ports.kept k _ hk r hmem, if_pos hρ]
        have hothers : ∀ j q, w.ports[j]? = some q → j ≠ k → q.2.holder r.id = none := by
          intro j q hj hjk
          exact (hw.ports.kept j q hj).none_of_ne hmem fun heq =>
            hjk (Role.port.inj (hρ.symm.trans heq)).symm
        rw [offerPorts_of_held _ _ hk hheld hothers]
        have hmoved := handleResponse_moved hw.ok (hw.ports.inv k _ hk) hi data
        have hsome : handleResponse r.id (r.body.response data) (w.host.take i) w.ports[k].2 ≠
          .ok none := handleResponse_of_held hheld
        cases hres : handleResponse r.id (r.body.response data) (w.host.take i)
            w.ports[k].2 with
        | error e =>
            rw [hres] at hmoved
            exact hmoved
        | ok res =>
            cases res with
            | none => exact absurd hres hsome
            | some res =>
                obtain ⟨h', s'⟩ := res
                rw [hres] at hmoved
                have hmoved : Moved (w.host.take i) h' s' fun u =>
                  BalarPort.owed w.host w.ports[k].2 u + w.host.posted u := hmoved
                have hreg := handleResponse_registers (P := fun u => c.hasMmio u = true) hw.ok
                  (hw.ports.inv k _ hk) hi
                  (fun u hu => by rw [← Option.some.inj (hheld.symm.trans hu)]; exact hlink) hres
                have hturn : Turned c ids w _ fun _ => 0 :=
                  hw.portTurn hk (hw.ok.turns_take hi hρ hmoved.grows) hmoved hreg rfl rfl
                exact hturn
      · rw [offerPorts_of_not_held _ _ fun j q hj =>
          (hw.ports.kept j q hj).none_of_ne hmem fun heq => hport ⟨j, heq⟩]
        dsimp only
        cases hg : w.genericPending r.id with
        | some g => exact hw.genericAnswer hi hg _
        | none =>
            have hgeneric : ρ r.id ≠ .generic := fun hρ => by
              have hkept := hw.generic.kept r hmem
              rw [genericHolder, hg, if_pos hρ] at hkept
              cases hkept
            show ρ r.id = .core
            cases hρ : ρ r.id with
            | core => rfl
            | cache => exact absurd hρ hcache
            | port k => exact absurd ⟨k, hρ⟩ hport
            | generic => exact absurd hρ hgeneric

end Steps

end QuetzCpu

end Quetz
