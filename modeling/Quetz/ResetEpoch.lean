import Quetz.MmioRun

/-!
# Reset Epochs and the Mailbox

A board resets vCPU `v` by storing a new `cpu_reset_epoch[v]` (`quetz_ipc_cpu_reset`); the poll
of the CPU (`pollMmioSyncMailbox`) compares the epoch with the last one it handled and clears the
controls of the vCPU's window cache. The epoch and the mailbox slot are two separate loads, the
epoch first, and the guest runs between them.

A reset whose epoch is stored between the two loads, followed by a request of the same vCPU, is
missed by that poll: the request is served with the controls from before the reset
(`missed_reset`). If no request is published there, and the 32-bit epoch has not come back to an
old value, every request is served after the resets that came before it.

## Main results

* `serviceWindowCache_untouched`: serving a transaction changes no control register.
* `loads_eq_pollVcpus`: the loads, without anything between them, are one poll.
* `ResetWorld.Inv.step`: every event in time keeps the order of resets and requests.
* `ResetWorld.requests_after_resets`: resets are seen before later requests.
-/

namespace Quetz

open WindowDataCache WindowCacheBank

/-! ### The control registers -/

namespace WindowDataCache

variable {c d : WindowDataCache}

/-- The second cache has the control registers of the first. -/
def KeepsControls (c d : WindowDataCache) : Prop := d.cacr = c.cacr ∧ d.acr = c.acr

/-- The passes of an access do not touch the control registers. -/
theorem nextAccess_controls (n : ℕ) : ∀ c, KeepsControls c (nextAccess n c).1 := by
  induction n with
  | zero => exact fun c => ⟨rfl, rfl⟩
  | succ n ih =>
      intro c
      rw [nextAccess]
      by_cases ho : c.offset < c.count
      · rw [if_pos ho]
        have hspec := pass_spec c.aim
        cases hp : c.aim.pass with
        | inl r =>
            rw [hp] at hspec
            cases hspec <;> exact ⟨rfl, rfl⟩
        | inr d =>
            rw [hp] at hspec
            have hd : KeepsControls c d := by cases hspec <;> exact ⟨rfl, rfl⟩
            obtain ⟨hcacr, hacr⟩ := ih d
            exact ⟨hcacr.trans hd.1, hacr.trans hd.2⟩
      · rw [if_neg ho]
        exact ⟨rfl, rfl⟩

/-- Neither does `next`, for an access or a push. -/
theorem next_controls {a : Action} (h : c.next = .ok (d, a)) : KeepsControls c d := by
  obtain ⟨-, -, heq⟩ := next_eq_ok.mp h
  by_cases hpush : c.pushing = true
  · rw [if_pos hpush, nextPush] at heq
    dsimp only at heq
    split_ifs at heq
    all_goals
      obtain ⟨rfl, -⟩ := Prod.mk.inj heq
      exact ⟨rfl, rfl⟩
  · rw [if_neg hpush] at heq
    obtain ⟨rfl, -⟩ := Prod.ext_iff.mp heq
    exact nextAccess_controls _ c

/-- Neither does an answer. -/
theorem complete_controls {bs : List UInt8} (h : c.complete bs = .ok d) : KeepsControls c d := by
  cases (complete_ok h).2 <;> exact ⟨rfl, rfl⟩

/-- Adding a region does not either. -/
theorem addRegion_controls {base size : ℕ} (h : c.addRegion base size = .ok d) :
    KeepsControls c d := by
  obtain ⟨-, rfl⟩ := addRegion_ok h
  exact ⟨rfl, rfl⟩

end WindowDataCache

namespace WindowCacheBank

variable {b b' : WindowCacheBank} {u v : ℕ} {st : BankState}

/-- The control registers of a vCPU. -/
def controlsOf (b : WindowCacheBank) (v : ℕ) : Option (BitVec 32 × (Fin 4 → BitVec 32)) :=
  (b.states[v]?).map fun st => (st.cache.cacr, st.cache.acr)

/-- CACR and all ACRs of the vCPU are zero. -/
def Cleared (b : WindowCacheBank) (v : ℕ) : Prop :=
  ∀ st, b.states[v]? = some st → st.cache.cacr = 0 ∧ ∀ i, st.cache.acr i = 0

/-- The registers decide. -/
theorem Cleared.congr (h : Cleared b v) (heq : b'.controlsOf v = b.controlsOf v) :
    Cleared b' v := by
  intro st' hst'
  rw [controlsOf, controlsOf, hst', Option.map_some, eq_comm, Option.map_eq_some_iff] at heq
  obtain ⟨st, hst, heq⟩ := heq
  obtain ⟨hcacr, hacr⟩ := Prod.mk.inj heq
  rw [← hcacr, ← hacr]
  exact h st hst

/-- A state with the same registers is put in place. -/
theorem setState_controlsOf {st' : BankState} (hst : b.states[v]? = some st)
    (h : KeepsControls st.cache st'.cache) : (b.setState v st').controlsOf = b.controlsOf := by
  funext u
  rw [controlsOf, controlsOf]
  by_cases huv : u = v
  · subst huv
    rw [setState_self hst, hst, Option.map_some, Option.map_some, h.1, h.2]
  · rw [setState_of_ne _ huv]

/-- The state of another CPU is replaced. -/
theorem setState_controlsOf_of_ne (st : BankState) (huv : u ≠ v) :
    (b.setState v st).controlsOf u = b.controlsOf u := by
  rw [controlsOf, controlsOf, setState_of_ne _ huv]

/-- A call on one cache that returned. -/
theorem onCache_eq_ok {f : WindowDataCache → Except Exn WindowDataCache}
    (h : b.onCache v f = .ok () b') : ∃ st c, b.states[v]? = some st ∧ f st.cache = .ok c ∧
      b' = b.setState v { st with cache := c } := by
  rw [onCache] at h
  cases hst : b.states[v]? with
  | none =>
      rw [hst] at h
      cases h
  | some st =>
      simp only [hst] at h
      cases hf : f st.cache with
      | error e =>
          rw [hf] at h
          cases h
      | ok c =>
          rw [hf] at h
          cases h
          exact ⟨st, c, rfl, hf, rfl⟩

/-- A cache takes its data. -/
theorem onCache_complete_controls {bs : List UInt8}
    (h : b.onCache v (fun cache => cache.complete bs) = .ok () b') :
    b'.controlsOf = b.controlsOf := by
  obtain ⟨st, c, hst, hc, rfl⟩ := onCache_eq_ok h
  exact setState_controlsOf hst (complete_controls hc)

/-- A request is entered. -/
theorem issued_controls {id : ℕ} {read : Bool} (h : b.issued v id read = .ok () b') :
    b'.controlsOf = b.controlsOf := by
  rw [issued] at h
  cases hst : b.states[v]? with
  | none =>
      rw [hst] at h
      cases h
  | some st =>
      simp only [hst] at h
      split_ifs at h
      cases h
      exact setState_controlsOf (b := { b with pending := _ }) hst ⟨rfl, rfl⟩

/-- A request is answered. -/
theorem complete_controlsOf {id : ℕ} {read : Bool} {bs : List UInt8}
    (h : b.complete id v read bs = .ok () b') : b'.controlsOf = b.controlsOf := by
  rw [complete] at h
  by_cases hid : b.pending.lookup id = some ⟨v, read⟩
  · rw [if_neg (not_not.mpr hid)] at h
    cases hst : b.states[v]? with
    | none =>
        rw [hst] at h
        cases h
    | some st =>
        simp only [hst] at h
        cases hc : st.cache.complete bs with
        | error e =>
            rw [hc] at h
            cases h
        | ok c =>
            rw [hc] at h
            cases h
            exact setState_controlsOf (b := { b with pending := _ }) hst (complete_controls hc)
  · rw [if_pos hid] at h
    cases h

/-- A reset that returned clears the controls of its vCPU and of no other. -/
theorem resetCore_eq_ok (h : b.resetCore v = .ok () b') :
    Cleared b' v ∧ ∀ u, u ≠ v → b'.controlsOf u = b.controlsOf u := by
  rw [resetCore] at h
  cases hst : b.states[v]? with
  | none =>
      rw [hst] at h
      cases h
  | some st =>
      simp only [hst] at h
      split_ifs at h
      obtain ⟨st', c, hst', hc, rfl⟩ := onCache_eq_ok h
      rw [WindowDataCache.reset] at hc
      split_ifs at hc
      cases hc
      refine ⟨fun st'' hst'' => ?_, fun u hu => setState_controlsOf_of_ne _ hu⟩
      rw [setState_self hst'] at hst''
      cases hst''
      exact ⟨rfl, fun _ => rfl⟩

/-- The loop of `addRegion`, by induction on the CPUs still to come. -/
theorem addRegionFrom_controls {base size : ℕ} (n : ℕ) : ∀ {v : ℕ} {b b' : WindowCacheBank},
    addRegionFrom base size n v b = .ok () b' → b'.controlsOf = b.controlsOf := by
  induction n with
  | zero =>
      intro v b b' h
      cases h
      rfl
  | succ n ih =>
      intro v b b' h
      rw [addRegionFrom] at h
      cases hst : b.states[v]? with
      | none =>
          rw [hst] at h
          cases h
          rfl
      | some st =>
          simp only [hst] at h
          cases hc : st.cache.addRegion base size with
          | error e =>
              rw [hc] at h
              cases h
          | ok c =>
              rw [hc] at h
              exact (ih h).trans (setState_controlsOf hst (addRegion_controls hc))

/-- Configuration leaves all controls zero. -/
theorem Configured.cleared (h : Configured b) (v : ℕ) : Cleared b v := by
  induction h with
  | configure cores base size h =>
      rw [WindowCacheBank.configure] at h
      split_ifs at h
      cases hc : WindowDataCache.configure {} base size with
      | error e =>
          rw [hc] at h
          cases h
      | ok c =>
          rw [hc] at h
          cases h
          obtain ⟨hcacr, hacr⟩ := addRegion_controls (WindowDataCache.configure_ok hc)
          intro st hst
          rw [List.eq_of_mem_replicate (List.mem_of_getElem? hst)]
          exact ⟨hcacr, congrFun hacr⟩
  | addRegion hb h ih =>
      rw [WindowCacheBank.addRegion] at h
      split_ifs at h
      exact ih.congr (congrFun (addRegionFrom_controls _ h) v)

end WindowCacheBank

namespace QuetzCpu

variable {c : CpuConfig} {w w₁ w' : QuetzCpu} {u v : ℕ}

/-- Only the controls of the vCPUs in `touched` may differ, and neither the mailbox nor an epoch
does. -/
structure Untouched (touched : Set ℕ) (w w' : QuetzCpu) : Prop where
  mailbox : w'.mailbox = w.mailbox
  epoch : w'.cpuResetEpoch = w.cpuResetEpoch
  cached : w'.cacheResetEpochs = w.cacheResetEpochs
  controls : ∀ u, u ∉ touched → w'.bank.controlsOf u = w.bank.controlsOf u

/-- Nothing happened. -/
theorem Untouched.refl (touched : Set ℕ) (w : QuetzCpu) : Untouched touched w w :=
  ⟨rfl, rfl, rfl, fun _ _ => rfl⟩

/-- More vCPUs may be allowed to change. -/
theorem Untouched.mono {touched : Set ℕ} (h : Untouched ∅ w w') : Untouched touched w w' :=
  ⟨h.mailbox, h.epoch, h.cached, fun u _ => h.controls u (Set.notMem_empty u)⟩

/-- Two changes, one after the other. -/
theorem Untouched.after {touched : Set ℕ} (h₂ : Untouched touched w₁ w')
    (h₁ : Untouched touched w w₁) : Untouched touched w w' :=
  ⟨h₂.mailbox.trans h₁.mailbox, h₂.epoch.trans h₁.epoch, h₂.cached.trans h₁.cached,
    fun u hu => (h₂.controls u hu).trans (h₁.controls u hu)⟩

/-- Servicing a transaction changes no control register. -/
theorem serviceWindowCache_untouched (n : ℕ) : ∀ {w : QuetzCpu},
    serviceWindowCache v n w = .ok w' → Untouched ∅ w w' := by
  induction n with
  | zero =>
      intro w h
      cases h
  | succ n ih =>
      intro w h
      rw [serviceWindowCache] at h
      cases hst : w.bank.states[v]? with
      | none =>
          rw [hst] at h
          cases h
      | some st =>
          simp only [hst] at h
          cases hnext : st.cache.next with
          | error e =>
              rw [hnext] at h
              cases h
          | ok r =>
              obtain ⟨cache, action⟩ := r
              simp only [hnext] at h
              have hone : (w.bank.setState v { st with cache := cache }).controlsOf =
                  w.bank.controlsOf := setState_controlsOf hst (next_controls hnext)
              by_cases hdone : action.kind = .done
              · rw [if_pos hdone] at h
                cases h
                exact ⟨rfl, rfl, rfl, fun u _ => congrFun hone u⟩
              rw [if_neg hdone] at h
              cases hnative : nativeAccess w.native action with
              | error e =>
                  rw [hnative] at h
                  cases h
              | ok res =>
                  rw [hnative] at h
                  rcases res with - | ⟨bytes, native⟩
                  · dsimp only at h
                    cases hiss : (w.bank.setState v { st with cache := cache }).issued v
                        w.host.nextId (action.kind = .read) with
                    | error e b =>
                        rw [hiss] at h
                        cases h
                    | ok r b =>
                        rw [hiss] at h
                        cases h
                        exact ⟨rfl, rfl, rfl,
                          fun u _ => congrFun ((issued_controls hiss).trans hone) u⟩
                  · dsimp only at h
                    cases hcomp : (w.bank.setState v { st with cache := cache }).onCache v
                        fun cache => cache.complete bytes with
                    | error e b =>
                        rw [hcomp] at h
                        cases h
                    | ok r b =>
                        rw [hcomp] at h
                        refine (ih h).after ⟨rfl, rfl, rfl, fun u _ => ?_⟩
                        exact congrFun ((onCache_complete_controls hcomp).trans hone) u

/-- A command touches the controls of its own vCPU only. -/
theorem handleMmioSyncCommand_untouched {cmd : QuetzCommand}
    (h : handleMmioSyncCommand c v cmd w = .ok w') : Untouched {v} w w' := by
  rw [handleMmioSyncCommand] at h
  split_ifs at h
  · rw [handleCacheCommand] at h
    split_ifs at h
    split at h
    · cases h
    next f hf =>
      split at h
      · cases h
      next bank hbank =>
        obtain ⟨st, d, hst, -, rfl⟩ := onCache_eq_ok hbank
        refine (serviceWindowCache_untouched _ h).mono.after ⟨rfl, rfl, rfl, fun u hu => ?_⟩
        exact setState_controlsOf_of_ne _ hu
  · cases h
    exact ⟨rfl, rfl, rfl, fun _ _ => rfl⟩
  · split at h
    · split at h
      · cases h
        exact .refl _ _
      · split at h
        · cases h
        · cases h
          exact ⟨rfl, rfl, rfl, fun _ _ => rfl⟩
    · split at h
      all_goals
        cases h
        exact ⟨rfl, rfl, rfl, fun _ _ => rfl⟩

/-- The ports touch no cache. -/
theorem processPorts_untouched {drained : ℕ → Bool} {order : ℕ → List ℕ} (ks : List ℕ) :
    ∀ {w : QuetzCpu}, processPorts drained order ks w = .ok w' → Untouched ∅ w w' := by
  induction ks with
  | nil =>
      intro w h
      cases h
      exact .refl _ _
  | cons k ks ih =>
      intro w h
      rw [processPorts] at h
      split at h
      · exact ih h
      · split at h
        · cases h
        · exact (ih h).after ⟨rfl, rfl, rfl, fun _ _ => rfl⟩

/-- A response may go on with a transaction, but no transaction changes a control. -/
theorem completeMmioSyncResponse_untouched {hint id : ℕ} {resp : Response} {fail : Bool}
    (h : completeMmioSyncResponse hint id resp fail w = .ok (some w')) : Untouched ∅ w w' := by
  rw [completeMmioSyncResponse] at h
  split at h
  next p hp =>
    cases hc : completeCacheResponse hint id resp fail p w with
    | error e =>
        rw [hc] at h
        cases h
    | ok w₁ =>
        rw [hc] at h
        cases h
        rw [completeCacheResponse] at hc
        split_ifs at hc
        split at hc
        · cases hc
        next bank hbank =>
          refine (serviceWindowCache_untouched _ hc).after ⟨rfl, rfl, rfl, fun u _ => ?_⟩
          exact congrFun (complete_controlsOf hbank) u
  · split at h
    · cases h
    · cases h
      exact ⟨rfl, rfl, rfl, fun _ _ => rfl⟩
    · split at h
      · cases h
      · cases h
        exact ⟨rfl, rfl, rfl, fun _ _ => rfl⟩

end QuetzCpu

/-! ### Resets and requests -/

/-- The two loads of the poll of a vCPU. -/
inductive Poller where
  | idle
  | atEpoch (vcpu : ℕ)
  | atPending (vcpu : ℕ)
deriving DecidableEq, Repr

/-- A request the poll took from the mailbox. -/
structure Served where
  vcpu : ℕ
  /-- The resets of the vCPU before the request was published. -/
  published : ℕ
  /-- The resets of the vCPU that `resetCore` had run for when the request was served. -/
  handled : ℕ
  /-- It is the vCPU's first request since its last reset. -/
  first : Bool
  /-- The window caches when the request was served. -/
  bank : WindowCacheBank

/-- The CPU and its guests, with a count of resets and of requests. -/
structure ResetWorld where
  world : CpuWorld := {}
  poller : Poller := .idle
  resets : ℕ → ℕ := fun _ => 0
  handled : ℕ → ℕ := fun _ => 0
  /-- The resets before the request that waits in the mailbox. -/
  published : ℕ → ℕ := fun _ => 0
  /-- The requests since the last reset. -/
  since : ℕ → ℕ := fun _ => 0
  served : List Served := []

/-- What can happen next; `load` is the next load of the poll. -/
inductive ResetEvent where
  | publish (vcpu : ℕ) (req : MmioSyncRequest)
  | reset (vcpu : ℕ)
  | poll
  | load
  | other (e : CpuEvent)

namespace QuetzCpu

/-- The part of a poll after the load of the epoch. -/
def pollPending (c : CpuConfig) (vcpu : ℕ) (w : QuetzCpu) : Except CpuFatal QuetzCpu :=
  match w.mailbox vcpu with
  | none => .ok w
  | some req => handleMmioSyncCommand c vcpu (commandOf c w req)
      { w with
        mailbox := Function.update w.mailbox vcpu none
        taken := Function.update w.taken vcpu (w.taken vcpu + 1) }

end QuetzCpu

namespace ResetWorld

open QuetzCpu

/-- The CPU of the world. -/
abbrev cpu (w : ResetWorld) : QuetzCpu := w.world.cpu

/-- The same world with another CPU. -/
def withCpu (w : ResetWorld) (cpu : QuetzCpu) : ResetWorld :=
  { w with world := { w.world with cpu := cpu } }

/-- The record of the request that vCPU `v` has in the mailbox. -/
def record (w : ResetWorld) (v : ℕ) : Served :=
  ⟨v, w.published v, w.handled v, w.since v == 1, w.cpu.bank⟩

/-- The next load of a poll, with what the poll does before the one after it. -/
def load (c : CpuConfig) (w : ResetWorld) : Except CpuFatal ResetWorld :=
  match w.poller with
  | .idle => .ok w
  | .atEpoch v =>
    if c.vcpuCount ≤ v then .ok { w with poller := .idle }
    else
      match pollReset c v w.cpu with
      | .error e => .error e
      | .ok cpu => .ok { w.withCpu cpu with
          poller := .atPending v
          handled := if c.sstWindowCache = true ∧ w.cpu.cpuResetEpoch v ≠ w.cpu.cacheResetEpochs v
            then Function.update w.handled v (w.resets v) else w.handled }
  | .atPending v =>
    match pollPending c v w.cpu with
    | .error e => .error e
    | .ok cpu => .ok { w.withCpu cpu with
        poller := .atEpoch (v + 1)
        served := if (w.cpu.mailbox v).isSome then w.served ++ [w.record v] else w.served }

/-- One event. An epoch is a `uint32_t`. -/
def step (c : CpuConfig) (w : ResetWorld) : ResetEvent → Except CpuFatal ResetWorld
  | .publish v req => .ok { w.withCpu
        { w.cpu with mailbox := Function.update w.cpu.mailbox v (some req) } with
      published := Function.update w.published v (w.resets v)
      since := Function.update w.since v (w.since v + 1) }
  | .reset v => .ok { w.withCpu { w.cpu with
        cpuResetEpoch :=
          Function.update w.cpu.cpuResetEpoch v ((w.cpu.cpuResetEpoch v + 1) % 2 ^ 32) } with
      resets := Function.update w.resets v (w.resets v + 1)
      since := Function.update w.since v 0 }
  | .poll => .ok { w with poller := .atEpoch 0 }
  | .load => w.load c
  | .other e =>
    match w.world.step c e with
    | .error f => .error f
    | .ok world => .ok { w with world := world }

/-- Whether a guest or the simulation may do this now. The guest stores to native RAM at any
time; the rest of the simulation runs between two polls. A vCPU publishes into a free slot, and
is reset while it executes nothing, so with no request in the mailbox. -/
def Allowed (w : ResetWorld) : ResetEvent → Prop
  | .publish v _ => w.cpu.mailbox v = none
  | .reset v => w.cpu.mailbox v = none
  | .poll => w.poller = .idle
  | .load => w.poller ≠ .idle
  | .other (.nativeStore _) => True
  | .other (.process ..) | .other (.core ..) | .other (.answer ..) => w.poller = .idle
  | .other (.publish ..) | .other (.reset ..) | .other .poll => False

/-- The event does not meet the poll at a bad time: a vCPU with an unhandled reset publishes no
request between the two loads of its poll, and the epoch a poll loads has not come back to the
last handled one. -/
def InTime (w : ResetWorld) : ResetEvent → Prop
  | .publish v _ => w.poller = .atPending v → w.handled v = w.resets v
  | .load => ∀ v, w.poller = .atEpoch v → w.cpu.cpuResetEpoch v = w.cpu.cacheResetEpochs v →
      w.handled v = w.resets v
  | _ => True

/-- A fresh CPU, with all counts zero. -/
structure Start (c : CpuConfig) (w : ResetWorld) : Prop where
  world : w.world.Start c
  epoch : w.cpu.cpuResetEpoch = fun _ => 0
  cached : w.cpu.cacheResetEpochs = fun _ => 0
  poller : w.poller = .idle
  resets : w.resets = fun _ => 0
  handled : w.handled = fun _ => 0
  since : w.since = fun _ => 0
  served : w.served = []

/-- The states a fresh CPU reaches by events that meet `P`. -/
inductive Reachable (c : CpuConfig) (P : ResetWorld → ResetEvent → Prop) : ResetWorld → Prop
  | start {w : ResetWorld} : w.Start c → Reachable c P w
  | step {w w' : ResetWorld} {e : ResetEvent} : Reachable c P w → w.Allowed e → P w e →
      w.step c e = .ok w' → Reachable c P w'

/-- Every request was served after the resets before it, and the first one after a reset with
cleared controls. -/
def ResetsFirst (w : ResetWorld) : Prop :=
  ∀ s ∈ w.served, s.published ≤ s.handled ∧ (s.first = true → s.bank.Cleared s.vcpu)

variable {c : CpuConfig} {w w' : ResetWorld} {e : ResetEvent} {v : ℕ}

/-! ### One poll -/

/-- The loads, one after the other. -/
def loads (c : CpuConfig) : ℕ → ResetWorld → Except CpuFatal ResetWorld
  | 0, w => .ok w
  | n + 1, w =>
    match w.load c with
    | .error e => .error e
    | .ok w' => loads c n w'

/-- Without events between them the loads are the poll of the remaining vCPUs. -/
theorem loads_eq_pollVcpus (n : ℕ) : ∀ {v : ℕ} {w : ResetWorld}, w.poller = .atEpoch v →
    v + n = c.vcpuCount →
    (loads c (2 * n + 1) w).map cpu = pollVcpus c (List.range' v n) w.cpu := by
  induction n with
  | zero =>
      intro v w hv hn
      have hload : w.load c = .ok { w with poller := .idle } := by
        rw [load, hv]
        dsimp only
        rw [if_pos (by omega)]
      simp only [loads, hload, List.range'_zero, pollVcpus]
      rfl
  | succ n ih =>
      intro v w hv hn
      rw [List.range'_succ, pollVcpus, pollVcpu, Nat.mul_succ, loads, load, hv]
      dsimp only
      rw [if_neg (by omega)]
      cases pollReset c v w.cpu with
      | error e => rfl
      | ok cpu₁ =>
          dsimp only
          rw [loads, load]
          dsimp only
          rw [show pollPending c v (ResetWorld.cpu _) = pollPending c v cpu₁ from rfl, pollPending]
          cases cpu₁.mailbox v with
          | none => exact ih rfl (by omega)
          | some req =>
              dsimp only
              cases handleMmioSyncCommand c v (commandOf c cpu₁ req) _ with
              | error e => rfl
              | ok cpu₂ => exact ih rfl (by omega)

/-! ### The order of resets and requests -/

/-- The vCPU may have its controls cleared only, its resets are handled and none of its requests
was served since the last one. -/
def Pristine (w : ResetWorld) (v : ℕ) : Prop :=
  w.handled v = w.resets v ∧ (w.since v = 0 ∨ w.since v = 1 ∧ w.cpu.mailbox v ≠ none)

/-- The epochs are the counts of resets, and a waiting request that the poll is about to find
was published after handled resets only. -/
structure Inv (w : ResetWorld) : Prop where
  epoch : ∀ v, w.cpu.cpuResetEpoch v = w.resets v % 2 ^ 32
  cached : ∀ v, w.cpu.cacheResetEpochs v = w.handled v % 2 ^ 32
  le : ∀ v, w.handled v ≤ w.resets v
  waiting : ∀ v, w.cpu.mailbox v ≠ none → w.published v = w.resets v ∧ 0 < w.since v
  polled : ∀ v, w.poller = .atPending v → w.cpu.mailbox v ≠ none → w.handled v = w.resets v
  cleared : ∀ v, w.Pristine v → w.cpu.bank.Cleared v
  served : w.ResetsFirst

/-- The guest publishes a request: not between the two loads of a poll, or no reset is pending. -/
theorem Inv.publish (h : Inv w) {req : MmioSyncRequest} (hfree : w.cpu.mailbox v = none)
    (htime : w.InTime (.publish v req)) (hstep : w.step c (.publish v req) = .ok w') : Inv w' := by
  cases hstep
  refine ⟨h.epoch, h.cached, h.le, fun u hu => ?_, fun u hpoll hu => ?_, fun u hu => ?_, h.served⟩
  · by_cases huv : u = v
    · subst huv
      exact ⟨Function.update_self .., by simp⟩
    · simp only [withCpu, Function.update_of_ne huv] at hu ⊢
      exact h.waiting u hu
  · by_cases huv : u = v
    · subst huv
      exact htime hpoll
    · simp only [withCpu, Function.update_of_ne huv] at hu
      exact h.polled u hpoll hu
  · obtain ⟨hhandled, hsince⟩ := hu
    refine h.cleared u ⟨hhandled, ?_⟩
    by_cases huv : u = v
    · subst huv
      simp only [Function.update_self, Nat.add_eq_zero_iff, one_ne_zero, and_false, false_or,
        Nat.add_eq_right] at hsince
      exact Or.inl hsince.1
    · simpa only [withCpu, Function.update_of_ne huv] using hsince

/-- The guest resets a vCPU whose mailbox is free. -/
theorem Inv.reset (h : Inv w) (hfree : w.cpu.mailbox v = none)
    (hstep : w.step c (.reset v) = .ok w') : Inv w' := by
  cases hstep
  have hbusy : ∀ u, w.cpu.mailbox u ≠ none → u ≠ v := fun u hu huv => hu (huv ▸ hfree)
  refine ⟨fun u => ?_, h.cached, fun u => ?_, fun u hu => ?_, fun u hpoll hu => ?_, fun u hu => ?_,
    h.served⟩
  · by_cases huv : u = v
    · subst huv
      simp only [withCpu, Function.update_self, h.epoch u]
      omega
    · simp only [withCpu, Function.update_of_ne huv]
      exact h.epoch u
  · by_cases huv : u = v
    · subst huv
      simp only [withCpu, Function.update_self]
      exact (h.le u).trans (Nat.le_succ _)
    · simp only [withCpu, Function.update_of_ne huv]
      exact h.le u
  · simp only [withCpu, Function.update_of_ne (hbusy u hu)]
    exact h.waiting u hu
  · simp only [withCpu, Function.update_of_ne (hbusy u hu)]
    exact h.polled u hpoll hu
  · obtain ⟨hhandled, hsince⟩ := hu
    by_cases huv : u = v
    · -- the reset is not handled yet
      subst huv
      have hle := h.le u
      simp only [withCpu, Function.update_self] at hhandled
      omega
    · simp only [withCpu, Function.update_of_ne huv] at hhandled hsince
      exact h.cleared u ⟨hhandled, hsince⟩

/-- The rest of the simulation. -/
theorem Inv.untouched (h : Inv w) {world : CpuWorld} (hu : Untouched ∅ w.cpu world.cpu) :
    Inv { w with world := world } := by
  refine ⟨fun u => ?_, fun u => ?_, h.le, fun u hm => ?_, fun u hpoll hm => ?_, fun u hpris => ?_,
    h.served⟩
  · exact (congrFun hu.epoch u).trans (h.epoch u)
  · exact (congrFun hu.cached u).trans (h.cached u)
  · exact h.waiting u (fun hnone => hm ((congrFun hu.mailbox u).trans hnone))
  · exact h.polled u hpoll (fun hnone => hm ((congrFun hu.mailbox u).trans hnone))
  · obtain ⟨hhandled, hsince⟩ := hpris
    refine (h.cleared u ⟨hhandled, hsince.imp_right fun hone => ⟨hone.1, fun hnone => ?_⟩⟩).congr
      (hu.controls u (Set.notMem_empty u))
    exact hone.2 ((congrFun hu.mailbox u).trans hnone)

/-- A poll that finds a new epoch resets the controls and notes the epoch. -/
theorem pollReset_eq_ok {cpu cpu' : QuetzCpu} (hcache : c.sstWindowCache = true)
    (h : pollReset c v cpu = .ok cpu') :
    cpu.cpuResetEpoch v = cpu.cacheResetEpochs v ∧ cpu' = cpu ∨
      cpu.cpuResetEpoch v ≠ cpu.cacheResetEpochs v ∧ ∃ bank, bank.Cleared v ∧
        (∀ u, u ≠ v → bank.controlsOf u = cpu.bank.controlsOf u) ∧
        cpu' = { cpu with
          bank := bank
          cacheResetEpochs :=
            Function.update cpu.cacheResetEpochs v (cpu.cpuResetEpoch v) } := by
  rw [pollReset] at h
  by_cases hnew : cpu.cpuResetEpoch v = cpu.cacheResetEpochs v
  · rw [if_neg (fun hc => hc.2 hnew)] at h
    cases h
    exact Or.inl ⟨hnew, rfl⟩
  · rw [if_pos ⟨hcache, hnew⟩] at h
    split at h
    · cases h
    next bank hbank =>
      cases h
      obtain ⟨hcleared, hothers⟩ := resetCore_eq_ok hbank
      exact Or.inr ⟨hnew, bank, hcleared, hothers, rfl⟩

/-- The load of the epoch. -/
theorem Inv.loadEpoch (h : Inv w) (hcache : c.sstWindowCache = true) (hv : w.poller = .atEpoch v)
    (htime : w.InTime .load) (hstep : w.load c = .ok w') : Inv w' := by
  rw [load, hv] at hstep
  dsimp only at hstep
  by_cases hend : c.vcpuCount ≤ v
  · rw [if_pos hend] at hstep
    cases hstep
    exact ⟨h.epoch, h.cached, h.le, h.waiting, fun _ hpoll => (by cases hpoll), h.cleared, h.served⟩
  rw [if_neg hend] at hstep
  cases hreset : pollReset c v w.cpu with
  | error e =>
      rw [hreset] at hstep
      cases hstep
  | ok cpu =>
      rw [hreset] at hstep
      rcases pollReset_eq_ok hcache hreset with ⟨hsame, rfl⟩ | ⟨hnew, bank, hclear, hothers, rfl⟩
      · rw [if_neg (fun hc => hc.2 hsame)] at hstep
        cases hstep
        refine ⟨h.epoch, h.cached, h.le, h.waiting, fun u hpoll _ => ?_, h.cleared, h.served⟩
        cases hpoll
        exact htime v hv hsame
      · rw [if_pos ⟨hcache, hnew⟩] at hstep
        cases hstep
        refine ⟨h.epoch, fun u => ?_, fun u => ?_, h.waiting, fun u hpoll _ => ?_, fun u hu => ?_,
          h.served⟩
        · by_cases huv : u = v
          · subst huv
            simp only [withCpu, Function.update_self]
            exact h.epoch u
          · simp only [withCpu, Function.update_of_ne huv]
            exact h.cached u
        · by_cases huv : u = v
          · subst huv
            exact (Function.update_self ..).le
          · simp only [withCpu, Function.update_of_ne huv]
            exact h.le u
        · cases hpoll
          exact Function.update_self ..
        · by_cases huv : u = v
          · subst huv
            exact hclear
          · obtain ⟨hhandled, hsince⟩ := hu
            simp only [withCpu, Function.update_of_ne huv] at hhandled
            exact (h.cleared u ⟨hhandled, hsince⟩).congr (hothers u huv)

/-- The load of the mailbox: a request it finds is served after the resets before it. -/
theorem Inv.loadPending (h : Inv w) (hv : w.poller = .atPending v) (hstep : w.load c = .ok w') :
    Inv w' := by
  rw [load, hv] at hstep
  dsimp only at hstep
  rw [pollPending] at hstep
  cases hmail : w.cpu.mailbox v with
  | none =>
      simp only [hmail] at hstep
      cases hstep
      exact ⟨h.epoch, h.cached, h.le, h.waiting, fun _ hpoll => (by cases hpoll), h.cleared,
        h.served⟩
  | some req =>
      simp only [hmail] at hstep
      split at hstep
      · cases hstep
      next cpu hcpu =>
        cases hstep
        have hbusy : w.cpu.mailbox v ≠ none := by simp [hmail]
        obtain ⟨hpub, hsince⟩ := h.waiting v hbusy
        have hhandled := h.polled v hv hbusy
        have hun := handleMmioSyncCommand_untouched hcpu
        have hfree : cpu.mailbox v = none := by
          rw [hun.mailbox]
          exact Function.update_self ..
        have hmails : ∀ u, u ≠ v → cpu.mailbox u = w.cpu.mailbox u := fun u hu => by
          rw [hun.mailbox]
          exact Function.update_of_ne hu ..
        refine ⟨fun u => ?_, fun u => ?_, h.le, fun u hu => ?_, fun u hpoll => (by cases hpoll),
          fun u hu => ?_, fun s hs => ?_⟩
        · exact (congrFun hun.epoch u).trans (h.epoch u)
        · exact (congrFun hun.cached u).trans (h.cached u)
        · have huv : u ≠ v := fun huv => hu (huv ▸ hfree)
          exact h.waiting u fun hnone => hu ((hmails u huv).trans hnone)
        · obtain ⟨hall, hfirst⟩ := hu
          by_cases huv : u = v
          · -- a request of this vCPU was served, so it is not pristine
            subst huv
            rcases hfirst with hzero | ⟨-, hnone⟩
            · have hzero : w.since u = 0 := hzero
              omega
            · exact absurd hfree hnone
          · refine (h.cleared u ⟨hall,
              hfirst.imp_right fun hone => ⟨hone.1, fun hnone => ?_⟩⟩).congr
              (hun.controls u huv)
            exact hone.2 ((hmails u huv).trans hnone)
        · simp only [Option.isSome_some, if_true, List.mem_append, List.mem_singleton] at hs
          rcases hs with hs | rfl
          · exact h.served s hs
          · refine ⟨(hpub.trans hhandled.symm).le, fun hfirst => ?_⟩
            have hone : w.since v = 1 := by simpa [record] using hfirst
            exact h.cleared v ⟨hhandled, Or.inr ⟨hone, hbusy⟩⟩

/-- Every event in time keeps the order. -/
theorem Inv.step (h : Inv w) (hcache : c.sstWindowCache = true) (hallowed : w.Allowed e)
    (htime : w.InTime e) (hstep : w.step c e = .ok w') : Inv w' := by
  cases e with
  | publish v req => exact h.publish hallowed htime hstep
  | reset v => exact h.reset hallowed hstep
  | poll =>
      cases hstep
      exact ⟨h.epoch, h.cached, h.le, h.waiting, fun _ hpoll => (by cases hpoll), h.cleared,
        h.served⟩
  | load =>
      cases hpoller : w.poller with
      | idle => exact absurd hpoller hallowed
      | atEpoch v => exact h.loadEpoch hcache hpoller htime hstep
      | atPending v => exact h.loadPending hpoller hstep
  | other e =>
      rw [ResetWorld.step] at hstep
      cases hworld : w.world.step c e with
      | error f =>
          rw [hworld] at hstep
          cases hstep
      | ok world =>
          rw [hworld] at hstep
          cases hstep
          refine h.untouched ?_
          cases e with
          | publish v req => exact absurd hallowed id
          | reset v => exact absurd hallowed id
          | poll => exact absurd hallowed id
          | nativeStore native =>
              cases hworld
              exact ⟨rfl, rfl, rfl, fun _ _ => rfl⟩
          | core v link body =>
              cases hworld
              exact ⟨rfl, rfl, rfl, fun _ _ => rfl⟩
          | process drained order =>
              rw [CpuWorld.step] at hworld
              split at hworld
              · cases hworld
              next cpu hcpu =>
                cases hworld
                exact processPorts_untouched _ hcpu
          | answer i data fail =>
              rw [CpuWorld.step] at hworld
              split at hworld
              · cases hworld
                exact .refl _ _
              · rw [CpuWorld.deliver] at hworld
                dsimp only at hworld
                split_ifs at hworld
                · split at hworld
                  · cases hworld
                  · cases hworld
                    exact ⟨rfl, rfl, rfl, fun _ _ => rfl⟩
                  next cpu hcpu =>
                    cases hworld
                    exact (completeMmioSyncResponse_untouched hcpu).after
                      ⟨rfl, rfl, rfl, fun _ _ => rfl⟩
                · cases hworld
                  exact ⟨rfl, rfl, rfl, fun _ _ => rfl⟩

/-- Every start is in order. -/
theorem Inv.start (hcache : c.sstWindowCache = true) (hs : w.Start c) : Inv w := by
  have hbank : Configured w.cpu.bank := by
    have hb := hs.world.bank
    rwa [if_pos hcache] at hb
  refine ⟨fun v => ?_, fun v => ?_, fun v => ?_, fun v hv => ?_, fun v hpoll => ?_,
    fun v _ => hbank.cleared v, ?_⟩
  · simp [hs.epoch, hs.resets]
  · simp [hs.cached, hs.handled]
  · rw [hs.handled, hs.resets]
  · exact absurd (congrFun hs.world.mailbox v) hv
  · rw [hs.poller] at hpoll
    cases hpoll
  · rw [ResetsFirst, hs.served]
    exact fun s hs => absurd hs List.not_mem_nil

/-- **Resets are seen before later requests**: in every run without an event at a bad time, a
request is served after `resetCore` has run for every reset before its publication, and the first
one after a reset starts with CACR and all ACRs zero. -/
theorem requests_after_resets (hcache : c.sstWindowCache = true) (hw : Reachable c InTime w) :
    w.ResetsFirst := by
  suffices hinv : Inv w from hinv.served
  induction hw with
  | start hs => exact Inv.start hcache hs
  | step _ hallowed htime hstep ih => exact ih.step hcache hallowed htime hstep

/-! ### A reset between the two loads -/

instance (w : ResetWorld) : (e : ResetEvent) → Decidable (w.Allowed e)
  | .publish v _ | .reset v => inferInstanceAs (Decidable (w.cpu.mailbox v = none))
  | .load => inferInstanceAs (Decidable (w.poller ≠ .idle))
  | .poll | .other (.process ..) | .other (.core ..) | .other (.answer ..) =>
    inferInstanceAs (Decidable (w.poller = .idle))
  | .other (.nativeStore _) => inferInstanceAs (Decidable True)
  | .other (.publish ..) | .other (.reset ..) | .other .poll => inferInstanceAs (Decidable False)

instance (w : ResetWorld) : (e : ResetEvent) → Decidable (w.InTime e)
  | .publish .. => inferInstanceAs (Decidable (_ → _))
  | .load =>
    match h : w.poller with
    | .atEpoch v => decidable_of_iff (w.cpu.cpuResetEpoch v = w.cpu.cacheResetEpochs v →
        w.handled v = w.resets v)
        ⟨fun hv u hu => (Poller.atEpoch.inj (h.symm.trans hu)) ▸ hv, fun hv => hv v h⟩
    | .idle => .isTrue fun u hu => by
        rw [h] at hu
        cases hu
    | .atPending v => .isTrue fun u hu => by
        rw [h] at hu
        cases hu
  | .reset .. | .poll | .other .. => inferInstanceAs (Decidable True)

section Runs

variable (c) {P : ResetWorld → ResetEvent → Prop} [∀ w e, Decidable (P w e)]

/-- The state after the events, if all of them are allowed and meet `P` and none is fatal. -/
def run (P : ResetWorld → ResetEvent → Prop) [∀ w e, Decidable (P w e)] :
    List ResetEvent → ResetWorld → Option ResetWorld
  | [], w => some w
  | e :: es, w =>
    if w.Allowed e ∧ P w e then
      match w.step c e with
      | .error _ => none
      | .ok w' => run P es w'
    else none

variable {c}

/-- What `run` computes is reachable. -/
theorem Reachable.run {es : List ResetEvent} (hw : Reachable c P w)
    (hrun : run c P es w = some w') : Reachable c P w' := by
  induction es generalizing w with
  | nil =>
      cases hrun
      exact hw
  | cons e es ih =>
      rw [ResetWorld.run] at hrun
      by_cases hok : w.Allowed e ∧ P w e
      · rw [if_pos hok] at hrun
        cases hstep : w.step c e with
        | error f =>
            rw [hstep] at hrun
            cases hrun
        | ok w₁ =>
            rw [hstep] at hrun
            exact ih (hw.step hok.1 hok.2 hstep) hrun
      · rw [if_neg hok] at hrun
        cases hrun

end Runs

/-- One vCPU with a cached window of one page. -/
def cachedConfig : CpuConfig := { sstWindowCache := true, sstWindowBase := 0x10000 }

/-- The bank of `cachedConfig`. -/
def cachedBank : WindowCacheBank :=
  { states := [{ cache := { regions := [⟨0x10000, 0x1000⟩] } }] }

/-- The CPU of `cachedConfig`. -/
def cachedWorld : ResetWorld := { world := { cpu := { bank := cachedBank } } }

/-- `cachedWorld` is a start. -/
theorem cachedWorld_start : cachedWorld.Start cachedConfig :=
  ⟨⟨rfl, by simp [cachedWorld], rfl, rfl, rfl,
    .configure 1 0x10000 0x1000 rfl, rfl⟩, rfl, rfl, rfl, rfl, rfl, rfl, rfl⟩

/-- A guest enables its cache. -/
def enableCache : List ResetEvent :=
  [.publish 0 ⟨.cacheOp, 2, 0, 0x80000000⟩, .poll, .load, .load, .load]

/-- The reset and the next request fall between the loads of one poll. -/
def resetBetweenLoads : List ResetEvent :=
  enableCache ++ [.poll, .load, .reset 0, .publish 0 ⟨.mmioReadReq, 0x10000, 4, 0⟩, .load]

/-- The reset comes between two loads, the request only after the poll. -/
def resetSeen : List ResetEvent :=
  enableCache ++ [.poll, .load, .reset 0, .load, .publish 0 ⟨.mmioReadReq, 0x10000, 4, 0⟩, .load,
    .poll, .load, .load]

/-- The poll that loaded the epoch before the reset serves the request after it: `resetCore` has
not run, and the cache is still enabled. -/
theorem missed_reset : ¬∀ w, Reachable cachedConfig (fun _ _ => True) w → w.ResetsFirst := by
  intro hall
  have hfin : (run cachedConfig (fun _ _ => True) resetBetweenLoads cachedWorld).any (fun w =>
      w.served.any fun s => decide (s.handled < s.published) &&
        s.bank.states.any fun st => decide (st.cache.cacr = DEC)) = true := by
    decide +kernel
  obtain ⟨w, hrun, hfin⟩ := (Option.any_eq_true _ _).mp hfin
  obtain ⟨s, hs, hbad⟩ := List.any_eq_true.mp hfin
  have hlt : s.handled < s.published := by
    rw [Bool.and_eq_true] at hbad
    exact of_decide_eq_true hbad.1
  have hle := (hall w ((Reachable.start cachedWorld_start).run hrun) s hs).1
  omega

/-- A reset that the next poll sees. -/
theorem requests_after_resets_seen : ∃ w, Reachable cachedConfig InTime w ∧ w.ResetsFirst ∧
    w.served.map (fun s => (s.published, s.handled, s.first)) = [(0, 0, true), (1, 1, true)] := by
  have hfin : (run cachedConfig InTime resetSeen cachedWorld).any (fun w =>
      decide (w.served.map (fun s => (s.published, s.handled, s.first)) =
        [(0, 0, true), (1, 1, true)])) = true := by
    decide +kernel
  obtain ⟨w, hrun, hfin⟩ := (Option.any_eq_true _ _).mp hfin
  have hreach := (Reachable.start cachedWorld_start).run hrun
  exact ⟨w, hreach, requests_after_resets rfl hreach, of_decide_eq_true hfin⟩

end ResetWorld

end Quetz
