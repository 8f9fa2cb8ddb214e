import Quetz.MmioAnswers

/-!
# Runs of the Synchronous MMIO Path

The CPU between its guests and its memory links. A guest publishes a command, or resets a vCPU,
or stores to native RAM; the CPU polls the mailbox and ticks its ports; the pipelines send
requests of their own; and the links answer the requests in flight, in any order.

## Main results

* `CpuWorld.Inv.step`: every event keeps the balance of commands and responses.
* `CpuWorld.mmio_commands_answered_once`: one answer for every command.
-/

namespace Quetz

open WindowCacheBank BalarPort QuetzCpu

/-! ### Events -/

/-- The CPU, and the ids of the requests its pipelines sent. -/
structure CpuWorld where
  cpu : QuetzCpu := {}
  coreIds : List ℕ := []

/-- What can happen next. -/
inductive CpuEvent where
  | publish (vcpu : ℕ) (req : MmioSyncRequest)
  | reset (vcpu : ℕ)
  | nativeStore (native : List NativeRamRegion)
  | poll
  | process (drained : ℕ → Bool) (order : ℕ → List ℕ)
  | core (vcpu : ℕ) (link : Link) (body : Body)
  /-- The request at this position of the links is answered; `data` is what a read returns. -/
  | answer (i : ℕ) (data : List UInt8) (fail : Bool)

namespace CpuWorld

/-- A response reaches the synchronous path if the vCPU of its link has an mmio link. -/
def deliver (c : CpuConfig) (w : CpuWorld) (i : ℕ) (r : Request) (data : List UInt8)
    (fail : Bool) : Except CpuFatal CpuWorld :=
  let cpu := { w.cpu with host := w.cpu.host.take i }
  if c.hasMmio r.vcpu then
    match completeMmioSyncResponse r.vcpu r.id (r.body.response data) fail cpu with
    | .error e => .error e
    | .ok none => .ok { w with cpu := cpu }
    | .ok (some cpu) => .ok { w with cpu := cpu }
  else .ok { w with cpu := cpu }

/-- One event. -/
def step (c : CpuConfig) (w : CpuWorld) : CpuEvent → Except CpuFatal CpuWorld
  | .publish vcpu req => .ok { w with
      cpu := { w.cpu with mailbox := Function.update w.cpu.mailbox vcpu (some req) } }
  | .reset vcpu => .ok { w with
      cpu := { w.cpu with
        cpuResetEpoch := Function.update w.cpu.cpuResetEpoch vcpu (w.cpu.cpuResetEpoch vcpu + 1) } }
  | .nativeStore native => .ok { w with cpu := { w.cpu with native := native } }
  | .poll =>
    match pollMmioSyncMailbox c w.cpu with
    | .error e => .error e
    | .ok cpu => .ok { w with cpu := cpu }
  | .process drained order =>
    match processPorts drained order (List.range w.cpu.ports.length) w.cpu with
    | .error e => .error e
    | .ok cpu => .ok { w with cpu := cpu }
  | .core vcpu link body => .ok
      { cpu := { w.cpu with host := w.cpu.host.send vcpu link body }
        coreIds := w.coreIds ++ [w.cpu.host.nextId] }
  | .answer i data fail =>
    match w.cpu.host.inFlight[i]? with
    | none => .ok w
    | some r => w.deliver c i r data fail

/-- A command that a guest can send: a register access of one to eight bytes, or a cache op. -/
def Command (req : MmioSyncRequest) : Prop :=
  ((req.cmd = .mmioReadReq ∨ req.cmd = .mmioWriteReq) ∧ 1 ≤ req.size ∧ req.size ≤ 8) ∨
    req.cmd = .cacheOp

/-- A vCPU publishes its next command only after the response to the previous one. -/
def Allowed (w : CpuWorld) : CpuEvent → Prop
  | .publish vcpu req => w.cpu.mailbox vcpu = none ∧
      w.cpu.host.posted vcpu = w.cpu.taken vcpu ∧ Command req
  | _ => True

/-- The CPU after its construction. -/
structure Start (c : CpuConfig) (w : CpuWorld) : Prop where
  host : w.cpu.host = {}
  ports : ∀ p ∈ w.cpu.ports, p.2 = {}
  genericPending : w.cpu.genericPending = fun _ => none
  mailbox : w.cpu.mailbox = fun _ => none
  taken : w.cpu.taken = fun _ => 0
  bank : if c.sstWindowCache then Configured w.cpu.bank else w.cpu.bank = {}
  coreIds : w.coreIds = []

/-- The states a fresh CPU reaches. -/
inductive Reachable (c : CpuConfig) : CpuWorld → Prop
  | start {w : CpuWorld} : w.Start c → Reachable c w
  | step {w w' : CpuWorld} {e : CpuEvent} : Reachable c w → w.Allowed e → w.step c e = .ok w' →
      Reachable c w'

/-! ### The balance of commands and responses -/

/-- What is owed and what was posted add up to what was taken. -/
structure Inv (c : CpuConfig) (w : CpuWorld) : Prop where
  parts : ∃ ρ, Parts c w.coreIds ρ w.cpu
  balance : ∀ u, w.cpu.owed u + w.cpu.host.posted u = w.cpu.taken u
  owes : ∀ u, w.cpu.owed u ≤ 1
  unlinked : ∀ u, c.hasMmio u = false → w.cpu.owed u = 0
  waiting : ∀ u req, w.cpu.mailbox u = some req →
    w.cpu.host.posted u = w.cpu.taken u ∧ Command req

variable {c : CpuConfig} {w w' : CpuWorld} {cpu : QuetzCpu} {ids : List ℕ} {v : ℕ}

/-- Nothing is owed to a vCPU whose commands are all answered. -/
theorem Inv.owed_eq_zero (hi : Inv c w) {u : ℕ} (hu : w.cpu.host.posted u = w.cpu.taken u) :
    w.cpu.owed u = 0 := by
  have := hi.balance u
  omega

/-- A step without a command. -/
theorem Inv.turned (hi : Inv c w) (ht : Turned c ids w.cpu cpu fun _ => 0) : Inv c ⟨cpu, ids⟩ := by
  refine ⟨ht.parts, fun u => ?_, fun u => (ht.owed_le rfl).trans (hi.owes u), fun u hu => ?_,
    fun u req hreq => ?_⟩
  · have := ht.balance u
    have := hi.balance u
    have htaken := congrFun ht.taken u
    simp only at *
    omega
  · exact Nat.le_zero.mp ((ht.owed_le rfl).trans (hi.unlinked u hu).le)
  · rw [show cpu.mailbox = w.cpu.mailbox from ht.mailbox] at hreq
    obtain ⟨hposted, hcommand⟩ := hi.waiting u req hreq
    refine ⟨?_, hcommand⟩
    have hzero := hi.owed_eq_zero hposted
    have hbal := ht.balance u
    have hposts := ht.posts u
    have htaken := congrFun ht.taken u
    simp only at *
    omega

/-- The state in which a command was taken from the mailbox and not handled yet. -/
def take (cpu : QuetzCpu) (v : ℕ) : QuetzCpu :=
  { cpu with
    mailbox := Function.update cpu.mailbox v none
    taken := Function.update cpu.taken v (cpu.taken v + 1) }

/-- The command of a vCPU that is owed nothing is handled. -/
theorem Inv.command {cpu' : QuetzCpu} (hi : Inv c ⟨cpu, ids⟩) (hzero : cpu.owed v = 0)
    (ht : Turned c ids (take cpu v) cpu' fun u => if u = v then 1 else 0)
    (hoff : c.hasMmio v = false → cpu'.owed v = 0) : Inv c ⟨cpu', ids⟩ := by
  have hb : ∀ u, cpu'.owed u + cpu'.host.posted u =
      cpu.owed u + cpu.host.posted u + if u = v then 1 else 0 := ht.balance
  have hposts : ∀ u, cpu.host.posted u ≤ cpu'.host.posted u := ht.posts
  have hold : ∀ u, cpu.owed u + cpu.host.posted u = cpu.taken u := hi.balance
  have htaken : ∀ u, cpu'.taken u = Function.update cpu.taken v (cpu.taken v + 1) u :=
    congrFun ht.taken
  have hbal : ∀ u, cpu'.owed u + cpu'.host.posted u = cpu'.taken u := fun u => by
    rw [htaken u, hb u, hold u]
    by_cases huv : u = v
    · rw [if_pos huv, huv, Function.update_self]
    · rw [if_neg huv, Function.update_of_ne huv, Nat.add_zero]
  have hothers : ∀ u, u ≠ v → cpu'.owed u ≤ cpu.owed u := fun u huv => by
    have hbu := hb u
    have hpu := hposts u
    rw [if_neg huv] at hbu
    omega
  refine ⟨ht.parts, hbal, fun u => ?_, fun u hu => ?_, fun u req hreq => ?_⟩
  · by_cases huv : u = v
    · have hbu := hb v
      have hpu := hposts v
      rw [if_pos rfl] at hbu
      show cpu'.owed u ≤ 1
      rw [huv]
      omega
    · exact (hothers u huv).trans (hi.owes u)
  · by_cases huv : u = v
    · rw [huv] at hu ⊢
      exact hoff hu
    · exact Nat.le_zero.mp ((hothers u huv).trans (hi.unlinked u hu).le)
  · have hreq : Function.update cpu.mailbox v none u = some req := by
      rw [← hreq]
      exact (congrFun ht.mailbox u).symm
    have huv : u ≠ v := by
      rintro rfl
      rw [Function.update_self] at hreq
      cases hreq
    rw [Function.update_of_ne huv] at hreq
    obtain ⟨hposted, hcommand⟩ := hi.waiting u req hreq
    have hposted : cpu.host.posted u = cpu.taken u := hposted
    refine ⟨?_, hcommand⟩
    show cpu'.host.posted u = cpu'.taken u
    have hle := hothers u huv
    have hbu := hbal u
    have holdu := hold u
    omega

/-- The poll of one vCPU. -/
theorem Inv.pollVcpu (hi : Inv c ⟨cpu, ids⟩) :
    match QuetzCpu.pollVcpu c v cpu with
    | .ok cpu' => Inv c ⟨cpu', ids⟩
    | .error e => ¬e.Nested := by
  obtain ⟨ρ, hparts⟩ := hi.parts
  have hreset := hparts.pollReset (v := v)
  rw [QuetzCpu.pollVcpu]
  cases hres : pollReset c v cpu with
  | error e =>
      rw [hres] at hreset
      exact hreset
  | ok cpu₁ =>
      rw [hres] at hreset
      have hi₁ : Inv c ⟨cpu₁, ids⟩ := hi.turned hreset.1
      dsimp only
      cases hmail : cpu₁.mailbox v with
      | none => exact hi₁
      | some req =>
          obtain ⟨hposted, hcommand⟩ := hi₁.waiting v req hmail
          have hzero : cpu₁.owed v = 0 := hi₁.owed_eq_zero hposted
          obtain ⟨ρ₁, hparts₁⟩ := hi₁.parts
          have hparts₂ : Parts c ids ρ₁ (take cpu₁ v) :=
            ⟨hparts₁.ok, hparts₁.cache, hparts₁.generic, hparts₁.ports, hparts₁.core⟩
          have hcmd : (commandOf c cpu₁ req).cmd = .mmioReadReq ∨
              (commandOf c cpu₁ req).cmd = .mmioWriteReq ∨
              (commandOf c cpu₁ req).cmd = .cacheOp := by
            rcases hcommand with ⟨hrw | hrw, -⟩ | hop
            · exact Or.inl hrw
            · exact Or.inr (Or.inl hrw)
            · exact Or.inr (Or.inr hop)
          have hhandled := hparts₂.handleMmioSyncCommand (v := v) hzero hcmd
          revert hhandled
          show _ → match handleMmioSyncCommand c v (commandOf c cpu₁ req) (take cpu₁ v) with
            | .ok cpu' => Inv c ⟨cpu', ids⟩
            | .error e => ¬e.Nested
          cases handleMmioSyncCommand c v (commandOf c cpu₁ req) (take cpu₁ v) with
          | error e => exact fun he => he
          | ok cpu' => exact fun ht => hi₁.command hzero ht.1 ht.2

/-- The poll of all vCPUs. -/
theorem Inv.pollVcpus (vcpus : List ℕ) {cpu : QuetzCpu} (hi : Inv c ⟨cpu, ids⟩) :
    match QuetzCpu.pollVcpus c vcpus cpu with
    | .ok cpu' => Inv c ⟨cpu', ids⟩
    | .error e => ¬e.Nested := by
  induction vcpus generalizing cpu with
  | nil => exact hi
  | cons v vcpus ih =>
      rw [QuetzCpu.pollVcpus]
      have hone := hi.pollVcpu (v := v)
      revert hone
      cases QuetzCpu.pollVcpu c v cpu with
      | error e => exact fun he => he
      | ok cpu₁ => exact fun hi₁ => ih hi₁

/-- Every event keeps the balance, or stops with an error that is not `Nested`. -/
theorem Inv.step (hi : Inv c w) {e : CpuEvent} (hallowed : w.Allowed e) :
    match w.step c e with
    | .ok w' => Inv c w'
    | .error f => ¬f.Nested := by
  obtain ⟨ρ, hparts⟩ := hi.parts
  cases e with
  | publish v req =>
      obtain ⟨-, hposted, hcommand⟩ := hallowed
      refine ⟨⟨ρ, hparts.ok, hparts.cache, hparts.generic, hparts.ports, hparts.core⟩, hi.balance,
        hi.owes, hi.unlinked, fun u req' hreq => ?_⟩
      by_cases huv : u = v
      · subst huv
        simp only [Function.update_self, Option.some.injEq] at hreq
        exact ⟨hposted, hreq ▸ hcommand⟩
      · simp only [Function.update_of_ne huv] at hreq
        exact hi.waiting u req' hreq
  | reset v =>
      exact ⟨⟨ρ, hparts.ok, hparts.cache, hparts.generic, hparts.ports, hparts.core⟩, hi.balance,
        hi.owes, hi.unlinked, hi.waiting⟩
  | nativeStore native =>
      exact ⟨⟨ρ, hparts.ok, hparts.cache, hparts.generic, hparts.ports, hparts.core⟩, hi.balance,
        hi.owes, hi.unlinked, hi.waiting⟩
  | poll =>
      have hpoll := hi.pollVcpus (List.range c.vcpuCount)
      rw [CpuWorld.step, pollMmioSyncMailbox]
      revert hpoll
      cases QuetzCpu.pollVcpus c (List.range c.vcpuCount) w.cpu with
      | error e => exact fun he => he
      | ok cpu => exact fun hi' => hi'
  | process drained order =>
      have hprocess := hparts.processPorts drained order (List.range w.cpu.ports.length) hi.owes
        hi.unlinked
      rw [CpuWorld.step]
      revert hprocess
      cases processPorts drained order (List.range w.cpu.ports.length) w.cpu with
      | error e => exact fun he => he
      | ok cpu => exact fun ht => hi.turned ht
  | core v link body => exact hi.turned (hparts.coreSend v link body)
  | answer i data fail =>
      rw [CpuWorld.step]
      cases hreq : w.cpu.host.inFlight[i]? with
      | none => exact hi
      | some r =>
          have htake : ρ r.id = .core → Inv c { w with
              cpu := { w.cpu with host := w.cpu.host.take i } } := fun hrole =>
            hi.turned (hparts.coreTake hreq hrole)
          dsimp only
          rw [deliver]
          by_cases hlink : c.hasMmio r.vcpu = true
          · rw [if_pos hlink]
            have hres := hparts.completeMmioSyncResponse hreq hlink data fail
            revert hres
            dsimp only
            cases completeMmioSyncResponse r.vcpu r.id (r.body.response data) fail _ with
            | error e => exact fun he => he
            | ok res =>
                cases res with
                | none => exact htake
                | some cpu => exact fun ht => hi.turned ht
          · rw [if_neg hlink]
            refine htake (not_not.mp fun hne => hlink ?_)
            exact hparts.core.linked r (List.mem_of_getElem? hreq) hne

theorem Inv.start (hs : w.Start c) : Inv c w := by
  obtain ⟨n, cache, hbank⟩ : ∃ n cache, Uniform w.cpu.bank n cache := by
    have hb := hs.bank
    split_ifs at hb
    · exact hb.uniform
    · exact ⟨0, {}, by rw [hb]; rfl, by rw [hb], WindowDataCache.inv_default, rfl, fun _ => rfl⟩
  have hflight : w.cpu.host.inFlight = [] := by rw [hs.host]
  have hcache : ∀ u, cacheOwed w.cpu.bank u = 0 := fun u => by
    rw [cacheOwed]
    cases hst : w.cpu.bank.states[u]? with
    | none => rfl
    | some st => simp [hbank.getElem? hst, hbank.idle]
  have hports : ∀ u, portsOwed w.cpu.host w.cpu.ports u = 0 := fun u => by
    rw [portsOwed, List.sum_eq_zero]
    intro x hx
    obtain ⟨p, hp, rfl⟩ := List.mem_map.mp hx
    simp [BalarPort.owed, hs.ports p hp, hflight]
  have howed : ∀ u, w.cpu.owed u = 0 := fun u => by
    simp [QuetzCpu.owed, hcache u, hports u, genericOwed, hflight]
  refine ⟨⟨fun _ => .core, ⟨by simp [hflight], by simp [hflight]⟩, ⟨hbank.bankInv, ?_, ?_, ?_⟩,
    ⟨by simp [hs.genericPending], ?_⟩, ⟨?_, ?_, ?_⟩, ?_, ?_, ?_⟩, fun u => ?_, fun u => ?_,
    fun u _ => howed u, ?_⟩
  · intro v st hst
    rw [hbank.getElem? hst]
    exact hbank.idle
  · simp [hbank.pending]
  · exact fun r hr => by simp [hflight] at hr
  · exact fun r hr => by simp [hflight] at hr
  · intro k p hk
    rw [hs.ports p (List.mem_of_getElem? hk)]
    exact ⟨⟨fun _ _ => rfl, fun _ _ => rfl, by simp, by simp⟩, by simp [hflight], by simp, by simp,
      by simp⟩
  · exact fun k p hk r hr => by simp [hflight] at hr
  · simp [hflight]
  · simp [hflight]
  · simp [hs.coreIds]
  · simp [hflight]
  · simp [howed u, Host.posted, hs.host, hs.taken]
  · simp [howed u]
  · simp [hs.mailbox]

theorem Reachable.inv (hw : Reachable c w) : Inv c w := by
  induction hw with
  | start hs => exact Inv.start hs
  | step _ hallowed hstep ih =>
      have hnext := ih.step hallowed
      rwa [hstep] at hnext

/-! ### The answers -/

/-- The request is a doorbell of an async offload. -/
def AsyncDoorbell (w : CpuWorld) (r : Request) : Prop :=
  ∃ p ∈ w.cpu.ports, ∃ fp, p.2.pending r.id = some fp ∧ fp.isAsync = true

/-- A synchronous request: neither of a pipeline nor an async doorbell. -/
def Synchronous (w : CpuWorld) (r : Request) : Prop := r.id ∉ w.coreIds ∧ ¬w.AsyncDoorbell r

/-- Every command has at most one answer, and none before its synchronous requests are
answered. -/
structure AnsweredOnce (w : CpuWorld) : Prop where
  /-- There is at most one response for each command taken. -/
  once : ∀ v, w.cpu.host.posted v ≤ w.cpu.taken v ∧ w.cpu.taken v ≤ w.cpu.host.posted v + 1
  /-- The next command waits until all are answered. -/
  next : ∀ v req, w.cpu.mailbox v = some req → w.cpu.host.posted v = w.cpu.taken v
  /-- When the response is posted no synchronous request of the vCPU is in flight. -/
  settled : ∀ v, w.cpu.host.posted v = w.cpu.taken v →
    ∀ r ∈ w.cpu.host.inFlight, r.vcpu = v → ¬w.Synchronous r
  /-- A blocked vCPU waits for an armed doorbell or for a synchronous request in flight. -/
  blocked : ∀ v, w.cpu.host.posted v < w.cpu.taken v →
    (∃ p ∈ w.cpu.ports, (p.2.armedDoorbells v).isSome = true) ∨
      ∃ r ∈ w.cpu.host.inFlight, r.vcpu = v ∧ w.Synchronous r

variable {ρ : ℕ → Role}

/-- A request that no port keeps is not an async doorbell. -/
theorem not_asyncDoorbell (hparts : Parts c w.coreIds ρ w.cpu) {r : Request}
    (hr : r ∈ w.cpu.host.inFlight) (hport : ∀ k, ρ r.id ≠ .port k) : ¬w.AsyncDoorbell r := by
  rintro ⟨p, hp, fp, hfp, -⟩
  obtain ⟨k, hk⟩ := List.getElem?_of_mem hp
  have hnone := (hparts.ports.kept k p hk).none_of_ne hr (hport k)
  rw [holder] at hnone
  cases hflush : p.2.flushToVcpu r.id with
  | some u => simp [hflush] at hnone
  | none => simp [hflush, hfp] at hnone

/-- A request of a port is an async doorbell only of that port. -/
theorem not_asyncDoorbell_of_port (hparts : Parts c w.coreIds ρ w.cpu) {r : Request} {k : ℕ}
    {p : BalarConfig × BalarPort} (hr : r ∈ w.cpu.host.inFlight) (hk : w.cpu.ports[k]? = some p)
    (hρ : ρ r.id = .port k) (hsync : ∀ fp, p.2.pending r.id = some fp → fp.isAsync = false) :
    ¬w.AsyncDoorbell r := by
  rintro ⟨q, hq, fp, hfp, hasync⟩
  obtain ⟨j, hj⟩ := List.getElem?_of_mem hq
  by_cases hjk : j = k
  · subst hjk
    rw [Option.some.inj (hj.symm.trans hk)] at hfp
    rw [hsync fp hfp] at hasync
    cases hasync
  · have hnone := (hparts.ports.kept j q hj).none_of_ne hr fun heq =>
      hjk (Role.port.inj (hρ.symm.trans heq)).symm
    rw [holder] at hnone
    cases hflush : q.2.flushToVcpu r.id with
    | some u => simp [hflush] at hnone
    | none => simp [hflush, hfp] at hnone

/-- What the CPU owes nothing for is not synchronous. -/
theorem Inv.settled (hi : Inv c w) (hzero : w.cpu.owed v = 0) {r : Request}
    (hr : r ∈ w.cpu.host.inFlight) (hv : r.vcpu = v) : ¬w.Synchronous r := by
  rintro ⟨hcore, hasync⟩
  obtain ⟨ρ, hparts⟩ := hi.parts
  have hle : ∀ (k : ℕ) (p : BalarConfig × BalarPort), w.cpu.ports[k]? = some p →
      BalarPort.owed w.cpu.host p.2 v = 0 := fun k p hk =>
    Nat.le_zero.mp ((portOwed_le hk v).trans hzero.le)
  simp only [QuetzCpu.owed, Nat.add_eq_zero_iff] at hzero
  obtain ⟨⟨hcache, hgeneric⟩, -⟩ := hzero
  cases hρ : ρ r.id with
  | core => exact hcore ((hparts.core.own r hr).mp hρ)
  | cache =>
      have hkept := hparts.cache.kept r hr
      rw [if_pos hρ, bankHolder, Option.map_eq_some_iff] at hkept
      obtain ⟨p, hp, hpv⟩ := hkept
      rw [hv] at hpv
      obtain ⟨st, hst⟩ : ∃ st, w.cpu.bank.states[v]? = some st :=
        ⟨_, List.getElem?_eq_getElem (hpv ▸ hparts.cache.inv.inRange r.id p hp)⟩
      have hout := (hparts.cache.inv.owned v st hst).mpr ⟨r.id, p, hp, hpv⟩
      rw [(hparts.cache.idle_of_owed hst hcache).2] at hout
      cases hout
  | port k =>
      have hlt := hparts.ports.bound r hr k hρ
      have hk := List.getElem?_eq_getElem hlt
      have hheld := hparts.ports.kept k _ hk r hr
      rw [if_pos hρ, hv] at hheld
      obtain ⟨fp, hfp, has⟩ := async_of_owed_eq_zero (hparts.ports.inv k _ hk) (hle k _ hk) hr hheld
      exact hasync ⟨_, List.getElem_mem hlt, fp, hfp, has⟩
  | generic =>
      have hkept := hparts.generic.kept r hr
      rw [if_pos hρ, hv] at hkept
      rw [genericOwed, List.countP_eq_zero] at hgeneric
      exact hgeneric r hr (by simp [hkept])

/-- A window cache with an open transaction waits for a request in flight. -/
theorem cacheOwed_flying (hparts : Parts c w.coreIds ρ w.cpu) (hpos : 0 < cacheOwed w.cpu.bank v) :
    ∃ r ∈ w.cpu.host.inFlight, r.vcpu = v ∧ ρ r.id = .cache := by
  rw [cacheOwed] at hpos
  cases hst : w.cpu.bank.states[v]? with
  | none => simp [hst] at hpos
  | some st =>
      have hact : st.cache.active = true := by
        by_contra hne
        simp [hst, hne] at hpos
      have hout : st.outstanding = true := (hparts.cache.idle v st hst).symm.trans hact
      obtain ⟨id, p, hp, rfl⟩ := (hparts.cache.inv.owned v st hst).mp hout
      obtain ⟨r, hr, rfl⟩ := hparts.cache.flying id p hp
      obtain ⟨hρ, hv⟩ := hparts.cache.kept.role hr (by rw [bankHolder, hp]; rfl)
      exact ⟨r, hr, hv, hρ⟩

/-- A port that owes a response has an armed doorbell or a synchronous request in flight. -/
theorem portOwed_flying (hparts : Parts c w.coreIds ρ w.cpu) {k : ℕ}
    {p : BalarConfig × BalarPort} (hk : w.cpu.ports[k]? = some p)
    (hpos : 0 < BalarPort.owed w.cpu.host p.2 v) :
    (p.2.armedDoorbells v).isSome = true ∨ ∃ r ∈ w.cpu.host.inFlight, r.vcpu = v ∧
      ρ r.id = .port k ∧ ∀ fp, p.2.pending r.id = some fp → fp.isAsync = false := by
  have hinv := hparts.ports.inv k p hk
  have hkept := hparts.ports.kept k p hk
  by_cases harmed : (p.2.armedDoorbells v).isSome = true
  · exact Or.inl harmed
  refine Or.inr ?_
  cases hctx : p.2.doorbellFlushes v with
  | some ctx =>
      have hcount := hinv.remaining v
      rw [hctx, Option.elim_some] at hcount
      have hpos := hinv.remaining_pos v ctx hctx
      rw [hcount, List.countP_pos_iff] at hpos
      obtain ⟨r, hr, hheld⟩ := hpos
      have hflush : p.2.flushToVcpu r.id = some v := by simpa [flushHeld] using hheld
      obtain ⟨hρ, hv⟩ := hkept.role hr (by rw [holder, hflush])
      refine ⟨r, hr, hv, hρ, fun fp hfp => ?_⟩
      rw [hinv.role r.id v hflush] at hfp
      cases hfp
  | none =>
      simp only [BalarPort.owed, hctx, Option.toList_none, List.length_nil, Nat.add_zero,
        Option.isSome_iff_ne_none, ne_eq, not_not] at hpos harmed
      rw [harmed, Option.toList_none, List.length_nil, Nat.zero_add, List.countP_pos_iff] at hpos
      obtain ⟨r, hr, hheld⟩ := hpos
      rw [syncHeld] at hheld
      cases hfp : p.2.pending r.id with
      | none => simp [hfp] at hheld
      | some fp =>
          simp only [hfp, Bool.and_eq_true, beq_iff_eq, Bool.not_eq_true'] at hheld
          have hnone : p.2.flushToVcpu r.id = none := by
            cases hflush : p.2.flushToVcpu r.id with
            | none => rfl
            | some u =>
                rw [hinv.role r.id u hflush] at hfp
                cases hfp
          obtain ⟨hρ, hv⟩ := hkept.role hr (by rw [holder, hnone, hfp]; rfl)
          refine ⟨r, hr, hv.trans hheld.1, hρ, fun fp' hfp' => ?_⟩
          rw [← Option.some.inj (hfp.symm.trans hfp')]
          exact hheld.2

/-- Whoever is owed a response has a holder that will post it. -/
theorem Inv.blocked (hi : Inv c w) (hpos : 0 < w.cpu.owed v) :
    (∃ p ∈ w.cpu.ports, (p.2.armedDoorbells v).isSome = true) ∨
      ∃ r ∈ w.cpu.host.inFlight, r.vcpu = v ∧ w.Synchronous r := by
  obtain ⟨ρ, hparts⟩ := hi.parts
  have hsync : ∀ r ∈ w.cpu.host.inFlight, ρ r.id ≠ .core → ¬w.AsyncDoorbell r →
      w.Synchronous r := fun r hr hne hasync =>
    ⟨fun hmem => hne ((hparts.core.own r hr).mpr hmem), hasync⟩
  rcases Nat.eq_zero_or_pos (cacheOwed w.cpu.bank v) with hcache | hcache
  · rcases Nat.eq_zero_or_pos (genericOwed w.cpu.host w.cpu.genericPending v) with hgen | hgen
    · have hports : portsOwed w.cpu.host w.cpu.ports v ≠ 0 := by
        simp only [QuetzCpu.owed] at hpos
        omega
      obtain ⟨x, hx, hne⟩ := List.exists_mem_ne_zero_of_sum_ne_zero hports
      obtain ⟨p, hp, rfl⟩ := List.mem_map.mp hx
      obtain ⟨k, hk⟩ := List.getElem?_of_mem hp
      rcases portOwed_flying hparts hk (Nat.pos_of_ne_zero hne) with harmed | ⟨r, hr, hv, hρ, hfp⟩
      · exact Or.inl ⟨p, hp, harmed⟩
      · exact Or.inr ⟨r, hr, hv, hsync r hr (by simp [hρ])
          (not_asyncDoorbell_of_port hparts hr hk hρ hfp)⟩
    · rw [genericOwed, gt_iff_lt, List.countP_pos_iff] at hgen
      obtain ⟨r, hr, hheld⟩ := hgen
      obtain ⟨hρ, hv⟩ := hparts.generic.kept.role hr (by simpa using hheld)
      exact Or.inr ⟨r, hr, hv, hsync r hr (by simp [hρ])
        (not_asyncDoorbell hparts hr (by simp [hρ]))⟩
  · obtain ⟨r, hr, hv, hρ⟩ := cacheOwed_flying hparts hcache
    exact Or.inr ⟨r, hr, hv, hsync r hr (by simp [hρ])
      (not_asyncDoorbell hparts hr (by simp [hρ]))⟩

/-- **One answer for every command**, in every reachable state; and no event that a guest may
cause stops the simulation with the error of a second command. -/
theorem mmio_commands_answered_once (hw : Reachable c w) :
    w.AnsweredOnce ∧ ∀ e f, w.Allowed e → w.step c e = .error f → ¬f.Nested := by
  have hi := hw.inv
  refine ⟨⟨fun v => ?_, fun v req hreq => (hi.waiting v req hreq).1,
    fun v hv r hr hrv => hi.settled (hi.owed_eq_zero hv) hr hrv, fun v hv => hi.blocked ?_⟩,
    fun e f hallowed hstep => ?_⟩
  · have hbal := hi.balance v
    have howes := hi.owes v
    omega
  · have := hi.balance v
    omega
  · have hnext := hi.step hallowed
    rwa [hstep] at hnext

/-! ### A read and a doorbell -/

instance (req : MmioSyncRequest) : Decidable (Command req) :=
  inferInstanceAs (Decidable (_ ∨ _))

instance (w : CpuWorld) : (e : CpuEvent) → Decidable (w.Allowed e)
  | .publish .. => inferInstanceAs (Decidable (_ ∧ _))
  | .reset .. | .nativeStore .. | .poll | .process .. | .core .. | .answer .. =>
    inferInstanceAs (Decidable True)

/-- The state after the events, if all of them are allowed and none is fatal. -/
def run (c : CpuConfig) : List CpuEvent → CpuWorld → Option CpuWorld
  | [], w => some w
  | e :: es, w =>
    if w.Allowed e then
      match w.step c e with
      | .error _ => none
      | .ok w' => run c es w'
    else none

theorem Reachable.run {es : List CpuEvent} (hw : Reachable c w) (hrun : w.run c es = some w') :
    Reachable c w' := by
  induction es generalizing w with
  | nil =>
      cases hrun
      exact hw
  | cons e es ih =>
      rw [CpuWorld.run] at hrun
      by_cases hallowed : w.Allowed e
      · rw [if_pos hallowed] at hrun
        cases hstep : w.step c e with
        | error msg =>
            rw [hstep] at hrun
            cases hrun
        | ok w₁ =>
            rw [hstep] at hrun
            exact ih (hw.step hallowed hstep) hrun
      · rw [if_neg hallowed] at hrun
        cases hrun

/-- One port with packets of one line. -/
def onePort : CpuWorld where
  cpu := { ports := [({ doorbellAddr := 0x1000, packetFlushBytes := 64 }, {})] }

/-- A plain read, then a doorbell whose packet is flushed while a pipeline reads. -/
def readAndDoorbell : List CpuEvent :=
  [.publish 0 ⟨.mmioReadReq, 0x5000, 4, 0⟩, .poll, .answer 0 [1, 2, 3, 4] false,
    .publish 0 ⟨.mmioWriteReq, 0x1000, 8, 0x300⟩, .poll, .core 0 .mem (.read 0x40 8),
    .process (fun _ => true) (fun _ => [0]), .answer 1 [] false, .answer 1 [] false]

/-- After the run both commands are answered and the pipeline's read is still in flight. -/
theorem mmio_commands_answered_once_doorbell : ∃ w, Reachable {} w ∧
    (w.AnsweredOnce ∧ ∀ e f, w.Allowed e → w.step {} e = .error f → ¬f.Nested) ∧
    w.cpu.taken 0 = 2 ∧ w.cpu.host.posted 0 = 2 ∧ w.cpu.host.inFlight.length = 1 := by
  have hstart : onePort.Start {} :=
    ⟨rfl, by simp [onePort], rfl, rfl, rfl, rfl, rfl⟩
  have hfin : (run {} readAndDoorbell onePort).any (fun w =>
      decide (w.cpu.taken 0 = 2 ∧ w.cpu.host.posted 0 = 2 ∧
        w.cpu.host.inFlight.length = 1)) = true := by
    decide +kernel
  obtain ⟨w, hrun, hfin⟩ := (Option.any_eq_true _ _).mp hfin
  have hreach : Reachable {} w := (Reachable.start hstart).run hrun
  exact ⟨w, hreach, mmio_commands_answered_once hreach, of_decide_eq_true hfin⟩

end CpuWorld

end Quetz
