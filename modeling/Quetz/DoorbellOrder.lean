import Quetz.CoreTicks
import Quetz.PortSteps

/-!
# Drain, then Flush, then Doorbell

The order of a doorbell through a whole run of ticks. When a port releases an armed doorbell, the
pipeline of its vCPU has read and issued everything that was in the trace ring when the doorbell
was taken from the mailbox, and every request of it was answered; and the write of the doorbell
goes out only after one flush for every line of its packet was answered.

The first part is carried by `ArmedOk`: the poll comes before the tick of the core, so a core that
has ticked since with an empty queue and without stopping at its length has read the ring to its
end. The second part is the ledger of each port.

## Main results

* `Inv.step`: every event keeps the invariant.
* `drain_flush_doorbell`: the order, for every release and every write of a run.
-/

namespace Quetz

open BalarPort QuetzCpu

/-- At the release of the doorbell its vCPU has read all that was in the ring when the doorbell was
taken from the mailbox, all that it read is issued, and every request of it was answered. -/
structure Release.Drained (c : CoreContext) (r : Release) : Prop where
  read : r.seen <+: r.pipe.read
  idle : r.pipe.coreQ = [] ∧ r.pipe.pendingOp = none ∧ r.pipe.runRemaining = 0
  issued : r.pipe.emitter.traffic = r.pipe.read.flatMap (requestsOf c)
  answered : ∀ q ∈ r.pipe.emitter.issued, q ∉ r.flying

/-! ### The world of a machine -/

namespace CpuWorld

variable {c : CpuConfig} {ids : List ℕ} {cpu : QuetzCpu} {h h' : Host}

/-- The requests a pipeline sends. -/
theorem Inv.emitted {core : CoreContext} {e e' : MemRequestEmitter}
    (hi : Inv c ⟨{ cpu with host := h }, ids⟩) (hem : MemRequestEmitter.Emitted core h e h' e') :
    ∃ news, h'.inFlight = h.inFlight ++ news ∧ (∀ r ∈ news, h.nextId ≤ r.id) ∧
      Inv c ⟨{ cpu with host := h' }, ids ++ news.map Request.id⟩ := by
  induction hem with
  | refl => exact ⟨[], by simp, by simp, by simpa using hi⟩
  | addData stat n _ ih => exact ih
  | @emit h₁ e₁ link body hem ih =>
      obtain ⟨news, hflight, hnews, hi₁⟩ := ih
      obtain ⟨ρ, hparts⟩ := hi₁.parts
      refine ⟨news ++ [⟨h₁.nextId, core.coreId, link, body⟩], ?_, fun r hr => ?_, ?_⟩
      · rw [MemRequestEmitter.emit, Host.send, hflight, List.append_assoc]
      · rcases List.mem_append.mp hr with hr | hr
        · exact hnews r hr
        · rw [List.mem_singleton.mp hr]
          exact hem.grows.later.nextId
      · have hsend := hi₁.turned (hparts.coreSend core.coreId link body)
        rw [List.map_append, ← List.append_assoc]
        exact hsend

end CpuWorld

/-- One visit of a port is the loop over a single doorbell. -/
theorem processPorts_one {cpu : QuetzCpu} {k v : ℕ} {p : BalarConfig × BalarPort}
    {drained : ℕ → Bool} {h : Host} {s : BalarPort} (hk : cpu.ports[k]? = some p)
    (hrun : BalarPort.processOne p.1 drained v cpu.host p.2 = .ok (h, s)) :
    processPorts drained (fun _ => [v]) [k] cpu =
      .ok { cpu with host := h, ports := cpu.ports.set k (p.1, s) } := by
  rw [processPorts, hk]
  dsimp only
  rw [process, hrun]
  rfl

namespace Machine

variable {c : MachineConfig} {m m' : Machine} {now k u v : ℕ} {order : List ℕ}

/-! ### The invariant -/

/-- What holds of an armed doorbell: the commands that were in the ring when it was taken are in
the trace, and once its core has ticked and stands with an empty queue they are read. -/
structure ArmedOk (c : MachineConfig) (m : Machine) (k v : ℕ) : Prop where
  vcpu : v < c.cpu.vcpuCount
  seen : m.seen k v <+: m.trace v
  settled : m.turn.Past v → (m.pipes v).halted = false → (m.pipes v).coreQ = [] →
    (m.pipes v).refillHitCap = false →
      m.seen k v <+: (m.pipes v).read ∧ (m.pipes v).runRemaining = 0

/-- What holds of a release. -/
structure ReleaseOk (c : MachineConfig) (port : BalarConfig) (v : ℕ) (r : Release) : Prop where
  packet : r.FlushesPacket port v
  drained : r.pipe.halted = false → r.Drained (c.core v)

/-- What holds of the machine in every run. -/
structure Inv (c : MachineConfig) (m : Machine) : Prop where
  world : CpuWorld.Inv c.cpu m.world
  cores : CoresOk c m
  tracks : ∀ v, MemRequestEmitter.Tracks m.world.cpu.host (m.pipes v).emitter
  armed : ∀ k v a, m.world.cpu.armedAt k v = some a → ArmedOk c m k v
  ledger : ∀ k p v, m.world.cpu.ports[k]? = some p →
    Ledger m.world.cpu.host p.2 v (m.releases k v) (m.writes k v) []
  released : ∀ k p v, m.world.cpu.ports[k]? = some p →
    ∀ r ∈ m.releases k v, ReleaseOk c p.1 v r

theorem ArmedOk.noneTicks (ha : ArmedOk c m k v) (hm : NoneTicks c m m')
    (hseen : m'.seen k v = m.seen k v) : ArmedOk c m' k v := by
  have hv := hm.idles v
  refine ⟨ha.vcpu, ?_, fun hpast hgo hempty hcap => ?_⟩
  · rw [hseen]
    exact ha.seen.trans hv.trace
  · rw [hv.halted] at hgo
    rw [hv.coreQ] at hempty
    rw [hv.refillHitCap] at hcap
    rw [hseen, hv.read, hv.runRemaining]
    exact ha.settled (hm.past v ha.vcpu hpast) hgo hempty hcap

/-- A core that ticks and stands with an empty queue has read its ring to the end. -/
theorem ArmedOk.coreTicks (ha : ArmedOk c m k u) (hm : CoreTicks m m' v)
    (hseen : m'.seen k u = m.seen k u) : ArmedOk c m' k u := by
  by_cases huv : u = v
  · subst huv
    have htrace : m'.seen k u <+: m'.trace u := by
      rw [hseen, hm.written]
      exact ha.seen
    refine ⟨ha.vcpu, htrace, fun _ hgo hempty hcap => ?_⟩
    obtain ⟨hring, hremaining⟩ := hm.emptied hgo hempty hcap
    refine ⟨?_, hremaining⟩
    rw [Machine.trace, hring, List.append_nil] at htrace
    exact htrace
  · have hu := hm.others u huv
    refine ⟨ha.vcpu, ?_, fun hpast hgo hempty hcap => ?_⟩
    · rw [hseen]
      exact ha.seen.trans hu.trace
    · rw [hm.turn'] at hpast
      have hpast : m.turn.Past u := by
        rw [hm.turn]
        exact lt_of_le_of_ne (Nat.lt_succ_iff.mp hpast) huv
      rw [hu.halted] at hgo
      rw [hu.coreQ] at hempty
      rw [hu.refillHitCap] at hcap
      rw [hseen, hu.read, hu.runRemaining]
      exact ha.settled hpast hgo hempty hcap

/-! ### Steps that leave the ports alone -/

theorem Inv.quiet (hi : Inv c m) (hworld : CpuWorld.Inv c.cpu m'.world) (hcores : CoresOk c m')
    (htracks : ∀ v, MemRequestEmitter.Tracks m'.world.cpu.host (m'.pipes v).emitter)
    (harmed : ∀ k v, ArmedOk c m k v → ArmedOk c m' k v)
    (hlater : m.world.cpu.host.Later m'.world.cpu.host)
    (hports : m'.world.cpu.ports = m.world.cpu.ports) (hreleases : m'.releases = m.releases)
    (hwrites : m'.writes = m.writes) : Inv c m' := by
  refine ⟨hworld, hcores, htracks, fun k v a ha => ?_, fun k p v hk => ?_, fun k p v hk => ?_⟩
  · rw [armedAt, hports] at ha
    exact harmed k v (hi.armed k v a ha)
  · rw [hports] at hk
    rw [hreleases, hwrites]
    exact (hi.ledger k p v hk).stays (.of_later hlater)
  · rw [hports] at hk
    rw [hreleases]
    exact hi.released k p v hk

/-- The core of a vCPU ticks. -/
theorem Inv.tickCore (hi : Inv c m) (hturn : m.turn = .core v)
    (h : m.tickCore c now v = .ok m') : Inv c m' := by
  obtain ⟨hticks, hcores⟩ := tickCore_coreTicks hi.cores hturn h
  have hpipe : (m.pipeAt now v).Ok (c.core v) c.limits := (hi.cores.pipe v).quiet rfl
  have hticked := Pipeline.tick_ticked hpipe m.world.cpu.host (m.rings v)
  rw [Machine.tickCore] at h
  generalize (m.pipeAt now v).tick (c.core v) c.limits m.world.cpu.host (m.rings v) = res
    at h hticked
  dsimp only at h
  cases hfatal : res.2.2.fatal with
  | some e =>
      rw [hfatal] at h
      cases h
  | none =>
      rw [hfatal] at h
      obtain rfl := Except.ok.inj h
      have hemitted := hticked.emitted
      have hlater := hemitted.grows.later
      obtain ⟨ρ, hparts⟩ := hi.world.parts
      obtain ⟨news, hflight, hnews, hworld⟩ := hi.world.emitted hemitted
      have hnew : m.world.cpu.host.newRequests res.1 = news :=
        newRequests_append hparts.ok hflight hnews
      refine hi.quiet ?_ hcores (fun u => ?_) (fun j u ha => ha.coreTicks hticks rfl) hlater rfl rfl
        rfl
      · dsimp only
        rw [hnew]
        exact hworld
      · dsimp only
        by_cases hu : u = v
        · subst hu
          rw [Function.update_self]
          exact hemitted.tracks ((hi.tracks u).congr rfl rfl rfl)
        · rw [Function.update_of_ne hu]
          exact (hi.tracks u).later hlater

/-- A step that changes neither the cores nor the host. -/
theorem Inv.idle (hi : Inv c m) (hworld : CpuWorld.Inv c.cpu m'.world)
    (hnone : NoneTicks c m m') (hpipes : m'.pipes = m.pipes)
    (hhost : m'.world.cpu.host = m.world.cpu.host)
    (hports : m'.world.cpu.ports = m.world.cpu.ports) (hseen : m'.seen = m.seen)
    (hreleases : m'.releases = m.releases) (hwrites : m'.writes = m.writes) : Inv c m' := by
  refine hi.quiet hworld (hi.cores.of_pipes hpipes) (fun v => ?_)
    (fun k v ha => ha.noneTicks hnone (by rw [hseen])) ?_ hports hreleases hwrites
  · rw [hhost, hpipes]
    exact hi.tracks v
  · rw [hhost]
    exact .refl _

/-- A response that goes to the pipeline of its vCPU. -/
theorem Inv.response {i : ℕ} {r : Request} {resp : Response} (hi : Inv c m)
    (hr : m.world.cpu.host.inFlight[i]? = some r) (hworld : CpuWorld.Inv c.cpu m'.world)
    (hm' : m' = { m with
      world := { m.world with cpu := { m.world.cpu with host := m.world.cpu.host.take i } }
      pipes := Function.update m.pipes r.vcpu
        ((m.pipeAt now r.vcpu).handleMemResponse r.id resp) }) : Inv c m' := by
  obtain ⟨hcores, hnone⟩ : CoresOk c m' ∧ NoneTicks c m m' := by
    subst hm'
    exact response_noneTicks hi.cores rfl rfl rfl
  subst hm'
  have hlater : m.world.cpu.host.Later (m.world.cpu.host.take i) := Host.Later.take _ _
  obtain ⟨ρ, hparts⟩ := hi.world.parts
  refine hi.quiet hworld hcores (fun u => ?_) (fun k u ha => ha.noneTicks hnone rfl) hlater rfl rfl
    rfl
  dsimp only
  by_cases hu : u = r.vcpu
  · subst hu
    obtain ⟨e, stats, hresp, he⟩ :=
      Pipeline.handleMemResponse_frame r.id resp (m.pipeAt now r.vcpu)
    have htracks : MemRequestEmitter.Tracks m.world.cpu.host (m.pipeAt now r.vcpu).emitter :=
      (hi.tracks r.vcpu).congr rfl rfl rfl
    rw [Function.update_self, hresp, he]
    exact htracks.response hparts.ok hr
  · rw [Function.update_of_ne hu]
    exact (hi.tracks u).later hlater

/-! ### Polls -/

theorem armedAt_eq {cpu : QuetzCpu} {p : BalarConfig × BalarPort} (hk : cpu.ports[k]? = some p) :
    cpu.armedAt k v = p.2.armedDoorbells v := by
  rw [armedAt, hk]
  rfl

theorem exists_port_of_armedAt {cpu : QuetzCpu} {a : ArmedDoorbell}
    (ha : cpu.armedAt k v = some a) : ∃ p, cpu.ports[k]? = some p := by
  rw [armedAt] at ha
  cases hk : cpu.ports[k]? with
  | none =>
      rw [hk] at ha
      cases ha
  | some p => exact ⟨p, rfl⟩

/-- **The poll of a vCPU**: a doorbell armed now is the one of this vCPU, and what was in its ring
is what its trace holds. -/
theorem Inv.poll (hi : Inv c m) (hv : v < c.cpu.vcpuCount) (h : m.poll c v = .ok m') :
    Inv c m' := by
  obtain ⟨hcores, hnone⟩ := poll_noneTicks hi.cores h
  rw [Machine.poll] at h
  have hworld := hi.world.pollVcpu (v := v)
  cases hpoll : pollVcpu c.cpu v m.world.cpu with
  | error e =>
      rw [hpoll] at h
      cases h
  | ok cpu =>
      rw [hpoll] at h hworld
      obtain rfl := Except.ok.inj h
      obtain ⟨hlater, hports⟩ := pollVcpu_step hpoll
      refine ⟨hworld, hcores, fun u => (hi.tracks u).later hlater, fun k u a ha => ?_,
        fun k p' u hk => ?_, fun k p' u hk => ?_⟩
      · dsimp only at ha
        by_cases hsame : cpu.armedAt k u = m.world.cpu.armedAt k u
        · exact (hi.armed k u a (hsame ▸ ha)).noneTicks hnone (if_pos hsame)
        · obtain ⟨p', hk⟩ := exists_port_of_armedAt ha
          obtain ⟨p, hp, -, hcommanded⟩ := hports k p' hk
          have huv : u = v := by
            by_contra hne
            rw [armedAt_eq hk, armedAt_eq hp] at hsame
            exact hsame (hcommanded.armed u hne)
          subst huv
          refine ⟨hv, ?_, fun hpast => hpast.elim⟩
          dsimp only
          rw [if_neg hsame]
          exact (hnone.idles u).trace
      · obtain ⟨p, hp, -, hcommanded⟩ := hports k p' hk
        exact (hi.ledger k p u hp).stays (hcommanded.stays u)
      · obtain ⟨p, hp, hconfig, -⟩ := hports k p' hk
        rw [hconfig]
        exact hi.released k p u hp

/-! ### Steps of the ports -/

/-- What a step of a port does to the doorbells of a vCPU. -/
structure PortKeeps (c : MachineConfig) (m : Machine) (cpu : QuetzCpu) (k v : ℕ)
    (p : BalarConfig × BalarPort) (s' : BalarPort) : Prop where
  armed : ∀ a, s'.armedDoorbells v = some a → p.2.armedDoorbells v = some a
  ledger : Ledger cpu.host s' v (m.releases k v ++ m.released cpu k v)
    (m.writes k v ++ doorbellWrites m.world.cpu.host cpu.host s' v) []
  released : ∀ r ∈ m.released cpu k v, ReleaseOk c p.1 v r

theorem Inv.observe {cpu : QuetzCpu} (hi : Inv c m)
    (hworld : CpuWorld.Inv c.cpu { m.world with cpu := cpu })
    (hlater : m.world.cpu.host.Later cpu.host)
    (hports : ∀ (k : ℕ) (p' : BalarConfig × BalarPort), cpu.ports[k]? = some p' →
      ∃ p, m.world.cpu.ports[k]? = some p ∧ p'.1 = p.1 ∧ ∀ v, PortKeeps c m cpu k v p p'.2)
    (hpast : ∀ v < c.cpu.vcpuCount, m'.turn.Past v → m.turn.Past v)
    (hm' : m' = { m.observe cpu with turn := m'.turn }) : Inv c m' := by
  have hnone : NoneTicks c m m' := by
    refine .of_eq ?_ ?_ hpast
    · rw [hm']
      rfl
    · rw [hm']
      rfl
  generalize m'.turn = turn at hm'
  subst hm'
  refine ⟨hworld, hi.cores.of_pipes rfl, fun u => (hi.tracks u).later hlater, fun k u a ha => ?_,
    fun k p' u hk => ?_, fun k p' u hk => ?_⟩
  · obtain ⟨p', hk⟩ := exists_port_of_armedAt ha
    obtain ⟨p, hp, -, hkeeps⟩ := hports k p' hk
    have hold : m.world.cpu.armedAt k u = some a := by
      rw [armedAt_eq hp]
      refine (hkeeps u).armed a ?_
      rw [← armedAt_eq hk]
      exact ha
    exact (hi.armed k u a hold).noneTicks hnone rfl
  · obtain ⟨p, hp, -, hkeeps⟩ := hports k p' hk
    have hwritten : m.written cpu k u = doorbellWrites m.world.cpu.host cpu.host p'.2 u := by
      have hk : cpu.ports[k]? = some p' := hk
      rw [Machine.written, hk]
      rfl
    have hledger := (hkeeps u).ledger
    rw [← hwritten] at hledger
    exact hledger
  · obtain ⟨p, hp, hconfig, hkeeps⟩ := hports k p' hk
    rw [hconfig]
    intro r hr
    rcases List.mem_append.mp hr with hr | hr
    · exact hi.released k p u hp r hr
    · exact (hkeeps u).released r hr

/-- No doorbell is released where the armed one stays. -/
theorem released_of_eq {cpu : QuetzCpu} (h : cpu.armedAt k v = m.world.cpu.armedAt k v) :
    m.released cpu k v = [] := by
  rw [released, h]
  cases m.world.cpu.armedAt k v <;> rfl

/-- A response keeps the doorbells of a port. -/
theorem Inv.portKeeps_responded (hi : Inv c m) {cpu : QuetzCpu}
    {p p' : BalarConfig × BalarPort} (hk : m.world.cpu.ports[k]? = some p)
    (hk' : cpu.ports[k]? = some p') (hr : Responded m.world.cpu.host cpu.host p.2 p'.2) :
    PortKeeps c m cpu k v p p'.2 := by
  have hnone : m.released cpu k v = [] := by
    refine released_of_eq ?_
    rw [armedAt_eq hk, armedAt_eq hk', hr.armed]
  refine ⟨fun a ha => ?_, ?_, ?_⟩
  · rw [← hr.armed]
    exact ha
  · rw [hnone, List.append_nil]
    exact hr.ledger (hi.ledger k p v hk)
  · rw [hnone]
    exact fun r hr => (by cases hr)

/-- **A release** finds the pipeline of its vCPU drained, and with it the trace that was there when
the doorbell was taken. -/
theorem Inv.drained {r : Release} {a : ArmedDoorbell} (hi : Inv c m)
    (ha : m.world.cpu.armedAt k v = some a) (hpast : m.turn.Past v)
    (hdrained : (m.pipes v).isDrained = true) (hseen : r.seen = m.seen k v)
    (hpipe : r.pipe = m.pipes v) (hflying : r.flying = m.world.cpu.host.inFlight)
    (hgo : r.pipe.halted = false) : r.Drained (c.core v) := by
  rw [hpipe] at hgo
  rw [Pipeline.isDrained, hgo, Bool.false_or, Bool.and_eq_true, Bool.and_eq_true, beq_iff_eq,
    List.isEmpty_iff, Bool.not_eq_true'] at hdrained
  obtain ⟨hcount, hempty, hcap⟩ := hdrained
  obtain ⟨hread, hremaining⟩ := (hi.armed k v a ha).settled hpast hgo hempty hcap
  obtain ⟨hop, -, htraffic⟩ := (hi.cores.pipe v).all_issued hgo hempty
  have htracks := hi.tracks v
  have hnone : (m.pipes v).emitter.pendingTxns = [] := by
    rw [← List.length_eq_zero_iff, ← htracks.count, hcount]
  refine ⟨?_, ?_, ?_, fun q hq hmem => ?_⟩
  · rw [hseen, hpipe]
    exact hread
  · rw [hpipe]
    exact ⟨hempty, hop, hremaining⟩
  · rw [hpipe]
    exact htraffic
  · rw [hpipe] at hq
    rw [hflying] at hmem
    obtain ⟨p, hp, -⟩ := htracks.waits q hq hmem
    rw [hnone] at hp
    cases hp

/-- The doorbells of the port that releases one. -/
theorem Inv.portKeeps_released {cpu : QuetzCpu} {p : BalarConfig × BalarPort} {s' : BalarPort}
    {a : ArmedDoorbell} (hi : Inv c m) (hk : m.world.cpu.ports[k]? = some p)
    (hk' : cpu.ports[k]? = some (p.1, s')) (harmed : p.2.armedDoorbells v = some a)
    (hpast : m.turn.Past v) (hdrained : (m.pipes v).isDrained = true)
    (hr : Released p.1 v a m.world.cpu.host cpu.host p.2 s') (u : ℕ) :
    PortKeeps c m cpu k u p s' := by
  have hold : ∀ u, m.world.cpu.armedAt k u = p.2.armedDoorbells u := fun u => armedAt_eq hk
  have hnew : ∀ u, cpu.armedAt k u = Function.update p.2.armedDoorbells v none u := fun u => by
    rw [armedAt_eq hk', ← hr.armed]
  by_cases huv : u = v
  · subst huv
    have hreleased : m.released cpu k u =
        [{ armed := a
           seen := m.seen k u
           pipe := m.pipes u
           flying := m.world.cpu.host.inFlight
           flushes := (m.world.cpu.host.newRequests cpu.host).filter Request.isFlush }] := by
      rw [Machine.released, hold u, hnew u, harmed, Function.update_self]
    refine ⟨fun b hb => ?_, ?_, ?_⟩
    · rw [hr.armed, Function.update_self] at hb
      cases hb
    · rw [hreleased]
      exact hr.own _ rfl rfl (hi.ledger k p u hk)
    · rw [hreleased]
      intro r hmem
      obtain rfl := List.mem_singleton.mp hmem
      exact ⟨hr.packet _ rfl rfl,
        hi.drained ((hold u).trans harmed) hpast hdrained rfl rfl rfl⟩
  · obtain ⟨hstays, hwrites⟩ := hr.others huv
    have hnone : m.released cpu k u = [] := by
      refine released_of_eq ?_
      rw [hold u, hnew u, Function.update_of_ne huv]
    refine ⟨fun b hb => ?_, ?_, ?_⟩
    · rw [hr.armed, Function.update_of_ne huv] at hb
      exact hb
    · rw [hnone, hwrites, List.append_nil, List.append_nil]
      exact (hi.ledger k p u hk).stays hstays
    · rw [hnone]
      exact fun r hmem => (by cases hmem)

/-- The visit of a port to one of its armed doorbells. -/
theorem Inv.processOne {os : List ℕ} (hi : Inv c m) (hturn : m.turn = .process k os)
    (h : m.processOne k v order = .ok m') : Inv c m' := by
  obtain ⟨-, hnone⟩ := processOne_noneTicks hi.cores hturn h
  obtain ⟨ρ, hparts⟩ := hi.world.parts
  rw [Machine.processOne] at h
  cases hk : m.world.cpu.ports[k]? with
  | none =>
      rw [hk] at h
      obtain rfl := Except.ok.inj h
      exact hi.idle hi.world hnone rfl rfl rfl rfl rfl rfl
  | some p =>
      rw [hk] at h
      dsimp only at h
      cases hrun : BalarPort.processOne p.1 (fun u => (m.pipes u).isDrained) v
          m.world.cpu.host p.2 with
      | error e =>
          rw [hrun] at h
          cases h
      | ok res =>
          obtain ⟨h', s'⟩ := res
          rw [hrun] at h
          have hm' := (Except.ok.inj h).symm
          have hworld := hparts.processPorts (fun u => (m.pipes u).isDrained) (fun _ => [v]) [k]
            hi.world.owes hi.world.unlinked
          rw [processPorts_one hk hrun] at hworld
          have hinv : PortInv m.world.cpu.host p.2 := hparts.ports.inv k p hk
          have hself : (m.world.cpu.ports.set k (p.1, s'))[k]? = some (p.1, s') :=
            List.getElem?_set_self (List.getElem?_eq_some_iff.mp hk).1
          have hcases := processOne_released hparts.ok hinv.toMapsOk hrun
          have hlater : m.world.cpu.host.Later h' := by
            rcases hcases with ⟨rfl, -⟩ | ⟨a, -, -, hr⟩
            · exact .refl _
            · exact hr.later
          refine hi.observe (hi.world.turned hworld) hlater (fun j p' hj => ?_) hnone.past
            (by rw [hm'])
          by_cases hjk : j = k
          · subst hjk
            rw [hself] at hj
            obtain rfl := Option.some.inj hj
            refine ⟨p, hk, rfl, fun u => ?_⟩
            rcases hcases with ⟨rfl, rfl⟩ | ⟨a, harmed, hdrained, hr⟩
            · exact hi.portKeeps_responded hk hself (responded_of_later hinv.toMapsOk (.refl _))
            · have hpast : m.turn.Past v := by
                rw [hturn]
                trivial
              exact hi.portKeeps_released hk hself harmed hpast hdrained hr u
          · have hj' : (m.world.cpu.ports.set k (p.1, s'))[j]? = some p' := hj
            rw [List.getElem?_set_ne (Ne.symm hjk)] at hj'
            refine ⟨p', hj', rfl, fun u => hi.portKeeps_responded hj' hj ?_⟩
            exact responded_of_later (hparts.ports.inv j p' hj').toMapsOk hlater

/-! ### Answers -/

/-- A request is answered: the synchronous path takes the response, or a pipeline. -/
theorem Inv.answer {i : ℕ} {data : List UInt8} {fail : Bool} (hi : Inv c m)
    (h : m.answer c now i data fail = .ok m') : Inv c m' := by
  have hnext := hi.world.step (e := .answer i data fail) trivial
  obtain ⟨ρ, hparts⟩ := hi.world.parts
  rw [CpuWorld.step] at hnext
  rw [Machine.answer] at h
  cases hr : m.world.cpu.host.inFlight[i]? with
  | none =>
      rw [hr] at h
      obtain rfl := Except.ok.inj h
      exact hi
  | some r =>
      rw [hr] at h hnext
      dsimp only at h hnext
      rw [CpuWorld.deliver] at hnext
      dsimp only at hnext
      by_cases hlink : c.cpu.hasMmio r.vcpu = true
      · rw [if_pos hlink] at h hnext
        cases hsync : completeMmioSyncResponse r.vcpu r.id (r.body.response data) fail
            { m.world.cpu with host := m.world.cpu.host.take i } with
        | error e =>
            rw [hsync] at h
            cases h
        | ok res =>
            rw [hsync] at h hnext
            cases res with
            | none =>
                obtain rfl := Except.ok.inj h
                exact hi.response hr hnext rfl
            | some cpu =>
                obtain rfl := Except.ok.inj h
                obtain ⟨hlater, hports⟩ := completeMmioSyncResponse_step hparts hr hsync
                refine hi.observe hnext hlater (fun k p' hk => ?_) (fun _ _ => id) rfl
                obtain ⟨p, hp, hconfig, hresponded⟩ := hports k p' hk
                exact ⟨p, hp, hconfig, fun u => hi.portKeeps_responded hp hk hresponded⟩
      · rw [if_neg hlink] at h hnext
        obtain rfl := Except.ok.inj h
        exact hi.response hr hnext rfl

/-! ### Runs -/

/-- The next part of a tick. -/
theorem Inv.advance (hi : Inv c m) (h : m.advance c now order = .ok m') : Inv c m' := by
  obtain ⟨-, hcores⟩ := advance_cores hi.cores h
  rw [Machine.advance] at h
  cases hturn : m.turn with
  | poll v =>
      rw [hturn] at h
      dsimp only at h
      by_cases hv : v < c.cpu.vcpuCount
      · rw [if_pos hv] at h
        exact hi.poll hv h
      · rw [if_neg hv] at h
        obtain rfl := Except.ok.inj h
        refine hi.idle hi.world (.of_eq rfl rfl fun u _ hpast => ?_) rfl rfl rfl rfl rfl rfl
        cases hpast
  | core v =>
      rw [hturn] at h
      dsimp only at h
      by_cases hv : v < c.cpu.vcpuCount
      · rw [if_pos hv] at h
        exact hi.tickCore hturn h
      · rw [if_neg hv] at h
        obtain rfl := Except.ok.inj h
        refine hi.idle hi.world (.of_eq rfl rfl fun u hu _ => ?_) rfl rfl rfl rfl rfl rfl
        rw [hturn]
        exact hu.trans_le (Nat.le_of_not_lt hv)
  | process k os =>
      rw [hturn] at h
      cases os with
      | cons v os => exact hi.processOne hturn h
      | nil =>
          obtain rfl := Except.ok.inj h
          refine hi.idle hi.world (.of_eq rfl rfl fun u _ _ => ?_) rfl rfl rfl rfl rfl rfl
          rw [hturn]
          trivial

/-- **One event.** -/
theorem Inv.step {e : MachineEvent} (hi : Inv c m) (he : m.Allowed e) (h : m.step c e = .ok m') :
    Inv c m' := by
  cases e with
  | push vcpu cmds =>
      obtain ⟨-, hnone⟩ := step_cores hi.cores h fun _ _ h => by cases h
      obtain rfl := Except.ok.inj h
      exact hi.idle hi.world hnone rfl rfl rfl rfl rfl rfl
  | publish vcpu req =>
      have hworld := hi.world.step (e := .publish vcpu req) he
      obtain rfl := Except.ok.inj h
      exact hi.idle hworld (.of_eq rfl rfl fun _ _ => id) rfl rfl rfl rfl rfl rfl
  | reset vcpu =>
      have hworld := hi.world.step (e := .reset vcpu) trivial
      obtain rfl := Except.ok.inj h
      exact hi.idle hworld (.of_eq rfl rfl fun _ _ => id) rfl rfl rfl rfl rfl rfl
  | nativeStore native =>
      have hworld := hi.world.step (e := .nativeStore native) trivial
      obtain rfl := Except.ok.inj h
      exact hi.idle hworld (.of_eq rfl rfl fun _ _ => id) rfl rfl rfl rfl rfl rfl
  | answer now i data fail => exact hi.answer h
  | advance now order => exact hi.advance h

theorem Start.inv (hm : m.Start c) : Inv c m := by
  have hpipe : ∀ v, m.pipes v = {} := fun v => congrFun hm.pipes v
  have hnone : ∀ (k : ℕ) (p : BalarConfig × BalarPort), m.world.cpu.ports[k]? = some p →
      p.2 = {} := fun k p hk => hm.world.ports p (List.mem_of_getElem? hk)
  refine ⟨.start hm.world, ⟨fun v => ?_, fun v => ?_⟩, fun v => ?_, fun k v a ha => ?_,
    fun k p v hk => ?_, fun k p v hk => ?_⟩
  · rw [hpipe v]
    exact Pipeline.ok_start _ _
  · rw [hpipe v]
  · rw [hpipe v]
    exact ⟨rfl, .nil, by simp, by simp, by simp⟩
  · obtain ⟨p, hk⟩ := exists_port_of_armedAt ha
    rw [armedAt_eq hk, hnone k p hk] at ha
    cases ha
  · rw [hnone k p hk, hm.releases, hm.writes]
    exact ⟨[], none, [], .nil, .nil, rfl, by simp, .nil⟩
  · rw [hm.releases]
    exact fun r hr => by cases hr

/-- **The whole run.** -/
theorem Reachable.inv (hm : Reachable c m) : Inv c m := by
  induction hm with
  | start hs => exact hs.inv
  | step _ he hstep ih => exact ih.step he hstep

/-- **Drain, then flush, then doorbell**: in every state of every run, every release of a doorbell
found the pipeline of its vCPU drained unless it had halted, and sent one flush for every line of
the packet; and every write of a doorbell is the write of a release, sent after all the flushes of
that release were answered. -/
theorem drain_flush_doorbell {p : BalarConfig × BalarPort} (hm : Reachable c m)
    (hk : m.world.cpu.ports[k]? = some p) :
    (∀ r ∈ m.releases k v,
      (r.pipe.halted = false → r.Drained (c.core v)) ∧ r.FlushesPacket p.1 v) ∧
    ∃ sent, List.Forall₂ (DoorbellWrite.Sends v) (m.writes k v) sent ∧
      sent.Subperm (m.releases k v) := by
  have hi := hm.inv
  constructor
  · intro r hr
    have hok := hi.released k p v hk r hr
    exact ⟨hok.drained, hok.packet⟩
  · obtain ⟨sent, waiting, queued, hp⟩ := hi.ledger k p v hk
    exact ⟨sent, hp.sends, (List.sublist_append_left _ _).subperm.trans hp.all.subperm⟩

/-! ### A store and a doorbell -/

instance (m : Machine) : ∀ e, Decidable (m.Allowed e)
  | .publish vcpu req => inferInstanceAs (Decidable (m.world.Allowed (.publish vcpu req)))
  | .push .. | .reset .. | .nativeStore .. | .answer .. | .advance .. =>
    inferInstanceAs (Decidable True)

/-- The machine after the events, if all of them are allowed and none is fatal. -/
def run (c : MachineConfig) : List MachineEvent → Machine → Option Machine
  | [], m => some m
  | e :: es, m =>
    if m.Allowed e then
      match m.step c e with
      | .error _ => none
      | .ok m' => run c es m'
    else none

theorem Reachable.run {es : List MachineEvent} (hm : Reachable c m)
    (hrun : Machine.run c es m = some m') : Reachable c m' := by
  induction es generalizing m with
  | nil =>
      obtain rfl := Option.some.inj hrun
      exact hm
  | cons e es ih =>
      rw [Machine.run] at hrun
      by_cases he : m.Allowed e
      · rw [if_pos he] at hrun
        cases hstep : m.step c e with
        | error _ =>
            rw [hstep] at hrun
            cases hrun
        | ok m₁ =>
            rw [hstep] at hrun
            exact ih (hm.step he hstep) hrun
      · rw [if_neg he] at hrun
        cases hrun

/-- A store to the packet is in the ring when its doorbell is rung; the first tick issues the
store, and the second one finds it answered. -/
def storeAndDoorbell : List MachineEvent :=
  [.push 0 [{ cmd := .write, addr := 0x300, size := 8, data := [1, 2, 3, 4, 5, 6, 7, 8] }],
    .publish 0 ⟨.mmioWriteReq, 0x1000, 8, 0x300⟩] ++
    List.replicate 8 (.advance 0 [0]) ++ [.answer 0 0 [] false] ++
    List.replicate 8 (.advance 0 [0]) ++ [.answer 0 0 [] false]

/-- After the run the doorbell was released once and is on the link. -/
theorem drain_flush_doorbell_store : ∃ m p, Reachable {} m ∧ m.world.cpu.ports[0]? = some p ∧
    (m.releases 0 0).length = 1 ∧ (m.writes 0 0).length = 1 ∧
    (∀ r ∈ m.releases 0 0,
      (r.pipe.halted = false → r.Drained { coreId := 0 }) ∧ r.FlushesPacket p.1 0) ∧
    ∃ sent, List.Forall₂ (DoorbellWrite.Sends 0) (m.writes 0 0) sent ∧
      sent.Subperm (m.releases 0 0) := by
  have hstart : Start {} { world := CpuWorld.onePort } :=
    ⟨⟨rfl, by simp [CpuWorld.onePort], rfl, rfl, rfl, rfl, rfl⟩, rfl, rfl, rfl, rfl⟩
  have hfin : (run {} storeAndDoorbell { world := CpuWorld.onePort }).any (fun m =>
      decide (m.world.cpu.ports.length = 1 ∧ (m.releases 0 0).length = 1 ∧
        (m.writes 0 0).length = 1)) = true := by
    decide +kernel
  obtain ⟨m, hrun, hfin⟩ := (Option.any_eq_true _ _).mp hfin
  obtain ⟨hports, hreleases, hwrites⟩ := of_decide_eq_true hfin
  have hm : Reachable {} m := (Reachable.start hstart).run hrun
  have hk := List.getElem?_eq_getElem (hports ▸ Nat.one_pos : 0 < m.world.cpu.ports.length)
  exact ⟨m, _, hm, hk, hreleases, hwrites, drain_flush_doorbell hm hk⟩

end Machine

end Quetz
