import Quetz.CpuTick

/-!
# The Cores in a Tick

What one step of the machine does to its cores. At most one core ticks, and only in its part of the
tick; the others at most take a response, and at most commands are written to their rings. A core
that ticks and leaves an empty queue without having stopped at its length has read its ring to the
end.

## Main results

* `advance_cores`: the next part of a tick, with one core that ticks or none.
* `step_cores`: no core ticks in any other event.
-/

namespace Quetz

/-- A halted pipeline does nothing. -/
theorem Pipeline.tick_of_halted {c : CoreContext} {l : PipelineLimits} {h : Host}
    {ring : List QuetzCommand} {s : Pipeline} (hs : s.halted = true) :
    s.tick c l h ring = (h, ring, s) := by
  rw [tick, if_pos (Or.inl hs)]

/-- In this part of a tick the core of the vCPU has ticked already. -/
def Turn.Past (vcpu : ℕ) : Turn → Prop
  | .poll _ => False
  | .core u => vcpu < u
  | .process _ _ => True

/-- Every command that was written to the ring of the vCPU. -/
def Machine.trace (m : Machine) (vcpu : ℕ) : List QuetzCommand :=
  (m.pipes vcpu).read ++ m.rings vcpu

namespace Machine

variable {c : MachineConfig} {m m' : Machine} {now v : ℕ} {order : List ℕ}

/-- Every pipeline is well formed, and the simulation stopped in none. -/
structure CoresOk (c : MachineConfig) (m : Machine) : Prop where
  pipe : ∀ v, (m.pipes v).Ok (c.core v) c.limits
  fatal : ∀ v, (m.pipes v).fatal = none

/-- The pipelines decide. -/
theorem CoresOk.of_pipes (hok : CoresOk c m) (hpipes : m'.pipes = m.pipes) : CoresOk c m' := by
  constructor
  · rw [hpipes]
    exact hok.pipe
  · rw [hpipes]
    exact hok.fatal

/-- One pipeline is replaced by another that is in order. -/
theorem CoresOk.update {p : Pipeline} (hok : CoresOk c m)
    (hpipes : m'.pipes = Function.update m.pipes v p) (hp : p.Ok (c.core v) c.limits)
    (hfatal : p.fatal = none) : CoresOk c m' := by
  constructor
  · intro u
    rw [hpipes]
    by_cases hu : u = v
    · subst hu
      rw [Function.update_self]
      exact hp
    · rw [Function.update_of_ne hu]
      exact hok.pipe u
  · intro u
    rw [hpipes]
    by_cases hu : u = v
    · subst hu
      rw [Function.update_self]
      exact hfatal
    · rw [Function.update_of_ne hu]
      exact hok.fatal u

/-- The core of the vCPU does not tick: at most a response arrives for it, and at most commands
are written to its ring. -/
structure Idles (m m' : Machine) (v : ℕ) : Prop where
  halted : (m'.pipes v).halted = (m.pipes v).halted
  coreQ : (m'.pipes v).coreQ = (m.pipes v).coreQ
  refillHitCap : (m'.pipes v).refillHitCap = (m.pipes v).refillHitCap
  runRemaining : (m'.pipes v).runRemaining = (m.pipes v).runRemaining
  read : (m'.pipes v).read = (m.pipes v).read
  written : m.rings v <+: m'.rings v

/-- The pipeline and the ring are as they were. -/
theorem Idles.of_eq (hpipe : m'.pipes v = m.pipes v) (hring : m'.rings v = m.rings v) :
    Idles m m' v := by
  refine ⟨?_, ?_, ?_, ?_, ?_, hring ▸ List.prefix_rfl⟩
  all_goals rw [hpipe]

/-- What was written to a ring stays in its trace. -/
theorem Idles.trace (hm : Idles m m' v) : m.trace v <+: m'.trace v := by
  rw [Machine.trace, Machine.trace, hm.read]
  exact (List.prefix_append_right_inj _).mpr hm.written

/-- The core of the vCPU ticks. -/
structure CoreTicks (m m' : Machine) (v : ℕ) : Prop where
  turn : m.turn = .core v
  turn' : m'.turn = .core (v + 1)
  others : ∀ u, u ≠ v → Idles m m' u
  halted : (m.pipes v).halted = true → (m'.pipes v).halted = true
  written : m'.trace v = m.trace v
  emptied : (m'.pipes v).halted = false → (m'.pipes v).coreQ = [] →
    (m'.pipes v).refillHitCap = false → m'.rings v = [] ∧ (m'.pipes v).runRemaining = 0

/-- The turn of a core. -/
theorem tickCore_coreTicks (hok : CoresOk c m) (hturn : m.turn = .core v)
    (h : m.tickCore c now v = .ok m') : CoreTicks m m' v ∧ CoresOk c m' := by
  have hpipe : (m.pipeAt now v).Ok (c.core v) c.limits := (hok.pipe v).quiet rfl
  have hticked := Pipeline.tick_ticked hpipe m.world.cpu.host (m.rings v)
  have hhalted : (m.pipes v).halted = true → ((m.pipeAt now v).tick (c.core v) c.limits
      m.world.cpu.host (m.rings v)).2.2.halted = true := by
    intro hh
    have hh : (m.pipeAt now v).halted = true := hh
    rw [Pipeline.tick_of_halted hh]
    exact hh
  rw [tickCore] at h
  generalize (m.pipeAt now v).tick (c.core v) c.limits m.world.cpu.host (m.rings v) = res
    at h hticked hhalted
  dsimp only at h
  cases hfatal : res.2.2.fatal with
  | some e =>
      rw [hfatal] at h
      cases h
  | none =>
      rw [hfatal] at h
      obtain rfl := Except.ok.inj h
      refine ⟨⟨hturn, rfl, fun u hu => ?_, fun hh => ?_, ?_, fun hgo hempty hcap => ?_⟩,
        hok.update rfl hticked.ok hfatal⟩
      · exact Idles.of_eq (Function.update_of_ne hu _ _) (Function.update_of_ne hu _ _)
      · dsimp only
        rw [Function.update_self]
        exact hhalted hh
      · rw [Machine.trace, Machine.trace]
        dsimp only
        rw [Function.update_self, Function.update_self]
        exact hticked.ring
      · dsimp only at hgo hempty hcap ⊢
        rw [Function.update_self] at hgo hempty hcap
        rw [Function.update_self, Function.update_self]
        exact hticked.drained (hok.fatal v) hgo hempty hcap

/-! ### The steps of the machine -/

/-- No core ticks in the step. -/
structure NoneTicks (c : MachineConfig) (m m' : Machine) : Prop where
  idles : ∀ v, Idles m m' v
  past : ∀ v < c.cpu.vcpuCount, m'.turn.Past v → m.turn.Past v

/-- The step leaves the cores and their rings alone. -/
theorem NoneTicks.of_eq (hpipes : m'.pipes = m.pipes) (hrings : m'.rings = m.rings)
    (hpast : ∀ v < c.cpu.vcpuCount, m'.turn.Past v → m.turn.Past v) : NoneTicks c m m' := by
  refine ⟨fun v => Idles.of_eq ?_ ?_, hpast⟩
  · rw [hpipes]
  · rw [hrings]

/-- The poll of a mailbox. -/
theorem poll_noneTicks (hok : CoresOk c m) (h : m.poll c v = .ok m') :
    CoresOk c m' ∧ NoneTicks c m m' := by
  rw [poll] at h
  cases hpoll : QuetzCpu.pollVcpu c.cpu v m.world.cpu with
  | error e =>
      rw [hpoll] at h
      cases h
  | ok cpu =>
      rw [hpoll] at h
      obtain rfl := Except.ok.inj h
      exact ⟨hok.of_pipes rfl, .of_eq rfl rfl fun u _ hpast => hpast.elim⟩

/-- The turn of an armed doorbell. -/
theorem processOne_noneTicks {port : ℕ} {os : List ℕ} (hok : CoresOk c m)
    (hturn : m.turn = .process port os) (h : m.processOne port v order = .ok m') :
    CoresOk c m' ∧ NoneTicks c m m' := by
  have hpast : ∀ u < c.cpu.vcpuCount, m'.turn.Past u → m.turn.Past u := by
    intro u _ _
    rw [hturn]
    trivial
  rw [processOne] at h
  cases hport : m.world.cpu.ports[port]? with
  | none =>
      rw [hport] at h
      obtain rfl := Except.ok.inj h
      exact ⟨hok.of_pipes rfl, .of_eq rfl rfl hpast⟩
  | some p =>
      rw [hport] at h
      dsimp only at h
      generalize BalarPort.processOne p.1 _ v m.world.cpu.host p.2 = res at h
      cases res with
      | error e => cases h
      | ok res =>
          obtain rfl := Except.ok.inj h
          exact ⟨hok.of_pipes rfl, .of_eq rfl rfl hpast⟩

/-- **The next part of a tick**: one core ticks, or none. -/
theorem advance_cores (hok : CoresOk c m) (h : m.advance c now order = .ok m') :
    CoresOk c m' ∧ (NoneTicks c m m' ∨ ∃ v < c.cpu.vcpuCount, CoreTicks m m' v) := by
  rw [advance] at h
  cases hturn : m.turn with
  | poll v =>
      rw [hturn] at h
      dsimp only at h
      by_cases hv : v < c.cpu.vcpuCount
      · rw [if_pos hv] at h
        obtain ⟨hok', hnone⟩ := poll_noneTicks hok h
        exact ⟨hok', Or.inl hnone⟩
      · rw [if_neg hv] at h
        obtain rfl := Except.ok.inj h
        exact ⟨hok.of_pipes rfl, Or.inl (.of_eq rfl rfl fun u _ hpast => by cases hpast)⟩
  | core v =>
      rw [hturn] at h
      dsimp only at h
      by_cases hv : v < c.cpu.vcpuCount
      · rw [if_pos hv] at h
        obtain ⟨hticks, hok'⟩ := tickCore_coreTicks hok hturn h
        exact ⟨hok', Or.inr ⟨v, hv, hticks⟩⟩
      · rw [if_neg hv] at h
        obtain rfl := Except.ok.inj h
        refine ⟨hok.of_pipes rfl, Or.inl (.of_eq rfl rfl fun u hu _ => ?_)⟩
        rw [hturn]
        exact hu.trans_le (Nat.le_of_not_lt hv)
  | process k os =>
      rw [hturn] at h
      cases os with
      | cons v os =>
          obtain ⟨hok', hnone⟩ := processOne_noneTicks hok hturn h
          exact ⟨hok', Or.inl hnone⟩
      | nil =>
          obtain rfl := Except.ok.inj h
          refine ⟨hok.of_pipes rfl, Or.inl (.of_eq rfl rfl fun u _ _ => ?_)⟩
          rw [hturn]
          trivial

/-- A response that arrives for a core. -/
theorem response_noneTicks {id : ℕ} {resp : Response} (hok : CoresOk c m)
    (hpipes : m'.pipes =
      Function.update m.pipes v ((m.pipeAt now v).handleMemResponse id resp))
    (hrings : m'.rings = m.rings) (hturn : m'.turn = m.turn) :
    CoresOk c m' ∧ NoneTicks c m m' := by
  have hpipe : (m.pipeAt now v).Ok (c.core v) c.limits := (hok.pipe v).quiet rfl
  have hpipe := hpipe.handleMemResponse id resp
  obtain ⟨e, stats, hresp, -⟩ := Pipeline.handleMemResponse_frame id resp (m.pipeAt now v)
  rw [hresp] at hpipe hpipes
  refine ⟨hok.update hpipes hpipe (hok.fatal v), fun u => ?_, fun u _ => ?_⟩
  · by_cases hu : u = v
    · subst hu
      have hself := congrFun hpipes u
      rw [Function.update_self] at hself
      refine ⟨?_, ?_, ?_, ?_, ?_, hrings ▸ List.prefix_rfl⟩
      all_goals
        rw [hself]
        rfl
    · refine Idles.of_eq ?_ ?_
      · rw [hpipes, Function.update_of_ne hu]
      · rw [hrings]
  · rw [hturn]
    intro hpast
    exact hpast

/-- An answer from the memory, whoever asked. -/
theorem answer_noneTicks {i : ℕ} {data : List UInt8} {fail : Bool} (hok : CoresOk c m)
    (h : m.answer c now i data fail = .ok m') : CoresOk c m' ∧ NoneTicks c m m' := by
  rw [answer] at h
  cases hr : m.world.cpu.host.inFlight[i]? with
  | none =>
      rw [hr] at h
      obtain rfl := Except.ok.inj h
      exact ⟨hok, .of_eq rfl rfl fun _ _ => id⟩
  | some r =>
      rw [hr] at h
      dsimp only at h
      generalize (if c.cpu.hasMmio r.vcpu = true then _ else _ :
        Except CpuFatal (Option QuetzCpu)) =
        sync at h
      rcases sync with e | _ | cpu
      · cases h
      · obtain rfl := Except.ok.inj h
        exact response_noneTicks hok rfl rfl rfl
      · obtain rfl := Except.ok.inj h
        exact ⟨hok.of_pipes rfl, .of_eq rfl rfl fun _ _ => id⟩

/-- No core ticks outside the ticks. -/
theorem step_cores {e : MachineEvent} (hok : CoresOk c m) (h : m.step c e = .ok m')
    (he : ∀ now order, e ≠ .advance now order) : CoresOk c m' ∧ NoneTicks c m m' := by
  cases e with
  | push vcpu cmds =>
      obtain rfl := Except.ok.inj h
      refine ⟨hok.of_pipes rfl, fun u => ⟨rfl, rfl, rfl, rfl, rfl, ?_⟩, fun _ _ => id⟩
      dsimp only
      by_cases hu : u = vcpu
      · subst hu
        rw [Function.update_self]
        exact List.prefix_append _ _
      · exact Function.update_of_ne hu _ _ ▸ List.prefix_rfl
  | publish vcpu req =>
      obtain rfl := Except.ok.inj h
      exact ⟨hok.of_pipes rfl, .of_eq rfl rfl fun _ _ => id⟩
  | reset vcpu =>
      obtain rfl := Except.ok.inj h
      exact ⟨hok.of_pipes rfl, .of_eq rfl rfl fun _ _ => id⟩
  | nativeStore native =>
      obtain rfl := Except.ok.inj h
      exact ⟨hok.of_pipes rfl, .of_eq rfl rfl fun _ _ => id⟩
  | answer now i data fail => exact answer_noneTicks hok h
  | advance now order => exact (he now order rfl).elim

end Machine

end Quetz
