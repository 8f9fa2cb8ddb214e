import Mathlib.Data.Finset.Card
import Mathlib.Data.Finset.Range
import Quetz.CoreTicks

/-!
# The Exit of the Guest

What `QuetzCPU::tick` (`src/quetzcpu.cc`) does after its ports: it counts the vCPUs that halted,
polls the QEMU process on every 1024th tick (`QemuLauncher::checkChild`, `src/quetz_launcher.cc`),
and gives up if the process has ended and nothing that was read can still halt a vCPU.

QEMU writes to the trace rings and ends at any point between two parts of a tick, so also between
the refills of a tick and its poll. The end is visible to `waitpid` together with all that was
written to the rings before it. A ring is one list, and a refill that stops before its end stops
because the queue is full: what is written during a refill is as good as written before or after
it. What a tick does once every vCPU halted is left out; ticks may go on then.

## Main results

* `CoreTicks.haltedOrBusy`: a core that ticks after its EXIT was written halts or has work left.
* `Inv.step`: the invariant through one event.
* `exit_not_lost`: the simulation never gives up on a guest that wrote an EXIT to every ring.
-/

namespace Quetz

/-! ### The child process -/

/-- How a process ended. -/
inductive WaitStatus where
  | exited (code : ℕ)
  | signaled (sig : ℕ)
deriving DecidableEq, Repr

/-- What a call of `waitpid` does: it tells the state of the child, or it fails. -/
inductive Waitpid where
  | answered | interrupted
  | failed (errno : String)
deriving DecidableEq, Repr

/-- The launcher and the process it started. -/
structure QemuLauncher where
  pid : ℕ
  /-- How the process ended, `none` while it runs. -/
  status : Option WaitStatus := none
deriving DecidableEq, Repr

/-- The errors of the launcher. -/
inductive LauncherFatal where
  | cannotInspect (errno : String)
  | exited (code : ℕ)
  | signaled (sig : ℕ)
deriving DecidableEq, Repr

/-- The text of an error. -/
def LauncherFatal.message : LauncherFatal → String
  | .cannotInspect errno => s!"Cannot inspect QEMU child: {errno}."
  | .exited code => s!"QEMU exited with status {code}."
  | .signaled sig => s!"QEMU was terminated by signal {sig}."

/-- Whether the child still runs; the launcher forgets a child that ended. -/
def QemuLauncher.checkChild (wait : Waitpid) (q : QemuLauncher) :
    Except LauncherFatal (Bool × QemuLauncher) :=
  if q.pid = 0 then .ok (false, q)
  else
    match wait, q.status with
    | .interrupted, _ => .ok (true, q)
    | .failed errno, _ => .error (.cannotInspect errno)
    | .answered, none => .ok (true, q)
    | .answered, some (.exited code) =>
      if code ≠ 0 then .error (.exited code) else .ok (false, { q with pid := 0 })
    | .answered, some (.signaled sig) => .error (.signaled sig)

/-! ### The simulation -/

/-- The machine and what its ticks know of the guest. -/
structure Simulation where
  machine : Machine := {}
  launcher : QemuLauncher
  haltedCount : ℕ := 0
  childPollTicks : UInt32 := 0
  childRunning : Bool := true

/-- The errors of the simulation. -/
inductive SimulationFatal where
  | machine (e : MachineFatal)
  | launcher (e : LauncherFatal)
  | exitedEarly
deriving DecidableEq, Repr

/-- The text of an error. -/
def SimulationFatal.message : SimulationFatal → String
  | .machine (.cpu e) => e.message
  | .machine (.core e) => e.message
  | .launcher e => e.message
  | .exitedEarly => "QEMU exited before all vCPU EXIT records arrived."

/-- What can happen next. -/
inductive SimulationEvent where
  /-- An event of the machine; `wait` is what `waitpid` does if it is called. -/
  | machine (e : MachineEvent) (wait : Waitpid)
  /-- The process ends. -/
  | exit (status : WaitStatus)

/-- The guest of the vCPU wrote an EXIT to its ring. -/
def Machine.WroteExit (m : Machine) (vcpu : ℕ) : Prop := ∃ cmd ∈ m.trace vcpu, cmd.cmd = .exit

namespace Simulation

/-- The vCPU halted in its tick. -/
def haltedBy (w : Simulation) (m : Machine) : Bool :=
  match w.machine.turn with
  | .core v => !(w.machine.pipes v).halted && (m.pipes v).halted
  | _ => false

/-- All cores have drained. -/
def isDrained (c : MachineConfig) (w : Simulation) : Bool :=
  (List.range c.cpu.vcpuCount).all fun v => (w.machine.pipes v).isDrained

/-- Whether the child runs, asked once in 1024 ticks and when all vCPUs halted. -/
def pollChild (c : MachineConfig) (wait : Waitpid) (ticks : UInt32) (w : Simulation) :
    Except LauncherFatal (Bool × QemuLauncher) :=
  if ticks &&& 1023 = 0 ∨ w.haltedCount = c.cpu.vcpuCount then w.launcher.checkChild wait
  else .ok (w.childRunning, w.launcher)

/-- The end of a tick. -/
def endTick (c : MachineConfig) (wait : Waitpid) (w : Simulation) :
    Except SimulationFatal Simulation :=
  match w.pollChild c wait (w.childPollTicks + 1) with
  | .error e => .error (.launcher e)
  | .ok (running, launcher) =>
    -- The poll that first sees the end comes after the refills of its tick, so it proves nothing.
    if w.haltedCount < c.cpu.vcpuCount ∧ !running ∧ !w.childRunning ∧ w.isDrained c then
      .error .exitedEarly
    else .ok { w with
      childPollTicks := w.childPollTicks + 1
      childRunning := running
      launcher := launcher }

/-- The machine took the next part of a tick. -/
def advanced (c : MachineConfig) (wait : Waitpid) (m : Machine) (w : Simulation) :
    Except SimulationFatal Simulation :=
  let w' := { w with
    machine := m
    haltedCount := w.haltedCount + if w.haltedBy m then 1 else 0 }
  match w.machine.turn, m.turn with
  | .process _ _, .poll _ => w'.endTick c wait
  | _, _ => .ok w'

/-- One event. -/
def step (c : MachineConfig) (w : Simulation) : SimulationEvent → Except SimulationFatal Simulation
  | .exit status => .ok { w with launcher := { w.launcher with status := some status } }
  | .machine e wait =>
    match w.machine.step c e with
    | .error e => .error (.machine e)
    | .ok m =>
      match e with
      | .advance _ _ => w.advanced c wait m
      | _ => .ok { w with machine := m }

/-- The process ends once, and if it exits with status 0 it has written an EXIT to every ring. -/
def Allowed (c : MachineConfig) (w : Simulation) : SimulationEvent → Prop
  | .machine _ _ => True
  | .exit status => w.launcher.status = none ∧ (status = .exited 0 →
      ∀ v < c.cpu.vcpuCount, w.machine.WroteExit v)

/-- The simulation before its first tick. -/
structure Start (c : MachineConfig) (w : Simulation) : Prop where
  machine : w.machine.Start c
  pid : w.launcher.pid ≠ 0
  status : w.launcher.status = none
  haltedCount : w.haltedCount = 0
  childPollTicks : w.childPollTicks = 0
  childRunning : w.childRunning = true

/-- The states of all runs. -/
inductive Reachable (c : MachineConfig) : Simulation → Prop
  | start {w : Simulation} : w.Start c → Reachable c w
  | step {w w' : Simulation} {e : SimulationEvent} : Reachable c w → w.Allowed c e →
      w.step c e = .ok w' → Reachable c w'

end Simulation

/-! ### The tick of a core -/

/-- The core has halted, or its last refill left something to do. -/
def Pipeline.HaltedOrBusy (s : Pipeline) : Prop :=
  s.halted = true ∨ s.coreQ ≠ [] ∨ s.refillHitCap = true

theorem Pipeline.HaltedOrBusy.not_isDrained {s : Pipeline} (hs : s.HaltedOrBusy)
    (hgo : s.halted = false) : s.isDrained = false := by
  rw [isDrained, hgo]
  rcases hs with hhalted | hbusy | hcap
  · rw [hgo] at hhalted
    cases hhalted
  · simp [hbusy]
  · simp [hcap]

namespace Machine

variable {c : MachineConfig} {m m' : Machine} {v : ℕ}

theorem Idles.haltedOrBusy (hm : Idles m m' v) (hs : (m.pipes v).HaltedOrBusy) :
    (m'.pipes v).HaltedOrBusy := by
  rw [Pipeline.HaltedOrBusy, hm.halted, hm.coreQ, hm.refillHitCap]
  exact hs

theorem Idles.wroteExit (hm : Idles m m' v) : m.WroteExit v → m'.WroteExit v := by
  rintro ⟨cmd, hmem, hexit⟩
  exact ⟨cmd, hm.trace.subset hmem, hexit⟩

/-- **A core that ticks after its EXIT was written** halts or has work left: a refill that finds
the ring empty has read the EXIT, which stays in the queue until it halts the core. -/
theorem CoreTicks.haltedOrBusy (hm : CoreTicks m m' v) (hok : CoresOk c m')
    (hexit : m.WroteExit v) : (m'.pipes v).HaltedOrBusy := by
  by_contra hnot
  rw [Pipeline.HaltedOrBusy, not_or, not_or, not_not] at hnot
  obtain ⟨hgo, hempty, hcap⟩ := hnot
  have hgo := Bool.not_eq_true _ ▸ hgo
  obtain ⟨hring, -⟩ := hm.emptied hgo hempty (Bool.not_eq_true _ ▸ hcap)
  obtain ⟨cmd, hmem, hcmd⟩ := hexit
  have hread : m.trace v = (m'.pipes v).read := by
    rw [← hm.written, Machine.trace, hring, List.append_nil]
  rw [hread] at hmem
  obtain ⟨ev, hev, -⟩ := (hok.pipe v).stops hgo ⟨cmd, hmem, Or.inl hcmd⟩
  rw [hempty] at hev
  cases hev

theorem CoreTicks.wroteExit (hm : CoreTicks m m' v) (u : ℕ) : m.WroteExit u → m'.WroteExit u := by
  by_cases hu : u = v
  · subst hu
    rw [WroteExit, WroteExit, hm.written]
    exact id
  · exact (hm.others u hu).wroteExit

end Machine

/-! ### The launcher -/

namespace QemuLauncher

variable {q q' : QemuLauncher} {wait : Waitpid} {running : Bool}

/-- The launcher forgets only a child that exited with status 0. -/
def Ok (q : QemuLauncher) : Prop := q.pid = 0 → q.status = some (.exited 0)

/-- **A child that does not run exited with status 0**: every other end stops the simulation. -/
theorem checkChild_ok (hq : q.Ok) (h : q.checkChild wait = .ok (running, q')) :
    q'.Ok ∧ q'.status = q.status ∧ (running = false → q.status = some (.exited 0)) := by
  rw [checkChild.eq_def] at h
  by_cases hpid : q.pid = 0
  · rw [if_pos hpid] at h
    obtain ⟨rfl, rfl⟩ := Prod.mk.inj (Except.ok.inj h)
    exact ⟨hq, rfl, fun _ => hq hpid⟩
  rw [if_neg hpid] at h
  have hruns : (Except.ok (true, q) : Except LauncherFatal _) = .ok (running, q') →
      q'.Ok ∧ q'.status = q.status ∧ (running = false → q.status = some (.exited 0)) := by
    intro h
    obtain ⟨rfl, rfl⟩ := Prod.mk.inj (Except.ok.inj h)
    refine ⟨hq, rfl, fun hrunning => ?_⟩
    cases hrunning
  cases wait with
  | interrupted => exact hruns h
  | failed errno => cases h
  | answered =>
      cases hstatus : q.status with
      | none =>
          rw [hstatus] at h
          rw [← hstatus]
          exact hruns h
      | some status =>
          rw [hstatus] at h
          cases status with
          | signaled sig => cases h
          | exited code =>
              dsimp only at h
              by_cases hcode : code = 0
              · subst hcode
                obtain ⟨rfl, rfl⟩ := Prod.mk.inj (Except.ok.inj h)
                exact ⟨fun _ => rfl, rfl, fun _ => rfl⟩
              · rw [if_pos hcode] at h
                cases h

end QemuLauncher

/-! ### The invariant -/

namespace Simulation

open Machine

variable {c : MachineConfig} {w w' : Simulation} {m : Machine} {wait : Waitpid}

/-- The number of vCPUs that have halted. -/
def haltedCores (c : MachineConfig) (m : Machine) : ℕ :=
  ((Finset.range c.cpu.vcpuCount).filter fun v => (m.pipes v).halted = true).card

/-- What holds of the simulation in every run. -/
structure Inv (c : MachineConfig) (w : Simulation) : Prop where
  cores : CoresOk c w.machine
  count : w.haltedCount = haltedCores c w.machine
  launcher : w.launcher.Ok
  ended : w.childRunning = false → w.launcher.status = some (.exited 0)
  wroteExit : w.launcher.status = some (.exited 0) →
    ∀ v < c.cpu.vcpuCount, w.machine.WroteExit v
  /-- A core that ticked since the end was seen has halted or still has work. -/
  settled : w.childRunning = false → ∀ v < c.cpu.vcpuCount, w.machine.turn.Past v →
    (w.machine.pipes v).HaltedOrBusy

theorem Start.inv (hw : w.Start c) : Inv c w := by
  have hpipe : ∀ v, w.machine.pipes v = {} := fun v => congrFun hw.machine.pipes v
  refine ⟨⟨fun v => ?_, fun v => ?_⟩, ?_, fun hpid => (hw.pid hpid).elim, fun hended => ?_,
    fun hstatus => ?_, fun hended => ?_⟩
  · rw [hpipe v]
    exact Pipeline.ok_start _ _
  · rw [hpipe v]
  · rw [hw.haltedCount, haltedCores, Finset.filter_false_of_mem, Finset.card_empty]
    intro v _
    rw [hpipe v]
    exact Bool.false_ne_true
  · rw [hw.childRunning] at hended
    cases hended
  · rw [hw.status] at hstatus
    cases hstatus
  · rw [hw.childRunning] at hended
    cases hended

/-- The cores idle. -/
theorem haltedCores_noneTicks (hm : NoneTicks c w.machine m) :
    haltedCores c m = haltedCores c w.machine := by
  rw [haltedCores, haltedCores]
  refine congrArg _ (Finset.filter_congr fun v _ => ?_)
  rw [(hm.idles v).halted]

theorem haltedBy_noneTicks (hm : NoneTicks c w.machine m) : w.haltedBy m = false := by
  rw [haltedBy]
  cases w.machine.turn with
  | core v =>
      dsimp only
      rw [(hm.idles v).halted]
      cases (w.machine.pipes v).halted <;> rfl
  | poll v => rfl
  | process k os => rfl

/-- A core that halts is counted. -/
theorem haltedCores_coreTicks {v : ℕ} (hv : v < c.cpu.vcpuCount) (hm : CoreTicks w.machine m v) :
    haltedCores c m = haltedCores c w.machine + if w.haltedBy m then 1 else 0 := by
  have hothers : ∀ u, u ≠ v → (m.pipes u).halted = (w.machine.pipes u).halted :=
    fun u hu => (hm.others u hu).halted
  have hby : w.haltedBy m = (!(w.machine.pipes v).halted && (m.pipes v).halted) := by
    rw [haltedBy, hm.turn]
  by_cases hnow : (w.machine.pipes v).halted = false ∧ (m.pipes v).halted = true
  · obtain ⟨hgo, hhalted⟩ := hnow
    have hinsert : (Finset.range c.cpu.vcpuCount).filter (fun u => (m.pipes u).halted = true) =
        insert v ((Finset.range c.cpu.vcpuCount).filter
          fun u => (w.machine.pipes u).halted = true) := by
      ext u
      rw [Finset.mem_insert, Finset.mem_filter, Finset.mem_filter, Finset.mem_range]
      by_cases hu : u = v
      · subst hu
        simp [hv, hhalted]
      · rw [hothers u hu]
        simp [hu]
    have hout : v ∉ (Finset.range c.cpu.vcpuCount).filter
        fun u => (w.machine.pipes u).halted = true := by
      rw [Finset.mem_filter, hgo]
      simp
    rw [hgo, hhalted] at hby
    rw [hby, haltedCores, haltedCores, hinsert, Finset.card_insert_of_notMem hout]
    rfl
  · have hsame : (m.pipes v).halted = (w.machine.pipes v).halted := by
      cases hgo : (w.machine.pipes v).halted with
      | true => exact hm.halted hgo
      | false =>
          rw [not_and] at hnow
          exact Bool.not_eq_true _ ▸ hnow hgo
    have hall : ∀ u, (m.pipes u).halted = (w.machine.pipes u).halted := by
      intro u
      by_cases hu : u = v
      · subst hu
        exact hsame
      · exact hothers u hu
    rw [hsame, Bool.not_and_self] at hby
    rw [hby, haltedCores, haltedCores]
    refine congrArg _ (Finset.filter_congr fun u _ => ?_)
    rw [hall u]

/-- No core ticks. -/
theorem Inv.noneTicks (hi : Inv c w) (hok : CoresOk c m) (hm : NoneTicks c w.machine m) :
    Inv c { w with machine := m } := by
  refine ⟨hok, ?_, hi.launcher, hi.ended, fun hstatus v hv => ?_, fun hended v hv hpast => ?_⟩
  · rw [haltedCores_noneTicks hm]
    exact hi.count
  · exact (hm.idles v).wroteExit (hi.wroteExit hstatus v hv)
  · exact (hm.idles v).haltedOrBusy (hi.settled hended v hv (hm.past v hv hpast))

/-- The core of a vCPU ticks. -/
theorem Inv.coreTicks {v : ℕ} (hi : Inv c w) (hok : CoresOk c m) (hv : v < c.cpu.vcpuCount)
    (hm : CoreTicks w.machine m v) :
    Inv c { w with
      machine := m
      haltedCount := w.haltedCount + if w.haltedBy m then 1 else 0 } := by
  refine ⟨hok, ?_, hi.launcher, hi.ended, fun hstatus u hu => ?_, fun hended u hu hpast => ?_⟩
  · rw [haltedCores_coreTicks hv hm]
    exact congrArg (· + _) hi.count
  · exact hm.wroteExit u (hi.wroteExit hstatus u hu)
  · by_cases huv : u = v
    · subst huv
      exact hm.haltedOrBusy hok (hi.wroteExit (hi.ended hended) u hv)
    · refine (hm.others u huv).haltedOrBusy (hi.settled hended u hu ?_)
      rw [hm.turn'] at hpast
      rw [hm.turn]
      exact lt_of_le_of_ne (Nat.lt_succ_iff.mp hpast) huv

/-! ### The end of a tick -/

theorem pollChild_ok {ticks : UInt32} {running : Bool} {launcher : QemuLauncher} (hi : Inv c w)
    (h : w.pollChild c wait ticks = .ok (running, launcher)) : launcher.Ok ∧
      launcher.status = w.launcher.status ∧
      (running = false → w.launcher.status = some (.exited 0)) := by
  rw [pollChild] at h
  by_cases hpoll : ticks &&& 1023 = 0 ∨ w.haltedCount = c.cpu.vcpuCount
  · rw [if_pos hpoll] at h
    exact QemuLauncher.checkChild_ok hi.launcher h
  · rw [if_neg hpoll] at h
    obtain ⟨rfl, rfl⟩ := Prod.mk.inj (Except.ok.inj h)
    exact ⟨hi.launcher, rfl, hi.ended⟩

/-- Not all have halted, so one has not. -/
theorem exists_running (hi : Inv c w) (hcount : w.haltedCount < c.cpu.vcpuCount) :
    ∃ v < c.cpu.vcpuCount, (w.machine.pipes v).halted = false := by
  by_contra hnone
  push Not at hnone
  have hall : (Finset.range c.cpu.vcpuCount).filter
      (fun v => (w.machine.pipes v).halted = true) = Finset.range c.cpu.vcpuCount :=
    Finset.filter_true_of_mem fun v hv =>
      Bool.not_eq_false _ ▸ hnone v (Finset.mem_range.mp hv)
  rw [hi.count, haltedCores, hall, Finset.card_range] at hcount
  exact Nat.lt_irrefl _ hcount

/-- **At the end of a tick that began after the end of the process was seen** some core that has
not halted has not drained. -/
theorem Inv.not_isDrained (hi : Inv c w) (hcount : w.haltedCount < c.cpu.vcpuCount)
    (hall : ∀ v < c.cpu.vcpuCount, (w.machine.pipes v).HaltedOrBusy) : w.isDrained c = false := by
  obtain ⟨v, hv, hgo⟩ := exists_running hi hcount
  rw [isDrained, List.all_eq_false]
  refine ⟨v, List.mem_range.mpr hv, ?_⟩
  rw [(hall v hv).not_isDrained hgo]
  exact Bool.false_ne_true

/-- What the end of a tick does. -/
theorem Inv.endTick {v : ℕ} (hi : Inv c w) (hturn : w.machine.turn = .poll v)
    (hall : w.childRunning = false → ∀ v < c.cpu.vcpuCount, (w.machine.pipes v).HaltedOrBusy) :
    w.endTick c wait ≠ .error .exitedEarly ∧ ∀ w', w.endTick c wait = .ok w' → Inv c w' := by
  rw [Simulation.endTick]
  cases hpoll : w.pollChild c wait (w.childPollTicks + 1) with
  | error e => exact ⟨fun h => (by cases h), fun w' h => (by cases h)⟩
  | ok res =>
      obtain ⟨running, launcher⟩ := res
      obtain ⟨hlauncher, hstatus, hended⟩ := pollChild_ok hi hpoll
      have hgo : ¬(w.haltedCount < c.cpu.vcpuCount ∧ (!running) = true ∧
          (!w.childRunning) = true ∧ w.isDrained c = true) := by
        rintro ⟨hcount, -, hwas, hdrained⟩
        rw [Bool.not_eq_true'] at hwas
        rw [hi.not_isDrained hcount (hall hwas)] at hdrained
        cases hdrained
      dsimp only
      rw [if_neg hgo]
      refine ⟨fun h => (by cases h), fun w' h => ?_⟩
      obtain rfl := Except.ok.inj h
      refine ⟨hi.cores, hi.count, hlauncher, fun hrunning => ?_, fun hexited => ?_,
        fun _ u _ hpast => ?_⟩
      · rw [hstatus]
        exact hended hrunning
      · rw [hstatus] at hexited
        exact hi.wroteExit hexited
      · dsimp only at hpast
        rw [hturn] at hpast
        exact hpast.elim

/-- **The next part of a tick.** -/
theorem Inv.advanced {now : ℕ} {order : List ℕ} (hi : Inv c w)
    (h : w.machine.advance c now order = .ok m) :
    w.advanced c wait m ≠ .error .exitedEarly ∧ ∀ w', w.advanced c wait m = .ok w' → Inv c w' := by
  obtain ⟨hok, hcases⟩ := advance_cores hi.cores h
  have hi' : Inv c { w with
      machine := m
      haltedCount := w.haltedCount + if w.haltedBy m then 1 else 0 } := by
    rcases hcases with hnone | ⟨v, hv, hticks⟩
    · rw [haltedBy_noneTicks hnone]
      exact hi.noneTicks hok hnone
    · exact hi.coreTicks hok hv hticks
  have hstays : ∀ res : Except SimulationFatal Simulation, res = .ok { w with
      machine := m
      haltedCount := w.haltedCount + if w.haltedBy m then 1 else 0 } →
      res ≠ .error .exitedEarly ∧ ∀ w', res = .ok w' → Inv c w' := by
    rintro _ rfl
    refine ⟨fun h => (by cases h), fun w' h => ?_⟩
    obtain rfl := Except.ok.inj h
    exact hi'
  rw [Simulation.advanced]
  cases hturn : w.machine.turn with
  | poll v => exact hstays _ rfl
  | core v => exact hstays _ rfl
  | process k os =>
      cases hturn' : m.turn with
      | core v => exact hstays _ rfl
      | process k' os' => exact hstays _ rfl
      | poll v =>
          refine hi'.endTick hturn' fun hended u hu => ?_
          rcases hcases with hnone | ⟨v, -, hticks⟩
          · refine (hnone.idles u).haltedOrBusy (hi.settled hended u hu ?_)
            rw [hturn]
            trivial
          · rw [hticks.turn] at hturn
            cases hturn

/-- **One event** of a simulation whose process ends as it should. -/
theorem Inv.step {e : SimulationEvent} (hi : Inv c w) (he : w.Allowed c e) :
    w.step c e ≠ .error .exitedEarly ∧ ∀ w', w.step c e = .ok w' → Inv c w' := by
  cases e with
  | exit status =>
      obtain ⟨hruns, hexit⟩ := he
      refine ⟨fun h => (by cases h), fun w' h => ?_⟩
      obtain rfl := Except.ok.inj h
      have hnone : w.launcher.status ≠ some (.exited 0) := by
        rw [hruns]
        exact fun h => (by cases h)
      refine ⟨hi.cores, hi.count, fun hpid => (hnone (hi.launcher hpid)).elim,
        fun hended => (hnone (hi.ended hended)).elim, fun hstatus => ?_,
        fun hended => (hnone (hi.ended hended)).elim⟩
      exact hexit (Option.some.inj hstatus)
  | machine e wait =>
      rw [Simulation.step]
      cases hstep : w.machine.step c e with
      | error e => exact ⟨fun h => (by cases h), fun w' h => (by cases h)⟩
      | ok m =>
          have hidle (hne : ∀ now order, e ≠ .advance now order) :
              Inv c { w with machine := m } := by
            obtain ⟨hok, hnone⟩ := step_cores hi.cores hstep hne
            exact hi.noneTicks hok hnone
          cases e with
          | advance now order => exact hi.advanced hstep
          | _ =>
              refine ⟨fun h => (by cases h), fun w' h => ?_⟩
              obtain rfl := Except.ok.inj h
              exact hidle fun now order h => by cases h

/-- **The whole run.** -/
theorem Reachable.inv (h : Reachable c w) : Inv c w := by
  induction h with
  | start hw => exact hw.inv
  | step _ he hstep ih => exact (ih.step he).2 _ hstep

/-- **A clean exit of the guest is not taken for a lost one**: the simulation never gives up on a
process that wrote an EXIT to the ring of every vCPU before it exited with status 0. -/
theorem exit_not_lost {e : SimulationEvent} (h : Reachable c w) (he : w.Allowed c e) :
    w.step c e ≠ .error .exitedEarly :=
  (h.inv.step he).1

/-- Without the EXIT of its vCPU an end that was seen before this tick is reported. -/
example : endTick {} .answered { launcher := ⟨0, some (.exited 0)⟩, childRunning := false } =
    .error .exitedEarly := rfl

instance (m : Machine) (v : ℕ) : Decidable (m.WroteExit v) :=
  inferInstanceAs (Decidable (∃ cmd ∈ m.trace v, cmd.cmd = .exit))

instance (c : MachineConfig) (w : Simulation) : ∀ e, Decidable (w.Allowed c e)
  | .machine _ _ => inferInstanceAs (Decidable True)
  | .exit _ => inferInstanceAs (Decidable (_ ∧ (_ → ∀ v < c.cpu.vcpuCount, _)))

/-- The simulation after the events. -/
def run (c : MachineConfig) : List SimulationEvent → Simulation → Option Simulation
  | [], w => some w
  | e :: es, w =>
    if w.Allowed c e then
      match w.step c e with
      | .error _ => none
      | .ok w' => run c es w'
    else none

theorem Reachable.run {es : List SimulationEvent} (h : Reachable c w)
    (hrun : Simulation.run c es w = some w') : Reachable c w' := by
  induction es generalizing w with
  | nil =>
      obtain rfl := Option.some.inj hrun
      exact h
  | cons e es ih =>
      rw [Simulation.run] at hrun
      by_cases he : w.Allowed c e
      · rw [if_pos he] at hrun
        cases hstep : w.step c e with
        | error _ =>
            rw [hstep] at hrun
            cases hrun
        | ok w₁ =>
            rw [hstep] at hrun
            exact ih (h.step he hstep) hrun
      · rw [if_neg he] at hrun
        cases hrun

/-- A computation and the EXIT of the only vCPU, the end of the process, and the tick up to its
last part. -/
def exitAndTick : List SimulationEvent :=
  [.machine (.push 0 [{ cmd := .nop }, { cmd := .exit }]) .answered, .exit (.exited 0)] ++
    List.replicate 4 (.machine (.advance 0 []) .answered)

/-- The last part of this tick polls the process that has ended. -/
theorem exit_not_lost_single : ∃ w, Reachable {} w ∧ w.launcher.status = some (.exited 0) ∧
    w.machine.turn = .process 0 [] ∧
    w.step {} (.machine (.advance 0 []) .answered) ≠ .error .exitedEarly := by
  have hfin : (run {} exitAndTick { launcher := ⟨1, none⟩ }).any (fun w =>
      decide (w.launcher.status = some (.exited 0) ∧ w.machine.turn = .process 0 [])) = true := by
    decide +kernel
  obtain ⟨w, hrun, hfin⟩ := (Option.any_eq_true _ _).mp hfin
  obtain ⟨hstatus, hturn⟩ := of_decide_eq_true hfin
  have hworld : CpuWorld.Start {} {} :=
    ⟨rfl, fun _ hp => (by cases hp), rfl, rfl, rfl, rfl, rfl⟩
  have hstart : Start {} { launcher := ⟨1, none⟩ } :=
    ⟨⟨hworld, rfl, rfl, rfl, rfl⟩, Nat.one_ne_zero, rfl, rfl, rfl, rfl⟩
  have hw : Reachable {} w := (Reachable.start hstart).run hrun
  exact ⟨w, hw, hstatus, hturn, exit_not_lost hw trivial⟩

end Simulation

end Quetz
