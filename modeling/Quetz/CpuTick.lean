import Quetz.FlushRange
import Quetz.MmioRun
import Quetz.PipelineDrain

/-!
# Ticks of the CPU

`QuetzCPU::tick` (`src/quetzcpu.cc`) with everything it drives: the mailbox of every vCPU is
polled, then every core ticks its pipeline, then every accelerator port processes its armed
doorbells. The guests and the memory system act at any point between two parts of a tick: a vCPU
writes to its trace ring, publishes a command or is reset, and a request in flight is answered.
A response goes to the synchronous path first and to the pipeline of its core if nobody there
takes it (`QuetzCore::handleMemResponse`).

The order in which a port visits its armed doorbells is that of an unordered map, so it may be
any order. The poll of the child process after the ports is in `Quetz.GuestExit`; the statistics of
overlap and the end of the simulation are left out.

The logs `releases` and `writes` are not read by any part of a tick. They are computed from the
states before and after it: a release is a doorbell that is armed before and not after, and a
write is a request in flight after the step that was drawn in it and that a port keeps as a
doorbell. A doorbell that is not armed, but forwarded when it is taken from the mailbox, is not in
the logs.
-/

namespace Quetz

open QuetzCpu

/-! ### State -/

/-- The configuration of the CPU and of its cores. -/
structure MachineConfig where
  cpu : CpuConfig := {}
  core : ℕ → CoreContext := fun v => { coreId := v }
  limits : PipelineLimits := {}
  coreId_eq : ∀ v, (core v).coreId = v := by intro; rfl

/-- The part of a tick that comes next. -/
inductive Turn where
  | poll (vcpu : ℕ)
  | core (vcpu : ℕ)
  | process (port : ℕ) (order : List ℕ)
deriving DecidableEq, Repr

/-- A doorbell that its port released. -/
structure Release where
  armed : ArmedDoorbell
  /-- The commands read from the ring and in it when the doorbell was taken from the mailbox. -/
  seen : List QuetzCommand
  /-- The pipeline of the vCPU at the release. -/
  pipe : Pipeline
  /-- The requests in flight at the release. -/
  flying : List Request
  /-- The flushes sent at the release. -/
  flushes : List Request

/-- The write of a doorbell on the mmio link. -/
structure DoorbellWrite where
  request : Request
  /-- The requests in flight when it was sent, itself among them. -/
  flying : List Request

/-- The CPU with its cores, their trace rings and the part of the tick that comes next. -/
structure Machine where
  world : CpuWorld := {}
  turn : Turn := .poll 0
  pipes : ℕ → Pipeline := fun _ => {}
  rings : ℕ → List QuetzCommand := fun _ => []
  /-- For each port and vCPU the commands read and in the ring when the doorbell was armed. -/
  seen : ℕ → ℕ → List QuetzCommand := fun _ _ => []
  /-- The released doorbells of each port and vCPU, oldest first. -/
  releases : ℕ → ℕ → List Release := fun _ _ => []
  /-- The writes of armed doorbells of each port and vCPU, oldest first. -/
  writes : ℕ → ℕ → List DoorbellWrite := fun _ _ => []

/-- The errors of the machine. -/
inductive MachineFatal where
  | cpu (e : CpuFatal)
  | core (e : PipelineFatal)
deriving DecidableEq, Repr

/-- What can happen next. -/
inductive MachineEvent where
  | push (vcpu : ℕ) (cmds : List QuetzCommand)
  | publish (vcpu : ℕ) (req : MmioSyncRequest)
  | reset (vcpu : ℕ)
  | nativeStore (native : List NativeRamRegion)
  /-- The request at this position of the links is answered; `data` is what a read returns. -/
  | answer (now i : ℕ) (data : List UInt8) (fail : Bool)
  /-- The next part of the tick; `order` is the order of the next port. -/
  | advance (now : ℕ) (order : List ℕ)

/-! ### Logs -/

/-- The doorbell of the vCPU that is armed at the port. -/
def QuetzCpu.armedAt (cpu : QuetzCpu) (port vcpu : ℕ) : Option ArmedDoorbell :=
  (cpu.ports[port]?).bind fun p => p.2.armedDoorbells vcpu

/-- The requests sent from `h` to `h'`. -/
def Host.newRequests (h h' : Host) : List Request :=
  h'.inFlight.filter fun r => decide (h.nextId ≤ r.id)

/-- The request flushes a line. -/
def Request.isFlush (r : Request) : Bool := (BalarPort.flushLine r).isSome

/-- The port keeps the request as a doorbell of the vCPU. -/
def BalarPort.isDoorbell (s : BalarPort) (vcpu : ℕ) (r : Request) : Bool :=
  (s.pending r.id).any fun fp => fp.vcpu == vcpu && !fp.isRead

namespace Machine

/-- The release of the doorbell of the vCPU by the port, if this step is one. -/
def released (m : Machine) (cpu : QuetzCpu) (port vcpu : ℕ) : List Release :=
  match m.world.cpu.armedAt port vcpu, cpu.armedAt port vcpu with
  | some armed, none =>
    [{ armed := armed
       seen := m.seen port vcpu
       pipe := m.pipes vcpu
       flying := m.world.cpu.host.inFlight
       flushes := (m.world.cpu.host.newRequests cpu.host).filter Request.isFlush }]
  | _, _ => []

/-- The doorbells of the vCPU that the port sends in this step. -/
def written (m : Machine) (cpu : QuetzCpu) (port vcpu : ℕ) : List DoorbellWrite :=
  match cpu.ports[port]? with
  | none => []
  | some p => ((m.world.cpu.host.newRequests cpu.host).filter (p.2.isDoorbell vcpu)).map
      fun r => ⟨r, cpu.host.inFlight⟩

/-- The machine after a step of its ports to `cpu`. -/
def observe (m : Machine) (cpu : QuetzCpu) : Machine :=
  { m with
    world := { m.world with cpu := cpu }
    releases := fun k v => m.releases k v ++ m.released cpu k v
    writes := fun k v => m.writes k v ++ m.written cpu k v }

/-! ### The parts of a tick -/

/-- The pipeline of a vCPU at a time of the simulation. -/
def pipeAt (m : Machine) (now vcpu : ℕ) : Pipeline :=
  { m.pipes vcpu with emitter := { (m.pipes vcpu).emitter with simTime := now } }

/-- Take the waiting command of the vCPU. -/
def poll (c : MachineConfig) (vcpu : ℕ) (m : Machine) : Except MachineFatal Machine :=
  match pollVcpu c.cpu vcpu m.world.cpu with
  | .error e => .error (.cpu e)
  | .ok cpu => .ok { m with
      world := { m.world with cpu := cpu }
      turn := .poll (vcpu + 1)
      seen := fun k u =>
        if cpu.armedAt k u = m.world.cpu.armedAt k u then m.seen k u
        else (m.pipes u).read ++ m.rings u }

/-- Tick the pipeline of the vCPU. -/
def tickCore (c : MachineConfig) (now vcpu : ℕ) (m : Machine) : Except MachineFatal Machine :=
  let res := (m.pipeAt now vcpu).tick (c.core vcpu) c.limits m.world.cpu.host (m.rings vcpu)
  match res.2.2.fatal with
  | some e => .error (.core e)
  | none => .ok { m with
      world :=
        { cpu := { m.world.cpu with host := res.1 }
          coreIds := m.world.coreIds ++ (m.world.cpu.host.newRequests res.1).map Request.id }
      turn := .core (vcpu + 1)
      pipes := Function.update m.pipes vcpu res.2.2
      rings := Function.update m.rings vcpu res.2.1 }

/-- Let the port release the armed doorbell of the vCPU, if its pipeline has drained. -/
def processOne (port vcpu : ℕ) (order : List ℕ) (m : Machine) : Except MachineFatal Machine :=
  match m.world.cpu.ports[port]? with
  | none => .ok { m with turn := .process port order }
  | some p =>
    match BalarPort.processOne p.1 (fun u => (m.pipes u).isDrained) vcpu m.world.cpu.host p.2 with
    | .error e => .error (.cpu (.port e))
    | .ok (h, s) =>
      let cpu := { m.world.cpu with host := h, ports := m.world.cpu.ports.set port (p.1, s) }
      .ok { m.observe cpu with turn := .process port order }

/-- The next part of the tick. -/
def advance (c : MachineConfig) (now : ℕ) (order : List ℕ) (m : Machine) :
    Except MachineFatal Machine :=
  match m.turn with
  | .poll v => if v < c.cpu.vcpuCount then m.poll c v else .ok { m with turn := .core 0 }
  | .core v =>
    if v < c.cpu.vcpuCount then m.tickCore c now v else .ok { m with turn := .process 0 order }
  | .process k (v :: order) => m.processOne k v order
  | .process k [] =>
    .ok { m with turn := if k < m.world.cpu.ports.length then .process (k + 1) order else .poll 0 }

/-- A request is answered. -/
def answer (c : MachineConfig) (now i : ℕ) (data : List UInt8) (fail : Bool) (m : Machine) :
    Except MachineFatal Machine :=
  match m.world.cpu.host.inFlight[i]? with
  | none => .ok m
  | some r =>
    let cpu := { m.world.cpu with host := m.world.cpu.host.take i }
    let sync := if c.cpu.hasMmio r.vcpu then
        completeMmioSyncResponse r.vcpu r.id (r.body.response data) fail cpu
      else .ok none
    match sync with
    | .error e => .error (.cpu e)
    | .ok (some cpu) => .ok (m.observe cpu)
    | .ok none => .ok { m with
        world := { m.world with cpu := cpu }
        pipes := Function.update m.pipes r.vcpu
          ((m.pipeAt now r.vcpu).handleMemResponse r.id (r.body.response data)) }

/-- One event. -/
def step (c : MachineConfig) (m : Machine) : MachineEvent → Except MachineFatal Machine
  | .push vcpu cmds => .ok { m with
      rings := Function.update m.rings vcpu (m.rings vcpu ++ cmds) }
  | .publish vcpu req => .ok { m with
      world := { m.world with
        cpu := { m.world.cpu with
          mailbox := Function.update m.world.cpu.mailbox vcpu (some req) } } }
  | .reset vcpu => .ok { m with
      world := { m.world with
        cpu := { m.world.cpu with
          cpuResetEpoch := Function.update m.world.cpu.cpuResetEpoch vcpu
            (m.world.cpu.cpuResetEpoch vcpu + 1) } } }
  | .nativeStore native => .ok { m with
      world := { m.world with cpu := { m.world.cpu with native := native } } }
  | .answer now i data fail => m.answer c now i data fail
  | .advance now order => m.advance c now order

/-- A vCPU publishes its next command only after the response to the previous one. -/
def Allowed (m : Machine) : MachineEvent → Prop
  | .publish vcpu req => m.world.Allowed (.publish vcpu req)
  | _ => True

/-- The machine before its first tick. -/
structure Start (c : MachineConfig) (m : Machine) : Prop where
  world : m.world.Start c.cpu
  turn : m.turn = .poll 0
  pipes : m.pipes = fun _ => {}
  releases : m.releases = fun _ _ => []
  writes : m.writes = fun _ _ => []

/-- The states of all runs. -/
inductive Reachable (c : MachineConfig) : Machine → Prop
  | start {m : Machine} : m.Start c → Reachable c m
  | step {m m' : Machine} {e : MachineEvent} : Reachable c m → m.Allowed e → m.step c e = .ok m' →
      Reachable c m'

end Machine

end Quetz
