import Quetz.IpcClients
import Quetz.Mailbox

/-!
# The Bridge Device

`sst-mmio-bridge` (`qemu-overlay/hw/misc/sst_mmio_bridge.c`): a range of guest addresses whose
accesses are published in the mailbox of a vCPU. A machine has several bridges, each with a client
of its own, and the process attaches and detaches other clients besides. The client drops an access
to a vCPU without a mailbox and answers zero; the bridge ends the process instead.

`-device` is read by QEMU. The launcher gives every bridge `vcpu_id=0`, and `per-vcpu=on` if there
are several vCPUs (`src/quetz_launcher.cc`). The number of vCPUs is stored in the segment by the
simulator before QEMU starts.

## Main results

* `publish_of_vcpu`: what the bridge checks is enough for the client.
* `Board.Inv.step`: the clients of the bridges stay attached.
* `launched_accesses_reach_own_slot`: every access of a launched machine is published in the slot of
  its vCPU.
-/

namespace Quetz.Ipc

/-! ### The client -/

/-- A request in a mailbox slot. -/
structure Published where
  segment : ℕ
  vcpu : UInt32
  request : Mailbox.Request
deriving DecidableEq, Repr

namespace World

/-- `quetz_ipc_vcpu_count`: the count of the segment, as an `unsigned`. -/
def vcpuCount (w : World) (c : QuetzIpcClient) : UInt32 :=
  (w.segments c.shared.segment).shared.numCores.toUInt32

/-- What `quetz_ipc_mmio_read` and `quetz_ipc_mmio_write` publish; they return at once if the vCPU
has no slot. -/
def publish (w : World) (c : QuetzIpcClient) (vcpu : UInt32) (op : Mailbox.Op) :
    Option Published :=
  if vcpu.toUInt64 ≥ (w.segments c.shared.segment).shared.numCores ∨
      vcpu.toNat ≥ IrqMailbox.QUETZ_MAX_MMIO_VCORES then none
  else some { segment := c.shared.segment, vcpu, request := op.request }

end World

/-! ### The device -/

/-- The properties and the state of a bridge. -/
structure SstMmioBridge where
  shmname : List Char := []
  base : UInt64 := 0
  size : UInt64 := 0x400
  vcpuId : UInt32 := 0
  perVcpu : Bool := false
  irqCount : UInt32 := 0
  irqPollNs : UInt64 := 10000
  intcType : List Char := []
  ipc : Option ℕ := none
  mapped : Bool := false
  irqTimer : Bool := false

/-- A guest access to a bridge: the running CPU, the offset in the range, and what is asked for. -/
structure Access where
  currentCpu : Option UInt32
  offset : UInt64
  size : UInt32
  /-- The value of a store. -/
  value : Option UInt64

/-- The call of the client. -/
def Access.op (a : Access) (base : UInt64) : Mailbox.Op :=
  match a.value with
  | none => .mmioRead (base + a.offset) a.size
  | some value => .mmioWrite (base + a.offset) a.size value

namespace SstMmioBridge

/-- The vCPU of an access: the running one, or that of the bridge. -/
def index (currentCpu : Option UInt32) (s : SstMmioBridge) : Except String UInt32 :=
  match s.perVcpu, currentCpu with
  | false, _ => .ok s.vcpuId
  | true, none => .error "sst-mmio-bridge: per-vcpu access requires a running CPU"
  | true, some cpu => .ok cpu

/-- The slot of an access, or the text with which the process ends. -/
def vcpu (w : World) (c : QuetzIpcClient) (currentCpu : Option UInt32) (s : SstMmioBridge) :
    Except String UInt32 :=
  match s.index currentCpu with
  | .error text => .error text
  | .ok vcpu =>
    if vcpu ≥ w.vcpuCount c ∨ vcpu.toNat ≥ IrqMailbox.QUETZ_MAX_MMIO_VCORES then
      .error s!"sst-mmio-bridge: vCPU {vcpu} has no configured mailbox"
    else .ok vcpu

/-- `sst_mmio_read` and `sst_mmio_write`: what is published. -/
def access (w : World) (c : QuetzIpcClient) (a : Access) (s : SstMmioBridge) :
    Except String (Option Published) :=
  (s.vcpu w c a.currentCpu).map fun vcpu => w.publish c vcpu (a.op s.base)

/-- `sst_mmio_bridge_irq_init`; `intcs` counts the devices of a type on the machine. -/
def irqInit (intcs : List Char → ℕ) (s : SstMmioBridge) : Except String SstMmioBridge :=
  if s.intcType = [] then .error "sst-mmio-bridge: IRQ routing requires explicit intc-type"
  else if s.irqCount.toNat > IrqMailbox.QUETZ_MAX_IRQ_LINES then
    .error (s!"sst-mmio-bridge: irq-count {s.irqCount} exceeds the shared IRQ mailbox size " ++
      s!"{IrqMailbox.QUETZ_MAX_IRQ_LINES}")
  else if s.irqPollNs = 0 then
    .error "sst-mmio-bridge: irq-poll-ns must be greater than 0"
  else if intcs s.intcType ≠ 1 then
    let reason := if intcs s.intcType = 0 then "none found" else "ambiguous"
    .error (s!"sst-mmio-bridge: irq-count={s.irqCount} needs exactly one " ++
      s!"'{String.ofList s.intcType}' device on this machine ({reason})")
  else .ok { s with irqTimer := true }

/-- `sst_mmio_bridge_realize`: the error, if there is one, and what it leaves behind. -/
def realize (intcs : List Char → ℕ) (calls : AttachCalls) (errno : ℕ) (w : World)
    (s : SstMmioBridge) : Option String × SstMmioBridge × World :=
  if s.shmname = [] then (some "sst-mmio-bridge: shmname property required", s, w)
  else if s.size = 0 then (some "sst-mmio-bridge: size must be > 0", s, w)
  else
    match w.attach calls with
    | (.error _, w) =>
      (some (s!"sst-mmio-bridge: failed to attach shmem '{String.ofList s.shmname}' " ++
        s!"(errno={errno})"), { s with ipc := none }, w)
    | (.ok i, w) =>
      let s := { s with ipc := some i }
      let vcpus := ((w.clients i).map w.vcpuCount).getD 0
      if vcpus = 0 ∨ vcpus.toNat > IrqMailbox.QUETZ_MAX_MMIO_VCORES ∨
          (!s.perVcpu ∧ (s.vcpuId ≥ vcpus ∨ vcpus > 1)) then
        (some ("sst-mmio-bridge: multicore requires per-vcpu=on and " ++
          "one valid mailbox per configured vCPU"), s, w)
      else
        let s := { s with mapped := true }
        if s.irqCount > 0 then
          match s.irqInit intcs with
          | .error text => (some text, s, w)
          | .ok s => (none, s, w)
        else (none, s, w)

/-- `sst_mmio_bridge_unrealize`. -/
def unrealize (w : World) (s : SstMmioBridge) : Except World.Crash (SstMmioBridge × World) :=
  let s' := { s with irqTimer := false, mapped := false, ipc := none }
  match s.ipc with
  | none => .ok (s', w)
  | some i =>
    match w.detach (some i) with
    | .error e => .error e
    | .ok w => .ok (s', w)

end SstMmioBridge

/-! ### The machine -/

/-- The bridges of a machine and the process they are in. -/
structure Board where
  world : World
  bridges : ℕ → SstMmioBridge

/-- What happens to a machine, besides guest accesses, which change neither. -/
inductive BoardEvent where
  | ipc (e : IpcEvent)
  | realize (k : ℕ) (calls : AttachCalls) (errno : ℕ)
  | unrealize (k : ℕ)

namespace Board

def step (intcs : List Char → ℕ) (b : Board) : BoardEvent → Except World.Crash Board
  | .ipc e => do
    let world ← b.world.step e
    .ok { b with world }
  | .realize k calls errno =>
    let (_, s, world) := (b.bridges k).realize intcs calls errno b.world
    .ok { world, bridges := Function.update b.bridges k s }
  | .unrealize k => do
    let (s, world) ← (b.bridges k).unrealize b.world
    .ok { world, bridges := Function.update b.bridges k s }

/-- Nobody else detaches the client of a bridge, nobody stores another number of vCPUs, and a bridge
is realized once. -/
def Allowed (b : Board) : BoardEvent → Prop
  | .ipc e => b.world.Allowed e ∧ (∀ k i, (b.bridges k).ipc = some i → e ≠ .detach (some i)) ∧
      ∀ i numCores native magic, e = .store i numCores native magic →
        numCores = (b.world.segments i).shared.numCores
  | .realize k calls _ => b.world.Allowed (.attach calls) ∧ (b.bridges k).ipc = none
  | .unrealize _ => True

/-- The machines that can be reached from bridges that are not realized. -/
inductive Reachable (intcs : List Char → ℕ) (segments : ℕ → Segment) (bridges : ℕ → SstMmioBridge) :
    Board → Prop
  | start : (∀ k, (bridges k).ipc = none ∧ (bridges k).mapped = false) →
      Reachable intcs segments bridges { world := { segments }, bridges }
  | step {b b' : Board} {e : BoardEvent} : Reachable intcs segments bridges b → b.Allowed e →
      b.step intcs e = .ok b' → Reachable intcs segments bridges b'

end Board

/-! ### One access -/

section

variable {w w' : World} {c : QuetzIpcClient} {s s' : SstMmioBridge} {intcs : List Char → ℕ}
  {calls : AttachCalls} {errno : ℕ}

/-- The bridge compares with the truncated count, which is not larger. -/
theorem publish_of_vcpu {currentCpu : Option UInt32} {vcpu : UInt32}
    (h : s.vcpu w c currentCpu = .ok vcpu) (op : Mailbox.Op) : w.publish c vcpu op =
      some { segment := c.shared.segment, vcpu, request := op.request } := by
  rw [SstMmioBridge.vcpu] at h
  split at h
  next => cases h
  next v hindex =>
  split_ifs at h with hrange
  obtain rfl := Except.ok.inj h
  rw [not_or, ge_iff_le, ge_iff_le, not_le, UInt32.not_le] at hrange
  rw [World.publish, if_neg]
  rw [not_or, ge_iff_le, ge_iff_le, not_le, UInt64.not_le]
  refine ⟨?_, hrange.2⟩
  have hcount := UInt32.lt_iff_toNat_lt.mp hrange.1
  rw [World.vcpuCount, UInt64.toNat_toUInt32] at hcount
  rw [UInt64.lt_iff_toNat_lt, UInt32.toNat_toUInt64]
  exact hcount.trans_le (Nat.mod_le ..)

/-- No access is dropped. -/
theorem access_eq {a : Access} {vcpu : UInt32} (h : s.vcpu w c a.currentCpu = .ok vcpu) :
    s.access w c a = .ok (some
      { segment := c.shared.segment, vcpu, request := (a.op s.base).request }) := by
  rw [SstMmioBridge.access, h]
  exact congrArg Except.ok (publish_of_vcpu h _)

/-- A bridge as the launcher asks for it, with `n` vCPUs. -/
structure Launched (n : ℕ) (s : SstMmioBridge) : Prop where
  perVcpu : s.perVcpu = decide (1 < n)
  vcpuId : s.vcpuId = 0

/-- The count of a segment that the simulator made for `n` vCPUs. -/
theorem vcpuCount_toNat {n : ℕ} (hn : n ≤ IrqMailbox.QUETZ_MAX_MMIO_VCORES)
    (hcores : (w.segments c.shared.segment).shared.numCores = .ofNat n) :
    (w.vcpuCount c).toNat = n := by
  have hn' : n ≤ 256 := hn
  rw [World.vcpuCount, hcores, UInt64.toNat_toUInt32, UInt64.toNat_ofNat']
  omega

/-- The slot of an access is that of the running CPU. -/
theorem vcpu_of_launched {n : ℕ} (hs : Launched n s) (hn : n ≤ IrqMailbox.QUETZ_MAX_MMIO_VCORES)
    (hcores : (w.segments c.shared.segment).shared.numCores = .ofNat n) {cpu : UInt32}
    (hcpu : cpu.toNat < n) : s.vcpu w c (some cpu) = .ok cpu := by
  have hcount := vcpuCount_toNat hn hcores
  have hrange : ¬(cpu ≥ w.vcpuCount c ∨ cpu.toNat ≥ IrqMailbox.QUETZ_MAX_MMIO_VCORES) := by
    rw [not_or, ge_iff_le, ge_iff_le, not_le, UInt32.not_le, UInt32.lt_iff_toNat_lt, hcount]
    exact ⟨hcpu, hcpu.trans_le hn⟩
  have hindex : s.index (some cpu) = .ok cpu := by
    rw [SstMmioBridge.index.eq_def, hs.perVcpu, hs.vcpuId]
    by_cases hmany : 1 < n
    · rw [decide_eq_true hmany]
    · have hzero : cpu = 0 := UInt32.toNat_inj.mp (show cpu.toNat = 0 by omega)
      rw [decide_eq_false hmany, hzero]
  rw [SstMmioBridge.vcpu, hindex]
  exact if_neg hrange

/-! ### Realizing -/

/-- A bridge in another state, with the same properties. -/
structure SameProperties (s s' : SstMmioBridge) : Prop where
  shmname : s'.shmname = s.shmname
  base : s'.base = s.base
  size : s'.size = s.size
  vcpuId : s'.vcpuId = s.vcpuId
  perVcpu : s'.perVcpu = s.perVcpu

/-- Nothing is set. -/
theorem SameProperties.refl (s : SstMmioBridge) : SameProperties s s := ⟨rfl, rfl, rfl, rfl, rfl⟩

/-- Two calls that set no property. -/
theorem SameProperties.trans {s'' : SstMmioBridge} (h : SameProperties s s')
    (h' : SameProperties s' s'') : SameProperties s s'' :=
  ⟨h'.shmname.trans h.shmname, h'.base.trans h.base, h'.size.trans h.size,
    h'.vcpuId.trans h.vcpuId, h'.perVcpu.trans h.perVcpu⟩

/-- A bridge of the launcher stays one. -/
theorem SameProperties.launched {n : ℕ} (h : SameProperties s s') (hs : Launched n s) :
    Launched n s' := ⟨h.perVcpu.trans hs.perVcpu, h.vcpuId.trans hs.vcpuId⟩

/-- Of the bridge only the timer changes. -/
theorem irqInit_ok (h : s.irqInit intcs = .ok s') : s' = { s with irqTimer := true } := by
  rw [SstMmioBridge.irqInit] at h
  split_ifs at h
  exact (Except.ok.inj h).symm

/-- The check of the number of vCPUs. -/
def SstMmioBridge.Refused (s : SstMmioBridge) (vcpus : UInt32) : Prop :=
  vcpus = 0 ∨ vcpus.toNat > IrqMailbox.QUETZ_MAX_MMIO_VCORES ∨
    (!s.perVcpu ∧ (s.vcpuId ≥ vcpus ∨ vcpus > 1))

/-- What realizing does: nothing, or it takes the client it attached, and maps the range if the
number of vCPUs allows it. -/
theorem realize_spec (intcs : List Char → ℕ) (calls : AttachCalls) (errno : ℕ) (w : World)
    (hipc : s.ipc = none) (hmapped : s.mapped = false) :
    ∃ text s' w', s.realize intcs calls errno w = (text, s', w') ∧ SameProperties s s' ∧
      ((w' = w ∨ ∃ e, w.attach calls = (.error e, w')) ∧ s'.ipc = none ∧ s'.mapped = false ∧
          (s.shmname = [] ∨ s.size = 0 ∨ ∃ e, (w.attach calls).1 = .error e) ∨
        s.shmname ≠ [] ∧ s.size ≠ 0 ∧ ∃ i, w.attach calls = (.ok i, w') ∧ s'.ipc = some i ∧
          (s'.mapped = true ↔ ¬s.Refused (((w'.clients i).map w'.vcpuCount).getD 0))) := by
  rw [SstMmioBridge.realize]
  by_cases hname : s.shmname = []
  · rw [if_pos hname]
    exact ⟨_, _, _, rfl, .refl s, Or.inl ⟨Or.inl rfl, hipc, hmapped, Or.inl hname⟩⟩
  rw [if_neg hname]
  by_cases hsize : s.size = 0
  · rw [if_pos hsize]
    exact ⟨_, _, _, rfl, .refl s, Or.inl ⟨Or.inl rfl, hipc, hmapped, Or.inr (Or.inl hsize)⟩⟩
  rw [if_neg hsize]
  generalize w.attach calls = res
  obtain ⟨result, w₁⟩ := res
  cases result with
  | error e =>
      exact ⟨_, _, _, rfl, ⟨rfl, rfl, rfl, rfl, rfl⟩,
        Or.inl ⟨Or.inr ⟨e, rfl⟩, rfl, hmapped, Or.inr (Or.inr ⟨e, rfl⟩)⟩⟩
  | ok i =>
      dsimp only
      split_ifs with hrefused hirq
      · exact ⟨_, _, _, rfl, ⟨rfl, rfl, rfl, rfl, rfl⟩, Or.inr ⟨hname, hsize, i, rfl, rfl, by
          rw [hmapped]
          exact ⟨nofun, fun hno => absurd hrefused hno⟩⟩⟩
      · cases hinit : SstMmioBridge.irqInit intcs { s with ipc := some i, mapped := true } with
        | error text =>
            exact ⟨_, _, _, rfl, ⟨rfl, rfl, rfl, rfl, rfl⟩,
              Or.inr ⟨hname, hsize, i, rfl, rfl, ⟨fun _ => hrefused, fun _ => rfl⟩⟩⟩
        | ok s' =>
            obtain rfl := irqInit_ok hinit
            exact ⟨_, _, _, rfl, ⟨rfl, rfl, rfl, rfl, rfl⟩,
              Or.inr ⟨hname, hsize, i, rfl, rfl, ⟨fun _ => hrefused, fun _ => rfl⟩⟩⟩
      · exact ⟨_, _, _, rfl, ⟨rfl, rfl, rfl, rfl, rfl⟩,
          Or.inr ⟨hname, hsize, i, rfl, rfl, ⟨fun _ => hrefused, fun _ => rfl⟩⟩⟩

/-- The check passes for a bridge of the launcher. -/
theorem not_refused {n : ℕ} (hs : Launched n s) (hpos : 0 < n)
    (hn : n ≤ IrqMailbox.QUETZ_MAX_MMIO_VCORES) {vcpus : UInt32} (hcount : vcpus.toNat = n) :
    ¬s.Refused vcpus := by
  rintro (hzero | hmany | ⟨hshared, hone⟩)
  · rw [hzero] at hcount
    exact hpos.ne hcount
  · rw [hcount] at hmany
    omega
  · rw [hs.perVcpu, Bool.not_eq_true', decide_eq_false_iff_not] at hshared
    rw [hs.vcpuId, ge_iff_le, gt_iff_lt, UInt32.le_iff_toNat_le, UInt32.lt_iff_toNat_lt,
      hcount] at hone
    rcases hone with hle | hlt
    · exact absurd hle (not_le.mpr hpos)
    · exact hshared hlt

/-! ### The invariant -/

variable {segments : ℕ → Segment} {bridges : ℕ → SstMmioBridge} {b b' : Board}

/-- Every bridge with a client has its own, which is attached. -/
structure Board.Inv (segments : ℕ → Segment) (bridges : ℕ → SstMmioBridge) (b : Board) : Prop where
  world : ∃ es, Ipc.Inv es b.world
  attached : ∀ k i, (b.bridges k).ipc = some i → (b.world.clients i).isSome = true
  distinct : ∀ k k' i, (b.bridges k).ipc = some i → (b.bridges k').ipc = some i → k = k'
  mapped : ∀ k, (b.bridges k).mapped = true → (b.bridges k).ipc.isSome = true
  properties : ∀ k, SameProperties (bridges k) (b.bridges k)
  cores : ∀ i, (b.world.segments i).shared.numCores = (segments i).shared.numCores

/-- What an event of the process keeps. -/
theorem Board.Inv.kept (h : b.Inv segments bridges) {e : IpcEvent} (ha : b.world.Allowed e)
    (hstep : b.world.step e = .ok w') (hkeep : ∀ i numCores native magic,
      e = .store i numCores native magic → numCores = (b.world.segments i).shared.numCores) :
    (∃ es, Ipc.Inv es w') ∧
      (∀ i, (w'.segments i).shared.numCores = (segments i).shared.numCores) ∧
      ∀ i, e ≠ .detach (some i) → (b.world.clients i).isSome = true →
        (w'.clients i).isSome = true := by
  obtain ⟨es, hinv⟩ := h.world
  refine ⟨?_, fun i => ?_, fun i hne hsome => ?_⟩
  · rcases hinv.step ha with ⟨w₁, hw₁, hinv'⟩ | ⟨vcpu, -, -, herr⟩
    · obtain rfl := Except.ok.inj (hw₁.symm.trans hstep)
      exact ⟨_, hinv'⟩
    · cases herr.symm.trans hstep
  · exact (hinv.numCores ha hstep i (hkeep i)).trans (h.cores i)
  · obtain ⟨c, hc⟩ := Option.isSome_iff_exists.mp hsome
    obtain ⟨link, hc'⟩ := hinv.frame ha hstep hc hne
    rw [hc']
    rfl

/-- An attach keeps the numbers of cores and the clients. -/
theorem Board.Inv.kept_attach (h : b.Inv segments bridges)
    (ha : b.world.Allowed (.attach calls)) :
    (∃ es, Ipc.Inv es (b.world.attach calls).2) ∧
      (∀ i, ((b.world.attach calls).2.segments i).shared.numCores =
        (segments i).shared.numCores) ∧
      ∀ i, (b.world.clients i).isSome = true →
        ((b.world.attach calls).2.clients i).isSome = true := by
  have hstep : b.world.step (.attach calls) = .ok (b.world.attach calls).2 := rfl
  obtain ⟨hworld, hcores, hclients⟩ := h.kept ha hstep
    fun i numCores native magic hstore => nomatch hstore
  exact ⟨hworld, hcores, fun i => hclients i fun hdetach => nomatch hdetach⟩

/-- A bridge without a client is not mapped. -/
theorem Board.Inv.unmapped (h : b.Inv segments bridges) {k : ℕ} (hipc : (b.bridges k).ipc = none) :
    (b.bridges k).mapped = false := by
  rw [← Bool.not_eq_true]
  intro hmapped
  have hsome := h.mapped k hmapped
  rw [hipc] at hsome
  cases hsome

/-- One bridge changes its state, and the process changes with it. -/
theorem Board.Inv.set (h : b.Inv segments bridges) {k : ℕ} (hs : SameProperties (b.bridges k) s')
    (hmapped : s'.mapped = true → s'.ipc.isSome = true)
    (hnew : ∀ i, s'.ipc = some i → (w'.clients i).isSome = true ∧
      ∀ j, j ≠ k → (b.bridges j).ipc ≠ some i)
    (hworld : ∃ es, Ipc.Inv es w')
    (hcores : ∀ i, (w'.segments i).shared.numCores = (segments i).shared.numCores)
    (hattached : ∀ j i, j ≠ k → (b.bridges j).ipc = some i → (w'.clients i).isSome = true) :
    Board.Inv segments bridges { world := w', bridges := Function.update b.bridges k s' } := by
  have hother : ∀ {j : ℕ}, j ≠ k → Function.update b.bridges k s' j = b.bridges j :=
    fun hj => Function.update_of_ne hj ..
  have hself : Function.update b.bridges k s' k = s' := Function.update_self ..
  constructor
  case world => exact hworld
  case attached =>
    intro j i hi
    dsimp only at hi
    by_cases hj : j = k
    · rw [hj, hself] at hi
      exact (hnew i hi).1
    · rw [hother hj] at hi
      exact hattached j i hj hi
  case distinct =>
    intro j j' i hi hi'
    dsimp only at hi hi'
    by_cases hj : j = k
    · by_cases hj' : j' = k
      · rw [hj, hj']
      · rw [hj, hself] at hi
        rw [hother hj'] at hi'
        exact absurd hi' ((hnew i hi).2 j' hj')
    · rw [hother hj] at hi
      by_cases hj' : j' = k
      · rw [hj', hself] at hi'
        exact absurd hi ((hnew i hi').2 j hj)
      · rw [hother hj'] at hi'
        exact h.distinct j j' i hi hi'
  case mapped =>
    intro j hj
    dsimp only at hj ⊢
    by_cases hjk : j = k
    · rw [hjk, hself] at hj ⊢
      exact hmapped hj
    · rw [hother hjk] at hj ⊢
      exact h.mapped j hj
  case properties =>
    intro j
    dsimp only
    by_cases hj : j = k
    · rw [hj, hself]
      exact (h.properties k).trans hs
    · rw [hother hj]
      exact h.properties j
  case cores => exact hcores

/-- Realizing a bridge, which attaches it to its segment or leaves the process as it was. -/
theorem Board.Inv.realize (h : b.Inv segments bridges) {k : ℕ}
    (ha : b.Allowed (.realize k calls errno)) :
    ∃ b', b.step intcs (.realize k calls errno) = .ok b' ∧ b'.Inv segments bridges := by
  obtain ⟨hattach, hipc⟩ := ha
  obtain ⟨text, s', w', heq, hs, hresult⟩ :=
    realize_spec intcs calls errno b.world hipc (h.unmapped hipc)
  rw [Board.step, heq]
  refine ⟨_, rfl, ?_⟩
  obtain ⟨hworld, hcores, hclients⟩ := h.kept_attach hattach
  rcases hresult with ⟨hw', hnone, hmapped, -⟩ | ⟨-, -, i, hok, hsome, -⟩
  · -- The process is as before.
    have hsame : w' = b.world := by
      rcases hw' with rfl | ⟨e, herr⟩
      · rfl
      · rcases World.attach_spec hattach with ⟨e', heq', -⟩ | ⟨i, c, -, heq'⟩
        · exact (Prod.mk.inj (herr.symm.trans heq')).2
        · cases (Prod.mk.inj (herr.symm.trans heq')).1
    subst hsame
    refine h.set hs (fun hyes => ?_) (fun i hi => ?_) h.world h.cores
      fun j i _ hi => h.attached j i hi
    · rw [hmapped] at hyes
      cases hyes
    · rw [hnone] at hi
      cases hi
  · rcases World.attach_spec hattach with ⟨e', heq', -⟩ | ⟨i', c, hfresh, heq'⟩
    · cases (Prod.mk.inj (hok.symm.trans heq')).1
    obtain rfl : i = i' := Except.ok.inj (Prod.mk.inj (hok.symm.trans heq')).1
    rw [hok] at hworld hcores hclients
    refine h.set hs (fun _ => by rw [hsome]; rfl) (fun j hj => ?_) hworld hcores fun j l _ hl =>
      hclients l (h.attached j l hl)
    obtain rfl : i = j := Option.some.inj (hsome.symm.trans hj)
    refine ⟨?_, fun j _ hj' => ?_⟩
    · have hw' := (Prod.mk.inj (hok.symm.trans heq')).2
      rw [hw', World.added]
      dsimp only
      rw [Function.update_self]
      rfl
    · have hbefore := h.attached j i hj'
      rw [hfresh.free] at hbefore
      cases hbefore

/-- Unrealizing a bridge, which detaches its own client only. -/
theorem Board.Inv.unrealize (h : b.Inv segments bridges) (k : ℕ) :
    ∃ b', b.step intcs (.unrealize k) = .ok b' ∧ b'.Inv segments bridges := by
  rw [Board.step, SstMmioBridge.unrealize]
  cases hipc : (b.bridges k).ipc with
  | none =>
      refine ⟨_, rfl, h.set ⟨rfl, rfl, rfl, rfl, rfl⟩ nofun nofun h.world h.cores
        fun j i _ hi => h.attached j i hi⟩
  | some i =>
      obtain ⟨es, hinv⟩ := h.world
      have ha : b.world.Allowed (.detach (some i)) := by
        intro j hj
        obtain rfl : i = j := Option.some.inj hj
        exact h.attached k i hipc
      obtain ⟨w', hdetach, -⟩ := hinv.detach ha
      have hstep : b.world.step (.detach (some i)) = .ok w' := hdetach
      obtain ⟨hworld, hcores, hclients⟩ := h.kept ha hstep
        fun i numCores native magic hstore => nomatch hstore
      dsimp only
      rw [hdetach]
      refine ⟨_, rfl, h.set ⟨rfl, rfl, rfl, rfl, rfl⟩ nofun nofun hworld hcores
        fun j l hj hl => hclients l (fun heq => hj ?_) (h.attached j l hl)⟩
      obtain rfl : i = l := Option.some.inj (IpcEvent.detach.inj heq)
      exact h.distinct j k i hl hipc

/-- **One event.** -/
theorem Board.Inv.step (h : b.Inv segments bridges) {e : BoardEvent} (ha : b.Allowed e) :
    (∃ b', b.step intcs e = .ok b' ∧ b'.Inv segments bridges) ∨ ∃ vcpu, e = .ipc (.cpuReset vcpu) ∧
      IrqMailbox.QUETZ_MAX_MMIO_VCORES ≤ vcpu.toNat ∧ b.step intcs e = .error .aborted := by
  cases e with
  | ipc e =>
      obtain ⟨hworld, hothers, hkeep⟩ := ha
      obtain ⟨es, hinv⟩ := h.world
      rcases hinv.step hworld with ⟨w', hw', -⟩ | ⟨vcpu, rfl, hvcpu, herr⟩
      · obtain ⟨hworld, hcores, hclients⟩ := h.kept hworld hw' hkeep
        refine Or.inl ⟨{ b with world := w' }, by rw [Board.step, hw']; rfl, hworld,
          fun k i hi => ?_, h.distinct, h.mapped, h.properties, hcores⟩
        exact hclients i (hothers k i hi) (h.attached k i hi)
      · exact Or.inr ⟨vcpu, rfl, hvcpu, by rw [Board.step, herr]; rfl⟩
  | realize k calls errno => exact Or.inl (h.realize ha)
  | unrealize k => exact Or.inl (h.unrealize k)

/-- In every reachable state, by induction on the run. -/
theorem Board.Reachable.inv (h : Board.Reachable intcs segments bridges b) :
    b.Inv segments bridges := by
  induction h with
  | start hfresh =>
      refine ⟨⟨[], Ipc.Inv.start segments⟩, fun k i hi => ?_, fun k k' i hi => ?_, fun k hk => ?_,
        fun k => .refl _, fun i => rfl⟩
      · rw [(hfresh k).1] at hi
        cases hi
      · rw [(hfresh k).1] at hi
        cases hi
      · rw [(hfresh k).2] at hk
        cases hk
  | step hreach ha hstep ih =>
      rcases ih.step ha with ⟨b', hb', hinv⟩ | ⟨vcpu, -, -, herr⟩
      · obtain rfl := Except.ok.inj (hb'.symm.trans hstep)
        exact hinv
      · cases herr.symm.trans hstep

/-- **Every access reaches the slot of its vCPU.** The bridges of a machine that was launched with
`n` vCPUs, in any order of attaching, detaching and resets in their process, which may fail. A
bridge that is mapped has a client of its own, which is attached, and every access of a vCPU through
it is published in the slot of that vCPU, at the address of the guest: none is dropped, and none
ends the process. A bridge with a name and a size is mapped if its client attaches. -/
theorem launched_accesses_reach_own_slot {n : ℕ} (hpos : 0 < n)
    (hn : n ≤ IrqMailbox.QUETZ_MAX_MMIO_VCORES)
    (hcores : ∀ i, (segments i).shared.numCores = .ofNat n)
    (hlaunched : ∀ k, Launched n (bridges k)) (h : Board.Reachable intcs segments bridges b) :
    (∀ k, (b.bridges k).mapped = true → ∃ i c, (b.bridges k).ipc = some i ∧
      b.world.clients i = some c ∧ (∀ j, (b.bridges j).ipc = some i → j = k) ∧
      ∀ a cpu, a.currentCpu = some cpu → cpu.toNat < n → (b.bridges k).access b.world c a =
        .ok (some { segment := c.shared.segment, vcpu := cpu
                    request := (a.op (bridges k).base).request })) ∧
    ∀ k calls errno, b.Allowed (.realize k calls errno) →
      (((b.bridges k).realize intcs calls errno b.world).2.1.mapped = true ↔
        (bridges k).shmname ≠ [] ∧ (bridges k).size ≠ 0 ∧
          ∃ i, (b.world.attach calls).1 = .ok i) := by
  have hinv := h.inv
  refine ⟨fun k hk => ?_, fun k calls errno ha => ?_⟩
  · obtain ⟨i, hi⟩ := Option.isSome_iff_exists.mp (hinv.mapped k hk)
    obtain ⟨c, hc⟩ := Option.isSome_iff_exists.mp (hinv.attached k i hi)
    refine ⟨i, c, hi, hc, fun j hj => hinv.distinct j k i hj hi, fun a cpu hcpu hlt => ?_⟩
    have hs := (hinv.properties k).launched (hlaunched k)
    have hslot := vcpu_of_launched hs hn ((hinv.cores c.shared.segment).trans (hcores _)) hlt
    rw [← hcpu] at hslot
    rw [access_eq hslot, (hinv.properties k).base]
  · obtain ⟨hattach, hipc⟩ := ha
    obtain ⟨text, s', w', heq, -, hresult⟩ :=
      realize_spec intcs calls errno b.world hipc (hinv.unmapped hipc)
    rw [heq, ← (hinv.properties k).shmname, ← (hinv.properties k).size]
    rcases hresult with ⟨-, -, hmapped, hwhy⟩ | ⟨hname, hsize, i, hok, -, hmapped⟩
    · rw [hmapped]
      refine ⟨nofun, ?_⟩
      rintro ⟨hname, hsize, i, hok⟩
      rcases hwhy with hempty | hzero | ⟨e, herr⟩
      · exact absurd hempty hname
      · exact absurd hzero hsize
      · cases herr.symm.trans hok
    · have hcount : (((w'.clients i).map w'.vcpuCount).getD 0).toNat = n := by
        obtain ⟨-, hcores', -⟩ := hinv.kept_attach hattach
        rw [hok] at hcores'
        rcases World.attach_spec hattach with ⟨e', heq', -⟩ | ⟨i', c, -, heq'⟩
        · cases (Prod.mk.inj (hok.symm.trans heq')).1
        obtain ⟨hi, hw'⟩ := Prod.mk.inj (hok.symm.trans heq')
        obtain rfl := Except.ok.inj hi
        have hclient : w'.clients i = some c := by
          rw [hw']
          exact Function.update_self ..
        rw [hclient]
        exact vcpuCount_toNat hn ((hcores' c.shared.segment).trans (hcores _))
      have hs := (hinv.properties k).launched (hlaunched k)
      exact ⟨fun _ => ⟨hname, hsize, i, by rw [hok]⟩,
        fun _ => hmapped.mpr (not_refused hs hpos hn hcount)⟩

/-- Two bridges of a machine with two vCPUs. -/
def twoBridges (k : ℕ) : SstMmioBridge :=
  { shmname := "/quetz".toList, base := if k = 0 then 0x1000 else 0x2000, perVcpu := true }

/-- vCPU 1 loads a word from the first bridge. -/
theorem launched_accesses_reach_own_slot_load :
    ∃ b, Board.Reachable (fun _ => 0) twoSegments twoBridges b ∧ ∃ i c,
      (b.bridges 0).ipc = some i ∧ b.world.clients i = some c ∧ (b.bridges 0).access b.world c
          { currentCpu := some 1, offset := 8, size := 4, value := none } =
        .ok (some
          { segment := c.shared.segment, vcpu := 1
            request := { cmd := .mmioRead, addr := 0x1008, size := 4, writeVal := 0 } }) := by
  let calls : AttachCalls := { calloc := some 7, shmOpen := some (3, 0), mmapHeader := some 0x1000
                               mmap := some 0x10000 }
  have hstart : Board.Reachable (fun _ => 0) twoSegments twoBridges
      { world := { segments := twoSegments }, bridges := twoBridges } :=
    .start fun k => ⟨rfl, rfl⟩
  have hattach : World.Allowed { segments := twoSegments } (.attach calls) := by decide +kernel
  have hreach := hstart.step (e := .realize 0 calls 0) ⟨hattach, rfl⟩ rfl
  obtain ⟨hmapped, -⟩ := launched_accesses_reach_own_slot Nat.two_pos (by decide) (fun _ => rfl)
    (fun _ => ⟨rfl, rfl⟩) hreach
  obtain ⟨i, c, hi, hc, -, haccess⟩ := hmapped 0 (by rfl)
  exact ⟨_, hreach, i, c, hi, hc, haccess _ 1 rfl (by decide)⟩

end

end Quetz.Ipc
