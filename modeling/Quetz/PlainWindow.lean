import Quetz.ResetEpoch

/-!
# The Plain Window

The SST window without a cache. `pollMmioSyncMailbox` packs a write most significant byte first
and sends one request of the width of the access, and `completeMmioSyncResponse` unpacks the
answer to a read.

A `WindowWorld` is the CPU with the memory behind its mmio links. The guest waits for the response
of a request before it publishes the next one; polls and answers of the memory come in any order
in between. What an access to the window is for is `windowEffect`: it reads or writes its bytes,
most significant byte first. `Implements` lists what a path of the CPU owes to that specification
at one poll and at one answer; `Implements.serves` carries it over every schedule of every
request, for this path and for the one through a disabled window cache.

## Main results

* `Implements.serves`, `Implements.exists_serves`: the effect of every run, and that runs exist.
* `plain_implements`: the plain path implements the specification.
-/

namespace Quetz

open ByteMemory WindowDataCache WindowCacheBank QuetzCpu

/-! ### Memory behind the link -/

/-- A flat memory of bytes. -/
abbrev Mem := ℕ → UInt8

/-- The response of a memory to a request. -/
def Body.answer (mem : Mem) : Body → Response
  | .read addr size => .readResp (readSpan mem addr.toNat size)
  | .write .. => .writeResp
  | .flushAddr .. => .flushResp

/-- The memory after a request. -/
def Body.perform (mem : Mem) : Body → Mem
  | .write addr _ data => writeSpan mem addr.toNat data
  | .read .. | .flushAddr .. => mem

/-- The CPU and the memory behind its mmio links. -/
structure WindowWorld where
  cpu : QuetzCpu
  mem : Mem

/-- What happens between two requests of the guest. -/
inductive WindowEvent where
  | poll | answer
deriving DecidableEq, Repr

namespace WindowWorld

variable {c : CpuConfig} {w w' : WindowWorld} {v : ℕ} {req : MmioSyncRequest}

/-- One poll of the mailboxes, or one answer of the memory to the oldest request. -/
def step (c : CpuConfig) (w : WindowWorld) : WindowEvent → Except CpuFatal WindowWorld
  | .poll =>
    match pollMmioSyncMailbox c w.cpu with
    | .error e => .error e
    | .ok cpu => .ok { w with cpu := cpu }
  | .answer =>
    match w.cpu.host.inFlight with
    | [] => .ok w
    | r :: _ =>
      let cpu := { w.cpu with host := w.cpu.host.take 0 }
      match completeMmioSyncResponse r.vcpu r.id (r.body.answer w.mem) false cpu with
      | .error e => .error e
      | .ok res => .ok ⟨res.getD cpu, r.body.perform w.mem⟩

/-- A schedule of polls and answers. -/
def run (c : CpuConfig) : List WindowEvent → WindowWorld → Except CpuFatal WindowWorld
  | [], w => .ok w
  | e :: es, w =>
    match w.step c e with
    | .error e => .error e
    | .ok w => run c es w

/-- The guest publishes a request. -/
def publish (v : ℕ) (req : MmioSyncRequest) (w : WindowWorld) : WindowWorld :=
  { w with cpu := { w.cpu with mailbox := Function.update w.cpu.mailbox v (some req) } }

@[simp] theorem publish_mailbox (v : ℕ) (req : MmioSyncRequest) (w : WindowWorld) :
    (w.publish v req).cpu.mailbox v = some req := by
  simp [publish]

theorem publish_mailbox_of_ne {u : ℕ} (req : MmioSyncRequest) (w : WindowWorld) (h : u ≠ v) :
    (w.publish v req).cpu.mailbox u = w.cpu.mailbox u :=
  Function.update_of_ne h _ _

/-- Taking the one published request empties the mailboxes. -/
theorem publish_taken (v : ℕ) (req : MmioSyncRequest) (h : ∀ u, w.cpu.mailbox u = none) (u : ℕ) :
    Function.update (w.publish v req).cpu.mailbox v none u = none := by
  by_cases huv : u = v
  · simp [huv]
  · rw [Function.update_of_ne huv, publish_mailbox_of_ne req w huv, h u]

/-- No request waits, neither in a mailbox nor on a link. -/
def AtRest (w : WindowWorld) : Prop :=
  (∀ v, w.cpu.mailbox v = none) ∧ w.cpu.host.inFlight = []

/-- A run of a sequence of requests, each under a schedule of its own that serves it. -/
inductive Serves (c : CpuConfig) : List (ℕ × MmioSyncRequest) → WindowWorld → WindowWorld → Prop
  | nil (w : WindowWorld) : Serves c [] w w
  | cons {v : ℕ} {req : MmioSyncRequest} {reqs : List (ℕ × MmioSyncRequest)}
      {w w' w'' : WindowWorld} (es : List WindowEvent)
      (hrun : run c es (w.publish v req) = .ok w') (hrest : w'.AtRest)
      (hnext : Serves c reqs w' w'') : Serves c ((v, req) :: reqs) w w''

/-! ### The specification -/

/-- The window of the configuration. -/
def window (c : CpuConfig) : Region := ⟨c.sstWindowBase.toNat, c.sstWindowSize.toNat⟩

/-- A read or write of one to eight bytes inside the window. -/
structure InWindow (c : CpuConfig) (v : ℕ) (req : MmioSyncRequest) : Prop where
  vcpu : v < c.vcpuCount
  command : req.cmd = .mmioReadReq ∨ req.cmd = .mmioWriteReq
  pos : 0 < req.size
  small : req.size ≤ 8
  above : (window c).base ≤ req.addr.toNat
  below : req.addr.toNat + req.size ≤ (window c).base + (window c).size

/-- The bytes a write stores, most significant byte first. -/
def windowBytes (req : MmioSyncRequest) : List UInt8 :=
  (List.range req.size).map fun i => (req.writeVal >>> .ofNat (8 * (req.size - 1 - i))).toUInt8

@[simp] theorem length_windowBytes (req : MmioSyncRequest) :
    (windowBytes req).length = req.size := by
  simp [windowBytes]

/-- What an access to the window does: the posted value and the memory after it. -/
def windowEffect (mem : Mem) (req : MmioSyncRequest) : UInt64 × Mem :=
  if req.cmd = .mmioReadReq then (bigEndianValue (readSpan mem req.addr.toNat req.size), mem)
  else (0, writeSpan mem req.addr.toNat (windowBytes req))

/-- The effect of a sequence of accesses: the responses in order and the memory. -/
def windowEffects (mem : Mem) : List (ℕ × MmioSyncRequest) → List (ℕ × UInt64) × Mem
  | [] => ([], mem)
  | (v, req) :: reqs =>
    let effect := windowEffect mem req
    let rest := windowEffects effect.2 reqs
    ((v, effect.1) :: rest.1, rest.2)

theorem windowEffects_vcpus (reqs : List (ℕ × MmioSyncRequest)) : ∀ mem : Mem,
    (windowEffects mem reqs).1.map Prod.fst = reqs.map Prod.fst := by
  induction reqs with
  | nil => exact fun _ => rfl
  | cons r reqs ih =>
      intro mem
      rw [windowEffects, List.map_cons, List.map_cons, ih]

/-! ### Implementing the specification -/

/-- The posts of the guest's responses. -/
abbrev Posts := List (ℕ × UInt64)

/-- A path of the CPU implements the specification: `Idle mem posts` holds between two requests,
`Busy mem posts v req n` while a request is with the memory, with at most `n` answers missing. -/
structure Implements (c : CpuConfig) (Idle : Mem → Posts → WindowWorld → Prop)
    (Busy : Mem → Posts → ℕ → MmioSyncRequest → ℕ → WindowWorld → Prop) : Prop where
  atRest : ∀ {m p w}, Idle m p w → w.AtRest
  effect : ∀ {m p w}, Idle m p w → w.mem = m ∧ w.cpu.host.posts = p
  inFlight : ∀ {m p v req n w}, Busy m p v req n w → w.cpu.host.inFlight ≠ []
  idle : ∀ {m p w} u, u < c.vcpuCount → Idle m p w →
    ∃ cpu, pollVcpu c u w.cpu = .ok cpu ∧ Idle m p { w with cpu := cpu }
  passed : ∀ {m p v req w} u, u < c.vcpuCount → Idle m p w → u ≠ v → ∃ w' : WindowWorld,
    pollVcpu c u (w.publish v req).cpu = .ok (w'.publish v req).cpu ∧ w'.mem = w.mem ∧
      Idle m p w'
  taken : ∀ {m p v req w}, Idle m p w → InWindow c v req → ∃ cpu n,
    pollVcpu c v (w.publish v req).cpu = .ok cpu ∧ Busy m p v req n { w with cpu := cpu }
  busy : ∀ {m p v req n w} u, u < c.vcpuCount → Busy m p v req n w →
    ∃ cpu, pollVcpu c u w.cpu = .ok cpu ∧ Busy m p v req n { w with cpu := cpu }
  answered : ∀ {m p v req n w}, Busy m p v req n w → ∃ w', w.step c .answer = .ok w' ∧
    (Idle (windowEffect m req).2 (p ++ [(v, (windowEffect m req).1)]) w' ∨
      ∃ n' < n, Busy m p v req n' w')

section

variable {Idle : Mem → Posts → WindowWorld → Prop}
  {Busy : Mem → Posts → ℕ → MmioSyncRequest → ℕ → WindowWorld → Prop} {m : Mem} {p : Posts}

/-- Where a request stands. -/
inductive Stage (Idle : Mem → Posts → WindowWorld → Prop)
    (Busy : Mem → Posts → ℕ → MmioSyncRequest → ℕ → WindowWorld → Prop) (m : Mem) (p : Posts)
    (v : ℕ) (req : MmioSyncRequest) : WindowWorld → Prop
  | published {w : WindowWorld} (h : Idle m p w) : Stage Idle Busy m p v req (w.publish v req)
  | busy {n : ℕ} {w : WindowWorld} (h : Busy m p v req n w) : Stage Idle Busy m p v req w
  | served {w : WindowWorld}
      (h : Idle (windowEffect m req).2 (p ++ [(v, (windowEffect m req).1)]) w) :
      Stage Idle Busy m p v req w

/-- Polling other vCPUs leaves a request where it is. -/
theorem Implements.pollVcpus_busy (h : Implements c Idle Busy) {n : ℕ} (us : List ℕ)
    (hus : ∀ u ∈ us, u < c.vcpuCount) : ∀ {w : WindowWorld}, Busy m p v req n w →
    ∃ cpu, pollVcpus c us w.cpu = .ok cpu ∧ Busy m p v req n { w with cpu := cpu } := by
  induction us with
  | nil => exact fun {w} hw => ⟨w.cpu, rfl, hw⟩
  | cons u us ih =>
      intro w hw
      obtain ⟨cpu, hpoll, hcpu⟩ := h.busy u (hus u List.mem_cons_self) hw
      rw [pollVcpus, hpoll]
      exact ih (fun u hu => hus u (List.mem_cons_of_mem _ hu)) hcpu

theorem Implements.pollVcpus_idle (h : Implements c Idle Busy) (us : List ℕ)
    (hus : ∀ u ∈ us, u < c.vcpuCount) : ∀ {w : WindowWorld}, Idle m p w →
    ∃ cpu, pollVcpus c us w.cpu = .ok cpu ∧ Idle m p { w with cpu := cpu } := by
  induction us with
  | nil => exact fun {w} hw => ⟨w.cpu, rfl, hw⟩
  | cons u us ih =>
      intro w hw
      obtain ⟨cpu, hpoll, hcpu⟩ := h.idle u (hus u List.mem_cons_self) hw
      rw [pollVcpus, hpoll]
      exact ih (fun u hu => hus u (List.mem_cons_of_mem _ hu)) hcpu

/-- A poll that reaches the vCPU of the request takes it. -/
theorem Implements.pollVcpus_published (h : Implements c Idle Busy) (hin : InWindow c v req)
    (us : List ℕ) (hus : ∀ u ∈ us, u < c.vcpuCount) (hv : v ∈ us) :
    ∀ {w : WindowWorld}, Idle m p w → ∃ cpu n, pollVcpus c us (w.publish v req).cpu = .ok cpu ∧
      Busy m p v req n { w with cpu := cpu } := by
  induction us with
  | nil => cases hv
  | cons u us ih =>
      intro w hw
      have hus' : ∀ u ∈ us, u < c.vcpuCount := fun u hu => hus u (List.mem_cons_of_mem _ hu)
      rw [pollVcpus]
      by_cases huv : u = v
      · subst huv
        obtain ⟨cpu, n, hpoll, hbusy⟩ := h.taken hw hin
        rw [hpoll]
        obtain ⟨cpu', hpoll', hbusy'⟩ := h.pollVcpus_busy us hus' hbusy
        exact ⟨cpu', n, hpoll', hbusy'⟩
      · obtain ⟨w', hpoll, hmem, hw'⟩ := @h.passed m p v req w u (hus u List.mem_cons_self) hw huv
        rw [hpoll, ← hmem]
        exact ih hus' (List.mem_of_ne_of_mem (Ne.symm huv) hv) hw'

/-- **One event.** No event fails, and each leaves the request in one of its stages. -/
theorem Implements.step (h : Implements c Idle Busy) (hin : InWindow c v req)
    (hw : Stage Idle Busy m p v req w) (e : WindowEvent) :
    ∃ w', w.step c e = .ok w' ∧ Stage Idle Busy m p v req w' := by
  have hrange : ∀ u ∈ List.range c.vcpuCount, u < c.vcpuCount := fun u hu => List.mem_range.mp hu
  cases e with
  | poll =>
      cases hw with
      | @published w₀ hidle =>
          have hmem : v ∈ List.range c.vcpuCount := List.mem_range.mpr hin.vcpu
          obtain ⟨cpu, n, hpoll, hbusy⟩ := h.pollVcpus_published hin _ hrange hmem hidle
          rw [WindowWorld.step, pollMmioSyncMailbox, hpoll]
          exact ⟨_, rfl, .busy hbusy⟩
      | busy hbusy =>
          obtain ⟨cpu, hpoll, hbusy'⟩ := h.pollVcpus_busy (List.range c.vcpuCount) hrange hbusy
          rw [WindowWorld.step, pollMmioSyncMailbox, hpoll]
          exact ⟨_, rfl, .busy hbusy'⟩
      | served hidle =>
          obtain ⟨cpu, hpoll, hidle'⟩ := h.pollVcpus_idle (List.range c.vcpuCount) hrange hidle
          rw [WindowWorld.step, pollMmioSyncMailbox, hpoll]
          exact ⟨_, rfl, .served hidle'⟩
  | answer =>
      cases hw with
      | @published w₀ hidle =>
          have hempty : (w₀.publish v req).cpu.host.inFlight = [] := (h.atRest hidle).2
          rw [WindowWorld.step, hempty]
          exact ⟨_, rfl, .published hidle⟩
      | busy hbusy =>
          obtain ⟨w', hstep, hidle | ⟨n', -, hbusy'⟩⟩ := h.answered hbusy
          · exact ⟨w', hstep, .served hidle⟩
          · exact ⟨w', hstep, .busy hbusy'⟩
      | served hidle =>
          rw [WindowWorld.step, (h.atRest hidle).2]
          exact ⟨_, rfl, .served hidle⟩

/-- **A whole schedule.** -/
theorem Implements.run (h : Implements c Idle Busy) (hin : InWindow c v req)
    (es : List WindowEvent) : ∀ {w : WindowWorld}, Stage Idle Busy m p v req w →
    ∃ w', WindowWorld.run c es w = .ok w' ∧ Stage Idle Busy m p v req w' := by
  induction es with
  | nil => exact fun {w} hw => ⟨w, rfl, hw⟩
  | cons e es ih =>
      intro w hw
      obtain ⟨w₁, hstep, hw₁⟩ := h.step hin hw e
      rw [WindowWorld.run, hstep]
      exact ih hw₁

/-- A request that no longer waits anywhere is served. -/
theorem Implements.served_of_atRest (h : Implements c Idle Busy)
    (hw : Stage Idle Busy m p v req w) (hrest : w.AtRest) :
    Idle (windowEffect m req).2 (p ++ [(v, (windowEffect m req).1)]) w := by
  cases hw with
  | @published w₀ hidle =>
      have hmail := hrest.1 v
      simp [publish] at hmail
  | busy hbusy => exact absurd hrest.2 (h.inFlight hbusy)
  | served hidle => exact hidle

/-- Enough answers serve a request. -/
theorem Implements.answers (h : Implements c Idle Busy) (n : ℕ) : ∀ {w : WindowWorld},
    Busy m p v req n w → ∃ es w', WindowWorld.run c es w = .ok w' ∧
      Idle (windowEffect m req).2 (p ++ [(v, (windowEffect m req).1)]) w' := by
  induction n using Nat.strong_induction_on with
  | h n ih =>
      intro w hw
      obtain ⟨w₁, hstep, hidle | ⟨n', hlt, hbusy⟩⟩ := h.answered hw
      · refine ⟨[.answer], w₁, ?_, hidle⟩
        simp only [WindowWorld.run, hstep]
      · obtain ⟨es, w', hrun, hidle⟩ := ih n' hlt hbusy
        refine ⟨.answer :: es, w', ?_, hidle⟩
        rw [WindowWorld.run, hstep]
        exact hrun

/-- **Every run** of a sequence of requests has the specified effect. -/
theorem Implements.serves (h : Implements c Idle Busy) {reqs : List (ℕ × MmioSyncRequest)}
    (hserves : Serves c reqs w w') (hreqs : ∀ r ∈ reqs, InWindow c r.1 r.2) :
    ∀ {m : Mem} {p : Posts}, Idle m p w →
      Idle (windowEffects m reqs).2 (p ++ (windowEffects m reqs).1) w' := by
  induction hserves with
  | nil w =>
      intro m p hidle
      simpa [windowEffects] using hidle
  | @cons v req reqs w w' w'' es hrun hrest hnext ih =>
      intro m p hidle
      have hin : InWindow c v req := hreqs (v, req) List.mem_cons_self
      have hpub : Stage Idle Busy m p v req (w.publish v req) := .published hidle
      obtain ⟨w₁, hrun₁, hstage⟩ := h.run hin es hpub
      cases hrun.symm.trans hrun₁
      have hserved := h.served_of_atRest hstage hrest
      have hrec := ih (fun r hr => hreqs r (List.mem_cons_of_mem _ hr)) hserved
      rw [List.append_assoc] at hrec
      exact hrec

/-- Every sequence of requests has a run. -/
theorem Implements.exists_serves (h : Implements c Idle Busy)
    (reqs : List (ℕ × MmioSyncRequest)) : (∀ r ∈ reqs, InWindow c r.1 r.2) →
    ∀ {m : Mem} {p : Posts} {w : WindowWorld}, Idle m p w → ∃ w', Serves c reqs w w' := by
  induction reqs with
  | nil => exact fun _ _ _ w _ => ⟨w, .nil w⟩
  | cons r reqs ih =>
      obtain ⟨v, req⟩ := r
      intro hreqs m p w hidle
      have hin : InWindow c v req := hreqs (v, req) List.mem_cons_self
      have hmem : v ∈ List.range c.vcpuCount := List.mem_range.mpr hin.vcpu
      obtain ⟨cpu, n, hpoll, hbusy⟩ :=
        h.pollVcpus_published hin _ (fun u hu => List.mem_range.mp hu) hmem hidle
      obtain ⟨es, w', hrun, hidle'⟩ := h.answers n hbusy
      obtain ⟨w'', hserves⟩ := ih (fun r hr => hreqs r (List.mem_cons_of_mem _ hr)) hidle'
      refine ⟨w'', .cons (.poll :: es) ?_ (h.atRest hidle') hserves⟩
      rw [WindowWorld.run, WindowWorld.step, pollMmioSyncMailbox, hpoll]
      exact hrun

end

/-! ### The plain window -/

/-- The plain path is set up: no port owns an address of the window or waits for a response, and
the end of the window is an address. -/
structure PlainReady (c : CpuConfig) (cpu : QuetzCpu) : Prop where
  bank : cpu.bank.pending = ∅
  fits : 0 < c.vcpuCount → (window c).base + (window c).size < 2 ^ 64
  outside : ∀ q ∈ cpu.ports, ∀ a : UInt64, (window c).base ≤ a.toNat →
    a.toNat < (window c).base + (window c).size → BalarPort.ownsAddr q.1 a = false
  quiet : ∀ q ∈ cpu.ports, ∀ id, q.2.flushToVcpu id = none ∧ q.2.pending id = none

/-- The plain path between two requests. -/
structure PlainIdle (c : CpuConfig) (m : Mem) (p : Posts) (w : WindowWorld) : Prop where
  ready : PlainReady c w.cpu
  rest : w.AtRest
  mem : w.mem = m
  posts : w.cpu.host.posts = p

/-- The request the plain path sends for an access. -/
def plainBody (req : MmioSyncRequest) : Body :=
  if req.cmd = .mmioReadReq then .read req.addr req.size
  else .write req.addr req.size (windowBytes req)

/-- The plain path while the memory has the request. -/
structure PlainBusy (c : CpuConfig) (m : Mem) (p : Posts) (v : ℕ) (req : MmioSyncRequest)
    (_n : ℕ) (w : WindowWorld) : Prop where
  ready : PlainReady c w.cpu
  mailbox : ∀ u, w.cpu.mailbox u = none
  mem : w.mem = m
  posts : w.cpu.host.posts = p
  sent : ∃ id, w.cpu.host.inFlight = [⟨id, v, .mmio, plainBody req⟩] ∧
    w.cpu.genericPending id =
      some ⟨v, decide (req.cmd = .mmioReadReq), decide (req.cmd = .mmioReadReq)⟩

/-- The plain window is most significant byte first. -/
theorem InWindow.plain_bigEndian (hin : InWindow c v req) {cpu : QuetzCpu}
    (hcache : c.sstWindowCache = false) (hbe : c.windowBigEndian = true)
    (hready : PlainReady c cpu) : windowBigEndian c cpu req.addr = true := by
  have hfits := hready.fits (Nat.zero_lt_of_lt hin.vcpu)
  have habove := hin.above
  have hbelow := hin.below
  have hpos := hin.pos
  simp only [window] at hfits habove hbelow
  have hsum : (c.sstWindowBase + c.sstWindowSize).toNat =
      c.sstWindowBase.toNat + c.sstWindowSize.toNat := by
    rw [UInt64.toNat_add, Nat.mod_eq_of_lt hfits]
  have hsize : c.sstWindowSize ≠ 0 := by
    intro h0
    rw [h0] at hbelow
    simp only [UInt64.toNat_zero] at hbelow
    omega
  have hlo : c.sstWindowBase ≤ req.addr := UInt64.le_iff_toNat_le.mpr habove
  have hhi : req.addr < c.sstWindowBase + c.sstWindowSize := by
    rw [UInt64.lt_iff_toNat_lt, hsum]
    omega
  simp [windowBigEndian, hcache, hbe, hsize, hlo, hhi]

/-- The payload of a write packed most significant byte first. -/
theorem InWindow.data (hin : InWindow c v req) {cpu : QuetzCpu}
    (hbe : windowBigEndian c cpu req.addr = true) (hw : req.cmd = .mmioWriteReq) :
    (commandOf c cpu req).data.take req.size = windowBytes req := by
  have hsmall := hin.small
  have hle : req.size ≤ 64 := by omega
  simp only [commandOf, hw, hbe, Bool.true_and, decide_eq_true hsmall, windowBytes, cmdDataBytes,
    if_true]
  rw [← List.map_take, List.take_range, Nat.min_eq_left hle]
  refine List.map_congr_left fun i hi => ?_
  rw [if_pos (List.mem_range.mp hi)]

/-- No port owns an address of the window or waits for a response, and neither does the cache. -/
structure Unclaimed (c : CpuConfig) (cpu : QuetzCpu) : Prop where
  bank : cpu.bank.pending = ∅
  outside : ∀ q ∈ cpu.ports, ∀ a : UInt64, (window c).base ≤ a.toNat →
    a.toNat < (window c).base + (window c).size → BalarPort.ownsAddr q.1 a = false
  quiet : ∀ q ∈ cpu.ports, ∀ id, q.2.flushToVcpu id = none ∧ q.2.pending id = none

theorem Unclaimed.portForAddr {cpu : QuetzCpu} (h : Unclaimed c cpu) (hin : InWindow c v req) :
    cpu.portForAddr req.addr = none := by
  have hbelow := hin.below
  have hpos := hin.pos
  rw [QuetzCpu.portForAddr, List.findIdx?_eq_none_iff]
  intro q hq
  exact h.outside q hq req.addr hin.above (by omega)

theorem Unclaimed.offerPorts {cpu : QuetzCpu} (h : Unclaimed c cpu) (id : ℕ) (resp : Response)
    (host : Host) : QuetzCpu.offerPorts id resp host cpu.ports = .ok none := by
  have hquiet := h.quiet
  generalize cpu.ports = ports at hquiet
  induction ports with
  | nil => rfl
  | cons q ports ih =>
      obtain ⟨hflush, hpend⟩ := hquiet q List.mem_cons_self id
      have hrest := ih fun q hq => hquiet q (List.mem_cons_of_mem _ hq)
      rw [QuetzCpu.offerPorts, BalarPort.handleResponse, hflush]
      simp only [hpend]
      rw [hrest]

theorem PlainReady.unclaimed {cpu : QuetzCpu} (h : PlainReady c cpu) : Unclaimed c cpu :=
  ⟨h.bank, h.outside, h.quiet⟩

/-- Without a window cache a poll resets nothing. -/
theorem plain_pollVcpu (hcache : c.sstWindowCache = false) {cpu : QuetzCpu} {u : ℕ}
    (hmail : cpu.mailbox u = none) : pollVcpu c u cpu = .ok cpu := by
  have hreset : pollReset c u cpu = .ok cpu := by
    rw [pollReset, if_neg (by simp [hcache])]
  rw [pollVcpu, hreset]
  simp only [hmail]

theorem PlainIdle.taken (hcache : c.sstWindowCache = false) (hbe : c.windowBigEndian = true)
    (hmmio : ∀ v < c.vcpuCount, c.hasMmio v = true) {m : Mem} {p : Posts} (h : PlainIdle c m p w)
    (hin : InWindow c v req) : ∃ cpu, pollVcpu c v (w.publish v req).cpu = .ok cpu ∧
      PlainBusy c m p v req 0 { w with cpu := cpu } := by
  have hready : PlainReady c (w.publish v req).cpu :=
    ⟨h.ready.bank, h.ready.fits, h.ready.outside, h.ready.quiet⟩
  have hbig := hin.plain_bigEndian hcache hbe hready
  have hport := hready.unclaimed.portForAddr hin
  have hdata := hin.data hbig
  have hreset : pollReset c v (w.publish v req).cpu = .ok (w.publish v req).cpu := by
    rw [pollReset, if_neg (by simp [hcache])]
  have hflight : (w.publish v req).cpu.host.inFlight = [] := h.rest.2
  have hmail := publish_taken v req h.rest.1
  have hposts : (w.publish v req).cpu.host.posts = p := h.posts
  rw [pollVcpu, hreset]
  simp only [publish_mailbox]
  generalize (w.publish v req).cpu = cpu at hready hbig hport hdata hflight hmail hposts
  have hport' : QuetzCpu.portForAddr { cpu with
      mailbox := Function.update cpu.mailbox v none
      taken := Function.update cpu.taken v (cpu.taken v + 1) } (commandOf c cpu req).addr =
      none := hport
  have hcmd : (commandOf c cpu req).cmd = req.cmd := rfl
  rw [handleMmioSyncCommand, if_neg (Nat.not_le.mpr hin.vcpu),
    if_neg (by rcases hin.command with hr | hr <;> simp [hcmd, hr, hcache]),
    if_neg (by simp [hmmio v hin.vcpu]), hport']
  rcases hin.command with hr | hw
  · simp only [hcmd, hr]
    refine ⟨_, rfl, ⟨hready.bank, hready.fits, hready.outside, hready.quiet⟩, hmail, h.mem, hposts,
      cpu.host.nextId, ?_, ?_⟩
    · simp [Host.send, hflight, plainBody, hr, commandOf]
    · have hbig' : windowBigEndian c { cpu with
          mailbox := Function.update cpu.mailbox v none
          taken := Function.update cpu.taken v (cpu.taken v + 1) } (commandOf c cpu req).addr =
          true := hbig
      simp [hbig', hr]
  · simp only [hcmd, hw]
    refine ⟨_, rfl, ⟨hready.bank, hready.fits, hready.outside, hready.quiet⟩, hmail, h.mem, hposts,
      cpu.host.nextId, ?_, ?_⟩
    · have hdata' : (commandOf c cpu req).data.take (commandOf c cpu req).size =
          windowBytes req := hdata hw
      simp [Host.send, hflight, plainBody, hw, hdata']
      simp [commandOf]
    · simp [hw]

/-- The answer of the memory is posted. -/
theorem PlainBusy.answered {m : Mem} {p : Posts} {n : ℕ} (h : PlainBusy c m p v req n w) :
    ∃ w', w.step c .answer = .ok w' ∧
      PlainIdle c (windowEffect m req).2 (p ++ [(v, (windowEffect m req).1)]) w' := by
  obtain ⟨id, hsent, hpend⟩ := h.sent
  have hlook : w.cpu.bank.pending.lookup id = none := by
    rw [h.ready.bank]
    rfl
  rw [WindowWorld.step, hsent]
  simp only [completeMmioSyncResponse, hlook, h.ready.unclaimed.offerPorts, hpend]
  refine ⟨_, rfl, ⟨h.ready.bank, h.ready.fits, h.ready.outside, h.ready.quiet⟩,
    ⟨h.mailbox, ?_⟩, ?_, ?_⟩
  · simp [Host.take, Host.postResponse, hsent]
  · by_cases hr : req.cmd = .mmioReadReq
    · simp [plainBody, windowEffect, hr, Body.perform, h.mem]
    · simp [plainBody, windowEffect, hr, Body.perform, h.mem]
  · by_cases hr : req.cmd = .mmioReadReq
    · simp [Host.postResponse, Host.take, h.posts, plainBody, windowEffect, hr, Body.answer,
        genericValue, h.mem]
    · simp [Host.postResponse, Host.take, h.posts, plainBody, windowEffect, hr, Body.answer,
        genericValue]

/-- The plain path implements the window. -/
theorem plain_implements (hcache : c.sstWindowCache = false) (hbe : c.windowBigEndian = true)
    (hmmio : ∀ v < c.vcpuCount, c.hasMmio v = true) : Implements c (PlainIdle c) (PlainBusy c) where
  atRest h := h.rest
  effect h := ⟨h.mem, h.posts⟩
  inFlight h := by
    obtain ⟨id, hsent, -⟩ := h.sent
    simp [hsent]
  idle u _ h := ⟨_, plain_pollVcpu hcache (h.rest.1 u), h⟩
  passed {m p v req w} u _ h huv := by
    refine ⟨w, plain_pollVcpu hcache ?_, rfl, h⟩
    rw [publish_mailbox_of_ne _ _ huv, h.rest.1 u]
  taken h hin := by
    obtain ⟨cpu, hpoll, hbusy⟩ := h.taken hcache hbe hmmio hin
    exact ⟨cpu, 0, hpoll, hbusy⟩
  busy u _ h := ⟨_, plain_pollVcpu hcache (h.mailbox u), h⟩
  answered h := by
    obtain ⟨w', hstep, hidle⟩ := h.answered
    exact ⟨w', hstep, Or.inl hidle⟩

end WindowWorld

end Quetz
