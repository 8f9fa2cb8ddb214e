import Quetz.PlainWindow

/-!
# The Byte Order of the Window

The SST window as byte-addressed memory. The poll packs the value of a write and the response
handler unpacks the answer to a read, each with a byte order of its own choosing; both must be the
order of the guest at every width and every overlap.

A `GuestWindow` is the CPU, one byte memory behind its mmio links, and the accesses its vCPUs wait
for. Every vCPU has at most one access; several are in flight together, and the memory answers
them in any order. `served` lists the accesses in the order in which the memory performed them,
and `accesses` is what byte-addressed memory does with such a list.

`windowBigEndian` compares an address with `sst_window_base + sst_window_size` in 64 bits, and
`QUETZ_SST_WIN_END` may be the last address. That sum is then `0`, and no address is below it.

## Main results

* `GuestWindow.Serving.run`: every run serves the accesses in the order of `codeOrder`.
* `GuestWindow.byteAddressed_iff`: when that is the order the configuration asks for.
-/

namespace Quetz

open ByteMemory Bytes QuetzCpu WindowWorld

/-! ### Byte-addressed memory -/

/-- What an access does to byte-addressed memory: the number it returns and the memory after it. -/
def access (o : ByteOrder) (mem : Mem) (req : MmioSyncRequest) : ℕ × Mem :=
  if req.cmd = .mmioReadReq then (o.value (readSpan mem req.addr.toNat req.size), mem)
  else (0, writeSpan mem req.addr.toNat (o.bytes req.size req.writeVal.toNat))

/-- What a sequence of accesses does: the numbers returned to the vCPUs and the memory. -/
def accesses (o : ByteOrder) (mem : Mem) : List (ℕ × MmioSyncRequest) → List (ℕ × ℕ) × Mem
  | [] => ([], mem)
  | (v, req) :: reqs =>
    let one := access o mem req
    let rest := accesses o one.2 reqs
    ((v, one.1) :: rest.1, rest.2)

theorem accesses_concat (o : ByteOrder) (reqs : List (ℕ × MmioSyncRequest)) (v : ℕ)
    (req : MmioSyncRequest) : ∀ mem : Mem, accesses o mem (reqs ++ [(v, req)]) =
      ((accesses o mem reqs).1 ++ [(v, (access o (accesses o mem reqs).2 req).1)],
        (access o (accesses o mem reqs).2 req).2) := by
  induction reqs with
  | nil => exact fun _ => rfl
  | cons r reqs ih =>
      intro mem
      simp only [List.cons_append, accesses, ih]

/-- The orders agree on an access of one byte. -/
theorem access_one (o o' : ByteOrder) (mem : Mem) {req : MmioSyncRequest} (h : req.size = 1) :
    access o mem req = access o' mem req := by
  have hread : readSpan mem req.addr.toNat 1 = [mem req.addr.toNat] := rfl
  rw [access, access, h, hread, ByteOrder.value_singleton o o', ByteOrder.bytes_one o o']

theorem accesses_ones (o o' : ByteOrder) (reqs : List (ℕ × MmioSyncRequest)) :
    (∀ r ∈ reqs, r.2.size = 1) → ∀ mem : Mem, accesses o mem reqs = accesses o' mem reqs := by
  induction reqs with
  | nil => exact fun _ _ => rfl
  | cons r reqs ih =>
      intro hone mem
      have hrest := ih fun r hr => hone r (List.mem_cons_of_mem _ hr)
      rw [accesses, accesses, access_one o o' mem (hone r List.mem_cons_self), hrest]

/-- Reading a part of what was just written gives the digits that lie there in the order. -/
theorem access_slice (o : ByteOrder) (mem : Mem) {wr rd : MmioSyncRequest}
    (hwr : wr.cmd = .mmioWriteReq) (hrd : rd.cmd = .mmioReadReq)
    (hle : wr.addr.toNat ≤ rd.addr.toNat)
    (hend : rd.addr.toNat + rd.size ≤ wr.addr.toNat + wr.size) :
    (access o (access o mem wr).2 rd).1 = wr.writeVal.toNat /
      256 ^ o.digit wr.size (rd.addr.toNat - wr.addr.toNat) rd.size % 256 ^ rd.size := by
  have hpart : rd.addr.toNat - wr.addr.toNat + rd.size ≤ wr.size := by omega
  have hread : readSpan (writeSpan mem wr.addr.toNat (o.bytes wr.size wr.writeVal.toNat))
      rd.addr.toNat rd.size = ((o.bytes wr.size wr.writeVal.toNat).drop
        (rd.addr.toNat - wr.addr.toNat)).take rd.size := by
    refine List.ext_getElem ?_ fun i hi hi' => ?_
    · rw [length_readSpan, List.length_take, List.length_drop, ByteOrder.length_bytes]
      omega
    · rw [length_readSpan] at hi
      rw [getElem_readSpan, writeSpan_of_mem _ _ (by omega) (by rw [ByteOrder.length_bytes]; omega),
        List.getElem_take, List.getElem_drop]
      congr 1
      omega
  have hw : wr.cmd ≠ .mmioReadReq := by
    rw [hwr]
    decide
  rw [access, if_pos hrd, access, if_neg hw, hread, ByteOrder.value_slice o hpart]

/-! ### Packing and unpacking -/

/-- The order the guest of a configuration has. -/
def guestOrder (c : CpuConfig) : ByteOrder := if c.windowBigEndian then .big else .little

/-- The order in which the code packs and unpacks accesses to the window. -/
def codeOrder (c : CpuConfig) : ByteOrder :=
  if c.windowBigEndian = true ∧ (window c).base + (window c).size < 2 ^ 64 then .big else .little

variable {c : CpuConfig} {cpu : QuetzCpu} {v : ℕ} {req : MmioSyncRequest}

/-- The decision of `windowBigEndian` is the same for every access to the window. -/
theorem windowBigEndian_eq (hcache : c.sstWindowCache = false) (hin : InWindow c v req) :
    windowBigEndian c cpu req.addr = decide (codeOrder c = .big) := by
  have habove := hin.above
  have hbelow := hin.below
  have hpos := hin.pos
  have hbase := c.sstWindowBase.toNat_lt
  have hsize := c.sstWindowSize.toNat_lt
  have hlo : c.sstWindowBase ≤ req.addr := UInt64.le_iff_toNat_le.mpr habove
  have hne : c.sstWindowSize ≠ 0 := by
    intro h0
    simp only [window, h0, UInt64.toNat_zero] at habove hbelow
    omega
  have hhi : req.addr < c.sstWindowBase + c.sstWindowSize ↔
      (window c).base + (window c).size < 2 ^ 64 := by
    rw [UInt64.lt_iff_toNat_lt, UInt64.toNat_add]
    simp only [window] at habove hbelow ⊢
    constructor
    · intro hlt
      by_contra hwrap
      rw [Nat.mod_eq_sub_mod (by omega), Nat.mod_eq_of_lt (by omega)] at hlt
      omega
    · intro hfits
      rw [Nat.mod_eq_of_lt hfits]
      omega
  by_cases hbe : c.windowBigEndian = true <;>
    simp [windowBigEndian, codeOrder, hcache, hbe, hne, hlo, hhi]

/-- One byte of a value, as the packing loop takes it. -/
theorem shift_toUInt8 {x : UInt64} {i : ℕ} (hi : i < 8) :
    (x >>> .ofNat (8 * i)).toUInt8 = .ofNat (x.toNat / 256 ^ i) := by
  have hamount : (UInt64.ofNat (8 * i)).toNat % 64 = 8 * i := by
    rw [UInt64.toNat_ofNat']
    omega
  have hpow : 2 ^ (8 * i) = 256 ^ i := Nat.pow_mul 2 8 i
  refine UInt8.toNat_inj.mp ?_
  rw [UInt64.toNat_toUInt8, UInt64.toNat_shiftRight, hamount, Nat.shiftRight_eq_div_pow, hpow,
    UInt8.toNat_ofNat']

/-- The payload of a write to the window. -/
theorem take_commandOf_data (hcache : c.sstWindowCache = false) (hin : InWindow c v req)
    (hw : req.cmd = .mmioWriteReq) : (commandOf c cpu req).data.take req.size =
      (codeOrder c).bytes req.size req.writeVal.toNat := by
  have hsmall := hin.small
  have hle : req.size ≤ cmdDataBytes := hsmall.trans (by decide)
  refine List.ext_getElem ?_ fun i hi hi' => ?_
  · simp [commandOf, Nat.min_eq_left hle]
  · rw [ByteOrder.length_bytes] at hi'
    rw [ByteOrder.getElem_bytes, List.getElem_take]
    simp only [commandOf, hw, windowBigEndian_eq hcache hin, List.getElem_map,
      List.getElem_range, decide_eq_true hsmall, Bool.and_true, decide_eq_true_eq, if_pos hi']
    cases codeOrder c with
    | little =>
        simp only [reduceCtorEq, if_false, ByteOrder.digit]
        exact shift_toUInt8 (by omega)
    | big =>
        simp only [if_true, ByteOrder.digit, Nat.sub_sub, Nat.add_comm 1 i]
        exact shift_toUInt8 (by omega)

/-- The value posted for a read is the number that its bytes denote. -/
theorem toNat_genericValue (o : ByteOrder) (v : ℕ) {bs : List UInt8} (h : bs.length ≤ 8) :
    (genericValue ⟨v, true, decide (o = .big)⟩ (.readResp bs)).toNat = o.value bs := by
  cases o with
  | little => exact toNat_accelDataToU64 h
  | big =>
      have hvalue : bigEndianValue bs = accelDataToU64 bs.reverse := by
        rw [bigEndianValue, accelDataToU64, List.foldr_reverse]
      have hlen : bs.reverse.length ≤ 8 := by rwa [List.length_reverse]
      show (bigEndianValue bs).toNat = leNat bs.reverse
      rw [hvalue, toNat_accelDataToU64 hlen]

/-! ### The window in use -/

/-- The request the plain path sends for an access. -/
def orderedBody (o : ByteOrder) (req : MmioSyncRequest) : Body :=
  if req.cmd = .mmioReadReq then .read req.addr req.size
  else .write req.addr req.size (o.bytes req.size req.writeVal.toNat)

/-- What the plain path remembers of an access. -/
def orderedPending (o : ByteOrder) (v : ℕ) (req : MmioSyncRequest) : GenericPending :=
  ⟨v, decide (req.cmd = .mmioReadReq), decide (req.cmd = .mmioReadReq) && decide (o = .big)⟩

/-- The poll of a vCPU sends its access to the memory. -/
theorem pollVcpu_access (hcache : c.sstWindowCache = false) (hmmio : c.hasMmio v = true)
    (hfree : Unclaimed c cpu) (hmail : cpu.mailbox v = some req) (hin : InWindow c v req) :
    pollVcpu c v cpu = .ok { cpu with
      mailbox := Function.update cpu.mailbox v none
      taken := Function.update cpu.taken v (cpu.taken v + 1)
      genericPending := Function.update cpu.genericPending cpu.host.nextId
        (some (orderedPending (codeOrder c) v req))
      host := cpu.host.send v .mmio (orderedBody (codeOrder c) req) } := by
  have hreset : pollReset c v cpu = .ok cpu := by
    rw [pollReset, if_neg (by simp [hcache])]
  have hport := hfree.portForAddr hin
  have hcmd : (commandOf c cpu req).cmd = req.cmd := rfl
  have haddr : (commandOf c cpu req).addr = req.addr := rfl
  have hsize : (commandOf c cpu req).size = req.size := rfl
  rw [pollVcpu, hreset]
  simp only [hmail]
  have hport' : QuetzCpu.portForAddr { cpu with
      mailbox := Function.update cpu.mailbox v none
      taken := Function.update cpu.taken v (cpu.taken v + 1) } req.addr = none := hport
  rw [handleMmioSyncCommand, if_neg (Nat.not_le.mpr hin.vcpu),
    if_neg (by rcases hin.command with hr | hr <;> simp [hcmd, hr, hcache]),
    if_neg (by simp [hmmio]), haddr, hport']
  rcases hin.command with hr | hw
  · simp only [hcmd, hr, hsize, windowBigEndian_eq hcache hin, orderedBody, orderedPending, if_true,
      decide_true, Bool.true_and]
  · simp only [hcmd, hw, hsize, take_commandOf_data hcache hin hw, orderedBody, orderedPending,
      reduceCtorEq, if_false, decide_false, Bool.false_and]

/-- The CPU with one byte memory behind its mmio links. -/
structure GuestWindow where
  cpu : QuetzCpu := {}
  mem : Mem := fun _ => 0
  /-- The access each vCPU waits for. -/
  waits : ℕ → Option MmioSyncRequest := fun _ => none
  /-- The accesses the memory performed, oldest first. -/
  served : List (ℕ × MmioSyncRequest) := []

namespace GuestWindow

/-- What can happen next. -/
inductive Event where
  | publish (vcpu : ℕ) (req : MmioSyncRequest)
  | poll
  /-- The memory performs and answers the request at this position of the links. -/
  | answer (i : ℕ)

/-- One event. A vCPU that waits publishes nothing. -/
def step (c : CpuConfig) (w : GuestWindow) : Event → Except CpuFatal GuestWindow
  | .publish vcpu req =>
    match w.waits vcpu with
    | some _ => .ok w
    | none => .ok { w with
        cpu := { w.cpu with mailbox := Function.update w.cpu.mailbox vcpu (some req) }
        waits := Function.update w.waits vcpu (some req) }
  | .poll =>
    match pollMmioSyncMailbox c w.cpu with
    | .error e => .error e
    | .ok cpu => .ok { w with cpu := cpu }
  | .answer i =>
    match w.cpu.host.inFlight[i]? with
    | none => .ok w
    | some r =>
      let cpu := { w.cpu with host := w.cpu.host.take i }
      let mem := r.body.perform w.mem
      match completeMmioSyncResponse r.vcpu r.id (r.body.answer w.mem) false cpu with
      | .error e => .error e
      | .ok none => .ok { w with cpu := cpu, mem := mem }
      | .ok (some cpu) => .ok
          { cpu := cpu
            mem := mem
            waits := Function.update w.waits r.vcpu none
            served := w.served ++ (w.waits r.vcpu).toList.map (r.vcpu, ·) }

/-- The events one after the other. -/
def run (c : CpuConfig) : List Event → GuestWindow → Except CpuFatal GuestWindow
  | [], w => .ok w
  | e :: es, w =>
    match w.step c e with
    | .error e => .error e
    | .ok w => run c es w

/-- The numbers posted to the vCPUs. -/
def values (w : GuestWindow) : List (ℕ × ℕ) := w.cpu.host.posts.map fun p => (p.1, p.2.toNat)

/-- The guests access the window only. -/
def Accesses (c : CpuConfig) (es : List Event) : Prop :=
  ∀ v req, .publish v req ∈ es → InWindow c v req

/-- Nothing is under way. -/
structure Start (c : CpuConfig) (w : GuestWindow) : Prop where
  free : Unclaimed c w.cpu
  mailbox : ∀ v, w.cpu.mailbox v = none
  inFlight : w.cpu.host.inFlight = []
  waits : ∀ v, w.waits v = none
  served : w.served = []

/-- The access of a vCPU is in its mailbox or with the memory. -/
def Held (w : GuestWindow) (v : ℕ) (req : MmioSyncRequest) : Prop :=
  w.cpu.mailbox v = some req ∨ ∃ r ∈ w.cpu.host.inFlight, r.vcpu = v

/-- The window is byte-addressed memory in the order of the guest: every run from a state where
nothing is under way goes through, returns what byte-addressed memory returns, and loses no
access. A read that directly follows a write around it returns digits of the number written, all
of them if it is as wide. -/
structure ByteAddressed (c : CpuConfig) : Prop where
  effect : ∀ {w : GuestWindow}, w.Start c → ∀ {es : List Event}, Accesses c es →
    ∃ w', run c es w = .ok w' ∧
      w'.values = w.values ++ (accesses (guestOrder c) w.mem w'.served).1 ∧
      w'.mem = (accesses (guestOrder c) w.mem w'.served).2 ∧
      ∀ v req, w'.waits v = some req → w'.Held v req
  aliasing : ∀ {w w' : GuestWindow}, w.Start c → ∀ {es : List Event}, Accesses c es →
    run c es w = .ok w' → ∀ {before : List (ℕ × MmioSyncRequest)} {u v : ℕ}
      {wr rd : MmioSyncRequest}, w'.served = before ++ [(u, wr), (v, rd)] →
    wr.cmd = .mmioWriteReq → rd.cmd = .mmioReadReq → wr.addr.toNat ≤ rd.addr.toNat →
    rd.addr.toNat + rd.size ≤ wr.addr.toNat + wr.size →
    w'.values.getLast? = some (v, wr.writeVal.toNat / 256 ^ (guestOrder c).digit wr.size
      (rd.addr.toNat - wr.addr.toNat) rd.size % 256 ^ rd.size)

/-! ### Every run -/

variable {c : CpuConfig} {w w' : GuestWindow} {v : ℕ} {req : MmioSyncRequest}

/-- The states of the window in use: `mem` and `values` at the start, and what the served accesses
made of them. -/
structure Serving (c : CpuConfig) (mem : Mem) (values : List (ℕ × ℕ)) (w : GuestWindow) : Prop where
  free : Unclaimed c w.cpu
  host : w.cpu.host.Ok
  published : ∀ v req, w.cpu.mailbox v = some req → w.waits v = some req
  window : ∀ v req, w.waits v = some req → InWindow c v req
  held : ∀ v req, w.waits v = some req → w.Held v req
  once : ∀ v req, w.cpu.mailbox v = some req → ∀ r ∈ w.cpu.host.inFlight, r.vcpu ≠ v
  vcpus : (w.cpu.host.inFlight.map Request.vcpu).Nodup
  sent : ∀ r ∈ w.cpu.host.inFlight, ∃ req, w.waits r.vcpu = some req ∧
    r.body = orderedBody (codeOrder c) req ∧
    w.cpu.genericPending r.id = some (orderedPending (codeOrder c) r.vcpu req)
  posted : w.values = values ++ (accesses (codeOrder c) mem w.served).1
  stored : w.mem = (accesses (codeOrder c) mem w.served).2
  each : ∀ r ∈ w.served, InWindow c r.1 r.2

theorem Start.serving (h : w.Start c) : w.Serving c w.mem w.values where
  free := h.free
  host := ⟨by simp [h.inFlight], by simp [h.inFlight]⟩
  published v req hreq := by
    rw [h.mailbox v] at hreq
    cases hreq
  window v req hreq := by
    rw [h.waits v] at hreq
    cases hreq
  held v req hreq := by
    rw [h.waits v] at hreq
    cases hreq
  once v req hreq := by
    rw [h.mailbox v] at hreq
    cases hreq
  vcpus := by simp [h.inFlight]
  sent r hr := by
    rw [h.inFlight] at hr
    cases hr
  posted := by rw [h.served, accesses, List.append_nil]
  stored := by rw [h.served, accesses]
  each r hr := by
    rw [h.served] at hr
    cases hr

variable {mem : Mem} {values : List (ℕ × ℕ)}

theorem update_none_eq {f : ℕ → Option MmioSyncRequest} {u : ℕ} :
    Function.update f v none u = some req ↔ u ≠ v ∧ f u = some req := by
  by_cases huv : u = v
  · simp [huv]
  · simp [huv]

theorem update_some_eq {f : ℕ → Option MmioSyncRequest} {u : ℕ} {new : MmioSyncRequest} :
    Function.update f v (some new) u = some req ↔ u = v ∧ new = req ∨ u ≠ v ∧ f u = some req := by
  by_cases huv : u = v
  · simp [huv]
  · simp [huv]

/-- The poll of one vCPU moves its access from the mailbox to the memory. -/
theorem Serving.pollVcpu (h : w.Serving c mem values) (hcache : c.sstWindowCache = false)
    (hmmio : c.hasMmio v = true) : ∃ cpu, QuetzCpu.pollVcpu c v w.cpu = .ok cpu ∧
      Serving c mem values { w with cpu := cpu } := by
  cases hmail : w.cpu.mailbox v with
  | none => exact ⟨w.cpu, plain_pollVcpu hcache hmail, h⟩
  | some req =>
      have hwait : w.waits v = some req := h.published v req hmail
      refine ⟨_, pollVcpu_access hcache hmmio h.free hmail (h.window v req hwait), ?_⟩
      constructor
      case free => exact ⟨h.free.bank, h.free.outside, h.free.quiet⟩
      case host => exact h.host.send ..
      case published => exact fun u req' hu => h.published u req' (update_none_eq.mp hu).2
      case window => exact h.window
      case held =>
        intro u req' hu
        by_cases huv : u = v
        · exact Or.inr ⟨_, List.mem_append_right _ (List.mem_singleton_self _), huv.symm⟩
        · rcases h.held u req' hu with hbox | ⟨r, hr, hru⟩
          · exact Or.inl (update_none_eq.mpr ⟨huv, hbox⟩)
          · exact Or.inr ⟨r, List.mem_append_left _ hr, hru⟩
      case once =>
        intro u req' hu r hr
        obtain ⟨huv, hbox⟩ := update_none_eq.mp hu
        rcases List.mem_append.mp hr with hr | hr
        · exact h.once u req' hbox r hr
        · rw [List.mem_singleton.mp hr]
          exact huv.symm
      case vcpus =>
        simp only [Host.send, List.map_append, List.map_cons, List.map_nil]
        refine List.nodup_append.mpr ⟨h.vcpus, by simp, ?_⟩
        intro a ha b hb
        obtain ⟨r, hr, rfl⟩ := List.mem_map.mp ha
        rw [List.mem_singleton.mp hb]
        exact h.once v req hmail r hr
      case sent =>
        intro r hr
        rcases List.mem_append.mp hr with hr | hr
        · obtain ⟨req', hwait', hbody, hpend⟩ := h.sent r hr
          refine ⟨req', hwait', hbody, ?_⟩
          show Function.update w.cpu.genericPending w.cpu.host.nextId _ r.id = _
          rw [Function.update_of_ne (Nat.ne_of_lt (h.host.fresh r hr)), hpend]
        · rw [List.mem_singleton.mp hr]
          exact ⟨req, hwait, rfl, Function.update_self ..⟩
      case posted => exact h.posted
      case stored => exact h.stored
      case each => exact h.each

theorem Serving.pollVcpus (hcache : c.sstWindowCache = false)
    (hmmio : ∀ v < c.vcpuCount, c.hasMmio v = true) (us : List ℕ)
    (hus : ∀ u ∈ us, u < c.vcpuCount) : ∀ {w : GuestWindow}, w.Serving c mem values →
    ∃ cpu, QuetzCpu.pollVcpus c us w.cpu = .ok cpu ∧
      Serving c mem values { w with cpu := cpu } := by
  induction us with
  | nil => exact fun {w} h => ⟨w.cpu, rfl, h⟩
  | cons u us ih =>
      intro w h
      obtain ⟨cpu, hpoll, hcpu⟩ := h.pollVcpu hcache (hmmio u (hus u List.mem_cons_self))
      rw [QuetzCpu.pollVcpus, hpoll]
      exact ih (fun u hu => hus u (List.mem_cons_of_mem _ hu)) hcpu

/-- The value posted for an access, and the memory after it. -/
theorem answer_access (o : ByteOrder) (v : ℕ) (mem : Mem) (hin : InWindow c v req) :
    (genericValue (orderedPending o v req) ((orderedBody o req).answer mem)).toNat =
        (access o mem req).1 ∧
      (orderedBody o req).perform mem = (access o mem req).2 := by
  rcases hin.command with hr | hw
  · have hlen : (readSpan mem req.addr.toNat req.size).length ≤ 8 := by
      rw [length_readSpan]
      exact hin.small
    rw [access, orderedBody, orderedPending, if_pos hr, if_pos hr, decide_eq_true hr, Bool.true_and]
    exact ⟨toNat_genericValue o v hlen, rfl⟩
  · have hne : req.cmd ≠ .mmioReadReq := by
      rw [hw]
      decide
    rw [access, orderedBody, orderedPending, if_neg hne, if_neg hne]
    exact ⟨rfl, rfl⟩

/-- The answer of the memory is posted to the vCPU that waits for it. -/
theorem Serving.answer (h : w.Serving c mem values) (i : ℕ) :
    ∃ w', w.step c (.answer i) = .ok w' ∧ w'.Serving c mem values := by
  cases hi : w.cpu.host.inFlight[i]? with
  | none =>
      rw [step, hi]
      exact ⟨w, rfl, h⟩
  | some r =>
      obtain ⟨hlt, hget⟩ := List.getElem?_eq_some_iff.mp hi
      have hmem : r ∈ w.cpu.host.inFlight := hget ▸ List.getElem_mem hlt
      obtain ⟨req, hwait, hbody, hpend⟩ := h.sent r hmem
      have hin := h.window r.vcpu req hwait
      have hlook : w.cpu.bank.pending.lookup r.id = none := by
        rw [h.free.bank]
        rfl
      obtain ⟨hvalue, hperform⟩ := answer_access (codeOrder c) r.vcpu w.mem hin
      obtain ⟨hperm, hids⟩ := h.host.taken hi
      have hvcpus : ∀ r' ∈ (w.cpu.host.take i).inFlight, r'.vcpu ≠ r.vcpu := by
        intro r' hr' heq
        have hnodup := (hperm.map Request.vcpu).nodup_iff.mpr h.vcpus
        rw [List.map_cons, List.nodup_cons] at hnodup
        exact hnodup.1 (List.mem_map.mpr ⟨r', hr', heq⟩)
      have hconcat := accesses_concat (codeOrder c) w.served r.vcpu req mem
      rw [step, hi]
      simp only [completeMmioSyncResponse, hlook, h.free.offerPorts, hpend, hbody, hperform, hwait,
        Option.toList_some, List.map_cons, List.map_nil]
      refine ⟨_, rfl, ?_⟩
      constructor
      case free => exact ⟨h.free.bank, h.free.outside, h.free.quiet⟩
      case host => exact (h.host.take i).post ..
      case published =>
        intro u req' hu
        exact update_none_eq.mpr ⟨(h.once u req' hu r hmem).symm, h.published u req' hu⟩
      case window => exact fun u req' hu => h.window u req' (update_none_eq.mp hu).2
      case held =>
        intro u req' hu
        obtain ⟨hur, hu⟩ := update_none_eq.mp hu
        rcases h.held u req' hu with hbox | ⟨r', hr', hru⟩
        · exact Or.inl hbox
        · rcases List.mem_cons.mp (hperm.mem_iff.mpr hr') with rfl | hr'
          · exact absurd hru.symm hur
          · exact Or.inr ⟨r', hr', hru⟩
      case once =>
        exact fun u req' hu r' hr' => h.once u req' hu r' (List.mem_of_mem_eraseIdx hr')
      case vcpus => exact h.vcpus.sublist ((List.eraseIdx_sublist ..).map _)
      case sent =>
        intro r' hr'
        obtain ⟨req', hwait', hbody', hpend'⟩ := h.sent r' (List.mem_of_mem_eraseIdx hr')
        refine ⟨req', update_none_eq.mpr ⟨hvcpus r' hr', hwait'⟩, hbody', ?_⟩
        show Function.update w.cpu.genericPending r.id none r'.id = _
        rw [Function.update_of_ne (hids r' hr'), hpend']
      case posted =>
        have hposted := h.posted
        rw [hconcat, ← List.append_assoc, ← hposted, ← h.stored, ← hvalue]
        simp [GuestWindow.values, Host.postResponse, Host.take, orderedPending]
      case stored => rw [hconcat, ← h.stored]
      case each =>
        intro e he
        rcases List.mem_append.mp he with he | he
        · exact h.each e he
        · rw [List.mem_singleton.mp he]
          exact hin

/-- **One event.** No event fails. -/
theorem Serving.step (h : w.Serving c mem values) (hcache : c.sstWindowCache = false)
    (hmmio : ∀ v < c.vcpuCount, c.hasMmio v = true) {e : Event}
    (he : ∀ v req, e = .publish v req → InWindow c v req) :
    ∃ w', w.step c e = .ok w' ∧ w'.Serving c mem values := by
  cases e with
  | publish v req =>
      cases hwait : w.waits v with
      | some old =>
          rw [GuestWindow.step, hwait]
          exact ⟨w, rfl, h⟩
      | none =>
          rw [GuestWindow.step, hwait]
          refine ⟨_, rfl, ?_⟩
          have hnone : ∀ {u req'}, w.waits u = some req' → u ≠ v := by
            rintro u req' hu rfl
            rw [hwait] at hu
            cases hu
          constructor
          case free => exact ⟨h.free.bank, h.free.outside, h.free.quiet⟩
          case host => exact h.host
          case published =>
            intro u req' hu
            rcases update_some_eq.mp hu with hnew | ⟨huv, hold⟩
            · exact update_some_eq.mpr (Or.inl hnew)
            · exact update_some_eq.mpr (Or.inr ⟨huv, h.published u req' hold⟩)
          case window =>
            intro u req' hu
            rcases update_some_eq.mp hu with ⟨rfl, rfl⟩ | ⟨-, hold⟩
            · exact he u req rfl
            · exact h.window u req' hold
          case held =>
            intro u req' hu
            rcases update_some_eq.mp hu with hnew | ⟨huv, hold⟩
            · exact Or.inl (update_some_eq.mpr (Or.inl hnew))
            · exact (h.held u req' hold).imp_left fun hbox =>
                update_some_eq.mpr (Or.inr ⟨huv, hbox⟩)
          case once =>
            intro u req' hu r hr
            rcases update_some_eq.mp hu with ⟨rfl, -⟩ | ⟨-, hold⟩
            · obtain ⟨old, hold, -⟩ := h.sent r hr
              exact hnone hold
            · exact h.once u req' hold r hr
          case vcpus => exact h.vcpus
          case sent =>
            intro r hr
            obtain ⟨old, hold, hbody, hpend⟩ := h.sent r hr
            exact ⟨old, (Function.update_of_ne (hnone hold) ..).trans hold, hbody, hpend⟩
          case posted => exact h.posted
          case stored => exact h.stored
          case each => exact h.each
  | poll =>
      obtain ⟨cpu, hpoll, hcpu⟩ :=
        h.pollVcpus hcache hmmio (List.range c.vcpuCount) fun u hu => List.mem_range.mp hu
      rw [GuestWindow.step, pollMmioSyncMailbox, hpoll]
      exact ⟨_, rfl, hcpu⟩
  | answer i => exact h.answer i

/-- **Every run** serves the accesses in the order of the code. -/
theorem Serving.run (hcache : c.sstWindowCache = false)
    (hmmio : ∀ v < c.vcpuCount, c.hasMmio v = true) (es : List Event) :
    Accesses c es → ∀ {w : GuestWindow}, w.Serving c mem values →
    ∃ w', GuestWindow.run c es w = .ok w' ∧ w'.Serving c mem values := by
  induction es with
  | nil => exact fun _ {w} h => ⟨w, rfl, h⟩
  | cons e es ih =>
      intro hes w h
      have he : ∀ v req, e = .publish v req → InWindow c v req :=
        fun v req heq => hes v req (heq ▸ List.mem_cons_self)
      obtain ⟨w₁, hstep, hw₁⟩ := h.step hcache hmmio he
      rw [GuestWindow.run, hstep]
      exact ih (fun v req hmem => hes v req (List.mem_cons_of_mem _ hmem)) hw₁

/-! ### The order of the guest -/

/-- The byte order the configuration asks for reaches every access to the window. -/
def OrderKept (c : CpuConfig) : Prop :=
  c.windowBigEndian = true → c.vcpuCount = 0 ∨ (window c).size ≤ 1 ∨
    (window c).base + (window c).size < 2 ^ 64

/-- Where the order is kept the code does what the guest's byte-addressed memory does. -/
theorem accesses_guestOrder (hkept : OrderKept c) {reqs : List (ℕ × MmioSyncRequest)}
    (hreqs : ∀ r ∈ reqs, InWindow c r.1 r.2) (mem : Mem) :
    accesses (codeOrder c) mem reqs = accesses (guestOrder c) mem reqs := by
  by_cases hbe : c.windowBigEndian = true
  · rcases hkept hbe with hnone | hone | hfits
    · refine accesses_ones _ _ _ (fun r hr => ?_) mem
      have hlt := (hreqs r hr).vcpu
      omega
    · refine accesses_ones _ _ _ (fun r hr => ?_) mem
      obtain ⟨-, -, hpos, -, habove, hbelow⟩ := hreqs r hr
      omega
    · rw [codeOrder, if_pos ⟨hbe, hfits⟩, guestOrder, if_pos hbe]
  · rw [codeOrder, if_neg fun h => hbe h.1, guestOrder, if_neg hbe]

theorem byteAddressed_of_kept (hcache : c.sstWindowCache = false)
    (hmmio : ∀ v < c.vcpuCount, c.hasMmio v = true) (hkept : OrderKept c) : ByteAddressed c where
  effect {w} hw es hes := by
    obtain ⟨w', hrun, hserving⟩ := Serving.run hcache hmmio es hes hw.serving
    have hsame := accesses_guestOrder hkept hserving.each w.mem
    exact ⟨w', hrun, hsame ▸ hserving.posted, hsame ▸ hserving.stored, hserving.held⟩
  aliasing {w w'} hw es hes hrun before u v wr rd hserved hwr hrd hle hend := by
    obtain ⟨w₁, hrun₁, hserving⟩ := Serving.run hcache hmmio es hes hw.serving
    cases hrun.symm.trans hrun₁
    have hposted := hserving.posted
    have hsplit : before ++ [(u, wr), (v, rd)] = (before ++ [(u, wr)]) ++ [(v, rd)] := by
      rw [List.append_assoc]
      rfl
    rw [accesses_guestOrder hkept hserving.each, hserved, hsplit, accesses_concat] at hposted
    dsimp only at hposted
    rw [hposted, ← List.append_assoc, List.getLast?_concat, accesses_concat]
    exact congrArg (fun x => some (v, x)) (access_slice (guestOrder c) _ hwr hrd hle hend)

/-- Without a command nothing is polled. -/
theorem pollVcpus_empty (hcache : c.sstWindowCache = false) {cpu : QuetzCpu}
    (hmail : ∀ v, cpu.mailbox v = none) (us : List ℕ) : QuetzCpu.pollVcpus c us cpu = .ok cpu := by
  induction us with
  | nil => rfl
  | cons u us ih =>
      rw [QuetzCpu.pollVcpus, plain_pollVcpu hcache (hmail u)]
      exact ih

/-- The first access of a fresh CPU is served. -/
theorem run_first (hcache : c.sstWindowCache = false) (hmmio : c.hasMmio 0 = true)
    (hin : InWindow c 0 req) :
    ∃ w', run c [.publish 0 req, .poll, .answer 0] {} = .ok w' ∧ w'.served = [(0, req)] := by
  obtain ⟨n, hcount⟩ : ∃ n, c.vcpuCount = n + 1 := ⟨c.vcpuCount - 1, by have := hin.vcpu; omega⟩
  obtain ⟨cpu, hcpu⟩ : ∃ cpu : QuetzCpu,
    cpu = { mailbox := Function.update (fun _ => none) 0 (some req) } := ⟨_, rfl⟩
  have hfree : Unclaimed c cpu := by
    rw [hcpu]
    exact ⟨rfl, by simp, by simp⟩
  have hmail : cpu.mailbox 0 = some req := by
    simp [hcpu]
  have hempty : ∀ v, Function.update cpu.mailbox 0 none v = none := by
    intro v
    by_cases hv : v = 0 <;> simp [hcpu, hv]
  have hpub : step c {} (.publish 0 req) =
      .ok { cpu := cpu, waits := Function.update (fun _ => none) 0 (some req) } := by
    rw [hcpu]
    rfl
  have hall := pollVcpu_access hcache hmmio hfree hmail hin
  rw [run, hpub]
  simp only [run, step, pollMmioSyncMailbox, hcount, List.range_succ_eq_map, QuetzCpu.pollVcpus,
    hall]
  rw [pollVcpus_empty hcache hempty]
  simp [hcpu, Host.send, Host.take, completeMmioSyncResponse, offerPorts]

/-- A window of two bytes or more that ends with the last address is packed least significant
byte first. -/
theorem not_byteAddressed (hcache : c.sstWindowCache = false)
    (hmmio : ∀ v < c.vcpuCount, c.hasMmio v = true) (hlost : ¬OrderKept c) : ¬ByteAddressed c := by
  rintro ⟨heffect, -⟩
  rw [OrderKept, Classical.not_imp, not_or, not_or] at hlost
  obtain ⟨hbe, hcount, hsize, hwrap⟩ := hlost
  have hpos : 0 < c.vcpuCount := Nat.pos_of_ne_zero hcount
  -- The two bytes of the number `1` tell the orders apart.
  obtain ⟨req, hreq⟩ : ∃ req : MmioSyncRequest, req = ⟨.mmioWriteReq, c.sstWindowBase, 2, 1⟩ :=
    ⟨_, rfl⟩
  have hin : InWindow c 0 req := by
    rw [hreq]
    exact ⟨hpos, Or.inr rfl, by simp, by simp, le_rfl, by simp only [window] at hsize ⊢; omega⟩
  have hes : Accesses c [.publish 0 req, .poll, .answer 0] := by
    rintro v req' hmem
    simp only [List.mem_cons, Event.publish.injEq, reduceCtorEq, List.not_mem_nil, or_false] at hmem
    obtain ⟨rfl, rfl⟩ := hmem
    exact hin
  have hstart : Start c {} :=
    ⟨⟨rfl, by simp, by simp⟩, fun _ => rfl, rfl, fun _ => rfl, rfl⟩
  obtain ⟨w', hrun, hserved⟩ := run_first hcache (hmmio 0 hpos) hin
  obtain ⟨w₁, hrun₁, -, hguest, -⟩ := heffect hstart hes
  cases hrun.symm.trans hrun₁
  obtain ⟨w₂, hrun₂, hserving⟩ := Serving.run hcache hmmio _ hes hstart.serving
  cases hrun.symm.trans hrun₂
  have hcode := hserving.stored
  have hlittle : codeOrder c = .little := by
    rw [codeOrder, if_neg fun h => hwrap h.2]
  rw [hserved, guestOrder, if_pos hbe] at hguest
  rw [hserved, hlittle, hguest] at hcode
  have hbyte := congrFun hcode c.sstWindowBase.toNat
  have hwrite : req.cmd ≠ .mmioReadReq := by
    simp [hreq]
  simp only [accesses, access, if_neg hwrite] at hbyte
  simp [hreq, writeSpan, ByteOrder.bytes, Bytes.leBytes] at hbyte

/-! ### Exactly when -/

/-- Every run serves the window in the byte order of the guest exactly if the order is kept: the
window is not big-endian, or the end of the window is an address. -/
theorem byteAddressed_iff (hcache : c.sstWindowCache = false)
    (hmmio : ∀ v < c.vcpuCount, c.hasMmio v = true) : ByteAddressed c ↔ OrderKept c := by
  constructor
  · intro h
    by_contra hlost
    exact not_byteAddressed hcache hmmio hlost h
  · exact byteAddressed_of_kept hcache hmmio

/-- A big-endian window in the middle of the address space. -/
theorem byteAddressed_middle : ByteAddressed
    { windowBigEndian := true, sstWindowBase := 0x71000000, sstWindowSize := 0x10000 } :=
  (byteAddressed_iff rfl fun _ _ => rfl).mpr fun _ => Or.inr (Or.inr (by decide))

/-- The window from `0xffffffffffff0000` to the last address. -/
theorem last_window_not_byteAddressed : ¬ByteAddressed
    { windowBigEndian := true, sstWindowBase := 0xffffffffffff0000, sstWindowSize := 0x10000 } := by
  refine not_byteAddressed rfl (fun _ _ => rfl) fun h => ?_
  rcases h rfl with hnone | hone | hfits
  · exact absurd hnone (by decide)
  · exact absurd hone (by decide)
  · exact absurd hfits (by decide)

end GuestWindow

end Quetz
