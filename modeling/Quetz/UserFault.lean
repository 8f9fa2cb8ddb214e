import Quetz.UserApertures
import Quetz.WindowByteOrder

/-!
# A Fault in an Aperture

What the handlers of the architectures share (`sst_mmio_handle_fault` in
`qemu-overlay/linux-user/sst_mmio.c`): the range of the fault, the mailbox of the guest thread, the
memory of the guest, and `quetz_ipc_mmio_read` and `quetz_ipc_mmio_write`.

The mailbox goes through a `Port`, what the clients do with a request of a vCPU. `Port.memory` is
the one with a byte memory behind every client.

## Main results

* `faultRange_eq_some_iff`: which faults are in an aperture with a mailbox.
* `Port.mmioRead_of_fault`, `Port.mmioWrite_of_fault`: such a fault reaches the port.
-/

namespace Quetz.UserMode

open ByteMemory Bytes

/-! ### The port -/

/-- What a client does with a request of a vCPU, and the value it answers. -/
structure Port (δ : Type) where
  serve : ℕ → ℕ → MmioSyncRequest → δ → UInt64 × δ

/-- A byte memory for every client. -/
def Port.memory (o : ByteOrder) : Port (ℕ → Mem) where
  serve c _ req mems :=
    (.ofNat (access o (mems c) req).1, Function.update mems c (access o (mems c) req).2)

section

variable {δ : Type}

/-- The client has no mailbox for the vCPU. -/
def noMailbox (host : IpcHost) (client vcpu : ℕ) : Bool :=
  decide (vcpu ≥ (host.vcpuCount client).toNat) ||
    decide (vcpu ≥ IrqMailbox.QUETZ_MAX_MMIO_VCORES)

/-- `quetz_ipc_mmio_read`; without a mailbox it returns `0`. -/
def Port.mmioRead (port : Port δ) (host : IpcHost) (client vcpu : ℕ) (addr : UInt64) (size : ℕ)
    (d : δ) : UInt64 × δ :=
  if noMailbox host client vcpu then (0, d)
  else port.serve client vcpu { cmd := .mmioReadReq, addr, size, writeVal := 0 } d

/-- `quetz_ipc_mmio_write`; without a mailbox it does nothing. -/
def Port.mmioWrite (port : Port δ) (host : IpcHost) (client vcpu : ℕ) (addr : UInt64) (size : ℕ)
    (value : UInt64) (d : δ) : δ :=
  if noMailbox host client vcpu then d
  else (port.serve client vcpu { cmd := .mmioWriteReq, addr, size, writeVal := value } d).2

/-! ### The fault -/

/-- A fault of a guest thread; `restored` says whether `cpu_restore_state` finds the instruction. -/
structure Fault where
  guestAddr : UInt64
  isWrite : Bool
  cpuIndex : ℕ
  restored : Bool := true

/-- The range of a fault and its client, if the handler goes on to decode the instruction. -/
def faultRange (host : IpcHost) (s : Apertures) (f : Fault) : Option (SstMmioRange × ℕ) :=
  match s.findRange f.guestAddr with
  | none => none
  | some r =>
      match r.client with
      | none => none
      | some c =>
          if f.cpuIndex ≥ (host.vcpuCount c).toNat then none
          else if !f.restored then none
          else some (r, c)

/-- The access ends inside the range. -/
def SstMmioRange.fits (r : SstMmioRange) (addr : UInt64) (size : ℕ) : Bool :=
  decide (size ≤ (r.size - (addr - r.base)).toNat)

end

/-! ### The memory of the guest -/

/-- What `get_user` can read in an address space of some bits. -/
structure UserMemory (bits : ℕ) where
  byte : ℕ → Option UInt8
  bounded : ∀ a, 2 ^ bits ≤ a → byte a = none

section

variable {bits : ℕ} {m : UserMemory bits} {o : ByteOrder} {n a v : ℕ} {bs bs' : List UInt8}

/-- The `n` bytes at an address, if they can be read. -/
def UserMemory.bytes (m : UserMemory bits) : ℕ → ℕ → Option (List UInt8)
  | 0, _ => some []
  | n + 1, a =>
      match m.byte a, m.bytes n (a + 1) with
      | some b, some bs => some (b :: bs)
      | _, _ => none

/-- `get_user` of `n` bytes: the number at an address. -/
def UserMemory.getUser (m : UserMemory bits) (o : ByteOrder) (n a : ℕ) : Option ℕ :=
  (m.bytes n a).map o.value

/-- The bytes lie at the address. -/
def UserMemory.Holds (m : UserMemory bits) (a : ℕ) (bs : List UInt8) : Prop :=
  ∀ i (hi : i < bs.length), m.byte (a + i) = some bs[i]

theorem UserMemory.holds_cons {b : UInt8} :
    m.Holds a (b :: bs) ↔ m.byte a = some b ∧ m.Holds (a + 1) bs := by
  constructor
  · intro h
    refine ⟨h 0 (Nat.succ_pos _), fun i hi => ?_⟩
    rw [Nat.add_assoc, Nat.add_comm 1 i]
    exact h (i + 1) (Nat.succ_lt_succ hi)
  · rintro ⟨hb, hbs⟩ i hi
    match i, hi with
    | 0, _ => exact hb
    | i + 1, hi =>
        rw [← Nat.add_assoc, Nat.add_right_comm]
        exact hbs i (Nat.lt_of_succ_lt_succ hi)

theorem UserMemory.bytes_eq_some_iff :
    m.bytes n a = some bs ↔ bs.length = n ∧ m.Holds a bs := by
  induction n generalizing a bs with
  | zero =>
      rw [UserMemory.bytes, Option.some.injEq]
      constructor
      · rintro rfl
        exact ⟨rfl, fun i hi => absurd hi (Nat.not_lt_zero i)⟩
      · exact fun h => (List.eq_nil_of_length_eq_zero h.1).symm
  | succ n ih =>
      rw [UserMemory.bytes]
      constructor
      · intro h
        split at h
        next b bs' hb hbs =>
          obtain ⟨hlen, hholds⟩ := ih.mp hbs
          rw [← Option.some.inj h]
          exact ⟨congrArg Nat.succ hlen, holds_cons.mpr ⟨hb, hholds⟩⟩
        next => exact absurd h (by rintro ⟨⟩)
      · rintro ⟨hlen, hholds⟩
        obtain ⟨b, bs, rfl⟩ := List.exists_cons_of_length_eq_add_one hlen
        obtain ⟨hb, hbs⟩ := holds_cons.mp hholds
        rw [hb, ih.mpr ⟨Nat.succ.inj hlen, hbs⟩]

theorem UserMemory.holds_append :
    m.Holds a (bs ++ bs') ↔ m.Holds a bs ∧ m.Holds (a + bs.length) bs' := by
  induction bs generalizing a with
  | nil => simp [UserMemory.Holds]
  | cons b bs ih =>
      rw [List.cons_append, holds_cons, holds_cons, ih, and_assoc, List.length_cons,
        Nat.add_assoc, Nat.add_comm 1]

/-- Reading a number that lies at the address. -/
theorem UserMemory.getUser_of_holds (h : m.Holds a bs) :
    m.getUser o bs.length a = some (o.value bs) := by
  rw [UserMemory.getUser, bytes_eq_some_iff.mpr ⟨rfl, h⟩, Option.map_some]

/-- Reading a number inside bytes that lie at an address. -/
theorem UserMemory.Holds.getUser_part (h : m.Holds a bs) {off : ℕ} (hle : off + n ≤ bs.length) :
    m.getUser o n (a + off) = some (o.value ((bs.drop off).take n)) := by
  have hcut : bs = bs.take off ++ ((bs.drop off).take n ++ (bs.drop off).drop n) := by
    rw [List.take_append_drop, List.take_append_drop]
  have hfront : (bs.take off).length = off := by
    rw [List.length_take]
    omega
  have hpart : ((bs.drop off).take n).length = n := by
    rw [List.length_take, List.length_drop]
    omega
  rw [hcut, holds_append, holds_append, hfront] at h
  have hread := getUser_of_holds h.2.1 (o := o)
  rwa [hpart] at hread

/-- Bytes of one length at one address are the same. -/
theorem UserMemory.Holds.unique (h : m.Holds a bs) (h' : m.Holds a bs')
    (hlen : bs.length = bs'.length) : bs = bs' := by
  refine List.ext_getElem hlen fun i hi hi' => ?_
  exact Option.some.inj ((h i hi).symm.trans (h' i hi'))

/-- Bytes that can be read lie in the address space. -/
theorem UserMemory.Holds.le (h : m.Holds a bs) (hne : bs ≠ []) : a + bs.length ≤ 2 ^ bits := by
  by_contra hlt
  have hpos := List.length_pos_iff.mpr hne
  have hlast := h (bs.length - 1) (by omega)
  rw [m.bounded _ (by omega)] at hlast
  exact absurd hlast (by rintro ⟨⟩)

end

/-! ### What is serviced -/

section

variable {δ : Type} {host : IpcHost} {abiMax : UInt64} {s : Apertures} {f : Fault}
  {r : SstMmioRange} {c : ℕ} {port : Port δ} {d : δ} {addr value : UInt64} {size : ℕ}

/-- **Which faults are in an aperture with a mailbox**: those with an address of a registered range,
of a thread that the client of the range knows. -/
theorem faultRange_eq_some_iff (hs : s.Well host abiMax) :
    faultRange host s f = some (r, c) ↔
      r ∈ s.ranges ∧ r.base.toNat ≤ f.guestAddr.toNat ∧
        f.guestAddr.toNat < r.base.toNat + r.size.toNat ∧ r.client = some c ∧
        f.cpuIndex < (host.vcpuCount c).toNat ∧ f.restored = true := by
  rw [← and_assoc (b := _ ≤ _), ← and_assoc, and_assoc (a := r ∈ s.ranges),
    ← SstMmioRange.covers_iff, ← hs.findRange_eq_some_iff]
  rw [faultRange]
  cases hfind : s.findRange f.guestAddr with
  | none => simp
  | some q =>
      obtain ⟨hq, -⟩ := hs.findRange_eq_some_iff.mp hfind
      obtain ⟨-, c', -, -, hclient, -⟩ := hs.client q hq
      simp only [hclient]
      by_cases hcpu : f.cpuIndex ≥ (host.vcpuCount c').toNat
      · rw [if_pos hcpu]
        refine iff_of_false (by simp) ?_
        rintro ⟨hqr, hc, hlt, -⟩
        rw [← Option.some.inj hqr, hclient] at hc
        rw [← Option.some.inj hc] at hlt
        omega
      rw [if_neg hcpu]
      cases hrest : f.restored with
      | false => simp
      | true =>
          simp only [Bool.not_true, Bool.false_eq_true, if_false, Option.some.injEq, Prod.mk.injEq,
            and_true]
          constructor
          · rintro ⟨rfl, rfl⟩
            exact ⟨rfl, hclient, not_le.mp hcpu⟩
          · rintro ⟨rfl, hc, -⟩
            exact ⟨rfl, Option.some.inj (hclient.symm.trans hc)⟩

/-- A client that is registered has a mailbox for every thread it knows. -/
theorem noMailbox_eq_false (h : faultRange host s f = some (r, c)) (hs : s.Well host abiMax) :
    noMailbox host c f.cpuIndex = false := by
  obtain ⟨hr, -, -, hclient, hlt, -⟩ := (faultRange_eq_some_iff hs).mp h
  obtain ⟨-, c', -, -, hc', husable⟩ := hs.client r hr
  obtain rfl := Option.some.inj (hclient.symm.trans hc')
  have hcap := (not_or.mp husable).2
  rw [noMailbox, Bool.or_eq_false_iff, decide_eq_false_iff_not, decide_eq_false_iff_not]
  omega

/-- A read of a fault in an aperture reaches the port. -/
theorem Port.mmioRead_of_fault (h : faultRange host s f = some (r, c)) (hs : s.Well host abiMax) :
    port.mmioRead host c f.cpuIndex addr size d =
      port.serve c f.cpuIndex { cmd := .mmioReadReq, addr, size, writeVal := 0 } d := by
  rw [Port.mmioRead, noMailbox_eq_false h hs, if_neg Bool.false_ne_true]

/-- A write of a fault in an aperture reaches the port. -/
theorem Port.mmioWrite_of_fault (h : faultRange host s f = some (r, c)) (hs : s.Well host abiMax) :
    port.mmioWrite host c f.cpuIndex addr size value d =
      (port.serve c f.cpuIndex { cmd := .mmioWriteReq, addr, size, writeVal := value } d).2 := by
  rw [Port.mmioWrite, noMailbox_eq_false h hs, if_neg Bool.false_ne_true]

/-- The test of the handler does not wrap. -/
theorem SstMmioRange.fits_iff (hbase : r.base.toNat ≤ addr.toNat)
    (hend : addr.toNat < r.base.toNat + r.size.toNat) :
    r.fits addr size = true ↔ addr.toNat + size ≤ r.base.toNat + r.size.toNat := by
  have hoff : (addr - r.base).toNat = addr.toNat - r.base.toNat :=
    UInt64.toNat_sub_of_le _ _ (UInt64.le_iff_toNat_le.mpr hbase)
  have hle : addr - r.base ≤ r.size := UInt64.le_iff_toNat_le.mpr (by omega)
  rw [SstMmioRange.fits, decide_eq_true_iff, UInt64.toNat_sub_of_le _ _ hle, hoff]
  omega

end

end Quetz.UserMode
