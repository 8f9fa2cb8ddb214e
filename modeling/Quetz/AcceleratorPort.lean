import Mathlib.Data.List.Nodup
import Mathlib.Data.List.Perm.Basic
import Mathlib.Logic.Function.Basic
import Quetz.Lib.Bytes

/-!
# Commands, Requests and the Accelerator Host

The types shared by the CPU model and its accelerator ports: the command record of
`include/quetz/quetz_ipc_types.h`, the memory requests of `StandardMem`, and the services of
`AcceleratorHost` (`src/quetz_accelerator_port.h`).

`Host` is the part of the simulator behind those services: the requests in flight on the links
and the responses posted to the guest. Requests have ids of their own, drawn when they are
sent. The logs `sent` and `posts` keep everything that ever went out; no modelled function
reads them. The statistics recorders of the host are left out.
-/

namespace Quetz

/-- The commands of the trace rings and the mailbox. -/
inductive ShmemCmd where
  | nop | read | write | exit | mmioReadReq | mmioWriteReq | computeRun | cacheOp
deriving DecidableEq, Repr

/-- Bytes of payload a command carries. -/
def cmdDataBytes : ℕ := 64

/-- One command record. -/
structure QuetzCommand where
  cmd : ShmemCmd
  size : ℕ := 0
  pc : UInt64 := 0
  addr : UInt64 := 0
  insnClass : ℕ := 0
  data : List UInt8 := List.replicate cmdDataBytes 0
deriving DecidableEq, Repr

/-- The value of a byte string, least significant byte first. -/
def accelDataToU64 (data : List UInt8) : UInt64 :=
  data.foldr (fun b val => (val <<< 8) ||| b.toUInt64) 0

/-- The low `size` bytes of a value, least significant byte first. -/
def accelU64ToData : UInt64 → ℕ → List UInt8
  | _, 0 => []
  | val, size + 1 => val.toUInt8 :: accelU64ToData (val >>> 8) size

open Bytes in
/-- Unpacking a value gives the bytes it denotes. -/
theorem accelU64ToData_eq : ∀ {val : UInt64} {bs : List UInt8}, val.toNat = leNat bs →
    accelU64ToData val bs.length = bs
  | _, [], _ => rfl
  | val, b :: bs, h => by
    rw [leNat] at h
    have hb : b.toNat < 256 := b.toNat_lt
    have hlow : val.toUInt8 = b := by
      refine UInt8.toNat_inj.mp ?_
      rw [UInt64.toNat_toUInt8, h]
      omega
    have hhigh : (val >>> 8).toNat = leNat bs := by
      rw [UInt64.toNat_shiftRight, h, Nat.shiftRight_eq_div_pow]
      have : (8 : UInt64).toNat % 64 = 8 := rfl
      rw [this]
      omega
    rw [List.length_cons, accelU64ToData, hlow, accelU64ToData_eq hhigh]

open Bytes in
/-- Packing bytes gives the number they denote. -/
theorem toNat_accelDataToU64 : ∀ {bs : List UInt8}, bs.length ≤ 8 →
    (accelDataToU64 bs).toNat = leNat bs
  | [], _ => rfl
  | b :: bs, h => by
    rw [List.length_cons] at h
    have hb : b.toNat < 2 ^ 8 := b.toNat_lt
    have hrest : (accelDataToU64 bs).toNat = leNat bs := toNat_accelDataToU64 (by omega)
    have hlt : leNat bs < 256 ^ 7 :=
      (leNat_lt bs).trans_le (Nat.pow_le_pow_right (by decide) (by omega))
    have hshift : ((accelDataToU64 bs) <<< 8).toNat = leNat bs <<< 8 := by
      rw [UInt64.toNat_shiftLeft, hrest]
      have : (8 : UInt64).toNat % 64 = 8 := rfl
      rw [this, Nat.shiftLeft_eq, Nat.mod_eq_of_lt (by omega)]
    have hcons : accelDataToU64 (b :: bs) = ((accelDataToU64 bs) <<< 8) ||| b.toUInt64 := rfl
    rw [hcons, UInt64.toNat_or, hshift, UInt8.toNat_toUInt64, ← Nat.shiftLeft_add_eq_or_of_lt hb,
      Nat.shiftLeft_eq, leNat]
    omega

/-! ### Requests -/

/-- The two memory links of a vCPU. -/
inductive Link where
  | mem | mmio
deriving DecidableEq, Repr

/-- What a request asks for. -/
inductive Body where
  | read (addr : UInt64) (size : ℕ)
  | write (addr : UInt64) (size : ℕ) (data : List UInt8)
  | flushAddr (addr lineSize : UInt64)
deriving DecidableEq, Repr

/-- A request on a link of a vCPU. -/
structure Request where
  id : ℕ
  vcpu : ℕ
  link : Link
  body : Body
deriving DecidableEq, Repr

/-- The answer to a request. -/
inductive Response where
  | readResp (data : List UInt8)
  | writeResp
  | flushResp
deriving DecidableEq, Repr

/-- The kind of response a request gets; `data` is what a read returns. -/
def Body.response (data : List UInt8) : Body → Response
  | .read .. => .readResp data
  | .write .. => .writeResp
  | .flushAddr .. => .flushResp

/-! ### The host -/

/-- The simulator behind a port. -/
structure Host where
  nextId : ℕ := 0
  /-- Requests sent and not answered yet. -/
  inFlight : List Request := []
  /-- Every request ever sent, oldest first. -/
  sent : List Request := []
  /-- Every response posted to the guest, oldest first. -/
  posts : List (ℕ × UInt64) := []

namespace Host

variable (h : Host)

/-- Send a request under a fresh id. -/
def send (vcpu : ℕ) (link : Link) (body : Body) : Host :=
  let r : Request := ⟨h.nextId, vcpu, link, body⟩
  { h with nextId := h.nextId + 1, inFlight := h.inFlight ++ [r], sent := h.sent ++ [r] }

/-- Unblock the guest vCPU waiting on its synchronous request. -/
def postResponse (vcpu : ℕ) (value : UInt64) : Host :=
  { h with posts := h.posts ++ [(vcpu, value)] }

/-- Take the request at position `i` off its link. -/
def take (i : ℕ) : Host := { h with inFlight := h.inFlight.eraseIdx i }

/-- The number of responses posted to a vCPU. -/
def posted (vcpu : ℕ) : ℕ := h.posts.countP fun e => e.1 == vcpu

/-- The requests in flight have different ids, all below the next one. -/
structure Ok : Prop where
  fresh : ∀ r ∈ h.inFlight, r.id < h.nextId
  nodup : (h.inFlight.map Request.id).Nodup

/-- A request is no response. -/
@[simp] theorem posted_send (v vcpu : ℕ) (link : Link) (body : Body) :
    (h.send vcpu link body).posted v = h.posted v := rfl

/-- Nor is an answer taken off its link. -/
@[simp] theorem posted_take (v i : ℕ) : (h.take i).posted v = h.posted v := rfl

/-- A response counts for its vCPU. -/
@[simp] theorem posted_postResponse (v vcpu : ℕ) (value : UInt64) :
    (h.postResponse vcpu value).posted v = h.posted v + if vcpu = v then 1 else 0 := by
  simp [posted, postResponse, List.countP_append]

variable {h}

/-- The id of a request is fresh. -/
theorem Ok.send (hok : h.Ok) (vcpu : ℕ) (link : Link) (body : Body) :
    (h.send vcpu link body).Ok := by
  constructor
  · intro r hr
    rcases List.mem_append.mp hr with hr | hr
    · exact Nat.lt_succ_of_lt (hok.fresh r hr)
    · rw [List.mem_singleton.mp hr]
      exact Nat.lt_succ_self _
  · simp only [Host.send, List.map_append, List.map_cons, List.map_nil]
    refine List.nodup_append.mpr ⟨hok.nodup, by simp, ?_⟩
    intro a ha b hb
    obtain ⟨r, hr, rfl⟩ := List.mem_map.mp ha
    rw [List.mem_singleton.mp hb]
    exact Nat.ne_of_lt (hok.fresh r hr)

/-- A response to the guest has no id. -/
theorem Ok.post (hok : h.Ok) (vcpu : ℕ) (value : UInt64) : (h.postResponse vcpu value).Ok :=
  ⟨hok.fresh, hok.nodup⟩

/-- A request that is answered leaves the others. -/
theorem Ok.take (hok : h.Ok) (i : ℕ) : (h.take i).Ok :=
  ⟨fun r hr => hok.fresh r (List.mem_of_mem_eraseIdx hr),
    (hok.nodup.sublist ((List.eraseIdx_sublist ..).map _))⟩

/-- The link is the answered request and the others, which have other ids. -/
theorem Ok.taken (hok : h.Ok) {i : ℕ} {r : Request} (hi : h.inFlight[i]? = some r) :
    (r :: (h.take i).inFlight).Perm h.inFlight ∧ ∀ r' ∈ (h.take i).inFlight, r'.id ≠ r.id := by
  obtain ⟨hlt, rfl⟩ := List.getElem?_eq_some_iff.mp hi
  have hperm : (h.inFlight[i] :: h.inFlight.eraseIdx i).Perm h.inFlight :=
    List.getElem_cons_eraseIdx_perm hlt
  refine ⟨hperm, fun r' hr' heq => ?_⟩
  have hids := (hperm.map Request.id).nodup_iff.mpr hok.nodup
  rw [List.map_cons, List.nodup_cons] at hids
  exact hids.1 (List.mem_map.mpr ⟨r', hr', heq⟩)

end Host

end Quetz
