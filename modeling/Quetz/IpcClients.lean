import Mathlib.Data.Finset.Insert
import Quetz.IrqMailbox
import Quetz.Lib.LinkedList
import Quetz.NativeRam

/-!
# The Clients of the Shared Segment

`quetz_ipc_attach`, `quetz_ipc_detach` and `quetz_ipc_cpu_reset`
(`qemu-overlay/quetz_ipc_client.c`). A client is a mapping of a segment that the simulator made. The
process keeps its clients in a linked list, so that a reset of a vCPU reaches the segments of all of
them; a client that attaches later gets the epochs from before. The three functions run under the
global lock of QEMU, one after the other.

Attaching trusts nothing in the segment: what the header says is checked against the size of the
file before it is used, and then the magic at the end of the shared structure and the descriptors of
native RAM are checked. The model has the descriptors, mappings and allocations of the process, and
what the system answers to each call is an input.

## Main results

* `mapShmem_spec`: a mapping is inside the segment, and an attempt that fails leaves nothing behind.
* `Inv.step`: every call keeps the list, the resources and the epochs.
* `resets_reach_clients`: the epochs of all attached segments count the resets.
-/

namespace Quetz.Ipc

open LinkedList

/-! ### Shared memory -/

def QUETZ_SHM_MAGIC : UInt32 := 0x515A4D06

/-- The index of a vCPU with a slot. -/
abbrev Vcore := Fin IrqMailbox.QUETZ_MAX_MMIO_VCORES

/-- The size of `QuetzInternalSharedData`, the header of the tunnel. -/
def internalSharedDataBytes : UInt64 := 32

/-- The size of `QuetzSharedData`: behind the storage come a byte of padding, the magic, `_pad1` and
four bytes of padding. -/
def sharedDataBytes : UInt64 := .ofNat (nativeRamOffset + nativeRamBytes + 1 + 4 + 4 + 4)

example : sharedDataBytes = 341080 := rfl

/-- What the clients use of the shared structure, besides the mailboxes. -/
structure SharedData where
  numCores : UInt64 := 0
  cpuResetEpoch : Vcore → UInt32 := fun _ => 0
  native : QuetzSharedData := {}
  magic : UInt32 := 0

/-- A segment: its size, two fields of the header, and the shared structure at `offset`. -/
structure Segment where
  stSize : Int64
  shmSegSize : UInt64
  offset : UInt64
  shared : SharedData := {}

/-- The segment after a store to its reset epochs. -/
def Segment.mapEpochs (f : (Vcore → UInt32) → Vcore → UInt32) (seg : Segment) : Segment :=
  { seg with shared := { seg.shared with cpuResetEpoch := f seg.shared.cpuResetEpoch } }

/-- A pointer to the shared structure of a segment. -/
structure SharedPtr where
  segment : ℕ
  addr : UInt64
deriving DecidableEq, Repr

/-- A client that is mapped; `quetz_ipc_attach` frees one that it could not map. -/
structure QuetzIpcClient where
  fd : ℕ
  map : UInt64
  mapSize : UInt64
  shared : SharedPtr
  next : Option ℕ := none
deriving DecidableEq, Repr

/-- The segments, and what a process has: open descriptors, mappings and clients. -/
structure World where
  segments : ℕ → Segment
  fds : Finset ℕ := ∅
  maps : Finset UInt64 := ∅
  clients : ℕ → Option QuetzIpcClient := fun _ => none
  resetClients : Option ℕ := none
  resetEpochs : Vcore → UInt32 := fun _ => 0
  /-- The clients that were attached so far. No list of clients is longer. -/
  attaches : ℕ := 0

/-! ### Attaching -/

/-- What the system answers to the calls of one attach: an address, a descriptor with the segment of
that name, whether the size could be read, and the two mappings. -/
structure AttachCalls where
  calloc : Option ℕ
  shmOpen : Option (ℕ × ℕ)
  fstat : Bool := true
  mmapHeader : Option UInt64
  mmap : Option UInt64

/-- Why a client is not attached. -/
inductive AttachError where
  | system
  | header (mapSize segSize sharedOff : UInt64)
  | magic (got : UInt32)
  | nativeRam
deriving DecidableEq, Repr

/-- Eight hexadecimal digits. -/
def hexWord (n : UInt32) : String :=
  let digits := Nat.toDigits 16 n.toNat
  String.ofList (List.replicate (8 - digits.length) '0' ++ digits)

/-- What is printed. -/
def AttachError.message (shmname : String) : AttachError → String
  | .system => ""
  | .header mapSize segSize sharedOff =>
      s!"quetz-ipc: shmem '{shmname}' header rejected (map_size={mapSize} seg_size={segSize} " ++
        s!"shared_off={sharedOff} need={sharedDataBytes}) — SST-core tunnel layout skew?\n"
  | .magic got =>
      s!"quetz-ipc: shmem '{shmname}' layout magic mismatch (got 0x{hexWord got}, want " ++
        s!"0x{hexWord QUETZ_SHM_MAGIC}) — rebuild the QEMU overlay against the same " ++
        "quetz_ipc_types.h as the SST side.\n"
  | .nativeRam => "quetz-ipc: invalid shared RAM offset/alignment\n"

namespace World

def close (fd : ℕ) (w : World) : World := { w with fds := w.fds.erase fd }

def munmap (a : UInt64) (w : World) : World := { w with maps := w.maps.erase a }

/-- `map_shmem`. -/
def mapShmem (calls : AttachCalls) (w : World) : Except AttachError QuetzIpcClient × World :=
  match calls.shmOpen with
  | none => (.error .system, w)
  | some (fd, i) =>
    let seg := w.segments i
    let w := { w with fds := insert fd w.fds }
    if !calls.fstat ∨ seg.stSize ≤ 0 then (.error .system, w.close fd)
    else
      -- The size of the file; the header is not trusted yet.
      let segSize := seg.stSize.toUInt64
      match calls.mmapHeader with
      | none => (.error .system, w.close fd)
      | some hdr =>
        let w := { w with maps := insert hdr w.maps }
        let mapSize := seg.shmSegSize
        let sharedOff := seg.offset
        let w := w.munmap hdr
        if mapSize < internalSharedDataBytes ∨ mapSize > segSize ∨ sharedOff > mapSize ∨
            sharedDataBytes > mapSize - sharedOff then
          (.error (.header mapSize segSize sharedOff), w.close fd)
        else
          match calls.mmap with
          | none => (.error .system, w.close fd)
          | some map =>
            let w := { w with maps := insert map w.maps }
            let shared : SharedPtr := { segment := i, addr := map + sharedOff }
            if seg.shared.magic ≠ QUETZ_SHM_MAGIC then
              (.error (.magic seg.shared.magic), (w.munmap map).close fd)
            else if !quetzNativeRegionsValid shared.addr seg.shared.native then
              (.error .nativeRam, (w.munmap map).close fd)
            else (.ok { fd, map, mapSize, shared }, w)

/-- The segments after a store to the reset epochs of one of them. -/
def storeEpochs (segments : ℕ → Segment) (p : SharedPtr) (f : (Vcore → UInt32) → Vcore → UInt32) :
    ℕ → Segment :=
  Function.update segments p.segment ((segments p.segment).mapEpochs f)

/-- `quetz_ipc_attach`. -/
def attach (calls : AttachCalls) (w : World) : Except AttachError ℕ × World :=
  match calls.calloc with
  | none => (.error .system, w)
  | some i =>
    match w.mapShmem calls with
    | (.error e, w) => (.error e, w)
    | (.ok c, w) => (.ok i, { w with
        segments := storeEpochs w.segments c.shared fun _ => w.resetEpochs
        clients := Function.update w.clients i (some { c with next := w.resetClients })
        resetClients := some i
        attaches := w.attaches + 1 })

/-! ### Resets and detaching -/

/-- How the process goes wrong. -/
inductive Crash where
  | loop (fault : LinkedList.Fault)
  | aborted
deriving DecidableEq, Repr

/-- What is printed before the process aborts. -/
def Crash.message : Crash → String
  | .loop _ => ""
  | .aborted => "quetz-ipc: reset CPU index out of range\n"

/-- `quetz_ipc_cpu_reset`. -/
def cpuReset (vcpu : UInt32) (w : World) : Except Crash World :=
  if h : vcpu.toNat < IrqMailbox.QUETZ_MAX_MMIO_VCORES then
    let v : Vcore := ⟨vcpu.toNat, h⟩
    let epoch := w.resetEpochs v + 1
    match walk QuetzIpcClient.next w.clients (fun c segments =>
        storeEpochs segments c.shared fun epochs => Function.update epochs v epoch)
        w.attaches w.resetClients w.segments with
    | .error e => .error (.loop e)
    | .ok segments =>
      .ok { w with segments, resetEpochs := Function.update w.resetEpochs v epoch }
  else .error .aborted

/-- A client with another link. -/
def setNext (c : QuetzIpcClient) (link : Option ℕ) : QuetzIpcClient := { c with next := link }

/-- `quetz_ipc_detach`; a null pointer is `none`. -/
def detach (client : Option ℕ) (w : World) : Except Crash World :=
  match client with
  | none => .ok w
  | some i =>
    match seek QuetzIpcClient.next w.clients w.resetClients i w.attaches .head with
    | .error e => .error (.loop e)
    | .ok place =>
      match load QuetzIpcClient.next w.clients w.resetClients place, w.clients i with
      | .error e, _ => .error (.loop e)
      | _, none => .error (.loop .dangling)
      | .ok link, some c =>
        let list := if link.isSome then store setNext w.clients w.resetClients c.next place
          else (w.clients, w.resetClients)
        .ok { (w.munmap c.map).close c.fd with
          clients := Function.update list.1 i none
          resetClients := list.2 }

/-! ### Runs -/

end World

/-- What happens in a process and to its segments. -/
inductive IpcEvent where
  | attach (calls : AttachCalls)
  | detach (client : Option ℕ)
  | cpuReset (vcpu : UInt32)
  /-- Another store to the shared structure. Only these functions store to the epochs. -/
  | store (segment : ℕ) (numCores : UInt64) (native : QuetzSharedData) (magic : UInt32)

namespace World

def step (w : World) : IpcEvent → Except Crash World
  | .attach calls => .ok (w.attach calls).2
  | .detach client => w.detach client
  | .cpuReset vcpu => w.cpuReset vcpu
  | .store i numCores native magic => .ok { w with
      segments := Function.update w.segments i
        { w.segments i with
          shared := { (w.segments i).shared with numCores, native, magic } } }

/-- The system gives addresses and descriptors that are not in use, and a mapping does not wrap. A
client is detached once. -/
def Allowed (w : World) : IpcEvent → Prop
  | .attach calls =>
      (∀ i ∈ calls.calloc, (w.clients i).isNone) ∧
      (∀ opened ∈ calls.shmOpen, opened.1 ∉ w.fds ∧
        ∀ map ∈ calls.mmap, map.toNat + (w.segments opened.2).shmSegSize.toNat ≤ 2 ^ 64) ∧
      (∀ hdr ∈ calls.mmapHeader, hdr ∉ w.maps) ∧ ∀ map ∈ calls.mmap, map ∉ w.maps
  | .detach client => ∀ i ∈ client, (w.clients i).isSome
  | .cpuReset _ => True
  | .store .. => True

instance (w : World) : ∀ e, Decidable (w.Allowed e)
  | .attach _ =>
      -- The tests look at the address that was returned, not at all of them.
      letI (p : UInt64 → Prop) [DecidablePred p] (o : Option UInt64) : Decidable (∀ a ∈ o, p a) :=
        Option.decidableForallMem o
      inferInstanceAs (Decidable (_ ∧ _))
  | .detach client => inferInstanceAs (Decidable (∀ i ∈ client, (w.clients i).isSome))
  | .cpuReset _ => inferInstanceAs (Decidable True)
  | .store .. => inferInstanceAs (Decidable True)

/-- The worlds that a process can reach, with what happened. -/
inductive Reachable (segments : ℕ → Segment) : List IpcEvent → World → Prop
  | start : Reachable segments [] { segments }
  | step {es : List IpcEvent} {w w' : World} {e : IpcEvent} : Reachable segments es w →
      w.Allowed e → w.step e = .ok w' → Reachable segments (es ++ [e]) w'

/-! ### One mapping -/

variable {segments : ℕ → Segment} {w w' : World} {es : List IpcEvent} {e : IpcEvent}

end World

/-- The calls of an attach succeed: it opens segment `i` and gets the address `map`. -/
structure AttachCalls.Grants (calls : AttachCalls) (fd i : ℕ) (map : UInt64) : Prop where
  shmOpen : calls.shmOpen = some (fd, i)
  fstat : calls.fstat = true
  mmapHeader : calls.mmapHeader.isSome = true
  mmap : calls.mmap = some map

/-- A segment that is accepted at an address. -/
structure Segment.Accepted (seg : Segment) (map : UInt64) : Prop where
  size_pos : ¬seg.stSize ≤ 0
  header_le : internalSharedDataBytes.toNat ≤ seg.shmSegSize.toNat
  size_le : seg.shmSegSize.toNat ≤ seg.stSize.toUInt64.toNat
  shared_le : seg.offset.toNat + sharedDataBytes.toNat ≤ seg.shmSegSize.toNat
  magic : seg.shared.magic = QUETZ_SHM_MAGIC
  native : quetzNativeRegionsValid (map + seg.offset) seg.shared.native = true

/-- The checks of the header in numbers. -/
theorem header_iff {mapSize segSize sharedOff : UInt64} :
    ¬(mapSize < internalSharedDataBytes ∨ mapSize > segSize ∨ sharedOff > mapSize ∨
        sharedDataBytes > mapSize - sharedOff) ↔
      internalSharedDataBytes.toNat ≤ mapSize.toNat ∧ mapSize.toNat ≤ segSize.toNat ∧
        sharedOff.toNat + sharedDataBytes.toNat ≤ mapSize.toNat := by
  simp only [not_or, gt_iff_lt, UInt64.not_lt, UInt64.le_iff_toNat_le]
  refine and_congr_right fun _ => and_congr_right fun _ => ?_
  constructor
  · rintro ⟨hoff, hsub⟩
    rw [UInt64.toNat_sub_of_le _ _ (UInt64.le_iff_toNat_le.mpr hoff)] at hsub
    omega
  · intro hle
    have hoff : sharedOff.toNat ≤ mapSize.toNat := (Nat.le_add_right ..).trans hle
    rw [UInt64.toNat_sub_of_le _ _ (UInt64.le_iff_toNat_le.mpr hoff)]
    omega

namespace World

/-- **One mapping.** It succeeds if the calls do and the segment is accepted; otherwise the process
has what it had before. -/
theorem mapShmem_spec {calls : AttachCalls} {w : World}
    (hfd : ∀ opened ∈ calls.shmOpen, opened.1 ∉ w.fds)
    (hhdr : ∀ hdr ∈ calls.mmapHeader, hdr ∉ w.maps) (hmap : ∀ map ∈ calls.mmap, map ∉ w.maps) :
    (∃ e, w.mapShmem calls = (.error e, w) ∧
        ∀ fd i map, calls.Grants fd i map → ¬(w.segments i).Accepted map) ∨
      ∃ fd i map, calls.Grants fd i map ∧ (w.segments i).Accepted map ∧ w.mapShmem calls =
        (.ok { fd, map, mapSize := (w.segments i).shmSegSize
               shared := { segment := i, addr := map + (w.segments i).offset } },
          { w with fds := insert fd w.fds, maps := insert map w.maps }) := by
  rw [mapShmem]
  cases hopen : calls.shmOpen with
  | none =>
      refine Or.inl ⟨_, rfl, fun fd i map hgrants => ?_⟩
      cases hopen.symm.trans hgrants.shmOpen
  | some opened =>
      obtain ⟨fd, i⟩ := opened
      have hclosed : (insert fd w.fds).erase fd = w.fds := Finset.erase_insert (hfd _ hopen)
      have hsame : ∀ {fd' i' : ℕ} {map : UInt64}, calls.Grants fd' i' map → i' = i := by
        intro fd' i' map hgrants
        exact (Prod.mk.inj (Option.some.inj (hgrants.shmOpen.symm.trans hopen))).2
      dsimp only
      by_cases hstat : (!calls.fstat) = true ∨ (w.segments i).stSize ≤ 0
      · rw [if_pos hstat]
        refine Or.inl ⟨.system, by rw [close, hclosed], fun fd' i' map hgrants haccepted => ?_⟩
        obtain rfl := hsame hgrants
        rcases hstat with hstat | hsize
        · rw [hgrants.fstat] at hstat
          cases hstat
        · exact haccepted.size_pos hsize
      rw [if_neg hstat]
      rw [not_or, Bool.not_eq_true, Bool.not_eq_false'] at hstat
      cases hheader : calls.mmapHeader with
      | none =>
          refine Or.inl ⟨.system, by rw [close, hclosed], fun fd' i' map hgrants => ?_⟩
          have hsome := hgrants.mmapHeader
          rw [hheader] at hsome
          cases hsome
      | some hdr =>
          have hunmapped : (insert hdr w.maps).erase hdr = w.maps :=
            Finset.erase_insert (hhdr _ hheader)
          dsimp only
          by_cases hsizes : (w.segments i).shmSegSize < internalSharedDataBytes ∨
              (w.segments i).shmSegSize > (w.segments i).stSize.toUInt64 ∨
              (w.segments i).offset > (w.segments i).shmSegSize ∨
              sharedDataBytes > (w.segments i).shmSegSize - (w.segments i).offset
          · rw [if_pos hsizes]
            refine Or.inl ⟨.header (w.segments i).shmSegSize (w.segments i).stSize.toUInt64
              (w.segments i).offset, by rw [close, munmap, hclosed, hunmapped],
              fun fd' i' map hgrants haccepted => ?_⟩
            obtain rfl := hsame hgrants
            exact header_iff.mpr
              ⟨haccepted.header_le, haccepted.size_le, haccepted.shared_le⟩ hsizes
          rw [if_neg hsizes]
          obtain ⟨hheaderLe, hsizeLe, hsharedLe⟩ := header_iff.mp hsizes
          cases hmmap : calls.mmap with
          | none =>
              refine Or.inl ⟨.system, by rw [close, munmap, hclosed, hunmapped],
                fun fd' i' map hgrants => ?_⟩
              cases hmmap.symm.trans hgrants.mmap
          | some map =>
              have hwhole : (insert map w.maps).erase map = w.maps :=
                Finset.erase_insert (hmap _ hmmap)
              have hgot : ∀ {fd' i' : ℕ} {map' : UInt64}, calls.Grants fd' i' map' →
                  i' = i ∧ map' = map := by
                intro fd' i' map' hgrants
                exact ⟨hsame hgrants, Option.some.inj (hgrants.mmap.symm.trans hmmap)⟩
              dsimp only
              by_cases hmagic : (w.segments i).shared.magic = QUETZ_SHM_MAGIC
              · rw [if_neg (not_not.mpr hmagic)]
                by_cases hvalid : quetzNativeRegionsValid (map + (w.segments i).offset)
                    (w.segments i).shared.native = true
                · rw [hvalid, if_neg (by decide)]
                  refine Or.inr ⟨fd, i, map, ⟨hopen, hstat.1, by rw [hheader]; rfl, hmmap⟩,
                    ⟨hstat.2, hheaderLe, hsizeLe, hsharedLe, hmagic, hvalid⟩, ?_⟩
                  rw [munmap, hunmapped]
                · rw [if_pos (by simpa using hvalid)]
                  refine Or.inl ⟨.nativeRam, by rw [close, munmap, munmap, hclosed, hunmapped,
                    hwhole], fun fd' i' map' hgrants haccepted => ?_⟩
                  obtain ⟨rfl, rfl⟩ := hgot hgrants
                  exact hvalid haccepted.native
              · rw [if_pos hmagic]
                refine Or.inl ⟨.magic (w.segments i).shared.magic, by rw [close, munmap, munmap,
                  hclosed, hunmapped, hwhole], fun fd' i' map' hgrants haccepted => ?_⟩
                obtain ⟨rfl, rfl⟩ := hgot hgrants
                exact hmagic haccepted.magic

end World

/-! ### The invariant -/

/-- The event is a reset of the vCPU. -/
def IpcEvent.resets (v : Vcore) : IpcEvent → Bool
  | .cpuReset vcpu => vcpu.toNat = v
  | _ => false

/-- How often the vCPU was reset. -/
def resets (es : List IpcEvent) (v : Vcore) : ℕ := es.countP (IpcEvent.resets v)

/-- The mapping of a client is inside its segment, and the shared structure is inside the
mapping. -/
structure QuetzIpcClient.Located (c : QuetzIpcClient) (seg : Segment) : Prop where
  addr : c.shared.addr = c.map + seg.offset
  shared_le : seg.offset.toNat + sharedDataBytes.toNat ≤ c.mapSize.toNat
  size_le : c.mapSize.toNat ≤ seg.stSize.toUInt64.toNat
  fits : c.map.toNat + c.mapSize.toNat ≤ 2 ^ 64

/-- What was opened or mapped and not closed: each is of one client. -/
structure Owned {α : Type} (clients : ℕ → Option QuetzIpcClient) (p : QuetzIpcClient → α)
    (s : Finset α) : Prop where
  mem_iff : ∀ a, a ∈ s ↔ ∃ i c, clients i = some c ∧ p c = a
  unique : ∀ i j c d, clients i = some c → clients j = some d → p c = p d → i = j

/-- The clients are listed once, they have all that was opened and mapped, and the epochs of their
segments count the resets. -/
structure Inv (es : List IpcEvent) (w : World) : Prop where
  listed : ∃ is, Chain QuetzIpcClient.next w.clients w.resetClients is ∧ is.length ≤ w.attaches ∧
    ∀ i, i ∈ is ↔ (w.clients i).isSome = true
  fds : Owned w.clients QuetzIpcClient.fd w.fds
  maps : Owned w.clients QuetzIpcClient.map w.maps
  located : ∀ i c, w.clients i = some c → c.Located (w.segments c.shared.segment)
  counted : ∀ v, w.resetEpochs v = .ofNat (resets es v)
  shown : ∀ i c, w.clients i = some c →
    (w.segments c.shared.segment).shared.cpuResetEpoch = w.resetEpochs

section

variable {segments : ℕ → Segment} {w w' : World} {es : List IpcEvent} {e : IpcEvent}
  {f : (Vcore → UInt32) → Vcore → UInt32}

theorem resets_concat (es : List IpcEvent) (e : IpcEvent) (v : Vcore) :
    resets (es ++ [e]) v = resets es v + if e.resets v then 1 else 0 := by
  rw [resets, List.countP_append, List.countP_singleton]
  rfl

theorem storeEpochs_self (segments : ℕ → Segment) (p : SharedPtr) :
    World.storeEpochs segments p f p.segment = (segments p.segment).mapEpochs f :=
  Function.update_self ..

theorem storeEpochs_of_ne {p : SharedPtr} {j : ℕ} (hj : j ≠ p.segment) :
    World.storeEpochs segments p f j = segments j := Function.update_of_ne hj ..

/-- A store to the epochs of the segments of several clients. -/
theorem foldl_storeEpochs (hf : ∀ x, f (f x) = f x) (cs : List QuetzIpcClient)
    (segments : ℕ → Segment) (j : ℕ) :
    cs.foldl (fun segments c => World.storeEpochs segments c.shared f) segments j =
      if ∃ c ∈ cs, c.shared.segment = j then (segments j).mapEpochs f else segments j := by
  induction cs generalizing segments with
  | nil => simp
  | cons c cs ih =>
      rw [List.foldl_cons, ih]
      by_cases hj : c.shared.segment = j
      · subst hj
        have hhead : ∃ d ∈ c :: cs, d.shared.segment = c.shared.segment :=
          ⟨c, List.mem_cons_self, rfl⟩
        rw [storeEpochs_self, if_pos hhead]
        split_ifs
        · rw [Segment.mapEpochs, Segment.mapEpochs]
          dsimp only
          rw [hf]
        · rfl
      · rw [storeEpochs_of_ne (Ne.symm hj)]
        simp [hj]

theorem QuetzIpcClient.Located.mapEpochs {c : QuetzIpcClient} {seg : Segment} (h : c.Located seg) :
    c.Located (seg.mapEpochs f) := ⟨h.addr, h.shared_le, h.size_le, h.fits⟩

theorem Inv.start (segments : ℕ → Segment) : Inv [] { segments } where
  listed := ⟨[], rfl, Nat.zero_le _, by simp⟩
  fds := ⟨by simp, by simp⟩
  maps := ⟨by simp, by simp⟩
  located := by simp
  counted := fun v => rfl
  shown := by simp

/-! ### One event -/

/-- The world with one more client. -/
def World.added (w : World) (i : ℕ) (c : QuetzIpcClient) : World :=
  { w with
    segments := World.storeEpochs w.segments c.shared fun _ => w.resetEpochs
    fds := insert c.fd w.fds
    maps := insert c.map w.maps
    clients := Function.update w.clients i (some c)
    resetClients := some i
    attaches := w.attaches + 1 }

/-- A client that may be added at an address. -/
structure World.Fresh (w : World) (i : ℕ) (c : QuetzIpcClient) : Prop where
  free : w.clients i = none
  fd : c.fd ∉ w.fds
  map : c.map ∉ w.maps
  located : c.Located (w.segments c.shared.segment)
  next : c.next = w.resetClients

/-- **What attaching does**: nothing, or it adds a client. It adds one if the calls succeed and the
segment is accepted. -/
theorem World.attach_spec {calls : AttachCalls} (ha : w.Allowed (.attach calls)) :
    (∃ e, w.attach calls = (.error e, w) ∧ ∀ i fd k map, calls.calloc = some i →
        calls.Grants fd k map → ¬(w.segments k).Accepted map) ∨
      ∃ i c, w.Fresh i c ∧ w.attach calls = (.ok i, w.added i c) := by
  obtain ⟨hfree, hopen, hhdr, hmmap⟩ := ha
  rw [World.attach]
  cases hcalloc : calls.calloc with
  | none => exact Or.inl ⟨_, rfl, fun i fd k map hi => nomatch hi⟩
  | some i =>
      dsimp only
      rcases World.mapShmem_spec (fun opened ho => (hopen opened ho).1) hhdr hmmap with
        ⟨e, hres, hrefused⟩ | ⟨fd, k, map, hgrants, haccepted, hres⟩
      · rw [hres]
        exact Or.inl ⟨e, rfl, fun i fd k map hi => hrefused fd k map⟩
      · rw [hres]
        obtain ⟨hfd, hfits⟩ := hopen _ hgrants.shmOpen
        refine Or.inr ⟨i, { fd, map, mapSize := (w.segments k).shmSegSize
                            shared := { segment := k, addr := map + (w.segments k).offset }
                            next := w.resetClients }, ?_, rfl⟩
        exact ⟨Option.isNone_iff_eq_none.mp (hfree i hcalloc), hfd, hmmap map hgrants.mmap,
          ⟨rfl, haccepted.shared_le, haccepted.size_le, hfits map hgrants.mmap⟩, rfl⟩

section

variable {α : Type} [DecidableEq α] {clients clients' : ℕ → Option QuetzIpcClient}
  {p : QuetzIpcClient → α} {s : Finset α} {i : ℕ} {c : QuetzIpcClient}

/-- One more client. -/
theorem update_eq_some_iff (hfree : clients i = none) {j : ℕ} {d : QuetzIpcClient} :
    Function.update clients i (some c) j = some d ↔ j = i ∧ d = c ∨ clients j = some d := by
  by_cases hj : j = i
  · subst hj
    rw [Function.update_self, hfree]
    simp [eq_comm]
  · rw [Function.update_of_ne hj]
    simp [hj]

theorem Owned.insert (h : Owned clients p s) (hfree : clients i = none) (hc : p c ∉ s) :
    Owned (Function.update clients i (some c)) p (insert (p c) s) := by
  have hfresh : ∀ {j : ℕ} {d : QuetzIpcClient}, clients j = some d → p d ≠ p c :=
    fun hj heq => hc ((h.mem_iff _).mpr ⟨_, _, hj, heq⟩)
  constructor
  · intro a
    rw [Finset.mem_insert, h.mem_iff]
    constructor
    · rintro (rfl | ⟨j, d, hj, rfl⟩)
      · exact ⟨i, c, Function.update_self .., rfl⟩
      · exact ⟨j, d, (update_eq_some_iff hfree).mpr (Or.inr hj), rfl⟩
    · rintro ⟨j, d, hj, rfl⟩
      rcases (update_eq_some_iff hfree).mp hj with ⟨-, rfl⟩ | hold
      · exact Or.inl rfl
      · exact Or.inr ⟨j, d, hold, rfl⟩
  · intro j j' d d' hj hj' hshare
    rcases (update_eq_some_iff hfree).mp hj with ⟨rfl, rfl⟩ | hold <;>
      rcases (update_eq_some_iff hfree).mp hj' with ⟨rfl, rfl⟩ | hold'
    · rfl
    · exact absurd hshare.symm (hfresh hold')
    · exact absurd hshare (hfresh hold)
    · exact h.unique j j' d d' hold hold' hshare

/-- One client less, and some others may have another link. -/
structure Removed (i : ℕ) (clients clients' : ℕ → Option QuetzIpcClient) : Prop where
  left : ∀ j d', clients' j = some d' →
    j ≠ i ∧ ∃ d link, clients j = some d ∧ d' = World.setNext d link
  kept : ∀ j d, j ≠ i → clients j = some d → ∃ link, clients' j = some (World.setNext d link)

theorem Owned.erase (h : Owned clients p s) (hremoved : Removed i clients clients')
    (hp : ∀ d link, p (World.setNext d link) = p d) (hi : clients i = some c) :
    Owned clients' p (s.erase (p c)) := by
  constructor
  · intro a
    rw [Finset.mem_erase, h.mem_iff]
    constructor
    · rintro ⟨hne, j, d, hj, rfl⟩
      have hji : j ≠ i := by
        rintro rfl
        exact hne (congrArg p (Option.some.inj (hj.symm.trans hi)))
      obtain ⟨link, hj'⟩ := hremoved.kept j d hji hj
      exact ⟨j, _, hj', hp d link⟩
    · rintro ⟨j, d', hj', rfl⟩
      obtain ⟨hji, d, link, hj, rfl⟩ := hremoved.left j d' hj'
      rw [hp]
      exact ⟨fun hshare => hji (h.unique j i d c hj hi hshare), j, d, hj, rfl⟩
  · intro j j' d d' hj hj' hshare
    obtain ⟨-, e, link, hold, rfl⟩ := hremoved.left j d hj
    obtain ⟨-, e', link', hold', rfl⟩ := hremoved.left j' d' hj'
    rw [hp, hp] at hshare
    exact h.unique j j' e e' hold hold' hshare

end

/-- A client is added in front of the list. -/
theorem Inv.added (h : Inv es w) {i : ℕ} {c : QuetzIpcClient} (hc : World.Fresh w i c)
    (hquiet : ∀ v, e.resets v = false) : Inv (es ++ [e]) (w.added i c) := by
  obtain ⟨hfree, hfd, hmap, hlocated, hlink⟩ := hc
  rw [World.added]
  obtain ⟨is, hchain, hlength, hmem⟩ := h.listed
  have hnotin : ∀ j ∈ is, j ≠ i := by
    rintro j hj rfl
    have hsome := (hmem j).mp hj
    rw [hfree] at hsome
    cases hsome
  constructor
  case listed =>
    refine ⟨i :: is, hchain.push (Function.update_self ..) hlink fun j hj => ?_,
      Nat.succ_le_succ hlength, fun j => ?_⟩
    · exact Function.update_of_ne (hnotin j hj) ..
    · rw [List.mem_cons, hmem]
      dsimp only
      by_cases hj : j = i
      · subst hj
        simp
      · rw [Function.update_of_ne hj]
        simp [hj]
  case fds => exact h.fds.insert hfree hfd
  case maps => exact h.maps.insert hfree hmap
  case located =>
    intro j d hj
    have hbefore : d.Located (w.segments d.shared.segment) := by
      rcases (update_eq_some_iff hfree).mp hj with ⟨-, rfl⟩ | hold
      · exact hlocated
      · exact h.located j d hold
    dsimp only
    by_cases hseg : d.shared.segment = c.shared.segment
    · rw [hseg, storeEpochs_self, ← hseg]
      exact hbefore.mapEpochs
    · rw [storeEpochs_of_ne hseg]
      exact hbefore
  case counted =>
    intro v
    rw [resets_concat, hquiet]
    exact h.counted v
  case shown =>
    intro j d hj
    dsimp only
    by_cases hseg : d.shared.segment = c.shared.segment
    · rw [hseg, storeEpochs_self]
      rfl
    · rw [storeEpochs_of_ne hseg]
      rcases (update_eq_some_iff hfree).mp hj with ⟨-, rfl⟩ | hold
      · exact absurd rfl hseg
      · exact h.shown j d hold

/-- What happened may have been something that resets nothing. -/
theorem Inv.quiet (h : Inv es w) (hquiet : ∀ v, e.resets v = false) : Inv (es ++ [e]) w :=
  { h with
    counted := fun v => by
      rw [resets_concat, hquiet]
      exact h.counted v }

theorem Inv.attach (h : Inv es w) {calls : AttachCalls} (ha : w.Allowed (.attach calls)) :
    Inv (es ++ [.attach calls]) (w.attach calls).2 := by
  rcases World.attach_spec ha with ⟨e, heq, -⟩ | ⟨i, c, hfresh, heq⟩
  · rw [heq]
    exact h.quiet fun v => rfl
  · rw [heq]
    exact h.added hfresh fun v => rfl

/-- What a reset does to the segments. -/
theorem Inv.cpuReset_eq (h : Inv es w) {vcpu : UInt32}
    (hvcpu : vcpu.toNat < IrqMailbox.QUETZ_MAX_MMIO_VCORES) {v : Vcore} (hv : vcpu.toNat = v)
    {epoch : UInt32} (hepoch : epoch = w.resetEpochs v + 1) :
    ∃ segments, w.cpuReset vcpu =
        .ok { w with segments, resetEpochs := Function.update w.resetEpochs v epoch } ∧
      ∀ k, (segments k = (w.segments k).mapEpochs fun epochs => Function.update epochs v epoch) ∨
        segments k = w.segments k ∧ ∀ i c, w.clients i = some c → c.shared.segment ≠ k := by
  obtain ⟨is, hchain, hlength, hmem⟩ := h.listed
  obtain rfl : v = ⟨vcpu.toNat, hvcpu⟩ := Fin.ext hv.symm
  rw [World.cpuReset, dif_pos hvcpu]
  dsimp only
  rw [walk_chain hchain hlength, ← hepoch]
  refine ⟨_, rfl, fun k => ?_⟩
  rw [foldl_storeEpochs fun epochs => Function.update_idem ..]
  split_ifs with hk
  · exact Or.inl rfl
  · refine Or.inr ⟨rfl, fun i c hi hseg => hk ⟨c, List.mem_filterMap.mpr ⟨i, ?_, hi⟩, hseg⟩⟩
    exact (hmem i).mpr (by rw [hi]; rfl)

/-- A reset reaches the segments of all clients. -/
theorem Inv.cpuReset (h : Inv es w) {vcpu : UInt32}
    (hvcpu : vcpu.toNat < IrqMailbox.QUETZ_MAX_MMIO_VCORES) :
    ∃ w', w.cpuReset vcpu = .ok w' ∧ Inv (es ++ [.cpuReset vcpu]) w' := by
  generalize hv : (⟨vcpu.toNat, hvcpu⟩ : Vcore) = v
  have hvcpu' : vcpu.toNat = v := by rw [← hv]
  generalize hepoch : w.resetEpochs v + 1 = epoch
  obtain ⟨segments, heq, hsegments⟩ := h.cpuReset_eq hvcpu hvcpu' hepoch.symm
  refine ⟨_, heq, ?_⟩
  have hclient : ∀ {i : ℕ} {c : QuetzIpcClient}, w.clients i = some c → segments c.shared.segment =
      (w.segments c.shared.segment).mapEpochs fun epochs => Function.update epochs v epoch := by
    intro i c hi
    rcases hsegments c.shared.segment with hsegment | ⟨-, hnone⟩
    · exact hsegment
    · exact absurd rfl (hnone i c hi)
  constructor
  case listed => exact h.listed
  case fds => exact h.fds
  case maps => exact h.maps
  case located =>
    intro i c hi
    dsimp only
    rw [hclient hi]
    exact (h.located i c hi).mapEpochs
  case counted =>
    intro u
    dsimp only
    rw [resets_concat, IpcEvent.resets, hvcpu']
    by_cases hu : u = v
    · subst hu
      rw [Function.update_self, ← hepoch, h.counted, if_pos (decide_eq_true rfl)]
      exact (UInt32.ofNat_add ..).symm
    · have hne : ¬decide ((v : ℕ) = u) = true := by
        rw [decide_eq_true_iff]
        exact fun heq => hu (Fin.ext heq.symm)
      rw [Function.update_of_ne hu, if_neg hne]
      exact h.counted u
  case shown =>
    intro i c hi
    dsimp only
    rw [hclient hi, Segment.mapEpochs, h.shown i c hi]

/-- A client is taken out of the list. -/
theorem Inv.removed (h : Inv es w) {i : ℕ} {c : QuetzIpcClient} (hc : w.clients i = some c)
    {clients : ℕ → Option QuetzIpcClient} {head : Option ℕ} {is : List ℕ}
    (hchain : Chain QuetzIpcClient.next clients head is) (hlength : is.length ≤ w.attaches)
    (hmem : ∀ j, j ∈ is ↔ j ≠ i ∧ (w.clients j).isSome = true)
    (hremoved : Removed i w.clients clients) (hquiet : ∀ v, e.resets v = false) :
    Inv (es ++ [e]) { (w.munmap c.map).close c.fd with clients, resetClients := head } := by
  constructor
  case listed =>
    refine ⟨is, hchain, hlength, fun j => ?_⟩
    rw [hmem]
    dsimp only
    constructor
    · rintro ⟨hji, hsome⟩
      obtain ⟨d, hd⟩ := Option.isSome_iff_exists.mp hsome
      obtain ⟨link, hd'⟩ := hremoved.kept j d hji hd
      rw [hd']
      rfl
    · intro hsome
      obtain ⟨d', hd'⟩ := Option.isSome_iff_exists.mp hsome
      obtain ⟨hji, d, link, hd, -⟩ := hremoved.left j d' hd'
      exact ⟨hji, by rw [hd]; rfl⟩
  case fds => exact h.fds.erase hremoved (fun d link => rfl) hc
  case maps => exact h.maps.erase hremoved (fun d link => rfl) hc
  case located =>
    intro j d' hj
    obtain ⟨-, d, link, hd, rfl⟩ := hremoved.left j d' hj
    have hbefore := h.located j d hd
    exact ⟨hbefore.addr, hbefore.shared_le, hbefore.size_le, hbefore.fits⟩
  case counted =>
    intro v
    rw [resets_concat, hquiet]
    exact h.counted v
  case shown =>
    intro j d' hj
    obtain ⟨-, d, link, hd, rfl⟩ := hremoved.left j d' hj
    exact h.shown j d hd

/-- What detaching does to the list. -/
theorem Inv.detach_eq (h : Inv es w) {i : ℕ} {c : QuetzIpcClient} (hc : w.clients i = some c) :
    ∃ clients head is, w.detach (some i) =
        .ok { (w.munmap c.map).close c.fd with clients, resetClients := head } ∧
      Chain QuetzIpcClient.next clients head is ∧ is.length ≤ w.attaches ∧
      (∀ j, j ∈ is ↔ j ≠ i ∧ (w.clients j).isSome = true) ∧ Removed i w.clients clients := by
  obtain ⟨is, hchain, hlength, hmem⟩ := h.listed
  obtain ⟨pre, post, rfl⟩ := List.append_of_mem ((hmem i).mpr (by rw [hc]; rfl))
  obtain ⟨mid, hpre, hpost⟩ := segment_append.mp hchain
  obtain rfl : mid = some i := hpost.1
  have hnodup := hchain.nodup
  rw [List.nodup_middle, List.nodup_cons] at hnodup
  have hnotpre : i ∉ pre := fun hi => hnodup.1 (List.mem_append_left _ hi)
  rw [List.length_append, List.length_cons] at hlength
  rw [World.detach, seek_segment hpre (Or.inr rfl) hnotpre rfl (by omega)]
  dsimp only
  rw [load_placeAfter hpre rfl, hc]
  dsimp only
  rw [if_pos (by rfl)]
  have hunlinked := chain_unlink World.setNext (fun c link => rfl) hchain hc
  have hstore := store_eq World.setNext w.clients w.resetClients c.next (placeAfter .head pre)
  generalize store World.setNext w.clients w.resetClients c.next (placeAfter .head pre) = list
    at hunlinked hstore ⊢
  have hfreed : ∀ {j : ℕ}, j ≠ i → Function.update list.1 i none j = list.1 j :=
    fun hj => Function.update_of_ne hj ..
  refine ⟨_, _, pre ++ post, rfl, ?_, by rw [List.length_append]; omega, fun j => ?_, ?_⟩
  · exact hunlinked.congr fun j hj => by rw [hfreed (fun hji => hnodup.1 (hji ▸ hj))]
  · rw [← hmem]
    constructor
    · intro hj
      refine ⟨fun hji => hnodup.1 (hji ▸ hj), ?_⟩
      rcases List.mem_append.mp hj with hj | hj
      · exact List.mem_append_left _ hj
      · exact List.mem_append_right _ (List.mem_cons_of_mem _ hj)
    · rintro ⟨hji, hj⟩
      rcases List.mem_append.mp hj with hj | hj
      · exact List.mem_append_left _ hj
      · exact List.mem_append_right _ (List.mem_of_ne_of_mem hji hj)
  · constructor
    · intro j d' hj
      have hji : j ≠ i := by
        rintro rfl
        rw [Function.update_self] at hj
        cases hj
      rw [hfreed hji] at hj
      refine ⟨hji, ?_⟩
      rcases hstore j with hsame | ⟨d, hd, hset⟩
      · exact ⟨d', d'.next, hsame.symm.trans hj, rfl⟩
      · exact ⟨d, c.next, hd, Option.some.inj (hj.symm.trans hset)⟩
    · intro j d hji hd
      rw [hfreed hji]
      rcases hstore j with hsame | ⟨d₀, hd₀, hset⟩
      · exact ⟨d.next, hsame.trans hd⟩
      · obtain rfl := Option.some.inj (hd.symm.trans hd₀)
        exact ⟨c.next, hset⟩

/-- Detaching takes one client out of the list and closes what it had. -/
theorem Inv.detach (h : Inv es w) {client : Option ℕ} (ha : w.Allowed (.detach client)) :
    ∃ w', w.detach client = .ok w' ∧ Inv (es ++ [.detach client]) w' := by
  cases client with
  | none => exact ⟨w, rfl, h.quiet fun v => rfl⟩
  | some i =>
      obtain ⟨c, hc⟩ := Option.isSome_iff_exists.mp (ha i rfl)
      obtain ⟨clients, head, is, heq, hchain, hlength, hmem, hremoved⟩ := h.detach_eq hc
      exact ⟨_, heq, h.removed hc hchain hlength hmem hremoved fun v => rfl⟩

/-- Other stores leave the size, the header and the epochs as they are. -/
theorem Inv.store (h : Inv es w) (k : ℕ) (numCores : UInt64) (native : QuetzSharedData)
    (magic : UInt32) : ∃ w', w.step (.store k numCores native magic) = .ok w' ∧
      Inv (es ++ [.store k numCores native magic]) w' := by
  refine ⟨_, rfl, ?_⟩
  have hkept : ∀ j, ∃ shared, Function.update w.segments k { w.segments k with
      shared := { (w.segments k).shared with numCores, native, magic } } j =
        { w.segments j with shared } ∧
          shared.cpuResetEpoch = (w.segments j).shared.cpuResetEpoch := by
    intro j
    by_cases hj : j = k
    · subst hj
      exact ⟨_, Function.update_self .., rfl⟩
    · exact ⟨(w.segments j).shared, Function.update_of_ne hj .., rfl⟩
  constructor
  case listed => exact h.listed
  case fds => exact h.fds
  case maps => exact h.maps
  case located =>
    intro j d hj
    obtain ⟨shared, hseg, -⟩ := hkept d.shared.segment
    dsimp only
    rw [hseg]
    have hbefore := h.located j d hj
    exact ⟨hbefore.addr, hbefore.shared_le, hbefore.size_le, hbefore.fits⟩
  case counted =>
    intro v
    rw [resets_concat]
    exact h.counted v
  case shown =>
    intro j d hj
    obtain ⟨shared, hseg, hepochs⟩ := hkept d.shared.segment
    dsimp only
    rw [hseg]
    exact hepochs.trans (h.shown j d hj)

/-- **One event.** Only a reset of a vCPU without a slot ends the process. -/
theorem Inv.step (h : Inv es w) (ha : w.Allowed e) :
    (∃ w', w.step e = .ok w' ∧ Inv (es ++ [e]) w') ∨ ∃ vcpu, e = .cpuReset vcpu ∧
      IrqMailbox.QUETZ_MAX_MMIO_VCORES ≤ vcpu.toNat ∧ w.step e = .error .aborted := by
  cases e with
  | attach calls => exact Or.inl ⟨_, rfl, h.attach ha⟩
  | detach client => exact Or.inl (h.detach ha)
  | cpuReset vcpu =>
      by_cases hvcpu : vcpu.toNat < IrqMailbox.QUETZ_MAX_MMIO_VCORES
      · exact Or.inl (h.cpuReset hvcpu)
      · refine Or.inr ⟨vcpu, rfl, not_lt.mp hvcpu, ?_⟩
        rw [World.step, World.cpuReset, dif_neg hvcpu]
  | store k numCores native magic => exact Or.inl (h.store k numCores native magic)

/-- **The other clients.** Only detaching ends a client; its mapping stays as it is. -/
theorem Inv.frame (h : Inv es w) (ha : w.Allowed e) (hstep : w.step e = .ok w') {i : ℕ}
    {c : QuetzIpcClient} (hi : w.clients i = some c) (hne : e ≠ .detach (some i)) :
    ∃ link, w'.clients i = some (World.setNext c link) := by
  cases e with
  | attach calls =>
      obtain rfl := Except.ok.inj hstep
      rcases World.attach_spec ha with ⟨e, heq, -⟩ | ⟨j, d, hfresh, heq⟩
      · rw [heq]
        exact ⟨c.next, hi⟩
      · have hij : i ≠ j := by
          rintro rfl
          cases hi.symm.trans hfresh.free
        rw [heq]
        exact ⟨c.next, (Function.update_of_ne hij ..).trans hi⟩
  | detach client =>
      cases client with
      | none =>
          obtain rfl := Except.ok.inj hstep
          exact ⟨c.next, hi⟩
      | some j =>
          obtain ⟨d, hd⟩ := Option.isSome_iff_exists.mp (ha j rfl)
          obtain ⟨clients, head, is, heq, -, -, -, hremoved⟩ := h.detach_eq hd
          obtain rfl := Except.ok.inj (heq.symm.trans hstep)
          exact hremoved.kept i c (fun hij => hne (by rw [hij])) hi
  | cpuReset vcpu =>
      rw [World.step, World.cpuReset] at hstep
      split_ifs at hstep
      dsimp only at hstep
      split at hstep
      next => cases hstep
      next segments hsegments =>
        obtain rfl := Except.ok.inj hstep
        exact ⟨c.next, hi⟩
  | store k numCores native magic =>
      obtain rfl := Except.ok.inj hstep
      exact ⟨c.next, hi⟩

/-- Only a store to it changes the number of vCPUs in a segment. -/
theorem Inv.numCores (h : Inv es w) (ha : w.Allowed e) (hstep : w.step e = .ok w') (k : ℕ)
    (hkeep : ∀ numCores native magic, e = .store k numCores native magic →
      numCores = (w.segments k).shared.numCores) :
    (w'.segments k).shared.numCores = (w.segments k).shared.numCores := by
  cases e with
  | attach calls =>
      obtain rfl := Except.ok.inj hstep
      rcases World.attach_spec ha with ⟨e, heq, -⟩ | ⟨i, c, -, heq⟩
      · rw [heq]
      · rw [heq, World.added]
        dsimp only
        by_cases hk : k = c.shared.segment
        · rw [hk, storeEpochs_self]
          rfl
        · rw [storeEpochs_of_ne hk]
  | detach client =>
      cases client with
      | none =>
          obtain rfl := Except.ok.inj hstep
          rfl
      | some j =>
          obtain ⟨d, hd⟩ := Option.isSome_iff_exists.mp (ha j rfl)
          obtain ⟨clients, head, is, heq, -⟩ := h.detach_eq hd
          obtain rfl := Except.ok.inj (heq.symm.trans hstep)
          rfl
  | cpuReset vcpu =>
      by_cases hvcpu : vcpu.toNat < IrqMailbox.QUETZ_MAX_MMIO_VCORES
      · obtain ⟨segments, heq, hsegments⟩ :=
          h.cpuReset_eq hvcpu (v := ⟨vcpu.toNat, hvcpu⟩) rfl rfl
        obtain rfl := Except.ok.inj (heq.symm.trans hstep)
        rcases hsegments k with hk | ⟨hk, -⟩
        · exact congrArg (fun seg => seg.shared.numCores) hk
        · exact congrArg (fun seg => seg.shared.numCores) hk
      · rw [World.step, World.cpuReset, dif_neg hvcpu] at hstep
        cases hstep
  | store j numCores native magic =>
      obtain rfl := Except.ok.inj hstep
      dsimp only
      by_cases hk : k = j
      · subst hk
        rw [Function.update_self]
        exact hkeep numCores native magic rfl
      · rw [Function.update_of_ne hk]

theorem World.Reachable.inv (h : World.Reachable segments es w) : Inv es w := by
  induction h with
  | start => exact Inv.start segments
  | step hreach ha hstep ih =>
      rcases ih.step ha with ⟨w', hw', hinv⟩ | ⟨vcpu, rfl, -, herr⟩
      · obtain rfl := Except.ok.inj (hstep.symm.trans hw')
        exact hinv
      · cases hstep.symm.trans herr

/-- **Resets reach the clients.** A process attaches to segments, detaches and resets vCPUs in any
order, and attaching may fail at any of its calls. Then each attached client is mapped inside its
segment, and the epochs of the segment count the resets of each vCPU so far, before and after it was
attached. What was opened and mapped is that of the attached clients, none of which shares it, and
the list has exactly these. So no loop over the list meets a client that was freed or does not end,
and only a reset of a vCPU without a slot ends the process. -/
theorem resets_reach_clients (h : World.Reachable segments es w) :
    (∀ i c, w.clients i = some c → c.Located (w.segments c.shared.segment) ∧ ∀ v,
      (w.segments c.shared.segment).shared.cpuResetEpoch v = .ofNat (resets es v)) ∧
    Owned w.clients QuetzIpcClient.fd w.fds ∧ Owned w.clients QuetzIpcClient.map w.maps ∧
    (∃ is, Chain QuetzIpcClient.next w.clients w.resetClients is ∧ is.Nodup ∧
      ∀ i, i ∈ is ↔ (w.clients i).isSome = true) ∧
    ∀ e, w.Allowed e → (∃ w', w.step e = .ok w') ∨ ∃ vcpu, e = .cpuReset vcpu ∧
      IrqMailbox.QUETZ_MAX_MMIO_VCORES ≤ vcpu.toNat ∧ w.step e = .error .aborted := by
  have hinv := h.inv
  obtain ⟨is, hchain, -, hmem⟩ := hinv.listed
  refine ⟨fun i c hi => ⟨hinv.located i c hi, fun v => ?_⟩, hinv.fds, hinv.maps,
    ⟨is, hchain, hchain.nodup, hmem⟩, fun e ha => ?_⟩
  · rw [hinv.shown i c hi]
    exact hinv.counted v
  · exact (hinv.step ha).imp_left fun ⟨w', hw', _⟩ => ⟨w', hw'⟩

/-- The world after events that are allowed. -/
def World.run : List IpcEvent → World → Option World
  | [], w => some w
  | e :: es, w => if w.Allowed e then
      match w.step e with
      | .ok w => World.run es w
      | .error _ => none
    else none

theorem World.Reachable.run {es' : List IpcEvent} (h : World.Reachable segments es w)
    (hrun : World.run es' w = some w') : World.Reachable segments (es ++ es') w' := by
  induction es' generalizing es w with
  | nil =>
      obtain rfl : w = w' := Option.some.inj hrun
      rwa [List.append_nil]
  | cons e es' ih =>
      rw [World.run] at hrun
      split_ifs at hrun with ha
      split at hrun
      next w₁ hstep =>
        have hrest := ih (h.step ha hstep) hrun
        rwa [List.append_assoc] at hrest
      next => cases hrun

/-- Two segments of one page more than the header and the shared structure. -/
def twoSegments (_ : ℕ) : Segment :=
  { stSize := 345088, shmSegSize := 345088, offset := 64
    shared := { numCores := 2, magic := QUETZ_SHM_MAGIC } }

/-- vCPU 1 is reset before, between and after two clients attach, and the first one detaches. -/
def twoClients : List IpcEvent :=
  [.cpuReset 1,
    .attach { calloc := some 7, shmOpen := some (3, 0), mmapHeader := some 0x1000
              mmap := some 0x10000 },
    .cpuReset 1,
    .attach { calloc := some 8, shmOpen := some (4, 1), mmapHeader := some 0x1000
              mmap := some 0x100000 },
    .attach { calloc := some 9, shmOpen := some (5, 1), mmapHeader := some 0x1000, mmap := none },
    .detach (some 7),
    .cpuReset 1]

/-- The segment of the second client has all three resets, and only its descriptor is open. -/
theorem resets_reach_clients_two : ∃ w, World.Reachable twoSegments twoClients w ∧
    (w.segments 1).shared.cpuResetEpoch ⟨1, by decide⟩ = 3 ∧ 4 ∈ w.fds ∧
      ∀ e, w.Allowed e → (∃ w', w.step e = .ok w') ∨ ∃ vcpu, e = .cpuReset vcpu ∧
        IrqMailbox.QUETZ_MAX_MMIO_VCORES ≤ vcpu.toNat ∧ w.step e = .error .aborted := by
  have hruns : (World.run twoClients { segments := twoSegments }).bind (fun w =>
      (w.clients 8).map fun c => (c.fd, c.shared.segment)) = some (4, 1) := by decide +kernel
  obtain ⟨w, hrun, hclient⟩ := Option.bind_eq_some_iff.mp hruns
  obtain ⟨c, hc, hpair⟩ := Option.map_eq_some_iff.mp hclient
  obtain ⟨hfd, hsegment⟩ := Prod.mk.inj hpair
  have hreach : World.Reachable twoSegments twoClients w := World.Reachable.start.run hrun
  obtain ⟨hshown, hfds, -, -, hsteps⟩ := resets_reach_clients hreach
  obtain ⟨-, hepoch⟩ := hshown 8 c hc
  rw [hsegment] at hepoch
  exact ⟨w, hreach, hepoch ⟨1, by decide⟩, (hfds.mem_iff 4).mpr ⟨8, c, hc, hfd⟩, hsteps⟩

end

end Quetz.Ipc
