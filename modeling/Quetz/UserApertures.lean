import Quetz.Lib.Lookup
import Quetz.Lib.CxxString
import Quetz.IrqMailbox

/-!
# The Apertures of User Mode

In user mode there is no device map. QEMU takes the doorbell ranges from `-sst-mmio-range`, which
may be repeated (`sst_mmio_register_range` in `qemu-overlay/linux-user/sst_mmio.c`), and a fault of
the guest is looked up in them (`find_range`). An invalid specification ends QEMU, so a guest only
ever runs with ranges that were all accepted.

The client of the shared memory is attached when a name appears for the first time. What attaching
does is not part of this model: it is given by an `IpcHost`.

## Main results

* `registerRange_eq_ok_iff`: which specifications are accepted, and what is registered.
* `registered_apertures`: after any registrations the ranges are disjoint and inside the address
  space, share one client for each name, and `findRange` finds the range of an address.
-/

namespace Quetz.UserMode

open CxxString

/-! ### The ranges -/

def MAX_RANGES : ℕ := 8

/-- A range of addresses that is serviced through the mailbox. -/
structure SstMmioRange where
  shmname : List Char := []
  base : UInt64 := 0
  size : UInt64 := 0
  vcpuId : UInt32 := 0
  client : Option ℕ := none

/-- The ranges that were registered, and the names that were attached so far. -/
structure Apertures where
  ranges : List SstMmioRange := []
  attached : List (List Char) := []

/-- What attaching does. The client of the `n`-th call of `quetz_ipc_attach`, and the count of vCPUs
a client reads in its shared memory. -/
structure IpcHost where
  attach : ℕ → List Char → Option ℕ
  vcpuCount : ℕ → UInt32

/-! ### Registration -/

/-- The text with which QEMU ends. -/
def invalidRange {α : Type} (reason : String) : Except String α :=
  .error ("quetz: invalid MMIO aperture: " ++ reason ++ "\n")

/-- The whole text is one number. `strtoull` itself would take white space and a sign. -/
def rangeNumber (value : List Char) : Except String UInt64 :=
  if value = [] ∨ value.head? = some '-' then invalidRange "expected an unsigned number"
  else match stoull value with
    | .ok (n, used) =>
        if used = value.length then .ok (.ofNat n) else invalidRange "invalid numeric field"
    | .error _ => invalidRange "invalid numeric field"

/-- What `strtok_r` cuts from a specification: the parts between commas, without empty ones. -/
def tokens (spec : List Char) : List (List Char) :=
  (spec.splitOn ',').filter fun tok => !tok.isEmpty

/-- One field of a specification. -/
def setField (r : SstMmioRange) (tok : List Char) : Except String SstMmioRange :=
  if "shmname=".toList.isPrefixOf tok then
    if 256 ≤ (tok.drop 8).length then invalidRange "shared-memory name too long"
    else .ok { r with shmname := tok.drop 8 }
  else if "base=".toList.isPrefixOf tok then do
    let n ← rangeNumber (tok.drop 5)
    .ok { r with base := n }
  else if "size=".toList.isPrefixOf tok then do
    let n ← rangeNumber (tok.drop 5)
    .ok { r with size := n }
  else if "vcpu_id=".toList.isPrefixOf tok then do
    let vcpu ← rangeNumber (tok.drop 8)
    if vcpu.toNat > 2 ^ 32 - 1 then invalidRange "vCPU index out of range"
    else .ok { r with vcpuId := .ofNat vcpu.toNat }
  else invalidRange "unknown field"

/-- `addr` is one of the addresses of the range, as the code compares it. -/
def SstMmioRange.covers (r : SstMmioRange) (addr : UInt64) : Bool :=
  decide (addr ≥ r.base) && decide (addr - r.base < r.size)

/-- The loop over the ranges before: no overlap, and one client for each name. -/
def scanRanges (r : SstMmioRange) : List SstMmioRange → Except String SstMmioRange
  | [] => .ok r
  | old :: rest =>
      if old.covers r.base || r.covers old.base then invalidRange "overlapping ranges"
      else scanRanges (if old.shmname = r.shmname then { r with client := old.client } else r) rest

/-- The name, the size and the end of a range; `abiMax` is the largest address of the guest. -/
def SstMmioRange.malformed (abiMax : UInt64) (r : SstMmioRange) : Bool :=
  r.shmname.isEmpty || decide (r.size = 0) || decide (r.base > abiMax) ||
    decide (r.size > abiMax) || decide (r.size - 1 > abiMax - r.base)

/-- The range with its client, and the calls of `quetz_ipc_attach` with the one it may take. -/
def attachClient (host : IpcHost) (attached : List (List Char)) (r : SstMmioRange) :
    SstMmioRange × List (List Char) :=
  match r.client with
  | some _ => (r, attached)
  | none =>
      ({ r with client := host.attach attached.length r.shmname }, attached ++ [r.shmname])

/-- `sst_mmio_register_range`; a missing specification is `none`. -/
def registerRange (host : IpcHost) (abiMax : UInt64) (s : Apertures) (spec : Option (List Char)) :
    Except String Apertures :=
  match spec with
  | none => invalidRange "too many ranges or missing specification"
  | some spec =>
      if MAX_RANGES ≤ s.ranges.length then invalidRange "too many ranges or missing specification"
      else do
        let r ← (tokens spec).foldlM setField {}
        if r.malformed abiMax then invalidRange "missing name, empty size, or address overflow"
        else do
          let r ← scanRanges r s.ranges
          let (r, attached) := attachClient host s.attached r
          if r.vcpuId ≠ 0 then
            invalidRange "user-mode mailboxes use CPU indices; vcpu_id must be zero"
          else match r.client with
            | none => invalidRange "cannot attach shared memory or invalid vCPU index"
            | some c =>
                if host.vcpuCount c = 0 ∨
                    (host.vcpuCount c).toNat > IrqMailbox.QUETZ_MAX_MMIO_VCORES then
                  invalidRange "cannot attach shared memory or invalid vCPU index"
                else .ok { ranges := s.ranges ++ [r], attached }

/-- The registrations of a command line. -/
def registerAll (host : IpcHost) (abiMax : UInt64) (s : Apertures)
    (specs : List (Option (List Char))) : Except String Apertures :=
  specs.foldlM (registerRange host abiMax) s

/-- `find_range`. -/
def Apertures.findRange (s : Apertures) (addr : UInt64) : Option SstMmioRange :=
  s.ranges.find? fun r => r.covers addr

/-! ### What a range covers -/

section

variable {r r' old : SstMmioRange} {addr abiMax : UInt64}

/-- The comparison does not wrap. -/
theorem SstMmioRange.covers_iff :
    r.covers addr = true ↔
      r.base.toNat ≤ addr.toNat ∧ addr.toNat < r.base.toNat + r.size.toNat := by
  rw [SstMmioRange.covers, Bool.and_eq_true, decide_eq_true_iff, decide_eq_true_iff, ge_iff_le,
    UInt64.le_iff_toNat_le, UInt64.lt_iff_toNat_lt]
  refine and_congr_right fun hle => ?_
  rw [UInt64.toNat_sub_of_le _ _ (UInt64.le_iff_toNat_le.mpr hle)]
  omega

/-- No address is in both ranges. -/
def SstMmioRange.Apart (r r' : SstMmioRange) : Prop :=
  ∀ addr, ¬ (r.covers addr = true ∧ r'.covers addr = true)

/-- The test of the loop, for ranges that are not empty. -/
theorem SstMmioRange.apart_iff (hr : r.size ≠ 0) (hold : old.size ≠ 0) :
    old.Apart r ↔ (old.covers r.base || r.covers old.base) = false := by
  have hr' : 0 < r.size.toNat := Nat.pos_of_ne_zero fun h => hr (UInt64.toNat_inj.mp h)
  have hold' : 0 < old.size.toNat := Nat.pos_of_ne_zero fun h => hold (UInt64.toNat_inj.mp h)
  have hself : ∀ q : SstMmioRange, 0 < q.size.toNat → q.covers q.base = true := fun q hq =>
    covers_iff.mpr ⟨le_refl _, by omega⟩
  rw [Bool.or_eq_false_iff]
  constructor
  · intro h
    exact ⟨Bool.eq_false_iff.mpr fun hc => h _ ⟨hc, hself r hr'⟩,
      Bool.eq_false_iff.mpr fun hc => h _ ⟨hself old hold', hc⟩⟩
  · rintro ⟨h₁, h₂⟩ addr ⟨hin, hin'⟩
    rw [Bool.eq_false_iff, ne_eq, covers_iff] at h₁ h₂
    rw [covers_iff] at hin hin'
    omega

/-- A range that is well formed lies in the address space and is not all of it. -/
theorem SstMmioRange.malformed_eq_false_iff :
    r.malformed abiMax = false ↔
      r.shmname ≠ [] ∧ r.size ≠ 0 ∧ r.size.toNat ≤ abiMax.toNat ∧
        r.base.toNat + r.size.toNat ≤ abiMax.toNat + 1 := by
  have hpos : r.size ≠ 0 → 1 ≤ r.size.toNat := fun h =>
    Nat.pos_of_ne_zero fun h' => h (UInt64.toNat_inj.mp h')
  simp only [SstMmioRange.malformed, Bool.or_eq_false_iff, decide_eq_false_iff_not, gt_iff_lt,
    UInt64.lt_iff_toNat_lt, not_lt, List.isEmpty_eq_false_iff, and_assoc, ne_eq]
  refine and_congr_right fun _ => and_congr_right fun hsize => ?_
  have hone : (1 : UInt64) ≤ r.size := UInt64.le_iff_toNat_le.mpr (hpos hsize)
  have hsub : (r.size - 1).toNat = r.size.toNat - 1 := UInt64.toNat_sub_of_le _ _ hone
  have := hpos hsize
  constructor
  · rintro ⟨hbase, hle, hend⟩
    rw [hsub, UInt64.toNat_sub_of_le _ _ (UInt64.le_iff_toNat_le.mpr hbase)] at hend
    exact ⟨hle, by omega⟩
  · rintro ⟨hle, hend⟩
    have hbase : r.base.toNat ≤ abiMax.toNat := by omega
    refine ⟨hbase, hle, ?_⟩
    rw [hsub, UInt64.toNat_sub_of_le _ _ (UInt64.le_iff_toNat_le.mpr hbase)]
    omega

end

/-! ### One registration -/

section

variable {host : IpcHost} {abiMax : UInt64} {s s' : Apertures} {spec : Option (List Char)}
  {r r' : SstMmioRange} {l : List SstMmioRange} {attached : List (List Char)} {tok : List Char}
  {toks : List (List Char)}

/-- What the loop over the ranges before returns: the range with the client of its name. -/
theorem scanRanges_eq_ok (h : scanRanges r l = .ok r') :
    (∀ old ∈ l, (old.covers r.base || r.covers old.base) = false) ∧
      ∃ c, r' = { r with client := c } ∧
        ((c = r.client ∧ ∀ old ∈ l, old.shmname ≠ r.shmname) ∨
          ∃ old ∈ l, old.shmname = r.shmname ∧ c = old.client) := by
  induction l generalizing r with
  | nil =>
      obtain rfl := Except.ok.inj h
      exact ⟨by simp, r.client, rfl, .inl ⟨rfl, by simp⟩⟩
  | cons old rest ih =>
      rw [scanRanges] at h
      split at h
      · exact absurd h (by rintro ⟨⟩)
      rename_i hover
      have hover := Bool.eq_false_iff.mpr hover
      by_cases hname : old.shmname = r.shmname
      · rw [if_pos hname] at h
        obtain ⟨hrest, c, rfl, hc⟩ := ih h
        refine ⟨List.forall_mem_cons.mpr ⟨hover, hrest⟩, c, rfl, .inr ?_⟩
        obtain ⟨rfl, -⟩ | ⟨q, hq, hqname, rfl⟩ := hc
        · exact ⟨old, List.mem_cons_self, hname, rfl⟩
        · exact ⟨q, List.mem_cons_of_mem _ hq, hqname, rfl⟩
      · rw [if_neg hname] at h
        obtain ⟨hrest, c, rfl, hc⟩ := ih h
        refine ⟨List.forall_mem_cons.mpr ⟨hover, hrest⟩, c, rfl, ?_⟩
        obtain ⟨rfl, hnames⟩ | ⟨q, hq, hqname, rfl⟩ := hc
        · exact .inl ⟨rfl, List.forall_mem_cons.mpr ⟨hname, hnames⟩⟩
        · exact .inr ⟨q, List.mem_cons_of_mem _ hq, hqname, rfl⟩

/-- The loop fails only for an overlap. -/
theorem scanRanges_of_apart (h : ∀ old ∈ l, (old.covers r.base || r.covers old.base) = false) :
    ∃ r', scanRanges r l = .ok r' := by
  induction l generalizing r with
  | nil => exact ⟨r, rfl⟩
  | cons old rest ih =>
      obtain ⟨hold, hrest⟩ := List.forall_mem_cons.mp h
      rw [scanRanges, hold, if_neg Bool.false_ne_true]
      split
      · exact ih hrest
      · exact ih hrest

/-- No field of a specification is the client. -/
theorem setField_client (h : setField r tok = .ok r') : r'.client = r.client := by
  rw [setField] at h
  split at h
  · split at h
    · exact absurd h (by rintro ⟨⟩)
    · rw [← Except.ok.inj h]
  split at h
  · obtain ⟨n, -, hn⟩ := bind_eq_ok_iff.mp h
    rw [← Except.ok.inj hn]
  split at h
  · obtain ⟨n, -, hn⟩ := bind_eq_ok_iff.mp h
    rw [← Except.ok.inj hn]
  split at h
  · obtain ⟨n, -, hn⟩ := bind_eq_ok_iff.mp h
    split at hn
    · exact absurd hn (by rintro ⟨⟩)
    · rw [← Except.ok.inj hn]
  · exact absurd h (by rintro ⟨⟩)

theorem setFields_client (h : toks.foldlM setField r = .ok r') : r'.client = r.client := by
  induction toks generalizing r with
  | nil => rw [Except.ok.inj h]
  | cons tok toks ih =>
      obtain ⟨q, hq, hrest⟩ := bind_eq_ok_iff.mp h
      rw [ih hrest, setField_client hq]

/-- `r` is the range a specification describes; it says nothing about the client. -/
def Specifies (spec : Option (List Char)) (r : SstMmioRange) : Prop :=
  ∃ text, spec = some text ∧ (tokens text).foldlM setField {} = .ok { r with client := none }

/-- A client that a range may use. -/
def IpcHost.Usable (host : IpcHost) (c : ℕ) : Prop :=
  ¬ (host.vcpuCount c = 0 ∨ (host.vcpuCount c).toNat > IrqMailbox.QUETZ_MAX_MMIO_VCORES)

/-- What holds between two registrations. Every name was attached once, and its client is that of
this call. -/
structure Apertures.Well (host : IpcHost) (abiMax : UInt64) (s : Apertures) : Prop where
  count : s.ranges.length ≤ MAX_RANGES
  inside : ∀ r ∈ s.ranges, r.malformed abiMax = false ∧ r.vcpuId = 0
  apart : s.ranges.Pairwise SstMmioRange.Apart
  names : s.attached.Nodup
  client : ∀ r ∈ s.ranges, ∃ k c, s.attached[k]? = some r.shmname ∧
    host.attach k r.shmname = some c ∧ r.client = some c ∧ host.Usable c
  used : ∀ name ∈ s.attached, ∃ r ∈ s.ranges, r.shmname = name

/-- What a registration does: a range is added that is apart from the others, with the client of
its name, which is attached if the name is new. -/
structure Apertures.Adds (host : IpcHost) (abiMax : UInt64) (s : Apertures)
    (spec : Option (List Char)) (s' : Apertures) (r : SstMmioRange) (c : ℕ) : Prop where
  count : s.ranges.length < MAX_RANGES
  fields : Specifies spec r
  inside : r.malformed abiMax = false ∧ r.vcpuId = 0
  apart : ∀ old ∈ s.ranges, old.Apart r
  client : r.client = some c ∧ host.Usable c
  ranges : s'.ranges = s.ranges ++ [r]
  attached : (∃ old ∈ s.ranges, old.shmname = r.shmname ∧ old.client = some c) ∧
      s'.attached = s.attached ∨
    (∀ old ∈ s.ranges, old.shmname ≠ r.shmname) ∧
      host.attach s.attached.length r.shmname = some c ∧ s'.attached = s.attached ++ [r.shmname]

/-- One name, one client. -/
theorem Apertures.Well.client_eq (h : s.Well host abiMax) (hr : r ∈ s.ranges) (hr' : r' ∈ s.ranges)
    (hname : r.shmname = r'.shmname) : r.client = r'.client := by
  obtain ⟨k, c, hk, hattach, hc, -⟩ := h.client r hr
  obtain ⟨k', c', hk', hattach', hc', -⟩ := h.client r' hr'
  have hkk : k = k' := by
    obtain ⟨hlt, -⟩ := List.getElem?_eq_some_iff.mp hk
    exact (List.getElem?_inj hlt h.names).mp (by rw [hk, hk', hname])
  subst hkk
  rw [hname] at hattach
  rw [hc, hc', Option.some.inj (hattach.symm.trans hattach')]

theorem Apertures.Well.apart_iff (h : s.Well host abiMax) (hr : r.malformed abiMax = false) :
    (∀ old ∈ s.ranges, old.Apart r) ↔
      ∀ old ∈ s.ranges, (old.covers r.base || r.covers old.base) = false := by
  have hsize := (SstMmioRange.malformed_eq_false_iff.mp hr).2.1
  refine forall₂_congr fun old hold => SstMmioRange.apart_iff hsize ?_
  exact (SstMmioRange.malformed_eq_false_iff.mp (h.inside old hold).1).2.1

/-- **Which specifications are accepted, and what is registered.** -/
theorem registerRange_eq_ok_iff (hs : s.Well host abiMax) :
    registerRange host abiMax s spec = .ok s' ↔ ∃ r c, s.Adds host abiMax spec s' r c := by
  constructor
  · intro h
    obtain _ | text := spec
    · exact absurd h (by rintro ⟨⟩)
    rw [registerRange] at h
    split at h
    · exact absurd h (by rintro ⟨⟩)
    rename_i hlen
    obtain ⟨r, hfields, h⟩ := bind_eq_ok_iff.mp h
    have hnone : r.client = none := setFields_client hfields
    split at h
    · exact absurd h (by rintro ⟨⟩)
    rename_i hmal
    have hmal := Bool.eq_false_iff.mpr hmal
    obtain ⟨q, hscan, h⟩ := bind_eq_ok_iff.mp h
    obtain ⟨hover, c₀, rfl, hc₀⟩ := scanRanges_eq_ok hscan
    have hspec : ∀ c, Specifies (some text) { r with client := c } := fun c =>
      ⟨text, rfl, by rw [hfields, ← hnone]⟩
    have hapart := (hs.apart_iff hmal).mpr hover
    obtain ⟨hc, hnames⟩ | ⟨old, hold, hname, hc⟩ := hc₀
    · rw [hc, hnone, attachClient] at h
      simp only at h
      split at h
      · exact absurd h (by rintro ⟨⟩)
      rename_i hcpu
      split at h
      · exact absurd h (by rintro ⟨⟩)
      rename_i c hattach
      split at h
      · exact absurd h (by rintro ⟨⟩)
      rename_i husable
      obtain rfl := Except.ok.inj h
      exact ⟨{ r with client := some c }, c, not_le.mp hlen, hspec _, ⟨hmal, not_not.mp hcpu⟩,
        hapart, ⟨rfl, husable⟩, by rw [← hattach], .inr ⟨hnames, hattach, rfl⟩⟩
    · obtain ⟨k, c, -, -, hclient, -⟩ := hs.client old hold
      rw [hc, hclient, attachClient] at h
      simp only at h
      split at h
      · exact absurd h (by rintro ⟨⟩)
      rename_i hcpu
      split at h
      · exact absurd h (by rintro ⟨⟩)
      rename_i husable
      obtain rfl := Except.ok.inj h
      exact ⟨{ r with client := some c }, c, not_le.mp hlen, hspec _, ⟨hmal, not_not.mp hcpu⟩,
        hapart, ⟨rfl, husable⟩, rfl, .inl ⟨⟨old, hold, hname, hclient⟩, rfl⟩⟩
  · rintro ⟨r, c, h⟩
    obtain ⟨text, rfl, hfields⟩ := h.fields
    obtain ⟨q, hscan⟩ := scanRanges_of_apart (r := { r with client := none })
      ((hs.apart_iff h.inside.1).mp h.apart)
    obtain ⟨-, c₀, rfl, hc₀⟩ := scanRanges_eq_ok hscan
    have hmal : SstMmioRange.malformed abiMax { r with client := none } = false := h.inside.1
    have hs' : s' = ⟨s.ranges ++ [r], s'.attached⟩ := by rw [← h.ranges]
    rw [registerRange, if_neg (not_le.mpr h.count)]
    refine bind_eq_ok_iff.mpr ⟨_, hfields, ?_⟩
    rw [hmal, if_neg Bool.false_ne_true]
    refine bind_eq_ok_iff.mpr ⟨_, hscan, ?_⟩
    have hr : ({ r with client := some c } : SstMmioRange) = r := by rw [← h.client.1]
    obtain ⟨⟨old, hold, hname, hclient⟩, hattached⟩ | ⟨hnames, hattach, hattached⟩ := h.attached
    · have hc : c₀ = some c := by
        obtain ⟨-, hnames⟩ | ⟨old', hold', hname', rfl⟩ := hc₀
        · exact absurd hname (hnames old hold)
        · rw [← hclient]
          exact hs.client_eq hold' hold (hname'.trans hname.symm)
      simp only [hc, attachClient]
      rw [if_neg (not_not.mpr h.inside.2), if_neg h.client.2, hr, hs', hattached]
    · have hc : c₀ = none := by
        obtain ⟨rfl, -⟩ | ⟨old', hold', hname', rfl⟩ := hc₀
        · rfl
        · exact absurd hname' (hnames old' hold')
      simp only [hc, attachClient, hattach]
      rw [if_neg (not_not.mpr h.inside.2), if_neg h.client.2, hr, hs', hattached]

/-- What holds between two registrations holds after the next one. -/
theorem Apertures.Adds.well {c : ℕ} (hs : s.Well host abiMax)
    (h : s.Adds host abiMax spec s' r c) : s'.Well host abiMax := by
  have hold : ∀ {q : SstMmioRange}, q ∈ s'.ranges ↔ q ∈ s.ranges ∨ q = r := by
    intro q
    rw [h.ranges, List.mem_append, List.mem_singleton]
  have hcount : s'.ranges.length ≤ MAX_RANGES := by
    rw [h.ranges, List.length_append, List.length_singleton]
    exact h.count
  have hinside : ∀ q ∈ s'.ranges, q.malformed abiMax = false ∧ q.vcpuId = 0 := by
    rintro q hq
    obtain hq | rfl := hold.mp hq
    · exact hs.inside q hq
    · exact h.inside
  have hapart : s'.ranges.Pairwise SstMmioRange.Apart := by
    rw [h.ranges, List.pairwise_append]
    refine ⟨hs.apart, List.pairwise_singleton _ _, fun q hq q' hq' => ?_⟩
    rw [List.mem_singleton.mp hq']
    exact h.apart q hq
  have hkeep : ∀ q ∈ s.ranges, ∃ k c, s'.attached[k]? = some q.shmname ∧
      host.attach k q.shmname = some c ∧ q.client = some c ∧ host.Usable c := by
    intro q hq
    obtain ⟨k, c, hk, hrest⟩ := hs.client q hq
    refine ⟨k, c, ?_, hrest⟩
    obtain ⟨-, hattached⟩ | ⟨-, -, hattached⟩ := h.attached
    · rw [hattached, hk]
    · rw [hattached, List.getElem?_append_left (List.getElem?_eq_some_iff.mp hk).1, hk]
  refine ⟨hcount, hinside, hapart, ?_, ?_, ?_⟩
  · obtain ⟨-, hattached⟩ | ⟨hnew, -, hattached⟩ := h.attached
    · rw [hattached]
      exact hs.names
    · rw [hattached]
      refine List.nodup_append.mpr ⟨hs.names, List.pairwise_singleton _ _, ?_⟩
      rintro name hmem _ hname rfl
      obtain ⟨q, hq, hqname⟩ := hs.used name hmem
      exact hnew q hq (hqname.trans (List.mem_singleton.mp hname))
  · intro q hq
    obtain hq | rfl := hold.mp hq
    · exact hkeep q hq
    · obtain ⟨⟨old, hmem, hname, hclient⟩, hattached⟩ | ⟨-, hattach, hattached⟩ := h.attached
      · obtain ⟨k, c', hk, hattach, hc', husable⟩ := hkeep old hmem
        rw [hclient] at hc'
        obtain rfl := Option.some.inj hc'
        rw [hname] at hk hattach
        exact ⟨k, c, hk, hattach, h.client⟩
      · refine ⟨s.attached.length, c, ?_, hattach, h.client⟩
        rw [hattached, List.getElem?_append_right (le_refl _), Nat.sub_self]
        rfl
  · intro name hmem
    obtain ⟨-, hattached⟩ | ⟨-, -, hattached⟩ := h.attached
    · rw [hattached] at hmem
      obtain ⟨q, hq, hqname⟩ := hs.used name hmem
      exact ⟨q, hold.mpr (.inl hq), hqname⟩
    · rw [hattached, List.mem_append, List.mem_singleton] at hmem
      obtain hmem | rfl := hmem
      · obtain ⟨q, hq, hqname⟩ := hs.used name hmem
        exact ⟨q, hold.mpr (.inl hq), hqname⟩
      · exact ⟨r, hold.mpr (.inr rfl), rfl⟩

end

/-! ### All registrations -/

section

variable {host : IpcHost} {abiMax : UInt64} {s s' : Apertures} {specs : List (Option (List Char))}

theorem Apertures.well_start : ({} : Apertures).Well host abiMax :=
  ⟨Nat.zero_le _, by simp, .nil, .nil, by simp, by simp⟩

/-- The ranges of a run are those of the specifications, in order. -/
theorem registerAll_well (hs : s.Well host abiMax)
    (h : registerAll host abiMax s specs = .ok s') : s'.Well host abiMax ∧
      ∃ added, s'.ranges = s.ranges ++ added ∧ List.Forall₂ Specifies specs added := by
  induction specs generalizing s with
  | nil =>
      obtain rfl := Except.ok.inj h
      exact ⟨hs, [], (List.append_nil _).symm, .nil⟩
  | cons spec specs ih =>
      obtain ⟨t, hstep, hrest⟩ := bind_eq_ok_iff.mp h
      obtain ⟨r, c, hadds⟩ := (registerRange_eq_ok_iff hs).mp hstep
      obtain ⟨hwell, added, hranges, hall⟩ := ih (hadds.well hs) hrest
      refine ⟨hwell, r :: added, ?_, hall.cons hadds.fields⟩
      rw [hranges, hadds.ranges, List.append_assoc]
      rfl

/-- An address is in at most one range. -/
theorem Apertures.Well.findRange_eq_some_iff (h : s.Well host abiMax) {addr : UInt64}
    {r : SstMmioRange} : s.findRange addr = some r ↔ r ∈ s.ranges ∧ r.covers addr = true :=
  Lookup.find?_eq_some_iff_of_exclusive (h.apart.imp fun hapart => hapart addr)

/-- **The ranges of user mode.** After any registrations that QEMU survives, there are as many
ranges as specifications and at most eight, each with the fields its specification gives; they are
not empty, end inside the address space of the guest and do not overlap, so that the first range
with an address is the only one. Every name was attached once, and all its ranges use this
client. -/
theorem registered_apertures (h : registerAll host abiMax {} specs = .ok s) :
    List.Forall₂ Specifies specs s.ranges ∧ s.ranges.length ≤ MAX_RANGES ∧
      (∀ r ∈ s.ranges, 0 < r.size.toNat ∧
        r.base.toNat + r.size.toNat ≤ abiMax.toNat + 1 ∧ r.vcpuId = 0) ∧
      (∀ addr r, s.findRange addr = some r ↔ r ∈ s.ranges ∧
        r.base.toNat ≤ addr.toNat ∧ addr.toNat < r.base.toNat + r.size.toNat) ∧
      s.ranges.Pairwise (fun r r' => r.base.toNat + r.size.toNat ≤ r'.base.toNat ∨
        r'.base.toNat + r'.size.toNat ≤ r.base.toNat) ∧
      s.attached.Nodup ∧
      ∀ r ∈ s.ranges, ∃ k c, s.attached[k]? = some r.shmname ∧
        host.attach k r.shmname = some c ∧ r.client = some c ∧ 0 < (host.vcpuCount c).toNat ∧
        (host.vcpuCount c).toNat ≤ IrqMailbox.QUETZ_MAX_MMIO_VCORES := by
  obtain ⟨hwell, added, hranges, hall⟩ := registerAll_well Apertures.well_start h
  obtain rfl : added = s.ranges := hranges.symm
  have hinside : ∀ r ∈ s.ranges, 0 < r.size.toNat ∧
      r.base.toNat + r.size.toNat ≤ abiMax.toNat + 1 ∧ r.vcpuId = 0 := by
    intro r hr
    obtain ⟨hmal, hcpu⟩ := hwell.inside r hr
    obtain ⟨-, hsize, -, hend⟩ := SstMmioRange.malformed_eq_false_iff.mp hmal
    exact ⟨Nat.pos_of_ne_zero fun h0 => hsize (UInt64.toNat_inj.mp h0), hend, hcpu⟩
  have hpairs : s.ranges.Pairwise fun r r' => r.base.toNat + r.size.toNat ≤ r'.base.toNat ∨
      r'.base.toNat + r'.size.toNat ≤ r.base.toNat := by
    refine hwell.apart.imp_of_mem fun {r r'} hr hr' hapart => ?_
    have hpos := (hinside r hr).1
    have hpos' := (hinside r' hr').1
    -- an address in both ranges would be the larger one of the bases
    have hbase := hapart r.base
    have hbase' := hapart r'.base
    simp only [SstMmioRange.covers_iff] at hbase hbase'
    omega
  have hclients : ∀ r ∈ s.ranges, ∃ k c, s.attached[k]? = some r.shmname ∧
      host.attach k r.shmname = some c ∧ r.client = some c ∧ 0 < (host.vcpuCount c).toNat ∧
      (host.vcpuCount c).toNat ≤ IrqMailbox.QUETZ_MAX_MMIO_VCORES := by
    intro r hr
    obtain ⟨k, c, hk, hattach, hc, husable⟩ := hwell.client r hr
    obtain ⟨hne, hle⟩ := not_or.mp husable
    exact ⟨k, c, hk, hattach, hc, Nat.pos_of_ne_zero fun h0 => hne (UInt32.toNat_inj.mp h0),
      not_lt.mp hle⟩
  refine ⟨hall, hwell.count, hinside, fun addr r => ?_, hpairs, hwell.names, hclients⟩
  rw [hwell.findRange_eq_some_iff, SstMmioRange.covers_iff]

/-- A host with one client for each call, of two vCPUs. -/
def oneClientEach : IpcHost := ⟨fun n _ => some n, fun _ => 2⟩

/-- Two ranges of one shared memory and one of another. -/
theorem registered_apertures_three :
    ∃ s, registerAll oneClientEach (.ofNat (2 ^ 64 - 1)) {}
        [some "shmname=/a,base=0x1000,size=0x100".toList,
          some "shmname=/b,base=8192,size=16,vcpu_id=0".toList,
          some "size=0x10,shmname=/a,base=0x1100".toList] = .ok s ∧
      s.ranges.map (·.client) = [some 0, some 1, some 0] ∧
      ∀ r ∈ s.ranges, 0 < r.size.toNat := by
  obtain ⟨s, hs, hclients⟩ : ∃ s, registerAll oneClientEach (.ofNat (2 ^ 64 - 1)) {}
      [some "shmname=/a,base=0x1000,size=0x100".toList,
        some "shmname=/b,base=8192,size=16,vcpu_id=0".toList,
        some "size=0x10,shmname=/a,base=0x1100".toList] = .ok s ∧
      s.ranges.map (·.client) = [some 0, some 1, some 0] := ⟨_, rfl, rfl⟩
  exact ⟨s, hs, hclients, fun r hr => ((registered_apertures hs).2.2.1 r hr).1⟩

end

end Quetz.UserMode
