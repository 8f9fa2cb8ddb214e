import Mathlib.Data.Nat.Bitwise
import Mathlib.Data.UInt
import Mathlib.Data.Nat.ModEq
import Mathlib.Logic.Function.Basic
import Mathlib.Order.CompletePartialOrder
import Mathlib.Order.Interval.Set.Disjoint

/-!
# Registration of Native RAM

The native RAM of `include/quetz/quetz_ipc_types.h`: up to two regions of guest memory are backed
by the storage at the end of the shared structure. `quetz_configure_native_regions` gives each
region an offset from the start of the structure, and both processes check the descriptors before
they use them.

The structure is mapped at different addresses in the two processes. An offset is chosen so that
the region is aligned to 64 KiB where it was allocated; other mappings agree with this one in the
offset inside a page only. The storage has one byte less than three blocks, so two aligned blocks
fit at every address.

The model keeps the fields of the shared structure that these functions use, for a host with
64-bit addresses.

## Main results

* `storageOffset_bounds`: the first aligned block starts at most 65535 bytes into the storage.
* `quetzNativeRegionsValid_configured`: when the descriptors that were given offsets are valid.
* `quetzNativeRegionsValid_congr`: the verdict does not depend on the mapping.
-/

namespace Quetz

/-! ### The shared structure -/

def maxNativeRegions : ℕ := 2

def nativeRegionBytes : ℕ := 65536

structure QuetzNativeRamRegion where
  base : UInt32 := 0
  size : UInt32 := 0
  offset : UInt32 := 0
  reserved : UInt32 := 0
deriving DecidableEq, Repr

/-- The fields of the shared structure that describe native RAM; `nativeRegions` has two entries. -/
structure QuetzSharedData where
  nativeRegionCount : UInt32 := 0
  nativeRegions : ℕ → QuetzNativeRamRegion := fun _ => {}

/-- The offset of `native_ram_storage` in the structure, the sizes of the fields before it:
`numCores`, `simTime` and `simCycles`, `child_attached` with its padding, the response slots, the
mailbox requests, the interrupt slots, `irq_generation` with its padding, the reset epochs and the
descriptors with their number. -/
def nativeRamOffset : ℕ :=
  8 + 2 * 8 + 2 * 4 + 256 * 16 + 256 * 32 + 256 * 64 * 8 + 2 * 4 + 256 * 4 + 4 + 2 * 16

/-- The size of `native_ram_storage`. -/
def nativeRamBytes : ℕ := (maxNativeRegions + 1) * nativeRegionBytes - 1

/-! ### The functions of the header -/

/-- The checks of one descriptor; `shared` is the address of the structure. -/
def nativeRegionValid (shared : UInt64) (a : QuetzNativeRamRegion) : Bool :=
  let first : UInt64 := .ofNat nativeRamOffset
  let last : UInt64 := first + .ofNat nativeRamBytes
  !(a.size == 0 || decide (a.size > .ofNat nativeRegionBytes) || a.base &&& 4095 != 0 ||
    a.size &&& 4095 != 0 || decide (a.base.toUInt64 + a.size.toUInt64 > 0x100000000) ||
    decide (a.offset.toUInt64 < first) || decide (a.offset.toUInt64 > last - a.size.toUInt64) ||
    a.reserved != 0 || (shared + a.offset.toUInt64) &&& 4095 != 0)

/-- Two descriptors overlap in the guest's addresses or in the storage. -/
def nativeRegionsOverlap (a b : QuetzNativeRamRegion) : Bool :=
  (decide (a.base.toUInt64 < b.base.toUInt64 + b.size.toUInt64) &&
      decide (b.base.toUInt64 < a.base.toUInt64 + a.size.toUInt64)) ||
    (decide (a.offset < b.offset + b.size) && decide (b.offset < a.offset + a.size))

def quetzNativeRegionsValid (shared : UInt64) (d : QuetzSharedData) : Bool :=
  decide (d.nativeRegionCount.toNat ≤ maxNativeRegions) &&
    (List.range d.nativeRegionCount.toNat).all fun i =>
      nativeRegionValid shared (d.nativeRegions i) &&
        (List.range i).all fun j => !nativeRegionsOverlap (d.nativeRegions i) (d.nativeRegions j)

/-- The address of a region, if the descriptors are valid. -/
def quetzNativeRam (shared : UInt64) (d : QuetzSharedData) (region : UInt32) : Option UInt64 :=
  if region ≥ d.nativeRegionCount ∨ !quetzNativeRegionsValid shared d then none
  else some (shared + (d.nativeRegions region.toNat).offset.toUInt64)

/-- The address of the first aligned block of the storage. -/
def firstBlock (shared : UInt64) : UInt64 :=
  (shared + .ofNat nativeRamOffset + .ofNat nativeRegionBytes - 1) &&&
    ~~~(.ofNat nativeRegionBytes - 1)

/-- The descriptor that is stored for the region `i`. -/
def placed (shared : UInt64) (a : QuetzNativeRamRegion) (i : ℕ) : QuetzNativeRamRegion :=
  { a with
    offset := (firstBlock shared - shared).toUInt32 + .ofNat i * .ofNat nativeRegionBytes
    reserved := 0 }

/-- Register `count` regions; `regions` is the array, or `none` for a null pointer. -/
def quetzConfigureNativeRegions (shared : UInt64) (d : QuetzSharedData)
    (regions : Option (ℕ → QuetzNativeRamRegion)) (count : UInt32) : Bool × QuetzSharedData :=
  if count.toNat > maxNativeRegions ∨ (count ≠ 0 ∧ regions.isNone) then (false, d)
  else
    let regions := regions.getD fun _ => {}
    let d := { d with nativeRegionCount := count }
    let d := (List.range count.toNat).foldl (fun d i => { d with
      nativeRegions := Function.update d.nativeRegions i (placed shared (regions i) i) }) d
    if quetzNativeRegionsValid shared d then (true, d)
    else (false, { d with nativeRegionCount := 0 })

example : nativeRamOffset = 144460 := rfl

/-! ### The checks in numbers -/

namespace QuetzNativeRamRegion

/-- The guest addresses of a region. -/
def guest (a : QuetzNativeRamRegion) : Set ℕ :=
  Set.Ico a.base.toNat (a.base.toNat + a.size.toNat)

/-- The bytes of the shared structure behind a region. -/
def storage (a : QuetzNativeRamRegion) : Set ℕ :=
  Set.Ico a.offset.toNat (a.offset.toNat + a.size.toNat)

/-- A region that may be registered. -/
structure Admissible (a : QuetzNativeRamRegion) : Prop where
  nonempty : 0 < a.size.toNat
  size_le : a.size.toNat ≤ nativeRegionBytes
  base_aligned : 4096 ∣ a.base.toNat
  size_aligned : 4096 ∣ a.size.toNat
  below : a.base.toNat + a.size.toNat ≤ 2 ^ 32

/-- The region has a place in the storage that is aligned to pages at the address `shared`. -/
structure Stored (shared : UInt64) (a : QuetzNativeRamRegion) : Prop where
  first_le : nativeRamOffset ≤ a.offset.toNat
  le_last : a.offset.toNat + a.size.toNat ≤ nativeRamOffset + nativeRamBytes
  page_aligned : 4096 ∣ shared.toNat + a.offset.toNat
  reserved : a.reserved = 0

end QuetzNativeRamRegion

section

variable {shared shared' : UInt64} {a b : QuetzNativeRamRegion} {d : QuetzSharedData}

/-- The low twelve bits of a word are its residue modulo 4096. -/
theorem and_page_eq_zero (x : UInt32) : x &&& 4095 = 0 ↔ 4096 ∣ x.toNat := by
  rw [← UInt32.toNat_inj, UInt32.toNat_and, Nat.dvd_iff_mod_eq_zero]
  exact iff_of_eq (congrArg (· = 0) (Nat.and_two_pow_sub_one_eq_mod x.toNat 12))

/-- The offset of an address in its page; a sum that wraps keeps it. -/
theorem add_and_page_eq_zero (x y : UInt64) :
    (x + y) &&& 4095 = 0 ↔ 4096 ∣ x.toNat + y.toNat := by
  have hand : ((x + y) &&& 4095).toNat = (x.toNat + y.toNat) % 4096 := by
    rw [UInt64.toNat_and, UInt64.toNat_add]
    exact (Nat.and_two_pow_sub_one_eq_mod _ 12).trans (Nat.mod_mod_of_dvd _ ⟨2 ^ 52, rfl⟩)
  rw [← UInt64.toNat_inj, hand, Nat.dvd_iff_mod_eq_zero]
  rfl

/-- A sum of two words fits in a long one. -/
theorem toNat_add_toUInt64 (x y : UInt32) :
    (x.toUInt64 + y.toUInt64).toNat = x.toNat + y.toNat := by
  have hx := x.toNat_lt
  have hy := y.toNat_lt
  rw [UInt64.toNat_add, UInt32.toNat_toUInt64, UInt32.toNat_toUInt64]
  omega

/-- The last offset at which a region still ends in the storage. -/
theorem toNat_last (h : a.size.toNat ≤ nativeRegionBytes) :
    (UInt64.ofNat nativeRamOffset + .ofNat nativeRamBytes - a.size.toUInt64).toNat =
      nativeRamOffset + nativeRamBytes - a.size.toNat := by
  have hend : UInt64.ofNat nativeRamOffset + .ofNat nativeRamBytes =
    .ofNat (nativeRamOffset + nativeRamBytes) := rfl
  have hle : a.size.toUInt64 ≤ UInt64.ofNat (nativeRamOffset + nativeRamBytes) := by
    rw [UInt64.le_iff_toNat_le, UInt32.toNat_toUInt64]
    exact h.trans (by decide)
  rw [hend, UInt64.toNat_sub_of_le _ _ hle, UInt32.toNat_toUInt64]
  rfl

/-- What the checks of a descriptor say. -/
theorem nativeRegionValid_iff :
    nativeRegionValid shared a = true ↔ a.Admissible ∧ a.Stored shared := by
  have hbytes : (UInt32.ofNat nativeRegionBytes).toNat = nativeRegionBytes := rfl
  have hfirst : (UInt64.ofNat nativeRamOffset).toNat = nativeRamOffset := rfl
  have hlimit : (4294967296 : UInt64).toNat = 2 ^ 32 := rfl
  have hzero : a.size ≠ 0 ↔ 0 < a.size.toNat := by
    rw [Nat.pos_iff_ne_zero, Ne, ← UInt32.toNat_inj]
    rfl
  rw [nativeRegionValid]
  simp only [Bool.not_eq_true', Bool.or_eq_false_iff, decide_eq_false_iff_not, bne_eq_false_iff_eq,
    beq_eq_false_iff_ne, and_page_eq_zero, add_and_page_eq_zero, gt_iff_lt, UInt32.lt_iff_toNat_lt,
    UInt64.lt_iff_toNat_lt, toNat_add_toUInt64, UInt32.toNat_toUInt64, Nat.not_lt, hbytes, hfirst,
    hlimit, hzero]
  constructor
  · rintro ⟨⟨⟨⟨⟨⟨⟨⟨hpos, hsize⟩, hbase⟩, hpages⟩, hbelow⟩, hge⟩, hle⟩, hreserved⟩, hpage⟩
    rw [toNat_last hsize] at hle
    refine ⟨⟨hpos, hsize, hbase, hpages, hbelow⟩, hge, ?_, hpage, hreserved⟩
    have : a.size.toNat ≤ nativeRamOffset + nativeRamBytes := hsize.trans (by decide)
    omega
  · rintro ⟨⟨hpos, hsize, hbase, hpages, hbelow⟩, hge, hle, hpage, hreserved⟩
    refine ⟨⟨⟨⟨⟨⟨⟨⟨hpos, hsize⟩, hbase⟩, hpages⟩, hbelow⟩, hge⟩, ?_⟩, hreserved⟩, hpage⟩
    rw [toNat_last hsize]
    omega

/-- What the comparison of two descriptors says, if both are valid. -/
theorem nativeRegionsOverlap_eq_false_iff (ha : a.Admissible ∧ a.Stored shared)
    (hb : b.Admissible ∧ b.Stored shared) :
    nativeRegionsOverlap a b = false ↔
      Disjoint a.guest b.guest ∧ Disjoint a.storage b.storage := by
  have hbound {c : QuetzNativeRamRegion} (hc : c.Admissible ∧ c.Stored shared) :
      (c.offset + c.size).toNat = c.offset.toNat + c.size.toNat := by
    have hlast := hc.2.le_last
    rw [UInt32.toNat_add]
    refine Nat.mod_eq_of_lt (Nat.lt_of_le_of_lt hlast ?_)
    decide
  have hapos := ha.1.nonempty
  have hbpos := hb.1.nonempty
  rw [nativeRegionsOverlap]
  simp only [Bool.or_eq_false_iff, Bool.and_eq_false_iff, decide_eq_false_iff_not,
    UInt32.lt_iff_toNat_lt, UInt64.lt_iff_toNat_lt, toNat_add_toUInt64, UInt32.toNat_toUInt64,
    hbound ha, hbound hb, QuetzNativeRamRegion.guest, QuetzNativeRamRegion.storage,
    Set.Ico_disjoint_Ico, min_le_iff, le_max_iff]
  omega

/-- What the checks of all descriptors say. -/
theorem quetzNativeRegionsValid_iff :
    quetzNativeRegionsValid shared d = true ↔ d.nativeRegionCount.toNat ≤ maxNativeRegions ∧
      ∀ i < d.nativeRegionCount.toNat,
        ((d.nativeRegions i).Admissible ∧ (d.nativeRegions i).Stored shared) ∧
          ∀ j < i, Disjoint (d.nativeRegions i).guest (d.nativeRegions j).guest ∧
            Disjoint (d.nativeRegions i).storage (d.nativeRegions j).storage := by
  simp only [quetzNativeRegionsValid, Bool.and_eq_true, decide_eq_true_eq, List.all_eq_true,
    List.mem_range, Bool.not_eq_true', nativeRegionValid_iff]
  refine and_congr_right fun _ => ⟨fun h i hi => ⟨(h i hi).1, fun j hj => ?_⟩,
    fun h i hi => ⟨(h i hi).1, fun j hj => ?_⟩⟩
  · exact (nativeRegionsOverlap_eq_false_iff (h i hi).1 (h j (hj.trans hi)).1).mp ((h i hi).2 j hj)
  · exact (nativeRegionsOverlap_eq_false_iff (h i hi).1 (h j (hj.trans hi)).1).mpr ((h i hi).2 j hj)

/-- Two mappings that agree inside a page place the regions alike. -/
theorem QuetzNativeRamRegion.Stored.congr (hpage : shared'.toNat ≡ shared.toNat [MOD 4096]) :
    a.Stored shared ↔ a.Stored shared' := by
  have hmod : 4096 ∣ shared.toNat + a.offset.toNat ↔ 4096 ∣ shared'.toNat + a.offset.toNat := by
    rw [Nat.ModEq] at hpage
    omega
  exact ⟨fun h => ⟨h.first_le, h.le_last, hmod.mp h.page_aligned, h.reserved⟩,
    fun h => ⟨h.first_le, h.le_last, hmod.mpr h.page_aligned, h.reserved⟩⟩

/-- **The verdict does not depend on the mapping**, as far as it agrees inside a page. -/
theorem quetzNativeRegionsValid_congr (hpage : shared'.toNat ≡ shared.toNat [MOD 4096])
    (d : QuetzSharedData) :
    quetzNativeRegionsValid shared' d = quetzNativeRegionsValid shared d := by
  rw [Bool.eq_iff_iff, quetzNativeRegionsValid_iff, quetzNativeRegionsValid_iff]
  simp only [QuetzNativeRamRegion.Stored.congr hpage]

/-- The offset of a region is the same in every mapping. -/
theorem quetzNativeRam_sub (hpage : shared'.toNat ≡ shared.toNat [MOD 4096])
    (d : QuetzSharedData) (region : UInt32) :
    (quetzNativeRam shared' d region).map (· - shared') =
      (quetzNativeRam shared d region).map (· - shared) := by
  rw [quetzNativeRam, quetzNativeRam, quetzNativeRegionsValid_congr hpage]
  split_ifs with h
  · rfl
  · rw [Option.map_some, Option.map_some, add_sub_cancel_left, add_sub_cancel_left]

/-! ### The offsets that registration gives -/

/-- The offset of the first aligned block. -/
def storageOffset (shared : UInt64) : UInt32 := (firstBlock shared - shared).toUInt32

/-- Clearing the bits of a mask takes them away. -/
theorem and_not_eq_sub (x m : UInt64) : x &&& ~~~m = x - (x &&& m) := by
  have hdisjoint : (x &&& ~~~m).toBitVec &&& (x &&& m).toBitVec = 0 := by
    ext i hi
    cases hm : m.toBitVec[i] <;> simp [hm]
  have hunion : (x &&& ~~~m).toBitVec ||| (x &&& m).toBitVec = x.toBitVec := by
    ext i hi
    cases hm : m.toBitVec[i] <;> simp [hm]
  refine eq_sub_of_add_eq (UInt64.toBitVec_inj.mp ?_)
  rw [UInt64.toBitVec_add, BitVec.add_eq_or_of_and_eq_zero _ _ hdisjoint, hunion]

/-- The first aligned block is less than a block away from the start of the storage. -/
theorem storageOffset_eq (shared : UInt64) : (storageOffset shared).toNat =
    nativeRamOffset + (nativeRegionBytes - 1) -
      (shared.toNat + nativeRamOffset + (nativeRegionBytes - 1)) % nativeRegionBytes := by
  have hsum : UInt64.ofNat nativeRamOffset + .ofNat nativeRegionBytes - 1 = 209995 := rfl
  have hmask : UInt64.ofNat nativeRegionBytes - 1 = 65535 := rfl
  have htotal : (209995 : UInt64).toNat = 209995 := rfl
  have hnat : nativeRamOffset + (nativeRegionBytes - 1) = 209995 := rfl
  have hrest : ((shared + 209995) &&& 65535).toNat = (shared.toNat + 209995) % 65536 := by
    rw [UInt64.toNat_and, UInt64.toNat_add, htotal]
    exact (Nat.and_two_pow_sub_one_eq_mod _ 16).trans (Nat.mod_mod_of_dvd _ ⟨2 ^ 48, rfl⟩)
  have hsub : firstBlock shared - shared = 209995 - ((shared + 209995) &&& 65535) := by
    rw [firstBlock, hmask, and_not_eq_sub, add_assoc shared, add_sub_assoc shared, hsum,
      sub_right_comm, add_sub_cancel_left]
  have hle : shared + 209995 &&& 65535 ≤ (209995 : UInt64) := by
    rw [UInt64.le_iff_toNat_le, hrest, htotal]
    omega
  rw [storageOffset, UInt64.toNat_toUInt32, hsub, UInt64.toNat_sub_of_le _ _ hle, hrest, htotal,
    Nat.add_assoc, hnat, nativeRegionBytes]
  omega

/-- **The first aligned block** starts at most 65535 bytes into the storage. -/
theorem storageOffset_bounds (shared : UInt64) :
    nativeRamOffset ≤ (storageOffset shared).toNat ∧
      (storageOffset shared).toNat ≤ nativeRamOffset + (nativeRegionBytes - 1) ∧
      nativeRegionBytes ∣ shared.toNat + (storageOffset shared).toNat := by
  have heq := storageOffset_eq shared
  have hbytes : nativeRegionBytes = 65536 := rfl
  rw [hbytes] at heq ⊢
  omega

@[simp] theorem placed_base (shared : UInt64) (a : QuetzNativeRamRegion) (i : ℕ) :
    (placed shared a i).base = a.base := by rw [placed]

@[simp] theorem placed_size (shared : UInt64) (a : QuetzNativeRamRegion) (i : ℕ) :
    (placed shared a i).size = a.size := by rw [placed]

@[simp] theorem placed_reserved (shared : UInt64) (a : QuetzNativeRamRegion) (i : ℕ) :
    (placed shared a i).reserved = 0 := by rw [placed]

/-- A region keeps its guest addresses. -/
@[simp] theorem placed_guest (shared : UInt64) (a : QuetzNativeRamRegion) (i : ℕ) :
    (placed shared a i).guest = a.guest := by
  rw [QuetzNativeRamRegion.guest, QuetzNativeRamRegion.guest, placed_base, placed_size]

@[simp] theorem placed_admissible_iff {i : ℕ} :
    (placed shared a i).Admissible ↔ a.Admissible := by
  constructor
  · rintro ⟨hpos, hsize, hbase, hpages, hbelow⟩
    rw [placed_size] at hpos hsize hpages hbelow
    rw [placed_base] at hbase hbelow
    exact ⟨hpos, hsize, hbase, hpages, hbelow⟩
  · rintro ⟨hpos, hsize, hbase, hpages, hbelow⟩
    constructor
    all_goals simpa only [placed_size, placed_base]

/-- The second block follows the first one. -/
theorem toNat_placed_offset (shared : UInt64) (a : QuetzNativeRamRegion) {i : ℕ}
    (hi : i < maxNativeRegions) : (placed shared a i).offset.toNat =
      (storageOffset shared).toNat + i * nativeRegionBytes := by
  have hle := (storageOffset_bounds shared).2.1
  have hoffset : (placed shared a i).offset =
      storageOffset shared + .ofNat i * .ofNat nativeRegionBytes := by
    rw [placed, storageOffset]
  have hnat : nativeRamOffset + (nativeRegionBytes - 1) = 209995 := rfl
  have hregions : maxNativeRegions = 2 := rfl
  have hblock : (UInt32.ofNat i * .ofNat nativeRegionBytes).toNat = i * 65536 := by
    rw [UInt32.toNat_mul, UInt32.toNat_ofNat', UInt32.toNat_ofNat', nativeRegionBytes]
    omega
  rw [hoffset, UInt32.toNat_add, hblock, nativeRegionBytes]
  omega

/-- A region that may be registered has its place in the storage. -/
theorem placed_stored {i : ℕ} (hi : i < maxNativeRegions) (ha : a.Admissible) :
    (placed shared a i).Stored shared := by
  obtain ⟨hfirst, hle, haligned⟩ := storageOffset_bounds shared
  have hoffset := toNat_placed_offset shared a hi
  have hsize := ha.size_le
  have hnat : nativeRamOffset + (nativeRegionBytes - 1) = 209995 := rfl
  have hend : nativeRamOffset + nativeRamBytes = 341067 := rfl
  have hregions : maxNativeRegions = 2 := rfl
  rw [nativeRegionBytes] at hoffset hsize haligned
  refine ⟨?_, ?_, ?_, placed_reserved ..⟩
  · omega
  · rw [hoffset, hend, placed_size]
    omega
  · rw [hoffset]
    omega

/-- Two regions get different blocks. -/
theorem placed_disjoint {i j : ℕ} (hi : i < maxNativeRegions) (hij : j < i)
    (hb : b.Admissible) : Disjoint (placed shared a i).storage (placed shared b j).storage := by
  have hsize := hb.size_le
  rw [nativeRegionBytes] at hsize
  rw [QuetzNativeRamRegion.storage, QuetzNativeRamRegion.storage, Set.Ico_disjoint_Ico,
    toNat_placed_offset shared a hi, toNat_placed_offset shared b (hij.trans hi), min_le_iff,
    nativeRegionBytes, placed_size, placed_size]
  right
  refine le_max_of_le_left ?_
  omega

end

/-! ### Registration -/

/-- The list may be registered: at most two regions, each admissible, that do not overlap. -/
structure Registrable (regions : Option (ℕ → QuetzNativeRamRegion)) (count : UInt32) : Prop where
  count_le : count.toNat ≤ maxNativeRegions
  given : count ≠ 0 → regions.isSome = true
  admissible : ∀ i < count.toNat, (regions.getD (fun _ => {}) i).Admissible
  disjoint : ∀ i < count.toNat, ∀ j < i,
    Disjoint (regions.getD (fun _ => {}) i).guest (regions.getD (fun _ => {}) j).guest

/-- The descriptors of a list. -/
def configured (shared : UInt64) (d : QuetzSharedData) (regions : Option (ℕ → QuetzNativeRamRegion))
    (count : UInt32) : QuetzSharedData where
  nativeRegionCount := count
  nativeRegions := fun i =>
    if i < count.toNat then placed shared (regions.getD (fun _ => {}) i) i else d.nativeRegions i

section

variable {shared : UInt64} {d : QuetzSharedData} {regions : Option (ℕ → QuetzNativeRamRegion)}
  {count : UInt32}

/-- The loop that fills in the descriptors. -/
theorem foldl_placed (d : QuetzSharedData) (f : ℕ → QuetzNativeRamRegion) (n : ℕ) :
    (List.range n).foldl (fun d i => { d with
      nativeRegions := Function.update d.nativeRegions i (f i) }) d =
      { d with nativeRegions := fun i => if i < n then f i else d.nativeRegions i } := by
  induction n with
  | zero => rfl
  | succ n ih =>
      rw [List.range_succ, List.foldl_append, ih, List.foldl_cons, List.foldl_nil]
      congr 1
      funext i
      by_cases heq : i = n
      · rw [heq, Function.update_self, if_pos (Nat.lt_succ_self n)]
      · have hlt : i < n + 1 ↔ i < n := by omega
        rw [Function.update_of_ne heq]
        simp only [hlt]

/-- What registration does. -/
theorem quetzConfigureNativeRegions_eq (shared : UInt64) (d : QuetzSharedData)
    (regions : Option (ℕ → QuetzNativeRamRegion)) (count : UInt32) :
    quetzConfigureNativeRegions shared d regions count =
      if count.toNat > maxNativeRegions ∨ (count ≠ 0 ∧ regions.isNone) then (false, d)
      else if quetzNativeRegionsValid shared (configured shared d regions count) then
        (true, configured shared d regions count)
      else (false, { configured shared d regions count with nativeRegionCount := 0 }) := by
  rw [quetzConfigureNativeRegions]
  simp only [foldl_placed]
  rfl

/-- **The descriptors are valid** exactly when the list may be registered. -/
theorem quetzNativeRegionsValid_configured (hcount : count.toNat ≤ maxNativeRegions)
    (hgiven : count ≠ 0 → regions.isSome = true) :
    quetzNativeRegionsValid shared (configured shared d regions count) = true ↔
      Registrable regions count := by
  have hregion {i : ℕ}
    (hi : i < count.toNat) : (configured shared d regions count).nativeRegions i =
    placed shared (regions.getD (fun _ => {}) i) i := if_pos hi
  rw [quetzNativeRegionsValid_iff]
  constructor
  · rintro ⟨-, hvalid⟩
    refine ⟨hcount, hgiven, fun i hi => ?_, fun i hi j hj => ?_⟩
    · obtain ⟨⟨hadmissible, -⟩, -⟩ := hvalid i hi
      rwa [hregion hi, placed_admissible_iff] at hadmissible
    · have hdisjoint := ((hvalid i hi).2 j hj).1
      rwa [hregion hi, hregion (hj.trans hi), placed_guest, placed_guest] at hdisjoint
  · rintro ⟨-, -, hadmissible, hdisjoint⟩
    refine ⟨hcount, fun i hi => ?_⟩
    have hi : i < count.toNat := hi
    rw [hregion hi, placed_admissible_iff]
    refine ⟨⟨hadmissible i hi, placed_stored (hi.trans_le hcount) (hadmissible i hi)⟩,
      fun j hj => ?_⟩
    rw [hregion (hj.trans hi), placed_guest, placed_guest]
    exact ⟨hdisjoint i hi j hj,
      placed_disjoint (hi.trans_le hcount) hj (hadmissible j (hj.trans hi))⟩

/-- A list that may be registered is. -/
theorem quetzConfigureNativeRegions_of_registrable (h : Registrable regions count) :
    quetzConfigureNativeRegions shared d regions count =
      (true, configured shared d regions count) := by
  have hgiven : ¬(count.toNat > maxNativeRegions ∨ (count ≠ 0 ∧ regions.isNone)) := by
    rintro (hlarge | ⟨hne, hnone⟩)
    · exact absurd h.count_le (Nat.not_le.mpr hlarge)
    · exact absurd (h.given hne) (by simpa using hnone)
  rw [quetzConfigureNativeRegions_eq, if_neg hgiven,
    if_pos ((quetzNativeRegionsValid_configured h.count_le h.given).mpr h)]

/-- Any other list is refused: the state stays, or no region is left. -/
theorem quetzConfigureNativeRegions_of_not (h : ¬Registrable regions count) :
    (quetzConfigureNativeRegions shared d regions count).1 = false ∧
      ((quetzConfigureNativeRegions shared d regions count).2 = d ∨
        (quetzConfigureNativeRegions shared d regions count).2.nativeRegionCount = 0) := by
  rw [quetzConfigureNativeRegions_eq]
  split_ifs with hgiven hvalid
  · exact ⟨rfl, .inl rfl⟩
  · obtain ⟨hcount, hsome⟩ := not_or.mp hgiven
    rw [not_and, Bool.not_eq_true, Option.isNone_eq_false_iff] at hsome
    exact absurd ((quetzNativeRegionsValid_configured (Nat.not_lt.mp hcount) hsome).mp hvalid) h
  · exact ⟨rfl, .inr rfl⟩

/-- Registered descriptors are valid. -/
theorem quetzNativeRegionsValid_of_configure {d' : QuetzSharedData}
    (h : quetzConfigureNativeRegions shared d regions count = (true, d')) :
    quetzNativeRegionsValid shared d' = true := by
  by_cases hregistrable : Registrable regions count
  · rw [quetzConfigureNativeRegions_of_registrable hregistrable] at h
    obtain ⟨-, rfl⟩ := Prod.mk.inj h
    exact (quetzNativeRegionsValid_configured hregistrable.count_le hregistrable.given).mpr
      hregistrable
  · have hrefused := (@quetzConfigureNativeRegions_of_not shared d _ _ hregistrable).1
    rw [h] at hrefused
    cases hrefused

end

end Quetz
