import Quetz.NativeRam
import Quetz.WindowCache
import Quetz.Lib.CxxString

/-!
# The Configuration of Native RAM

`parseNativeRegions` of `src/quetz_platform_contract.h`: the parameter `cache_native_regions` is a
list of `base:size` pairs separated by semicolons. The function cuts the string by hand and leaves
the numbers to `std::stoull`; a filter in front of it keeps out white space, signs and whatever else
the library would skip.

A string is the list of its characters. The scanning loop takes fuel; `none` is a loop that has not
ended.

## Main results

* `parseLoop_spec`: what the loop makes of the rest of the string.
* `parseNativeRegions_accepts`: the strings that are accepted, and what is returned for them.
* `parseNativeRegions_registrable`: what is returned may be registered.
* `native_ram_registration`: registration always fits and does not depend on the mapping.
-/

namespace Quetz

open CxxString

/-! ### The parser -/

/-- The characters of a number. -/
def numberChar (c : Char) : Bool := "0123456789abcdefABCDEFxX".toList.contains c

/-- The lambda of the source that reads one number. -/
def number (text : List Char) : Except Exn UInt64 :=
  if text.isEmpty || !text.all numberChar then
    .error (.invalidArgument "invalid native region number")
  else
    match stoull text with
    | .error .invalidArgument => .error (.invalidArgument "stoull")
    | .error .outOfRange => .error (.outOfRange "stoull")
    | .ok (result, used) =>
        if used ≠ text.length then .error (.invalidArgument "invalid native region number")
        else .ok (.ofNat result)

/-- The checks of a region, and the region itself. -/
def pushRegion (regions : List QuetzNativeRamRegion) (base size : UInt64) :
    Except Exn (List QuetzNativeRamRegion) :=
  if size = 0 ∨ size > .ofNat nativeRegionBytes ∨ size &&& 4095 ≠ 0 ∨ base &&& 4095 ≠ 0 ∨
      base ≥ 0x100000000 ∨ size > 0x100000000 - base then
    .error (.invalidArgument
      "native regions require 4-KiB alignment, at most 64 KiB each and 32-bit guest addresses")
  else if regions.any fun region =>
      decide (base < region.base.toUInt64 + region.size.toUInt64) &&
        decide (region.base.toUInt64 < base + size) then
    .error (.invalidArgument "native regions overlap")
  else if regions.length = maxNativeRegions then
    .error (.invalidArgument "at most two native regions are supported")
  else .ok (regions ++ [{ base := base.toUInt32, size := size.toUInt32 }])

/-- The body of the loop for the item that starts at `begin` and ends before `fin`, or at the end
of the string. -/
def parseRegion (value : List Char) (begin : ℕ) (fin : Option ℕ)
    (regions : List QuetzNativeRamRegion) : Except Exn (List QuetzNativeRamRegion) :=
  let item := substr value begin (fin.map (· - begin))
  match find item ':' 0 with
  | none => .error (.invalidArgument
      "cache_native_regions requires base:size pairs separated by semicolons")
  | some colon =>
      if colon = 0 ∨ colon + 1 = item.length ∨ (find item ':' (colon + 1)).isSome then
        .error (.invalidArgument
          "cache_native_regions requires base:size pairs separated by semicolons")
      else do
        let base ← number (substr item 0 (some colon))
        let size ← number (substr item (colon + 1) none)
        pushRegion regions base size

/-- The scanning loop. -/
def parseLoop (value : List Char) :
    ℕ → ℕ → List QuetzNativeRamRegion → Option (Except Exn (List QuetzNativeRamRegion))
  | 0, _, _ => none
  | fuel + 1, begin, regions =>
      if begin < value.length then
        let fin := find value ';' begin
        match parseRegion value begin fin regions with
        | .error e => some (.error e)
        | .ok regions =>
            match fin with
            | none => some (.ok regions)
            | some fin =>
                if fin + 1 = value.length then
                  some (.error (.invalidArgument "empty native region"))
                else parseLoop value fuel (fin + 1) regions
      else some (.ok regions)

/-- Every round starts after the last one, so the loop ends within the length of the string. -/
def parseNativeRegions (value : List Char) : Option (Except Exn (List QuetzNativeRamRegion)) :=
  parseLoop value (value.length + 1) 0 []

example : parseNativeRegions "0x1000:4096;0:0x1000".toList =
    some (.ok [{ base := 4096, size := 4096 }, { base := 0, size := 4096 }]) := by decide

/-! ### The grammar -/

/-- A number of the configuration: a literal of the language that fits in 64 bits. -/
def Number (text : List Char) (v : ℕ) : Prop := UnsignedLiteral text v ∧ v < 2 ^ 64

/-- An item is two numbers with one colon between them. -/
def Item (text : List Char) (region : ℕ × ℕ) : Prop :=
  ∃ base size, text = base ++ ':' :: size ∧ Number base region.1 ∧ Number size region.2

/-- A configuration: nothing, one item, or two with a semicolon between them. -/
inductive NativeRegions : List Char → List (ℕ × ℕ) → Prop
  | none : NativeRegions [] []
  | one {text : List Char} {region : ℕ × ℕ} (h : Item text region) : NativeRegions text [region]
  | two {text₁ text₂ : List Char} {region₁ region₂ : ℕ × ℕ} (h₁ : Item text₁ region₁)
      (h₂ : Item text₂ region₂) : NativeRegions (text₁ ++ ';' :: text₂) [region₁, region₂]

/-- The rules for the base and the size of a region. -/
structure RegionRules (region : ℕ × ℕ) : Prop where
  nonempty : 0 < region.2
  size_le : region.2 ≤ nativeRegionBytes
  base_aligned : 4096 ∣ region.1
  size_aligned : 4096 ∣ region.2
  below : region.1 + region.2 ≤ 2 ^ 32

/-- Two regions have no address in common. -/
def RegionsDisjoint (a b : ℕ × ℕ) : Prop :=
  Disjoint (Set.Ico a.1 (a.1 + a.2)) (Set.Ico b.1 (b.1 + b.2))

/-- The base and the size of a descriptor. -/
def QuetzNativeRamRegion.pair (r : QuetzNativeRamRegion) : ℕ × ℕ := (r.base.toNat, r.size.toNat)

/-! ### Numbers -/

section

variable {text : List Char} {v : ℕ}

theorem numberChar_iff (c : Char) : numberChar c = true ↔ c ∈ "0123456789abcdefABCDEFxX".toList :=
  List.contains_iff_mem

/-- A hexadecimal digit may stand in a number. -/
theorem numberChar_of_isDigit {base : ℕ} {c : Char} (h : isDigit base c = true) :
    numberChar c = true := by
  have hall : ∀ n < 6, numberChar (.ofNat ('a'.toNat + n)) = true ∧
      numberChar (.ofNat ('A'.toNat + n)) = true := by decide
  have hnine : ∀ n < 10, numberChar (.ofNat ('0'.toNat + n)) = true := by decide
  have hfrom {low high : Char} (hc : low ≤ c ∧ c ≤ high) :
      low.toNat ≤ c.toNat ∧ c.toNat ≤ high.toNat ∧
        c = .ofNat (low.toNat + (c.toNat - low.toNat)) := by
    have hlow : low.toNat ≤ c.toNat := hc.1
    refine ⟨hlow, hc.2, ?_⟩
    rw [Nat.add_sub_of_le hlow, Char.ofNat_toNat]
  rw [isDigit, digitValue] at h
  split_ifs at h with h0 ha hA
  · obtain ⟨-, hle, hc⟩ := hfrom h0
    rw [hc]
    exact hnine _ (Nat.sub_lt_left_of_lt_add (hfrom h0).1 (Nat.lt_succ_of_le hle))
  · obtain ⟨-, hle, hc⟩ := hfrom ha
    rw [hc]
    exact (hall _ (Nat.sub_lt_left_of_lt_add (hfrom ha).1 (Nat.lt_succ_of_le hle))).1
  · obtain ⟨-, hle, hc⟩ := hfrom hA
    rw [hc]
    exact (hall _ (Nat.sub_lt_left_of_lt_add (hfrom hA).1 (Nat.lt_succ_of_le hle))).2
  · exact absurd h (by simp)

/-- No separator may. -/
theorem not_numberChar : numberChar ':' = false ∧ numberChar ';' = false := by decide

/-- A character of a number is neither white space nor a sign. -/
theorem isSpace_of_numberChar {c : Char} (h : numberChar c = true) :
    isSpace c = false ∧ c ≠ '+' ∧ c ≠ '-' := by
  have hall : "0123456789abcdefABCDEFxX".toList.all
      (fun c => !isSpace c && c != '+' && c != '-') = true := by decide
  have hc := List.all_eq_true.mp hall c ((numberChar_iff c).mp h)
  simpa only [Bool.and_eq_true, Bool.not_eq_true', bne_iff_ne, and_assoc] using hc

/-- A literal is not empty and has the characters of a number. -/
theorem Number.chars (h : Number text v) : text ≠ [] ∧ text.all numberChar = true := by
  have hdigits {base : ℕ} {ds : List Char} (hds : ds.all (isDigit base) = true) :
      ds.all numberChar = true :=
    List.all_eq_true.mpr fun c hc => numberChar_of_isDigit (List.all_eq_true.mp hds c hc)
  cases h.1 with
  | decimal hd hds => exact ⟨List.cons_ne_nil _ _, hdigits hds⟩
  | octal hds =>
      refine ⟨List.cons_ne_nil _ _, ?_⟩
      rw [List.all_cons, hdigits hds]
      rfl
  | hex hx hne hds =>
      refine ⟨List.cons_ne_nil _ _, ?_⟩
      rw [List.all_cons, List.all_cons, hdigits hds]
      obtain rfl | rfl := hx <;> rfl

/-- **One number is accepted** exactly when it is a literal that fits. -/
theorem number_eq_ok_iff {result : UInt64} :
    number text = .ok result ↔ Number text result.toNat := by
  rw [number]
  by_cases hchars : text ≠ [] ∧ text.all numberChar = true
  swap
  · rw [if_pos (by simpa [imp_iff_not_or] using hchars)]
    exact iff_of_false (by simp) fun h => hchars h.chars
  obtain ⟨hne, hall⟩ := hchars
  have hhead : ∀ c ∈ text.head?, isSpace c = false ∧ c ≠ '+' ∧ c ≠ '-' := by
    intro c hc
    exact isSpace_of_numberChar (List.all_eq_true.mp hall c (List.mem_of_head? hc))
  rw [if_neg (by simpa using ⟨hne, by simpa using hall⟩), Number, ← stoull_eq_ok_iff hhead]
  cases hread : stoull text with
  | error e => cases e <;> exact iff_of_false (by simp) (by simp)
  | ok read =>
      obtain ⟨value, used⟩ := read
      have hlt : used = text.length → value < 2 ^ 64 := by
        rintro rfl
        exact ((stoull_eq_ok_iff hhead).mp hread).2
      simp only [ne_eq, ite_not, Except.ok.injEq, Prod.mk.injEq]
      split_ifs with hused
      · rw [Except.ok.injEq, ← UInt64.toNat_inj, UInt64.toNat_ofNat', Nat.mod_eq_of_lt (hlt hused)]
        exact (and_iff_left hused).symm
      · exact iff_of_false (by simp) fun h => hused h.2

/-- A number has no colon and no semicolon. -/
theorem Number.not_mem (h : Number text v) : ':' ∉ text ∧ ';' ∉ text := by
  have hall := List.all_eq_true.mp h.chars.2
  constructor
  · intro hc
    exact Bool.false_ne_true (not_numberChar.1.symm.trans (hall _ hc))
  · intro hc
    exact Bool.false_ne_true (not_numberChar.2.symm.trans (hall _ hc))

end

/-! ### Items -/

section

variable {text : List Char} {pair : ℕ × ℕ}

theorem Item.not_mem (h : Item text pair) : ';' ∉ text := by
  obtain ⟨base, size, rfl, hbase, hsize⟩ := h
  rw [List.mem_append, List.mem_cons]
  rintro (hc | hc | hc)
  · exact hbase.not_mem.2 hc
  · exact absurd hc (by decide)
  · exact hsize.not_mem.2 hc

theorem Item.ne_nil (h : Item text pair) : text ≠ [] := by
  obtain ⟨base, size, rfl, -, -⟩ := h
  exact List.append_ne_nil_of_right_ne_nil _ (List.cons_ne_nil _ _)

/-- An item is cut at its colon. -/
theorem item_iff : Item text pair ↔ ∃ colon, find text ':' 0 = some colon ∧
    ¬(colon = 0 ∨ colon + 1 = text.length ∨ (find text ':' (colon + 1)).isSome) ∧
      Number (text.take colon) pair.1 ∧ Number (text.drop (colon + 1)) pair.2 := by
  constructor
  · rintro ⟨base, size, rfl, hbase, hsize⟩
    have hdrop : (base ++ ':' :: size).drop (base.length + 1) = size := by
      rw [List.drop_length_add_append]
      rfl
    refine ⟨base.length, ?_, ?_, ?_, ?_⟩
    · rw [find_eq_some (List.drop_zero) hbase.not_mem.1, Nat.zero_add]
    · rintro (hzero | hlast | hsecond)
      · exact hbase.chars.1 (List.eq_nil_of_length_eq_zero hzero)
      · refine hsize.chars.1 (List.eq_nil_of_length_eq_zero ?_)
        rw [List.length_append, List.length_cons] at hlast
        omega
      · rw [find_eq_none_iff.mpr (by rw [hdrop]; exact hsize.not_mem.1)] at hsecond
        exact Bool.false_ne_true hsecond
    · rwa [List.take_left]
    · rwa [hdrop]
  · rintro ⟨colon, hfind, -, hbase, hsize⟩
    obtain ⟨-, -, -, hcut⟩ := eq_append_of_find hfind
    rw [List.drop_zero, Nat.sub_zero] at hcut
    exact ⟨_, _, hcut, hbase, hsize⟩

end

/-! ### One round of the loop -/

/-- The region may follow those that are there already. -/
structure Follows (regions : List QuetzNativeRamRegion) (r : QuetzNativeRamRegion) : Prop where
  rules : RegionRules r.pair
  disjoint : ∀ d ∈ regions, RegionsDisjoint d.pair r.pair
  room : regions.length ≠ maxNativeRegions
  offset : r.offset = 0
  reserved : r.reserved = 0

section

variable {base size : UInt64} {regions out : List QuetzNativeRamRegion}

/-- The limits of the source in numbers. -/
theorem limits_iff : ¬(size = 0 ∨ size > .ofNat nativeRegionBytes ∨ size &&& 4095 ≠ 0 ∨
    base &&& 4095 ≠ 0 ∨ base ≥ 0x100000000 ∨ size > 0x100000000 - base) ↔
      RegionRules (base.toNat, size.toNat) := by
  have hand (x : UInt64) : x &&& 4095 = 0 ↔ 4096 ∣ x.toNat := by
    have h := add_and_page_eq_zero 0 x
    rwa [zero_add, UInt64.toNat_zero, Nat.zero_add] at h
  have hbytes : (UInt64.ofNat nativeRegionBytes).toNat = nativeRegionBytes := rfl
  have hlimit : (4294967296 : UInt64).toNat = 2 ^ 32 := rfl
  have hzero : size ≠ 0 ↔ 0 < size.toNat := by
    rw [Nat.pos_iff_ne_zero, Ne, ← UInt64.toNat_inj]
    rfl
  have hsub (h : base.toNat < 2 ^ 32) :
      ((4294967296 : UInt64) - base).toNat = 2 ^ 32 - base.toNat := by
    rw [UInt64.toNat_sub_of_le, hlimit]
    rw [UInt64.le_iff_toNat_le, hlimit]
    exact h.le
  simp only [not_or, not_not, hand, hzero, gt_iff_lt, ge_iff_le, UInt64.lt_iff_toNat_lt,
    UInt64.le_iff_toNat_le, hbytes, hlimit, Nat.not_lt, Nat.not_le]
  constructor
  · rintro ⟨hpos, hsize, hsizeAligned, hbaseAligned, hbase, hbelow⟩
    rw [hsub hbase] at hbelow
    exact ⟨hpos, hsize, hbaseAligned, hsizeAligned, by omega⟩
  · rintro ⟨hpos, hsize, hbaseAligned, hsizeAligned, hbelow⟩
    have hbase : base.toNat < 2 ^ 32 := by
      have : 0 < size.toNat := hpos
      have : base.toNat + size.toNat ≤ 2 ^ 32 := hbelow
      omega
    refine ⟨hpos, hsize, hsizeAligned, hbaseAligned, hbase, ?_⟩
    rw [hsub hbase]
    have : base.toNat + size.toNat ≤ 2 ^ 32 := hbelow
    omega

/-- The comparison with the regions that are there already. -/
theorem overlap_iff (hregions : ∀ d ∈ regions, RegionRules d.pair)
    (hrules : RegionRules (base.toNat, size.toNat)) :
    ¬(regions.any fun region =>
        decide (base < region.base.toUInt64 + region.size.toUInt64) &&
          decide (region.base.toUInt64 < base + size)) = true ↔
      ∀ d ∈ regions, RegionsDisjoint d.pair (base.toNat, size.toNat) := by
  have hsum : (base + size).toNat = base.toNat + size.toNat := by
    have : base.toNat + size.toNat ≤ 2 ^ 32 := hrules.below
    rw [UInt64.toNat_add]
    omega
  simp only [Bool.not_eq_true, List.any_eq_false, Bool.and_eq_true, decide_eq_true_eq, not_and,
    UInt64.lt_iff_toNat_lt, toNat_add_toUInt64, UInt32.toNat_toUInt64, hsum, Nat.not_lt]
  refine forall_congr' fun d => forall_congr' fun hd => ?_
  have hdpos : 0 < d.size.toNat := (hregions d hd).nonempty
  have hpos : 0 < size.toNat := hrules.nonempty
  rw [RegionsDisjoint, Set.Ico_disjoint_Ico, QuetzNativeRamRegion.pair, min_le_iff, le_max_iff,
    le_max_iff]
  dsimp only
  omega

/-- The narrowing to 32 bits keeps the values. -/
theorem pair_narrow (h : RegionRules (base.toNat, size.toNat)) :
    QuetzNativeRamRegion.pair { base := base.toUInt32, size := size.toUInt32 } =
      (base.toNat, size.toNat) := by
  have hbelow : base.toNat + size.toNat ≤ 2 ^ 32 := h.below
  have hpos : 0 < size.toNat := h.nonempty
  have hsize : size.toNat ≤ 65536 := h.size_le
  rw [QuetzNativeRamRegion.pair, UInt64.toNat_toUInt32, UInt64.toNat_toUInt32,
    Nat.mod_eq_of_lt (by omega), Nat.mod_eq_of_lt (by omega)]

/-- A descriptor without an offset is given by its base and its size. -/
theorem QuetzNativeRamRegion.eq_of_pair {a b : QuetzNativeRamRegion} (h : a.pair = b.pair)
    (hoffset : a.offset = b.offset) (hreserved : a.reserved = b.reserved) : a = b := by
  obtain ⟨hbase, hsize⟩ := Prod.mk.inj h
  cases a
  cases b
  rw [UInt32.toNat_inj] at hbase hsize
  exact QuetzNativeRamRegion.mk.injEq .. ▸ ⟨hbase, hsize, hoffset, hreserved⟩

/-- A region is taken if it may follow the others. -/
theorem pushRegion_eq_ok_iff (hregions : ∀ d ∈ regions, RegionRules d.pair) :
    pushRegion regions base size = .ok out ↔
      ∃ r, r.pair = (base.toNat, size.toNat) ∧ Follows regions r ∧ out = regions ++ [r] := by
  rw [pushRegion]
  split_ifs with hlimits hoverlap hroom
  · refine iff_of_false (by simp) ?_
    rintro ⟨r, hpair, hr, -⟩
    exact absurd hlimits (limits_iff.mpr (hpair ▸ hr.rules))
  · refine iff_of_false (by simp) ?_
    rintro ⟨r, hpair, hr, -⟩
    exact absurd hoverlap ((overlap_iff hregions (hpair ▸ hr.rules)).mpr (hpair ▸ hr.disjoint))
  · exact iff_of_false (by simp) fun ⟨r, _, hr, _⟩ => hr.room hroom
  · have hrules := limits_iff.mp hlimits
    have hpair := pair_narrow hrules
    rw [Except.ok.injEq]
    constructor
    · rintro rfl
      exact ⟨_, hpair, ⟨hpair ▸ hrules, hpair ▸ (overlap_iff hregions hrules).mp hoverlap, hroom,
        rfl, rfl⟩, rfl⟩
    · rintro ⟨r, hr, hfollows, rfl⟩
      rw [QuetzNativeRamRegion.eq_of_pair (hpair.trans hr.symm) hfollows.offset.symm
        hfollows.reserved.symm]

/-- **One round** takes an item whose region may follow the others. -/
theorem parseRegion_eq_ok_iff {value : List Char} {begin : ℕ} {fin : Option ℕ}
    (hregions : ∀ d ∈ regions, RegionRules d.pair) :
    parseRegion value begin fin regions = .ok out ↔
      ∃ r, Item (substr value begin (fin.map (· - begin))) r.pair ∧ Follows regions r ∧
        out = regions ++ [r] := by
  rw [parseRegion]
  generalize substr value begin (fin.map (· - begin)) = item
  have hitem {pair : ℕ × ℕ} := @item_iff item pair
  cases hcolon : find item ':' 0 with
  | none =>
      refine iff_of_false (by simp) ?_
      rintro ⟨r, h, -⟩
      obtain ⟨colon, hfind, -⟩ := hitem.mp h
      exact absurd (hcolon.symm.trans hfind) (by simp)
  | some colon =>
      simp only [hcolon, Option.some.injEq, exists_eq_left'] at hitem
      dsimp only
      by_cases hshape : colon = 0 ∨ colon + 1 = item.length ∨ (find item ':' (colon + 1)).isSome
      · rw [if_pos hshape]
        exact iff_of_false (by simp) fun ⟨r, h, _⟩ => (hitem.mp h).1 hshape
      rw [if_neg hshape]
      simp only [hshape, not_false_eq_true, true_and] at hitem
      simp only [hitem]
      simp only [bind_eq_ok_iff, number_eq_ok_iff, pushRegion_eq_ok_iff hregions]
      constructor
      · rintro ⟨base, hbase, size, hsize, r, hpair, hr, rfl⟩
        exact ⟨r, ⟨by rwa [hpair], by rwa [hpair]⟩, hr, rfl⟩
      · rintro ⟨r, ⟨hbase, hsize⟩, hr, rfl⟩
        have hofNat {x : UInt32} : (UInt64.ofNat x.toNat).toNat = x.toNat := by
          have := x.toNat_lt
          rw [UInt64.toNat_ofNat']
          omega
        refine ⟨.ofNat r.pair.1, ?_, .ofNat r.pair.2, ?_, r, ?_, hr, rfl⟩
        · rwa [QuetzNativeRamRegion.pair, hofNat]
        · rwa [QuetzNativeRamRegion.pair, hofNat]
        · rw [QuetzNativeRamRegion.pair, hofNat, hofNat]

end

/-! ### The loop -/

/-- Items with a semicolon between any two. -/
inductive Joined : List Char → List (ℕ × ℕ) → Prop
  | last {text : List Char} {pair : ℕ × ℕ} (h : Item text pair) : Joined text [pair]
  | cons {text texts : List Char} {pair : ℕ × ℕ} {pairs : List (ℕ × ℕ)} (h : Item text pair)
      (hs : Joined texts pairs) : Joined (text ++ ';' :: texts) (pair :: pairs)

/-- Descriptors that the parser may return. -/
structure Parsed (regions : List QuetzNativeRamRegion) : Prop where
  rules : ∀ r ∈ regions, RegionRules r.pair
  disjoint : regions.Pairwise fun a b => RegionsDisjoint a.pair b.pair
  length_le : regions.length ≤ maxNativeRegions
  fresh : ∀ r ∈ regions, r.offset = 0 ∧ r.reserved = 0

section

variable {value text rest : List Char} {pairs : List (ℕ × ℕ)}
  {regions done : List QuetzNativeRamRegion} {r : QuetzNativeRamRegion}

theorem Parsed.nil : Parsed [] where
  rules := by simp
  disjoint := .nil
  length_le := Nat.zero_le _
  fresh := by simp

/-- The regions found first. -/
theorem Parsed.left (h : Parsed (done ++ regions)) : Parsed done where
  rules := fun r hr => h.rules r (List.mem_append_left _ hr)
  disjoint := (List.pairwise_append.mp h.disjoint).1
  length_le := (List.length_append ▸ Nat.le_add_right _ _).trans h.length_le
  fresh := fun r hr => h.fresh r (List.mem_append_left _ hr)

/-- One more region. -/
theorem Parsed.concat_iff (h : Parsed done) : Parsed (done ++ [r]) ↔ Follows done r := by
  have hmem {p : QuetzNativeRamRegion → Prop} :
      (∀ x ∈ done ++ [r], p x) ↔ (∀ x ∈ done, p x) ∧ p r := by
    rw [List.forall_mem_append, List.forall_mem_singleton]
  constructor
  · intro hr
    have hlen := hr.length_le
    rw [List.length_append, List.length_singleton] at hlen
    obtain ⟨hoffset, hreserved⟩ := (hmem.mp hr.fresh).2
    refine ⟨(hmem.mp hr.rules).2, fun d hd => ?_, by omega, hoffset, hreserved⟩
    exact (List.pairwise_append.mp hr.disjoint).2.2 d hd r (List.mem_singleton_self r)
  · intro hr
    have hlen := h.length_le
    have hroom := hr.room
    refine ⟨hmem.mpr ⟨h.rules, hr.rules⟩, ?_, ?_, hmem.mpr ⟨h.fresh, hr.offset, hr.reserved⟩⟩
    · refine List.pairwise_append.mpr ⟨h.disjoint, List.pairwise_singleton _ _, ?_⟩
      intro d hd x hx
      rw [List.mem_singleton.mp hx]
      exact hr.disjoint d hd
    · rw [List.length_append, List.length_singleton]
      omega

theorem Joined.ne_nil (h : Joined text pairs) : text ≠ [] := by
  cases h with
  | last h => exact h.ne_nil
  | cons h hs => exact List.append_ne_nil_of_right_ne_nil _ (List.cons_ne_nil _ _)

/-- Without a semicolon there is one item. -/
theorem joined_iff_of_not_mem (h : ';' ∉ text) :
    Joined text pairs ↔ ∃ pair, pairs = [pair] ∧ Item text pair := by
  constructor
  · intro hjoined
    cases hjoined with
    | last hitem => exact ⟨_, rfl, hitem⟩
    | cons hitem hs => exact absurd (List.mem_append_right _ List.mem_cons_self) h
  · rintro ⟨pair, rfl, hitem⟩
    exact .last hitem

/-- The first semicolon ends the first item. -/
theorem joined_append_iff (h : ';' ∉ text) : Joined (text ++ ';' :: rest) pairs ↔
    ∃ pair tail, pairs = pair :: tail ∧ Item text pair ∧ Joined rest tail := by
  constructor
  · intro hjoined
    generalize htext : text ++ ';' :: rest = whole at hjoined
    cases hjoined with
    | last hitem =>
        rw [← htext] at hitem
        exact absurd (List.mem_append_right _ List.mem_cons_self) hitem.not_mem
    | cons hitem hs =>
        obtain ⟨rfl, rfl⟩ := append_cons_inj h hitem.not_mem htext
        exact ⟨_, _, rfl, hitem, hs⟩
  · rintro ⟨pair, tail, rfl, hitem, hs⟩
    exact .cons hitem hs

/-- What a round makes of its item, in terms of all that was found so far. -/
theorem parseRegion_parsed {begin : ℕ} {fin : Option ℕ} (hdone : Parsed done) :
    parseRegion value begin fin done = .ok regions ↔
      ∃ r, Item (substr value begin (fin.map (· - begin))) r.pair ∧ Parsed (done ++ [r]) ∧
        regions = done ++ [r] := by
  simp only [parseRegion_eq_ok_iff hdone.rules, hdone.concat_iff]

/-- Before a semicolon, the first region is the one that the round reads. -/
theorem first_region_iff {begin fin : ℕ} {rs : List QuetzNativeRamRegion} (hdone : Parsed done)
    (hfin : find value ';' begin = some fin) :
    Joined (value.drop begin) (rs.map QuetzNativeRamRegion.pair) ∧ Parsed (done ++ rs) ↔
      ∃ r tail, rs = r :: tail ∧
        parseRegion value begin (some fin) done = .ok (done ++ [r]) ∧
        Joined (value.drop (fin + 1)) (tail.map QuetzNativeRamRegion.pair) ∧
        Parsed (done ++ [r] ++ tail) := by
  obtain ⟨-, -, hnot, hcut⟩ := eq_append_of_find hfin
  have hround (out : List QuetzNativeRamRegion) :=
    @parseRegion_parsed value out done begin (some fin) hdone
  rw [hcut, joined_append_iff hnot]
  constructor
  · rintro ⟨⟨pair, tail, hpairs, hitem, hs⟩, hparsed⟩
    obtain ⟨r, tail, rfl, rfl, rfl⟩ := List.map_eq_cons_iff.mp hpairs
    rw [List.append_cons] at hparsed
    exact ⟨r, tail, rfl, (hround _).mpr ⟨r, hitem, hparsed.left, rfl⟩, hs, hparsed⟩
  · rintro ⟨r, tail, rfl, hread, hs, hparsed⟩
    obtain ⟨r', hitem, -, heq⟩ := (hround _).mp hread
    obtain rfl := List.singleton_injective (List.append_cancel_left heq)
    rw [List.append_cons]
    exact ⟨⟨_, _, List.map_cons, hitem, hs⟩, hparsed⟩

/-- **The loop** takes the items of the rest of the string, and it ends. -/
theorem parseLoop_spec : ∀ (fuel begin : ℕ) (done : List QuetzNativeRamRegion), Parsed done →
    begin < value.length → value.length - begin < fuel →
      ∃ result, parseLoop value fuel begin done = some result ∧ ∀ out, result = .ok out ↔
        ∃ rs, Joined (value.drop begin) (rs.map QuetzNativeRamRegion.pair) ∧
          Parsed (done ++ rs) ∧ out = done ++ rs := by
  intro fuel
  induction fuel with
  | zero => exact fun begin done _ _ hfuel => absurd hfuel (Nat.not_lt_zero _)
  | succ fuel ih =>
      intro begin done hdone hbegin hfuel
      rw [parseLoop, if_pos hbegin]
      dsimp only
      cases hfin : find value ';' begin with
      | none =>
          have hround (out : List QuetzNativeRamRegion) :=
            @parseRegion_parsed value out done begin none hdone
          have hjoined {pairs : List (ℕ × ℕ)} :=
            @joined_iff_of_not_mem _ pairs (find_eq_none_iff.mp hfin)
          refine ⟨parseRegion value begin none done, ?_, fun out => ?_⟩
          · cases parseRegion value begin none done <;> rfl
          · rw [hround]
            constructor
            · rintro ⟨r, hitem, hr, rfl⟩
              exact ⟨[r], hjoined.mpr ⟨_, rfl, hitem⟩, hr, rfl⟩
            · rintro ⟨rs, hrs, hparsed, rfl⟩
              obtain ⟨pair, hpairs, hitem⟩ := hjoined.mp hrs
              obtain ⟨r, rfl, rfl⟩ := List.map_eq_singleton_iff.mp hpairs
              exact ⟨r, hitem, hparsed, rfl⟩
      | some fin =>
          obtain ⟨hle, hlt, -, -⟩ := eq_append_of_find hfin
          have hfirst (rs : List QuetzNativeRamRegion) :=
            @first_region_iff value done begin fin rs hdone hfin
          cases hread : parseRegion value begin (some fin) done with
          | error e =>
              refine ⟨.error e, rfl, fun out => iff_of_false (by simp) ?_⟩
              rintro ⟨rs, hrs, hparsed, -⟩
              obtain ⟨r, tail, -, hok, -⟩ := (hfirst _).mp ⟨hrs, hparsed⟩
              exact absurd (hread.symm.trans hok) (by simp)
          | ok next =>
              obtain ⟨r, -, hr, rfl⟩ := (parseRegion_parsed hdone).mp hread
              dsimp only
              by_cases hlast : fin + 1 = value.length
              · rw [if_pos hlast]
                refine ⟨_, rfl, fun out => iff_of_false (by simp) ?_⟩
                rintro ⟨rs, hrs, hparsed, -⟩
                obtain ⟨r, tail, -, -, hs, -⟩ := (hfirst _).mp ⟨hrs, hparsed⟩
                exact hs.ne_nil (List.drop_eq_nil_of_le hlast.ge)
              · rw [if_neg hlast]
                obtain ⟨result, hresult, hspec⟩ :=
                  ih (fin + 1) (done ++ [r]) hr (by omega) (by omega)
                refine ⟨result, hresult, fun out => (hspec out).trans ?_⟩
                constructor
                · rintro ⟨tail, hs, hparsed, rfl⟩
                  obtain ⟨hrs, hparsed⟩ := (hfirst _).mpr ⟨r, tail, rfl, hread, hs, hparsed⟩
                  exact ⟨r :: tail, hrs, hparsed, (List.append_cons ..).symm⟩
                · rintro ⟨rs, hrs, hparsed, rfl⟩
                  obtain ⟨r', tail, rfl, hok, hs, hparsed⟩ := (hfirst _).mp ⟨hrs, hparsed⟩
                  have heq := Except.ok.inj (hread.symm.trans hok)
                  obtain rfl := List.singleton_injective (List.append_cancel_left heq)
                  exact ⟨tail, hs, hparsed, List.append_cons ..⟩

end

/-! ### The strings that are accepted -/

/-- The string is a configuration and its values keep the rules. -/
structure Configures (value : List Char) (pairs : List (ℕ × ℕ)) : Prop where
  grammar : NativeRegions value pairs
  rules : ∀ pair ∈ pairs, RegionRules pair
  disjoint : pairs.Pairwise RegionsDisjoint

section

variable {value : List Char} {pairs : List (ℕ × ℕ)} {regions : List QuetzNativeRamRegion}

/-- At most two regions are joined as the grammar says. -/
theorem joined_iff (hlen : pairs.length ≤ maxNativeRegions) (hne : value ≠ []) :
    Joined value pairs ↔ NativeRegions value pairs := by
  constructor
  · intro h
    cases h with
    | last h => exact .one h
    | cons h hs =>
        cases hs with
        | last h₂ => exact .two h h₂
        | cons _ hs =>
            rw [maxNativeRegions] at hlen
            cases hs <;> simp at hlen
  · intro h
    cases h with
    | none => exact absurd rfl hne
    | one h => exact .last h
    | two h₁ h₂ => exact .cons h₁ (.last h₂)

theorem NativeRegions.length_le (h : NativeRegions value pairs) :
    pairs.length ≤ maxNativeRegions := by
  cases h with
  | none => exact Nat.zero_le _
  | one => exact Nat.le_succ 1
  | two => exact Nat.le_refl 2

/-- The loop as a whole. -/
theorem parseNativeRegions_spec (value : List Char) :
    ∃ result, parseNativeRegions value = some result ∧ ∀ out, result = .ok out ↔
      NativeRegions value (out.map QuetzNativeRamRegion.pair) ∧ Parsed out := by
  rw [parseNativeRegions]
  by_cases hne : value = []
  · refine ⟨.ok [], by rw [hne]; rfl, fun out => ?_⟩
    rw [Except.ok.injEq]
    constructor
    · rintro rfl
      rw [hne]
      exact ⟨.none, .nil⟩
    · rintro ⟨h, -⟩
      generalize hpairs : out.map QuetzNativeRamRegion.pair = pairs at h
      cases h with
      | none => exact (List.map_eq_nil_iff.mp hpairs).symm
      | one h => exact absurd hne h.ne_nil
      | two => exact absurd hne (List.append_ne_nil_of_right_ne_nil _ (List.cons_ne_nil _ _))
  · obtain ⟨result, hresult, hspec⟩ := 
      @parseLoop_spec value (value.length + 1) 0 [] .nil (List.length_pos_of_ne_nil hne) (by omega)
    refine ⟨result, hresult, fun out => (hspec out).trans ?_⟩
    simp only [List.drop_zero, List.nil_append]
    constructor
    · rintro ⟨rs, hjoined, hparsed, rfl⟩
      have hlen : (out.map QuetzNativeRamRegion.pair).length ≤ maxNativeRegions := by
        rw [List.length_map]
        exact hparsed.length_le
      exact ⟨(joined_iff hlen hne).mp hjoined, hparsed⟩
    · rintro ⟨hgrammar, hparsed⟩
      exact ⟨out, (joined_iff hgrammar.length_le hne).mpr hgrammar, hparsed, rfl⟩

/-- Descriptors with the values of a configuration. -/
theorem configures_iff : NativeRegions value (regions.map QuetzNativeRamRegion.pair) ∧
    Parsed regions ↔ Configures value (regions.map QuetzNativeRamRegion.pair) ∧
      ∀ r ∈ regions, r.offset = 0 ∧ r.reserved = 0 := by
  constructor
  · rintro ⟨hgrammar, hparsed⟩
    refine ⟨⟨hgrammar, ?_, List.pairwise_map.mpr hparsed.disjoint⟩, hparsed.fresh⟩
    exact List.forall_mem_map.mpr hparsed.rules
  · rintro ⟨⟨hgrammar, hrules, hdisjoint⟩, hfresh⟩
    refine ⟨hgrammar, List.forall_mem_map.mp hrules, List.pairwise_map.mp hdisjoint, ?_, hfresh⟩
    rw [← List.length_map QuetzNativeRamRegion.pair]
    exact hgrammar.length_le

/-- Every list of values within the rules is that of some descriptors. -/
theorem exists_map_pair (hrules : ∀ pair ∈ pairs, RegionRules pair) :
    ∃ regions : List QuetzNativeRamRegion, regions.map QuetzNativeRamRegion.pair = pairs ∧
      ∀ r ∈ regions, r.offset = 0 ∧ r.reserved = 0 := by
  refine ⟨pairs.map fun p => { base := .ofNat p.1, size := .ofNat p.2 }, ?_, ?_⟩
  · rw [List.map_map]
    refine (List.map_congr_left fun p hp => ?_).trans (List.map_id pairs)
    have hbelow := (hrules p hp).below
    have hpos := (hrules p hp).nonempty
    have hsize : p.2 ≤ 65536 := (hrules p hp).size_le
    rw [Function.comp_apply, QuetzNativeRamRegion.pair, UInt32.toNat_ofNat',
      UInt32.toNat_ofNat', Nat.mod_eq_of_lt (by omega), Nat.mod_eq_of_lt (by omega)]
    rfl
  · intro r hr
    obtain ⟨p, -, rfl⟩ := List.mem_map.mp hr
    exact ⟨rfl, rfl⟩

/-- **The parser accepts exactly the configurations**: the loop ends on every string, a string is
accepted if it is a configuration whose values keep the rules, and what is returned are its values
in their order. -/
theorem parseNativeRegions_accepts (value : List Char) :
    (∃ result, parseNativeRegions value = some result) ∧
      ((∃ regions, parseNativeRegions value = some (.ok regions)) ↔
        ∃ pairs, Configures value pairs) ∧
      ∀ regions, parseNativeRegions value = some (.ok regions) ↔
        Configures value (regions.map QuetzNativeRamRegion.pair) ∧
          ∀ r ∈ regions, r.offset = 0 ∧ r.reserved = 0 := by
  obtain ⟨result, hresult, hspec⟩ := parseNativeRegions_spec value
  have hiff (regions : List QuetzNativeRamRegion) :
      parseNativeRegions value = some (.ok regions) ↔
        Configures value (regions.map QuetzNativeRamRegion.pair) ∧
          ∀ r ∈ regions, r.offset = 0 ∧ r.reserved = 0 := by
    rw [hresult, Option.some.injEq, hspec, configures_iff]
  refine ⟨⟨result, hresult⟩, ⟨?_, ?_⟩, hiff⟩
  · rintro ⟨regions, h⟩
    exact ⟨_, ((hiff regions).mp h).1⟩
  · rintro ⟨pairs, h⟩
    obtain ⟨regions, rfl, hfresh⟩ := exists_map_pair h.rules
    exact ⟨regions, (hiff regions).mpr ⟨h, hfresh⟩⟩

end

/-! ### Registration of a configuration -/

section

variable {shared : UInt64} {d : QuetzSharedData} {regions : Option (ℕ → QuetzNativeRamRegion)}
  {count : UInt32} {i : ℕ}

theorem configured_region (hi : i < count.toNat) :
    (configured shared d regions count).nativeRegions i =
      placed shared (regions.getD (fun _ => {}) i) i :=
  if_pos hi

/-- The place of a registered region. -/
theorem configured_storage (h : Registrable regions count) (hi : i < count.toNat) :
    ((configured shared d regions count).nativeRegions i).storage ⊆
        Set.Ico nativeRamOffset (nativeRamOffset + nativeRamBytes) ∧
      nativeRegionBytes ∣ shared.toNat +
        ((configured shared d regions count).nativeRegions i).offset.toNat := by
  have hlt := hi.trans_le h.count_le
  rw [configured_region hi]
  have hstored := @placed_stored shared _ _ hlt (h.admissible i hi)
  obtain ⟨-, -, haligned⟩ := storageOffset_bounds shared
  constructor
  · exact Set.Ico_subset_Ico hstored.first_le hstored.le_last
  · rw [toNat_placed_offset shared _ hlt, ← Nat.add_assoc]
    exact Nat.dvd_add haligned ⟨i, Nat.mul_comm _ _⟩

/-- Two registered regions have different places. -/
theorem configured_disjoint (h : Registrable regions count) (hi : i < count.toNat) {j : ℕ}
    (hj : j < i) : Disjoint ((configured shared d regions count).nativeRegions i).storage
      ((configured shared d regions count).nativeRegions j).storage := by
  rw [configured_region hi, configured_region (hj.trans hi)]
  exact placed_disjoint (hi.trans_le h.count_le) hj (h.admissible j (hj.trans hi))

/-- **What the parser returns may be registered.** -/
theorem parseNativeRegions_registrable {value : List Char} {parsed : List QuetzNativeRamRegion}
    (h : parseNativeRegions value = some (.ok parsed)) :
    Registrable (some fun i => parsed.getD i {}) (.ofNat parsed.length) := by
  obtain ⟨result, hresult, hspec⟩ := parseNativeRegions_spec value
  obtain rfl := Option.some.inj (hresult.symm.trans h)
  obtain ⟨-, hparsed⟩ := (hspec parsed).mp rfl
  have hcount : (UInt32.ofNat parsed.length).toNat = parsed.length := by
    rw [UInt32.toNat_ofNat']
    exact Nat.mod_eq_of_lt (hparsed.length_le.trans_lt (by decide))
  have hget {i : ℕ} (hi : i < parsed.length) : parsed.getD i {} = parsed[i] := by
    rw [List.getD_eq_getElem?_getD, List.getElem?_eq_getElem hi, Option.getD_some]
  refine ⟨?_, fun _ => rfl, fun i hi => ?_, fun i hi j hj => ?_⟩
  · rw [hcount]
    exact hparsed.length_le
  · rw [hcount] at hi
    rw [Option.getD_some, hget hi]
    obtain ⟨hpos, hsize, hbase, hpages, hbelow⟩ := hparsed.rules _ (List.getElem_mem hi)
    exact ⟨hpos, hsize, hbase, hpages, hbelow⟩
  · rw [hcount] at hi
    rw [Option.getD_some, hget hi, hget (hj.trans hi)]
    exact (List.pairwise_iff_getElem.mp hparsed.disjoint j i (hj.trans hi) hi hj).symm

/-- **Registration of native RAM**: a list of at most two regions that keep the rules always fits,
with places that are apart, inside the storage and aligned to blocks; any other list leaves no
region or the state as it was; every mapping that agrees inside a page gives the same verdict and
the same offsets; and what the configuration yields is such a list. -/
theorem native_ram_registration (shared : UInt64) (d : QuetzSharedData) :
    (∀ regions count, Registrable regions count → ∃ d',
      quetzConfigureNativeRegions shared d regions count = (true, d') ∧
        quetzNativeRegionsValid shared d' = true ∧ d'.nativeRegionCount = count ∧
        ∀ i < count.toNat,
          (d'.nativeRegions i).pair = (regions.getD (fun _ => {}) i).pair ∧
          (d'.nativeRegions i).storage ⊆
            Set.Ico nativeRamOffset (nativeRamOffset + nativeRamBytes) ∧
          nativeRegionBytes ∣ shared.toNat + (d'.nativeRegions i).offset.toNat ∧
          ∀ j < i, Disjoint (d'.nativeRegions i).storage (d'.nativeRegions j).storage) ∧
    (∀ regions count, ¬Registrable regions count →
      (quetzConfigureNativeRegions shared d regions count).1 = false ∧
        ((quetzConfigureNativeRegions shared d regions count).2 = d ∨
          (quetzConfigureNativeRegions shared d regions count).2.nativeRegionCount = 0)) ∧
    (∀ shared' : UInt64, shared'.toNat ≡ shared.toNat [MOD 4096] →
      quetzNativeRegionsValid shared' d = quetzNativeRegionsValid shared d ∧
        ∀ region, (quetzNativeRam shared' d region).map (· - shared') =
          (quetzNativeRam shared d region).map (· - shared)) ∧
    ∀ value parsed, parseNativeRegions value = some (.ok parsed) →
      Registrable (some fun i => parsed.getD i {}) (.ofNat parsed.length) := by
  refine ⟨fun regions count h => ?_, fun regions count h => ?_, fun shared' hpage => ?_,
    fun value parsed h => parseNativeRegions_registrable h⟩
  · refine ⟨configured shared d regions count, quetzConfigureNativeRegions_of_registrable h,
      (quetzNativeRegionsValid_configured h.count_le h.given).mpr h, rfl, fun i hi => ?_⟩
    obtain ⟨hinside, haligned⟩ := @configured_storage shared d _ _ _ h hi
    refine ⟨?_, hinside, haligned, fun j hj => configured_disjoint h hi hj⟩
    rw [configured_region hi, QuetzNativeRamRegion.pair, QuetzNativeRamRegion.pair, placed_base,
      placed_size]
  · exact quetzConfigureNativeRegions_of_not h
  · exact ⟨quetzNativeRegionsValid_congr hpage d, quetzNativeRam_sub hpage d⟩

/-- A structure that is not aligned to blocks, the regions of a configuration, and a mapping one
page further. -/
theorem native_ram_registration_two :
    (∃ d', quetzConfigureNativeRegions 0x7000 {}
        (some fun i => [{ base := 4096, size := 4096 }, { base := 0, size := 4096 }].getD i {}) 2 =
          (true, d') ∧ d'.nativeRegionCount = 2) ∧
      quetzNativeRegionsValid 0x8000 {} = quetzNativeRegionsValid 0x7000 {} := by
  obtain ⟨hfits, -, hmapping, hparsed⟩ := native_ram_registration 0x7000 {}
  have hregistrable := hparsed "0x1000:4096;0:0x1000".toList
    [{ base := 4096, size := 4096 }, { base := 0, size := 4096 }] (by decide)
  obtain ⟨d', hd', -, hcount, -⟩ := hfits _ _ hregistrable
  exact ⟨⟨d', hd', hcount⟩, (hmapping 0x8000 (by decide)).1⟩

end

end Quetz
