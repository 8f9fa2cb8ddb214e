import Quetz.CacheDirty
import Quetz.CacheTransparency
import Quetz.ResetEpoch

/-!
# Routing of Native RAM

Registered native RAM is reached in QEMU either directly or through the window cache of the
simulator. The overlay (`src/qemu-overlay/patch-cached-ram.py`) decides that when it fills the TLB
entry of a page, from the CACR and the ACRs of the QEMU CPU; the cache decides with `mode`, from
its own copies of the same registers. A MOVEC of the guest is applied to both.

The QEMU side keeps every bit that is written; the cache side drops the bits of CACR that clear
themselves. All words on the QEMU side are 32 bits wide, while `mode` works on 64-bit addresses.

## Main results

* `acrCacheable_eq`: the two copies of the ACR match agree in supervisor mode.
* `nativeDataCacheable_page`: the answer is the same for all addresses of a page.
* `native_routing_agrees`: QEMU and cache agree after every run of control writes and resets.
-/

namespace Quetz

open WindowDataCache

/-! ### The QEMU side -/

/-- The supervisor bit of the status register. -/
def SR_S : BitVec 32 := 0x2000

/-- The registers of the QEMU CPU that the route of a data access depends on. -/
structure CPUM68KState where
  cacr : BitVec 32 := 0
  quetzAcr : Fin 4 → BitVec 32 := fun _ => 0
  sr : BitVec 32 := SR_S

namespace CPUM68KState

/-- A MOVEC to a control register. -/
def movecTo (env : CPUM68KState) (reg : ℕ) (val : BitVec 32) : CPUM68KState :=
  if reg = 2 then { env with cacr := val }
  else if 4 ≤ reg ∧ reg ≤ 7 then
    { env with quetzAcr := Function.update env.quetzAcr (Fin.ofNat 4 (reg - 4)) val }
  else env

/-- What an access-control register says about an address, when it matches. -/
def acrCacheable (supervisor : Bool) (acr address : BitVec 32) : Option Bool :=
  let sm := (acr >>> 13) &&& 3
  if acr &&& 0x8000 = 0 ∨ (sm < 2 ∧ sm ≠ (BitVec.ofBool supervisor).setWidth 32) then none
  else if acr &&& 0x400 ≠ 0 then
    -- AMM: exact top byte, masked 1-MiB subregion
    if address >>> 24 = acr >>> 24 ∧
        ((address >>> 20) ^^^ (acr >>> 20)) &&& ~~~(acr >>> 16) &&& 15 = 0 then
      some (decide ((acr >>> 5) &&& 3 < 2))
    else none
  else
    let mask := (acr >>> 16) &&& 0xff
    if ((address >>> 24) ^^^ (acr >>> 24)) &&& ~~~mask &&& 0xff = 0 then
      some (decide ((acr >>> 5) &&& 3 < 2))
    else none

/-- Supervisor and user ACR selection; ACR0 comes first. -/
def nativeDataCacheable (env : CPUM68KState) (address : BitVec 32) : Bool :=
  if env.cacr &&& 0x80000000 = 0 then false
  else
    let supervisor := env.sr &&& SR_S != 0
    match acrCacheable supervisor (env.quetzAcr 0) address with
    | some cacheable => cacheable
    | none =>
      match acrCacheable supervisor (env.quetzAcr 1) address with
      | some cacheable => cacheable
      | none => decide ((env.cacr >>> 25) &&& 3 < 2)

end CPUM68KState

open CPUM68KState

/-! ### The two copies of the policy -/

section

variable {acr address address' : BitVec 32}

theorem setWidth_64_inj {x y : BitVec 32} : x.setWidth 64 = y.setWidth 64 ↔ x = y := by
  constructor
  · intro h
    simpa using congrArg (BitVec.setWidth 32) h
  · rintro rfl
    rfl

/-- The top bytes are compared alike in both widths. -/
theorem topByte_iff : address.setWidth 64 >>> 24 = acr.setWidth 64 >>> 24 ↔
    address >>> 24 = acr >>> 24 := by
  have hwide (x : BitVec 32) : x.setWidth 64 >>> 24 = (x >>> 24).setWidth 64 := by simp
  rw [hwide, hwide, setWidth_64_inj]

/-- The masked comparison of the bits from `k` on is the same in both widths. -/
theorem masked_iff (k : ℕ) (mask field : BitVec 32) :
    ((address.setWidth 64 >>> k) ^^^ (acr.setWidth 64 >>> k)) &&& mask.setWidth 64 &&&
        field.setWidth 64 = 0 ↔
      ((address >>> k) ^^^ (acr >>> k)) &&& mask &&& field = 0 := by
  have hwide : ((address.setWidth 64 >>> k) ^^^ (acr.setWidth 64 >>> k)) &&& mask.setWidth 64 &&&
      field.setWidth 64 = (((address >>> k) ^^^ (acr >>> k)) &&& mask &&& field).setWidth 64 := by
    simp
  rw [hwide]
  exact setWidth_64_inj (y := 0)

theorem lt_two_iff (x : BitVec 32) : x < 2 ↔ x.toNat < 2 := BitVec.lt_def

/-- A supervisor field selects the register unless it is the one of user mode. -/
theorem supervisor_iff : ((acr >>> 13) &&& 3 < 2 ∧
    (acr >>> 13) &&& 3 ≠ (BitVec.ofBool true).setWidth 32) ↔ (acr >>> 13) &&& 3 = 0 := by
  generalize (acr >>> 13) &&& 3 = sm
  rw [lt_two_iff, ← BitVec.toNat_ne_iff_ne, ← BitVec.toNat_inj]
  simp
  omega

/-- In supervisor mode the two copies of the ACR match agree. -/
theorem acrCacheable_eq :
    acrCacheable true acr address = (acrMode acr address.toNat).map fun m => decide (m < 2) := by
  have haddr : BitVec.ofNat 64 address.toNat = address.setWidth 64 :=
    BitVec.eq_of_toNat_eq (by simp)
  have h15 : (15 : BitVec 64) = (15 : BitVec 32).setWidth 64 := rfl
  have hff : (0xff : BitVec 64) = (0xff : BitVec 32).setWidth 64 := rfl
  simp only [acrCacheable, acrMode, supervisor_iff, haddr, topByte_iff, h15, hff, masked_iff]
  split_ifs
  · rfl
  · exact congrArg some (decide_eq_decide.mpr (lt_two_iff _))
  · rfl
  · exact congrArg some (decide_eq_decide.mpr (lt_two_iff _))
  · rfl

/-- The shifts of the policy do not see the offset in a page. -/
theorem shift_of_page (h : address' >>> 12 = address >>> 12) {k : ℕ} (hk : 12 ≤ k) :
    address' >>> k = address >>> k := by
  obtain ⟨j, rfl⟩ := Nat.exists_eq_add_of_le hk
  rw [BitVec.shiftRight_add, BitVec.shiftRight_add, h]

/-- The answer is the same for all addresses of a 4-KiB page. -/
theorem nativeDataCacheable_page (h : address' >>> 12 = address >>> 12) (env : CPUM68KState) :
    env.nativeDataCacheable address' = env.nativeDataCacheable address := by
  simp only [nativeDataCacheable, acrCacheable, shift_of_page h (k := 24) (by decide),
    shift_of_page h (k := 20) (by decide)]

end

/-! ### Runs of both sides -/

/-- The registers of the two sides decide alike. -/
structure SameControls (env : CPUM68KState) (c : WindowDataCache) : Prop where
  enable : env.cacr &&& DEC = c.cacr &&& DEC
  defaultMode : (env.cacr >>> 25) &&& (3 : BitVec 32) = (c.cacr >>> 25) &&& 3
  acr : env.quetzAcr = c.acr

section

variable {env : CPUM68KState} {c d : WindowDataCache}

theorem SameControls.keeps (h : SameControls env c) (hk : KeepsControls c d) :
    SameControls env d := by
  obtain ⟨hcacr, hacr⟩ := hk
  exact ⟨by rw [hcacr]; exact h.enable, by rw [hcacr]; exact h.defaultMode,
    by rw [hacr]; exact h.acr⟩

/-- An accepted control write reaches both sides; the bits of CACR that the cache drops decide
nothing. -/
theorem SameControls.movec (h : SameControls env c) {reg : ℕ} {value : BitVec 32}
    (hd : c.movec reg value = .ok d) : SameControls (env.movecTo reg value) d := by
  obtain ⟨-, hok, rfl⟩ := movec_eq_ok.mp hd
  by_cases hreg : reg = 2
  · obtain ⟨henable, hmode⟩ := cacr_masked value
    rw [movecTo, if_pos hreg, WindowDataCache.control, if_pos hreg]
    refine ⟨henable.symm, hmode.symm, ?_⟩
    dsimp only
    split_ifs
    · exact h.acr
    · exact h.acr
  · have hacr : 4 ≤ reg ∧ reg ≤ 7 := by
      rcases hok with ⟨h2, -⟩ | ⟨h45, -⟩ | h67 | h67 <;> omega
    rw [movecTo, if_neg hreg, if_pos hacr, WindowDataCache.control, if_neg hreg]
    refine ⟨h.enable, h.defaultMode, ?_⟩
    dsimp only
    rw [h.acr]
    rfl

/-- Sides with the same controls decide alike. -/
theorem SameControls.cacheable_iff (h : SameControls env c) (hs : env.sr &&& SR_S ≠ 0)
    (address : BitVec 32) : env.nativeDataCacheable address = true ↔ c.mode address.toNat < 2 := by
  have hsup : (env.sr &&& SR_S != 0) = true := bne_iff_ne.mpr hs
  have henable : env.cacr &&& 0x80000000 = c.cacr &&& DEC := h.enable
  rw [nativeDataCacheable, mode, henable]
  by_cases hoff : c.cacr &&& DEC = 0
  · rw [if_pos hoff, if_pos hoff]
    simp
  · rw [if_neg hoff, if_neg hoff]
    dsimp only
    rw [hsup, h.acr, h.defaultMode, acrCacheable_eq, acrCacheable_eq]
    cases acrMode (c.acr 0) address.toNat with
    | some m => exact decide_eq_true_iff
    | none =>
        cases acrMode (c.acr 1) address.toNat with
        | some m => exact decide_eq_true_iff
        | none =>
            dsimp only [Option.map_none]
            rw [decide_eq_true_iff, lt_two_iff]

end

/-- The QEMU CPU and the window cache of its vCPU. -/
structure RoutedCpu where
  env : CPUM68KState := {}
  client : WindowDataCache.Client := {}

namespace RoutedCpu

/-- What a call on the cache means for the QEMU CPU: control writes and resets go to both. -/
def follow (env : CPUM68KState) : WindowDataCache.Call → CPUM68KState
  | .movec reg value => env.movecTo reg value
  | .reset => {}
  | _ => env

/-- The states of a run. Calls that the cache refuses are not part of it; the guest changes its
status register at any time. -/
inductive Reachable : RoutedCpu → Prop
  | start : Reachable {}
  | call {w : RoutedCpu} {client : WindowDataCache.Client}
    (call : WindowDataCache.Call) : Reachable w →
      w.client.call call = .ok client → Reachable ⟨follow w.env call, client⟩
  | status {w : RoutedCpu} (sr : BitVec 32) : Reachable w →
      Reachable { w with env := { w.env with sr } }

theorem Reachable.sameControls {w : RoutedCpu} (hw : Reachable w) :
    SameControls w.env w.client.cache := by
  induction hw with
  | start => exact ⟨rfl, rfl, rfl⟩
  | status sr _ ih => exact ⟨ih.enable, ih.defaultMode, ih.acr⟩
  | @call w client call _ hcall ih =>
      cases call with
      | movec reg value => exact ih.movec (map_cache_eq_ok hcall).1
      | reset =>
          have hreset := (map_cache_eq_ok hcall).1
          rw [WindowDataCache.reset] at hreset
          split_ifs at hreset
          rw [← Except.ok.inj hreset]
          exact ⟨rfl, rfl, rfl⟩
      | access a n write bs =>
          obtain ⟨-, -, -, -, -, heq⟩ := access_ok (map_cache_eq_ok hcall).1
          exact ih.keeps (by rw [heq]; exact ⟨rfl, rfl⟩)
      | push instruction operand =>
          obtain ⟨-, -, heq⟩ := push_eq_ok.mp (map_cache_eq_ok hcall).1
          refine ih.keeps ?_
          rw [heq, select]
          split_ifs <;> exact ⟨rfl, rfl⟩
      | next =>
          cases hnext : w.client.cache.next with
          | error e =>
              rw [Client.call, hnext] at hcall
              cases hcall
          | ok r =>
              rw [Client.call, hnext] at hcall
              cases hcall
              exact ih.keeps (next_controls hnext)
      | complete bs => exact ih.keeps (complete_controls (map_cache_eq_ok hcall).1)
      | addRegion base size => exact ih.keeps (addRegion_controls (map_cache_eq_ok hcall).1)
      | configure base size =>
          exact ih.keeps (addRegion_controls (configure_ok (map_cache_eq_ok hcall).1))

end RoutedCpu

/-- **QEMU and the cache agree on what is cacheable**: after every run of accepted control writes
and resets, for every 32-bit address, in supervisor mode; and QEMU gives one answer for a page. -/
theorem native_routing_agrees {w : RoutedCpu} (hw : w.Reachable) (address : BitVec 32) :
    (w.env.sr &&& SR_S ≠ 0 → (w.env.nativeDataCacheable address = true ↔
      w.client.cache.mode address.toNat < 2)) ∧
    ∀ address' : BitVec 32, address' >>> 12 = address >>> 12 →
      w.env.nativeDataCacheable address' = w.env.nativeDataCacheable address :=
  ⟨fun hs => hw.sameControls.cacheable_iff hs address,
    fun _ hpage => nativeDataCacheable_page hpage w.env⟩

/-- Copyback by default, an uncached top byte, and a CACR write with invalidation. -/
theorem native_routing_agrees_acr : ∃ w : RoutedCpu, w.Reachable ∧ w.env.cacr = 0x83000000 ∧
    w.client.cache.cacr = 0x82000000 ∧ w.env.nativeDataCacheable 0x40001234 = true ∧
    ¬w.client.cache.mode (0x10001234 : BitVec 32).toNat < 2 := by
  have hcacr : RoutedCpu.Reachable _ := .call (.movec 2 0x83000000) .start rfl
  have hidle : RoutedCpu.Reachable _ := .call .next hcacr rfl
  have hw : RoutedCpu.Reachable _ := .call (.movec 4 0x1000c040) hidle rfl
  refine ⟨_, hw, rfl, by decide, by decide, fun hcached => ?_⟩
  have hnative := ((native_routing_agrees hw 0x10001234).1 (by decide)).mpr hcached
  exact absurd hnative (by decide)

end Quetz
