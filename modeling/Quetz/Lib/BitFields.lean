import Mathlib.Algebra.BigOperators.Group.List.Basic
import Mathlib.Algebra.Order.Ring.Nat
import Mathlib.Tactic.Ring

/-!
# Words Made of Bit Fields

An instruction word is a row of fields, lowest bits first. A format is the list of the widths and
values of its fields; `pack` is the word of a format, `field` is the shift and the mask with which
a decoder takes a field out of a word, and `cut` takes all of them. A value that was taken out is
widened again by its sign or by zeros.

## Main results

* `field_pack`: a decoder finds every field of a packed word.
* `cut_pack`, `pack_cut`: a word is made of the fields that a decoder finds in it.
* `sshiftRight_shiftLeft`, `and_mask`: widening by shifts and by a mask.
-/

namespace BitFields

/-- The `n` bits of a word from bit `lo` on. -/
def field (w lo n : ℕ) : ℕ := (w >>> lo) &&& (2 ^ n - 1)

theorem field_eq (w lo n : ℕ) : field w lo n = w / 2 ^ lo % 2 ^ n := by
  rw [field, Nat.and_two_pow_sub_one_eq_mod, Nat.shiftRight_eq_div_pow]

theorem field_lt (w lo n : ℕ) : field w lo n < 2 ^ n := by
  rw [field_eq]
  exact Nat.mod_lt _ (Nat.two_pow_pos n)

/-- The high bits of a word do not matter to a field below them. -/
theorem field_mod {lo n m : ℕ} (h : lo + n ≤ m) (w : ℕ) :
    field (w % 2 ^ m) lo n = field w lo n := by
  obtain ⟨k, rfl⟩ := Nat.exists_eq_add_of_le h
  rw [field_eq, field_eq, Nat.add_assoc, Nat.pow_add, Nat.mod_mul_right_div_self, Nat.pow_add,
    Nat.mod_mul_right_mod]

/-- A field of a field. -/
theorem field_field (lo : ℕ) {n lo' n' : ℕ} (h : lo' + n' ≤ n) (w : ℕ) :
    field (field w lo n) lo' n' = field w (lo + lo') n' := by
  rw [field_eq w lo n, field_mod h, field_eq, field_eq, Nat.div_div_eq_div_mul, ← Nat.pow_add]

/-- The word of a format; a field is its width and its value. -/
def pack : List (ℕ × ℕ) → ℕ
  | [] => 0
  | f :: fs => f.2 + 2 ^ f.1 * pack fs

/-- The number of bits of a format. -/
def width (fs : List (ℕ × ℕ)) : ℕ := (fs.map Prod.fst).sum

/-- Every value fits its field. -/
def Fits (fs : List (ℕ × ℕ)) : Prop := ∀ f ∈ fs, f.2 < 2 ^ f.1

/-- The fields of a word, by their widths. -/
def cut : List ℕ → ℕ → List (ℕ × ℕ)
  | [], _ => []
  | n :: ns, w => (n, w % 2 ^ n) :: cut ns (w / 2 ^ n)

section

variable {f : ℕ × ℕ} {fs before after : List (ℕ × ℕ)} {n v : ℕ}

theorem Fits.tail (h : Fits (f :: fs)) : Fits fs := fun g hg => h g (List.mem_cons_of_mem _ hg)

theorem pack_lt (h : Fits fs) : pack fs < 2 ^ width fs := by
  induction fs with
  | nil => simp [pack, width]
  | cons f fs ih =>
      have hf := h f List.mem_cons_self
      have hfs := ih h.tail
      rw [pack, width, List.map_cons, List.sum_cons, Nat.pow_add]
      calc f.2 + 2 ^ f.1 * pack fs < 2 ^ f.1 + 2 ^ f.1 * pack fs := Nat.add_lt_add_right hf _
        _ = 2 ^ f.1 * (pack fs + 1) := by ring
        _ ≤ 2 ^ f.1 * 2 ^ width fs := Nat.mul_le_mul_left _ hfs

/-- The fields before a position are shifted out. -/
theorem pack_shift (h : Fits before) (after : List (ℕ × ℕ)) :
    pack (before ++ after) / 2 ^ width before = pack after := by
  induction before with
  | nil => simp [width]
  | cons f fs ih =>
      have hf := h f List.mem_cons_self
      have hdiv : (f.2 + 2 ^ f.1 * pack (fs ++ after)) / 2 ^ f.1 = pack (fs ++ after) := by
        rw [Nat.add_mul_div_left _ _ (Nat.two_pow_pos _), Nat.div_eq_of_lt hf, Nat.zero_add]
      rw [List.cons_append, pack, width, List.map_cons, List.sum_cons, Nat.pow_add,
        ← Nat.div_div_eq_div_mul, hdiv]
      exact ih h.tail

/-- **A decoder finds every field of a packed word.** -/
theorem field_pack (h : Fits before) (hv : v < 2 ^ n) (after : List (ℕ × ℕ)) :
    field (pack (before ++ (n, v) :: after)) (width before) n = v := by
  rw [field_eq, pack_shift h, pack, Nat.add_mul_mod_self_left, Nat.mod_eq_of_lt hv]

/-- **Cutting a packed word gives its fields back.** -/
theorem cut_pack (h : Fits fs) : cut (fs.map Prod.fst) (pack fs) = fs := by
  induction fs with
  | nil => rfl
  | cons f fs ih =>
      have hf := h f List.mem_cons_self
      rw [List.map_cons, cut, pack, Nat.add_mul_mod_self_left, Nat.mod_eq_of_lt hf,
        Nat.add_mul_div_left _ _ (Nat.two_pow_pos _), Nat.div_eq_of_lt hf, Nat.zero_add, ih h.tail]

/-- Words of the same widths are equal only if all their fields are. -/
theorem pack_inj {gs : List (ℕ × ℕ)} (hf : Fits fs) (hg : Fits gs)
    (hwidths : fs.map Prod.fst = gs.map Prod.fst) (h : pack fs = pack gs) : fs = gs := by
  rw [← cut_pack hf, h, hwidths, cut_pack hg]

/-- The next field of a cut. -/
theorem cut_shift (n : ℕ) (ns : List ℕ) (lo w : ℕ) :
    cut (n :: ns) (w / 2 ^ lo) = (n, field w lo n) :: cut ns (w / 2 ^ (lo + n)) := by
  rw [cut, field_eq, Nat.div_div_eq_div_mul, ← Nat.pow_add]

/-- **A word is made of the fields that are cut from it.** -/
theorem pack_cut (ns : List ℕ) (w : ℕ) : pack (cut ns w) = w % 2 ^ ns.sum := by
  induction ns generalizing w with
  | nil => rw [cut, pack, List.sum_nil, pow_zero, Nat.mod_one]
  | cons n ns ih => rw [cut, pack, ih, List.sum_cons, Nat.pow_add, Nat.mod_mul]

end

/-! ### Widening -/

section

variable {w k : ℕ}

/-- Shifting a value up and down again, with its sign, extends the low bits. -/
theorem sshiftRight_shiftLeft (v : BitVec w) (hk : 0 < k) (hkw : k ≤ w) :
    (v <<< (w - k)).sshiftRight (w - k) = (v.setWidth k).signExtend w := by
  ext i hi
  rw [BitVec.getElem_sshiftRight, BitVec.getElem_signExtend]
  by_cases hik : i < k
  · simp [hik, show w - k + i < w by omega, show w - k + i - (w - k) = i by omega, hi]
  · have hmsb : (v <<< (w - k)).msb = (v.setWidth k).msb := by
      simp [BitVec.msb_eq_getLsbD_last]
      grind
    simp [hik, show ¬ w - k + i < w by omega, hmsb]

/-- A mask cuts off the high bits. -/
theorem and_mask (v : BitVec w) (hkw : k < w) :
    v &&& ((1#w <<< k) - 1#w) = (v.setWidth k).setWidth w := by
  refine BitVec.eq_of_toNat_eq ?_
  have hpow : 2 ^ k < 2 ^ w := Nat.pow_lt_pow_right (by decide) hkw
  have hmask : ((1#w <<< k) - 1#w).toNat = 2 ^ k - 1 := by
    have hone : (1#w).toNat = 1 := by
      rw [BitVec.toNat_ofNat, Nat.mod_eq_of_lt (by have := Nat.two_pow_pos k; omega)]
    have hshift : (1#w <<< k).toNat = 2 ^ k := by
      rw [BitVec.toNat_shiftLeft, hone, Nat.shiftLeft_eq, Nat.one_mul, Nat.mod_eq_of_lt hpow]
    rw [BitVec.toNat_sub, hone, hshift]
    have := Nat.two_pow_pos k
    rw [show 2 ^ w - 1 + 2 ^ k = 2 ^ k - 1 + 2 ^ w by omega, Nat.add_mod_right,
      Nat.mod_eq_of_lt (by omega)]
  rw [BitVec.toNat_and, hmask, Nat.and_two_pow_sub_one_eq_mod, BitVec.toNat_setWidth,
    BitVec.toNat_setWidth, Nat.mod_eq_of_lt (a := v.toNat % 2 ^ k)]
  exact (Nat.mod_lt _ (Nat.two_pow_pos k)).trans hpow

theorem getLsbD_lowMask {i : ℕ} (hi : i < w) :
    (BitVec.ofNat w (2 ^ k - 1)).getLsbD i = decide (i < k) := by
  rw [BitVec.getLsbD_ofNat, Nat.testBit_two_pow_sub_one]
  simp [hi]

/-- A mask leaves the low `k` bits. -/
theorem and_lowMask (v : BitVec w) :
    v &&& BitVec.ofNat w (2 ^ k - 1) = BitVec.ofNat w (v.toNat % 2 ^ k) := by
  refine BitVec.eq_of_getLsbD_eq fun i hi => ?_
  rw [BitVec.getLsbD_and, getLsbD_lowMask hi, BitVec.getLsbD_ofNat, Nat.testBit_mod_two_pow]
  simp [hi, BitVec.getLsbD, Bool.and_comm]

/-- Replacing the low `k` bits of a word by masks. -/
theorem merge_lowMask (old val : BitVec w) :
    (old &&& ~~~BitVec.ofNat w (2 ^ k - 1)) ||| (val &&& BitVec.ofNat w (2 ^ k - 1)) =
      BitVec.ofNat w (old.toNat / 2 ^ k * 2 ^ k + val.toNat % 2 ^ k) := by
  refine BitVec.eq_of_getLsbD_eq fun i hi => ?_
  rw [BitVec.getLsbD_or, BitVec.getLsbD_and, BitVec.getLsbD_not, BitVec.getLsbD_and,
    getLsbD_lowMask hi,
    BitVec.getLsbD_ofNat, Nat.mul_comm,
    Nat.testBit_two_pow_mul_add _ (Nat.mod_lt _ (Nat.two_pow_pos k))]
  by_cases hik : i < k
  · simp [hi, hik, BitVec.getLsbD]
  · rw [if_neg hik, ← Nat.shiftRight_eq_div_pow, Nat.testBit_shiftRight]
    simp [hi, hik, BitVec.getLsbD, Nat.add_sub_cancel' (not_lt.mp hik)]

end

end BitFields
