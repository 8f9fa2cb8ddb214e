import Mathlib.Algebra.BigOperators.Ring.Finset
import Mathlib.Tactic.Ring

/-!
# The Radix-2 Fourier Transform

The discrete Fourier transform over a commutative ring, and how it is assembled by decimation in
time. A transform of length `2 * h` is two transforms of length `h`, of the even and of the odd
entries; `butterfly` computes all transforms of length `2 * h` of a vector from those of length
`h`. The blocks of a vector are in bit-reversed order, so that the halves of a block are next to
each other.

`stage s d w a` is the vector after `s` of `s + d` stages. All that is asked of `w` is that its
power of exponent half the length is `-1`.

## Main results

* `bitrev_bitrev`: reversing the bits twice.
* `butterfly_stage`: one stage.
* `stage_last`: after the last stage the vector is the transform.
-/

open Finset

namespace Dft

/-! ### Bit reversal -/

/-- The number whose `m` bits are those of `i` in the other order. -/
def bitrev : ℕ → ℕ → ℕ
  | 0, _ => 0
  | m + 1, i => i % 2 * 2 ^ m + bitrev m (i / 2)

theorem bitrev_even (m g : ℕ) : bitrev (m + 1) (2 * g) = bitrev m g := by
  rw [bitrev, Nat.mul_mod_right, Nat.zero_mul, Nat.zero_add, Nat.mul_div_cancel_left g Nat.two_pos]

theorem bitrev_odd (m g : ℕ) : bitrev (m + 1) (2 * g + 1) = 2 ^ m + bitrev m g := by
  have hmod : (2 * g + 1) % 2 = 1 := by omega
  have hdiv : (2 * g + 1) / 2 = g := by omega
  rw [bitrev, hmod, hdiv, Nat.one_mul]

theorem bitrev_lt (m i : ℕ) : bitrev m i < 2 ^ m := by
  induction m generalizing i with
  | zero => exact Nat.one_pos
  | succ m ih =>
      have hrest := ih (i / 2)
      have htop : i % 2 * 2 ^ m ≤ 1 * 2 ^ m := Nat.mul_le_mul_right _ (by omega)
      rw [bitrev, pow_succ]
      omega

/-- The bit at the top becomes the lowest one. -/
theorem bitrev_top {m i : ℕ} (b : ℕ) (hi : i < 2 ^ m) (hb : b < 2) :
    bitrev (m + 1) (b * 2 ^ m + i) = 2 * bitrev m i + b := by
  induction m generalizing i with
  | zero =>
      obtain rfl : i = 0 := by simpa using hi
      simp only [bitrev, pow_zero, Nat.mul_one, Nat.add_zero, Nat.mul_zero, Nat.zero_add]
      exact Nat.mod_eq_of_lt hb
  | succ m ih =>
      have hsplit : b * 2 ^ (m + 1) = 2 * (b * 2 ^ m) := by ring
      have hmod : (b * 2 ^ (m + 1) + i) % 2 = i % 2 := by omega
      have hdiv : (b * 2 ^ (m + 1) + i) / 2 = b * 2 ^ m + i / 2 := by omega
      have hhalf : i / 2 < 2 ^ m := by
        rw [pow_succ] at hi
        omega
      rw [bitrev, hmod, hdiv, ih hhalf, bitrev]
      ring

/-- **Bit reversal is an involution.** -/
theorem bitrev_bitrev {m i : ℕ} (hi : i < 2 ^ m) : bitrev m (bitrev m i) = i := by
  induction m generalizing i with
  | zero =>
      obtain rfl : i = 0 := by simpa using hi
      rfl
  | succ m ih =>
      have hhalf : i / 2 < 2 ^ m := by
        rw [pow_succ] at hi
        omega
      have hbit : i % 2 < 2 := Nat.mod_lt _ Nat.two_pos
      have hlow : bitrev (m + 1) i = i % 2 * 2 ^ m + bitrev m (i / 2) := rfl
      rw [hlow, bitrev_top _ (bitrev_lt m _) hbit, ih hhalf]
      omega

/-! ### The transform -/

variable {R : Type*} [CommRing R]

/-- The discrete Fourier transform of the first `n` entries of `a`. -/
def dft (n : ℕ) (w : R) (a : ℕ → R) (k : ℕ) : R := ∑ t ∈ range n, a t * w ^ (k * t)

theorem sum_range_two_mul (f : ℕ → R) (h : ℕ) : ∑ t ∈ range (2 * h), f t =
    ∑ t ∈ range h, f (2 * t) + ∑ t ∈ range h, f (2 * t + 1) := by
  induction h with
  | zero => simp
  | succ h ih =>
      have htwo : 2 * (h + 1) = 2 * h + 1 + 1 := by ring
      rw [htwo, sum_range_succ, sum_range_succ, ih, sum_range_succ, sum_range_succ]
      ring

/-- The entries at even and at odd places are transformed apart. -/
theorem dft_two_mul (h : ℕ) (w : R) (a : ℕ → R) (k : ℕ) : dft (2 * h) w a k =
    dft h (w ^ 2) (fun t => a (2 * t)) k + w ^ k * dft h (w ^ 2) (fun t => a (2 * t + 1)) k := by
  rw [dft, dft, dft, sum_range_two_mul, mul_sum]
  congr 1
  · refine sum_congr rfl fun t _ => ?_
    rw [← pow_mul]
    congr 2
    ring
  · refine sum_congr rfl fun t _ => ?_
    rw [← pow_mul, mul_left_comm, ← pow_add]
    congr 2
    ring

/-- A transform repeats after its length. -/
theorem dft_add_length {n : ℕ} {w : R} (hw : w ^ n = 1) (a : ℕ → R) (k : ℕ) :
    dft n w a (k + n) = dft n w a k := by
  refine sum_congr rfl fun t _ => ?_
  rw [Nat.add_mul, pow_add, pow_mul w n t, hw, one_pow, mul_one]

/-- The first half of a transform. -/
theorem dft_low (h : ℕ) (w : R) (a : ℕ → R) (k : ℕ) :
    dft h (w ^ 2) (fun t => a (2 * t)) k + w ^ k * dft h (w ^ 2) (fun t => a (2 * t + 1)) k =
      dft (2 * h) w a k :=
  (dft_two_mul h w a k).symm

/-- The second half of a transform. -/
theorem dft_high {h : ℕ} {w : R} (hw : w ^ h = -1) (a : ℕ → R) (k : ℕ) :
    dft h (w ^ 2) (fun t => a (2 * t)) k - w ^ k * dft h (w ^ 2) (fun t => a (2 * t + 1)) k =
      dft (2 * h) w a (k + h) := by
  have hsq : (w ^ 2) ^ h = 1 := by
    rw [← pow_mul, Nat.mul_comm, pow_mul, hw, neg_one_sq]
  rw [dft_two_mul, dft_add_length hsq, dft_add_length hsq, pow_add, hw, mul_neg_one, neg_mul,
    sub_eq_add_neg]

/-! ### Stages -/

/-- The block of an entry, and its place in the block. -/
theorem div_mod_tile {n q : ℕ} (g : ℕ) (hq : q < n) :
    (g * n + q) / n = g ∧ (g * n + q) % n = q :=
  (Nat.div_mod_unique (Nat.zero_lt_of_lt hq)).mpr ⟨by ring, hq⟩

/-- One stage: the pairs of entries `h` apart are combined. -/
def butterfly (h : ℕ) (w : R) (f : ℕ → R) (i : ℕ) : R :=
  if i % (2 * h) < h then f i + w ^ (i % h) * f (i + h) else f (i - h) - w ^ (i % h) * f i

/-- The vector after `s` of `s + d` stages: each block of `2 ^ s` entries is the transform of
every `2 ^ d`-th entry of `a`, from the bit-reversed number of the block on. -/
def stage (s d : ℕ) (w : R) (a : ℕ → R) (i : ℕ) : R :=
  dft (2 ^ s) (w ^ 2 ^ d) (fun t => a (bitrev d (i / 2 ^ s) + 2 ^ d * t)) (i % 2 ^ s)

/-- Before the first stage the vector is in bit-reversed order. -/
theorem stage_zero (d : ℕ) (w : R) (a : ℕ → R) (i : ℕ) : stage 0 d w a i = a (bitrev d i) := by
  simp [stage, dft, Nat.mod_one]

/-- After the last stage the vector is the transform. -/
theorem stage_last {s i : ℕ} (hi : i < 2 ^ s) (w : R) (a : ℕ → R) :
    stage s 0 w a i = dft (2 ^ s) w a i := by
  simp [stage, dft, bitrev, Nat.mod_eq_of_lt hi]

/-- The halves of a block before the stage that joins them: the even and the odd entries. -/
theorem stage_even (s d : ℕ) (w : R) (a : ℕ → R) (g : ℕ) {q : ℕ} (hq : q < 2 ^ s) :
    stage s (d + 1) w a (2 * g * 2 ^ s + q) = dft (2 ^ s) ((w ^ 2 ^ d) ^ 2)
      (fun t => a (bitrev d g + 2 ^ d * (2 * t))) q := by
  obtain ⟨hdiv, hmod⟩ := div_mod_tile (2 * g) hq
  rw [stage, hdiv, hmod, bitrev_even, ← pow_mul, ← pow_succ]
  simp only [pow_succ, Nat.mul_assoc]

theorem stage_odd (s d : ℕ) (w : R) (a : ℕ → R) (g : ℕ) {q : ℕ} (hq : q < 2 ^ s) :
    stage s (d + 1) w a ((2 * g + 1) * 2 ^ s + q) = dft (2 ^ s) ((w ^ 2 ^ d) ^ 2)
      (fun t => a (bitrev d g + 2 ^ d * (2 * t + 1))) q := by
  obtain ⟨hdiv, hmod⟩ := div_mod_tile (2 * g + 1) hq
  rw [stage, hdiv, hmod, bitrev_odd, ← pow_mul, ← pow_succ]
  congr 1
  funext t
  congr 1
  ring

/-- **One stage**: the butterflies of width `2 ^ s` join the transforms of length `2 ^ s` to those
of twice the length. -/
theorem butterfly_stage {s d : ℕ} {w : R} (hw : w ^ 2 ^ (s + d) = -1) (a : ℕ → R) (i : ℕ) :
    butterfly (2 ^ s) (w ^ 2 ^ d) (stage s (d + 1) w a) i = stage (s + 1) d w a i := by
  have hpos := Nat.two_pow_pos s
  have hhalf : (w ^ 2 ^ d) ^ 2 ^ s = -1 := by rw [← pow_mul, ← pow_add, Nat.add_comm d s, hw]
  have hblock : (2 : ℕ) ^ (s + 1) = 2 * 2 ^ s := by rw [pow_succ, Nat.mul_comm]
  have hi := Nat.div_add_mod i (2 * 2 ^ s)
  have hq := Nat.mod_lt i (Nat.mul_pos Nat.two_pos hpos)
  have hjoined : stage (s + 1) d w a i = dft (2 * 2 ^ s) (w ^ 2 ^ d)
      (fun t => a (bitrev d (i / (2 * 2 ^ s)) + 2 ^ d * t)) (i % (2 * 2 ^ s)) := by
    rw [stage, hblock]
  rw [butterfly, hjoined]
  obtain ⟨g, hg⟩ : ∃ g, g = i / (2 * 2 ^ s) := ⟨_, rfl⟩
  obtain ⟨q, hqi⟩ : ∃ q, q = i % (2 * 2 ^ s) := ⟨_, rfl⟩
  rw [← hg, ← hqi] at hi ⊢
  rw [← hqi] at hq
  split_ifs with hlow
  · have hleft : i = 2 * g * 2 ^ s + q := by rw [← hi]; ring
    have hright : i + 2 ^ s = (2 * g + 1) * 2 ^ s + q := by rw [← hi]; ring
    have hmod : i % 2 ^ s = q := by rw [hleft, (div_mod_tile (2 * g) hlow).2]
    rw [hmod, hright, stage_odd s d w a g hlow, hleft, stage_even s d w a g hlow]
    exact dft_low _ _ (fun t => a (bitrev d g + 2 ^ d * t)) q
  · obtain ⟨r, rfl⟩ := Nat.exists_eq_add_of_le (Nat.not_lt.mp hlow)
    have hr : r < 2 ^ s := by omega
    have hright : i = (2 * g + 1) * 2 ^ s + r := by rw [← hi]; ring
    have hleft : i - 2 ^ s = 2 * g * 2 ^ s + r := by
      rw [hright, Nat.add_mul, Nat.one_mul]
      omega
    have hmod : i % 2 ^ s = r := by rw [hright, (div_mod_tile (2 * g + 1) hr).2]
    rw [hmod, hleft, stage_even s d w a g hr, hright, stage_odd s d w a g hr, Nat.add_comm (2 ^ s)]
    exact dft_high hhalf (fun t => a (bitrev d g + 2 ^ d * t)) r

end Dft
