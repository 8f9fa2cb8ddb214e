import Mathlib.Analysis.SpecialFunctions.Trigonometric.Basic
import Quetz.Lib.CheckedArray
import Quetz.Lib.Dft

/-!
# The Host-Side FFT

`quetz_fft_radix2` (`src/quetz_fft.h`): the in-place radix-2 transform that `quetz.FFTKernel` runs.
First the points are put in bit-reversed order by swapping, then `logn` stages of butterflies
follow.

A point has an addition, a subtraction and a multiplication, which may round: nothing is asked of
them before the last section. The 32-bit counters are natural numbers. A shift by 32 or more and an
index outside the array are undefined, and `none`.

## Main results

* `reverseBits_eq`: the loop over the bits is `Dft.bitrev`.
* `quetzFftRadix2_defined`: with any arithmetic, nothing undefined happens.
* `quetzFftRadix2_dft`: with exact arithmetic, the result is the discrete Fourier transform.
-/

namespace Quetz

open CheckedArray Dft

/-! ### Points -/

/-- Host-side interleaved complex float. -/
@[ext]
structure QuetzCf (F : Type) where
  re : F
  im : F
deriving DecidableEq, Repr

namespace QuetzCf

variable {F : Type}

/-- The sums, differences and products of the butterflies. -/
instance [Add F] : Add (QuetzCf F) := ⟨fun u t => ⟨u.re + t.re, u.im + t.im⟩⟩

instance [Sub F] : Sub (QuetzCf F) := ⟨fun u t => ⟨u.re - t.re, u.im - t.im⟩⟩

instance [Add F] [Sub F] [Mul F] : Mul (QuetzCf F) :=
  ⟨fun w v => ⟨w.re * v.re - w.im * v.im, w.re * v.im + w.im * v.re⟩⟩

end QuetzCf

/-! ### The function -/

/-- A 32-bit left shift. -/
def shiftLeft32 (x s : ℕ) : Option ℕ := if s < 32 then some (x <<< s % 2 ^ 32) else none

/-- A 32-bit right shift. -/
def shiftRight32 (x s : ℕ) : Option ℕ := if s < 32 then some (x >>> s) else none

/-- The loop that counts `logn`; it ends at the latest with an undefined shift. -/
def lognLoop (n : ℕ) : ℕ → ℕ → Option ℕ
  | 0, _ => none
  | fuel + 1, logn => do
    let power ← shiftLeft32 1 logn
    if power < n then lognLoop n fuel (logn + 1) else some logn

def lognOf (n : ℕ) : Option ℕ := lognLoop n 33 0

/-- The loop over the bits of an index: the bits still to take, `r` and `x`. -/
def reverseBits : ℕ → ℕ → ℕ → Option ℕ
  | 0, r, _ => some r
  | b + 1, r, x => do
    let r ← shiftLeft32 r 1
    let r := r ||| (x &&& 1)
    let x ← shiftRight32 x 1
    reverseBits b r x

variable {P : Type}

/-- One round of the bit-reversal permutation. -/
def swapReversed (logn i : ℕ) (a : List P) : Option (List P) := do
  let r ← reverseBits logn 0 i
  if r > i then
    let t ← a[i]?
    let u ← a[r]?
    let a ← put a i u
    put a r t
  else some a

section

variable [Add P] [Sub P] [Mul P]

/-- One butterfly; `twiddle e` stands for `exp (-2 * pi * i * e / n)` in float. -/
def butterflyAt (twiddle : ℕ → P) (logn s half k : ℕ) (a : List P) : Option (List P) := do
  let j := k &&& (half - 1)
  let group ← shiftRight32 k (s - 1)
  let width ← shiftLeft32 half 1
  let i0 := (group * width % 2 ^ 32 + j) % 2 ^ 32
  let i1 := (i0 + half) % 2 ^ 32
  let e ← shiftLeft32 j (logn - s)
  let v ← a[i1]?
  let t := twiddle e * v
  let u ← a[i0]?
  let a ← put a i0 (u + t)
  put a i1 (u - t)

/-- A stage. -/
def stageAt (twiddle : ℕ → P) (n logn s : ℕ) (a : List P) : Option (List P) := do
  let half ← shiftLeft32 1 (s - 1)
  forLoop (butterflyAt twiddle logn s half) (n / 2) 0 a

/-- In-place radix-2 decimation-in-time FFT of `n` points. -/
def quetzFftRadix2 (twiddle : ℕ → P) (a : List P) (n : ℕ) : Option (List P) := do
  let logn ← lognOf n
  let a ← forLoop (swapReversed logn) n 0 a
  forLoop (stageAt twiddle n logn) logn 1 a

end

example : quetzFftRadix2 (fun e => if e = 0 then ⟨1, 0⟩ else ⟨0, -1⟩)
    ([⟨1, 0⟩, ⟨2, 0⟩, ⟨3, 0⟩, ⟨4, 0⟩] : List (QuetzCf ℤ)) 4 =
      some [⟨10, 0⟩, ⟨-2, 2⟩, ⟨-2, 0⟩, ⟨-2, -2⟩] := by decide

/-! ### Counters -/

theorem shiftLeft32_eq {x s : ℕ} (hs : s < 32) (hx : x * 2 ^ s < 2 ^ 32) :
    shiftLeft32 x s = some (x * 2 ^ s) := by
  rw [shiftLeft32, if_pos hs, Nat.shiftLeft_eq, Nat.mod_eq_of_lt hx]

theorem shiftRight32_eq {x s : ℕ} (hs : s < 32) : shiftRight32 x s = some (x / 2 ^ s) := by
  rw [shiftRight32, if_pos hs, Nat.shiftRight_eq_div_pow]

/-- A power of two that fits. -/
theorem shiftLeft32_one {s : ℕ} (hs : s < 32) : shiftLeft32 1 s = some (2 ^ s) := by
  have hpow : 1 * 2 ^ s < 2 ^ 32 := by
    rw [Nat.one_mul]
    exact Nat.pow_lt_pow_right Nat.one_lt_two hs
  rw [shiftLeft32_eq hs hpow, Nat.one_mul]

/-- `logn` is the exponent of a power of two. -/
theorem lognLoop_two_pow (d l fuel : ℕ) (hl : l + d < 32) (hfuel : d < fuel) :
    lognLoop (2 ^ (l + d)) fuel l = some (l + d) := by
  induction d generalizing l fuel with
  | zero =>
      obtain ⟨fuel, rfl⟩ : ∃ f, fuel = f + 1 := ⟨fuel - 1, by omega⟩
      have hl' : l < 32 := hl
      rw [lognLoop, shiftLeft32_one hl']
      exact if_neg (Nat.lt_irrefl _)
  | succ d ih =>
      obtain ⟨fuel, rfl⟩ : ∃ f, fuel = f + 1 := ⟨fuel - 1, by omega⟩
      have hlt : 2 ^ l < 2 ^ (l + (d + 1)) := Nat.pow_lt_pow_right Nat.one_lt_two (by omega)
      have hnext := ih (l + 1) fuel (by omega) (by omega)
      rw [Nat.add_assoc, Nat.add_comm 1 d] at hnext
      rw [lognLoop, shiftLeft32_one (by omega)]
      exact (if_pos hlt).trans hnext

theorem lognOf_two_pow {m : ℕ} (hm : m < 32) : lognOf (2 ^ m) = some m := by
  have h := lognLoop_two_pow m 0 33 (by omega) (by omega)
  rwa [Nat.zero_add] at h

/-- The loop over the bits reverses them. -/
theorem reverseBits_eq (b r x : ℕ) (hr : (r + 1) * 2 ^ b ≤ 2 ^ 32) :
    reverseBits b r x = some (r * 2 ^ b + bitrev b x) := by
  induction b generalizing r x with
  | zero => simp [reverseBits, bitrev]
  | succ b ih =>
      have hbit : x % 2 < 2 := Nat.mod_lt _ Nat.two_pos
      have hdouble : (2 * r + 2) * 2 ^ b ≤ 2 ^ 32 := by
        rw [pow_succ] at hr
        calc (2 * r + 2) * 2 ^ b = (r + 1) * (2 ^ b * 2) := by ring
          _ ≤ 2 ^ 32 := hr
      have hsmall : 2 * r + 2 ≤ 2 ^ 32 :=
        (Nat.le_mul_of_pos_right _ (Nat.two_pow_pos b)).trans hdouble
      have hor : r * 2 ^ 1 ||| (x &&& 1) = 2 * r + x % 2 := by
        rw [Nat.and_one_is_mod, ← Nat.shiftLeft_eq, ← Nat.shiftLeft_add_eq_or_of_lt (by omega),
          Nat.shiftLeft_eq]
        omega
      have hnext := ih (2 * r + x % 2) (x / 2 ^ 1)
        ((Nat.mul_le_mul_right (2 ^ b) (by omega)).trans hdouble)
      rw [reverseBits, shiftLeft32_eq (by omega) (by omega), shiftRight32_eq (by omega)]
      show reverseBits b (r * 2 ^ 1 ||| (x &&& 1)) (x / 2 ^ 1) = _
      rw [hor, hnext, bitrev, pow_succ 2 b, pow_one]
      congr 1
      ring

/-! ### The bit-reversal permutation -/

variable {f : ℕ → P}

/-- The vector when the swaps of the indices below `i` are done: both ends of a pair whose smaller
index was reached are in place. -/
def swapped (m i : ℕ) (f : ℕ → P) (x : ℕ) : P :=
  if x < i ∨ bitrev m x < i then f (bitrev m x) else f x

/-- One round: the pair of `i`, or nothing if the pair was swapped before. -/
theorem swapReversed_swapped {m i : ℕ} (hm : m < 32) (hi : i < 2 ^ m) (f : ℕ → P) :
    swapReversed m i (vec (2 ^ m) (swapped m i f)) = some (vec (2 ^ m) (swapped m (i + 1) f)) := by
  have hr := bitrev_lt m i
  have hback := bitrev_bitrev hi
  have hpow : 2 ^ m ≤ 2 ^ 32 := Nat.pow_le_pow_right Nat.two_pos (by omega)
  rw [swapReversed, reverseBits_eq m 0 i (by omega)]
  show (if 0 * 2 ^ m + bitrev m i > i then _ else _) = _
  rw [Nat.zero_mul, Nat.zero_add]
  split_ifs with hswap
  · have hhere : swapped m i f i = f i := if_neg (by omega)
    have hthere : swapped m i f (bitrev m i) = f (bitrev m i) := if_neg (by omega)
    rw [getElem?_vec hi, getElem?_vec hr]
    show (put (vec (2 ^ m) (swapped m i f)) i _).bind _ = _
    rw [put_vec hi]
    show put _ _ _ = _
    rw [put_vec hr, hhere, hthere]
    refine congrArg some (vec_congr fun x hx => ?_)
    have hinj := bitrev_bitrev hx
    rcases eq_or_ne x (bitrev m i) with rfl | hxr
    · rw [Function.update_self, swapped, if_pos (by omega), hback]
    · rw [Function.update_of_ne hxr]
      rcases eq_or_ne x i with rfl | hxi
      · rw [Function.update_self, swapped, if_pos (by omega)]
      · have hne : bitrev m x ≠ i := fun h => hxr (by rw [← h, hinj])
        rw [Function.update_of_ne hxi, swapped, swapped]
        exact if_congr (by omega) rfl rfl
  · refine congrArg some (vec_congr fun x hx => ?_)
    have hinj := bitrev_bitrev hx
    rw [swapped, swapped]
    rcases eq_or_ne x i with rfl | hxi
    · rcases Nat.lt_or_eq_of_le (Nat.not_lt.mp hswap) with hlt | heq
      · rw [if_pos (Or.inr hlt), if_pos (by omega)]
      · rw [heq, ite_self, ite_self]
    · rcases eq_or_ne (bitrev m x) i with hxr | hxr
      · have hend : bitrev m i = x := by rw [← hxr, hinj]
        have hlt : x < i := by omega
        rw [if_pos (Or.inl hlt), if_pos (by omega)]
      · exact if_congr (by omega) rfl rfl

/-- **The permutation** puts the points in bit-reversed order. -/
theorem bitReversal_eq {m : ℕ} (hm : m < 32) (f : ℕ → P) :
    forLoop (swapReversed m) (2 ^ m) 0 (vec (2 ^ m) f) =
      some (vec (2 ^ m) fun x => f (bitrev m x)) := by
  have hloop := forLoop_eq (fun i => vec (2 ^ m) (swapped m i f))
    (fun i _ hi => swapReversed_swapped hm hi f) (Nat.zero_add (2 ^ m))
  have hstart : vec (2 ^ m) (swapped m 0 f) = vec (2 ^ m) f :=
    vec_congr fun x _ => if_neg (by omega)
  have hend : vec (2 ^ m) (swapped m (2 ^ m) f) = vec (2 ^ m) fun x => f (bitrev m x) :=
    vec_congr fun x hx => if_pos (Or.inl hx)
  rwa [hstart, hend] at hloop

/-! ### Butterflies -/

/-- The number of the butterfly of width `h` that an entry belongs to. -/
def pairOf (h x : ℕ) : ℕ := x / (2 * h) * h + x % h

/-- The first entry of a butterfly; the second one is `h` further. -/
def firstOf (h k : ℕ) : ℕ := k / h * (2 * h) + k % h

section

variable {h k x : ℕ}

theorem firstOf_div_mod (hh : 0 < h) (k : ℕ) :
    firstOf h k / (2 * h) = k / h ∧ firstOf h k % (2 * h) = k % h :=
  div_mod_tile (k / h) ((Nat.mod_lt k hh).trans (by omega))

theorem second_div_mod (hh : 0 < h) (k : ℕ) :
    (firstOf h k + h) / (2 * h) = k / h ∧ (firstOf h k + h) % (2 * h) = k % h + h := by
  have hlt := Nat.mod_lt k hh
  rw [firstOf, Nat.add_assoc]
  exact div_mod_tile (k / h) (by omega)

theorem firstOf_mod (hh : 0 < h) (k : ℕ) : firstOf h k % h = k % h := by
  have hsplit : firstOf h k = k / h * 2 * h + k % h := by
    rw [firstOf]
    ring
  rw [hsplit, (div_mod_tile _ (Nat.mod_lt k hh)).2]

theorem second_mod (hh : 0 < h) (k : ℕ) : (firstOf h k + h) % h = k % h := by
  rw [Nat.add_mod_right, firstOf_mod hh]

/-- The entries of a butterfly. -/
theorem pairOf_eq_iff (hh : 0 < h) : pairOf h x = k ↔ x = firstOf h k ∨ x = firstOf h k + h := by
  constructor
  · rintro rfl
    obtain ⟨hdiv, hmod⟩ := div_mod_tile (x / (2 * h)) (Nat.mod_lt x hh)
    have hfirst : firstOf h (pairOf h x) = x / (2 * h) * (2 * h) + x % h := by
      rw [firstOf, pairOf, hdiv, hmod]
    have hx := Nat.div_add_mod' x (2 * h)
    have hsplit : x % (2 * h) = x % h + h * (x / h % 2) := by rw [Nat.mul_comm 2 h, Nat.mod_mul]
    rw [hfirst]
    rcases Nat.mod_two_eq_zero_or_one (x / h) with hbit | hbit
    · rw [hbit, Nat.mul_zero] at hsplit
      omega
    · rw [hbit, Nat.mul_one] at hsplit
      omega
  · rintro (rfl | rfl)
    · rw [pairOf, (firstOf_div_mod hh k).1, firstOf_mod hh, Nat.div_add_mod']
    · rw [pairOf, (second_div_mod hh k).1, second_mod hh, Nat.div_add_mod']

/-- The array has a whole number of blocks. -/
theorem exists_blocks {m s : ℕ} (hs : s < m) :
    ∃ c, 2 ^ m = c * (2 * 2 ^ s) ∧ 2 ^ m / 2 = c * 2 ^ s := by
  obtain ⟨d, rfl⟩ := Nat.exists_eq_add_of_lt hs
  have hpow : (2 : ℕ) ^ (s + d + 1) = 2 ^ d * (2 * 2 ^ s) := by rw [pow_succ, pow_add]; ring
  refine ⟨2 ^ d, hpow, ?_⟩
  rw [hpow, Nat.mul_left_comm, Nat.mul_div_cancel_left _ Nat.two_pos]

/-- The butterflies of a stage are inside the array. -/
theorem second_lt {m s : ℕ} (hs : s < m) (hk : k < 2 ^ m / 2) :
    firstOf (2 ^ s) k + 2 ^ s < 2 ^ m := by
  obtain ⟨c, hpow, hhalf⟩ := exists_blocks hs
  rw [hhalf] at hk
  have hblock : k / 2 ^ s + 1 ≤ c := Nat.div_lt_of_lt_mul (by rwa [Nat.mul_comm])
  have hmod := Nat.mod_lt k (Nat.two_pow_pos s)
  calc firstOf (2 ^ s) k + 2 ^ s = k / 2 ^ s * (2 * 2 ^ s) + (k % 2 ^ s + 2 ^ s) := by
        rw [firstOf, Nat.add_assoc]
    _ < k / 2 ^ s * (2 * 2 ^ s) + 2 * 2 ^ s := by omega
    _ = (k / 2 ^ s + 1) * (2 * 2 ^ s) := by ring
    _ ≤ c * (2 * 2 ^ s) := Nat.mul_le_mul_right _ hblock
    _ = 2 ^ m := hpow.symm

/-- Every entry belongs to a butterfly of the stage. -/
theorem pairOf_lt {m s : ℕ} (hs : s < m) (hx : x < 2 ^ m) : pairOf (2 ^ s) x < 2 ^ m / 2 := by
  obtain ⟨c, hpow, hhalf⟩ := exists_blocks hs
  rw [hpow] at hx
  rw [hhalf]
  have hblock : x / (2 * 2 ^ s) + 1 ≤ c := Nat.div_lt_of_lt_mul (by rwa [Nat.mul_comm])
  have hmod := Nat.mod_lt x (Nat.two_pow_pos s)
  calc pairOf (2 ^ s) x < x / (2 * 2 ^ s) * 2 ^ s + 2 ^ s := Nat.add_lt_add_left hmod _
    _ = (x / (2 * 2 ^ s) + 1) * 2 ^ s := by ring
    _ ≤ c * 2 ^ s := Nat.mul_le_mul_right _ hblock

end

section

variable [Add P] [Sub P] [Mul P] {twiddle : ℕ → P} {m s k : ℕ}

/-- The array after a butterfly with the factor `c`. -/
def combined (h k : ℕ) (c : P) (f : ℕ → P) : ℕ → P :=
  Function.update (Function.update f (firstOf h k) (f (firstOf h k) + c * f (firstOf h k + h)))
    (firstOf h k + h) (f (firstOf h k) - c * f (firstOf h k + h))

/-- The exponent of the factor of a butterfly fits in 32 bits. -/
theorem exponent_lt (hm : m < 32) (hs : s < m) (k : ℕ) :
    k % 2 ^ s * 2 ^ (m - (s + 1)) < 2 ^ 32 := by
  calc k % 2 ^ s * 2 ^ (m - (s + 1)) ≤ 2 ^ s * 2 ^ (m - (s + 1)) :=
        Nat.mul_le_mul_right _ (Nat.mod_lt k (Nat.two_pow_pos s)).le
    _ = 2 ^ (s + (m - (s + 1))) := (pow_add ..).symm
    _ < 2 ^ 32 := Nat.pow_lt_pow_right Nat.one_lt_two (by omega)

/-- **One butterfly**: every shift and every index is in range, and two entries change. -/
theorem butterflyAt_vec (hm : m < 32) (hs : s < m) (hk : k < 2 ^ m / 2) (f : ℕ → P) :
    butterflyAt twiddle m (s + 1) (2 ^ s) k (vec (2 ^ m) f) =
      some (vec (2 ^ m) (combined (2 ^ s) k (twiddle (k % 2 ^ s * 2 ^ (m - (s + 1)))) f)) := by
  have hsecond := second_lt hs hk
  have hpow : 2 ^ m < 2 ^ 32 := Nat.pow_lt_pow_right Nat.one_lt_two hm
  have hwidth : 2 ^ s * 2 ^ 1 < 2 ^ 32 := by
    rw [← pow_add]
    exact Nat.pow_lt_pow_right Nat.one_lt_two (by omega)
  have hfirst : firstOf (2 ^ s) k = k / 2 ^ s * (2 ^ s * 2 ^ 1) + k % 2 ^ s := by
    rw [firstOf, pow_one, Nat.mul_comm 2]
  have hi0 : (k / 2 ^ s * (2 ^ s * 2 ^ 1) % 2 ^ 32 + k % 2 ^ s) % 2 ^ 32 = firstOf (2 ^ s) k := by
    rw [hfirst]
    rw [hfirst] at hsecond
    rw [Nat.mod_eq_of_lt (by omega), Nat.mod_eq_of_lt (by omega)]
  have hi1 : (firstOf (2 ^ s) k + 2 ^ s) % 2 ^ 32 = firstOf (2 ^ s) k + 2 ^ s :=
    Nat.mod_eq_of_lt (by omega)
  rw [butterflyAt, Nat.and_two_pow_sub_one_eq_mod, Nat.add_sub_cancel, shiftRight32_eq (by omega),
    shiftLeft32_eq (by omega) hwidth, shiftLeft32_eq (by omega) (exponent_lt hm hs k)]
  simp only [Option.bind_eq_bind, Option.bind_some, hi0, hi1, getElem?_vec hsecond,
    getElem?_vec (show firstOf (2 ^ s) k < 2 ^ m by omega),
    put_vec (show firstOf (2 ^ s) k < 2 ^ m by omega), put_vec hsecond]
  rfl

/-! ### Nothing undefined -/

/-- A stage of any points. -/
theorem stageAt_defined (hm : m < 32) (hs : s < m) (f : ℕ → P) :
    ∃ g, stageAt twiddle (2 ^ m) m (s + 1) (vec (2 ^ m) f) = some (vec (2 ^ m) g) := by
  obtain ⟨_, hloop, g, rfl⟩ : ∃ a, forLoop (butterflyAt twiddle m (s + 1) (2 ^ s)) (2 ^ m / 2) 0
      (vec (2 ^ m) f) = some a ∧ ∃ g, a = vec (2 ^ m) g := by
    refine forLoop_inv (fun _ a => ∃ g, a = vec (2 ^ m) g) ?_ (Nat.zero_add _) ⟨f, rfl⟩
    rintro k _ - hk ⟨g, rfl⟩
    exact ⟨_, butterflyAt_vec hm hs hk g, _, rfl⟩
  refine ⟨g, ?_⟩
  rw [stageAt, Nat.add_sub_cancel, shiftLeft32_one (hs.trans hm)]
  exact hloop

/-- **Nothing undefined happens** for a power of two below `2 ^ 32`, whatever the arithmetic is. -/
theorem quetzFftRadix2_defined (hm : m < 32) (a : List P) (ha : a.length = 2 ^ m) :
    ∃ out, quetzFftRadix2 twiddle a (2 ^ m) = some out ∧ out.length = 2 ^ m := by
  obtain ⟨f, rfl⟩ := exists_vec (Nat.two_pow_pos m) ha
  obtain ⟨_, hloop, g, rfl⟩ : ∃ a, forLoop (stageAt twiddle (2 ^ m) m) m 1
      (vec (2 ^ m) fun x => f (bitrev m x)) = some a ∧ ∃ g, a = vec (2 ^ m) g := by
    refine forLoop_inv (fun _ a => ∃ g, a = vec (2 ^ m) g) ?_ (Nat.add_comm 1 m) ⟨_, rfl⟩
    rintro s _ hpos hs ⟨g, rfl⟩
    obtain ⟨s, rfl⟩ := Nat.exists_eq_add_of_le' hpos
    obtain ⟨g', hg'⟩ := stageAt_defined hm (Nat.lt_of_succ_lt_succ hs) g
    exact ⟨_, hg', g', rfl⟩
  refine ⟨vec (2 ^ m) g, ?_, length_vec _ g⟩
  rw [quetzFftRadix2, lognOf_two_pow hm]
  simp only [Option.bind_eq_bind, Option.bind_some, bitReversal_eq hm]
  exact hloop

end

/-! ### The transform -/

section

variable {R : Type} [CommRing R] {w : R} {m s k : ℕ}

/-- The vector when the butterflies below `k` of a stage are done. -/
def partly (h : ℕ) (w : R) (k : ℕ) (f : ℕ → R) (x : ℕ) : R :=
  if pairOf h x < k then butterfly h w f x else f x

/-- One butterfly of a stage. -/
theorem combined_partly {h : ℕ} (hh : 0 < h) (k : ℕ) (f : ℕ → R) :
    combined h k (w ^ (k % h)) (partly h w k f) = partly h w (k + 1) f := by
  have hfirst : pairOf h (firstOf h k) = k := (pairOf_eq_iff hh).mpr (Or.inl rfl)
  have hsecond : pairOf h (firstOf h k + h) = k := (pairOf_eq_iff hh).mpr (Or.inr rfl)
  have hu : partly h w k f (firstOf h k) = f (firstOf h k) := if_neg (by omega)
  have hv : partly h w k f (firstOf h k + h) = f (firstOf h k + h) := if_neg (by omega)
  rw [combined, hu, hv]
  funext x
  rcases eq_or_ne x (firstOf h k + h) with rfl | hx2
  · rw [Function.update_self, partly, if_pos (by omega), butterfly, (second_div_mod hh k).2,
      if_neg (by omega), second_mod hh, Nat.add_sub_cancel]
  · rw [Function.update_of_ne hx2]
    rcases eq_or_ne x (firstOf h k) with rfl | hx1
    · have hlt := Nat.mod_lt k hh
      rw [Function.update_self, partly, if_pos (by omega), butterfly, (firstOf_div_mod hh k).2,
        if_pos hlt, firstOf_mod hh]
    · have hne : pairOf h x ≠ k := fun hx => by
        rcases (pairOf_eq_iff hh).mp hx with h1 | h2
        · exact hx1 h1
        · exact hx2 h2
      rw [Function.update_of_ne hx1, partly, partly]
      exact if_congr (by omega) rfl rfl

/-- **One stage** joins the transforms of length `2 ^ s`. -/
theorem stageAt_stage (hm : m < 32) (hs : s < m) (hw : w ^ 2 ^ (m - 1) = -1) (a : ℕ → R) :
    stageAt (fun e => w ^ e) (2 ^ m) m (s + 1) (vec (2 ^ m) (stage s (m - s) w a)) =
      some (vec (2 ^ m) (stage (s + 1) (m - (s + 1)) w a)) := by
  have hd : m - s = m - (s + 1) + 1 := by omega
  have hhalf : w ^ 2 ^ (s + (m - (s + 1))) = -1 := by
    rw [show s + (m - (s + 1)) = m - 1 by omega, hw]
  obtain ⟨v, hv⟩ : ∃ v, v = w ^ 2 ^ (m - (s + 1)) := ⟨_, rfl⟩
  obtain ⟨old, hold⟩ : ∃ old, old = stage s (m - s) w a := ⟨_, rfl⟩
  have hround : ∀ k, 0 ≤ k → k < 2 ^ m / 2 → butterflyAt (fun e => w ^ e) m (s + 1) (2 ^ s) k
      (vec (2 ^ m) (partly (2 ^ s) v k old)) =
        some (vec (2 ^ m) (partly (2 ^ s) v (k + 1) old)) := by
    intro k _ hk
    rw [butterflyAt_vec hm hs hk, Nat.mul_comm, pow_mul, ← hv,
      combined_partly (Nat.two_pow_pos s)]
  have hloop := forLoop_eq (fun k => vec (2 ^ m) (partly (2 ^ s) v k old)) hround
    (Nat.zero_add (2 ^ m / 2))
  have hstart : vec (2 ^ m) (partly (2 ^ s) v 0 old) = vec (2 ^ m) old :=
    vec_congr fun x _ => if_neg (Nat.not_lt_zero _)
  have hend : vec (2 ^ m) (partly (2 ^ s) v (2 ^ m / 2) old) =
      vec (2 ^ m) (stage (s + 1) (m - (s + 1)) w a) :=
    vec_congr fun x hx => by
      rw [partly, if_pos (pairOf_lt hs hx), hv, hold, hd, butterfly_stage hhalf]
  rw [hstart, hend] at hloop
  rw [stageAt, Nat.add_sub_cancel, shiftLeft32_one (hs.trans hm), ← hold]
  exact hloop

/-- **The FFT computes the discrete Fourier transform**, if the arithmetic is exact and the factors
are the powers of a number whose power of exponent `n / 2` is `-1`. -/
theorem quetzFftRadix2_dft (hm : m < 32) (hw : 0 < m → w ^ 2 ^ (m - 1) = -1) (a : ℕ → R) :
    quetzFftRadix2 (fun e => w ^ e) (vec (2 ^ m) a) (2 ^ m) =
      some (vec (2 ^ m) (dft (2 ^ m) w a)) := by
  have hround : ∀ s, 1 ≤ s → s < m + 1 → stageAt (fun e => w ^ e) (2 ^ m) m s
      (vec (2 ^ m) (stage (s - 1) (m - (s - 1)) w a)) =
        some (vec (2 ^ m) (stage (s + 1 - 1) (m - (s + 1 - 1)) w a)) := by
    intro s hpos hs
    obtain ⟨s, rfl⟩ := Nat.exists_eq_add_of_le' hpos
    exact stageAt_stage hm (Nat.lt_of_succ_lt_succ hs) (hw (by omega)) a
  have hloop := forLoop_eq (fun s => vec (2 ^ m) (stage (s - 1) (m - (s - 1)) w a)) hround
    (Nat.add_comm 1 m)
  rw [Nat.add_sub_cancel, Nat.sub_self, Nat.sub_self, Nat.sub_zero] at hloop
  have hstart : vec (2 ^ m) (fun x => a (bitrev m x)) = vec (2 ^ m) (stage 0 m w a) :=
    vec_congr fun x _ => (stage_zero m w a x).symm
  have hend : vec (2 ^ m) (stage m 0 w a) = vec (2 ^ m) (dft (2 ^ m) w a) :=
    vec_congr fun x hx => stage_last hx w a
  rw [quetzFftRadix2, lognOf_two_pow hm]
  simp only [Option.bind_eq_bind, Option.bind_some, bitReversal_eq hm, hstart]
  rw [hloop, hend]

end

/-! ### Exact complex points -/

namespace QuetzCf

section

variable {F : Type} [CommRing F]

instance : Zero (QuetzCf F) := ⟨⟨0, 0⟩⟩

instance : One (QuetzCf F) := ⟨⟨1, 0⟩⟩

instance : Neg (QuetzCf F) := ⟨fun u => ⟨-u.re, -u.im⟩⟩

@[simp] theorem add_re (u v : QuetzCf F) : (u + v).re = u.re + v.re := rfl

@[simp] theorem add_im (u v : QuetzCf F) : (u + v).im = u.im + v.im := rfl

@[simp] theorem sub_re (u v : QuetzCf F) : (u - v).re = u.re - v.re := rfl

@[simp] theorem sub_im (u v : QuetzCf F) : (u - v).im = u.im - v.im := rfl

@[simp] theorem mul_re (u v : QuetzCf F) : (u * v).re = u.re * v.re - u.im * v.im := rfl

@[simp] theorem mul_im (u v : QuetzCf F) : (u * v).im = u.re * v.im + u.im * v.re := rfl

@[simp] theorem neg_re (u : QuetzCf F) : (-u).re = -u.re := rfl

@[simp] theorem neg_im (u : QuetzCf F) : (-u).im = -u.im := rfl

@[simp] theorem zero_re : (0 : QuetzCf F).re = 0 := rfl

@[simp] theorem zero_im : (0 : QuetzCf F).im = 0 := rfl

@[simp] theorem one_re : (1 : QuetzCf F).re = 1 := rfl

@[simp] theorem one_im : (1 : QuetzCf F).im = 0 := rfl

/-- The formulas of the butterflies are the arithmetic of a commutative ring, if those of their
parts are. -/
instance : CommRing (QuetzCf F) where
  add_assoc u v w := by ext <;> simp [add_assoc]
  zero_add u := by ext <;> simp
  add_zero u := by ext <;> simp
  add_comm u v := by ext <;> simp [add_comm]
  neg_add_cancel u := by ext <;> simp
  sub_eq_add_neg u v := by ext <;> simp [sub_eq_add_neg]
  mul_assoc u v w := by ext <;> simp <;> ring
  one_mul u := by ext <;> simp
  mul_one u := by ext <;> simp
  zero_mul u := by ext <;> simp
  mul_zero u := by ext <;> simp
  left_distrib u v w := by ext <;> simp <;> ring
  right_distrib u v w := by ext <;> simp <;> ring
  mul_comm u v := by ext <;> simp <;> ring
  nsmul := nsmulRec
  zsmul := zsmulRec

end

/-- The factor of the source, in real numbers: cosine and sine of `-2 * pi * e / n`. -/
noncomputable def unit (n e : ℕ) : QuetzCf ℝ :=
  ⟨Real.cos (-2 * Real.pi * e / n), Real.sin (-2 * Real.pi * e / n)⟩

/-- The factors are the powers of the first one. -/
theorem unit_pow (n e : ℕ) : unit n 1 ^ e = unit n e := by
  induction e with
  | zero => ext <;> simp [unit]
  | succ e ih =>
      have hangle : -2 * Real.pi * ((e + 1 : ℕ) : ℝ) / n =
          -2 * Real.pi * e / n + -2 * Real.pi * ((1 : ℕ) : ℝ) / n := by
        push_cast
        ring
      rw [pow_succ, ih]
      ext
      · rw [mul_re, unit, unit, unit, hangle, Real.cos_add]
      · rw [mul_im, unit, unit, unit, hangle, Real.sin_add, add_comm]

/-- Half a turn. -/
theorem unit_half (h : ℕ) (hpos : 0 < h) : unit (2 * h) h = -1 := by
  have hangle : -2 * Real.pi * (h : ℝ) / ((2 * h : ℕ) : ℝ) = -Real.pi := by
    have hne : (h : ℝ) ≠ 0 := Nat.cast_ne_zero.mpr hpos.ne'
    push_cast
    field_simp
  ext
  · rw [unit, hangle, Real.cos_neg, Real.cos_pi, neg_re, one_re]
  · rw [unit, hangle, Real.sin_neg, Real.sin_pi, neg_im, one_im]

end QuetzCf

/-- **In real numbers** the function computes the transform with the factors of the source. -/
theorem quetzFftRadix2_real {m : ℕ} (hm : m < 32) (a : ℕ → QuetzCf ℝ) :
    quetzFftRadix2 (QuetzCf.unit (2 ^ m)) (vec (2 ^ m) a) (2 ^ m) =
      some (vec (2 ^ m) (dft (2 ^ m) (QuetzCf.unit (2 ^ m) 1) a)) := by
  have hunit : QuetzCf.unit (2 ^ m) = fun e => QuetzCf.unit (2 ^ m) 1 ^ e :=
    funext fun e => (QuetzCf.unit_pow _ e).symm
  have hhalf : 0 < m → QuetzCf.unit (2 ^ m) 1 ^ 2 ^ (m - 1) = -1 := by
    intro hpos
    have hpow : (2 : ℕ) ^ m = 2 * 2 ^ (m - 1) := by
      rw [← pow_succ', Nat.sub_add_cancel hpos]
    rw [QuetzCf.unit_pow, hpow, QuetzCf.unit_half _ (Nat.two_pow_pos _)]
  have h := quetzFftRadix2_dft hm hhalf a
  rwa [← hunit] at h

end Quetz
