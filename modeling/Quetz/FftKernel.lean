import Quetz.Fft
import Quetz.GpuDevice

/-!
# The FFT Kernel

`FFTKernel` (`src/quetz_fft_kernel.cc`): the number of points is an argument register of the guest.
`inputBytes` admits powers of two up to the ceiling of the kernel API; `compute` cuts the register
to 32 bits, unpacks the points in the byte order of the guest, transforms them and packs them
again.

The `float` of the host is a parameter; `Float32` is one. An access outside the input or the
output is `none`.

## Main results

* `fftInputBytes_eq`: what is admitted, and the size that is asked for.
* `fftCompute_defined`: on an admitted argument everything is in range.
* `fft_computes_dft`: the admitted transforms are the discrete Fourier transform.
-/

namespace Quetz

open CheckedArray Dft GpuDevice

/-! ### The kernel -/

/-- Ceiling on the bytes a kernel may read for one operation. -/
def kMaxKernelInputBytes : UInt64 := (256 : UInt64) <<< 20

/-- The `float` of the host: its arithmetic, its representation, and the factor of a butterfly, the
cosine and the sine of `-2 * pi * e / n`, evaluated in double. -/
class HostFloat (F : Type) extends Add F, Sub F, Mul F where
  ofBits : UInt32 → F
  toBits : F → UInt32
  twiddle : ℕ → ℕ → QuetzCf F

instance : HostFloat Float32 where
  ofBits := Float32.ofBits
  toBits := Float32.toBits
  twiddle n e :=
    let ang := -2.0 * 3.14159265358979323846 * Float.ofNat e / Float.ofNat n
    ⟨ang.cos.toFloat32, ang.sin.toFloat32⟩

/-- Bytes to read for an operation; zero rejects it. -/
def fftInputBytes (args : KernelArgs) : UInt64 × String :=
  let n := args.arg2
  if n = 0 ∨ n &&& (n - 1) ≠ 0 then
    (0, "FFT N (REG_ARG2) must be a nonzero power of two, got " ++ toString n.toNat)
  else if n > kMaxKernelInputBytes / 8 then
    (0, "FFT N (REG_ARG2) exceeds the kernel input ceiling (" ++
      toString (kMaxKernelInputBytes / 8).toNat ++ " points), got " ++ toString n.toNat)
  else (n * 8, "")

variable {F : Type} [HostFloat F]

/-- Four bytes as a float. -/
def bytesToF32 (inp : List UInt8) (off : ℕ) (be : Bool) : Option F := do
  let p0 ← inp[off]?
  let p1 ← inp[off + 1]?
  let p2 ← inp[off + 2]?
  let p3 ← inp[off + 3]?
  let b := if be then
      p0.toUInt32 <<< 24 ||| p1.toUInt32 <<< 16 ||| p2.toUInt32 <<< 8 ||| p3.toUInt32
    else p0.toUInt32 ||| p1.toUInt32 <<< 8 ||| p2.toUInt32 <<< 16 ||| p3.toUInt32 <<< 24
  some (HostFloat.ofBits b)

/-- Write four bytes. -/
def putWord (out : List UInt8) (off : ℕ) (p0 p1 p2 p3 : UInt8) : Option (List UInt8) := do
  let out ← put out off p0
  let out ← put out (off + 1) p1
  let out ← put out (off + 2) p2
  put out (off + 3) p3

/-- A float as four bytes. -/
def f32ToBytes (f : F) (out : List UInt8) (off : ℕ) (be : Bool) : Option (List UInt8) :=
  let b := HostFloat.toBits f
  if be then
    putWord out off (b >>> 24).toUInt8 (b >>> 16).toUInt8 (b >>> 8).toUInt8 b.toUInt8
  else putWord out off b.toUInt8 (b >>> 8).toUInt8 (b >>> 16).toUInt8 (b >>> 24).toUInt8

/-- Unpack one point. -/
def readPoint (inp : List UInt8) (be : Bool) (i : ℕ) (a : List (QuetzCf F)) :
    Option (List (QuetzCf F)) := do
  let re ← bytesToF32 inp (i * 8) be
  let im ← bytesToF32 inp (i * 8 + 4) be
  put a i ⟨re, im⟩

/-- Pack one point. -/
def writePoint (a : List (QuetzCf F)) (be : Bool) (i : ℕ) (out : List UInt8) :
    Option (List UInt8) := do
  let c ← a[i]?
  let out ← f32ToBytes c.re out (i * 8) be
  f32ToBytes c.im out (i * 8 + 4) be

/-- The number of points in `compute`. -/
def fftPoints (args : KernelArgs) : ℕ := args.arg2.toUInt32.toNat

variable (F)

/-- The transform of the input, and the modelled latency. -/
def fftCompute (latencyCoeff : UInt64) (be : Bool) (args : KernelArgs) (inp : List UInt8) :
    Option (UInt64 × List UInt8) := do
  let n := fftPoints args
  let logn ← lognOf n
  let a : List (QuetzCf F) ←
    forLoop (readPoint inp be) n 0 (List.replicate n ⟨HostFloat.ofBits 0, HostFloat.ofBits 0⟩)
  let a ← quetzFftRadix2 (HostFloat.twiddle n) a n
  let out ← forLoop (writePoint a be) n 0 (List.replicate inp.length 0)
  some (latencyCoeff * .ofNat n * .ofNat (if logn ≠ 0 then logn else 1), out)

/-- The kernel in the slot of the device. -/
def fftKernel (latencyCoeff : UInt64) (be : Bool) : QuetzKernel where
  inputBytes := fftInputBytes
  compute args inp := (fftCompute F latencyCoeff be args inp).getD (0, [])

variable {F}

/-! ### Admitted arguments -/

/-- **What is admitted**: a power of two up to `2 ^ 25`; the size does not wrap. -/
theorem fftInputBytes_eq {args : KernelArgs} (h : (fftInputBytes args).1 ≠ 0) :
    ∃ m ≤ 25, args.arg2.toNat = 2 ^ m ∧ (fftInputBytes args).1.toNat = 2 ^ m * 8 := by
  have hceiling : (kMaxKernelInputBytes / 8).toNat = 2 ^ 25 := by decide
  have hone : (1 : UInt64).toNat = 1 := rfl
  rw [fftInputBytes] at h ⊢
  split_ifs at h ⊢ with hpower hlarge
  · exact absurd rfl h
  · exact absurd rfl h
  · obtain ⟨hzero, hand⟩ := not_or.mp hpower
    have hne : args.arg2.toNat ≠ 0 := fun h0 => hzero (UInt64.toNat_inj.mp h0)
    have hle : (1 : UInt64) ≤ args.arg2 :=
      UInt64.le_iff_toNat_le.mpr (Nat.one_le_iff_ne_zero.mpr hne)
    have hbits : args.arg2.toNat &&& (args.arg2.toNat - 1) = 0 := by
      have hnat := congrArg UInt64.toNat (not_not.mp hand)
      rwa [UInt64.toNat_and, UInt64.toNat_sub_of_le _ _ hle, hone] at hnat
    obtain ⟨m, hm⟩ := (Nat.and_sub_one_eq_zero_iff_isPowerOfTwo hne).mp hbits
    have hsmall : args.arg2.toNat ≤ 2 ^ 25 := by
      rw [← hceiling]
      exact UInt64.le_iff_toNat_le.mp (UInt64.not_lt.mp hlarge)
    refine ⟨m, ?_, hm, ?_⟩
    · rw [hm] at hsmall
      exact (Nat.pow_le_pow_iff_right Nat.one_lt_two).mp hsmall
    · have height : (8 : UInt64).toNat = 8 := rfl
      rw [UInt64.toNat_mul, height, ← hm]
      exact Nat.mod_eq_of_lt (by omega)

/-- The 32-bit count is the register. -/
theorem fftPoints_eq {args : KernelArgs} {m : ℕ} (hm : m ≤ 25) (h : args.arg2.toNat = 2 ^ m) :
    fftPoints args = 2 ^ m := by
  rw [fftPoints, UInt64.toNat_toUInt32, h]
  exact Nat.mod_eq_of_lt (Nat.pow_lt_pow_right Nat.one_lt_two (by omega))

/-! ### The accesses -/

/-- A word inside the input is read. -/
theorem bytesToF32_defined {inp : List UInt8} {off : ℕ} (h : off + 4 ≤ inp.length) (be : Bool) :
    ∃ f : F, bytesToF32 inp off be = some f := by
  rw [bytesToF32, List.getElem?_eq_getElem (show off < inp.length by omega),
    List.getElem?_eq_getElem (show off + 1 < inp.length by omega),
    List.getElem?_eq_getElem (show off + 2 < inp.length by omega),
    List.getElem?_eq_getElem (show off + 3 < inp.length by omega)]
  exact ⟨_, rfl⟩

/-- Four bytes inside the output are written. -/
theorem putWord_defined {out : List UInt8} {off : ℕ} (h : off + 4 ≤ out.length)
    (p0 p1 p2 p3 : UInt8) :
    ∃ out', putWord out off p0 p1 p2 p3 = some out' ∧ out'.length = out.length := by
  obtain ⟨out₁, h₁, hlen₁⟩ := put_defined (show off < out.length by omega) p0
  obtain ⟨out₂, h₂, hlen₂⟩ := put_defined (show off + 1 < out₁.length by omega) p1
  obtain ⟨out₃, h₃, hlen₃⟩ := put_defined (show off + 2 < out₂.length by omega) p2
  obtain ⟨out₄, h₄, hlen₄⟩ := put_defined (show off + 3 < out₃.length by omega) p3
  refine ⟨out₄, ?_, by omega⟩
  simp only [putWord, Option.bind_eq_bind, Option.bind_some, h₁, h₂, h₃, h₄]

/-- So is a word, in either byte order. -/
theorem f32ToBytes_defined (f : F) {out : List UInt8} {off : ℕ} (h : off + 4 ≤ out.length)
    (be : Bool) : ∃ out', f32ToBytes f out off be = some out' ∧ out'.length = out.length := by
  rw [f32ToBytes]
  split_ifs
  · exact putWord_defined h _ _ _ _
  · exact putWord_defined h _ _ _ _

/-- Both words of a point are inside the input. -/
theorem readPoint_defined {inp : List UInt8} {n i : ℕ} (hinp : inp.length = n * 8) (hi : i < n)
    (be : Bool) {a : List (QuetzCf F)} (ha : a.length = n) :
    ∃ a', readPoint inp be i a = some a' ∧ a'.length = n := by
  obtain ⟨re, hre⟩ : ∃ f : F, bytesToF32 inp (i * 8) be = some f :=
    bytesToF32_defined (by omega) be
  obtain ⟨im, him⟩ : ∃ f : F, bytesToF32 inp (i * 8 + 4) be = some f :=
    bytesToF32_defined (by omega) be
  obtain ⟨a', hput, hlen⟩ := put_defined (show i < a.length by omega) (⟨re, im⟩ : QuetzCf F)
  refine ⟨a', ?_, by omega⟩
  simp only [readPoint, Option.bind_eq_bind, Option.bind_some, hre, him, hput]

/-- Both words of a point are inside the output. -/
theorem writePoint_defined {a : List (QuetzCf F)} {n i : ℕ} (ha : a.length = n) (hi : i < n)
    (be : Bool) {out : List UInt8} (hout : out.length = n * 8) :
    ∃ out', writePoint a be i out = some out' ∧ out'.length = n * 8 := by
  obtain ⟨c, hc⟩ : ∃ c, a[i]? = some c := ⟨_, List.getElem?_eq_getElem (by omega)⟩
  obtain ⟨out₁, h₁, hlen₁⟩ :=
    f32ToBytes_defined c.re (show i * 8 + 4 ≤ out.length by omega) be
  obtain ⟨out₂, h₂, hlen₂⟩ :=
    f32ToBytes_defined c.im (show i * 8 + 4 + 4 ≤ out₁.length by omega) be
  refine ⟨out₂, ?_, by omega⟩
  simp only [writePoint, hc, Option.bind_eq_bind, Option.bind_some, h₁, h₂]

/-- **An admitted transform is defined**: every index is in range, every shift is below 32, and the
output has the size of the input. -/
theorem fftCompute_defined (latencyCoeff : UInt64) (be : Bool) {args : KernelArgs}
    (h : (fftInputBytes args).1 ≠ 0) {inp : List UInt8}
    (hinp : inp.length = (fftInputBytes args).1.toNat) :
    ∃ latency out, fftCompute F latencyCoeff be args inp = some (latency, out) ∧
      out.length = (fftInputBytes args).1.toNat := by
  obtain ⟨m, hm, harg, hbytes⟩ := fftInputBytes_eq h
  rw [hbytes] at hinp ⊢
  have hm32 : m < 32 := by omega
  obtain ⟨a, hread, ha⟩ : ∃ a : List (QuetzCf F), forLoop (readPoint inp be) (2 ^ m) 0
      (List.replicate (2 ^ m) ⟨HostFloat.ofBits 0, HostFloat.ofBits 0⟩) = some a ∧
        a.length = 2 ^ m :=
    forLoop_inv (fun _ (a : List (QuetzCf F)) => a.length = 2 ^ m)
      (fun i a _ hi ha => readPoint_defined hinp hi be ha) (Nat.zero_add _) List.length_replicate
  obtain ⟨b, hfft, hb⟩ : ∃ b, quetzFftRadix2 (HostFloat.twiddle (2 ^ m)) a (2 ^ m) = some b ∧
      b.length = 2 ^ m := quetzFftRadix2_defined hm32 a ha
  obtain ⟨out, hwrite, hout⟩ : ∃ out, forLoop (writePoint b be) (2 ^ m) 0
      (List.replicate inp.length 0) = some out ∧ out.length = 2 ^ m * 8 :=
    forLoop_inv (fun _ (out : List UInt8) => out.length = 2 ^ m * 8)
      (fun i out _ hi hout => writePoint_defined hb hi be hout) (Nat.zero_add _)
      (by rw [List.length_replicate, hinp])
  refine ⟨latencyCoeff * .ofNat (2 ^ m) * .ofNat (if m ≠ 0 then m else 1), out, ?_, hout⟩
  rw [fftCompute, fftPoints_eq hm harg, lognOf_two_pow hm32]
  simp only [Option.bind_eq_bind, Option.bind_some, hread, hfft, hwrite]

/-! ### The transform -/

/-- **The FFT computes the discrete Fourier transform** for every number of points that the kernel
admits: with exact arithmetic and the powers of `w` for the factors, entry `k` of the result is the
sum of `a[t] * w ^ (k * t)`. -/
theorem fft_computes_dft {R : Type} [CommRing R] {w : R} {args : KernelArgs}
    (hbytes : (fftInputBytes args).1 ≠ 0)
    (hw : 1 < args.arg2.toNat → w ^ (args.arg2.toNat / 2) = -1) (a : List R)
    (ha : a.length = args.arg2.toNat) :
    ∃ out, quetzFftRadix2 (fun e => w ^ e) a args.arg2.toNat = some out ∧
      out.length = args.arg2.toNat ∧ ∀ k < args.arg2.toNat,
        out[k]? = some (∑ t : Fin a.length, a[t] * w ^ (k * t)) := by
  obtain ⟨m, hm, harg, -⟩ := fftInputBytes_eq hbytes
  rw [harg] at hw ha ⊢
  have hhalf : 0 < m → w ^ 2 ^ (m - 1) = -1 := by
    intro hpos
    have h := hw (Nat.one_lt_two_pow hpos.ne')
    rwa [Nat.pow_div hpos Nat.two_pos] at h
  have ha' : a = vec (2 ^ m) (fun t => a.getD t 0) := by
    refine eq_vec ha fun t ht => ?_
    rw [List.getD_eq_getElem?_getD, List.getElem?_eq_getElem (ha ▸ ht)]
    rfl
  have hdft := quetzFftRadix2_dft (by omega) hhalf (fun t => a.getD t 0)
  rw [← ha'] at hdft
  refine ⟨_, hdft, length_vec _ _, fun k hk => ?_⟩
  rw [getElem?_vec hk, dft, ← ha, Finset.sum_range]
  refine congrArg some (Finset.sum_congr rfl fun t _ => ?_)
  rw [List.getD_eq_getElem?_getD, List.getElem?_eq_getElem t.isLt]
  rfl

/-- The doorbell of a transform of four points. -/
def fourPoints : KernelArgs := ⟨0, 0, 4, 0⟩

/-- Four Gaussian integers, with `-i` for the root. -/
theorem fft_computes_dft_four :
    let a : List (QuetzCf ℤ) := [⟨1, 0⟩, ⟨2, 0⟩, ⟨3, 0⟩, ⟨4, 0⟩]
    let w : QuetzCf ℤ := ⟨0, -1⟩
    ∃ out, quetzFftRadix2 (fun e => w ^ e) a fourPoints.arg2.toNat = some out ∧
      out.length = fourPoints.arg2.toNat ∧ ∀ k < fourPoints.arg2.toNat,
        out[k]? = some (∑ t : Fin a.length, a[t] * w ^ (k * t)) := by
  intro a w
  refine fft_computes_dft (by decide) (fun _ => ?_) a rfl
  show w ^ 2 = -1
  rw [sq]
  ext <;> rfl

end Quetz
