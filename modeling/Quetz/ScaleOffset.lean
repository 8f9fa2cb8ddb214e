import Quetz.FftKernel
import Quetz.Lib.Bytes

/-!
# The Scale-Offset Kernel

`ScaleOffsetKernel` (`src/quetz_scale_offset_kernel.cc`) and its sample transform
(`src/quetz_scale_offset.h`): each signed 16-bit sample is multiplied by a scale and shifted by an
offset, both from one argument register, and saturates.

The arithmetic of the transform is signed and 32 bits wide; an overflow is undefined, and `none`,
like an access outside the input or the output.

## Main results

* `quetzScaleOffsetSat16_eq`: the transform never overflows, and clamps the exact result.
* `scaleOffsetCompute_eq`: every byte of the output.
* `scale_offset_affine`: the output samples, in either byte order.
-/

namespace Quetz

open Bytes CheckedArray GpuDevice

/-! ### The kernel -/

/-- A 32-bit signed result. -/
def int32 (x : ℤ) : Option ℤ := if -2 ^ 31 ≤ x ∧ x < 2 ^ 31 then some x else none

/-- `sat16 (inp * scale + offset)`. -/
def quetzScaleOffsetSat16 (inp scale offset : Int16) : Option Int16 := do
  let product ← int32 (inp.toInt * scale.toInt)
  let v ← int32 (product + offset.toInt)
  if v > 32767 then some Int16.maxValue
  else if v < -32768 then some Int16.minValue
  else some (Int16.ofInt v)

/-- Bytes to read for an operation; zero rejects it. -/
def scaleOffsetInputBytes (args : KernelArgs) : UInt64 × String :=
  if args.arg2 = 0 then (0, "sample count (REG_ARG2) must be nonzero")
  else if args.arg2 > kMaxKernelInputBytes / 2 then
    (0, "sample count (REG_ARG2) exceeds the kernel input ceiling (" ++
      toString (kMaxKernelInputBytes / 2).toNat ++ " samples), got " ++ toString args.arg2.toNat)
  else (args.arg2 * 2, "")

/-- The place of the low byte of a sample, `0` or `1`. -/
def lowLane (be : Bool) : ℕ := if be then 1 else 0

/-- Transform one sample. -/
def transformSample (inp : List UInt8) (be : Bool) (scale offset : Int16) (i : ℕ)
    (out : List UInt8) : Option (List UInt8) := do
  let lo := lowLane be
  let hi := 1 - lo
  let p ← inp[(2 * i + lo) % 2 ^ 64]?
  let q ← inp[(2 * i + hi) % 2 ^ 64]?
  let s := (p.toUInt16 ||| q.toUInt16 <<< 8).toInt16
  let r ← quetzScaleOffsetSat16 s scale offset
  let out ← put out ((2 * i + lo) % 2 ^ 64) (r.toUInt16 &&& 0xff).toUInt8
  put out ((2 * i + hi) % 2 ^ 64) ((r.toUInt16 >>> 8) &&& 0xff).toUInt8

/-- The scale in the low 16 bits of the last argument. -/
def scaleArg (args : KernelArgs) : Int16 := (args.arg3 &&& 0xffff).toUInt16.toInt16

/-- The offset in the next 16 bits. -/
def offsetArg (args : KernelArgs) : Int16 := ((args.arg3 >>> 16) &&& 0xffff).toUInt16.toInt16

/-- The transform of the input, and the modelled latency. -/
def scaleOffsetCompute (latencyCoeff : UInt64) (be : Bool) (args : KernelArgs)
    (inp : List UInt8) : Option (UInt64 × List UInt8) := do
  let out ← forLoop (transformSample inp be (scaleArg args) (offsetArg args)) args.arg2.toNat 0
    (List.replicate inp.length 0)
  some (latencyCoeff * args.arg2, out)

/-- The kernel in the slot of the device. -/
def scaleOffsetKernel (latencyCoeff : UInt64) (be : Bool) : QuetzKernel where
  inputBytes := scaleOffsetInputBytes
  compute args inp := (scaleOffsetCompute latencyCoeff be args inp).getD (0, [])

example : scaleOffsetCompute 4 true ⟨0, 0, 2, 0x00010003⟩ [0x00, 0x05, 0x80, 0x00] =
    some (8, [0x00, 0x10, 0x80, 0x00]) := by decide

/-! ### What it says -/

/-- A 16-bit pattern as a signed number. -/
def signed16 (x : ℕ) : ℤ := if x < 2 ^ 15 then x else x - 2 ^ 16

/-- A number pressed into the range of a sample. -/
def clamp16 (x : ℤ) : ℤ := max (-32768) (min 32767 x)

/-- The byte order of a configuration. -/
def orderOf (be : Bool) : ByteOrder := if be then .big else .little

/-- The number of a sample in a buffer. -/
def sampleAt (o : ByteOrder) (bytes : List UInt8) (i : ℕ) : ℤ :=
  signed16 (o.value ((bytes.drop (2 * i)).take 2))

/-- The buffer with the two bytes of every sample exchanged. -/
def swapPairs : List UInt8 → List UInt8
  | p :: q :: rest => q :: p :: swapPairs rest
  | rest => rest

/-! ### One sample -/

theorem toInt_toInt16 (x : UInt16) : x.toInt16.toInt = signed16 x.toNat := by
  rw [signed16, ← Int16.toInt_toBitVec, UInt16.toBitVec_toInt16, BitVec.toInt_eq_toNat_cond,
    UInt16.toNat_toBitVec]
  split_ifs
  · rfl
  · omega
  · omega
  · rfl

/-- The product of two samples. -/
theorem mul_bounds (x y : Int16) :
    -2 ^ 30 ≤ x.toInt * y.toInt ∧ x.toInt * y.toInt ≤ 2 ^ 30 := by
  have hx : |x.toInt| ≤ 2 ^ 15 := abs_le.mpr ⟨x.le_toInt, x.toInt_lt.le⟩
  have hy : |y.toInt| ≤ 2 ^ 15 := abs_le.mpr ⟨y.le_toInt, y.toInt_lt.le⟩
  have hmul : |x.toInt * y.toInt| ≤ 2 ^ 30 := by
    calc |x.toInt * y.toInt| = |x.toInt| * |y.toInt| := abs_mul ..
      _ ≤ 2 ^ 15 * 2 ^ 15 := mul_le_mul hx hy (abs_nonneg _) (by norm_num)
      _ = 2 ^ 30 := by norm_num
  exact abs_le.mp hmul

/-- **The transform never overflows** and clamps the exact result. -/
theorem quetzScaleOffsetSat16_eq (inp scale offset : Int16) :
    quetzScaleOffsetSat16 inp scale offset =
      some (Int16.ofInt (clamp16 (inp.toInt * scale.toInt + offset.toInt))) := by
  obtain ⟨hlo, hhi⟩ := mul_bounds inp scale
  have hofflo := offset.le_toInt
  have hoffhi := offset.toInt_lt
  have hproduct : int32 (inp.toInt * scale.toInt) = some (inp.toInt * scale.toInt) :=
    if_pos ⟨by omega, by omega⟩
  have hsum : int32 (inp.toInt * scale.toInt + offset.toInt) =
      some (inp.toInt * scale.toInt + offset.toInt) := if_pos ⟨by omega, by omega⟩
  simp only [quetzScaleOffsetSat16, hproduct, hsum, Option.bind_eq_bind, Option.bind_some]
  split_ifs with hlarge hsmall
  · have hclamp : clamp16 (inp.toInt * scale.toInt + offset.toInt) = 32767 := by
      rw [clamp16]
      omega
    rw [hclamp]
    rfl
  · have hclamp : clamp16 (inp.toInt * scale.toInt + offset.toInt) = -32768 := by
      rw [clamp16]
      omega
    rw [hclamp]
    rfl
  · have hclamp : clamp16 (inp.toInt * scale.toInt + offset.toInt) =
        inp.toInt * scale.toInt + offset.toInt := by
      rw [clamp16]
      omega
    rw [hclamp]

/-- The pattern of a clamped number denotes it. -/
theorem signed16_ofInt_clamp16 (x : ℤ) :
    signed16 (Int16.ofInt (clamp16 x)).toUInt16.toNat = clamp16 x := by
  rw [← toInt_toInt16, Int16.toInt16_toUInt16]
  refine Int16.toInt_ofInt_of_le ?_ ?_
  · rw [clamp16]
    omega
  · rw [clamp16]
    omega

/-- Two bytes as a number. -/
theorem toNat_bytes (p q : UInt8) :
    (p.toUInt16 ||| q.toUInt16 <<< 8).toNat = p.toNat + 256 * q.toNat := by
  have hp := p.toNat_lt
  have hq := q.toNat_lt
  have hshift : (q.toUInt16 <<< 8).toNat = q.toNat <<< 8 := by
    have hamount : (8 : UInt16).toNat % 16 = 8 := rfl
    rw [UInt16.toNat_shiftLeft, UInt8.toNat_toUInt16, hamount]
    exact Nat.mod_eq_of_lt (by rw [Nat.shiftLeft_eq]; omega)
  rw [UInt16.toNat_or, hshift, UInt8.toNat_toUInt16, Nat.or_comm,
    ← Nat.shiftLeft_add_eq_or_of_lt (by omega), Nat.shiftLeft_eq]
  omega

/-- The low and the high byte of a number. -/
theorem toNat_low_high (r : UInt16) :
    (r &&& 0xff).toUInt8.toNat + 256 * ((r >>> 8) &&& 0xff).toUInt8.toNat = r.toNat := by
  have hr := r.toNat_lt
  have hmask : ∀ x : UInt16, (x &&& 0xff).toUInt8.toNat = x.toNat % 256 := by
    intro x
    rw [UInt16.toNat_toUInt8, UInt16.toNat_and]
    show (x.toNat &&& (2 ^ 8 - 1)) % 256 = x.toNat % 256
    rw [Nat.and_two_pow_sub_one_eq_mod, Nat.mod_mod]
  have hamount : (8 : UInt16).toNat % 16 = 8 := rfl
  rw [hmask, hmask, UInt16.toNat_shiftRight, hamount, Nat.shiftRight_eq_div_pow]
  omega

/-! ### The loop -/

/-- The byte of a buffer. -/
def byteAt (inp : List UInt8) (x : ℕ) : UInt8 := inp.getD x 0

theorem getElem?_byteAt {inp : List UInt8} {x : ℕ} (hx : x < inp.length) :
    inp[x]? = some (byteAt inp x) := by
  rw [byteAt, List.getD_eq_getElem?_getD, List.getElem?_eq_getElem hx, Option.getD_some]

/-- The sample of a buffer as the loop puts it together. -/
def sampleOf (inp : List UInt8) (be : Bool) (i : ℕ) : Int16 :=
  ((byteAt inp (2 * i + lowLane be)).toUInt16 |||
    (byteAt inp (2 * i + (1 - lowLane be))).toUInt16 <<< 8).toInt16

/-- The transformed sample. -/
def resultOf (inp : List UInt8) (be : Bool) (args : KernelArgs) (i : ℕ) : Int16 :=
  .ofInt (clamp16 ((sampleOf inp be i).toInt * (scaleArg args).toInt + (offsetArg args).toInt))

/-- The bytes of the output. -/
def outputByte (inp : List UInt8) (be : Bool) (args : KernelArgs) (x : ℕ) : UInt8 :=
  let r := (resultOf inp be args (x / 2)).toUInt16
  if x % 2 = lowLane be then (r &&& 0xff).toUInt8 else ((r >>> 8) &&& 0xff).toUInt8

variable {args : KernelArgs} {inp : List UInt8} {n i : ℕ}

theorem lowLane_le (be : Bool) : lowLane be ≤ 1 := by
  cases be <;> decide

theorem lowLane_not (be : Bool) : lowLane (!be) = 1 - lowLane be := by
  cases be <;> rfl

/-- One round: the two bytes of one sample are written. -/
theorem transformSample_vec (hinp : inp.length = 2 * n) (hsmall : 2 * n < 2 ^ 64) (hi : i < n)
    (be : Bool) (args : KernelArgs) :
    transformSample inp be (scaleArg args) (offsetArg args) i
      (vec (2 * n) fun x => if x / 2 < i then outputByte inp be args x else 0) =
    some (vec (2 * n) fun x => if x / 2 < i + 1 then outputByte inp be args x else 0) := by
  have hlane := lowLane_le be
  have hlo : (2 * i + lowLane be) % 2 ^ 64 = 2 * i + lowLane be := Nat.mod_eq_of_lt (by omega)
  have hhi : (2 * i + (1 - lowLane be)) % 2 ^ 64 = 2 * i + (1 - lowLane be) :=
    Nat.mod_eq_of_lt (by omega)
  have hread : ∀ x < 2 * n, inp[x]? = some (byteAt inp x) := fun x hx =>
    getElem?_byteAt (hinp ▸ hx)
  have hsample : quetzScaleOffsetSat16 (sampleOf inp be i) (scaleArg args) (offsetArg args) =
      some (resultOf inp be args i) := quetzScaleOffsetSat16_eq ..
  rw [sampleOf] at hsample
  simp only [transformSample, hlo, hhi, hread _ (show 2 * i + lowLane be < 2 * n by omega),
    hread _ (show 2 * i + (1 - lowLane be) < 2 * n by omega), Option.bind_eq_bind,
    Option.bind_some, hsample, put_vec (show 2 * i + lowLane be < 2 * n by omega),
    put_vec (show 2 * i + (1 - lowLane be) < 2 * n by omega)]
  refine congrArg some (vec_congr fun x hx => ?_)
  rcases eq_or_ne x (2 * i + (1 - lowLane be)) with rfl | hxhi
  · rw [Function.update_self, if_pos (by omega), outputByte]
    have hdiv : (2 * i + (1 - lowLane be)) / 2 = i := by omega
    rw [hdiv, if_neg (by omega)]
  · rw [Function.update_of_ne hxhi]
    rcases eq_or_ne x (2 * i + lowLane be) with rfl | hxlo
    · rw [Function.update_self, if_pos (by omega), outputByte]
      have hdiv : (2 * i + lowLane be) / 2 = i := by omega
      rw [hdiv, if_pos (by omega)]
    · rw [Function.update_of_ne hxlo]
      exact if_congr (by omega) rfl rfl

/-- **Every byte of the output**, for a buffer of the size that was asked for. -/
theorem scaleOffsetCompute_eq (latencyCoeff : UInt64) (be : Bool) (hsmall : 2 * n < 2 ^ 64)
    (harg : args.arg2.toNat = n) (hinp : inp.length = 2 * n) :
    scaleOffsetCompute latencyCoeff be args inp =
      some (latencyCoeff * args.arg2, vec (2 * n) (outputByte inp be args)) := by
  have hstart : List.replicate (2 * n) (0 : UInt8) =
      vec (2 * n) fun x => if x / 2 < 0 then outputByte inp be args x else 0 :=
    eq_vec List.length_replicate fun x hx => by
      rw [List.getElem?_replicate, if_pos hx, if_neg (Nat.not_lt_zero _)]
  have hend : vec (2 * n) (fun x => if x / 2 < n then outputByte inp be args x else 0) =
      vec (2 * n) (outputByte inp be args) :=
    vec_congr fun x hx => if_pos (by omega)
  have hloop := forLoop_eq
    (fun i => vec (2 * n) fun x => if x / 2 < i then outputByte inp be args x else 0)
    (fun i _ hi => transformSample_vec hinp hsmall hi be args) (Nat.zero_add n)
  rw [← hstart, hend] at hloop
  simp only [scaleOffsetCompute, harg, hinp, hloop, Option.bind_eq_bind, Option.bind_some]

/-! ### Samples -/

/-- **What is admitted**: a count from one to `2 ^ 27`; the size does not wrap. -/
theorem scaleOffsetInputBytes_eq (h : (scaleOffsetInputBytes args).1 ≠ 0) :
    args.arg2.toNat ≤ 2 ^ 27 ∧ (scaleOffsetInputBytes args).1.toNat = 2 * args.arg2.toNat := by
  have hceiling : (kMaxKernelInputBytes / 2).toNat = 2 ^ 27 := by decide
  have htwo : (2 : UInt64).toNat = 2 := rfl
  rw [scaleOffsetInputBytes] at h ⊢
  split_ifs at h ⊢ with hzero hlarge
  · exact absurd rfl h
  · exact absurd rfl h
  · have hle : args.arg2.toNat ≤ 2 ^ 27 := by
      rw [← hceiling]
      exact UInt64.le_iff_toNat_le.mp (UInt64.not_lt.mp hlarge)
    refine ⟨hle, ?_⟩
    rw [UInt64.toNat_mul, htwo, Nat.mul_comm]
    exact Nat.mod_eq_of_lt (by omega)

/-- The number of a sample, by its bytes. -/
theorem sampleAt_eq (hinp : inp.length = 2 * n) (hi : i < n) (be : Bool) :
    sampleAt (orderOf be) inp i = signed16 ((byteAt inp (2 * i + lowLane be)).toNat +
      256 * (byteAt inp (2 * i + (1 - lowLane be))).toNat) := by
  have hread : ∀ x < 2 * n, inp[x]? = some (byteAt inp x) := fun x hx =>
    getElem?_byteAt (hinp ▸ hx)
  have hslice : (inp.drop (2 * i)).take 2 = [byteAt inp (2 * i), byteAt inp (2 * i + 1)] := by
    refine List.ext_getElem? fun j => ?_
    rw [List.getElem?_take, List.getElem?_drop]
    match j with
    | 0 => exact hread _ (by omega)
    | 1 => exact hread _ (by omega)
    | j + 2 => rfl
  rw [sampleAt, hslice]
  cases be with
  | false => simp [orderOf, ByteOrder.value, leNat, lowLane]
  | true => simp [orderOf, ByteOrder.value, leNat, lowLane]

/-- The loop puts a sample together in the order of the configuration. -/
theorem toInt_sampleOf (hinp : inp.length = 2 * n) (hi : i < n) (be : Bool) :
    (sampleOf inp be i).toInt = sampleAt (orderOf be) inp i := by
  rw [sampleOf, toInt_toInt16, toNat_bytes, sampleAt_eq hinp hi]

/-- The bytes of the output are the transformed sample. -/
theorem sampleAt_output (hi : i < n) (be : Bool) (args : KernelArgs) :
    sampleAt (orderOf be) (vec (2 * n) (outputByte inp be args)) i =
      clamp16 ((sampleOf inp be i).toInt * (scaleArg args).toInt + (offsetArg args).toInt) := by
  have hlane := lowLane_le be
  have hbyte : ∀ x < 2 * n, byteAt (vec (2 * n) (outputByte inp be args)) x =
      outputByte inp be args x := fun x hx => by
    rw [byteAt, List.getD_eq_getElem?_getD, getElem?_vec hx, Option.getD_some]
  have hlodiv : (2 * i + lowLane be) / 2 = i := by omega
  have hhidiv : (2 * i + (1 - lowLane be)) / 2 = i := by omega
  rw [sampleAt_eq (length_vec _ _) hi, hbyte _ (by omega), hbyte _ (by omega), outputByte,
    outputByte, hlodiv, hhidiv, if_pos (by omega), if_neg (by omega), toNat_low_high, resultOf,
    signed16_ofInt_clamp16]

/-- The scale is the signed number in the low 16 bits. -/
theorem toInt_scaleArg (args : KernelArgs) :
    (scaleArg args).toInt = signed16 (args.arg3.toNat % 2 ^ 16) := by
  have hmask : (args.arg3 &&& 0xffff).toNat = args.arg3.toNat % 2 ^ 16 := by
    rw [UInt64.toNat_and]
    exact Nat.and_two_pow_sub_one_eq_mod _ 16
  rw [scaleArg, toInt_toInt16, UInt64.toNat_toUInt16, hmask, Nat.mod_mod]

/-- The offset is the signed number in the next 16 bits. -/
theorem toInt_offsetArg (args : KernelArgs) :
    (offsetArg args).toInt = signed16 (args.arg3.toNat / 2 ^ 16 % 2 ^ 16) := by
  have hmask : ((args.arg3 >>> 16) &&& 0xffff).toNat = args.arg3.toNat / 2 ^ 16 % 2 ^ 16 := by
    have hamount : (16 : UInt64).toNat % 64 = 16 := rfl
    rw [UInt64.toNat_and, UInt64.toNat_shiftRight, hamount, Nat.shiftRight_eq_div_pow]
    exact Nat.and_two_pow_sub_one_eq_mod _ 16
  rw [offsetArg, toInt_toInt16, UInt64.toNat_toUInt16, hmask, Nat.mod_mod]

/-! ### Both byte orders -/

@[simp] theorem length_swapPairs (bytes : List UInt8) :
    (swapPairs bytes).length = bytes.length := by
  induction bytes using swapPairs.induct with
  | case1 p q rest ih => simp [swapPairs, ih]
  | case2 rest h =>
      rw [swapPairs]
      exact h

theorem getElem?_swapPairs (bytes : List UInt8) (i : ℕ) (hi : 2 * i + 1 < bytes.length) :
    (swapPairs bytes)[2 * i]? = bytes[2 * i + 1]? ∧
      (swapPairs bytes)[2 * i + 1]? = bytes[2 * i]? := by
  induction i generalizing bytes with
  | zero =>
      obtain _ | ⟨p, _ | ⟨q, rest⟩⟩ := bytes
      · simp at hi
      · simp at hi
      · exact ⟨rfl, rfl⟩
  | succ i ih =>
      obtain _ | ⟨p, _ | ⟨q, rest⟩⟩ := bytes
      · simp at hi
      · simp at hi
      · have hrest : 2 * i + 1 < rest.length := by
          simp only [List.length_cons] at hi
          omega
        exact ih rest hrest

/-- The byte of a swapped buffer. -/
theorem byteAt_swapPairs (hinp : inp.length = 2 * n) (hi : i < n) (be : Bool) :
    byteAt (swapPairs inp) (2 * i + lowLane (!be)) = byteAt inp (2 * i + lowLane be) ∧
      byteAt (swapPairs inp) (2 * i + (1 - lowLane (!be))) =
        byteAt inp (2 * i + (1 - lowLane be)) := by
  obtain ⟨heven, hodd⟩ := getElem?_swapPairs inp i (by omega)
  simp only [byteAt, List.getD_eq_getElem?_getD]
  cases be with
  | false => exact ⟨congrArg (·.getD 0) hodd, congrArg (·.getD 0) heven⟩
  | true => exact ⟨congrArg (·.getD 0) heven, congrArg (·.getD 0) hodd⟩

/-- The output of the swapped buffer in the other order is the swapped output. -/
theorem swapPairs_output (hinp : inp.length = 2 * n) (be : Bool) (args : KernelArgs) :
    vec (2 * n) (outputByte (swapPairs inp) (!be) args) =
      swapPairs (vec (2 * n) (outputByte inp be args)) := by
  have hresult : ∀ i < n, resultOf (swapPairs inp) (!be) args i = resultOf inp be args i := by
    intro i hi
    obtain ⟨hlo, hhi⟩ := byteAt_swapPairs hinp hi be
    rw [resultOf, resultOf, sampleOf, sampleOf, hlo, hhi]
  have hlane := lowLane_le be
  refine (eq_vec (by simp) fun x hx => ?_).symm
  obtain ⟨heven, hodd⟩ := getElem?_swapPairs (vec (2 * n) (outputByte inp be args)) (x / 2)
    (by rw [length_vec]; omega)
  rcases Nat.mod_two_eq_zero_or_one x with hx2 | hx2
  · have hsplit : x = 2 * (x / 2) := by omega
    have hdiv : (x + 1) / 2 = x / 2 := by omega
    have hlanes : x % 2 = lowLane (!be) ↔ (x + 1) % 2 = lowLane be := by
      rw [lowLane_not]
      omega
    rw [← hsplit, getElem?_vec (by omega)] at heven
    rw [heven, outputByte, outputByte, hresult _ (by omega), hdiv]
    exact congrArg some (if_congr hlanes.symm rfl rfl)
  · have hsplit : x = 2 * (x / 2) + 1 := by omega
    have hdiv : 2 * (x / 2) / 2 = x / 2 := by omega
    have hlanes : x % 2 = lowLane (!be) ↔ 2 * (x / 2) % 2 = lowLane be := by
      rw [lowLane_not]
      omega
    rw [← hsplit, getElem?_vec (by omega)] at hodd
    rw [hodd, outputByte, outputByte, hresult _ (by omega), hdiv]
    exact congrArg some (if_congr hlanes.symm rfl rfl)

/-- **The saturated affine map, in either byte order**: for every admitted count, every last
argument and every buffer of two bytes a sample, the transform is defined and clamps
`s * scale + offset`; and the swapped buffer in the other order gives the swapped output. -/
theorem scale_offset_affine (hbytes : (scaleOffsetInputBytes args).1 ≠ 0) (latencyCoeff : UInt64)
    (be : Bool) (hinp : inp.length = 2 * args.arg2.toNat) :
    ∃ latency out, scaleOffsetCompute latencyCoeff be args inp = some (latency, out) ∧
      out.length = 2 * args.arg2.toNat ∧
      (∀ i < args.arg2.toNat, sampleAt (orderOf be) out i =
        clamp16 (sampleAt (orderOf be) inp i * signed16 (args.arg3.toNat % 2 ^ 16) +
          signed16 (args.arg3.toNat / 2 ^ 16 % 2 ^ 16))) ∧
      scaleOffsetCompute latencyCoeff (!be) args (swapPairs inp) =
        some (latency, swapPairs out) := by
  obtain ⟨hle, -⟩ := scaleOffsetInputBytes_eq hbytes
  refine ⟨_, _, scaleOffsetCompute_eq latencyCoeff be (by omega) rfl hinp, length_vec _ _,
    fun i hi => ?_, ?_⟩
  · rw [sampleAt_output hi, toInt_sampleOf hinp hi, toInt_scaleArg, toInt_offsetArg]
  · rw [scaleOffsetCompute_eq latencyCoeff (!be) (by omega) rfl (by rw [length_swapPairs, hinp]),
      swapPairs_output hinp]

/-- The doorbell of two samples, with the scale 3 and the offset 1. -/
def twoSamples : KernelArgs := ⟨0, 0, 2, 0x00010003⟩

/-- The samples 5 and -32768, most significant byte first. -/
theorem scale_offset_affine_two :
    let inp : List UInt8 := [0x00, 0x05, 0x80, 0x00]
    ∃ latency out, scaleOffsetCompute 4 true twoSamples inp = some (latency, out) ∧
      out.length = 2 * twoSamples.arg2.toNat ∧
      (∀ i < twoSamples.arg2.toNat, sampleAt (orderOf true) out i =
        clamp16 (sampleAt (orderOf true) inp i * signed16 (twoSamples.arg3.toNat % 2 ^ 16) +
          signed16 (twoSamples.arg3.toNat / 2 ^ 16 % 2 ^ 16))) ∧
      scaleOffsetCompute 4 (!true) twoSamples (swapPairs inp) = some (latency, swapPairs out) :=
  scale_offset_affine (by decide) 4 true rfl

end Quetz
