import Quetz.GpuDma
import Quetz.ScaleOffset

/-!
# Accepted Kernel Arguments

The count of points or samples is a register of the guest. `inputBytes` checks it once, the device
sizes the input by the result, and `compute` trusts both. Here the two kernels are put into the
device: an accepted argument makes the transfer into the device, the computation and the transfer
back safe, for every buffer and every reachable state.

## Main results

* `written_exact`: a finished operation has written as many bytes as its kernel made.
* `accepted_arguments_safe`: both kernels.
-/

namespace Quetz

open GpuDevice

namespace GpuDevice

variable {p : Params} {k : QuetzKernel}

/-- **The length of the writeback**: a finished operation has written exactly its output. -/
theorem written_exact (hk : p.kernel = some k) {m : ℕ → UInt8} {w : World} (h : Reachable p m w)
    {b : ℕ} (hlen : ∀ source, (outputOf k source w.device.op.args).length = b)
    (hfin : w.device.history.finishes ≠ 0) (x : ℕ) :
    (∃ wr ∈ writes w.device.history.sends, wr.1 ≤ x ∧ x < wr.1 + wr.2.length) ↔
      w.device.op.args.dstAddr.toNat ≤ x ∧ x < w.device.op.args.dstAddr.toNat + b := by
  cases h.inv hk with
  | settled hs =>
      rcases hs.outcome with ⟨-, -, hwritten⟩ | ⟨hnone, -, -⟩
      · have hcover := hwritten.tiles.mem_iff x
        simp only [List.mem_map, exists_exists_and_eq_and, Tiling.Chunk.Holds] at hcover
        have hout : (outputOf k w.source w.device.view.op.args).length = b := hlen _
        rw [hout] at hcover
        exact hcover
      · exact absurd hnone hfin
  | fetching hf => exact absurd hf.noFinish hfin
  | computed hc => exact absurd hc.noFinish hfin
  | writing hw => exact absurd hw.noFinish hfin

end GpuDevice

/-- What an accepted argument promises for a kernel: `compute` is its computation with checked
accesses and shifts, `points` its loop count, and `width` the number of bytes of a point. -/
structure AcceptedSafe (k : QuetzKernel)
    (compute : KernelArgs → List UInt8 → Option (UInt64 × List UInt8)) (points : KernelArgs → ℕ)
    (width : ℕ) (args : KernelArgs) : Prop where
  /-- The input is at most 256 MiB. -/
  ceiling : (k.inputBytes args).1.toNat ≤ 256 * 2 ^ 20
  /-- The multiplication does not wrap. -/
  size : (k.inputBytes args).1.toNat = width * args.arg2.toNat
  points : points args = args.arg2.toNat
  /-- The computation ends, with every access inside its buffer and every shift below its width,
  and the output is as long as the input. -/
  defined : ∀ inp, inp.length = (k.inputBytes args).1.toNat → ∃ latency out,
    compute args inp = some (latency, out) ∧ k.compute args inp = (latency, out) ∧
      out.length = (k.inputBytes args).1.toNat
  /-- The writes of a finished operation cover as many bytes. -/
  writeback : ∀ (p : Params) (m : ℕ → UInt8) (w : World), p.kernel = some k → Reachable p m w →
    w.device.op.args = args → w.device.history.finishes ≠ 0 → ∀ x,
      (∃ wr ∈ writes w.device.history.sends, wr.1 ≤ x ∧ x < wr.1 + wr.2.length) ↔
        args.dstAddr.toNat ≤ x ∧ x < args.dstAddr.toNat + (k.inputBytes args).1.toNat

/-- A kernel whose outputs have the length of their inputs writes that many bytes back. -/
theorem AcceptedSafe.of_defined {k : QuetzKernel}
    {compute : KernelArgs → List UInt8 → Option (UInt64 × List UInt8)}
    {points : KernelArgs → ℕ} {width : ℕ} {args : KernelArgs}
    (hk : ∀ args inp, k.compute args inp = (compute args inp).getD (0, []))
    (ceiling : (k.inputBytes args).1.toNat ≤ 256 * 2 ^ 20)
    (size : (k.inputBytes args).1.toNat = width * args.arg2.toNat)
    (hpoints : points args = args.arg2.toNat)
    (defined : ∀ inp, inp.length = (k.inputBytes args).1.toNat → ∃ latency out,
      compute args inp = some (latency, out) ∧ out.length = (k.inputBytes args).1.toNat) :
    AcceptedSafe k compute points width args := by
  refine ⟨ceiling, size, hpoints, fun inp hinp => ?_, ?_⟩
  · obtain ⟨latency, out, hcompute, hlen⟩ := defined inp hinp
    refine ⟨latency, out, hcompute, ?_, hlen⟩
    rw [hk, hcompute, Option.getD_some]
  · rintro p m w hslot hreach rfl hfin x
    refine written_exact hslot hreach (fun source => ?_) hfin x
    obtain ⟨latency, out, hcompute, hlen⟩ := defined (inputOf k source w.device.op.args)
      (ByteMemory.length_readSpan _ _ _)
    rw [outputOf, hk, hcompute, Option.getD_some]
    exact hlen

/-- **Accepted arguments are safe**, for both kernels, every argument, latency and byte order. -/
theorem accepted_arguments_safe (F : Type) [HostFloat F] (latencyCoeff : UInt64) (be : Bool)
    (args : KernelArgs) :
    ((fftInputBytes args).1 ≠ 0 →
      AcceptedSafe (fftKernel F latencyCoeff be) (fftCompute F latencyCoeff be) fftPoints 8 args) ∧
    ((scaleOffsetInputBytes args).1 ≠ 0 →
      AcceptedSafe (scaleOffsetKernel latencyCoeff be) (scaleOffsetCompute latencyCoeff be)
        (fun args => args.arg2.toNat) 2 args) := by
  constructor
  · intro h
    obtain ⟨m, hm, harg, hbytes⟩ := fftInputBytes_eq h
    have hpow : 2 ^ m ≤ 2 ^ 25 := Nat.pow_le_pow_right Nat.two_pos hm
    refine AcceptedSafe.of_defined (fun _ _ => rfl) ?_ ?_ ?_ fun inp hinp => ?_
    · show (fftInputBytes args).1.toNat ≤ _
      omega
    · show (fftInputBytes args).1.toNat = _
      rw [hbytes, harg, Nat.mul_comm]
    · rw [fftPoints_eq hm harg, harg]
    · exact fftCompute_defined latencyCoeff be h hinp
  · intro h
    obtain ⟨hle, hbytes⟩ := scaleOffsetInputBytes_eq h
    refine AcceptedSafe.of_defined (fun _ _ => rfl) ?_ hbytes rfl fun inp hinp => ?_
    · show (scaleOffsetInputBytes args).1.toNat ≤ _
      omega
    · have hlen : inp.length = 2 * args.arg2.toNat := hinp.trans hbytes
      exact ⟨_, _, scaleOffsetCompute_eq latencyCoeff be (by omega) rfl hlen,
        (CheckedArray.length_vec _ _).trans hbytes.symm⟩

/-- A transform of four points and two samples are safe. -/
theorem accepted_arguments_safe_small :
    AcceptedSafe (fftKernel Float32 20 false) (fftCompute Float32 20 false) fftPoints 8
      fourPoints ∧
    AcceptedSafe (scaleOffsetKernel 4 true) (scaleOffsetCompute 4 true)
      (fun args => args.arg2.toNat) 2 twoSamples :=
  ⟨(accepted_arguments_safe Float32 20 false fourPoints).1 (by decide),
    (accepted_arguments_safe Float32 4 true twoSamples).2 (by decide)⟩

end Quetz
