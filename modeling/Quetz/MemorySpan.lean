import Mathlib.Data.Nat.Basic
import Mathlib.Tactic.Ring

/-!
# Memory Spans and Request Sizes

The arithmetic of `src/quetz_memory_span.h`: whether a span of bytes fits the 64-bit address
space, and how large the next memory request of a transfer may be. A request never crosses a
line of the memory interface; a line size of zero stands for an interface without lines.

## Main results

* `memoryChunkSize_pos`, `memoryChunkSize_le`: a request is never empty nor too long.
* `memoryChunkSize_same_line`: its first and last byte lie in one line.
-/

namespace Quetz

/-- The largest 64-bit value. -/
abbrev uint64Max : ℕ := 2 ^ 64 - 1

/-- A 64-bit unsigned value. -/
def wrap64 (n : ℕ) : ℕ := n % 2 ^ 64

/-- A 64-bit value does not wrap. -/
theorem wrap64_of_le {n : ℕ} (h : n ≤ uint64Max) : wrap64 n = n := by
  refine Nat.mod_eq_of_lt ?_
  simp only [uint64Max] at h
  omega

/-- The span does not run past the end of the address space. -/
def memorySpanValid (address bytes : ℕ) : Bool :=
  bytes == 0 || decide (bytes - 1 ≤ uint64Max - address)

/-- The size of the next request of a transfer with `remaining` bytes to go. -/
def memoryChunkSize (address remaining lineSize requestLimit : ℕ) : ℕ :=
  let bytes := min remaining requestLimit
  if lineSize ≠ 0 then min bytes (lineSize - address % lineSize) else bytes

/-- The number of lines a span of bytes touches. -/
def memorySlots (address bytes lineSize : ℕ) : ℕ :=
  if bytes = 0 then 0 else 1 + (address % lineSize + bytes - 1) / lineSize

variable {address remaining lineSize requestLimit : ℕ}

/-- A transfer that is not done makes progress. -/
theorem memoryChunkSize_pos (hr : 0 < remaining) (hl : 0 < requestLimit) :
    0 < memoryChunkSize address remaining lineSize requestLimit := by
  unfold memoryChunkSize
  dsimp only
  split_ifs with hline
  · have := Nat.mod_lt address (Nat.pos_of_ne_zero hline)
    omega
  · omega

/-- A request takes no more than is left, and no more than one request may. -/
theorem memoryChunkSize_le :
    memoryChunkSize address remaining lineSize requestLimit ≤ remaining ∧
      memoryChunkSize address remaining lineSize requestLimit ≤ requestLimit := by
  unfold memoryChunkSize
  dsimp only
  split_ifs <;> omega

/-- A request stays inside the line its first byte lies in. -/
theorem memoryChunkSize_same_line (hline : lineSize ≠ 0) (hr : 0 < remaining)
    (hl : 0 < requestLimit) :
    (address + memoryChunkSize address remaining lineSize requestLimit - 1) / lineSize =
      address / lineSize := by
  have hpos : 0 < memoryChunkSize address remaining lineSize requestLimit :=
    memoryChunkSize_pos hr hl
  have hlt := Nat.mod_lt address (Nat.pos_of_ne_zero hline)
  have hle : memoryChunkSize address remaining lineSize requestLimit ≤
      lineSize - address % lineSize := by
    rw [memoryChunkSize]
    simp only [if_pos hline]
    omega
  generalize memoryChunkSize address remaining lineSize requestLimit = n at hpos hle
  have hdecomp : address = lineSize * (address / lineSize) + address % lineSize :=
    (Nat.div_add_mod address lineSize).symm
  refine (Nat.div_eq_iff (Nat.pos_of_ne_zero hline)).mpr ⟨?_, ?_⟩
  · rw [Nat.mul_comm]
    omega
  · rw [Nat.mul_comm]
    omega

end Quetz
