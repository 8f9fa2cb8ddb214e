import Mathlib.Data.List.Basic
import Mathlib.Tactic.Ring

/-!
# Flat Memories and Byte Spans

A flat memory is a function from addresses to cells. This module fixes the two span
operations every memory argument of the development is phrased in, `readSpan` and
`writeSpan`, together with `overwrite`, the list counterpart of copying a block into a
buffer. The lemmas say how spans compose: a span splits at any interior point, writing
two adjacent blocks is writing their concatenation, and a read sees a write exactly on
the overlap.

## Main results

* `readSpan_add` / `writeSpan_append`: spans split and join.
* `take_overwrite`: a buffer filled from the left holds what was copied so far.
-/

namespace ByteMemory

variable {β : Type*}

/-- The `n` cells of `m` starting at `a`, in address order. -/
def readSpan (m : ℕ → β) (a n : ℕ) : List β :=
  (List.range n).map fun i => m (a + i)

/-- The memory `m` with the block `bs` stored at `a`. -/
def writeSpan (m : ℕ → β) (a : ℕ) (bs : List β) : ℕ → β := fun x =>
  if a ≤ x then bs.getD (x - a) (m x) else m x

/-- The buffer `xs` with the block `src` copied over it from index `off` on. -/
def overwrite (xs : List β) (off : ℕ) (src : List β) : List β :=
  xs.take off ++ src ++ xs.drop (off + src.length)

/-! ### Reading -/

@[simp] theorem length_readSpan (m : ℕ → β) (a n : ℕ) : (readSpan m a n).length = n := by
  simp [readSpan]

@[simp] theorem readSpan_zero (m : ℕ → β) (a : ℕ) : readSpan m a 0 = [] := rfl

/-- The `i`-th cell of a span. -/
@[simp] theorem getElem_readSpan (m : ℕ → β) (a n i : ℕ)
    (h : i < (readSpan m a n).length) : (readSpan m a n)[i] = m (a + i) := by
  simp [readSpan]

/-- A span splits at every interior point. -/
theorem readSpan_add (m : ℕ → β) (a n k : ℕ) :
    readSpan m a (n + k) = readSpan m a n ++ readSpan m (a + n) k := by
  simp [readSpan, List.range_add, List.map_map, Function.comp_def, Nat.add_assoc]

/-- A span only depends on the cells it covers. -/
theorem readSpan_congr {m m' : ℕ → β} {a n : ℕ} (h : ∀ i, i < n → m (a + i) = m' (a + i)) :
    readSpan m a n = readSpan m' a n := by
  simp only [readSpan]
  exact List.map_congr_left fun i hi => h i (List.mem_range.mp hi)

/-! ### Writing -/

/-- Cells below the block are untouched. -/
theorem writeSpan_of_lt (m : ℕ → β) {a x : ℕ} (bs : List β) (h : x < a) :
    writeSpan m a bs x = m x := by
  simp [writeSpan, Nat.not_le.mpr h]

/-- Cells above the block are untouched. -/
theorem writeSpan_of_ge (m : ℕ → β) {a x : ℕ} (bs : List β) (h : a + bs.length ≤ x) :
    writeSpan m a bs x = m x := by
  have hlen : bs.length ≤ x - a := by omega
  simp [writeSpan, List.getElem?_eq_none hlen]

/-- Cells of the block hold the block. -/
theorem writeSpan_of_mem (m : ℕ → β) {a x : ℕ} (bs : List β) (h : a ≤ x)
    (hx : x - a < bs.length) : writeSpan m a bs x = bs[x - a] := by
  simp [writeSpan, h, List.getElem?_eq_getElem hx]

@[simp] theorem writeSpan_nil (m : ℕ → β) (a : ℕ) : writeSpan m a [] = m := by
  funext x
  simp [writeSpan]

/-- Writing two adjacent blocks is writing their concatenation. -/
theorem writeSpan_append (m : ℕ → β) (a : ℕ) (xs ys : List β) :
    writeSpan (writeSpan m a xs) (a + xs.length) ys = writeSpan m a (xs ++ ys) := by
  funext x
  rcases Nat.lt_or_ge x a with hlt | hge
  · rw [writeSpan_of_lt _ _ (by omega), writeSpan_of_lt _ _ hlt, writeSpan_of_lt _ _ hlt]
  rcases Nat.lt_or_ge x (a + xs.length) with hin | hout
  · have hx : x - a < xs.length := by omega
    rw [writeSpan_of_lt _ _ hin, writeSpan_of_mem _ _ hge hx,
      writeSpan_of_mem _ _ hge (by simp; omega), List.getElem_append_left hx]
  rcases Nat.lt_or_ge x (a + xs.length + ys.length) with hin | hout'
  · have hy : x - (a + xs.length) < ys.length := by omega
    rw [writeSpan_of_mem _ _ hout hy, writeSpan_of_mem _ _ hge (by simp; omega),
      List.getElem_append_right (by omega)]
    congr 1
    omega
  · rw [writeSpan_of_ge _ _ hout', writeSpan_of_ge _ _ hout,
      writeSpan_of_ge _ _ (by simp; omega)]

/-! ### Filling a buffer -/

/-- Copying a block that fits keeps the buffer's length. -/
theorem length_overwrite {xs src : List β} {off : ℕ} (h : off + src.length ≤ xs.length) :
    (overwrite xs off src).length = xs.length := by
  simp [overwrite]
  omega

/-- What a cell of the buffer holds after copying a block that fits. -/
theorem getElem?_overwrite {xs src : List β} {off : ℕ} (h : off + src.length ≤ xs.length) (i : ℕ) :
    (overwrite xs off src)[i]? =
      if off ≤ i ∧ i < off + src.length then src[i - off]? else xs[i]? := by
  have htake : (xs.take off).length = off := by simp; omega
  rw [overwrite, List.append_assoc, List.getElem?_append, htake]
  split_ifs with hlo hin hin
  · omega
  · exact List.getElem?_take_of_lt hlo
  · exact List.getElem?_append_left (by omega)
  · rw [List.getElem?_append_right (by omega), List.getElem?_drop]
    congr 1
    omega

/-- A buffer filled from the left holds what was copied so far. -/
theorem take_overwrite {xs src : List β} {off : ℕ} (h : off ≤ xs.length) :
    (overwrite xs off src).take (off + src.length) = xs.take off ++ src := by
  have hlen : (xs.take off ++ src).length = off + src.length := by simp [h]
  rw [overwrite, ← hlen, List.take_left]

end ByteMemory
