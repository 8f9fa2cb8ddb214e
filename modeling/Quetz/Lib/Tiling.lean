import Mathlib.Data.List.Pairwise
import Mathlib.Tactic.Ring

/-!
# Tilings of an Interval

A transfer of `hi - lo` cells is often cut into consecutive chunks. `Tiles xs lo hi` says that
the chunks `xs`, pairs of a start and a size, are nonempty and follow each other from `lo` to
`hi`. From the left-to-right description the lemmas derive the unordered one: the chunks are
pairwise disjoint and their union is the interval.

## Main results

* `Tiles.snoc`: one more chunk at the end.
* `Tiles.pairwise` / `Tiles.mem_iff`: disjoint, and together exactly the interval.
* `lineSplit_cons` / `lineSplit_tiles`: the parts of an interval in its lines, from left to right.
* `lineSplit_same_line`: no part crosses a line.
-/

namespace Tiling

/-- A chunk: its start and its size. -/
abbrev Chunk := ℕ × ℕ

/-- The cell `x` lies in the chunk. -/
def Chunk.Holds (c : Chunk) (x : ℕ) : Prop := c.1 ≤ x ∧ x < c.1 + c.2

/-- No cell lies in both chunks. -/
def Chunk.Disjoint (c d : Chunk) : Prop := c.1 + c.2 ≤ d.1 ∨ d.1 + d.2 ≤ c.1

/-- The chunks follow each other from `lo` to `hi`. -/
def Tiles : List Chunk → ℕ → ℕ → Prop
  | [], lo, hi => lo = hi
  | c :: cs, lo, hi => c.1 = lo ∧ 0 < c.2 ∧ Tiles cs (lo + c.2) hi

theorem Tiles.le : ∀ {cs : List Chunk} {lo hi : ℕ}, Tiles cs lo hi → lo ≤ hi
  | [], _, _, h => Nat.le_of_eq h
  | _ :: _, _, _, h => Nat.le_trans (Nat.le_add_right _ _) (Tiles.le h.2.2)

/-- One more chunk at the end. -/
theorem Tiles.snoc : ∀ {cs : List Chunk} {lo hi n : ℕ}, Tiles cs lo hi → 0 < n →
    Tiles (cs ++ [(hi, n)]) lo (hi + n)
  | [], _, _, _, h, hn => ⟨h.symm, hn, by rw [show _ = _ from h]; rfl⟩
  | _ :: _, _, _, _, h, hn => ⟨h.1, h.2.1, Tiles.snoc h.2.2 hn⟩

/-- Every chunk is nonempty and inside the interval. -/
theorem Tiles.bounds : ∀ {cs : List Chunk} {lo hi : ℕ}, Tiles cs lo hi → ∀ c ∈ cs,
    lo ≤ c.1 ∧ 0 < c.2 ∧ c.1 + c.2 ≤ hi
  | c :: cs, lo, hi, h, d, hd => by
    obtain ⟨hc, hn, hcs⟩ := h
    have hle := Tiles.le hcs
    rcases List.mem_cons.mp hd with rfl | hd
    · exact ⟨Nat.le_of_eq hc.symm, hn, by omega⟩
    · obtain ⟨h₁, h₂, h₃⟩ := Tiles.bounds hcs d hd
      exact ⟨by omega, h₂, h₃⟩

/-- The chunks are pairwise disjoint. -/
theorem Tiles.pairwise : ∀ {cs : List Chunk} {lo hi : ℕ}, Tiles cs lo hi →
    cs.Pairwise Chunk.Disjoint
  | [], _, _, _ => List.Pairwise.nil
  | c :: cs, lo, hi, h => by
    obtain ⟨hc, -, hcs⟩ := h
    refine List.pairwise_cons.mpr ⟨fun d hd => ?_, Tiles.pairwise hcs⟩
    have := (Tiles.bounds hcs d hd).1
    exact Or.inl (by omega)

/-- Together the chunks are exactly the interval. -/
theorem Tiles.mem_iff : ∀ {cs : List Chunk} {lo hi : ℕ}, Tiles cs lo hi → ∀ x,
    (∃ c ∈ cs, c.Holds x) ↔ lo ≤ x ∧ x < hi
  | [], lo, hi, h, x => by
    have : lo = hi := h
    simp only [List.not_mem_nil, false_and, exists_false, false_iff]
    omega
  | c :: cs, lo, hi, h, x => by
    obtain ⟨hc, hn, hcs⟩ := h
    have hle := Tiles.le hcs
    have ih := Tiles.mem_iff hcs x
    simp only [List.mem_cons, exists_eq_or_imp, ih]
    simp only [Chunk.Holds, hc]
    omega

/-! ### Cutting at the lines

The cells are grouped in lines of `line` cells. The part of an interval in each line it meets is
a chunk.
-/

/-- The number of lines that `[lo, lo + n)` meets. -/
def lineCount (line lo n : ℕ) : ℕ := if n = 0 then 0 else (lo + n - 1) / line - lo / line + 1

/-- The part of `[lo, lo + n)` in its `i`-th line. -/
def linePart (line lo n i : ℕ) : Chunk :=
  let start := max lo ((lo / line + i) * line)
  (start, min (lo + n) ((lo / line + i + 1) * line) - start)

/-- The parts of `[lo, lo + n)` in the lines it meets, from left to right. -/
def lineSplit (line lo n : ℕ) : List Chunk :=
  (List.range (lineCount line lo n)).map (linePart line lo n)

@[simp] theorem lineSplit_zero (line lo : ℕ) : lineSplit line lo 0 = [] := rfl

variable {line lo n : ℕ}

/-- The first cell lies in the first line. -/
theorem linePart_zero (hline : 0 < line) :
    linePart line lo n 0 = (lo, min n (line - lo % line)) := by
  have hdiv := Nat.div_add_mod lo line
  have hmod := Nat.mod_lt lo hline
  have hstart : max lo ((lo / line + 0) * line) = lo := by
    rw [Nat.add_zero, Nat.mul_comm]
    omega
  have hend : (lo / line + 0 + 1) * line = line * (lo / line) + line := by ring
  simp only [linePart, hstart, hend, Prod.mk.injEq, true_and]
  omega

/-- An interval that ends in its first line. -/
theorem lineSplit_of_le (hline : 0 < line) (hn : 0 < n) (hle : n ≤ line - lo % line) :
    lineSplit line lo n = [(lo, n)] := by
  have hdiv := Nat.div_add_mod lo line
  have hmod := Nat.mod_lt lo hline
  have hlast : (lo + n - 1) / line = lo / line := by
    refine (Nat.div_eq_iff hline).mpr ⟨?_, ?_⟩ <;> rw [Nat.mul_comm] <;> omega
  have hcount : lineCount line lo n = 1 := by
    rw [lineCount, if_neg (Nat.ne_of_gt hn), hlast]
    omega
  rw [lineSplit, hcount, List.range_one, List.map_singleton, linePart_zero hline,
    Nat.min_eq_left hle]

/-- The rest of an interval starts at the end of its first line. -/
theorem lineSplit_of_lt (hline : 0 < line) (hlt : line - lo % line < n) :
    lineSplit line lo n = (lo, line - lo % line) ::
      lineSplit line (lo + (line - lo % line)) (n - (line - lo % line)) := by
  have hdiv := Nat.div_add_mod lo line
  have hmod := Nat.mod_lt lo hline
  have hnext : lo + (line - lo % line) = (lo / line + 1) * line := by
    rw [Nat.add_mul, Nat.one_mul, Nat.mul_comm]
    omega
  have hnextdiv : (lo + (line - lo % line)) / line = lo / line + 1 := by
    rw [hnext, Nat.mul_div_cancel _ hline]
  have hend : lo + (line - lo % line) + (n - (line - lo % line)) = lo + n := by omega
  have hge : lo / line + 1 ≤ (lo + n - 1) / line := by
    rw [Nat.le_div_iff_mul_le hline]
    omega
  have hcount : lineCount line lo n =
      lineCount line (lo + (line - lo % line)) (n - (line - lo % line)) + 1 := by
    rw [lineCount, lineCount, if_neg (by omega), if_neg (by omega), hend, hnextdiv]
    omega
  rw [lineSplit, hcount, List.range_succ_eq_map, List.map_cons, linePart_zero hline,
    Nat.min_eq_right hlt.le, List.map_map]
  congr 1
  refine List.map_congr_left fun i _ => ?_
  have hstart : max lo ((lo / line + 1 + i) * line) = (lo / line + 1 + i) * line := by
    have hle : (lo / line + 1) * line ≤ (lo / line + 1 + i) * line :=
      Nat.mul_le_mul_right _ (Nat.le_add_right _ _)
    omega
  have hstart' : max (lo + (line - lo % line)) ((lo / line + 1 + i) * line) =
      (lo / line + 1 + i) * line := by
    rw [hnext]
    exact Nat.max_eq_right (Nat.mul_le_mul_right _ (Nat.le_add_right _ _))
  have hindex : lo / line + (i + 1) = lo / line + 1 + i := by omega
  simp only [Function.comp_apply, Nat.succ_eq_add_one, linePart, hend, hnextdiv, hindex, hstart,
    hstart']

/-- The first chunk runs to the end of its line or of the interval. -/
theorem lineSplit_cons (hline : 0 < line) (hn : 0 < n) :
    lineSplit line lo n = (lo, min n (line - lo % line)) ::
      lineSplit line (lo + min n (line - lo % line)) (n - min n (line - lo % line)) := by
  rcases Nat.lt_or_ge (line - lo % line) n with hlt | hle
  · rw [Nat.min_eq_right hlt.le]
    exact lineSplit_of_lt hline hlt
  · rw [Nat.min_eq_left hle, Nat.sub_self, lineSplit_zero]
    exact lineSplit_of_le hline hn hle

/-- The chunks follow each other through the interval. -/
theorem lineSplit_tiles (hline : 0 < line) : Tiles (lineSplit line lo n) lo (lo + n) := by
  induction n using Nat.strong_induction_on generalizing lo with
  | _ n ih =>
      rcases Nat.eq_zero_or_pos n with rfl | hn
      · rw [lineSplit_zero]
        exact rfl
      · have hmod := Nat.mod_lt lo hline
        have hpos : 0 < min n (line - lo % line) := by omega
        have hrest : Tiles
            (lineSplit line (lo + min n (line - lo % line)) (n - min n (line - lo % line)))
            (lo + min n (line - lo % line)) _ := ih (n - min n (line - lo % line)) (by omega)
        rw [lineSplit_cons hline hn]
        refine ⟨rfl, hpos, ?_⟩
        have hend : lo + min n (line - lo % line) + (n - min n (line - lo % line)) = lo + n := by
          omega
        rwa [hend] at hrest

/-- The number of the chunks is that of the lines. -/
@[simp] theorem length_lineSplit (line lo n : ℕ) :
    (lineSplit line lo n).length = lineCount line lo n := by
  rw [lineSplit, List.length_map, List.length_range]

/-- The first and the last cell of a chunk lie in one line. -/
theorem lineSplit_same_line (hline : 0 < line) {c : Chunk} (hc : c ∈ lineSplit line lo n) :
    (c.1 + c.2 - 1) / line = c.1 / line := by
  induction n using Nat.strong_induction_on generalizing lo with
  | _ n ih =>
      rcases Nat.eq_zero_or_pos n with rfl | hn
      · rw [lineSplit_zero] at hc
        exact absurd hc List.not_mem_nil
      · have hdiv := Nat.div_add_mod lo line
        have hmod := Nat.mod_lt lo hline
        have hpos : 0 < min n (line - lo % line) := by omega
        rw [lineSplit_cons hline hn] at hc
        rcases List.mem_cons.mp hc with rfl | hc
        · refine (Nat.div_eq_iff hline).mpr ⟨?_, ?_⟩ <;> rw [Nat.mul_comm] <;> dsimp only <;> omega
        · exact ih (n - min n (line - lo % line)) (by omega) hc

end Tiling
