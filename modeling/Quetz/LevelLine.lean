import Quetz.GpuIrq

/-!
# Level Lines

A line that starts low, and the levels sent on it: a driver that sends a level only where it
changes the line sends 1, 0, 1 and so on.

## Main results

* `LevelLine.alternate` / `LevelLine.last`: the levels alternate, and the last one is the line.
-/

namespace Quetz

open GpuDevice (alternating)

/-- The levels sent so far, oldest first, on a line that is now up or down. -/
def LevelLine (levels : List ℕ) (up : Bool) : Prop :=
  ∃ n, levels = alternating n ∧ (up = true ↔ n % 2 = 1)

namespace LevelLine

variable {levels : List ℕ} {up : Bool}

/-- Before anything is sent the line is low. -/
theorem nil : LevelLine [] false := ⟨0, rfl, by simp⟩

/-- A line that is low goes up. -/
theorem raise (h : LevelLine levels false) : LevelLine (levels ++ [1]) true := by
  obtain ⟨n, rfl, hn⟩ := h
  have hodd : (n + 1) % 2 = 1 := by
    have : ¬n % 2 = 1 := fun h1 => Bool.false_ne_true (hn.mpr h1)
    omega
  exact ⟨n + 1, by rw [alternating, hodd], by simp [hodd]⟩

/-- A line that is up goes down. -/
theorem lower (h : LevelLine levels true) : LevelLine (levels ++ [0]) false := by
  obtain ⟨n, rfl, hn⟩ := h
  have heven : (n + 1) % 2 = 0 := by
    have : n % 2 = 1 := hn.mp rfl
    omega
  exact ⟨n + 1, by rw [alternating, heven], by simp [heven]⟩

/-- The levels sent alternate, beginning with 1. -/
theorem alternate (h : LevelLine levels up) : levels = alternating levels.length := by
  obtain ⟨n, rfl, -⟩ := h
  rw [GpuDevice.length_alternating]

/-- The last level sent is the line; a line on which nothing was sent is low. -/
theorem last (h : LevelLine levels up) : levels.getLastD 0 = if up then 1 else 0 := by
  obtain ⟨n, rfl, hn⟩ := h
  cases n with
  | zero => simpa [alternating] using hn
  | succ n =>
      rw [alternating, List.getLastD_concat]
      cases up with
      | true => exact hn.mp rfl
      | false =>
          have : ¬(n + 1) % 2 = 1 := fun h1 => Bool.false_ne_true (hn.mpr h1)
          simp only [Bool.false_eq_true, if_false]
          omega

end LevelLine

end Quetz
