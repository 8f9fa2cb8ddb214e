import Mathlib.Logic.Function.Basic
import Mathlib.Data.List.Basic

/-!
# Arrays with Checked Accesses

An array is a list, and an access outside of it is `none`. `forLoop` is a loop with a counter over
a state, the array for instance, whose body may fail.

An array of `n` entries is `vec n f` for a function `f`; on such arrays a write is
`Function.update`, so the invariant of a loop is a family of functions.

## Main results

* `put_vec`: a write.
* `forLoop_eq`: a loop whose states are known.
* `forLoop_inv`: a loop that keeps an invariant.
-/

namespace CheckedArray

variable {α : Type}

/-! ### Accesses -/

/-- A write. -/
def put (a : List α) (i : ℕ) (v : α) : Option (List α) :=
  if i < a.length then some (a.set i v) else none

/-- The array with the values of `f`. -/
def vec (n : ℕ) (f : ℕ → α) : List α := (List.range n).map f

variable {n i : ℕ} {f g : ℕ → α}

/-- The length of the array. -/
@[simp] theorem length_vec (n : ℕ) (f : ℕ → α) : (vec n f).length = n := by simp [vec]

/-- An index inside the array. -/
theorem getElem?_vec (hi : i < n) : (vec n f)[i]? = some (f i) := by simp [vec, hi]

/-- An index outside the array. -/
theorem getElem?_vec_eq_none (hi : ¬i < n) : (vec n f)[i]? = none := by
  simpa [vec] using Nat.not_lt.mp hi

/-- Only the values inside the array matter. -/
theorem vec_congr (h : ∀ i < n, f i = g i) : vec n f = vec n g :=
  List.map_congr_left fun i hi => h i (List.mem_range.mp hi)

/-- An array is known by its length and its entries. -/
theorem eq_vec {a : List α} (ha : a.length = n) (h : ∀ i < n, a[i]? = some (f i)) :
    a = vec n f := by
  refine List.ext_getElem? fun x => ?_
  by_cases hx : x < n
  · rw [h x hx, getElem?_vec hx]
  · rw [getElem?_vec_eq_none hx, List.getElem?_eq_none (by omega)]

/-- Every array that is not empty has this form. -/
theorem exists_vec {a : List α} (hn : 0 < n) (ha : a.length = n) : ∃ f, a = vec n f := by
  obtain ⟨p, rest, rfl⟩ := List.exists_cons_of_ne_nil (List.ne_nil_of_length_pos (ha ▸ hn))
  refine ⟨fun i => (p :: rest).getD i p, eq_vec ha fun x hx => ?_⟩
  rw [List.getD_eq_getElem?_getD, List.getElem?_eq_getElem (ha ▸ hx)]
  rfl

/-- A store inside the array changes one value. -/
theorem put_vec (hi : i < n) (v : α) :
    put (vec n f) i v = some (vec n (Function.update f i v)) := by
  rw [put, length_vec, if_pos hi]
  refine congrArg some (eq_vec (by simp) fun x hx => ?_)
  rw [List.getElem?_set, length_vec, getElem?_vec hx]
  by_cases hix : i = x
  · rw [if_pos hix, if_pos hi, hix, Function.update_self]
  · rw [if_neg hix, Function.update_of_ne (Ne.symm hix)]

/-- A store inside the array is defined and keeps the length. -/
theorem put_defined {a : List α} (hi : i < a.length) (v : α) :
    ∃ a', put a i v = some a' ∧ a'.length = a.length :=
  ⟨a.set i v, if_pos hi, List.length_set⟩

/-! ### Loops -/

/-- A loop from `i` on, with the number of its rounds. -/
def forLoop (body : ℕ → α → Option α) : ℕ → ℕ → α → Option α
  | 0, _, a => some a
  | rounds + 1, i, a => do
    let a ← body i a
    forLoop body rounds (i + 1) a

variable {body : ℕ → α → Option α} {fin rounds : ℕ}

/-- A loop with an invariant ends. -/
theorem forLoop_inv (Inv : ℕ → α → Prop)
    (step : ∀ k a, i ≤ k → k < fin → Inv k a → ∃ a', body k a = some a' ∧ Inv (k + 1) a')
    (hfin : i + rounds = fin) {a : α} (ha : Inv i a) :
    ∃ a', forLoop body rounds i a = some a' ∧ Inv fin a' := by
  induction rounds generalizing i a with
  | zero => exact ⟨a, rfl, hfin ▸ ha⟩
  | succ rounds ih =>
      obtain ⟨a', hbody, ha'⟩ := step i a (Nat.le_refl i) (by omega) ha
      obtain ⟨a'', hloop, hend⟩ := ih (fun k a hk => step k a (by omega)) (by omega) ha'
      refine ⟨a'', ?_, hend⟩
      rw [forLoop, hbody]
      exact hloop

/-- A loop whose states are known. -/
theorem forLoop_eq (s : ℕ → α) (step : ∀ k, i ≤ k → k < fin → body k (s k) = some (s (k + 1)))
    (hfin : i + rounds = fin) : forLoop body rounds i (s i) = some (s fin) := by
  induction rounds generalizing i with
  | zero => exact congrArg (fun k => some (s k)) hfin
  | succ rounds ih =>
      rw [forLoop, step i (Nat.le_refl i) (by omega)]
      exact ih (fun k hk => step k (by omega)) (by omega)

end CheckedArray
