import Mathlib.Algebra.BigOperators.Ring.Finset
import Mathlib.Data.List.Basic
import Mathlib.Data.List.DropRight

/-!
# Logs

Several sources write to one log, in any order. An entry is tagged with its source; the log is an
interleaving of the sequences of its sources. What is derived from each entry on its own is again an
interleaving, of what is derived from the sequences. A log of bounded length forgets its oldest
entries.

## Main results

* `of_derived`: deriving from an interleaving.
* `length_eq_sum`: the length of an interleaving.
* `pushBounded_rtake`: a bounded log holds the last entries.
-/

namespace Logs

/-! ### Interleavings -/

section

variable {ι α β : Type*}

/-- What each entry leads to, tagged with the source of the entry. -/
def derived (f : α → List β) (log : List (ι × α)) : List (ι × β) :=
  log.flatMap fun e => (f e.2).map fun b => (e.1, b)

/-- The first entry, and the rest. -/
theorem derived_cons (f : α → List β) (e : ι × α) (log : List (ι × α)) :
    derived f (e :: log) = ((f e.2).map fun b => (e.1, b)) ++ derived f log := rfl

/-- Without the tags, what is derived is derived from the entries. -/
theorem map_snd_derived (f : α → List β) (log : List (ι × α)) :
    (derived f log).map Prod.snd = (log.map Prod.snd).flatMap f := by
  induction log with
  | nil => rfl
  | cons e log ih =>
      rw [derived_cons, List.map_append, ih, List.map_map, List.map_cons, List.flatMap_cons]
      exact congrArg (· ++ _) (List.map_id _)

/-- What is derived has the tags of the entries. -/
theorem derived_tags {f : α → List β} {log : List (ι × α)} {p : ι → Prop}
    (hlog : ∀ e ∈ log, p e.1) : ∀ e ∈ derived f log, p e.1 := by
  intro e he
  obtain ⟨a, ha, he⟩ := List.mem_flatMap.mp he
  obtain ⟨b, -, rfl⟩ := List.mem_map.mp he
  exact hlog a ha

variable [DecidableEq ι]

/-- The sequence of one source. -/
def of (i : ι) (log : List (ι × α)) : List α := (log.filter fun e => e.1 = i).map Prod.snd

/-- An entry is in the log of its index. -/
theorem mem_of {e : ι × α} {log : List (ι × α)} (he : e ∈ log) : e.2 ∈ of e.1 log :=
  List.mem_map.mpr ⟨e, List.mem_filter.mpr ⟨he, decide_eq_true rfl⟩, rfl⟩

/-- One part of a log after the other. -/
theorem of_append (i : ι) (log log' : List (ι × α)) :
    of i (log ++ log') = of i log ++ of i log' := by
  rw [of, List.filter_append, List.map_append]
  rfl

/-- Selecting by content and by index commute. -/
theorem of_filter (i : ι) (p : α → Bool) (log : List (ι × α)) :
    of i (log.filter fun e => p e.2) = (of i log).filter p := by
  rw [of, of, List.filter_filter, List.filter_map, List.filter_filter]
  simp only [Function.comp_apply, Bool.and_comm]

/-- Entries with one tag are all of one source. -/
theorem of_tagged (i j : ι) (l : List α) :
    of i (l.map fun a => (j, a)) = if j = i then l else [] := by
  by_cases hij : j = i
  · rw [if_pos hij, of, List.filter_eq_self.mpr, List.map_map]
    · exact List.map_id l
    · intro e he
      obtain ⟨a, -, rfl⟩ := List.mem_map.mp he
      exact decide_eq_true hij
  · rw [if_neg hij, of, List.filter_eq_nil_iff.mpr, List.map_nil]
    intro e he
    obtain ⟨a, -, rfl⟩ := List.mem_map.mp he
    simpa using hij

/-- **Deriving from an interleaving** derives from each source. -/
theorem of_derived (i : ι) (f : α → List β) (log : List (ι × α)) :
    of i (derived f log) = (of i log).flatMap f := by
  induction log with
  | nil => rfl
  | cons e log ih =>
      rw [derived_cons, of_append, of_tagged, ih, of, of, List.filter_cons]
      by_cases hi : e.1 = i
      · rw [if_pos hi, if_pos (decide_eq_true hi), List.map_cons, List.flatMap_cons]
      · rw [if_neg hi, if_neg (by simpa using hi), List.nil_append]

/-- **Every entry is of one source.** -/
theorem length_eq_sum {n : ℕ} {log : List (ℕ × α)} (hlog : ∀ e ∈ log, e.1 < n) :
    log.length = ∑ i ∈ Finset.range n, (of i log).length := by
  induction log with
  | nil => exact (Finset.sum_const_zero).symm
  | cons e log ih =>
      have hcons : ∀ i, (of i (e :: log)).length =
          (if e.1 = i then 1 else 0) + (of i log).length := by
        intro i
        rw [of, List.filter_cons]
        by_cases hi : e.1 = i
        · rw [if_pos (decide_eq_true hi), if_pos hi, List.map_cons, List.length_cons, of,
            Nat.add_comm]
        · rw [if_neg (by simpa using hi), if_neg hi, Nat.zero_add, of]
      simp only [hcons]
      rw [Finset.sum_add_distrib, Finset.sum_ite_eq,
        if_pos (Finset.mem_range.mpr (hlog e List.mem_cons_self)),
        ← ih fun e' he' => hlog e' (List.mem_cons_of_mem _ he'), List.length_cons, Nat.add_comm]

end

/-! ### Bounded logs -/

section

variable {α : Type*}

/-- Append an entry and drop the oldest one if there are more than `n`. -/
def pushBounded (n : ℕ) (log : List α) (a : α) : List α :=
  if n < (log ++ [a]).length then (log ++ [a]).tail else log ++ [a]

/-- **A bounded log holds the last entries.** -/
theorem pushBounded_rtake (n : ℕ) (log : List α) (a : α) :
    pushBounded n (log.rtake n) a = (log ++ [a]).rtake n := by
  have hlen : (log.rtake n).length = min n log.length := by
    rw [List.rtake, List.length_drop]
    omega
  rw [pushBounded, List.length_append, hlen, List.length_singleton, ← List.drop_one, List.rtake,
    List.rtake, List.length_append, List.length_singleton]
  by_cases hfull : n ≤ log.length
  · have hcut : log.length - n ≤ log.length := Nat.sub_le ..
    rw [if_pos (by omega), ← List.drop_append_of_le_length hcut, List.drop_drop]
    congr 1
    omega
  · have hzero : log.length - n = 0 := by omega
    have hzero' : log.length + 1 - n = 0 := by omega
    rw [if_neg (by omega), hzero, hzero', List.drop_zero, List.drop_zero]

end

end Logs
