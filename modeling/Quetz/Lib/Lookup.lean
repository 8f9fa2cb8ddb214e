import Mathlib.Data.List.Basic

/-!
# Lookup in a List

The first entry that matches, and the first of the longest entries that match. Where no two entries
compete for the same thing, what is found does not depend on their order.

## Main results

* `find?_eq_some_iff_of_exclusive`: the only entry that matches is the one that is found.
* `longest_eq_some_iff`: the longest entry that matches is the one that is found.
-/

namespace Lookup

section

variable {α : Type} {p : α → Bool} {l : List α} {a : α}

/-- No two entries match. -/
def Exclusive (p : α → Bool) (l : List α) : Prop :=
  l.Pairwise fun a b => ¬ (p a = true ∧ p b = true)

theorem Exclusive.tail (h : Exclusive p (a :: l)) : Exclusive p l := (List.pairwise_cons.mp h).2

/-- **The only entry that matches is the one that is found.** -/
theorem find?_eq_some_iff_of_exclusive (h : Exclusive p l) :
    l.find? p = some a ↔ a ∈ l ∧ p a = true := by
  induction l with
  | nil => simp
  | cons b l ih =>
      rw [List.find?_cons]
      split
      next hb =>
        rw [Option.some.injEq]
        constructor
        · rintro rfl
          exact ⟨List.mem_cons_self, hb⟩
        · rintro ⟨hmem, ha⟩
          rcases List.mem_cons.mp hmem with rfl | hmem
          · rfl
          · exact absurd ⟨hb, ha⟩ ((List.pairwise_cons.mp h).1 a hmem)
      next hb =>
        rw [ih h.tail, List.mem_cons]
        constructor
        · exact fun ⟨hmem, ha⟩ => ⟨.inr hmem, ha⟩
        · rintro ⟨rfl | hmem, ha⟩
          · exact absurd ha (by simp [hb])
          · exact ⟨hmem, ha⟩

end

/-! ### The longest entry -/

section

variable {α : Type} {len : α → ℕ} {p : α → Bool} {l : List α} {a b : α} {best : Option α}

/-- The first of the longest entries that match, if it is longer than the best one so far. -/
def longest (len : α → ℕ) (p : α → Bool) (best : Option α) : List α → Option α
  | [] => best
  | a :: l => longest len p (if p a && best.all (fun b => len b < len a) then some a else best) l

/-- The entry that is found is the best one so far or a longest one that matches. -/
theorem longest_spec (h : longest len p best l = some a) :
    (best = some a ∨ a ∈ l ∧ p a = true) ∧ (∀ b ∈ best, len b ≤ len a) ∧
      ∀ b ∈ l, p b = true → len b ≤ len a := by
  induction l generalizing best with
  | nil =>
      refine ⟨.inl h, fun b hb => ?_, by simp⟩
      exact Nat.le_of_eq (congrArg len (Option.some.inj (hb.symm.trans h)))
  | cons c l ih =>
      rw [longest] at h
      split at h
      next hc =>
        rw [Bool.and_eq_true] at hc
        obtain ⟨hwhere, hbest, hall⟩ := ih h
        have hca : len c ≤ len a := hbest c rfl
        refine ⟨.inr ?_, fun b hb => ?_, List.forall_mem_cons.mpr ⟨fun _ => hca, hall⟩⟩
        · obtain hca | ⟨hmem, hpa⟩ := hwhere
          · rw [← Option.some.inj hca]
            exact ⟨List.mem_cons_self, hc.1⟩
          · exact ⟨List.mem_cons_of_mem _ hmem, hpa⟩
        · obtain rfl : best = some b := hb
          have hlt : len b < len c := by simpa using hc.2
          omega
      next hc =>
        obtain ⟨hwhere, hbest, hall⟩ := ih h
        refine ⟨hwhere.imp_right fun hm => ⟨List.mem_cons_of_mem _ hm.1, hm.2⟩, hbest,
          List.forall_mem_cons.mpr ⟨fun hpc => ?_, hall⟩⟩
        cases hb : best with
        | none => simp [hpc, hb] at hc
        | some b =>
            have hle : len c ≤ len b := by simpa [hpc, hb] using hc
            have := hbest b hb
            omega

/-- Something is found if an entry matches. -/
theorem longest_ne_none (h : best ≠ none ∨ ∃ a ∈ l, p a = true) : longest len p best l ≠ none := by
  induction l generalizing best with
  | nil => exact h.resolve_right (by simp)
  | cons c l ih =>
      rw [longest]
      refine ih ?_
      split
      next => exact .inl (Option.some_ne_none c)
      next hc =>
        obtain hbest | ⟨a, ha, hpa⟩ := h
        · exact .inl hbest
        · rcases List.mem_cons.mp ha with rfl | ha
          · refine .inl fun hnone => hc ?_
            simp [hpa, hnone]
          · exact .inr ⟨a, ha, hpa⟩

/-- **The longest entry that matches is the one that is found**, if entries of one length that
match are the same. -/
theorem longest_eq_some_iff
    (hinj : ∀ a ∈ l, ∀ b ∈ l, p a = true → p b = true → len a = len b → a = b) :
    longest len p none l = some a ↔
      a ∈ l ∧ p a = true ∧ ∀ b ∈ l, p b = true → len b ≤ len a := by
  constructor
  · intro h
    obtain ⟨hwhere, -, hall⟩ := longest_spec h
    obtain ⟨hmem, hpa⟩ := hwhere.resolve_left (by simp)
    exact ⟨hmem, hpa, hall⟩
  · rintro ⟨hmem, hpa, hall⟩
    have hne : longest len p none l ≠ none := longest_ne_none (.inr ⟨a, hmem, hpa⟩)
    obtain ⟨b, hb⟩ := Option.ne_none_iff_exists'.mp hne
    obtain ⟨hwhere, -, hall'⟩ := longest_spec hb
    obtain ⟨hbmem, hpb⟩ := hwhere.resolve_left (by simp)
    rw [hb, hinj b hbmem a hmem hpb hpa (Nat.le_antisymm (hall b hbmem hpb) (hall' a hmem hpa))]

end

end Lookup
