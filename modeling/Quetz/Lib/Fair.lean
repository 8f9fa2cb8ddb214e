import Mathlib.Order.Nat

/-!
# Fair Runs

A run is a sequence of states, indexed by the number of steps. Fairness says that something happens
again and again; what must happen then follows from a rank.

## Main results

* `again_and`: a step that is taken again and again is taken when a condition holds that lasts.
* `eventually_of_rank`: a rank that falls with every working step runs out.
-/

namespace Fair

/-- From every step on it happens once more. -/
def Again (p : ℕ → Prop) : Prop := ∀ n, ∃ m, n ≤ m ∧ p m

/-- **A condition that lasts until the step** holds at the step again and again. -/
theorem again_and {tick free : ℕ → Prop} (hlasts : ∀ n, free n → ¬tick n → free (n + 1))
    (htick : Again tick) (hfree : Again free) : Again fun n => tick n ∧ free n := by
  intro n
  obtain ⟨start, hn, hstart⟩ := hfree n
  obtain ⟨m, hm, hmtick⟩ := htick start
  -- The induction is on the distance to the step; it may come earlier than `m`.
  have hnext : ∀ d start, start + d = m → free start → ∃ m, start ≤ m ∧ tick m ∧ free m := by
    intro d
    induction d with
    | zero =>
        intro start hd hstart
        obtain rfl : start = m := hd
        exact ⟨start, le_rfl, hmtick, hstart⟩
    | succ d ih =>
        intro start hd hstart
        by_cases hnow : tick start
        · exact ⟨start, le_rfl, hnow, hstart⟩
        · obtain ⟨m', hm', hboth⟩ := ih (start + 1) (by omega) (hlasts start hstart hnow)
          exact ⟨m', by omega, hboth⟩
  obtain ⟨m', hm', hboth⟩ := hnext (m - start) start (by omega) hstart
  exact ⟨m', hn.trans hm', hboth⟩

variable {work done : ℕ → Prop}

/-- Before the end a rank that never grows is bounded. -/
theorem over_or_rank_le {rank : ℕ → ℕ} {start : ℕ}
    (hle : ∀ n, start ≤ n → done (n + 1) ∨ rank (n + 1) ≤ rank n) {m : ℕ} (hm : start ≤ m) :
    (∃ n, done n) ∨ rank m ≤ rank start := by
  obtain ⟨d, rfl⟩ := Nat.exists_eq_add_of_le hm
  clear hm
  induction d with
  | zero => exact Or.inr le_rfl
  | succ d ih =>
      rcases ih with hover | hrank
      · exact Or.inl hover
      · rcases hle (start + d) (Nat.le_add_right ..) with hover | hnext
        · exact Or.inl ⟨_, hover⟩
        · exact Or.inr (hnext.trans hrank)

/-- **A rank runs out.** If no step raises it and every working step lowers it, working steps that
come again and again lead to the end. -/
theorem eventually_of_rank (rank : ℕ → ℕ) (hfair : Again work) (start : ℕ)
    (hle : ∀ n, start ≤ n → done (n + 1) ∨ rank (n + 1) ≤ rank n)
    (hlt : ∀ n, start ≤ n → work n → done (n + 1) ∨ rank (n + 1) < rank n) : ∃ n, done n := by
  induction hr : rank start using Nat.strongRecOn generalizing start with
  | ind r ih =>
      obtain ⟨m, hm, hwork⟩ := hfair start
      rcases over_or_rank_le hle hm with hover | hrank
      · exact hover
      · rcases hlt m hm hwork with hover | hless
        · exact ⟨_, hover⟩
        · exact ih (rank (m + 1)) (by omega) (m + 1) (fun n hn => hle n (by omega))
            (fun n hn => hlt n (by omega)) rfl

end Fair
