import Mathlib.Tactic.Common

/-!
# Credits

A holder is granted credits for a key, one at a time, and may spend a credit
that it has due.  `Credit` says that what was spent is covered by what was
granted, over any relation that says who has a credit due and any counts of the
grants and the spendings; its lemmas say which changes keep it.
-/

/-- Spendings are covered by grants, with one to spare for a credit that is due. -/
structure Credit {T K : Type} (due : T → K → Prop) (granted spent : T → K → ℕ) : Prop where
  spare : ∀ {t k}, due t k → spent t k < granted t k
  covered : ∀ t k, spent t k ≤ granted t k

namespace Credit

variable {T K : Type} {due due' : T → K → Prop} {granted granted' spent spent' : T → K → ℕ}

/-- Holders may drop credits, and be granted more than they take. -/
theorem mono (h : Credit due granted spent) (hdue : ∀ {t k}, due' t k → due t k)
    (hgranted : ∀ t k, granted t k ≤ granted' t k) : Credit due' granted' spent where
  spare hk := Nat.lt_of_lt_of_le (h.spare (hdue hk)) (hgranted _ _)
  covered t k := Nat.le_trans (h.covered t k) (hgranted t k)

/-- A holder is granted a credit. -/
theorem grant (h : Credit due granted spent) {t : T} {k : K}
    (hdue : ∀ {t' k'}, due' t' k' → due t' k' ∨ t' = t ∧ k' = k)
    (hgranted : ∀ t' k', granted t' k' ≤ granted' t' k') (hone : granted t k < granted' t k) :
    Credit due' granted' spent where
  spare := by
    intro t' k' hk
    rcases hdue hk with hold | ⟨rfl, rfl⟩
    · exact Nat.lt_of_lt_of_le (h.spare hold) (hgranted _ _)
    · exact Nat.lt_of_le_of_lt (h.covered _ _) hone
  covered t' k' := Nat.le_trans (h.covered t' k') (hgranted t' k')

/-- A holder spends the credit that it has due. -/
theorem spend (h : Credit due granted spent) {t : T} {k : K} (hk : due t k)
    (hdue : ∀ {t' k'}, due' t' k' → due t' k' ∧ ¬(t' = t ∧ k' = k))
    (hone : spent' t k = spent t k + 1)
    (hother : ∀ {t' k'}, ¬(t' = t ∧ k' = k) → spent' t' k' = spent t' k') :
    Credit due' granted spent' where
  spare := by
    intro t' k' hk'
    obtain ⟨hold, hne⟩ := hdue hk'
    rw [hother hne]
    exact h.spare hold
  covered := by
    intro t' k'
    by_cases heq : t' = t ∧ k' = k
    · obtain ⟨rfl, rfl⟩ := heq
      rw [hone]
      exact h.spare hk
    · rw [hother heq]
      exact h.covered t' k'

end Credit
