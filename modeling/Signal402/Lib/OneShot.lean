import Mathlib.Tactic.Common

/-!
# One-shot rights

A right for each key: whoever takes it holds it alone, may use it once, and
nobody can take it again.  `OneShot` is the invariant, over any relation that
says who holds which right, any count of the uses, and any predicate that
shows that a right was taken; its lemmas say which changes keep it.
-/

/-- Each right is held by one holder or was used once, and then it is taken. -/
structure OneShot {T K : Type} (holds : T → K → Prop) (used : K → ℕ) (taken : K → Prop) :
    Prop where
  held : ∀ {t k}, holds t k → taken k ∧ used k = 0 ∧ ∀ {t'}, holds t' k → t' = t
  spent : ∀ {k}, used k ≠ 0 → taken k ∧ used k = 1 ∧ ∀ {t}, ¬ holds t k

namespace OneShot

variable {T K : Type} {holds holds' : T → K → Prop} {used used' : K → ℕ}
  {taken taken' : K → Prop}

/-- A right is used at most once. -/
theorem used_le_one (h : OneShot holds used taken) (k : K) : used k ≤ 1 := by
  by_cases hk : used k = 0
  · rw [hk]
    exact Nat.zero_le 1
  · exact Nat.le_of_eq (h.spent hk).2.1

/-- Holders may drop rights, and more rights may be taken. -/
theorem mono (h : OneShot holds used taken) (hholds : ∀ {t k}, holds' t k → holds t k)
    (htaken : ∀ {k}, taken k → taken' k) : OneShot holds' used taken' where
  held := by
    intro t k hk
    obtain ⟨ht, hu, hunique⟩ := h.held (hholds hk)
    exact ⟨htaken ht, hu, fun hk' => hunique (hholds hk')⟩
  spent := by
    intro k hk
    obtain ⟨ht, hu, hnone⟩ := h.spent hk
    exact ⟨htaken ht, hu, fun hk' => hnone (hholds hk')⟩

/-- A right that was not taken is taken. -/
theorem take (h : OneShot holds used taken) {t : T} {k : K} (hfree : ¬ taken k)
    (hholds : ∀ {t' k'}, holds' t' k' → holds t' k' ∨ t' = t ∧ k' = k)
    (htaken : ∀ {k'}, taken k' → taken' k') (hk : taken' k) : OneShot holds' used taken' where
  held := by
    intro t' k' hk'
    rcases hholds hk' with hold | ⟨rfl, rfl⟩
    · obtain ⟨ht, hu, hunique⟩ := h.held hold
      refine ⟨htaken ht, hu, fun hk'' => ?_⟩
      rcases hholds hk'' with hold' | ⟨-, rfl⟩
      · exact hunique hold'
      · exact absurd ht hfree
    · refine ⟨hk, ?_, fun hk'' => ?_⟩
      · by_contra hu
        exact hfree (h.spent hu).1
      · rcases hholds hk'' with hold' | ⟨rfl, -⟩
        · exact absurd (h.held hold').1 hfree
        · rfl
  spent := by
    intro k' hu
    obtain ⟨ht, hone, hnone⟩ := h.spent hu
    refine ⟨htaken ht, hone, fun hk' => ?_⟩
    rcases hholds hk' with hold | ⟨-, rfl⟩
    · exact hnone hold
    · exact hfree ht

/-- The holder uses its right. -/
theorem spend (h : OneShot holds used taken) {t : T} {k : K} (hk : holds t k)
    (hholds : ∀ {t' k'}, holds' t' k' → holds t' k' ∧ ¬ (t' = t ∧ k' = k))
    (hself : used' k = used k + 1) (hother : ∀ {k'}, k' ≠ k → used' k' = used k') :
    OneShot holds' used' taken := by
  obtain ⟨htaken, hzero, hunique⟩ := h.held hk
  have hnot : ∀ {t' k'}, holds' t' k' → k' ≠ k := by
    rintro t' k' hk' rfl
    obtain ⟨hold, hne⟩ := hholds hk'
    exact hne ⟨hunique hold, rfl⟩
  refine ⟨fun {t' k'} hk' => ?_, fun {k'} hu => ?_⟩
  · obtain ⟨ht, hu, hunique'⟩ := h.held (hholds hk').1
    exact ⟨ht, (hother (hnot hk')).trans hu, fun hk'' => hunique' (hholds hk'').1⟩
  · by_cases hkk : k' = k
    · subst hkk
      exact ⟨htaken, by rw [hself, hzero], fun hk' => hnot hk' rfl⟩
    · rw [hother hkk] at hu ⊢
      obtain ⟨ht, hone, hnone⟩ := h.spent hu
      exact ⟨ht, hone, fun hk' => hnone (hholds hk').1⟩

end OneShot
