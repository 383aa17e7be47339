import Signal402.Base.JsonText

/-!
# Readers of JSON that accept more

A reader accepts more than another one when it has at least its levels and its hooks take
whatever the other's take, for the same value.  What a strict reader reads is what a reader
that accepts more reads.

* `loadsWith_of_below` — a text that the strict reader reads is read as the same value.
-/

namespace Signal402

/-- The second hooks take what the first take, for the same values. -/
structure Hooks.Below (h h' : Hooks) : Prop where
  constant : ∀ {name v}, h.constant name = .ok v → h'.constant name = .ok v
  float : ∀ {x v}, h.float x = .ok v → h'.float x = .ok v
  pairs : ∀ {ps v}, h.pairs ps = .ok v → h'.pairs ps = .ok v

/-- The second scan reads what the first reads, for the same values. -/
def ScanBelow {α : Type} (scan scan' : PyStr → Except PyError (α × PyStr)) : Prop :=
  ∀ ⦃s r⦄, scan s = .ok r → scan' s = .ok r

section Below

variable {h h' : Hooks} (hooks : h.Below h')

/-- A constant, with the text behind it. -/
theorem constant_below {h h' : Hooks} (hooks : h.Below h') {name rest : PyStr} {r : Json × PyStr}
    (hr : ((h.constant name).map fun v => (v, rest)) = .ok r) :
    ((h'.constant name).map fun v => (v, rest)) = .ok r := by
  obtain ⟨v, hv, rfl⟩ := map_eq_ok.mp hr
  exact map_eq_ok.mpr ⟨v, hooks.constant hv, rfl⟩

include hooks

theorem numberOfParts_below {i f e : PyStr} {v : Json} (hv : numberOfParts h i f e = .ok v) :
    numberOfParts h' i f e = .ok v := by
  unfold numberOfParts at hv ⊢
  by_cases hint : f = [] ∧ e = []
  · rwa [if_pos hint] at hv ⊢
  · rw [if_neg hint] at hv ⊢
    exact hooks.float hv

theorem scanScalar_below : ScanBelow (scanScalar h) (scanScalar h') := by
  intro s r hr
  unfold scanScalar at hr ⊢
  split
  · rwa [if_pos ‹_›] at hr
  rw [if_neg ‹_›] at hr
  split
  · rwa [if_pos ‹_›] at hr
  rw [if_neg ‹_›] at hr
  split
  · rwa [if_pos ‹_›] at hr
  rw [if_neg ‹_›] at hr
  split
  · rwa [if_pos ‹_›] at hr
  rw [if_neg ‹_›] at hr
  split
  · rw [if_pos ‹_›] at hr
    exact constant_below hooks hr
  rw [if_neg ‹_›] at hr
  split
  · rw [if_pos ‹_›] at hr
    exact constant_below hooks hr
  rw [if_neg ‹_›] at hr
  split
  · rw [if_pos ‹_›] at hr
    exact constant_below hooks hr
  rw [if_neg ‹_›] at hr
  cases hint : scanInt s with
  | none =>
      rw [hint] at hr
      cases hr
  | some parts =>
      rw [hint] at hr
      obtain ⟨v, hv, rfl⟩ := map_eq_ok.mp hr
      exact map_eq_ok.mpr ⟨v, numberOfParts_below hooks hv, rfl⟩

omit hooks

section Containers

variable {scan scan' : PyStr → Except PyError (Json × PyStr)} (hscan : ScanBelow scan scan')

include hscan

theorem scanItems_below (fuel : ℕ) : ScanBelow (scanItems scan fuel) (scanItems scan' fuel) := by
  induction fuel with
  | zero =>
      intro s r hr
      cases hr
  | succ fuel ih =>
      intro s r hr
      rw [scanItems] at hr ⊢
      obtain ⟨q, hq, hr⟩ := bind_eq_ok.mp hr
      refine bind_eq_ok.mpr ⟨q, hscan hq, ?_⟩
      dsimp only at hr ⊢
      split
      · rw [if_pos ‹_›] at hr
        obtain ⟨t, ht, rfl⟩ := map_eq_ok.mp hr
        exact map_eq_ok.mpr ⟨t, ih ht, rfl⟩
      · rwa [if_neg ‹_›] at hr

theorem scanMembers_below (fuel : ℕ) :
    ScanBelow (scanMembers scan fuel) (scanMembers scan' fuel) := by
  induction fuel with
  | zero =>
      intro s r hr
      cases hr
  | succ fuel ih =>
      intro s r hr
      rw [scanMembers] at hr ⊢
      split
      · rwa [if_pos ‹_›] at hr
      rw [if_neg ‹_›] at hr
      obtain ⟨key, hkey, hr⟩ := bind_eq_ok.mp hr
      refine bind_eq_ok.mpr ⟨key, hkey, ?_⟩
      dsimp only at hr ⊢
      split
      · rwa [if_pos ‹_›] at hr
      rw [if_neg ‹_›] at hr
      obtain ⟨q, hq, hr⟩ := bind_eq_ok.mp hr
      refine bind_eq_ok.mpr ⟨q, hscan hq, ?_⟩
      split
      · rw [if_pos ‹_›] at hr
        obtain ⟨t, ht, rfl⟩ := map_eq_ok.mp hr
        exact map_eq_ok.mpr ⟨t, ih ht, rfl⟩
      · rwa [if_neg ‹_›] at hr

theorem scanArray_below : ScanBelow (scanArray scan) (scanArray scan') := by
  intro s r hr
  unfold scanArray at hr ⊢
  dsimp only at hr ⊢
  split
  · rwa [if_pos ‹_›] at hr
  · rw [if_neg ‹_›] at hr
    obtain ⟨q, hq, rfl⟩ := map_eq_ok.mp hr
    exact map_eq_ok.mpr ⟨q, scanItems_below hscan _ hq, rfl⟩

include hooks

theorem scanObject_below : ScanBelow (scanObject h scan) (scanObject h' scan') := by
  intro s r hr
  unfold scanObject at hr ⊢
  dsimp only at hr ⊢
  split
  · rw [if_pos ‹_›] at hr
    obtain ⟨v, hv, rfl⟩ := map_eq_ok.mp hr
    exact map_eq_ok.mpr ⟨v, hooks.pairs hv, rfl⟩
  · rw [if_neg ‹_›] at hr
    obtain ⟨q, hq, hr⟩ := bind_eq_ok.mp hr
    obtain ⟨v, hv, rfl⟩ := map_eq_ok.mp hr
    exact bind_eq_ok.mpr ⟨q, scanMembers_below hscan _ hq,
      map_eq_ok.mpr ⟨v, hooks.pairs hv, rfl⟩⟩

end Containers

include hooks

/-- By induction on the levels: a list or dictionary is read by a reader with one less. -/
theorem scanOnce_below {n m : ℕ} (hnm : n ≤ m) : ScanBelow (scanOnce h n) (scanOnce h' m) := by
  induction n generalizing m with
  | zero =>
      intro s r hr
      rw [scanOnce] at hr
      split at hr
      · cases hr
      next hopens =>
        rw [Bool.not_eq_true, Bool.or_eq_false_iff] at hopens
        obtain ⟨hlist, hdict⟩ := hopens
        cases m with
        | zero =>
            rw [scanOnce, hlist, hdict]
            exact scanScalar_below hooks hr
        | succ m =>
            rw [scanOnce, hlist, hdict]
            exact scanScalar_below hooks hr
  | succ n ih =>
      obtain ⟨m, rfl⟩ : ∃ k, m = k + 1 := ⟨m - 1, by omega⟩
      have hinner : ScanBelow (scanOnce h n) (scanOnce h' m) := ih (Nat.le_of_succ_le_succ hnm)
      intro s r hr
      rw [scanOnce] at hr ⊢
      split
      · rw [if_pos ‹_›] at hr
        exact scanArray_below hinner hr
      rw [if_neg ‹_›] at hr
      split
      · rw [if_pos ‹_›] at hr
        exact scanObject_below hooks hinner hr
      · rw [if_neg ‹_›] at hr
        exact scanScalar_below hooks hr

/-- What the strict reader reads is what a reader that accepts more reads. -/
theorem loadsWith_of_below {n m : ℕ} (hnm : n ≤ m) {s : PyStr} {v : Json}
    (hv : loadsWith h n s = .ok v) : loadsWith h' m s = .ok v := by
  unfold loadsWith at hv ⊢
  split
  · rw [if_pos ‹_›] at hv
    cases hv
  · rw [if_neg ‹_›] at hv
    obtain ⟨r, hr, hv⟩ := bind_eq_ok.mp hv
    exact bind_eq_ok.mpr ⟨r, scanOnce_below hooks hnm hr, hv⟩

end Below

end Signal402
