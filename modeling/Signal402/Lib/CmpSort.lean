import Mathlib.Data.List.Basic
import Mathlib.Data.List.Perm.Basic
import Mathlib.Data.List.Sort
import Mathlib.Order.Compare
import Mathlib.Tactic.Common

/-!
# Sorting by a comparison that may fail

A comparison returns an `Ordering` or an error.  `WeakOrder` says that a comparison is
a strict weak order on a list, and weak orders are built up from those of figures.

A `Sorter` is what a sorting routine that decides by comparisons promises: a
permutation, in the order of every weak order that the comparison refines.  A
comparison need not be a weak order itself: one that breaks ties by something else
still sorts by its first figure.  `insertion` is a sorter.
-/

namespace CmpSort

variable {α ε : Type}

/-- The comparison is a strict weak order on the elements: reversing it swaps the
answer, and not being greater is transitive. -/
structure WeakOrder (c : α → α → Ordering) (xs : List α) : Prop where
  swap : ∀ a ∈ xs, ∀ b ∈ xs, c b a = (c a b).swap
  trans : ∀ a ∈ xs, ∀ b ∈ xs, ∀ d ∈ xs, c a b ≠ .gt → c b d ≠ .gt → c a d ≠ .gt

namespace WeakOrder

variable {c : α → α → Ordering} {xs : List α} {a b d : α}

theorem irrefl (h : WeakOrder c xs) (ha : a ∈ xs) : c a a = .eq := by
  have hswap := h.swap a ha a ha
  cases hc : c a a with
  | eq => rfl
  | lt => rw [hc] at hswap; cases hswap
  | gt => rw [hc] at hswap; cases hswap

theorem lt_iff (h : WeakOrder c xs) (ha : a ∈ xs) (hb : b ∈ xs) :
    c a b = .lt ↔ c b a = .gt := by
  rw [h.swap a ha b hb]
  cases c a b <;> simp [Ordering.swap]

theorem lt_trans (h : WeakOrder c xs) (ha : a ∈ xs) (hb : b ∈ xs) (hd : d ∈ xs)
    (hab : c a b = .lt) (hbd : c b d = .lt) : c a d = .lt := by
  by_contra hne
  -- otherwise `d` is not after `a`, and so not after `b`
  have hda : c d a ≠ .gt := fun hgt => hne ((h.lt_iff ha hd).mpr hgt)
  have hdb := h.trans d hd a ha b hb hda (by rw [hab]; decide)
  exact hdb ((h.lt_iff hb hd).mp hbd)

/-- Elements of which neither is greater are alike. -/
theorem eq_of_ne_gt (h : WeakOrder c xs) (ha : a ∈ xs) (hb : b ∈ xs) (hab : c a b ≠ .gt)
    (hba : c b a ≠ .gt) : c a b = .eq := by
  cases hc : c a b with
  | eq => rfl
  | gt => exact absurd hc hab
  | lt => exact absurd ((h.lt_iff ha hb).mp hc) hba

theorem eq_trans (h : WeakOrder c xs) (ha : a ∈ xs) (hb : b ∈ xs) (hd : d ∈ xs)
    (hab : c a b = .eq) (hbd : c b d = .eq) : c a d = .eq := by
  have hback : ∀ x ∈ xs, ∀ y ∈ xs, c x y = .eq → c y x = .eq := by
    intro x hx y hy hxy
    rw [h.swap x hx y hy, hxy]
    rfl
  have hle : c a d ≠ .gt := h.trans a ha b hb d hd (by rw [hab]; decide) (by rw [hbd]; decide)
  have hge : c d a ≠ .gt :=
    h.trans d hd b hb a ha (by rw [hback b hb d hd hbd]; decide)
      (by rw [hback a ha b hb hab]; decide)
  exact h.eq_of_ne_gt ha hd hle hge

theorem subset {ys : List α} (h : WeakOrder c xs) (hsub : ∀ y ∈ ys, y ∈ xs) :
    WeakOrder c ys where
  swap a ha b hb := h.swap a (hsub a ha) b (hsub b hb)
  trans a ha b hb d hd := h.trans a (hsub a ha) b (hsub b hb) d (hsub d hd)

/-- A weak order of figures is one of what they are figures of. -/
theorem comap {β : Type} {c : β → β → Ordering} {xs : List α} (f : α → β)
    (h : WeakOrder c (xs.map f)) : WeakOrder (fun a b => c (f a) (f b)) xs where
  swap a ha b hb := h.swap _ (List.mem_map_of_mem ha) _ (List.mem_map_of_mem hb)
  trans a ha b hb d hd :=
    h.trans _ (List.mem_map_of_mem ha) _ (List.mem_map_of_mem hb) _ (List.mem_map_of_mem hd)

/-- The reverse order. -/
theorem flip (h : WeakOrder c xs) : WeakOrder (fun a b => c b a) xs where
  swap a ha b hb := h.swap b hb a ha
  trans a ha b hb d hd hab hbd := h.trans d hd b hb a ha hbd hab

theorem then_ne_gt {o p : Ordering} : o.then p ≠ .gt ↔ o = .lt ∨ o = .eq ∧ p ≠ .gt := by
  cases o <;> simp [Ordering.then]

/-- One weak order, and another among what the first does not tell apart. -/
theorem lex {c' : α → α → Ordering} (h : WeakOrder c xs) (h' : WeakOrder c' xs) :
    WeakOrder (fun a b => (c a b).then (c' a b)) xs where
  swap a ha b hb := by
    rw [h.swap a ha b hb, h'.swap a ha b hb]
    cases c a b <;> rfl
  trans a ha b hb d hd hab hbd := by
    rw [then_ne_gt] at hab hbd ⊢
    rcases hab with hab | ⟨hab, hab'⟩
    · rcases hbd with hbd | ⟨hbd, -⟩
      · exact .inl (h.lt_trans ha hb hd hab hbd)
      · left
        by_contra hne
        -- otherwise `d` is not after `a`, and `b` not after `d`
        have hda : c d a ≠ .gt := fun hgt => hne ((h.lt_iff ha hd).mpr hgt)
        have hba := h.trans b hb d hd a ha (by rw [hbd]; decide) hda
        exact hba ((h.lt_iff ha hb).mp hab)
    · rcases hbd with hbd | ⟨hbd, hbd'⟩
      · left
        by_contra hne
        have hda : c d a ≠ .gt := fun hgt => hne ((h.lt_iff ha hd).mpr hgt)
        have hdb := h.trans d hd a ha b hb hda (by rw [hab]; decide)
        exact hdb ((h.lt_iff hb hd).mp hbd)
      · exact .inr ⟨h.eq_trans ha hb hd hab hbd, h'.trans a ha b hb d hd hab' hbd'⟩

/-- A linear order is a weak one. -/
theorem ofLinear {β : Type} [LinearOrder β] (xs : List β) : WeakOrder compare xs where
  swap _ _ _ _ := Std.OrientedCmp.eq_swap
  trans a _ b _ d _ hab hbd := by
    rw [compare_le_iff_le] at *
    exact hab.trans hbd

/-- Nothing is told apart. -/
theorem trivial (xs : List α) : WeakOrder (fun _ _ => .eq) xs where
  swap _ _ _ _ := rfl
  trans _ _ _ _ _ _ _ _ := by decide

theorem congr {c' : α → α → Ordering} (h : WeakOrder c xs)
    (hc : ∀ a ∈ xs, ∀ b ∈ xs, c' a b = c a b) : WeakOrder c' xs where
  swap a ha b hb := by rw [hc b hb a ha, hc a ha b hb, h.swap a ha b hb]
  trans a ha b hb d hd := by
    rw [hc a ha b hb, hc b hb d hd, hc a ha d hd]
    exact h.trans a ha b hb d hd

end WeakOrder

/-- The comparison is consistent and tells apart what the weak order does. -/
structure Refines (c order : α → α → Ordering) (xs : List α) : Prop where
  swap : ∀ a ∈ xs, ∀ b ∈ xs, c b a = (c a b).swap
  lt : ∀ a ∈ xs, ∀ b ∈ xs, order a b = .lt → c a b = .lt

theorem WeakOrder.refines {c : α → α → Ordering} {xs : List α} (h : WeakOrder c xs) :
    Refines c c xs where
  swap := h.swap
  lt _ _ _ _ := id

theorem Refines.subset {c order : α → α → Ordering} {xs ys : List α} (h : Refines c order xs)
    (hsub : ∀ y ∈ ys, y ∈ xs) : Refines c order ys where
  swap a ha b hb := h.swap a (hsub a ha) b (hsub b hb)
  lt a ha b hb := h.lt a (hsub a ha) b (hsub b hb)

/-- What a sorting routine promises. -/
structure Sorter (α ε : Type) where
  sorted : (α → α → Except ε Ordering) → List α → Except ε (List α)
  perm : ∀ {cmp xs ys}, sorted cmp xs = .ok ys → ys.Perm xs
  returns : ∀ {cmp xs} (c : α → α → Ordering),
    (∀ a ∈ xs, ∀ b ∈ xs, cmp a b = .ok (c a b)) → ∃ ys, sorted cmp xs = .ok ys
  ordered : ∀ {cmp xs ys} (c order : α → α → Ordering),
    (∀ a ∈ xs, ∀ b ∈ xs, cmp a b = .ok (c a b)) → Refines c order xs → WeakOrder order xs →
      sorted cmp xs = .ok ys → ys.Pairwise fun a b => order a b ≠ .gt

/-! ## Insertion sort -/

/-- Insert after the elements that are not greater. -/
def insert (cmp : α → α → Except ε Ordering) (x : α) : List α → Except ε (List α)
  | [] => .ok [x]
  | y :: ys =>
      match cmp y x with
      | .error e => .error e
      | .ok .gt => .ok (x :: y :: ys)
      | .ok _ => (insert cmp x ys).map (y :: ·)

/-- Sort the elements after those sorted already. -/
def insertAll (cmp : α → α → Except ε Ordering) : List α → List α → Except ε (List α)
  | sorted, [] => .ok sorted
  | sorted, x :: xs =>
      match insert cmp x sorted with
      | .error e => .error e
      | .ok ys => insertAll cmp ys xs

theorem insert_perm {cmp : α → α → Except ε Ordering} {x : α} {xs ys : List α}
    (h : insert cmp x xs = .ok ys) : ys.Perm (x :: xs) := by
  induction xs generalizing ys with
  | nil => cases h; exact .refl _
  | cons y rest ih =>
      rw [insert] at h
      split at h
      · cases h
      · cases h
        exact .refl _
      · cases hr : insert cmp x rest with
        | error e => rw [hr] at h; cases h
        | ok zs =>
            rw [hr] at h
            cases h
            exact ((ih hr).cons y).trans (.swap x y rest)

theorem insertAll_perm {cmp : α → α → Except ε Ordering} {sorted xs ys : List α}
    (h : insertAll cmp sorted xs = .ok ys) : ys.Perm (sorted ++ xs) := by
  induction xs generalizing sorted with
  | nil =>
      cases h
      rw [List.append_nil]
  | cons x rest ih =>
      rw [insertAll] at h
      split at h
      · cases h
      · rename_i zs hzs
        exact (ih h).trans (((insert_perm hzs).append_right rest).trans
          List.perm_middle.symm)

theorem insert_returns {cmp : α → α → Except ε Ordering} (c : α → α → Ordering) {x : α}
    {xs : List α} (h : ∀ y ∈ xs, cmp y x = .ok (c y x)) : ∃ ys, insert cmp x xs = .ok ys := by
  induction xs with
  | nil => exact ⟨[x], rfl⟩
  | cons y rest ih =>
      obtain ⟨ys, hys⟩ := ih fun z hz => h z (List.mem_cons_of_mem y hz)
      rw [insert, h y List.mem_cons_self, hys]
      cases c y x with
      | gt => exact ⟨_, rfl⟩
      | lt => exact ⟨_, rfl⟩
      | eq => exact ⟨_, rfl⟩

theorem insertAll_returns {cmp : α → α → Except ε Ordering} (c : α → α → Ordering)
    {sorted xs : List α}
    (h : ∀ a ∈ sorted ++ xs, ∀ b ∈ sorted ++ xs, cmp a b = .ok (c a b)) :
    ∃ ys, insertAll cmp sorted xs = .ok ys := by
  induction xs generalizing sorted with
  | nil => exact ⟨sorted, rfl⟩
  | cons x rest ih =>
      have hx : ∀ y ∈ sorted, cmp y x = .ok (c y x) := fun y hy =>
        h y (List.mem_append_left _ hy) x (List.mem_append_right _ List.mem_cons_self)
      obtain ⟨zs, hzs⟩ := insert_returns c hx
      rw [insertAll, hzs]
      refine ih fun a ha b hb => ?_
      have hperm : (zs ++ rest).Perm (sorted ++ x :: rest) :=
        ((insert_perm hzs).append_right rest).trans List.perm_middle.symm
      exact h a (hperm.subset ha) b (hperm.subset hb)

theorem insert_ordered {cmp : α → α → Except ε Ordering} (c order : α → α → Ordering) {x : α}
    {xs ys : List α} (h : ∀ y ∈ xs, cmp y x = .ok (c y x)) (hc : Refines c order (x :: xs))
    (ho : WeakOrder order (x :: xs)) (hxs : xs.Pairwise fun a b => order a b ≠ .gt)
    (hins : insert cmp x xs = .ok ys) : ys.Pairwise fun a b => order a b ≠ .gt := by
  induction xs generalizing ys with
  | nil =>
      cases hins
      exact List.pairwise_singleton _ _
  | cons y rest ih =>
      have hy : y ∈ x :: y :: rest := List.mem_cons_of_mem x List.mem_cons_self
      have hx : x ∈ x :: y :: rest := List.mem_cons_self
      have hsub : ∀ z ∈ x :: rest, z ∈ x :: y :: rest := by
        intro z hz
        rcases List.mem_cons.mp hz with rfl | hz
        · exact List.mem_cons_self
        · exact List.mem_cons_of_mem x (List.mem_cons_of_mem y hz)
      rw [insert, h y List.mem_cons_self] at hins
      obtain ⟨hfirst, hrest⟩ := List.pairwise_cons.mp hxs
      by_cases hgt : c y x = .gt
      · rw [hgt] at hins
        cases hins
        have hxy : order x y ≠ .gt := by
          intro hgt'
          -- `y` before `x` in the order would be so in the comparison
          have hlt := hc.lt y hy x hx ((ho.lt_iff hy hx).mpr hgt')
          rw [hgt] at hlt
          cases hlt
        refine List.pairwise_cons.mpr ⟨fun z hz => ?_, hxs⟩
        rcases List.mem_cons.mp hz with rfl | hz
        · exact hxy
        · exact ho.trans x hx y hy z (List.mem_cons_of_mem x (List.mem_cons_of_mem y hz)) hxy
            (hfirst z hz)
      · have hins : (insert cmp x rest).map (y :: ·) = .ok ys := by
          cases hcy : c y x with
          | gt => exact absurd hcy hgt
          | lt => rw [hcy] at hins; exact hins
          | eq => rw [hcy] at hins; exact hins
        have hyx : order y x ≠ .gt := by
          intro hgt'
          have hlt := hc.lt x hx y hy ((ho.lt_iff hx hy).mpr hgt')
          exact hgt (by rw [hc.swap x hx y hy, hlt]; rfl)
        cases hr : insert cmp x rest with
        | error e => rw [hr] at hins; cases hins
        | ok zs =>
            rw [hr] at hins
            cases hins
            have hzs := ih (fun z hz => h z (List.mem_cons_of_mem y hz)) (hc.subset hsub)
              (ho.subset hsub) hrest hr
            refine List.pairwise_cons.mpr ⟨fun z hz => ?_, hzs⟩
            rcases List.mem_cons.mp ((insert_perm hr).subset hz) with rfl | hz
            · exact hyx
            · exact hfirst z hz

theorem insertAll_ordered {cmp : α → α → Except ε Ordering} (c order : α → α → Ordering)
    {sorted xs ys : List α}
    (h : ∀ a ∈ sorted ++ xs, ∀ b ∈ sorted ++ xs, cmp a b = .ok (c a b))
    (hc : Refines c order (sorted ++ xs)) (ho : WeakOrder order (sorted ++ xs))
    (hsorted : sorted.Pairwise fun a b => order a b ≠ .gt)
    (hall : insertAll cmp sorted xs = .ok ys) : ys.Pairwise fun a b => order a b ≠ .gt := by
  induction xs generalizing sorted with
  | nil =>
      cases hall
      exact hsorted
  | cons x rest ih =>
      rw [insertAll] at hall
      split at hall
      · cases hall
      · rename_i zs hzs
        have hx : x ∈ sorted ++ x :: rest := List.mem_append_right _ List.mem_cons_self
        have hperm : (zs ++ rest).Perm (sorted ++ x :: rest) :=
          ((insert_perm hzs).append_right rest).trans List.perm_middle.symm
        have hsub : ∀ y ∈ x :: sorted, y ∈ sorted ++ x :: rest := by
          intro y hy
          rcases List.mem_cons.mp hy with rfl | hy
          · exact hx
          · exact List.mem_append_left _ hy
        refine ih (fun a ha b hb => h a (hperm.subset ha) b (hperm.subset hb))
          (hc.subset fun y hy => hperm.subset hy) (ho.subset fun y hy => hperm.subset hy) ?_ hall
        exact insert_ordered c order (fun y hy => h y (List.mem_append_left _ hy) x hx)
          (hc.subset hsub) (ho.subset hsub) hsorted hzs

/-- Insertion sort is a sorter. -/
def insertion (α ε : Type) : Sorter α ε where
  sorted cmp xs := insertAll cmp [] xs
  perm h := insertAll_perm h
  returns c h := insertAll_returns c h
  ordered {cmp xs _} c order h hc ho hs :=
    insertAll_ordered c order
      (show ∀ a ∈ [] ++ xs, ∀ b ∈ [] ++ xs, cmp a b = .ok (c a b) from h) hc ho
      List.Pairwise.nil hs

/-- The first of sorted elements has the least key. -/
theorem key_head_le {β : Type} [LinearOrder β] (key : α → β) {r : α → α → Prop} [DecidableRel r]
    {xs : List α} {m : α} (hr : ∀ a ∈ xs, ∀ b ∈ xs, r a b ↔ key a ≤ key b)
    (h : (xs.insertionSort r).head? = some m) : ∀ x ∈ xs, key m ≤ key x := by
  induction xs generalizing m with
  | nil => cases h
  | cons x rest ih =>
      rw [List.insertionSort_cons] at h
      have hx : x ∈ x :: rest := List.mem_cons_self
      have hsub : ∀ y ∈ rest, y ∈ x :: rest := fun y hy => List.mem_cons_of_mem x hy
      have hperm := List.perm_insertionSort r rest
      cases hs : rest.insertionSort r with
      | nil =>
          rw [hs] at h hperm
          cases h
          intro y hy
          rcases List.mem_cons.mp hy with rfl | hy
          · exact le_rfl
          · exact absurd (hperm.symm.subset hy) List.not_mem_nil
      | cons b t =>
          rw [hs] at h hperm
          have hb : b ∈ rest := hperm.subset List.mem_cons_self
          have hle := ih (fun a ha c hc => hr a (hsub a ha) c (hsub c hc))
            (by rw [hs]; rfl : (rest.insertionSort r).head? = some b)
          unfold List.orderedInsert at h
          split at h
          · rename_i hxb
            cases h
            have hxb := (hr x hx b (hsub b hb)).mp hxb
            intro y hy
            rcases List.mem_cons.mp hy with rfl | hy
            · exact le_rfl
            · exact hxb.trans (hle y hy)
          · rename_i hxb
            cases h
            have hxb := (not_le.mp ((hr x hx m (hsub m hb)).not.mp hxb)).le
            intro y hy
            rcases List.mem_cons.mp hy with rfl | hy
            · exact hxb
            · exact hle y hy

/-! ## Sorting by a key that need not tell elements apart -/

section Keyed

variable {α κ : Type} [LinearOrder κ] (key : α → κ)

/-- Elements in the order of their keys; those of one key stay in the order they came in. -/
def keySort (xs : List α) : List α := xs.insertionSort fun a b => key a ≤ key b

theorem keySort_perm (xs : List α) : (keySort key xs).Perm xs := List.perm_insertionSort _ _

theorem keySort_pairwise (xs : List α) :
    (keySort key xs).Pairwise fun a b => key a ≤ key b := by
  have : Std.Total fun a b : α => key a ≤ key b := ⟨fun a b => le_total (key a) (key b)⟩
  have : IsTrans α fun a b => key a ≤ key b := ⟨fun _ _ _ hab hbc => hab.trans hbc⟩
  exact List.pairwise_insertionSort _ _

/-- The elements of one key, in the order they came in. -/
theorem keySort_filter (xs : List α) (k : κ) :
    (keySort key xs).filter (fun a => key a = k) = xs.filter fun a => key a = k := by
  have : Std.Total fun a b : α => key a ≤ key b := ⟨fun a b => le_total (key a) (key b)⟩
  have : IsTrans α fun a b => key a ≤ key b := ⟨fun _ _ _ hab hbc => hab.trans hbc⟩
  have hties : (xs.filter fun a => key a = k).Pairwise fun a b => key a ≤ key b := by
    apply List.pairwise_of_forall_mem_list
    intro a ha b hb
    rw [of_decide_eq_true (List.mem_filter.mp ha).2, of_decide_eq_true (List.mem_filter.mp hb).2]
  have hsub : (xs.filter fun a => key a = k).Sublist (keySort key xs) :=
    List.sublist_insertionSort hties List.filter_sublist
  have hfilter := hsub.filter fun a => key a = k
  rw [List.filter_filter] at hfilter
  simp only [Bool.and_self] at hfilter
  exact (hfilter.eq_of_length ((keySort_perm key xs).filter _).length_eq.symm).symm

/-- Where no two elements share a key, the order they came in does not count. -/
theorem keySort_eq_of_perm {xs ys : List α} (h : xs.Perm ys)
    (hties : ∀ a ∈ xs, ∀ b ∈ xs, key a = key b → a = b) : keySort key xs = keySort key ys := by
  have hperm : (keySort key xs).Perm (keySort key ys) :=
    ((keySort_perm key xs).trans h).trans (keySort_perm key ys).symm
  refine hperm.eq_of_pairwise ?_ (keySort_pairwise key xs) (keySort_pairwise key ys)
  intro a b ha hb hab hba
  have ha : a ∈ xs := (keySort_perm key xs).mem_iff.mp ha
  have hb : b ∈ xs := h.mem_iff.mpr ((keySort_perm key ys).mem_iff.mp hb)
  exact hties a ha b hb (le_antisymm hab hba)

/-- Of elements that share a key, the one that came first stays first. -/
theorem eq_of_keySort_cons_eq {xs ys : List α} {a b : α} (hkey : key a = key b)
    (h : keySort key (a :: xs) = keySort key (b :: ys)) : a = b := by
  have hfilter := keySort_filter key (a :: xs) (key a)
  rw [h, hkey, keySort_filter, List.filter_cons_of_pos (by simp),
    List.filter_cons_of_pos (by simp [hkey])] at hfilter
  exact (List.cons.inj hfilter).1.symm

end Keyed

end CmpSort
