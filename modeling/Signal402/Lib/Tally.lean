import Mathlib.Algebra.Order.Group.Int
import Mathlib.Data.List.Basic
import Mathlib.Tactic.Common

/-!
# Sums over the rows that a condition selects

`Tally.total w p xs` adds up the weights of the members of a list that `p` selects, as
`SELECT SUM(w) … WHERE p` does.  A count is a total of ones.
-/

namespace Tally

variable {A : Type}

/-- The sum of the weights of the members that `p` selects. -/
def total (w : A → ℤ) (p : A → Bool) (xs : List A) : ℤ :=
  (xs.filter p).foldr (fun x sum => w x + sum) 0

variable {w : A → ℤ} {p q : A → Bool}

@[simp] theorem total_nil : total w p [] = 0 := rfl

theorem total_cons (x : A) (xs : List A) :
    total w p (x :: xs) = (if p x then w x else 0) + total w p xs := by
  rw [total, List.filter_cons]
  split
  · rfl
  · rw [total, Int.zero_add]

theorem total_append (xs ys : List A) :
    total w p (xs ++ ys) = total w p xs + total w p ys := by
  induction xs with
  | nil => exact (Int.zero_add _).symm
  | cons x rest ih => rw [List.cons_append, total_cons, total_cons, ih, Int.add_assoc]

theorem total_singleton (x : A) : total w p [x] = if p x then w x else 0 := by
  rw [total_cons, total_nil, Int.add_zero]

/-- A count is a total of ones. -/
theorem total_one (xs : List A) : total (fun _ => 1) p xs = xs.countP p := by
  induction xs with
  | nil => rfl
  | cons x rest ih =>
      rw [total_cons, ih, List.countP_cons]
      split
      · omega
      · omega

theorem total_nonneg {xs : List A} (hw : ∀ x ∈ xs, 0 ≤ w x) : 0 ≤ total w p xs := by
  induction xs with
  | nil => exact Int.le_refl 0
  | cons x rest ih =>
      have hrest := ih fun y hy => hw y (List.mem_cons_of_mem _ hy)
      have hx := hw x List.mem_cons_self
      rw [total_cons]
      split
      · omega
      · omega

/-- A condition that selects more, of weights that are not negative. -/
theorem total_mono {xs : List A} (hw : ∀ x ∈ xs, 0 ≤ w x) (hpq : ∀ x ∈ xs, p x → q x) :
    total w p xs ≤ total w q xs := by
  induction xs with
  | nil => exact Int.le_refl 0
  | cons x rest ih =>
      have hrest := ih (fun y hy => hw y (List.mem_cons_of_mem _ hy))
        fun y hy => hpq y (List.mem_cons_of_mem _ hy)
      have hx := hw x List.mem_cons_self
      have hhead : (if p x then w x else 0) ≤ if q x then w x else 0 := by
        by_cases hp : p x
        · rw [if_pos hp, if_pos (hpq x List.mem_cons_self hp)]
        · rw [if_neg hp]
          split
          · exact hx
          · exact Int.le_refl 0
      rw [total_cons, total_cons]
      exact Int.add_le_add hhead hrest

/-- Members that are not selected may be deleted. -/
theorem total_filter {xs : List A} (hpq : ∀ x ∈ xs, p x → q x) :
    total w p (xs.filter q) = total w p xs := by
  rw [total, total, List.filter_filter]
  congr 1
  refine List.filter_congr fun x hx => ?_
  cases hp : p x with
  | false => rfl
  | true => rw [hpq x hx hp, Bool.true_and]

/-- A change of the members that keeps their weights and whether they are selected. -/
theorem total_map {f : A → A} (hw : ∀ x, w (f x) = w x) (hp : ∀ x, p (f x) = p x)
    (xs : List A) : total w p (xs.map f) = total w p xs := by
  induction xs with
  | nil => rfl
  | cons x rest ih => rw [List.map_cons, total_cons, total_cons, hw, hp, ih]

end Tally
