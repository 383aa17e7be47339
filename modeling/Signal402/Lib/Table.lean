import Mathlib.Data.List.Nodup
import Mathlib.Tactic.Common

/-!
# Tables with a primary key

Rows in a list, with a key read off each row.  `UPDATE`, `DELETE` and
`INSERT OR REPLACE` by key, and what a lookup finds after each of them.
-/

namespace Table

variable {R K : Type} [DecidableEq K] (key : R → K)

/-- The row of a key. -/
def lookup (t : List R) (k : K) : Option R := t.find? fun r => key r = k

/-- Change the row of a key. -/
def update (k : K) (f : R → R) (t : List R) : List R :=
  t.map fun r => if key r = k then f r else r

/-- Delete the row of a key. -/
def erase (k : K) (t : List R) : List R := t.filter fun r => key r ≠ k

/-- Insert a row, or replace the row of its key. -/
def put (r : R) (t : List R) : List R := erase key (key r) t ++ [r]

variable {key}

theorem lookup_key {t : List R} {k : K} {r : R} (h : lookup key t k = some r) : key r = k := by
  simpa using List.find?_some h

theorem lookup_update {f : R → R} (hf : ∀ r, key (f r) = key r) (t : List R) (k k' : K) :
    lookup key (update key k f t) k' =
      if k' = k then (lookup key t k).map f else lookup key t k' := by
  induction t with
  | nil => simp [lookup, update]
  | cons r rest ih =>
      simp only [lookup, update, List.map_cons, List.find?_cons] at ih ⊢
      rw [ih]
      by_cases hr : key r = k <;> by_cases hk : k' = k
      · simp [hr, hk, hf]
      · simp [hr, hk, hf, Ne.symm hk]
      · simp [hr, hk]
      · by_cases hr' : key r = k' <;> simp [hr, hr', hk]

theorem lookup_map {f : R → R} (hf : ∀ r, key (f r) = key r) (t : List R) (k : K) :
    lookup key (t.map f) k = (lookup key t k).map f := by
  induction t with
  | nil => rfl
  | cons r rest ih =>
      simp only [lookup, List.map_cons, List.find?_cons] at ih ⊢
      rw [ih, hf]
      by_cases hr : key r = k <;> simp [hr]

theorem lookup_erase (t : List R) (k k' : K) :
    lookup key (erase key k t) k' = if k' = k then none else lookup key t k' := by
  rw [lookup, erase, List.find?_filter]
  by_cases hk : k' = k
  · subst hk
    simp
  · rw [if_neg hk, lookup]
    congr 1
    funext r
    by_cases hr : key r = k'
    · simp [hr, hk]
    · simp [hr]

theorem lookup_append (t t' : List R) (k : K) :
    lookup key (t ++ t') k = (lookup key t k).or (lookup key t' k) := by
  rw [lookup, lookup, lookup, List.find?_append]

theorem lookup_put (r : R) (t : List R) (k : K) :
    lookup key (put key r t) k = if k = key r then some r else lookup key t k := by
  rw [put, lookup_append, lookup_erase]
  by_cases hk : k = key r
  · simp [hk, lookup]
  · simp [hk, lookup, Ne.symm hk]

theorem mem_of_lookup {t : List R} {k : K} {r : R} (h : lookup key t k = some r) : r ∈ t :=
  List.mem_of_find?_eq_some h

theorem lookup_eq_none {t : List R} {k : K} : lookup key t k = none ↔ ∀ r ∈ t, key r ≠ k := by
  simp [lookup, List.find?_eq_none]

/-! ## Primary keys -/

variable (key) in
/-- No two rows have one key. -/
def Unique (t : List R) : Prop := (t.map key).Nodup

theorem Unique.update {t : List R} (h : Unique key t) {k : K} {f : R → R}
    (hf : ∀ r, key (f r) = key r) : Unique key (update key k f t) := by
  rw [Unique, Table.update, List.map_map]
  have hkeys : key ∘ (fun r => if key r = k then f r else r) = key := by
    funext r
    change key (if key r = k then f r else r) = key r
    split
    · exact hf r
    · rfl
  rw [hkeys]
  exact h

omit [DecidableEq K] in
theorem Unique.filter {t : List R} (h : Unique key t) (p : R → Bool) :
    Unique key (t.filter p) := List.Nodup.sublist (List.filter_sublist.map key) h

theorem Unique.append {t : List R} (h : Unique key t) {r : R}
    (hr : lookup key t (key r) = none) : Unique key (t ++ [r]) := by
  rw [Unique, List.map_append, List.map_singleton]
  refine List.nodup_append.mpr ⟨h, List.nodup_singleton _, fun k hk k' hk' => ?_⟩
  obtain ⟨r', hmem, rfl⟩ := List.mem_map.mp hk
  rw [List.mem_singleton.mp hk']
  rw [lookup, List.find?_eq_none] at hr
  simpa using hr r' hmem

omit [DecidableEq K] in
theorem Unique.map {t : List R} (h : Unique key t) {f : R → R} (hf : ∀ r, key (f r) = key r) :
    Unique key (t.map f) := by
  have hkeys : key ∘ f = key := funext hf
  rw [Unique, List.map_map, hkeys]
  exact h

/-- With a primary key, a row is found by its key. -/
theorem Unique.lookup_of_mem {t : List R} (h : Unique key t) {r : R} (hr : r ∈ t) :
    lookup key t (key r) = some r := by
  induction t with
  | nil => exact absurd hr List.not_mem_nil
  | cons r' rest ih =>
      obtain ⟨hnew, hrest⟩ := List.nodup_cons.mp h
      rcases List.mem_cons.mp hr with rfl | hr
      · simp [lookup]
      · have hne : key r' ≠ key r := fun heq => hnew (heq ▸ List.mem_map_of_mem hr)
        have ih := ih hrest hr
        rw [lookup] at ih ⊢
        rw [List.find?_cons_of_neg (by simpa using hne), ih]

/-- With a primary key, a lookup in the rows that `p` keeps finds the row of the
key where `p` keeps it. -/
theorem lookup_filter {t : List R} (h : Unique key t) (p : R → Bool) (k : K) :
    lookup key (t.filter p) k = (lookup key t k).filter p := by
  induction t with
  | nil => rfl
  | cons r rest ih =>
      obtain ⟨hr, hrest⟩ := List.nodup_cons.mp h
      have ih := ih hrest
      by_cases hk : key r = k
      · have hnone : lookup key rest k = none := by
          rw [lookup, List.find?_eq_none]
          intro r' hmem hkey
          refine hr (List.mem_map.mpr ⟨r', hmem, ?_⟩)
          rw [hk]
          simpa using hkey
        rw [hnone] at ih
        cases hp : p r with
        | true => simp [lookup, hk, hp, Option.filter]
        | false =>
            rw [List.filter_cons_of_neg (by simp [hp]), ih]
            simp [lookup, hk, hp, Option.filter]
      · have hcons : lookup key (r :: rest) k = lookup key rest k := by
          simp [lookup, hk]
        rw [hcons, ← ih]
        cases hp : p r with
        | true => simp [lookup, hk, hp]
        | false => simp [hp]

end Table
