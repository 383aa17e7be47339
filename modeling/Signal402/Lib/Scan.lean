import Mathlib.Data.List.Dedup
import Mathlib.Data.List.Perm.Subperm
import Mathlib.Data.List.Flatten
import Mathlib.Tactic.Common

/-!
# Bounded scans

Several lists are read one behind the other, and each key is kept once, where it comes first.
A bounded scan reads only so many entries at the front of each list.

* `fresh` — the entries that are kept;
* `take_fresh_of_nodup` — as long as no list has a key twice, the first entries that are kept
  are the same for bounded scans, if there are no more of them than a scan may read;
* `take_fresh_of_enough`, `not_enough` — a list with repeated keys.
-/

namespace Scan

variable {A K : Type} [DecidableEq K] (key : A → K)

/-- The entries whose key has not been seen, each key at its first entry. -/
def fresh : List K → List A → List A
  | _, [] => []
  | seen, a :: rest =>
      if key a ∈ seen then fresh seen rest else a :: fresh (key a :: seen) rest

/-- The keys that have been seen behind a list. -/
def seenAfter (seen : List K) (xs : List A) : List K := (fresh key seen xs).map key ++ seen

variable {key}

/-- Only which keys have been seen matters. -/
theorem fresh_congr {seen seen' : List K} (h : ∀ k, k ∈ seen ↔ k ∈ seen') (xs : List A) :
    fresh key seen xs = fresh key seen' xs := by
  induction xs generalizing seen seen' with
  | nil => rfl
  | cons a rest ih =>
      rw [fresh, fresh]
      by_cases ha : key a ∈ seen
      · rw [if_pos ha, if_pos ((h _).mp ha)]
        exact ih h
      · rw [if_neg ha, if_neg fun ha' => ha ((h _).mpr ha')]
        congr 1
        apply ih
        intro k
        rw [List.mem_cons, List.mem_cons, h]

theorem mem_seenAfter {seen : List K} {xs : List A} {k : K} :
    k ∈ seenAfter key seen xs ↔ k ∈ seen ∨ k ∈ xs.map key := by
  unfold seenAfter
  induction xs generalizing seen with
  | nil => simp [fresh]
  | cons a rest ih =>
      rw [fresh, List.map_cons, List.mem_cons]
      split
      · rw [ih]
        grind
      · have hrest : k ∈ (fresh key (key a :: seen) rest).map key ++ key a :: seen ↔
            k ∈ key a :: seen ∨ k ∈ rest.map key := ih
        simp only [List.mem_append, List.map_cons, List.mem_cons] at hrest ⊢
        grind

theorem fresh_append (seen : List K) (xs ys : List A) :
    fresh key seen (xs ++ ys) = fresh key seen xs ++ fresh key (seenAfter key seen xs) ys := by
  induction xs generalizing seen with
  | nil => rfl
  | cons a rest ih =>
      rw [List.cons_append, fresh, fresh]
      by_cases ha : key a ∈ seen
      · rw [if_pos ha, if_pos ha, ih]
        congr 1
        apply fresh_congr
        intro k
        rw [mem_seenAfter, mem_seenAfter, List.map_cons, List.mem_cons]
        grind
      · rw [if_neg ha, if_neg ha, ih, List.cons_append]
        congr 2
        apply fresh_congr
        intro k
        rw [mem_seenAfter, mem_seenAfter, List.map_cons, List.mem_cons, List.mem_cons]
        grind

theorem fresh_eq_nil {seen : List K} {xs : List A} :
    fresh key seen xs = [] ↔ ∀ a ∈ xs, key a ∈ seen := by
  induction xs with
  | nil => simp [fresh]
  | cons a rest ih =>
      rw [fresh, List.forall_mem_cons]
      by_cases ha : key a ∈ seen
      · rw [if_pos ha, ih]
        exact (and_iff_right ha).symm
      · rw [if_neg ha]
        simp [ha]

theorem fresh_sublist (seen : List K) (xs : List A) : (fresh key seen xs).Sublist xs := by
  induction xs generalizing seen with
  | nil => exact .slnil
  | cons a rest ih =>
      rw [fresh]
      split
      · exact (ih _).cons a
      · exact (ih _).cons_cons a

/-- Of distinct keys, no more are left out than have been seen. -/
theorem length_le_fresh (seen : List K) {xs : List A} (h : (xs.map key).Nodup) :
    xs.length ≤ (fresh key seen xs).length + seen.length := by
  have hsub : xs.map key ⊆ seenAfter key seen xs := fun k hk => mem_seenAfter.mpr (.inr hk)
  have hlen := (List.subperm_of_subset h hsub).length_le
  rw [seenAfter, List.length_append, List.length_map, List.length_map] at hlen
  exact hlen

/-- Entries without repeated keys are all new. -/
theorem fresh_of_nodup {xs : List A} (h : (xs.map key).Nodup) : fresh key [] xs = xs := by
  apply (fresh_sublist [] xs).eq_of_length_le
  have hlen := length_le_fresh [] h
  rwa [List.length_nil, Nat.add_zero] at hlen

/-! ## Bounded scans -/

section Bounded

variable (size : ℕ)

/-- The scan of a list finds enough: as many new entries as are wanted, or all of its keys. -/
def Enough (key : A → K) (n : ℕ) (seen : List K) (block : List A) : Prop :=
  n ≤ (fresh key seen (block.take size)).length ∨
    ∀ a ∈ block.drop size, key a ∈ seenAfter key seen (block.take size)

variable {size}

/-- A list without repeated keys is scanned far enough. -/
theorem enough_of_nodup {n : ℕ} {seen : List K} {block : List A} (h : (block.map key).Nodup)
    (hsize : n = 0 ∨ seen.length + n ≤ size) : Enough size key n seen block := by
  by_cases hlen : block.length ≤ size
  · right
    rw [List.drop_of_length_le hlen]
    exact fun a ha => absurd ha List.not_mem_nil
  · left
    have hnodup : ((block.take size).map key).Nodup := by
      rw [List.map_take]
      exact h.sublist (List.take_sublist _ _)
    have hfresh := length_le_fresh seen hnodup
    rw [List.length_take, Nat.min_eq_left (by omega)] at hfresh
    omega

/-- What is kept of a bounded scan comes first among what is kept of the list. -/
theorem fresh_eq_append (size : ℕ) (seen : List K) (block : List A) :
    fresh key seen block = fresh key seen (block.take size) ++
      fresh key (seenAfter key seen (block.take size)) (block.drop size) := by
  rw [← fresh_append, List.take_append_drop]

/-- A scan that finds enough is as good as the whole list, for what is kept of it and of the
lists behind it. -/
theorem take_fresh_of_enough {n : ℕ} {seen : List K} {block xs ys : List A}
    (h : Enough size key n seen block)
    (hrest : (fresh key (seenAfter key seen block) xs).take (n - (fresh key seen block).length) =
      (fresh key (seenAfter key seen block) ys).take (n - (fresh key seen block).length)) :
    (fresh key seen (block.take size ++ xs)).take n = (fresh key seen (block ++ ys)).take n := by
  rw [fresh_append, fresh_append]
  rcases h with hlen | hall
  · -- the scan alone fills the result
    rw [fresh_eq_append size seen block, List.append_assoc,
      List.take_append_of_le_length hlen, List.take_append_of_le_length hlen]
  · have hblock : fresh key seen block = fresh key seen (block.take size) := by
      rw [fresh_eq_append size, fresh_eq_nil.mpr hall, List.append_nil]
    have hseen : seenAfter key seen block = seenAfter key seen (block.take size) := by
      rw [seenAfter, hblock, seenAfter]
    rw [hseen, hblock] at hrest
    rw [hseen, hblock, List.take_append, List.take_append, hrest]

/-- Lists without repeated keys. -/
theorem take_fresh_of_nodup {blocks : List (List A)} (h : ∀ b ∈ blocks, (b.map key).Nodup)
    {n : ℕ} {seen : List K} (hsize : n = 0 ∨ seen.length + n ≤ size) {xs ys : List A}
    (hrest : (fresh key (seenAfter key seen blocks.flatten) xs).take
        (n - (fresh key seen blocks.flatten).length) =
      (fresh key (seenAfter key seen blocks.flatten) ys).take
        (n - (fresh key seen blocks.flatten).length)) :
    (fresh key seen (blocks.flatMap (·.take size) ++ xs)).take n =
      (fresh key seen (blocks.flatten ++ ys)).take n := by
  induction blocks generalizing n seen with
  | nil => simpa [fresh, seenAfter] using hrest
  | cons b rest ih =>
      rw [List.flatMap_cons, List.flatten_cons, List.append_assoc, List.append_assoc]
      refine take_fresh_of_enough (enough_of_nodup (h b List.mem_cons_self) hsize) ?_
      apply ih fun b' hb' => h b' (List.mem_cons_of_mem b hb')
      · rw [seenAfter, List.length_append, List.length_map]
        omega
      · rw [List.flatten_cons, fresh_append, List.length_append] at hrest
        rw [Nat.sub_sub]
        have hseen : ∀ zs, fresh key (seenAfter key (seenAfter key seen b) rest.flatten) zs =
            fresh key (seenAfter key seen (b ++ rest.flatten)) zs := by
          intro zs
          apply fresh_congr
          intro k
          rw [mem_seenAfter, mem_seenAfter, mem_seenAfter, List.map_append, List.mem_append, or_assoc]
        rw [hseen, hseen]
        exact hrest

theorem take_fresh_flatMap {blocks : List (List A)} (h : ∀ b ∈ blocks, (b.map key).Nodup)
    {n : ℕ} {seen : List K} (hsize : n = 0 ∨ seen.length + n ≤ size) :
    (fresh key seen (blocks.flatMap (·.take size))).take n =
      (fresh key seen blocks.flatten).take n := by
  have hall : (fresh key seen (blocks.flatMap (·.take size) ++ [])).take n =
      (fresh key seen (blocks.flatten ++ [])).take n := take_fresh_of_nodup h hsize rfl
  rwa [List.append_nil, List.append_nil] at hall

/-- Lists of which little is kept are scanned whole. -/
theorem flatMap_take_eq (size : ℕ) {blocks : List (List A)}
    (h : ∀ b ∈ blocks, (b.map key).Nodup) (seen : List K)
    (hlen : (fresh key seen blocks.flatten).length + seen.length ≤ size) :
    blocks.flatMap (·.take size) = blocks.flatten := by
  rw [← List.flatMap_id]
  refine List.flatMap_congr fun b hb => List.take_of_length_le ?_
  have hsub : b.map key ⊆ seenAfter key seen blocks.flatten := fun k hk => by
    obtain ⟨a, ha, rfl⟩ := List.mem_map.mp hk
    exact mem_seenAfter.mpr (.inr (List.mem_map.mpr ⟨a, List.mem_flatten.mpr ⟨b, hb, ha⟩, rfl⟩))
  have hle := (List.subperm_of_subset (h b hb) hsub).length_le
  rw [seenAfter, List.length_append, List.length_map, List.length_map] at hle
  omega

/-- Where the scan of a list does not find enough, something of the list that is wanted is
missing, as no other list has its entries. -/
theorem not_enough {n : ℕ} {seen : List K} {block xs ys : List A} (h : ¬ Enough size key n seen block)
    (p : A → Bool) (hblock : ∀ a ∈ block, p a = true) (hxs : ∀ a ∈ xs, p a = false) :
    (fresh key seen (block.take size ++ xs)).take n ≠ (fresh key seen (block ++ ys)).take n := by
  intro heq
  have hlen : (fresh key seen (block.take size)).length < n :=
    Nat.lt_of_not_le fun hle => h (.inl hle)
  obtain ⟨a, ha, hnew⟩ : ∃ a ∈ block.drop size, key a ∉ seenAfter key seen (block.take size) := by
    by_contra hnone
    exact h (.inr fun a ha => by_contra fun hnew => hnone ⟨a, ha, hnew⟩)
  have hrest : fresh key (seenAfter key seen (block.take size)) (block.drop size) ≠ [] :=
    fun hnil => hnew (fresh_eq_nil.mp hnil a ha)
  have hcount := congrArg (List.countP p) heq
  have hall : ∀ {zs : List A}, zs.Sublist block → zs.countP p = zs.length := fun hzs =>
    List.countP_eq_length.mpr fun a ha => hblock a (hzs.subset ha)
  -- on the left there are only the entries that were scanned
  have hleft : ((fresh key seen (block.take size ++ xs)).take n).countP p ≤
      (fresh key seen (block.take size)).length := by
    rw [fresh_append]
    refine Nat.le_trans (List.take_sublist _ _).countP_le ?_
    rw [List.countP_append, hall ((fresh_sublist _ _).trans (List.take_sublist _ _)),
      List.countP_eq_zero.mpr fun a ha => by simp [hxs a ((fresh_sublist _ _).subset ha)]]
    exact Nat.le_refl _
  -- on the right there is one more
  have hright : (fresh key seen (block.take size)).length <
      ((fresh key seen (block ++ ys)).take n).countP p := by
    obtain ⟨b, bs, hbs⟩ := List.exists_cons_of_ne_nil hrest
    obtain ⟨m, hm⟩ : ∃ m, n - (fresh key seen (block.take size)).length = m + 1 :=
      ⟨n - (fresh key seen (block.take size)).length - 1, by omega⟩
    have hb : p b = true := by
      apply hblock
      have hmem : b ∈ fresh key (seenAfter key seen (block.take size)) (block.drop size) := by
        rw [hbs]
        exact List.mem_cons_self
      exact (List.drop_sublist _ _).subset ((fresh_sublist _ _).subset hmem)
    rw [fresh_append, fresh_eq_append size seen block, hbs, List.append_assoc,
      List.take_append, hm, List.cons_append, List.take_succ_cons, List.countP_append,
      List.countP_cons_of_pos hb, List.take_of_length_le (Nat.le_of_lt hlen),
      hall ((fresh_sublist _ _).trans (List.take_sublist _ _))]
    omega
  omega

/-- A filter of the first entries finds the first entries of the filter, if it finds enough of
them or nothing is behind them; otherwise it does not. -/
theorem take_filter_take_iff {n : ℕ} {p : A → Bool} {xs : List A} :
    ((xs.take size).filter p).take n = (xs.filter p).take n ↔
      n ≤ ((xs.take size).filter p).length ∨ ∀ a ∈ xs.drop size, p a = false := by
  have hsplit : xs.filter p = (xs.take size).filter p ++ (xs.drop size).filter p := by
    rw [← List.filter_append, List.take_append_drop]
  have hbehind : (xs.drop size).filter p = [] ↔ ∀ a ∈ xs.drop size, p a = false := by
    simp [List.filter_eq_nil_iff]
  rw [hsplit, ← hbehind]
  constructor
  · intro heq
    have hlen := congrArg List.length heq
    rw [List.length_take, List.length_take, List.length_append] at hlen
    rcases Nat.lt_or_ge ((xs.take size).filter p).length n with hlt | hle
    · right
      apply List.eq_nil_of_length_eq_zero
      omega
    · exact .inl hle
  · rintro (hle | hnil)
    · rw [List.take_append_of_le_length hle]
    · rw [hnil, List.append_nil]

end Bounded

end Scan
