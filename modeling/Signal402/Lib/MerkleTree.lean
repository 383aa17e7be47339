import Mathlib.Data.List.Basic
import Mathlib.Data.Nat.Log
import Mathlib.Tactic.Common
import Mathlib.Tactic.Linarith
import Mathlib.Tactic.Ring

/-!
# Merkle trees split at a power of two

The tree over a list of leaves that splits `n ≥ 2` of them at the largest power
of two below `n`, over an arbitrary type of hashes and an arbitrary binary
`node`.  No hash function occurs here: binding results ask that `node` be
injective on the finitely many pairs an argument compares (`Binds`), which a
caller discharges from collision freeness of its own hash on its own strings.

* `root` / `nodes` — the root of a list of leaves, and the pairs hashed on the
  way to it.
* `path` / `foldTop` — inclusion proofs, as produced and as folded back.
* `subproof` / `walk` — consistency proofs: the recursive prover, and the
  verifier that climbs the levels of both trees at once on the bits of the two
  last leaf indices.
* `block` — the leaves below one position of one level.  A level position of a
  ragged tree has a sibling exactly when that sibling's first leaf exists
  (`blockRoot_succ`), and this one recurrence is what relates the bit walk to
  the recursive split.
* `TreeRange` / `rangeHash` — the ranges that are subtrees at some size, and
  their hashes.
-/

namespace MerkleTree

universe u

variable {α : Type u}

/-! ## The split point -/

/-- The largest power of two strictly below `n`, for `n ≥ 2`. -/
def splitPoint (n : ℕ) : ℕ := 2 ^ Nat.log2 (n - 1)

theorem splitPoint_pos (n : ℕ) : 0 < splitPoint n := Nat.two_pow_pos _

theorem splitPoint_lt {n : ℕ} (h : 2 ≤ n) : splitPoint n < n := by
  have := Nat.log2_self_le (n := n - 1) (by omega)
  unfold splitPoint
  omega

theorem le_two_mul_splitPoint (n : ℕ) : n ≤ 2 * splitPoint n := by
  have := Nat.lt_log2_self (n := n - 1)
  unfold splitPoint
  rw [pow_succ] at this
  omega

/-- A size in `(2 ^ j, 2 ^ (j + 1)]` is split at `2 ^ j`. -/
theorem splitPoint_eq {n j : ℕ} (lo : 2 ^ j < n) (hi : n ≤ 2 ^ (j + 1)) :
    splitPoint n = 2 ^ j := by
  have hne : n - 1 ≠ 0 := by have := Nat.two_pow_pos j; omega
  have hlog : Nat.log2 (n - 1) = j :=
    (Nat.log2_eq_iff hne).mpr ⟨by omega, by have := Nat.two_pow_pos j; omega⟩
  rw [splitPoint, hlog]

/-- **Split induction**: a property of lists that holds of the empty list and
of singletons, and of a longer list as soon as it holds of its two halves. -/
theorem split_induction {P : List α → Prop} (nil : P []) (single : ∀ a, P [a])
    (split : ∀ L : List α, 2 ≤ L.length → P (L.take (splitPoint L.length)) →
      P (L.drop (splitPoint L.length)) → P L) (L : List α) : P L := by
  induction hn : L.length using Nat.strongRecOn generalizing L with
  | ind n ih =>
      subst hn
      by_cases h2 : 2 ≤ L.length
      · have hlt := splitPoint_lt h2
        have hpos := splitPoint_pos L.length
        exact split L h2 (ih _ (by simp; omega) _ rfl) (ih _ (by simp; omega) _ rfl)
      · match L, h2 with
        | [], _ => exact nil
        | [a], _ => exact single a
        | _ :: _ :: _, h2 => simp at h2

section Tree

variable (node : α → α → α) (empty : α)

/-! ## Roots -/

/-- The tree hash of a list of leaves. -/
def root (L : List α) : α :=
  if _h : 2 ≤ L.length then
    node (root (L.take (splitPoint L.length))) (root (L.drop (splitPoint L.length)))
  else L.headD empty
termination_by L.length
decreasing_by
  · simpa using splitPoint_lt ‹_›
  · have := splitPoint_pos L.length
    simp; omega

@[simp] theorem root_nil : root node empty [] = empty := by
  rw [root]; simp

@[simp] theorem root_singleton (a : α) : root node empty [a] = a := by
  rw [root]; simp

theorem root_split {L : List α} (h : 2 ≤ L.length) :
    root node empty L =
      node (root node empty (L.take (splitPoint L.length)))
        (root node empty (L.drop (splitPoint L.length))) := by
  rw [root, dif_pos h]

/-- The pairs handed to `node` while the root of a list is computed. -/
def nodes (L : List α) : List (α × α) :=
  if _h : 2 ≤ L.length then
    (root node empty (L.take (splitPoint L.length)),
        root node empty (L.drop (splitPoint L.length))) ::
      (nodes (L.take (splitPoint L.length)) ++ nodes (L.drop (splitPoint L.length)))
  else []
termination_by L.length
decreasing_by
  · simpa using splitPoint_lt ‹_›
  · have := splitPoint_pos L.length
    simp; omega

theorem nodes_of_short {L : List α} (h : ¬ 2 ≤ L.length) : nodes node empty L = [] := by
  rw [nodes, dif_neg h]

theorem nodes_split {L : List α} (h : 2 ≤ L.length) :
    nodes node empty L =
      (root node empty (L.take (splitPoint L.length)),
          root node empty (L.drop (splitPoint L.length))) ::
        (nodes node empty (L.take (splitPoint L.length)) ++
          nodes node empty (L.drop (splitPoint L.length))) := by
  rw [nodes, dif_pos h]

/-- No pair of `V` collides with a pair of `T` other than itself. -/
def Binds (V T : List (α × α)) : Prop :=
  ∀ p ∈ V, ∀ q ∈ T, node p.1 p.2 = node q.1 q.2 → p = q

variable {node}

theorem Binds.mono {V V' T T' : List (α × α)} (h : Binds node V T) (hV : V' ⊆ V)
    (hT : T' ⊆ T) : Binds node V' T' :=
  fun p hp q hq => h p (hV hp) q (hT hq)

theorem Binds.pair {V T : List (α × α)} (h : Binds node V T) {a b c d : α}
    (hp : (a, b) ∈ V) (hq : (c, d) ∈ T) (heq : node a b = node c d) : a = c ∧ b = d :=
  Prod.ext_iff.mp (h _ hp _ hq heq)

/-- Two lists of one length with one root are equal. -/
theorem root_injective {L L' : List α} (hlen : L.length = L'.length)
    (hb : Binds node (nodes node empty L) (nodes node empty L'))
    (h : root node empty L = root node empty L') : L = L' := by
  induction L using split_induction generalizing L' with
  | nil => exact (List.length_eq_zero_iff.mp hlen.symm).symm
  | single a =>
      obtain ⟨b, rfl⟩ := List.length_eq_one_iff.mp hlen.symm
      simpa using h
  | split L h2 ihl ihr =>
      have h2' : 2 ≤ L'.length := hlen ▸ h2
      rw [root_split node empty h2, root_split node empty h2'] at h
      rw [nodes_split node empty h2, nodes_split node empty h2'] at hb
      obtain ⟨hl, hr⟩ := hb.pair List.mem_cons_self List.mem_cons_self h
      have htake := @ihl (L'.take (splitPoint L'.length)) (by simp [hlen])
        (hb.mono (fun p hp => by simp [hp]) (fun p hp => by simp [hp])) hl
      have hdrop := @ihr (L'.drop (splitPoint L'.length)) (by simp [hlen])
        (hb.mono (fun p hp => by simp [hp]) (fun p hp => by simp [hp])) hr
      rw [← List.take_append_drop (splitPoint L.length) L,
        ← List.take_append_drop (splitPoint L'.length) L', htake, hdrop]

/-! ## Inclusion proofs -/

variable (node)

/-- The sibling roots met on the way from leaf `i` up to the root. -/
def path (i : ℕ) (L : List α) : List α :=
  if _h : 2 ≤ L.length then
    if i < splitPoint L.length then
      path i (L.take (splitPoint L.length)) ++
        [root node empty (L.drop (splitPoint L.length))]
    else
      path (i - splitPoint L.length) (L.drop (splitPoint L.length)) ++
        [root node empty (L.take (splitPoint L.length))]
  else []
termination_by L.length
decreasing_by
  · simpa using splitPoint_lt ‹_›
  · have := splitPoint_pos L.length
    simp; omega

theorem path_of_short {L : List α} (h : ¬ 2 ≤ L.length) (i : ℕ) :
    path node empty i L = [] := by
  rw [path, dif_neg h]

theorem path_left {L : List α} (h : 2 ≤ L.length) {i : ℕ} (hi : i < splitPoint L.length) :
    path node empty i L =
      path node empty i (L.take (splitPoint L.length)) ++
        [root node empty (L.drop (splitPoint L.length))] := by
  rw [path, dif_pos h, if_pos hi]

theorem path_right {L : List α} (h : 2 ≤ L.length) {i : ℕ}
    (hi : ¬ i < splitPoint L.length) :
    path node empty i L =
      path node empty (i - splitPoint L.length) (L.drop (splitPoint L.length)) ++
        [root node empty (L.take (splitPoint L.length))] := by
  rw [path, dif_pos h, if_neg hi]

/-- Fold a proof, given root side first, back to a root: position `i` of a tree
of `n` leaves.  `none` is a proof that is too long or too short. -/
def foldTop (x : α) : ℕ → ℕ → List α → Option α
  | _, n, [] => if n ≤ 1 then some x else none
  | i, n, s :: rest =>
      if n ≤ 1 then none
      else if i < splitPoint n then
        (foldTop x i (splitPoint n) rest).map fun l => node l s
      else (foldTop x (i - splitPoint n) (n - splitPoint n) rest).map fun r => node s r

/-- The pairs handed to `node` by `foldTop`. -/
def foldNodes (x : α) : ℕ → ℕ → List α → List (α × α)
  | _, _, [] => []
  | i, n, s :: rest =>
      if n ≤ 1 then []
      else if i < splitPoint n then
        ((foldTop node x i (splitPoint n) rest).map fun l => (l, s)).toList ++
          foldNodes x i (splitPoint n) rest
      else
        ((foldTop node x (i - splitPoint n) (n - splitPoint n) rest).map
            fun r => (s, r)).toList ++
          foldNodes x (i - splitPoint n) (n - splitPoint n) rest

/-- The path of a leaf folds back to the root. -/
theorem foldTop_path {L : List α} {i : ℕ} {x : α} (hx : L[i]? = some x) :
    foldTop node x i L.length (path node empty i L).reverse =
      some (root node empty L) := by
  induction L using split_induction generalizing i with
  | nil => simp at hx
  | single a =>
      obtain ⟨rfl, rfl⟩ : i = 0 ∧ a = x := by
        rcases i with _ | i
        · simpa using hx
        · simp at hx
      simp [path_of_short node empty (L := [a]) (by simp), foldTop]
  | split L h2 ihl ihr =>
      have hlt := splitPoint_lt h2
      rw [root_split node empty h2]
      by_cases hi : i < splitPoint L.length
      · have hleft := ihl (i := i) (by rw [List.getElem?_take_of_lt hi]; exact hx)
        rw [List.length_take, Nat.min_eq_left hlt.le] at hleft
        rw [path_left node empty h2 hi, List.reverse_append]
        simp [foldTop, hi, hleft, show ¬ L.length ≤ 1 by omega]
      · have hright := ihr (i := i - splitPoint L.length) (by
          rw [List.getElem?_drop, Nat.add_sub_cancel' (by omega)]; exact hx)
        rw [List.length_drop] at hright
        rw [path_right node empty h2 hi, List.reverse_append]
        simp [foldTop, hi, hright, show ¬ L.length ≤ 1 by omega]

variable {node}

/-- **An accepted inclusion proof is the path of the leaf it shows.**  The
induction peels the tree from its root: each level compares one pair of the
fold with one pair of the tree. -/
theorem foldTop_sound {L : List α} {i : ℕ} {x : α} {p : List α} (hi : i < L.length)
    (hb : Binds node (foldNodes node x i L.length p) (nodes node empty L))
    (h : foldTop node x i L.length p = some (root node empty L)) :
    L[i]? = some x ∧ p.reverse = path node empty i L := by
  induction L using split_induction generalizing i p with
  | nil => simp at hi
  | single a =>
      obtain rfl : i = 0 := by simpa using hi
      cases p with
      | nil => simpa [foldTop, path_of_short node empty (L := [a]) (by simp)] using h.symm
      | cons s rest => simp [foldTop] at h
  | split L h2 ihl ihr =>
      have hlt := splitPoint_lt h2
      have hpos := splitPoint_pos L.length
      have hn : ¬ L.length ≤ 1 := by omega
      cases p with
      | nil => simp [foldTop, hn] at h
      | cons s rest =>
          rw [root_split node empty h2] at h
          rw [nodes_split node empty h2] at hb
          by_cases hik : i < splitPoint L.length
          · simp only [foldTop, if_neg hn, if_pos hik, Option.map_eq_some_iff] at h
            simp only [foldNodes, if_neg hn, if_pos hik] at hb
            obtain ⟨l, hl, hnode⟩ := h
            obtain ⟨rfl, hs⟩ := hb.pair (by simp [hl]) List.mem_cons_self hnode
            have hlen : (L.take (splitPoint L.length)).length = splitPoint L.length := by
              simp; omega
            obtain ⟨hget, hpath⟩ := ihl (i := i) (p := rest) (by omega)
              (hb.mono (fun q hq => by rw [hlen] at hq; simp [hq])
                (fun q hq => by simp [hq])) (by rw [hlen]; exact hl)
            refine ⟨by rwa [List.getElem?_take_of_lt hik] at hget, ?_⟩
            rw [path_left node empty h2 hik, List.reverse_cons, hpath, hs]
          · simp only [foldTop, if_neg hn, if_neg hik, Option.map_eq_some_iff] at h
            simp only [foldNodes, if_neg hn, if_neg hik] at hb
            obtain ⟨r, hr, hnode⟩ := h
            obtain ⟨hs, rfl⟩ := hb.pair (by simp [hr]) List.mem_cons_self hnode
            have hlen : (L.drop (splitPoint L.length)).length
                = L.length - splitPoint L.length := by simp
            obtain ⟨hget, hpath⟩ := ihr (i := i - splitPoint L.length) (p := rest)
              (by omega)
              (hb.mono (fun q hq => by rw [hlen] at hq; simp [hq])
                (fun q hq => by simp [hq])) (by rw [hlen]; exact hr)
            rw [List.getElem?_drop, Nat.add_sub_cancel' (by omega)] at hget
            refine ⟨hget, ?_⟩
            rw [path_right node empty h2 hik, List.reverse_cons, hpath, hs]

/-! ## Levels -/

/-- The leaves below position `i` of level `j`. -/
def block (L : List α) (j i : ℕ) : List α := (L.drop (i * 2 ^ j)).take (2 ^ j)

theorem block_length (L : List α) (j i : ℕ) :
    (block L j i).length = min (2 ^ j) (L.length - i * 2 ^ j) := by
  simp [block]

theorem block_eq_nil {L : List α} {j i : ℕ} (h : L.length ≤ i * 2 ^ j) :
    block L j i = [] := by
  simp [block, List.drop_eq_nil_of_le h]

theorem block_zero {L : List α} {j : ℕ} (h : L.length ≤ 2 ^ j) : block L j 0 = L := by
  simp [block, List.take_of_length_le h]

/-- The left half of a level position. -/
theorem take_block_succ (L : List α) (j i : ℕ) :
    (block L (j + 1) i).take (2 ^ j) = block L j (2 * i) := by
  have hp : 2 ^ j ≤ 2 ^ (j + 1) := Nat.pow_le_pow_right (by omega) (by omega)
  rw [block, block, List.take_take, Nat.min_eq_left hp]
  congr 2
  ring

/-- The right half of a level position. -/
theorem drop_block_succ (L : List α) (j i : ℕ) :
    (block L (j + 1) i).drop (2 ^ j) = block L j (2 * i + 1) := by
  rw [block, block, List.drop_take, List.drop_drop]
  congr 1
  · rw [pow_succ]; omega
  · congr 1
    ring

/-- A level position whose right half is empty is its left half. -/
theorem block_succ_of_le {L : List α} {j i : ℕ} (h : L.length ≤ (2 * i + 1) * 2 ^ j) :
    block L (j + 1) i = block L j (2 * i) := by
  rw [← List.take_append_drop (2 ^ j) (block L (j + 1) i), take_block_succ,
    drop_block_succ, block_eq_nil h, List.append_nil]

/-- A level position with leaves in its right half is split between its halves. -/
theorem splitPoint_block_succ {L : List α} {j i : ℕ} (h : (2 * i + 1) * 2 ^ j < L.length) :
    splitPoint (block L (j + 1) i).length = 2 ^ j := by
  have e₁ : (2 * i + 1) * 2 ^ j = i * 2 ^ (j + 1) + 2 ^ j := by ring
  have e₂ : 2 ^ (j + 1) = 2 * 2 ^ j := by ring
  have hpos := Nat.two_pow_pos j
  apply splitPoint_eq
  · rw [block_length]; omega
  · rw [block_length]; omega

theorem two_le_length_block_succ {L : List α} {j i : ℕ}
    (h : (2 * i + 1) * 2 ^ j < L.length) : 2 ≤ (block L (j + 1) i).length := by
  have e₁ : (2 * i + 1) * 2 ^ j = i * 2 ^ (j + 1) + 2 ^ j := by ring
  have e₂ : 2 ^ (j + 1) = 2 * 2 ^ j := by ring
  have hpos := Nat.two_pow_pos j
  rw [block_length]; omega

/-- A prefix of whole blocks grows by the next block. -/
theorem take_append_block (L : List α) (j i : ℕ) :
    L.take ((i + 1) * 2 ^ j) = L.take (i * 2 ^ j) ++ block L j i := by
  rw [block, ← List.take_add]
  congr 1
  ring

variable (node)

/-- The root of the leaves below position `i` of level `j`. -/
def blockRoot (L : List α) (j i : ℕ) : α := root node empty (block L j i)

theorem blockRoot_zero {L : List α} {j : ℕ} (h : L.length ≤ 2 ^ j) :
    blockRoot node empty L j 0 = root node empty L := by
  rw [blockRoot, block_zero h]

/-- **The level recurrence.**  A position is hashed from its two children when
the right child has a leaf, and is its left child otherwise. -/
theorem blockRoot_succ (L : List α) (j i : ℕ) :
    blockRoot node empty L (j + 1) i =
      if (2 * i + 1) * 2 ^ j < L.length then
        node (blockRoot node empty L j (2 * i)) (blockRoot node empty L j (2 * i + 1))
      else blockRoot node empty L j (2 * i) := by
  split
  next h =>
    rw [blockRoot, root_split node empty (two_le_length_block_succ h),
      splitPoint_block_succ h, take_block_succ, drop_block_succ]
    rfl
  next h => rw [blockRoot, block_succ_of_le (not_lt.mp h), blockRoot]

/-- The pairs below a level position are pairs of the whole tree. -/
theorem nodes_block_subset (L : List α) (j i : ℕ) :
    nodes node empty (block L j i) ⊆ nodes node empty L := by
  -- Induction on a level that already covers the whole list: below it, every
  -- block lies in one of the two halves the root splits the list into.
  suffices h : ∀ (J : ℕ) (L : List α) (j i : ℕ), L.length ≤ 2 ^ J →
      nodes node empty (block L j i) ⊆ nodes node empty L from
    h L.length L j i Nat.lt_two_pow_self.le
  intro J
  induction J with
  | zero =>
      intro L j i hL
      have hshort : ¬ 2 ≤ (block L j i).length := by
        rw [block_length]; simp only [pow_zero] at hL; omega
      simp [nodes_of_short node empty hshort]
  | succ J ih =>
      intro L j i hL
      by_cases hJ : L.length ≤ 2 ^ J
      · exact ih L j i hJ
      rw [not_le] at hJ
      have hsplit := splitPoint_eq hJ hL
      have h2 : 2 ≤ L.length := by have := Nat.two_pow_pos J; omega
      have hpow : 2 ^ (J + 1) = 2 * 2 ^ J := by ring
      rw [nodes_split node empty h2, hsplit]
      by_cases hj : J + 1 ≤ j
      · -- a block at least as wide as the list is the list, or is empty
        have hwide : 2 ^ (J + 1) ≤ 2 ^ j := Nat.pow_le_pow_right (by omega) hj
        cases i with
        | zero =>
            rw [block_zero (hL.trans hwide), nodes_split node empty h2, hsplit]
            exact fun _ h => h
        | succ i =>
            have hnil : L.length ≤ (i + 1) * 2 ^ j := by
              have := Nat.le_mul_of_pos_left (2 ^ j) (show 0 < i + 1 by omega)
              omega
            simp [block_eq_nil hnil, nodes_of_short]
      · obtain ⟨d, rfl⟩ : ∃ d, J = j + d := ⟨J - j, by omega⟩
        have hJj : 2 ^ (j + d) = 2 ^ d * 2 ^ j := by rw [pow_add, Nat.mul_comm]
        by_cases hi : i < 2 ^ d
        · have hend : i * 2 ^ j + 2 ^ j ≤ 2 ^ (j + d) := by
            calc i * 2 ^ j + 2 ^ j = (i + 1) * 2 ^ j := by ring
              _ ≤ 2 ^ d * 2 ^ j := Nat.mul_le_mul_right _ hi
              _ = 2 ^ (j + d) := hJj.symm
          have hblock : block L j i = block (L.take (2 ^ (j + d))) j i := by
            rw [block, block, List.drop_take, List.take_take,
              Nat.min_eq_left (by omega)]
          rw [hblock]
          exact fun p hp => by
            simp [ih (L.take (2 ^ (j + d))) j i (by simp) hp]
        · have hstart : i * 2 ^ j = 2 ^ (j + d) + (i - 2 ^ d) * 2 ^ j := by
            rw [hJj, ← Nat.add_mul, Nat.add_sub_cancel' (by omega)]
          have hblock : block L j i = block (L.drop (2 ^ (j + d))) j (i - 2 ^ d) := by
            rw [block, block, List.drop_drop, hstart]
          rw [hblock]
          exact fun p hp => by
            simp [ih (L.drop (2 ^ (j + d))) j (i - 2 ^ d) (by simp; omega) hp]

/-- The children of a level position are a pair of the tree. -/
theorem mem_nodes_of_lt {L : List α} {j i : ℕ} (h : (2 * i + 1) * 2 ^ j < L.length) :
    (blockRoot node empty L j (2 * i), blockRoot node empty L j (2 * i + 1)) ∈
      nodes node empty L := by
  apply nodes_block_subset node empty L (j + 1) i
  rw [nodes_split node empty (two_le_length_block_succ h), splitPoint_block_succ h,
    take_block_succ, drop_block_succ]
  exact List.mem_cons_self

/-- The position, on level `j`, of the last leaf of a list. -/
def lastIndex (L : List α) (j : ℕ) : ℕ := (L.length - 1) / 2 ^ j

theorem lastIndex_succ (L : List α) (j : ℕ) : lastIndex L (j + 1) = lastIndex L j / 2 := by
  rw [lastIndex, lastIndex, Nat.div_div_eq_div_mul, pow_succ]

theorem le_lastIndex_iff {L : List α} (hL : 0 < L.length) {j i : ℕ} :
    i ≤ lastIndex L j ↔ i * 2 ^ j < L.length := by
  rw [lastIndex, Nat.le_div_iff_mul_le (Nat.two_pow_pos j)]
  omega

theorem lastIndex_le {L L' : List α} (h : L.length ≤ L'.length) (j : ℕ) :
    lastIndex L j ≤ lastIndex L' j :=
  Nat.div_le_div_right (by omega)

/-- Level `j` has a single position exactly when it covers the list. -/
theorem length_le_of_lastIndex_eq_zero {L : List α} {j : ℕ} (h : lastIndex L j = 0) :
    L.length ≤ 2 ^ j := by
  have := (Nat.div_eq_zero_iff_lt (Nat.two_pow_pos j)).mp h
  omega

/-- The leaves before a position, counted from the parent level. -/
theorem half_mul_two_pow_succ (i j : ℕ) : i / 2 * 2 ^ (j + 1) = (i - i % 2) * 2 ^ j := by
  rw [pow_succ', ← Nat.mul_assoc]
  congr 1
  omega

section Climb

variable {L : List α} (hL : 0 < L.length) {j i : ℕ}
include hL

/-- Climbing from a right child. -/
theorem blockRoot_succ_odd (hodd : i % 2 = 1) (hi : i ≤ lastIndex L j) :
    blockRoot node empty L (j + 1) (i / 2) =
      node (blockRoot node empty L j (i - 1)) (blockRoot node empty L j i) := by
  have hlt := (le_lastIndex_iff hL).mp hi
  rw [blockRoot_succ, show 2 * (i / 2) + 1 = i by omega, if_pos hlt,
    show 2 * (i / 2) = i - 1 by omega]

theorem mem_nodes_odd (hodd : i % 2 = 1) (hi : i ≤ lastIndex L j) :
    (blockRoot node empty L j (i - 1), blockRoot node empty L j i) ∈
      nodes node empty L := by
  have hlt := (le_lastIndex_iff hL).mp hi
  have hmem := mem_nodes_of_lt node empty (L := L) (j := j) (i := i / 2)
    (by rwa [show 2 * (i / 2) + 1 = i by omega])
  rwa [show 2 * (i / 2) + 1 = i by omega, show 2 * (i / 2) = i - 1 by omega] at hmem

/-- Climbing from a left child that has a sibling. -/
theorem blockRoot_succ_even (heven : i % 2 = 0) (hi : i < lastIndex L j) :
    blockRoot node empty L (j + 1) (i / 2) =
      node (blockRoot node empty L j i) (blockRoot node empty L j (i + 1)) := by
  have hlt := (le_lastIndex_iff hL).mp (show i + 1 ≤ lastIndex L j from hi)
  rw [blockRoot_succ, show 2 * (i / 2) = i by omega, if_pos hlt]

theorem mem_nodes_even (heven : i % 2 = 0) (hi : i < lastIndex L j) :
    (blockRoot node empty L j i, blockRoot node empty L j (i + 1)) ∈
      nodes node empty L := by
  have hlt := (le_lastIndex_iff hL).mp (show i + 1 ≤ lastIndex L j from hi)
  have hmem := mem_nodes_of_lt node empty (L := L) (j := j) (i := i / 2)
    (by rwa [show 2 * (i / 2) = i by omega])
  rwa [show 2 * (i / 2) = i by omega] at hmem

/-- A left child without a sibling stands for its parent. -/
theorem block_succ_last (heven : i % 2 = 0) (hi : i = lastIndex L j) :
    block L (j + 1) (i / 2) = block L j i := by
  have hge : ¬ (i + 1) * 2 ^ j < L.length := fun h => by
    have := (le_lastIndex_iff hL).mpr h
    omega
  rw [block_succ_of_le (by rw [show 2 * (i / 2) = i by omega]; omega),
    show 2 * (i / 2) = i by omega]

theorem blockRoot_succ_last (heven : i % 2 = 0) (hi : i = lastIndex L j) :
    blockRoot node empty L (j + 1) (i / 2) = blockRoot node empty L j i := by
  rw [blockRoot, block_succ_last hL heven hi, blockRoot]

end Climb

/-! ## Consistency proofs -/

/-- The proof that the first `m` leaves of a subtree are a prefix of it; `first`
says that the subtree starts at leaf zero, where the verifier holds the old
root itself. -/
def subproof (m : ℕ) (L : List α) (first : Bool) : List α :=
  if m = L.length then
    if first then [] else [root node empty L]
  else if _h : 2 ≤ L.length then
    if m ≤ splitPoint L.length then
      subproof m (L.take (splitPoint L.length)) first ++
        [root node empty (L.drop (splitPoint L.length))]
    else
      subproof (m - splitPoint L.length) (L.drop (splitPoint L.length)) false ++
        [root node empty (L.take (splitPoint L.length))]
  else []
termination_by L.length
decreasing_by
  · simpa using splitPoint_lt ‹_›
  · have := splitPoint_pos L.length
    simp; omega

/-- Drop the trailing one bits of `fn`, and as many bits of `sn`. -/
def dropOnes (fn sn : ℕ) : ℕ × ℕ :=
  if fn % 2 = 1 then dropOnes (fn / 2) (sn / 2) else (fn, sn)
termination_by fn
decreasing_by omega

/-- Drop the trailing zero bits of a nonzero `fn`, and as many bits of `sn`. -/
def dropZeros (fn sn : ℕ) : ℕ × ℕ :=
  if fn % 2 = 0 ∧ 0 < fn then dropZeros (fn / 2) (sn / 2) else (fn, sn)
termination_by fn
decreasing_by omega

/-- The climb of both trees at once: `fn` and `sn` are the positions of the two
last leaves on the current level, `fr` and `sr` the hashes at position `fn` of
the old and of the new tree. -/
def walk : ℕ → ℕ → α → α → List α → Option (α × α)
  | _, sn, fr, sr, [] => if sn = 0 then some (fr, sr) else none
  | fn, sn, fr, sr, c :: rest =>
      if sn = 0 then none
      else if fn % 2 = 1 ∨ fn = sn then
        walk ((dropZeros fn sn).1 / 2) ((dropZeros fn sn).2 / 2)
          (node c fr) (node c sr) rest
      else walk (fn / 2) (sn / 2) fr (node sr c) rest

/-- The pairs handed to `node` by `walk`. -/
def walkNodes : ℕ → ℕ → α → α → List α → List (α × α)
  | _, _, _, _, [] => []
  | fn, sn, fr, sr, c :: rest =>
      if sn = 0 then []
      else if fn % 2 = 1 ∨ fn = sn then
        (c, fr) :: (c, sr) ::
          walkNodes ((dropZeros fn sn).1 / 2) ((dropZeros fn sn).2 / 2)
            (node c fr) (node c sr) rest
      else (sr, c) :: walkNodes (fn / 2) (sn / 2) fr (node sr c) rest

theorem dropOnes_spec (fn sn : ℕ) :
    ∃ j, dropOnes fn sn = (fn / 2 ^ j, sn / 2 ^ j) ∧ fn / 2 ^ j % 2 = 0 ∧
      fn + 1 = (fn / 2 ^ j + 1) * 2 ^ j := by
  induction fn using Nat.strongRecOn generalizing sn with
  | ind fn ih =>
      rw [dropOnes]
      split
      next hodd =>
        obtain ⟨j, heq, heven, hsize⟩ := ih (fn / 2) (by omega) (sn / 2)
        refine ⟨j + 1, ?_, ?_, ?_⟩
        · rw [heq, Nat.div_div_eq_div_mul, Nat.div_div_eq_div_mul, pow_succ']
        · rwa [pow_succ', ← Nat.div_div_eq_div_mul]
        · rw [pow_succ', ← Nat.div_div_eq_div_mul]
          calc fn + 1 = 2 * (fn / 2 + 1) := by omega
            _ = 2 * ((fn / 2 / 2 ^ j + 1) * 2 ^ j) := by rw [hsize]
            _ = (fn / 2 / 2 ^ j + 1) * (2 * 2 ^ j) := by ring
      next heven => exact ⟨0, by simp, by simpa using heven, by simp⟩

theorem dropZeros_even {fn : ℕ} (heven : fn % 2 = 0) (hpos : 0 < fn) (sn : ℕ) :
    dropZeros fn sn = dropZeros (fn / 2) (sn / 2) := by
  rw [dropZeros, if_pos ⟨heven, hpos⟩]

theorem dropZeros_odd {fn : ℕ} (hodd : fn % 2 = 1) (sn : ℕ) :
    dropZeros fn sn = (fn, sn) := by
  rw [dropZeros, if_neg (by omega)]

/-! ### One step of the climb -/

section Steps

variable {fn sn : ℕ} (fr sr : α)

theorem walk_nil : walk node fn sn fr sr [] = if sn = 0 then some (fr, sr) else none := by
  rw [walk]

theorem walk_cons_zero (c : α) (rest : List α) :
    walk node fn 0 fr sr (c :: rest) = none := by
  rw [walk, if_pos rfl]

theorem walk_left (h : fn % 2 = 1 ∨ fn = sn) (hsn : sn ≠ 0) (c : α) (rest : List α) :
    walk node fn sn fr sr (c :: rest) =
      walk node ((dropZeros fn sn).1 / 2) ((dropZeros fn sn).2 / 2)
        (node c fr) (node c sr) rest := by
  rw [walk, if_neg hsn, if_pos h]

theorem walk_odd (hodd : fn % 2 = 1) (hsn : sn ≠ 0) (c : α) (rest : List α) :
    walk node fn sn fr sr (c :: rest) =
      walk node (fn / 2) (sn / 2) (node c fr) (node c sr) rest := by
  rw [walk_left node fr sr (Or.inl hodd) hsn, dropZeros_odd hodd]

theorem walk_even (heven : fn % 2 = 0) (hne : fn ≠ sn) (hsn : sn ≠ 0) (c : α)
    (rest : List α) :
    walk node fn sn fr sr (c :: rest) =
      walk node (fn / 2) (sn / 2) fr (node sr c) rest := by
  rw [walk, if_neg hsn, if_neg (by omega)]

/-- Where the last leaf of both trees is the same left child, nothing is read
before the next level. -/
theorem walk_promote (heven : fn % 2 = 0) (hpos : 0 < fn) (p : List α) :
    walk node fn fn fr sr p = walk node (fn / 2) (fn / 2) fr sr p := by
  cases p with
  | nil => rw [walk_nil, walk_nil, if_neg (by omega), if_neg (by omega)]
  | cons c rest =>
      rw [walk_left node fr sr (Or.inr rfl) (by omega),
        walk_left node fr sr (Or.inr rfl) (by omega), dropZeros_even heven hpos]

theorem walkNodes_left (h : fn % 2 = 1 ∨ fn = sn) (hsn : sn ≠ 0) (c : α)
    (rest : List α) :
    walkNodes node fn sn fr sr (c :: rest) =
      (c, fr) :: (c, sr) ::
        walkNodes node ((dropZeros fn sn).1 / 2) ((dropZeros fn sn).2 / 2)
          (node c fr) (node c sr) rest := by
  rw [walkNodes, if_neg hsn, if_pos h]

theorem walkNodes_odd (hodd : fn % 2 = 1) (hsn : sn ≠ 0) (c : α) (rest : List α) :
    walkNodes node fn sn fr sr (c :: rest) =
      (c, fr) :: (c, sr) ::
        walkNodes node (fn / 2) (sn / 2) (node c fr) (node c sr) rest := by
  rw [walkNodes_left node fr sr (Or.inl hodd) hsn, dropZeros_odd hodd]

theorem walkNodes_even (heven : fn % 2 = 0) (hne : fn ≠ sn) (hsn : sn ≠ 0) (c : α)
    (rest : List α) :
    walkNodes node fn sn fr sr (c :: rest) =
      (sr, c) :: walkNodes node (fn / 2) (sn / 2) fr (node sr c) rest := by
  rw [walkNodes, if_neg hsn, if_neg (by omega)]

theorem walkNodes_promote (heven : fn % 2 = 0) (hpos : 0 < fn) (p : List α) :
    walkNodes node fn fn fr sr p = walkNodes node (fn / 2) (fn / 2) fr sr p := by
  cases p with
  | nil => rfl
  | cons c rest =>
      rw [walkNodes_left node fr sr (Or.inr rfl) (by omega),
        walkNodes_left node fr sr (Or.inr rfl) (by omega), dropZeros_even heven hpos]

end Steps

/-! ### Soundness -/

variable {node}

/-- **The climb can only end at both roots from the two hashes of its own
level**, and then everything to the left of the current position is common to
the two lists.  The induction is on the position of the new tree's last leaf,
which halves from level to level. -/
theorem walk_sound {A B : List α} (hA : 0 < A.length) (hAB : A.length ≤ B.length)
    (hlists : Binds node (nodes node empty A) (nodes node empty B)) {j : ℕ} {fr sr : α}
    {p : List α}
    (hbA : Binds node (walkNodes node (lastIndex A j) (lastIndex B j) fr sr p)
      (nodes node empty A))
    (hbB : Binds node (walkNodes node (lastIndex A j) (lastIndex B j) fr sr p)
      (nodes node empty B))
    (h : walk node (lastIndex A j) (lastIndex B j) fr sr p =
      some (root node empty A, root node empty B)) :
    fr = blockRoot node empty A j (lastIndex A j) ∧
      sr = blockRoot node empty B j (lastIndex A j) ∧
      A.take (lastIndex A j * 2 ^ j) = B.take (lastIndex A j * 2 ^ j) := by
  have hB : 0 < B.length := by omega
  induction hsn : lastIndex B j using Nat.strongRecOn generalizing j fr sr p with
  | ind sn ih =>
      have hle : lastIndex A j ≤ lastIndex B j := lastIndex_le hAB j
      rcases Nat.eq_zero_or_pos sn with hzero | hpos
      · -- both trees end on this level
        have hAj : lastIndex A j = 0 := by omega
        rw [hsn, hzero] at h
        cases p with
        | cons c rest => rw [walk_cons_zero] at h; simp at h
        | nil =>
            rw [walk_nil, if_pos rfl, Option.some_inj, Prod.mk.injEq] at h
            rw [hAj, blockRoot_zero node empty (length_le_of_lastIndex_eq_zero hAj),
              blockRoot_zero node empty (length_le_of_lastIndex_eq_zero (hsn.trans hzero))]
            exact ⟨h.1, h.2, by simp⟩
      have hnext : lastIndex B (j + 1) < sn := by rw [lastIndex_succ]; omega
      rcases Nat.mod_two_eq_zero_or_one (lastIndex A j) with heven | hodd
      · by_cases hlast : lastIndex A j = lastIndex B j
        · -- the position has no sibling in either tree
          rw [← hlast, walk_promote node _ _ heven (by omega)] at h
          rw [← hlast, walkNodes_promote node _ _ heven (by omega)] at hbA hbB
          obtain ⟨hfr, hsr, htake⟩ := ih _ hnext (j := j + 1) (p := p)
            (by rw [lastIndex_succ, lastIndex_succ, ← hlast]; exact hbA)
            (by rw [lastIndex_succ, lastIndex_succ, ← hlast]; exact hbB)
            (by rw [lastIndex_succ, lastIndex_succ, ← hlast]; exact h) rfl
          rw [lastIndex_succ] at hfr hsr htake
          rw [blockRoot_succ_last node empty hA heven rfl] at hfr
          rw [blockRoot_succ_last node empty hB heven hlast] at hsr
          refine ⟨hfr, hsr, ?_⟩
          rwa [half_mul_two_pow_succ, heven, Nat.sub_zero] at htake
        · -- only the new tree has a right sibling here
          cases p with
          | nil => rw [walk_nil, if_neg (by omega)] at h; simp at h
          | cons c rest =>
              rw [walk_even node _ _ heven hlast (by omega)] at h
              rw [walkNodes_even node _ _ heven hlast (by omega)] at hbA hbB
              obtain ⟨hfr, hsr, htake⟩ := ih _ hnext (j := j + 1) (p := rest)
                (by rw [lastIndex_succ, lastIndex_succ]
                    exact hbA.mono (List.subset_cons_self _ _) (fun _ hq => hq))
                (by rw [lastIndex_succ, lastIndex_succ]
                    exact hbB.mono (List.subset_cons_self _ _) (fun _ hq => hq))
                (by rw [lastIndex_succ, lastIndex_succ]; exact h) rfl
              rw [lastIndex_succ] at hfr hsr htake
              rw [blockRoot_succ_last node empty hA heven rfl] at hfr
              rw [blockRoot_succ_even node empty hB heven (by omega)] at hsr
              obtain ⟨hsr, -⟩ := hbB.pair List.mem_cons_self
                (mem_nodes_even node empty hB heven (by omega)) hsr
              refine ⟨hfr, hsr, ?_⟩
              rwa [half_mul_two_pow_succ, heven, Nat.sub_zero] at htake
      · -- both trees have the left sibling, and it is the same hash
        cases p with
        | nil => rw [walk_nil, if_neg (by omega)] at h; simp at h
        | cons c rest =>
            rw [walk_odd node _ _ hodd (by omega)] at h
            rw [walkNodes_odd node _ _ hodd (by omega)] at hbA hbB
            have hsub : ∀ q ∈ walkNodes node (lastIndex A j / 2) (lastIndex B j / 2)
                (node c fr) (node c sr) rest, q ∈ (c, fr) :: (c, sr) ::
                  walkNodes node (lastIndex A j / 2) (lastIndex B j / 2)
                    (node c fr) (node c sr) rest := fun q hq => by simp [hq]
            obtain ⟨hfr, hsr, htake⟩ := ih _ hnext (j := j + 1) (p := rest)
              (by rw [lastIndex_succ, lastIndex_succ]
                  exact hbA.mono hsub (fun _ hq => hq))
              (by rw [lastIndex_succ, lastIndex_succ]
                  exact hbB.mono hsub (fun _ hq => hq))
              (by rw [lastIndex_succ, lastIndex_succ]; exact h) rfl
            rw [lastIndex_succ] at hfr hsr htake
            rw [blockRoot_succ_odd node empty hA hodd le_rfl] at hfr
            rw [blockRoot_succ_odd node empty hB hodd hle] at hsr
            obtain ⟨hcA, hfr⟩ := hbA.pair (by simp)
              (mem_nodes_odd node empty hA hodd le_rfl) hfr
            obtain ⟨hcB, hsr⟩ := hbB.pair (by simp)
              (mem_nodes_odd node empty hB hodd hle) hsr
            refine ⟨hfr, hsr, ?_⟩
            -- the left sibling is a full block of both lists
            have hAlt := (le_lastIndex_iff hA).mp (le_refl (lastIndex A j))
            have hsize : (lastIndex A j - 1) * 2 ^ j + 2 ^ j = lastIndex A j * 2 ^ j := by
              rw [← Nat.succ_mul]
              congr 1
              omega
            have hblocks : block A j (lastIndex A j - 1) = block B j (lastIndex A j - 1) := by
              refine root_injective empty ?_ (hlists.mono ?_ ?_) (hcA.symm.trans hcB)
              · rw [block_length, block_length]; omega
              · exact nodes_block_subset node empty A j _
              · exact nodes_block_subset node empty B j _
            have hidx : lastIndex A j = (lastIndex A j - 1) + 1 := by omega
            rw [half_mul_two_pow_succ, hodd] at htake
            rw [hidx, take_append_block, take_append_block, htake, hblocks]

/-- **An accepted consistency proof shows a prefix.**  The climb starts from one
hash for both trees, at the level where the old tree's last block is full. -/
theorem consistency_sound {A B : List α} (hA : 0 < A.length) (hAB : A.length ≤ B.length)
    (hlists : Binds node (nodes node empty A) (nodes node empty B)) {v : α} {p : List α}
    (hbA : Binds node
      (walkNodes node (dropOnes (A.length - 1) (B.length - 1)).1
        (dropOnes (A.length - 1) (B.length - 1)).2 v v p) (nodes node empty A))
    (hbB : Binds node
      (walkNodes node (dropOnes (A.length - 1) (B.length - 1)).1
        (dropOnes (A.length - 1) (B.length - 1)).2 v v p) (nodes node empty B))
    (h : walk node (dropOnes (A.length - 1) (B.length - 1)).1
        (dropOnes (A.length - 1) (B.length - 1)).2 v v p =
      some (root node empty A, root node empty B)) :
    A = B.take A.length := by
  obtain ⟨j, hdrop, -, hfull⟩ := dropOnes_spec (A.length - 1) (B.length - 1)
  rw [hdrop] at h hbA hbB
  obtain ⟨hfr, hsr, htake⟩ := walk_sound empty hA hAB hlists (j := j) hbA hbB h
  change A.length - 1 + 1 = (lastIndex A j + 1) * 2 ^ j at hfull
  have hsize : (lastIndex A j + 1) * 2 ^ j = lastIndex A j * 2 ^ j + 2 ^ j := by ring
  have hblocks : block A j (lastIndex A j) = block B j (lastIndex A j) := by
    refine root_injective empty ?_ (hlists.mono ?_ ?_) (hfr.symm.trans hsr)
    · rw [block_length, block_length]; omega
    · exact nodes_block_subset node empty A j _
    · exact nodes_block_subset node empty B j _
  calc A = A.take ((lastIndex A j + 1) * 2 ^ j) := by
        rw [List.take_of_length_le (by omega)]
    _ = B.take ((lastIndex A j + 1) * 2 ^ j) := by
        rw [take_append_block, take_append_block, htake, hblocks]
    _ = B.take A.length := by
        rw [← hfull, Nat.sub_add_cancel hA]

/-! ### Completeness -/

variable (node)

theorem subproof_full (L : List α) (first : Bool) :
    subproof node empty L.length L first = if first then [] else [root node empty L] := by
  rw [subproof, if_pos rfl]

theorem subproof_left {L : List α} {m : ℕ} (hm : m ≠ L.length) (h2 : 2 ≤ L.length)
    (hle : m ≤ splitPoint L.length) (first : Bool) :
    subproof node empty m L first =
      subproof node empty m (L.take (splitPoint L.length)) first ++
        [root node empty (L.drop (splitPoint L.length))] := by
  rw [subproof, if_neg hm, dif_pos h2, if_pos hle]

theorem subproof_right {L : List α} {m : ℕ} (hm : m ≠ L.length) (h2 : 2 ≤ L.length)
    (hlt : ¬ m ≤ splitPoint L.length) (first : Bool) :
    subproof node empty m L first =
      subproof node empty (m - splitPoint L.length) (L.drop (splitPoint L.length)) false ++
        [root node empty (L.take (splitPoint L.length))] := by
  rw [subproof, if_neg hm, dif_pos h2, if_neg hlt]

/-- A block inside a prefix is a block of the list. -/
theorem block_take {L : List α} {m j i : ℕ} (h : (i + 1) * 2 ^ j ≤ m) :
    block (L.take m) j i = block L j i := by
  have hsize : (i + 1) * 2 ^ j = i * 2 ^ j + 2 ^ j := by ring
  rw [block, block, List.drop_take, List.take_take, Nat.min_eq_left (by omega)]

theorem blockRoot_take {L : List α} {m j i : ℕ} (h : (i + 1) * 2 ^ j ≤ m) :
    blockRoot node empty (L.take m) j i = blockRoot node empty L j i := by
  rw [blockRoot, block_take h, blockRoot]

/-- **The prover's list drives the climb.**  At every level from `j₀` on, the
subproof of the block that holds leaf `m - 1` starts with the hash the climb
starts from (nothing when that is the old root), and its remaining hashes take
the climb to that block. -/
theorem walk_subproof {L : List α} {m j₀ : ℕ} (hm : 0 < m) (hlt : m < L.length)
    (hfull : m = (lastIndex (L.take m) j₀ + 1) * 2 ^ j₀)
    (heven₀ : lastIndex (L.take m) j₀ % 2 = 0) (d : ℕ) :
    ∃ cs : List α,
      subproof node empty (m - lastIndex (L.take m) (j₀ + d) * 2 ^ (j₀ + d))
          (block L (j₀ + d) (lastIndex (L.take m) (j₀ + d)))
          (lastIndex (L.take m) (j₀ + d) == 0) =
        (if lastIndex (L.take m) j₀ = 0 then []
          else [blockRoot node empty L j₀ (lastIndex (L.take m) j₀)]) ++ cs ∧
      ∀ rest : List α,
        walk node (lastIndex (L.take m) j₀) (lastIndex L j₀)
            (blockRoot node empty L j₀ (lastIndex (L.take m) j₀))
            (blockRoot node empty L j₀ (lastIndex (L.take m) j₀)) (cs ++ rest) =
          walk node (lastIndex (L.take m) (j₀ + d)) (lastIndex L (j₀ + d))
            (blockRoot node empty (L.take m) (j₀ + d) (lastIndex (L.take m) (j₀ + d)))
            (blockRoot node empty L (j₀ + d) (lastIndex (L.take m) (j₀ + d))) rest := by
  have hlenA : (L.take m).length = m := by simp; omega
  have hA : 0 < (L.take m).length := by omega
  have hL : 0 < L.length := by omega
  induction d with
  | zero =>
      have hsize : (lastIndex (L.take m) j₀ + 1) * 2 ^ j₀ =
          lastIndex (L.take m) j₀ * 2 ^ j₀ + 2 ^ j₀ := by ring
      have hblock : m - lastIndex (L.take m) j₀ * 2 ^ j₀ =
          (block L j₀ (lastIndex (L.take m) j₀)).length := by
        have hpos := Nat.two_pow_pos j₀
        rw [block_length]; omega
      refine ⟨[], ?_, fun rest => ?_⟩
      · rw [Nat.add_zero, hblock, subproof_full, List.append_nil]
        simp [blockRoot]
      · rw [Nat.add_zero, List.nil_append]
        rw [blockRoot_take node empty hfull.ge]
  | succ d ih =>
      obtain ⟨cs, hproof, hwalk⟩ := ih
      set J := j₀ + d with hJ
      set i := lastIndex (L.take m) J with hi
      have hnext : lastIndex (L.take m) (J + 1) = i / 2 := lastIndex_succ _ _
      have hle : i ≤ lastIndex L J := lastIndex_le (by omega) J
      -- where leaf `m - 1` lies on level `J + 1`
      have hlo : i / 2 * 2 ^ (J + 1) < m := by
        have := (le_lastIndex_iff hA).mp hnext.ge
        omega
      have hhi : ¬ (i / 2 + 1) * 2 ^ (J + 1) < m := by
        intro h
        have := (le_lastIndex_iff hA).mpr (h.trans_eq hlenA.symm)
        omega
      have hpow : 2 ^ (J + 1) = 2 * 2 ^ J := by ring
      have hend : (i / 2 + 1) * 2 ^ (J + 1) = i / 2 * 2 ^ (J + 1) + 2 ^ (J + 1) := by ring
      -- the prefix does not end with the block: `m` has only `j₀` factors of two
      have hpart : m - i / 2 * 2 ^ (J + 1) ≠ (block L (J + 1) (i / 2)).length := by
        rw [block_length]
        intro h
        have hmul : m = (i / 2 + 1) * 2 ^ (J + 1) := by omega
        have hodd : lastIndex (L.take m) j₀ + 1 = (i / 2 + 1) * 2 ^ d * 2 := by
          apply Nat.eq_of_mul_eq_mul_right (Nat.two_pow_pos j₀)
          rw [← hfull, hmul, hJ]
          ring
        omega
      have hstart : i / 2 * 2 ^ (J + 1) = (i - i % 2) * 2 ^ J := half_mul_two_pow_succ i J
      rw [← Nat.add_assoc, ← hJ, hnext, lastIndex_succ L]
      rcases Nat.mod_two_eq_zero_or_one i with heven | hodd
      · rw [heven, Nat.sub_zero] at hstart
        have htwo : 2 * (i / 2) = i := by omega
        have hfirst : (i / 2 == 0) = (i == 0) := by
          rw [Bool.eq_iff_iff, beq_iff_eq, beq_iff_eq]; omega
        by_cases hlast : i = lastIndex L J
        · -- the block has no right half: it is the block one level below
          refine ⟨cs, ?_, fun rest => ?_⟩
          · rw [block_succ_last hL heven hlast, hfirst, hstart]
            exact hproof
          · rw [hwalk, blockRoot_succ_last node empty hA heven hi,
              blockRoot_succ_last node empty hL heven hlast, ← hlast]
            rcases Nat.eq_zero_or_pos i with hzero | hpos
            · rw [hzero]
            · exact walk_promote node _ _ heven hpos rest
        · have hright : (2 * (i / 2) + 1) * 2 ^ J < L.length := by
            rw [htwo]
            exact (le_lastIndex_iff hL).mp (by omega)
          have hsplit := splitPoint_block_succ hright
          have hmle : m - i / 2 * 2 ^ (J + 1) ≤ splitPoint (block L (J + 1) (i / 2)).length := by
            have := (le_lastIndex_iff hA).not.mp (show ¬ i + 1 ≤ i by omega)
            have hsucc : (i + 1) * 2 ^ J = i * 2 ^ J + 2 ^ J := by ring
            omega
          refine ⟨cs ++ [blockRoot node empty L J (i + 1)], ?_, fun rest => ?_⟩
          · rw [subproof_left node empty hpart (two_le_length_block_succ hright) hmle,
              hsplit, take_block_succ, drop_block_succ, htwo, hfirst, hstart, hproof,
              List.append_assoc]
            rfl
          · rw [List.append_assoc, hwalk, List.singleton_append,
              walk_even node _ _ heven hlast (by omega),
              blockRoot_succ_last node empty hA heven hi,
              blockRoot_succ_even node empty hL heven (by omega)]
      · rw [hodd] at hstart
        have htwo : 2 * (i / 2) + 1 = i := by omega
        have hright : (2 * (i / 2) + 1) * 2 ^ J < L.length := by
          rw [htwo]
          exact (le_lastIndex_iff hL).mp hle
        have hsplit := splitPoint_block_succ hright
        have hprev : (i - 1) * 2 ^ J + 2 ^ J = i * 2 ^ J := by
          rw [← Nat.succ_mul]
          congr 1
          omega
        have hmlt : ¬ m - i / 2 * 2 ^ (J + 1) ≤ splitPoint (block L (J + 1) (i / 2)).length := by
          have := (le_lastIndex_iff hA).mp (le_refl i)
          omega
        refine ⟨cs ++ [blockRoot node empty L J (i - 1)], ?_, fun rest => ?_⟩
        · rw [subproof_right node empty hpart (two_le_length_block_succ hright) hmlt, hsplit,
            take_block_succ, drop_block_succ, htwo, show 2 * (i / 2) = i - 1 by omega,
            show m - i / 2 * 2 ^ (J + 1) - 2 ^ J = m - i * 2 ^ J by omega,
            show false = (i == 0) by rw [eq_comm, beq_eq_false_iff_ne]; omega, hproof,
            List.append_assoc]
          rfl
        · rw [List.append_assoc, hwalk, List.singleton_append,
            walk_odd node _ _ hodd (by omega),
            blockRoot_succ_odd node empty hA hodd le_rfl,
            blockRoot_succ_odd node empty hL hodd hle,
            blockRoot_take node empty (show (i - 1 + 1) * 2 ^ J ≤ m by
              have := (le_lastIndex_iff hA).mp (le_refl i)
              rw [Nat.sub_add_cancel (by omega)]
              omega)]

/-- **A generated consistency proof is accepted.**  When the old size is a power
of two the climb starts from the old root, which the verifier holds; otherwise
from the first hash of the proof. -/
theorem consistency_complete {L : List α} {m : ℕ} (hm : 0 < m) (hlt : m < L.length) :
    ∃ cs : List α, ∃ v : α,
      subproof node empty m L true =
        (if (dropOnes (m - 1) (L.length - 1)).1 = 0 then [] else [v]) ++ cs ∧
      ((dropOnes (m - 1) (L.length - 1)).1 = 0 →
        v = root node empty (L.take m) ∧ cs ≠ []) ∧
      walk node (dropOnes (m - 1) (L.length - 1)).1 (dropOnes (m - 1) (L.length - 1)).2
        v v cs = some (root node empty (L.take m), root node empty L) := by
  have hlenA : (L.take m).length = m := by simp; omega
  obtain ⟨j, hdrop, heven, hfull⟩ := dropOnes_spec (m - 1) (L.length - 1)
  have hlast : (m - 1) / 2 ^ j = lastIndex (L.take m) j := by rw [lastIndex, hlenA]
  rw [hlast] at hdrop heven hfull
  rw [Nat.sub_add_cancel hm] at hfull
  rw [hdrop]
  obtain ⟨cs, hproof, hwalk⟩ := walk_subproof node empty hm hlt hfull heven L.length
  -- the level `j + L.length` covers both lists
  have hcover : L.length ≤ 2 ^ (j + L.length) :=
    Nat.lt_two_pow_self.le.trans (Nat.pow_le_pow_right (by omega) (by omega))
  have hzeroA : lastIndex (L.take m) (j + L.length) = 0 := by
    rw [lastIndex, Nat.div_eq_zero_iff_lt (Nat.two_pow_pos _)]; omega
  have hzeroL : lastIndex L (j + L.length) = 0 := by
    rw [lastIndex, Nat.div_eq_zero_iff_lt (Nat.two_pow_pos _)]; omega
  rw [hzeroA, block_zero hcover] at hproof
  refine ⟨cs, blockRoot node empty L j (lastIndex (L.take m) j), ?_, fun hzero => ?_, ?_⟩
  · simpa using hproof
  · change lastIndex (L.take m) j = 0 at hzero
    have hpow : m = 2 ^ j := by rw [hfull, hzero]; simp
    rw [hzero] at hwalk ⊢
    refine ⟨?_, ?_⟩
    · rw [← blockRoot_take node empty (m := m) (by rw [hpow]; simp),
        blockRoot_zero node empty (by omega)]
    · rintro rfl
      have := hwalk []
      rw [List.nil_append, walk_nil, hzeroA, hzeroL, walk_nil, if_pos rfl] at this
      have hsn : lastIndex L j = 0 := by
        by_contra hne
        rw [if_neg hne] at this
        simp at this
      have := length_le_of_lastIndex_eq_zero hsn
      omega
  · have := hwalk []
    rw [List.append_nil, hzeroA, hzeroL, walk_nil, if_pos rfl,
      blockRoot_zero node empty (by omega), blockRoot_zero node empty hcover] at this
    exact this

end Tree

/-! ## Ranges of the tree

A tree that grows leaf by leaf is split at the same places at every size, so a
range of leaves is a subtree of some size exactly when it starts at a multiple
of a power of two that is at least its width. -/

section Ranges

/-- Leaves `a` to `b` are the leaves of a subtree of the tree of some size. -/
def TreeRange (a b : ℕ) : Prop := a < b ∧ ∃ j, 2 ^ j ∣ a ∧ b - a ≤ 2 ^ j

theorem TreeRange.zero {n : ℕ} (h : 0 < n) : TreeRange 0 n :=
  ⟨h, n, dvd_zero _, Nat.lt_two_pow_self.le⟩

/-- A single leaf is a range. -/
theorem TreeRange.single (a : ℕ) : TreeRange a (a + 1) :=
  ⟨by omega, 0, by simp, by simp⟩

/-- The split point of a range, with the power it is and the power its start is a
multiple of. -/
theorem TreeRange.splitPoint_spec {a b : ℕ} (h : TreeRange a b) (h2 : 2 ≤ b - a) :
    ∃ i, splitPoint (b - a) = 2 ^ i ∧ 2 ^ (i + 1) ∣ a ∧ b - a ≤ 2 ^ (i + 1) := by
  obtain ⟨-, j, hdvd, hle⟩ := h
  have hlt := splitPoint_lt h2
  have hle2 := le_two_mul_splitPoint (b - a)
  refine ⟨Nat.log2 (b - a - 1), rfl, (Nat.pow_dvd_pow 2 ?_).trans hdvd, ?_⟩
  · have : 2 ^ Nat.log2 (b - a - 1) < 2 ^ j := lt_of_lt_of_le hlt hle
    exact (Nat.pow_lt_pow_iff_right (by omega)).mp this
  · rw [pow_succ, Nat.mul_comm]
    exact hle2

theorem TreeRange.left {a b : ℕ} (h : TreeRange a b) (h2 : 2 ≤ b - a) :
    TreeRange a (a + splitPoint (b - a)) := by
  obtain ⟨i, hsplit, hdvd, -⟩ := h.splitPoint_spec h2
  have hpos := splitPoint_pos (b - a)
  exact ⟨by omega, i, (Nat.pow_dvd_pow 2 (by omega)).trans hdvd, by omega⟩

theorem TreeRange.right {a b : ℕ} (h : TreeRange a b) (h2 : 2 ≤ b - a) :
    TreeRange (a + splitPoint (b - a)) b := by
  obtain ⟨i, hsplit, hdvd, hle⟩ := h.splitPoint_spec h2
  have hlt := splitPoint_lt h2
  rw [pow_succ] at hle
  refine ⟨by omega, i, ?_, by omega⟩
  rw [hsplit]
  exact Nat.dvd_add ((Nat.pow_dvd_pow 2 (Nat.le_succ i)).trans hdvd) (dvd_refl _)

/-- Inside a range, the next range with the same end is its right half. -/
theorem TreeRange.split_le {a a' b : ℕ} (h : TreeRange a b) (h' : TreeRange a' b)
    (hlt : a < a') : a + splitPoint (b - a) ≤ a' := by
  obtain ⟨hab', j, hdvd', hle'⟩ := h'
  obtain ⟨i, hsplit, hdvd, -⟩ := h.splitPoint_spec (by omega)
  have hsplit_lt := splitPoint_lt (n := b - a) (by omega)
  by_contra hnot
  have hd : a' - a < 2 ^ i := by omega
  rcases Nat.lt_or_ge j i with hji | hij
  · -- `2 ^ j` divides the offset, so the offset is at least `2 ^ j` short of `2 ^ i`
    have hda : 2 ^ j ∣ a' - a := by
      refine Nat.dvd_sub hdvd' ((Nat.pow_dvd_pow 2 (by omega)).trans hdvd)
    obtain ⟨q, hq⟩ := hda
    obtain ⟨r, hr⟩ := Nat.pow_dvd_pow 2 hji.le
    have hqr : q < r := by
      rw [hq, hr] at hd
      exact Nat.lt_of_mul_lt_mul_left hd
    have : 2 ^ j * (q + 1) ≤ 2 ^ j * r := Nat.mul_le_mul_left _ hqr
    rw [Nat.mul_add, Nat.mul_one] at this
    omega
  · -- `2 ^ i` divides the offset, which is positive and smaller
    have hda : 2 ^ i ∣ a' - a := by
      refine Nat.dvd_sub ((Nat.pow_dvd_pow 2 hij).trans hdvd') ?_
      exact (Nat.pow_dvd_pow 2 (by omega)).trans hdvd
    have := Nat.le_of_dvd (by omega) hda
    omega

variable (node : α → α → α) (empty : α)

open Classical in
/-- The hash of every range of the leaves. -/
noncomputable def rangeHash (L : List α) (a b : ℕ) : Option α :=
  if TreeRange a b ∧ b ≤ L.length then some (root node empty ((L.take b).drop a)) else none

theorem rangeHash_of_range {L : List α} {a b : ℕ} (h : TreeRange a b) (hb : b ≤ L.length) :
    rangeHash node empty L a b = some (root node empty ((L.take b).drop a)) := by
  rw [rangeHash, if_pos ⟨h, hb⟩]

theorem rangeHash_eq_none {L : List α} {a b : ℕ} (h : TreeRange a b → L.length < b) :
    rangeHash node empty L a b = none := by
  rw [rangeHash, if_neg fun ⟨hr, hb⟩ => absurd (h hr) (by omega)]

/-- Appending a leaf leaves the old ranges alone. -/
theorem rangeHash_append {L : List α} {a b : ℕ} (hb : b ≤ L.length) (x : α) :
    rangeHash node empty (L ++ [x]) a b = rangeHash node empty L a b := by
  rw [rangeHash, rangeHash, List.take_append_of_le_length hb, List.length_append]
  congr 1
  simp only [eq_iff_iff, and_congr_right_iff]
  intro _
  simp; omega

end Ranges

end MerkleTree
