import Mathlib.Data.List.Induction
import Signal402.Pq.Merkle

/-!
# Inclusion and consistency proofs of the log

Each function of `Signal402.Pq.Merkle` is shown to be its counterpart on
`Signal402.Lib.MerkleTree` with `nodeHash` as the node, and the library's
completeness and soundness then give those of `verify_inclusion` and
`verify_consistency`.

SHA-256 is not injective, so soundness assumes no collision among the finitely
many strings the two sides of one verification hash (`CollisionFree`).  Those
strings are listed: `treeInputs` for a root, `inclusionInputs` and
`consistencyInputs` for a verifier run.  A string determines its pair of
children as soon as one of the two is known to be a digest, and that is why the
unchecked length of a proof's first node does no harm.
-/

namespace Signal402.Merkle

open Sha256

/-! ## The functions on the tree of the library -/

theorem mthAux_eq {L : List Bytes} {start stop : ℕ} (hlt : start < stop)
    (hstop : stop ≤ L.length) :
    mthAux L (fun _ _ => none) start stop =
      MerkleTree.root nodeHash emptyTreeHash (slice L start stop) := by
  induction hw : stop - start using Nat.strongRecOn generalizing start stop with
  | ind w ih =>
      have hlen : (slice L start stop).length = stop - start := by
        rw [slice_length, Nat.min_eq_left hstop]
      rw [mthAux]
      by_cases hone : stop - start ≤ 1
      · obtain rfl : stop = start + 1 := by omega
        have hget : slice L start (start + 1) = [L.getD start []] := by
          rw [slice, List.take_add_one, List.drop_append_of_le_length (by simp; omega)]
          simp [List.getElem?_eq_getElem (show start < L.length by omega)]
        rw [dif_pos hone, hget, MerkleTree.root_singleton]
      · have hpos := doubleBelow_one_pos (n := stop - start) (by omega)
        have hklt := doubleBelow_one_lt (n := stop - start) (by omega)
        rw [dif_neg hone, MerkleTree.root_split _ _ (by omega), hlen,
          ← doubleBelow_one (by omega), take_slice _ _ _ _ (by omega), drop_slice,
          ih _ (by omega) (by omega) (by omega) rfl, ih _ (by omega) (by omega) hstop rfl]

theorem mthFromLeafHashes_eq (L : List Bytes) :
    mthFromLeafHashes L = MerkleTree.root nodeHash emptyTreeHash L := by
  rw [mthFromLeafHashes]
  split
  next h => rw [List.length_eq_zero_iff.mp h, MerkleTree.root_nil]
  next h => rw [mthAux_eq (by omega) le_rfl, slice_all]

theorem inclusionPathAux_eq {L : List Bytes} {m start stop : ℕ} (hle : start ≤ stop)
    (hstop : stop ≤ L.length) (hm : start ≤ m) :
    inclusionPathAux L m start stop =
      MerkleTree.path nodeHash emptyTreeHash (m - start) (slice L start stop) := by
  induction hw : stop - start using Nat.strongRecOn generalizing start stop with
  | ind w ih =>
      have hlen : (slice L start stop).length = stop - start := by
        rw [slice_length, Nat.min_eq_left hstop]
      rw [inclusionPathAux]
      by_cases hone : stop - start ≤ 1
      · rw [dif_pos hone, MerkleTree.path_of_short _ _ (by omega)]
      · have hpos := doubleBelow_one_pos (n := stop - start) (by omega)
        have hklt := doubleBelow_one_lt (n := stop - start) (by omega)
        have hk : MerkleTree.splitPoint (slice L start stop).length =
            doubleBelow (stop - start) 1 := by rw [hlen, doubleBelow_one (by omega)]
        rw [dif_neg hone]
        by_cases hmk : m < start + doubleBelow (stop - start) 1
        · rw [if_pos hmk, MerkleTree.path_left _ _ (by omega) (by omega), hk,
            take_slice _ _ _ _ (by omega), drop_slice, mthFromLeafHashes_eq,
            ih _ (by omega) (by omega) (by omega) hm rfl]
        · rw [if_neg hmk, MerkleTree.path_right _ _ (by omega) (by omega), hk,
            take_slice _ _ _ _ (by omega), drop_slice, mthFromLeafHashes_eq,
            ih _ (by omega) (by omega) hstop (by omega) rfl, Nat.sub_sub]

theorem inclusionPath_eq {L : List Bytes} {i : ℕ} (hi : i < L.length) :
    inclusionPath i L = .ok (MerkleTree.path nodeHash emptyTreeHash i L) := by
  rw [inclusionPath, if_neg (by omega), Int.toNat_natCast,
    inclusionPathAux_eq (Nat.zero_le _) le_rfl (Nat.zero_le _), slice_all, Nat.sub_zero]

/-- `_fold` returns what the library's fold returns, when every sibling it is
handed is a digest. -/
theorem fold_eq_ok_iff {x r : Bytes} {m n : ℕ} (hn : 1 ≤ n) {leftover : List Bytes} :
    fold x m n leftover = .ok r ↔
      MerkleTree.foldTop nodeHash x m n leftover.reverse = some r ∧
        ∀ s ∈ leftover, s.length = hashSize := by
  induction leftover using List.reverseRecOn generalizing m n r with
  | nil =>
      rw [fold]
      by_cases h1 : n = 1
      · simp [h1, MerkleTree.foldTop]
      · rw [if_neg h1, dif_neg (by omega)]
        simp [MerkleTree.foldTop, show ¬ n ≤ 1 by omega]
  | append_singleton init s ih =>
      rw [fold]
      by_cases h1 : n = 1
      · simp [h1, MerkleTree.foldTop]
      have hpos := doubleBelow_one_pos (n := n) (by omega)
      have hlt := doubleBelow_one_lt (n := n) (by omega)
      rw [if_neg h1, dif_neg (by omega)]
      simp only [List.getLast?_append, List.getLast?_singleton, Option.some_or,
        List.dropLast_concat, List.reverse_append, List.reverse_singleton,
        List.singleton_append, MerkleTree.foldTop, if_neg (show ¬ n ≤ 1 by omega),
        ← doubleBelow_one (show 2 ≤ n by omega)]
      by_cases hs : s.length = hashSize
      · rw [if_neg (not_not.mpr hs)]
        by_cases hm : m < doubleBelow n 1
        · rw [if_pos hm, if_pos hm, map_eq_ok, Option.map_eq_some_iff]
          simp only [ih hpos, List.mem_append, List.mem_singleton]
          constructor
          · rintro ⟨l, ⟨hfold, hall⟩, rfl⟩
            exact ⟨⟨l, hfold, rfl⟩, fun t ht => ht.elim (hall t) (fun e => e ▸ hs)⟩
          · rintro ⟨⟨l, hfold, rfl⟩, hall⟩
            exact ⟨l, ⟨hfold, fun t ht => hall t (Or.inl ht)⟩, rfl⟩
        · rw [if_neg hm, if_neg hm, map_eq_ok, Option.map_eq_some_iff]
          simp only [ih (show 1 ≤ n - doubleBelow n 1 by omega), List.mem_append,
            List.mem_singleton]
          constructor
          · rintro ⟨l, ⟨hfold, hall⟩, rfl⟩
            exact ⟨⟨l, hfold, rfl⟩, fun t ht => ht.elim (hall t) (fun e => e ▸ hs)⟩
          · rintro ⟨⟨l, hfold, rfl⟩, hall⟩
            exact ⟨l, ⟨hfold, fun t ht => hall t (Or.inl ht)⟩, rfl⟩
      · rw [if_pos hs]
        simp only [reduceCtorEq, false_iff, not_and]
        exact fun _ hall => hs (hall s (by simp))

theorem subproof_eq {L : List Bytes} {m start stop : ℕ} {first : Bool} (hle : start ≤ stop)
    (hstop : stop ≤ L.length) :
    subproof L m start stop first =
      MerkleTree.subproof nodeHash emptyTreeHash m (slice L start stop) first := by
  induction hw : stop - start using Nat.strongRecOn generalizing m start stop first with
  | ind w ih =>
      have hlen : (slice L start stop).length = stop - start := by
        rw [slice_length, Nat.min_eq_left hstop]
      rw [subproof, MerkleTree.subproof, hlen]
      by_cases hm : m = stop - start
      · rw [if_pos hm, if_pos hm, mthFromLeafHashes_eq]
      rw [if_neg hm, if_neg hm]
      by_cases h2 : stop - start < 2
      · rw [dif_pos h2, dif_neg (by omega)]
      · have hpos := doubleBelow_one_pos (n := stop - start) (by omega)
        have hklt := doubleBelow_one_lt (n := stop - start) (by omega)
        rw [dif_neg h2, dif_pos (by omega), ← doubleBelow_one (by omega),
          take_slice _ _ _ _ (by omega), drop_slice]
        by_cases hmk : m ≤ doubleBelow (stop - start) 1
        · rw [if_pos hmk, if_pos hmk, mthFromLeafHashes_eq,
            ih _ (by omega) (by omega) (by omega) rfl]
        · rw [if_neg hmk, if_neg hmk, mthFromLeafHashes_eq,
            ih _ (by omega) (by omega) hstop rfl]

theorem consistencyPath_eq {L : List Bytes} {m : ℕ} (hm : 0 < m) (hlt : m < L.length) :
    consistencyPath m L = .ok (MerkleTree.subproof nodeHash emptyTreeHash m L true) := by
  rw [consistencyPath, if_neg (by omega), if_neg (by omega), if_neg (by omega),
    Int.toNat_natCast, subproof_eq (Nat.zero_le _) le_rfl, slice_all]

theorem shiftOnes_eq (fn sn : ℕ) : shiftOnes fn sn = MerkleTree.dropOnes fn sn := by
  induction fn using Nat.strongRecOn generalizing sn with
  | ind fn ih =>
      rw [shiftOnes, MerkleTree.dropOnes]
      split
      next hodd => exact ih _ (by omega) _
      next => rfl

theorem shiftZeros_eq (fn sn : ℕ) : shiftZeros fn sn = MerkleTree.dropZeros fn sn := by
  induction fn using Nat.strongRecOn generalizing sn with
  | ind fn ih =>
      rw [shiftZeros, MerkleTree.dropZeros]
      by_cases h : ¬ fn % 2 = 1 ∧ fn > 0
      · rw [if_pos h, if_pos (by omega), ih _ (by omega)]
      · rw [if_neg h, if_neg (by omega)]

/-- The verifier's loop accepts when every node is a digest and the library's
climb ends at the two roots. -/
theorem verifyLoop_iff {oldRoot newRoot : Bytes} {fn sn : ℕ} {fr sr : Bytes}
    {path : List Bytes} :
    verifyLoop oldRoot newRoot fn sn fr sr path = true ↔
      MerkleTree.walk nodeHash fn sn fr sr path = some (oldRoot, newRoot) ∧
        ∀ c ∈ path, c.length = hashSize := by
  induction path generalizing fn sn fr sr with
  | nil =>
      rw [verifyLoop, MerkleTree.walk]
      by_cases hsn : sn = 0 <;> simp [hsn]
  | cons c rest ih =>
      rw [verifyLoop, MerkleTree.walk]
      by_cases hsn : sn = 0
      · simp [hsn]
      rw [if_neg hsn, if_neg hsn]
      by_cases hc : c.length = hashSize
      · rw [if_neg (not_not.mpr hc), shiftZeros_eq, List.forall_mem_cons]
        split <;> rw [ih] <;> simp only [hc, true_and]
      · rw [if_pos hc, List.forall_mem_cons]
        simp [hc]

/-! ## Digests -/

/-- A list of leaf hashes: every entry has the length of a digest. -/
def AllDigests (L : List Bytes) : Prop := ∀ h ∈ L, h.length = hashSize

instance (L : List Bytes) : Decidable (AllDigests L) :=
  inferInstanceAs (Decidable (∀ h ∈ L, h.length = hashSize))

theorem AllDigests.take {L : List Bytes} (h : AllDigests L) (k : ℕ) :
    AllDigests (L.take k) := fun x hx => h x (List.mem_of_mem_take hx)

theorem AllDigests.drop {L : List Bytes} (h : AllDigests L) (k : ℕ) :
    AllDigests (L.drop k) := fun x hx => h x (List.mem_of_mem_drop hx)

theorem root_length {L : List Bytes} (h : AllDigests L) :
    (MerkleTree.root nodeHash emptyTreeHash L).length = hashSize := by
  induction L using MerkleTree.split_induction with
  | nil => rw [MerkleTree.root_nil, emptyTreeHash_length]
  | single a => rw [MerkleTree.root_singleton]; exact h a (by simp)
  | split L h2 _ _ => rw [MerkleTree.root_split _ _ h2, nodeHash_length]

theorem nodes_length {L : List Bytes} (h : AllDigests L) :
    ∀ q ∈ MerkleTree.nodes nodeHash emptyTreeHash L,
      q.1.length = hashSize ∧ q.2.length = hashSize := by
  induction L using MerkleTree.split_induction with
  | nil => simp [MerkleTree.nodes]
  | single a => simp [MerkleTree.nodes]
  | split L h2 ihl ihr =>
      rw [MerkleTree.nodes_split _ _ h2, List.forall_mem_cons, List.forall_mem_append]
      exact ⟨⟨root_length (h.take _), root_length (h.drop _)⟩, ihl (h.take _), ihr (h.drop _)⟩

theorem path_length {L : List Bytes} (h : AllDigests L) (i : ℕ) :
    AllDigests (MerkleTree.path nodeHash emptyTreeHash i L) := by
  induction L using MerkleTree.split_induction generalizing i with
  | nil => simp [AllDigests, MerkleTree.path]
  | single a => simp [AllDigests, MerkleTree.path]
  | split L h2 ihl ihr =>
      unfold AllDigests at ihl ihr ⊢
      by_cases hi : i < MerkleTree.splitPoint L.length
      · rw [MerkleTree.path_left _ _ h2 hi, List.forall_mem_append, List.forall_mem_singleton]
        exact ⟨ihl (h.take _) _, root_length (h.drop _)⟩
      · rw [MerkleTree.path_right _ _ h2 hi, List.forall_mem_append, List.forall_mem_singleton]
        exact ⟨ihr (h.drop _) _, root_length (h.take _)⟩

theorem subproof_length {L : List Bytes} (h : AllDigests L) (m : ℕ) (first : Bool) :
    AllDigests (MerkleTree.subproof nodeHash emptyTreeHash m L first) := by
  induction L using MerkleTree.split_induction generalizing m first with
  | nil =>
      rw [MerkleTree.subproof]
      split <;> [split; skip] <;> simp [AllDigests]
  | single a =>
      rw [MerkleTree.subproof]
      split <;> [split; skip] <;> simp [AllDigests, h a (by simp)]
  | split L h2 ihl ihr =>
      by_cases hm : m = L.length
      · rw [hm, MerkleTree.subproof_full]
        split <;> simp [AllDigests, root_length h]
      unfold AllDigests at ihl ihr ⊢
      by_cases hle : m ≤ MerkleTree.splitPoint L.length
      · rw [MerkleTree.subproof_left _ _ hm h2 hle, List.forall_mem_append,
          List.forall_mem_singleton]
        exact ⟨ihl (h.take _) _ _, root_length (h.drop _)⟩
      · rw [MerkleTree.subproof_right _ _ hm h2 hle, List.forall_mem_append,
          List.forall_mem_singleton]
        exact ⟨ihr (h.drop _) _ _, root_length (h.take _)⟩

/-! ## The strings that are hashed -/

/-- The string `node_hash` hashes. -/
def nodeInput (p : Bytes × Bytes) : Bytes := nodePrefix ++ p.1 ++ p.2

/-- The strings hashed for the root of `L`. -/
def treeInputs (L : List Bytes) : List Bytes :=
  (MerkleTree.nodes nodeHash emptyTreeHash L).map nodeInput

/-- The strings `_fold` hashes on `(x, i, n, path)`. -/
def inclusionInputs (x : Bytes) (i n : ℕ) (path : List Bytes) : List Bytes :=
  (MerkleTree.foldNodes nodeHash x i n path.reverse).map nodeInput

/-- The strings `_verify_consistency` hashes on `(m, n, path)`: the climb starts
from the old root, or from the first node of the proof. -/
def consistencyInputs (m n : ℕ) (oldRoot : Bytes) (path : List Bytes) : List Bytes :=
  let (fn, sn) := shiftOnes (m - 1) (n - 1)
  match path with
  | [] => []
  | first :: rest =>
      if fn > 0 then (MerkleTree.walkNodes nodeHash fn sn first first rest).map nodeInput
      else (MerkleTree.walkNodes nodeHash fn sn oldRoot oldRoot (first :: rest)).map nodeInput

/-- No two of the strings have one SHA-256 digest. -/
def CollisionFree (inputs : List Bytes) : Prop :=
  ∀ x ∈ inputs, ∀ y ∈ inputs, sha256 x = sha256 y → x = y

instance (inputs : List Bytes) : Decidable (CollisionFree inputs) :=
  inferInstanceAs (Decidable (∀ x ∈ inputs, ∀ y ∈ inputs, sha256 x = sha256 y → x = y))

/-- Where one child of `p` is a digest and both children of `q` are, the string
determines the pair. -/
theorem nodeInput_injective {p q : Bytes × Bytes}
    (hp : p.1.length = hashSize ∨ p.2.length = hashSize)
    (hq : q.1.length = hashSize ∧ q.2.length = hashSize) (h : nodeInput p = nodeInput q) :
    p = q := by
  obtain ⟨a, b⟩ := p
  obtain ⟨c, d⟩ := q
  dsimp only at hp hq
  rw [nodeInput, nodeInput, List.append_assoc, List.append_assoc] at h
  replace h : a ++ b = c ++ d := List.append_cancel_left h
  have hlen := congrArg List.length h
  rw [List.length_append, List.length_append] at hlen
  obtain ⟨hac, hbd⟩ := List.append_inj h (by omega)
  rw [hac, hbd]

/-- Absence of collisions makes the hashed pairs bind. -/
theorem binds_of_collisionFree {V T : List (Bytes × Bytes)} {inputs : List Bytes}
    (hfree : CollisionFree inputs) (hV : V.map nodeInput ⊆ inputs)
    (hT : T.map nodeInput ⊆ inputs)
    (hlenV : ∀ p ∈ V, p.1.length = hashSize ∨ p.2.length = hashSize)
    (hlenT : ∀ q ∈ T, q.1.length = hashSize ∧ q.2.length = hashSize) :
    MerkleTree.Binds nodeHash V T := by
  intro p hp q hq heq
  have hin : nodeInput p = nodeInput q :=
    hfree _ (hV (List.mem_map_of_mem hp)) _ (hT (List.mem_map_of_mem hq)) heq
  exact nodeInput_injective (hlenV p hp) (hlenT q hq) hin

theorem foldNodes_length {x : Bytes} {i n : ℕ} {p : List Bytes}
    (h : ∀ s ∈ p, s.length = hashSize) :
    ∀ q ∈ MerkleTree.foldNodes nodeHash x i n p,
      q.1.length = hashSize ∨ q.2.length = hashSize := by
  induction p generalizing i n with
  | nil => simp [MerkleTree.foldNodes]
  | cons s rest ih =>
      rw [List.forall_mem_cons] at h
      rw [MerkleTree.foldNodes]
      split
      next => simp
      next =>
        split <;> rw [List.forall_mem_append] <;> refine ⟨?_, ih h.2⟩ <;> intro q hq <;>
          simp only [Option.mem_toList, Option.map_eq_some_iff] at hq <;>
          obtain ⟨r, -, rfl⟩ := hq
        · exact Or.inr h.1
        · exact Or.inl h.1

theorem walkNodes_length {fn sn : ℕ} {fr sr : Bytes} {p : List Bytes}
    (h : ∀ c ∈ p, c.length = hashSize) :
    ∀ q ∈ MerkleTree.walkNodes nodeHash fn sn fr sr p,
      q.1.length = hashSize ∨ q.2.length = hashSize := by
  induction p generalizing fn sn fr sr with
  | nil => simp [MerkleTree.walkNodes]
  | cons c rest ih =>
      rw [List.forall_mem_cons] at h
      rw [MerkleTree.walkNodes]
      split
      next => simp
      next =>
        split
        next =>
          rw [List.forall_mem_cons, List.forall_mem_cons]
          exact ⟨Or.inl h.1, Or.inl h.1, ih h.2⟩
        next =>
          rw [List.forall_mem_cons]
          exact ⟨Or.inr h.1, ih h.2⟩

/-! ## Inclusion -/

theorem verifyInclusion_iff {L : List Bytes} {i : ℕ} {x : Bytes} {path : List Bytes}
    (hL : AllDigests L) (hi : i < L.length) :
    verifyInclusion i x path (mthFromLeafHashes L) L.length = true ↔
      x.length = hashSize ∧
        MerkleTree.foldTop nodeHash x i L.length path.reverse =
          some (MerkleTree.root nodeHash emptyTreeHash L) ∧
        ∀ s ∈ path, s.length = hashSize := by
  have hroot := root_length hL
  rw [verifyInclusion, if_neg (by omega), mthFromLeafHashes_eq]
  by_cases hx : x.length = hashSize
  · rw [if_neg (by simp [hx, hroot]), rootFromInclusion, if_neg (by omega),
      Int.toNat_natCast, Int.toNat_natCast, ← fold_eq_ok_iff (by omega)]
    cases fold x i L.length path with
    | error e => simp
    | ok r => simp [hx]
  · simp [hx]

/-- **The generated inclusion proof of every leaf is accepted.** -/
theorem inclusionPath_accepted {L : List Bytes} (hL : AllDigests L) {i : ℕ}
    (hi : i < L.length) :
    ∃ path, inclusionPath i L = .ok path ∧
      verifyInclusion i L[i] path (mthFromLeafHashes L) L.length = true := by
  refine ⟨_, inclusionPath_eq hi, (verifyInclusion_iff hL hi).mpr ⟨hL _ (by simp), ?_, ?_⟩⟩
  · exact MerkleTree.foldTop_path _ _ (List.getElem?_eq_getElem hi)
  · exact path_length hL i

/-- **An accepted inclusion proof is the generated one, for the leaf at its
index.**  The fold and the tree hash the strings that must not collide. -/
theorem inclusion_of_accepted {L : List Bytes} (hL : AllDigests L) {i : ℕ}
    (hi : i < L.length) {x : Bytes} {path : List Bytes}
    (hfree : CollisionFree (treeInputs L ++ inclusionInputs x i L.length path))
    (h : verifyInclusion i x path (mthFromLeafHashes L) L.length = true) :
    L[i]? = some x ∧ inclusionPath i L = .ok path := by
  obtain ⟨-, hfold, hlen⟩ := (verifyInclusion_iff hL hi).mp h
  have hb : MerkleTree.Binds nodeHash
      (MerkleTree.foldNodes nodeHash x i L.length path.reverse)
      (MerkleTree.nodes nodeHash emptyTreeHash L) :=
    binds_of_collisionFree hfree (List.subset_append_right _ _)
      (List.subset_append_left _ _)
      (foldNodes_length fun s hs => hlen s (List.mem_reverse.mp hs)) (nodes_length hL)
  obtain ⟨hleaf, hpath⟩ := MerkleTree.foldTop_sound _ hi hb hfold
  rw [List.reverse_reverse] at hpath
  exact ⟨hleaf, hpath ▸ inclusionPath_eq hi⟩

/-- **Inclusion proofs are complete and sound.**  Soundness holds wherever the
strings hashed for the tree and for the proof have no collision among them. -/
theorem inclusion_complete_and_sound (L : List Bytes) (hL : AllDigests L) (i : ℕ)
    (hi : i < L.length) :
    (∃ path, inclusionPath i L = .ok path ∧
      verifyInclusion i L[i] path (mthFromLeafHashes L) L.length = true) ∧
    ∀ x path, CollisionFree (treeInputs L ++ inclusionInputs x i L.length path) →
      verifyInclusion i x path (mthFromLeafHashes L) L.length = true →
      x = L[i] ∧ inclusionPath i L = .ok path := by
  refine ⟨inclusionPath_accepted hL hi, fun x path hfree h => ?_⟩
  obtain ⟨hleaf, hpath⟩ := inclusion_of_accepted hL hi hfree h
  rw [List.getElem?_eq_getElem hi, Option.some_inj] at hleaf
  exact ⟨hleaf.symm, hpath⟩

theorem inclusion_complete_and_sound_three :
    (∃ path, inclusionPath 1 [leafHash [0], leafHash [1], leafHash [2]] = .ok path ∧
      verifyInclusion 1 (leafHash [1]) path
        (mthFromLeafHashes [leafHash [0], leafHash [1], leafHash [2]]) 3 = true) ∧
    leafHash [1] = [leafHash [0], leafHash [1], leafHash [2]][1] ∧
      inclusionPath 1 [leafHash [0], leafHash [1], leafHash [2]] =
        .ok [leafHash [0], leafHash [2]] :=
  (inclusion_complete_and_sound [leafHash [0], leafHash [1], leafHash [2]]
    (by decide +kernel) 1 (by decide)).imp id
    fun sound => sound (leafHash [1]) [leafHash [0], leafHash [2]]
      (by decide +kernel) (by decide +kernel)

/-! ## Consistency -/

/-- The verifier between two nonempty sizes: an accepted proof is the start hash
of the climb, unless that is the old root, and the nodes of a climb that ends at
the two roots. -/
theorem verifyConsistencyAux_iff {oldSize newSize : ℕ} (hne : oldSize ≠ newSize)
    {oldRoot newRoot : Bytes} {path : List Bytes} :
    verifyConsistencyAux oldSize newSize oldRoot newRoot path = true ↔
      ∃ v cs,
        path = (if (shiftOnes (oldSize - 1) (newSize - 1)).1 = 0 then [] else [v]) ++ cs ∧
        ((shiftOnes (oldSize - 1) (newSize - 1)).1 = 0 → v = oldRoot ∧ cs ≠ []) ∧
        MerkleTree.walk nodeHash (shiftOnes (oldSize - 1) (newSize - 1)).1
          (shiftOnes (oldSize - 1) (newSize - 1)).2 v v cs = some (oldRoot, newRoot) ∧
        ∀ c ∈ cs, c.length = hashSize := by
  rw [verifyConsistencyAux, if_neg hne]
  generalize shiftOnes (oldSize - 1) (newSize - 1) = s
  obtain ⟨fn, sn⟩ := s
  by_cases hfn : fn = 0
  · simp only [hfn, gt_iff_lt, lt_irrefl, if_false, if_true, List.nil_append]
    cases path with
    | nil => simp
    | cons first rest =>
        simp only [verifyLoop_iff]
        constructor
        · rintro ⟨hwalk, hlen⟩
          exact ⟨oldRoot, _, rfl, fun _ => ⟨rfl, by simp⟩, hwalk, hlen⟩
        · rintro ⟨v, cs, rfl, hv, hwalk, hlen⟩
          obtain ⟨rfl, -⟩ := hv trivial
          exact ⟨hwalk, hlen⟩
  · simp only [hfn, if_false, show fn > 0 by omega, if_true, List.singleton_append]
    cases path with
    | nil => simp
    | cons first rest =>
        simp only [verifyLoop_iff]
        constructor
        · rintro ⟨hwalk, hlen⟩
          exact ⟨first, rest, rfl, fun h => h.elim, hwalk, hlen⟩
        · rintro ⟨v, cs, hpath, -, hwalk, hlen⟩
          obtain ⟨rfl, rfl⟩ := List.cons.inj hpath
          exact ⟨hwalk, hlen⟩

/-- **The generated consistency proof is accepted, at every pair of sizes.** -/
theorem consistencyPath_accepted (L : List Bytes) (hL : AllDigests L) (m : ℕ)
    (hm : m ≤ L.length) :
    ∃ path, consistencyPath m L = .ok path ∧
      verifyConsistency m L.length (mthFromLeafHashes (L.take m)) (mthFromLeafHashes L)
        path = true := by
  rcases Nat.eq_zero_or_pos m with rfl | hpos
  · refine ⟨[], by rw [consistencyPath, if_neg (by omega), if_pos (by simp)], ?_⟩
    rw [verifyConsistency, if_neg (by omega)]
    split
    next hlen =>
      rw [List.length_eq_zero_iff.mp (by omega : L.length = 0)]
      simp
    next => simp
  rcases hm.eq_or_lt with rfl | hlt
  · refine ⟨[], by rw [consistencyPath, if_neg (by omega), if_pos (by simp)], ?_⟩
    rw [verifyConsistency, if_neg (by omega), if_pos rfl, List.take_length]
    simp
  · refine ⟨_, consistencyPath_eq hpos hlt, ?_⟩
    rw [verifyConsistency, if_neg (by omega), if_neg (by omega), if_neg (by omega),
      if_neg (by omega), mthFromLeafHashes_eq, mthFromLeafHashes_eq,
      if_neg (by simp [root_length hL, root_length (hL.take m)]), Int.toNat_natCast,
      Int.toNat_natCast, verifyConsistencyAux_iff (by omega), shiftOnes_eq]
    obtain ⟨cs, v, hproof, hstart, hwalk⟩ :=
      MerkleTree.consistency_complete nodeHash emptyTreeHash hpos hlt
    refine ⟨v, cs, hproof, hstart, hwalk, fun c hc => subproof_length hL m true c ?_⟩
    rw [hproof]
    exact List.mem_append_right _ hc

theorem consistencyPath_accepted_two_three :
    ∃ path, consistencyPath 2 [leafHash [0], leafHash [1], leafHash [2]] = .ok path ∧
      verifyConsistency 2 3 (mthFromLeafHashes [leafHash [0], leafHash [1]])
        (mthFromLeafHashes [leafHash [0], leafHash [1], leafHash [2]]) path = true :=
  consistencyPath_accepted [leafHash [0], leafHash [1], leafHash [2]]
    (by decide +kernel) 2 (by decide)

/-- **Consistency proofs are append-only.**  An accepted proof between the roots
of two lists of leaf hashes shows that the older list is a prefix of the newer,
wherever the strings hashed for both trees and for the proof have no collision
among them. -/
theorem prefix_of_verifyConsistency (A B : List Bytes) (hA : AllDigests A)
    (hB : AllDigests B) (hpos : 1 ≤ A.length) (hle : A.length ≤ B.length)
    (path : List Bytes)
    (hfree : CollisionFree (treeInputs A ++ treeInputs B ++
      consistencyInputs A.length B.length (mthFromLeafHashes A) path))
    (h : verifyConsistency A.length B.length (mthFromLeafHashes A) (mthFromLeafHashes B)
      path = true) :
    A = B.take A.length := by
  have htrees : MerkleTree.Binds nodeHash (MerkleTree.nodes nodeHash emptyTreeHash A)
      (MerkleTree.nodes nodeHash emptyTreeHash B) :=
    binds_of_collisionFree hfree (by simp [treeInputs]) (by simp [treeInputs])
      (fun p hp => Or.inl (nodes_length hA p hp).1) (nodes_length hB)
  rw [mthFromLeafHashes_eq] at hfree h
  rw [mthFromLeafHashes_eq] at h
  rw [verifyConsistency, if_neg (by omega)] at h
  by_cases heq : A.length = B.length
  · -- equal sizes: the roots are compared, and no proof is needed
    rw [if_pos (by omega), Bool.and_eq_true, beq_iff_eq] at h
    rw [heq, List.take_length]
    exact MerkleTree.root_injective _ heq htrees h.1
  · rw [if_neg (by omega), if_neg (by omega), if_neg (by omega),
      if_neg (by simp [root_length hA, root_length hB]), Int.toNat_natCast,
      Int.toNat_natCast, verifyConsistencyAux_iff heq] at h
    obtain ⟨v, cs, hpath, hstart, hwalk, hlen⟩ := h
    have hinputs : (MerkleTree.walkNodes nodeHash
        (shiftOnes (A.length - 1) (B.length - 1)).1
        (shiftOnes (A.length - 1) (B.length - 1)).2 v v cs).map nodeInput =
        consistencyInputs A.length B.length (MerkleTree.root nodeHash emptyTreeHash A)
          path := by
      rw [consistencyInputs, hpath]
      generalize shiftOnes (A.length - 1) (B.length - 1) = s at hstart ⊢
      obtain ⟨fn, sn⟩ := s
      by_cases hfn : fn = 0
      · obtain ⟨rfl, hcs⟩ := hstart hfn
        obtain ⟨c, rest, rfl⟩ := List.exists_cons_of_ne_nil hcs
        simp [hfn]
      · simp [hfn, show 0 < fn by omega]
    rw [← hinputs, shiftOnes_eq] at hfree
    rw [shiftOnes_eq] at hwalk
    refine MerkleTree.consistency_sound _ hpos hle htrees ?_ ?_ hwalk
    · exact binds_of_collisionFree hfree (by simp) (by simp [treeInputs])
        (walkNodes_length hlen) (nodes_length hA)
    · exact binds_of_collisionFree hfree (by simp) (by simp [treeInputs])
        (walkNodes_length hlen) (nodes_length hB)

theorem prefix_of_verifyConsistency_two_three :
    [leafHash [0], leafHash [1]] = [leafHash [0], leafHash [1], leafHash [2]].take 2 :=
  prefix_of_verifyConsistency [leafHash [0], leafHash [1]]
    [leafHash [0], leafHash [1], leafHash [2]] (by decide +kernel) (by decide +kernel)
    (by decide) (by decide) [leafHash [2]] (by decide +kernel) (by decide +kernel)

end Signal402.Merkle
