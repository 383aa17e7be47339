import Signal402.Pq.LogStore
import Signal402.Pq.MerkleProofs

/-!
# The cached log is the plain tree

The cache of a log that was grown by `append` holds the hash of every range that
is a subtree at its present or at a past size, and nothing else (`Coherent`).
A read walks such ranges only, so it never misses: it returns what the plain
functions return and leaves the database alone.  `append` misses on the ranges
that end at the new leaf, and on no others, and stores all of them.

* `Hits` — the lookups a read may be given: all that find what the cache holds.
* `mthRange_fill` — what `incremental_root` adds to the cache.
* `Reaches` — the logs that appends and reads lead to.
-/

namespace Signal402.LogStore

open Merkle Tiles Eff
open MerkleTree (TreeRange rangeHash splitPoint)

/-- The cache holds exactly the ranges of the tree. -/
def Coherent (s : Log) : Prop :=
  s.treeHashes = rangeHash nodeHash emptyTreeHash s.leafHashes

/-- A lookup that finds what the cache holds. -/
def Hits (getRange : ℕ → ℕ → Eff Log (Option Bytes)) : Prop :=
  ∀ (s : Log) (a b : ℕ) (h : Bytes), s.treeHashes a b = some h →
    exec (getRange a b) s = (.ok (some h), s)

theorem hits_cachedRange : Hits cachedRange := by
  intro s a b h hcached
  rw [cachedRange, exec_reads, hcached]

theorem hits_cachedRangeOnly : Hits cachedRangeOnly := by
  intro s a b h hcached
  rw [cachedRangeOnly, exec_bind_ok (hits_cachedRange s a b h hcached)]
  rfl

/-! ## Reads -/

section Reads

variable {getRange : ℕ → ℕ → Eff Log (Option Bytes)} (hget : Hits getRange)
variable {s : Log} (hs : Coherent s)
include hget hs

/-- A range of the tree is found, whatever the source of missing leaves. -/
theorem mthRange_hit {a b : ℕ} (hr : TreeRange a b) (hb : b ≤ s.leafHashes.length)
    (store : Option (ℕ → ℕ → Bytes → Eff Log Unit)) (leafAt : Option (ℕ → Eff Log Bytes)) :
    exec (mthRange getRange store leafAt a b) s =
      (.ok (MerkleTree.root nodeHash emptyTreeHash (slice s.leafHashes a b)), s) := by
  have hcached := MerkleTree.rangeHash_of_range nodeHash emptyTreeHash hr hb
  rw [← hs] at hcached
  have hab := hr.1
  rw [mthRange, if_neg (by omega), if_neg (by omega), exec_bind_ok (hget s a b _ hcached)]
  rfl

theorem inclusionPathCachedAux_hit {m a b : ℕ} (hr : TreeRange a b)
    (hb : b ≤ s.leafHashes.length) (hm : a ≤ m) :
    exec (inclusionPathCachedAux getRange (some leafHashAtUnlocked) (some storeRange) m a b) s =
      (.ok (MerkleTree.path nodeHash emptyTreeHash (m - a) (slice s.leafHashes a b)), s) := by
  induction hw : b - a using Nat.strongRecOn generalizing a b with
  | ind w ih =>
      have hlen : (slice s.leafHashes a b).length = b - a := by
        rw [slice_length, Nat.min_eq_left hb]
      rw [inclusionPathCachedAux]
      by_cases hone : b - a ≤ 1
      · rw [dif_pos hone, MerkleTree.path_of_short _ _ (by omega)]
        rfl
      have hpos := MerkleTree.splitPoint_pos (b - a)
      have hlt := MerkleTree.splitPoint_lt (n := b - a) (by omega)
      have hleft := hr.left (by omega)
      have hright := hr.right (by omega)
      rw [dif_neg hone, doubleBelow_one (by omega)]
      by_cases hmk : m < a + splitPoint (b - a)
      · rw [if_pos hmk, exec_bind_ok (mthRange_hit hget hs hright hb _ _),
          exec_bind_ok (ih _ (by omega) hleft (by omega) hm rfl), exec_pure,
          MerkleTree.path_left (L := slice s.leafHashes a b) _ _ (by omega)
            (by rw [hlen]; omega), hlen,
          take_slice _ _ _ _ (by omega), drop_slice]
      · rw [if_neg hmk, exec_bind_ok (mthRange_hit hget hs hleft (by omega) _ _),
          exec_bind_ok (ih _ (by omega) hright hb (by omega) rfl), exec_pure,
          MerkleTree.path_right (L := slice s.leafHashes a b) _ _ (by omega)
            (by rw [hlen]; omega), hlen,
          take_slice _ _ _ _ (by omega), drop_slice, Nat.sub_sub]

theorem subproofCached_hit {m a b : ℕ} {first : Bool} (hr : TreeRange a b)
    (hb : b ≤ s.leafHashes.length) (hpos : 0 < m) (hm : m ≤ b - a) :
    exec (subproofCached getRange (some leafHashAtUnlocked) (some storeRange) m a b first) s =
      (.ok (MerkleTree.subproof nodeHash emptyTreeHash m (slice s.leafHashes a b) first), s) := by
  induction hw : b - a using Nat.strongRecOn generalizing m a b first with
  | ind w ih =>
      have hlen : (slice s.leafHashes a b).length = b - a := by
        rw [slice_length, Nat.min_eq_left hb]
      rw [subproofCached]
      by_cases hfull : m = b - a
      · rw [if_pos hfull, hfull, ← hlen, MerkleTree.subproof_full]
        cases first with
        | true => rfl
        | false =>
            simp only [Bool.false_eq_true, if_false]
            rw [exec_bind_ok (mthRange_hit hget hs hr hb _ _)]
            rfl
      have hsplit := MerkleTree.splitPoint_pos (b - a)
      have hlt := MerkleTree.splitPoint_lt (n := b - a) (by omega)
      have hleft := hr.left (by omega)
      have hright := hr.right (by omega)
      rw [if_neg hfull, dif_neg (by omega), doubleBelow_one (by omega)]
      by_cases hmk : m ≤ splitPoint (b - a)
      · rw [if_pos hmk, exec_bind_ok (ih _ (by omega) hleft (by omega) hpos (by omega) rfl),
          exec_bind_ok (mthRange_hit hget hs hright hb _ _), exec_pure,
          MerkleTree.subproof_left (L := slice s.leafHashes a b) _ _ (by omega) (by omega)
            (by rw [hlen]; omega), hlen,
          take_slice _ _ _ _ (by omega), drop_slice]
      · rw [if_neg hmk,
          exec_bind_ok (ih _ (by omega) hright hb (by omega) (by omega) rfl),
          exec_bind_ok (mthRange_hit hget hs hleft (by omega) _ _), exec_pure,
          MerkleTree.subproof_right (L := slice s.leafHashes a b) _ _ (by omega) (by omega)
            (by rw [hlen]; omega), hlen,
          take_slice _ _ _ _ (by omega), drop_slice]

/-- The root of the first `m` leaves. -/
theorem rootWith_hit {m : ℕ} (hm : m ≤ s.leafHashes.length) :
    exec (rootWith getRange (some m)) s = (.ok (mthFromLeafHashes (s.leafHashes.take m)), s) := by
  rw [rootWith, exec_bind_ok (show exec (targetSize (some (m : ℤ))) s = (.ok m, s) from rfl),
    if_neg (by omega)]
  by_cases hzero : m = 0
  · rw [if_pos (by omega), hzero]
    rfl
  · have hcached := MerkleTree.rangeHash_of_range nodeHash emptyTreeHash
      (TreeRange.zero (n := m) (by omega)) hm
    rw [← hs, List.drop_zero] at hcached
    rw [if_neg (by omega), Int.toNat_natCast, exec_bind_ok (hget s 0 m _ hcached),
      mthFromLeafHashes_eq]
    rfl

theorem inclusionPathWith_hit (i : ℤ) {m : ℕ} (hm : m ≤ s.leafHashes.length) :
    exec (inclusionPathWith getRange i (some m)) s =
      (Merkle.inclusionPath i (s.leafHashes.take m), s) := by
  have hlen : (s.leafHashes.take m).length = m := by simp; omega
  rw [inclusionPathWith,
    exec_bind_ok (show exec (targetSize (some (m : ℤ))) s = (.ok m, s) from rfl),
    inclusionPathCached, Merkle.inclusionPath, hlen]
  by_cases hi : i < 0 ∨ i ≥ m
  · rw [if_pos hi, if_pos hi]
    rfl
  · rw [if_neg hi, if_neg hi, Int.toNat_natCast,
      inclusionPathCachedAux_hit hget hs (TreeRange.zero (by omega)) hm (Nat.zero_le _),
      inclusionPathAux_eq (Nat.zero_le _) hlen.ge (Nat.zero_le _), slice_take_zero]

theorem consistencyPathWith_hit (m : ℤ) {n : ℕ} (hn : n ≤ s.leafHashes.length) :
    exec (consistencyPathWith getRange m (some n)) s =
      (Merkle.consistencyPath m (s.leafHashes.take n), s) := by
  have hlen : (s.leafHashes.take n).length = n := by simp; omega
  rw [consistencyPathWith,
    exec_bind_ok (show exec (targetSize (some (n : ℤ))) s = (.ok n, s) from rfl),
    consistencyPathCached, Merkle.consistencyPath, hlen]
  by_cases hrange : m < 0 ∨ m > n
  · rw [if_pos hrange, if_pos hrange]
    rfl
  by_cases htrivial : m = 0 ∨ m = n
  · rw [if_neg hrange, if_neg hrange, if_pos htrivial, if_pos htrivial]
    rfl
  · rw [if_neg hrange, if_neg hrange, if_neg htrivial, if_neg htrivial, if_neg (by omega),
      if_neg (by omega), Int.toNat_natCast,
      subproofCached_hit hget hs (TreeRange.zero (by omega)) hn (by omega) (by omega),
      subproof_eq (Nat.zero_le _) hlen.ge, slice_take_zero]

end Reads

/-! ## Growing the cache -/

/-- The cache `t` with every range of `L` from leaf `a` on that ends at the last
leaf. -/
noncomputable def fill (t : ℕ → ℕ → Option Bytes) (L : List Bytes) (a : ℕ) :
    ℕ → ℕ → Option Bytes := fun x y =>
  if y = L.length ∧ a ≤ x then rangeHash nodeHash emptyTreeHash L x y else t x y

/-- The cache knows the tree up to the last leaf, and of the ranges that end at
the last leaf only the leaf itself. -/
structure Warm (s : Log) (L : List Bytes) : Prop where
  nonempty : 0 < L.length
  inTransaction : s.inTransaction = true
  old : ∀ x y, y < L.length → s.treeHashes x y = rangeHash nodeHash emptyTreeHash L x y
  leaf : s.treeHashes (L.length - 1) L.length =
    rangeHash nodeHash emptyTreeHash L (L.length - 1) L.length
  fresh : ∀ x, x ≠ L.length - 1 → s.treeHashes x L.length = none

theorem Warm.hit {s : Log} {L : List Bytes} (h : Warm s L) {a b : ℕ} (hr : TreeRange a b)
    (hb : b < L.length ∨ a = L.length - 1 ∧ b = L.length) :
    s.treeHashes a b = some (MerkleTree.root nodeHash emptyTreeHash (slice L a b)) := by
  rcases hb with hb | ⟨rfl, rfl⟩
  · rw [h.old a b hb]
    exact MerkleTree.rangeHash_of_range _ _ hr hb.le
  · rw [h.leaf]
    exact MerkleTree.rangeHash_of_range _ _ hr le_rfl

/-- Only the leaf itself ends at the last leaf and starts there. -/
theorem Warm.fill_last {s : Log} {L : List Bytes} (h : Warm s L) :
    fill s.treeHashes L (L.length - 1) = s.treeHashes := by
  funext x y
  rw [fill]
  split
  next hxy =>
    rw [hxy.1]
    by_cases hx : x = L.length - 1
    · rw [hx, h.leaf]
    · rw [h.fresh x hx]
      exact MerkleTree.rangeHash_eq_none _ _ fun hr' => by have := hr'.1; omega
  next => rfl

/-- Between a range and its right half, no range ends at the last leaf. -/
theorem Warm.fill_step {s : Log} {L : List Bytes} (h : Warm s L) {a : ℕ}
    (hr : TreeRange a L.length) (hlast : a ≠ L.length - 1) :
    (fun x y => if x = a ∧ y = L.length then
        some (MerkleTree.root nodeHash emptyTreeHash (slice L a L.length))
      else fill s.treeHashes L (a + splitPoint (L.length - a)) x y) =
      fill s.treeHashes L a := by
  have hal := hr.1
  have hpos := MerkleTree.splitPoint_pos (L.length - a)
  have hlt := MerkleTree.splitPoint_lt (n := L.length - a) (by omega)
  funext x y
  simp only [fill]
  by_cases hy : y = L.length
  · subst hy
    rcases Nat.lt_trichotomy x a with hx | rfl | hx
    · rw [if_neg (by omega), if_neg (by omega), if_neg (by omega)]
    · rw [if_pos ⟨rfl, rfl⟩, if_pos ⟨rfl, le_rfl⟩]
      exact (MerkleTree.rangeHash_of_range _ _ hr le_rfl).symm
    · rw [if_neg (by omega)]
      by_cases hxk : a + splitPoint (L.length - a) ≤ x
      · rw [if_pos ⟨rfl, hxk⟩, if_pos ⟨rfl, hx.le⟩]
      · rw [if_neg (by omega), if_pos ⟨rfl, hx.le⟩, h.fresh x (by omega)]
        exact (MerkleTree.rangeHash_eq_none _ _
          fun hr' => absurd (hr.split_le hr' hx) hxk).symm
  · rw [if_neg (by omega), if_neg (by omega), if_neg (by omega)]

/-- **One pass over the ranges that end at the last leaf.**  The left half of
such a range is an old one and is found; the right half again ends at the last
leaf, and carries the induction. -/
theorem mthRange_fill {s : Log} {L : List Bytes} (h : Warm s L) {a : ℕ}
    (hr : TreeRange a L.length) :
    exec (mthRange cachedRange (some storeRange) none a L.length) s =
      (.ok (MerkleTree.root nodeHash emptyTreeHash (slice L a L.length)),
        { s with treeHashes := fill s.treeHashes L a }) := by
  have hal := hr.1
  induction hw : L.length - a using Nat.strongRecOn generalizing a with
  | ind w ih =>
      rw [mthRange, if_neg (by omega), if_neg (by omega)]
      by_cases hlast : a = L.length - 1
      · rw [exec_bind_ok (hits_cachedRange _ _ _ _ (h.hit hr (Or.inr ⟨hlast, rfl⟩))), hlast,
          h.fill_last]
        rfl
      · have hmiss : exec (cachedRange a L.length) s = (.ok none, s) := by
          rw [cachedRange, exec_reads, h.fresh a hlast]
        have hpos := MerkleTree.splitPoint_pos (L.length - a)
        have hlt := MerkleTree.splitPoint_lt (n := L.length - a) (by omega)
        have hleft : exec (mthRange cachedRange (some storeRange) none a
            (a + splitPoint (L.length - a))) s = (.ok (MerkleTree.root nodeHash emptyTreeHash
              (slice L a (a + splitPoint (L.length - a)))), s) := by
          have hhit := h.hit (hr.left (by omega)) (Or.inl (by omega))
          rw [mthRange, if_neg (by omega), if_neg (by omega),
            exec_bind_ok (hits_cachedRange _ _ _ _ hhit)]
          rfl
        have hright := ih _ (by omega) (hr.right (by omega)) (by omega) rfl
        have hlen : (slice L a L.length).length = L.length - a := by
          rw [slice_length, Nat.min_self]
        have hroot : nodeHash
            (MerkleTree.root nodeHash emptyTreeHash
              (slice L a (a + splitPoint (L.length - a))))
            (MerkleTree.root nodeHash emptyTreeHash
              (slice L (a + splitPoint (L.length - a)) L.length)) =
            MerkleTree.root nodeHash emptyTreeHash (slice L a L.length) := by
          rw [MerkleTree.root_split (L := slice L a L.length) _ _ (by omega), hlen,
            take_slice _ _ _ _ (by omega), drop_slice]
        rw [exec_bind_ok hmiss]
        dsimp only
        rw [dif_neg (by omega), doubleBelow_one (by omega), exec_bind_ok hleft,
          exec_bind_ok hright, exec_bind_ok (exec_pure _ _), hroot, storeRange,
          exec_bind_ok (exec_modifies _ _), exec_pure, h.fill_step hr hlast, h.inTransaction]

/-! ## Appending -/

/-- The rows that `append` inserted, one for each body. -/
def leafRow (body : Bytes) : LeafRow := ⟨body, leafHash body⟩

/-- The bodies of the log after `body` is appended: an append whose leaf hash is
there already adds nothing. -/
def logged (bodies : List Bytes) (body : Bytes) : List Bytes :=
  if leafHash body ∈ bodies.map leafHash then bodies else bodies ++ [body]

/-- The log holds the rows of `bodies` and the cache of their tree. -/
structure Holds (bodies : List Bytes) (s : Log) : Prop where
  leaves : s.leaves = bodies.map leafRow
  coherent : Coherent s

theorem Holds.leafHashes {bodies : List Bytes} {s : Log} (h : Holds bodies s) :
    s.leafHashes = bodies.map leafHash := by
  rw [Log.leafHashes, h.leaves, List.map_map]
  rfl

theorem holds_empty : Holds [] Log.empty := by
  refine ⟨rfl, ?_⟩
  funext a b
  exact (MerkleTree.rangeHash_eq_none _ _ fun hr => Nat.zero_lt_of_lt hr.1).symm

/-- A log with the same leaves and the same cache holds the same bodies. -/
theorem Holds.congr {bodies : List Bytes} {s s' : Log} (h : Holds bodies s)
    (heq : (s'.leaves, s'.treeHashes) = (s.leaves, s.treeHashes)) : Holds bodies s' := by
  obtain ⟨hleaves, hcache⟩ := Prod.mk.inj heq
  refine ⟨hleaves.trans h.leaves, ?_⟩
  rw [Coherent, hcache, Log.leafHashes, hleaves]
  exact h.coherent

/-- Inserting a leaf and its root makes the cache that of the longer log. -/
theorem incrementalRoot_holds {bodies : List Bytes} {s : Log} (h : Holds bodies s)
    (raw : Bytes) :
    ∃ s', exec (insertLeaf raw (leafHash raw) >>= fun _ =>
        incrementalRoot (bodies.length + 1) (leafHash raw) cachedRange storeRange) s =
        (.ok (mthFromLeafHashes ((bodies ++ [raw]).map leafHash)), s') ∧
      Holds (bodies ++ [raw]) s' ∧ s'.tiles = s.tiles ∧ s'.entryBundles = s.entryBundles := by
  set L := (bodies ++ [raw]).map leafHash with hL
  have hlenL : L.length = bodies.length + 1 := by simp [hL]
  have happ : L = s.leafHashes ++ [leafHash raw] := by rw [h.leafHashes, hL, List.map_append]; rfl
  have hlen : s.leafHashes.length = bodies.length := by rw [h.leafHashes, List.length_map]
  -- the state in which the new root is computed
  let s₁ : Log :=
    { s with
      leaves := s.leaves ++ [⟨raw, leafHash raw⟩]
      treeHashes := fun a b =>
        if a = bodies.length ∧ b = bodies.length + 1 then some (leafHash raw)
        else s.treeHashes a b
      inTransaction := true }
  have hwarm : Warm s₁ L := by
    refine ⟨by omega, rfl, fun x y hy => ?_, ?_, fun x hx => ?_⟩
    · change (if _ then _ else s.treeHashes x y) = _
      rw [if_neg (by omega), h.coherent, happ, MerkleTree.rangeHash_append _ _ (by omega)]
    · change (if _ then _ else s.treeHashes _ _) = _
      rw [if_pos (by omega), hlenL]
      have := MerkleTree.rangeHash_of_range nodeHash emptyTreeHash (L := L)
        (TreeRange.single bodies.length) (by omega)
      rw [Nat.add_sub_cancel, this, happ, List.take_of_length_le (by simp [hlen]),
        List.drop_append_of_le_length (by omega), List.drop_of_length_le (by omega)]
      simp
    · change (if _ then _ else s.treeHashes _ _) = _
      rw [if_neg (by omega), h.coherent]
      exact MerkleTree.rangeHash_eq_none _ _ fun _ => by omega
  have hrun := mthRange_fill hwarm (TreeRange.zero hwarm.nonempty)
  refine ⟨{ s₁ with treeHashes := fill s₁.treeHashes L 0 }, ?_, ⟨?_, ?_⟩, rfl, rfl⟩
  · rw [insertLeaf, exec_bind_ok (exec_modifies _ _), incrementalRoot, if_neg (by omega),
      if_neg (by simp), storeRange, exec_bind_ok (exec_modifies _ _), mthFromLeafHashes_eq]
    rw [slice_all] at hrun
    rw [← hlenL]
    simpa only [hlenL, Nat.add_sub_cancel] using hrun
  · change s.leaves ++ [leafRow raw] = _
    rw [h.leaves, List.map_append]
    rfl
  · rw [Coherent]
    have hleafHashes : ({ s₁ with treeHashes := fill s₁.treeHashes L 0 } : Log).leafHashes = L := by
      rw [happ]
      simp [Log.leafHashes, s₁]
    rw [hleafHashes]
    funext x y
    simp only [fill, Nat.zero_le, and_true]
    rcases Nat.lt_trichotomy y L.length with hy | hy | hy
    · rw [if_neg (by omega), hwarm.old x y hy]
    · rw [if_pos hy]
    · rw [if_neg (by omega), MerkleTree.rangeHash_eq_none _ _ fun _ => hy]
      change (if _ then _ else s.treeHashes x y) = _
      rw [if_neg (by omega), h.coherent]
      exact MerkleTree.rangeHash_eq_none _ _ fun _ => by omega

/-- `mth_range` found neither a cached range nor a stored leaf. -/
def missingLeafHash : PyError := .valueError "missing leaf hash"

/-- Publishing writes tiles and entry bundles only. -/
theorem publishUnlocked_leaves (treeSize : ℤ) :
    Leaves (fun s => (s.leaves, s.treeHashes)) (publishUnlocked treeSize) := by
  refine .bind (.reads _) fun size => ?_
  split
  · exact .throw _
  refine .bind (.reads _) fun hashes => .bind (.forM fun ⟨n, width⟩ => ?_) fun _ =>
    .bind (.forM fun ⟨level, n, width⟩ => ?_) fun _ => .modifies fun _ => rfl
  · exact .bind (.reads _) fun _ => .bind (.ofExcept _) fun _ => .modifies fun _ => rfl
  · exact .bind (.ofExcept _) fun _ => .bind (.ofExcept _) fun _ => .modifies fun _ => rfl

theorem encodeEntryBundle_error {entries : List Bytes} {e : PyError}
    (h : encodeEntryBundle entries = .error e) :
    e = .valueError "entry exceeds 65535 bytes" := by
  induction entries with
  | nil => cases h
  | cons raw rest ih =>
      rw [encodeEntryBundle] at h
      split at h
      · cases h
        rfl
      · exact ih (map_eq_error.mp h)

theorem publishUnlocked_raises (treeSize : ℤ) :
    RaisesOnly (· ≠ missingLeafHash) (publishUnlocked treeSize) := by
  refine .bind (.reads _) fun size => ?_
  split
  · exact .throw (by decide)
  refine .bind (.reads _) fun hashes => .bind (.forM fun ⟨n, width⟩ => ?_) fun _ =>
    .bind (.forM fun ⟨level, n, width⟩ => ?_) fun _ => .modifies _
  · refine .bind (.reads _) fun _ => .bind (.ofExcept fun e he => ?_) fun _ => .modifies _
    rw [encodeEntryBundle_error he]
    decide
  · refine .bind (.ofExcept fun e he => ?_) fun _ =>
      .bind (.ofExcept fun e he => ?_) fun _ => .modifies _
    · rw [tileHashesForLevel] at he
      split at he
      · cases he
        decide
      · obtain ⟨i, -, hi⟩ := exists_of_mapM_eq_error he
        split at hi <;> cases hi
        decide
    · rw [encodeHashTile] at he
      split at he
      · cases he
        decide
      · split at he <;> cases he
        decide

theorem findIdx?_leafRow {bodies : List Bytes} {raw : Bytes} :
    (bodies.map leafRow).findIdx? (fun row => row.leafHash == leafHash raw) = none ↔
      leafHash raw ∉ bodies.map leafHash := by
  rw [List.findIdx?_eq_none_iff, List.forall_mem_map]
  simp [leafRow]

/-- An append of a leaf that is there returns its index. -/
theorem append_found {bodies : List Bytes} {s : Log} (h : Holds bodies s) {raw : Bytes} {i : ℕ}
    (hi : (bodies.map leafRow).findIdx? (fun row => row.leafHash == leafHash raw) = some i) :
    exec (append raw) s = (.ok ⟨i, leafHash raw, bodies.length, true⟩, s) := by
  rw [append]
  dsimp only
  rw [exec_bind_ok (exec_reads _ _), h.leaves, hi]
  dsimp only
  rw [sizeUnlocked, exec_bind_ok (exec_reads _ _), h.leaves, List.length_map]
  rfl

theorem append_duplicate {bodies : List Bytes} {s : Log} (h : Holds bodies s) {raw : Bytes}
    (hdup : leafHash raw ∈ bodies.map leafHash) :
    ∃ i, exec (append raw) s = (.ok ⟨i, leafHash raw, bodies.length, true⟩, s) := by
  obtain ⟨i, hi⟩ := Option.ne_none_iff_exists'.mp (findIdx?_leafRow.not_left.mpr hdup)
  exact ⟨i, append_found h hi⟩

/-- An append of a new leaf commits it and its cache, then publishes. -/
theorem append_new {bodies : List Bytes} {s : Log} (h : Holds bodies s) {raw : Bytes}
    (hnew : leafHash raw ∉ bodies.map leafHash) :
    ∃ t, Holds (bodies ++ [raw]) t ∧
      (t.tiles = s.tiles ∧ t.entryBundles = s.entryBundles ∧ t.inTransaction = false) ∧
      exec (append raw) s = exec (publishUpTo (bodies.length + 1 : ℕ) >>= fun _ =>
        pure ⟨bodies.length, leafHash raw, bodies.length + 1, false⟩) t := by
  obtain ⟨s', hrun, hs', htiles, hbundles⟩ := incrementalRoot_holds h raw
  refine ⟨{ s' with metaSize := some (bodies.length + 1), inTransaction := false },
    hs'.congr rfl, ⟨htiles, hbundles, rfl⟩, ?_⟩
  have hsize : exec sizeUnlocked s = (.ok bodies.length, s) := by
    rw [sizeUnlocked, exec_reads, h.leaves, List.length_map]
  rw [append]
  dsimp only
  rw [exec_bind_ok (exec_reads _ _), h.leaves, findIdx?_leafRow.mpr hnew]
  dsimp only
  rw [exec_bind_ok hsize, ← bind_assoc, exec_bind_ok hrun, setMetaSize,
    exec_bind_ok (exec_modifies _ _), commit, exec_bind_ok (exec_modifies _ _)]

/-- **`append` keeps the cache of the tree**, and raises nothing but what
publishing raises. -/
theorem append_holds {bodies : List Bytes} {s : Log} (h : Holds bodies s) (raw : Bytes) :
    Holds (logged bodies raw) (exec (append raw) s).2 ∧
      (exec (append raw) s).1 ≠ .error missingLeafHash := by
  by_cases hdup : leafHash raw ∈ bodies.map leafHash
  · obtain ⟨i, hrun⟩ := append_duplicate h hdup
    rw [hrun, logged, if_pos hdup]
    exact ⟨h, by simp⟩
  obtain ⟨t, ht, -, hrun⟩ := append_new h hdup
  rw [hrun, logged, if_neg hdup]
  have hframe := publishUnlocked_leaves (bodies.length + 1 : ℕ) t
  have hraise := publishUnlocked_raises (bodies.length + 1 : ℕ) t
  rw [publishUpTo, exec_bind]
  generalize exec (publishUnlocked (bodies.length + 1 : ℕ)) t = r at hframe hraise
  obtain ⟨e | ⟨⟩, t'⟩ := r
  · refine ⟨ht.congr hframe, fun he => ?_⟩
    cases he
    exact hraise _ rfl rfl
  · exact ⟨ht.congr hframe, by simp⟩

/-! ## Runs -/

/-- The logs that are reached from an empty one by appending bodies and reading
at sizes up to the current one, with the bodies logged so far. -/
inductive Reaches : List Bytes → Log → Prop
  | empty : Reaches [] Log.empty
  | append {bodies : List Bytes} {s : Log} (h : Reaches bodies s) (raw : Bytes) :
      Reaches (logged bodies raw) (exec (append raw) s).2
  | root {bodies : List Bytes} {s : Log} (h : Reaches bodies s) (m : ℕ)
      (hm : m ≤ bodies.length) : Reaches bodies (exec (root (some m)) s).2
  | inclusionPath {bodies : List Bytes} {s : Log} (h : Reaches bodies s) (i : ℤ) (m : ℕ)
      (hm : m ≤ bodies.length) : Reaches bodies (exec (inclusionPath i (some m)) s).2
  | consistencyPath {bodies : List Bytes} {s : Log} (h : Reaches bodies s) (m : ℤ) (n : ℕ)
      (hn : n ≤ bodies.length) : Reaches bodies (exec (consistencyPath m (some n)) s).2

theorem Reaches.holds {bodies : List Bytes} {s : Log} (h : Reaches bodies s) :
    Holds bodies s := by
  induction h with
  | empty => exact holds_empty
  | append _ raw ih => exact (append_holds ih raw).1
  | root _ m hm ih =>
      rw [LogStore.root, rootWith_hit hits_cachedRange ih.coherent (by simp [ih.leafHashes, hm])]
      exact ih
  | inclusionPath _ i m hm ih =>
      rw [LogStore.inclusionPath,
        inclusionPathWith_hit hits_cachedRange ih.coherent i (by simp [ih.leafHashes, hm])]
      exact ih
  | consistencyPath _ m n hn ih =>
      rw [LogStore.consistencyPath,
        consistencyPathWith_hit hits_cachedRange ih.coherent m (by simp [ih.leafHashes, hn])]
      exact ih

/-- The reads through `getRange` return what the plain functions return on the
leaf hashes `L`, and leave the log as it is. -/
structure ReadsPlain (getRange : ℕ → ℕ → Eff Log (Option Bytes)) (L : List Bytes)
    (s : Log) : Prop where
  root : ∀ m ≤ L.length, exec (rootWith getRange (some (m : ℕ))) s =
    (.ok (mthFromLeafHashes (L.take m)), s)
  inclusion : ∀ i : ℤ, ∀ m ≤ L.length, exec (inclusionPathWith getRange i (some (m : ℕ))) s =
    (Merkle.inclusionPath i (L.take m), s)
  consistency : ∀ m : ℤ, ∀ n ≤ L.length,
    exec (consistencyPathWith getRange m (some (n : ℕ))) s =
      (Merkle.consistencyPath m (L.take n), s)

theorem Holds.readsPlain {bodies : List Bytes} {s : Log} (h : Holds bodies s)
    {getRange : ℕ → ℕ → Eff Log (Option Bytes)} (hget : Hits getRange) :
    ReadsPlain getRange (bodies.map leafHash) s := by
  rw [← h.leafHashes]
  exact ⟨fun m hm => rootWith_hit hget h.coherent hm,
    fun i m hm => inclusionPathWith_hit hget h.coherent i hm,
    fun m n hn => consistencyPathWith_hit hget h.coherent m hn⟩

theorem ReadsPlain.ne_missingLeafHash {getRange : ℕ → ℕ → Eff Log (Option Bytes)}
    {L : List Bytes} {s : Log} (h : ReadsPlain getRange L s) (i : ℤ) {m : ℕ}
    (hm : m ≤ L.length) :
    (exec (rootWith getRange (some m)) s).1 ≠ .error missingLeafHash ∧
      (exec (inclusionPathWith getRange i (some m)) s).1 ≠ .error missingLeafHash ∧
      (exec (consistencyPathWith getRange i (some m)) s).1 ≠ .error missingLeafHash := by
  rw [h.root m hm, h.inclusion i m hm, h.consistency i m hm]
  refine ⟨by simp, ?_, ?_⟩
  · rw [Merkle.inclusionPath]
    split <;> simp [missingLeafHash, PyError.valueError]
  · rw [Merkle.consistencyPath]
    split
    · simp [missingLeafHash, PyError.valueError]
    split
    · simp
    split <;> simp [missingLeafHash, PyError.valueError]

/-- **The cached log equals the plain tree.**  In every log that appends and
reads lead to, the rows are the logged bodies, every root is stored, the reads
return what the plain functions return and write nothing, also through a lookup
that refuses a range the cache has not got, and neither a read nor an append
misses a leaf hash. -/
theorem cached_log_eq_plain (bodies : List Bytes) (s : Log) (h : Reaches bodies s) :
    s.leafHashes = bodies.map leafHash ∧
    (∀ m, 1 ≤ m → m ≤ bodies.length →
      s.treeHashes 0 m = some (mthFromLeafHashes ((bodies.map leafHash).take m))) ∧
    ReadsPlain cachedRange (bodies.map leafHash) s ∧
    ReadsPlain cachedRangeOnly (bodies.map leafHash) s ∧
    (∀ (i : ℤ) (m : ℕ), m ≤ bodies.length →
      (exec (root (some m)) s).1 ≠ .error missingLeafHash ∧
      (exec (inclusionPath i (some m)) s).1 ≠ .error missingLeafHash ∧
      (exec (consistencyPath i (some m)) s).1 ≠ .error missingLeafHash) ∧
    ∀ raw, (exec (append raw) s).1 ≠ .error missingLeafHash := by
  have hs := h.holds
  have hplain := hs.readsPlain hits_cachedRange
  refine ⟨hs.leafHashes, fun m hpos hm => ?_, hplain, hs.readsPlain hits_cachedRangeOnly,
    fun i m hm => hplain.ne_missingLeafHash i (by simpa using hm),
    fun raw => (append_holds hs raw).2⟩
  rw [hs.coherent, hs.leafHashes, mthFromLeafHashes_eq]
  exact MerkleTree.rangeHash_of_range _ _ (TreeRange.zero hpos) (by simpa using hm)

theorem cached_log_eq_plain_two :
    (exec (append [1]) (exec (append [0]) Log.empty).2).2.leafHashes =
        [leafHash [0], leafHash [1]] ∧
      (exec (append [1]) (exec (append [0]) Log.empty).2).2.treeHashes 0 2 =
        some (nodeHash (leafHash [0]) (leafHash [1])) := by
  have hrun := (Reaches.empty.append [0]).append [1]
  have hbodies : logged (logged [] [0]) [1] = [[0], [1]] := by decide +kernel
  rw [hbodies] at hrun
  have hroot : mthFromLeafHashes [leafHash [0], leafHash [1]] =
      nodeHash (leafHash [0]) (leafHash [1]) := by decide +kernel
  obtain ⟨hleaves, hcache, -⟩ := cached_log_eq_plain [[0], [1]] _ hrun
  exact ⟨hleaves, (hcache 2 (by decide) (by decide)).trans (congrArg some hroot)⟩

end Signal402.LogStore
