import Signal402.Base.Python
import Signal402.Lib.MerkleTree
import Signal402.Lib.Sha256

/-!
# The SHA-256 Merkle tree of the log (`pq/merkle.py`)

The functions of the module on byte strings, index ranges included, and their
agreement with the tree of `Signal402.Lib.MerkleTree` at `node := nodeHash`.

The recursive helpers take half-open ranges over one sequence, as the source's
inner functions do.  Sizes and indices that come from a caller are integers, so
that the source's sign checks are checks here too; inside the helpers they are
natural numbers.  `width` is at least one in every helper, which is why the
guard of `largest_power_of_two_less_than` never fires there.

The cached readers (`mthRange` and below) are written over an arbitrary monad,
because the source passes their storage as callables.
-/

namespace Signal402.Merkle

open Sha256

/-! ## Hashes -/

def hashSize : ℕ := 32

def leafPrefix : Bytes := [0x00]

def nodePrefix : Bytes := [0x01]

def emptyTreeHash : Bytes := sha256 []

def leafHash (entry : Bytes) : Bytes := sha256 (leafPrefix ++ entry)

/-- Both branches of the source hash the same string; its length test only
decides whether the children are copied first. -/
def nodeHash (left right : Bytes) : Bytes := sha256 (nodePrefix ++ left ++ right)

@[simp] theorem emptyTreeHash_length : emptyTreeHash.length = hashSize := sha256_length _

@[simp] theorem leafHash_length (entry : Bytes) : (leafHash entry).length = hashSize :=
  sha256_length _

@[simp] theorem nodeHash_length (left right : Bytes) :
    (nodeHash left right).length = hashSize :=
  sha256_length _

/-! ## The split -/

/-- The loop `while (k << 1) < n: k <<= 1`. -/
def doubleBelow (n k : ℕ) : ℕ :=
  if 0 < k ∧ k <<< 1 < n then doubleBelow n (k <<< 1) else k
termination_by n - k
decreasing_by
  rw [Nat.shiftLeft_eq] at *
  omega

def largestPowerOfTwoLessThan (n : ℕ) : Except PyError ℕ :=
  if n < 2 then .error (.valueError "n must be >= 2") else .ok (doubleBelow n 1)

theorem doubleBelow_two_pow {n j : ℕ} (h : 2 ^ j < n) :
    doubleBelow n (2 ^ j) = MerkleTree.splitPoint n := by
  induction hd : n - 2 ^ j using Nat.strongRecOn generalizing j with
  | ind d ih =>
      have hpos := Nat.two_pow_pos j
      have hshift : 2 ^ j <<< 1 = 2 ^ (j + 1) := by rw [Nat.shiftLeft_eq, pow_one, ← pow_succ]
      have hsucc : 2 ^ (j + 1) = 2 * 2 ^ j := by rw [pow_succ, Nat.mul_comm]
      rw [doubleBelow, hshift]
      split
      next hlt => exact ih (n - 2 ^ (j + 1)) (by omega) hlt.2 rfl
      next hge => exact (MerkleTree.splitPoint_eq h (by omega)).symm

/-- The loop finds the split point of the tree. -/
theorem doubleBelow_one {n : ℕ} (h : 2 ≤ n) : doubleBelow n 1 = MerkleTree.splitPoint n :=
  doubleBelow_two_pow (j := 0) (by rw [pow_zero]; omega)

theorem largestPowerOfTwoLessThan_eq {n : ℕ} (h : 2 ≤ n) :
    largestPowerOfTwoLessThan n = .ok (MerkleTree.splitPoint n) := by
  rw [largestPowerOfTwoLessThan, if_neg (by omega), doubleBelow_one h]

theorem doubleBelow_one_pos {n : ℕ} (h : 2 ≤ n) : 0 < doubleBelow n 1 := by
  rw [doubleBelow_one h]
  exact MerkleTree.splitPoint_pos n

theorem doubleBelow_one_lt {n : ℕ} (h : 2 ≤ n) : doubleBelow n 1 < n := by
  rw [doubleBelow_one h]
  exact MerkleTree.splitPoint_lt h

/-! ## Roots -/

/-- `_mth` of `mth_from_leaf_hashes`. -/
def mthAux (leafHashes : List Bytes) (getRange : ℕ → ℕ → Option Bytes)
    (start stop : ℕ) : Bytes :=
  match getRange start stop with
  | some cached => cached
  | none =>
      if _h : stop - start ≤ 1 then leafHashes.getD start []
      else
        nodeHash
          (mthAux leafHashes getRange start (start + doubleBelow (stop - start) 1))
          (mthAux leafHashes getRange (start + doubleBelow (stop - start) 1) stop)
termination_by stop - start
decreasing_by
  · have := doubleBelow_one_lt (n := stop - start) (by omega)
    omega
  · have := doubleBelow_one_pos (n := stop - start) (by omega)
    omega

/-- `mth_from_leaf_hashes`; no `get_range` is a lookup that always misses. -/
def mthFromLeafHashes (leafHashes : List Bytes)
    (getRange : ℕ → ℕ → Option Bytes := fun _ _ => none) : Bytes :=
  if leafHashes.length = 0 then emptyTreeHash
  else mthAux leafHashes getRange 0 leafHashes.length

/-- Merkle tree hash of raw entries. -/
def mth (entries : List Bytes) : Bytes := mthFromLeafHashes (entries.map leafHash)

/-! ## Inclusion proofs -/

/-- `_path` of `inclusion_path`. -/
def inclusionPathAux (leafHashes : List Bytes) (m start stop : ℕ) : List Bytes :=
  if _h : stop - start ≤ 1 then []
  else if m < start + doubleBelow (stop - start) 1 then
    inclusionPathAux leafHashes m start (start + doubleBelow (stop - start) 1) ++
      [mthFromLeafHashes (slice leafHashes (start + doubleBelow (stop - start) 1) stop)]
  else
    inclusionPathAux leafHashes m (start + doubleBelow (stop - start) 1) stop ++
      [mthFromLeafHashes (slice leafHashes start (start + doubleBelow (stop - start) 1))]
termination_by stop - start
decreasing_by
  · have := doubleBelow_one_lt (n := stop - start) (by omega)
    omega
  · have := doubleBelow_one_pos (n := stop - start) (by omega)
    omega

def inclusionPath (index : ℤ) (leafHashes : List Bytes) : Except PyError (List Bytes) :=
  if index < 0 ∨ index ≥ leafHashes.length then .error (.valueError "index out of range")
  else .ok (inclusionPathAux leafHashes index.toNat 0 leafHashes.length)

/-- `_fold` of `root_from_inclusion`; `leftover.pop()` takes the last sibling.
The guard that raises in `largest_power_of_two_less_than` also bounds the
recursion. -/
def fold (leafHashB : Bytes) (m n : ℕ) (leftover : List Bytes) : Except PyError Bytes :=
  if n = 1 then
    if leftover = [] then .ok leafHashB else .error (.valueError "path too long")
  else if _h : n < 2 then .error (.valueError "n must be >= 2")
  else
    match leftover.getLast? with
    | none => .error (.valueError "path too short")
    | some sib =>
        if sib.length ≠ hashSize then .error (.valueError "corrupt sibling")
        else if m < doubleBelow n 1 then
          (fold leafHashB m (doubleBelow n 1) leftover.dropLast).map
            fun left => nodeHash left sib
        else
          (fold leafHashB (m - doubleBelow n 1) (n - doubleBelow n 1) leftover.dropLast).map
            fun right => nodeHash sib right
termination_by n
decreasing_by
  · exact doubleBelow_one_lt (by omega)
  · have := doubleBelow_one_pos (n := n) (by omega)
    omega

def rootFromInclusion (index treeSize : ℤ) (leafHashB : Bytes) (path : List Bytes) :
    Except PyError Bytes :=
  if treeSize < 1 ∨ index < 0 ∨ index ≥ treeSize then
    .error (.valueError "index out of range")
  else fold leafHashB index.toNat treeSize.toNat path

/-- Every exception of `root_from_inclusion` is a `ValueError`, which the source
turns into `False`. -/
def verifyInclusion (index : ℤ) (leafHashB : Bytes) (path : List Bytes) (root : Bytes)
    (treeSize : ℤ) : Bool :=
  if treeSize < 1 ∨ index < 0 ∨ index ≥ treeSize then false
  else if leafHashB.length ≠ hashSize ∨ root.length ≠ hashSize then false
  else
    match rootFromInclusion index treeSize leafHashB path with
    | .ok computed => computed == root
    | .error _ => false

/-! ## Consistency proofs -/

/-- `subproof` of `consistency_path`. -/
def subproof (leafHashes : List Bytes) (m start stop : ℕ) (first : Bool) : List Bytes :=
  if m = stop - start then
    if first then [] else [mthFromLeafHashes (slice leafHashes start stop)]
  else if _h : stop - start < 2 then []
  else if m ≤ doubleBelow (stop - start) 1 then
    subproof leafHashes m start (start + doubleBelow (stop - start) 1) first ++
      [mthFromLeafHashes (slice leafHashes (start + doubleBelow (stop - start) 1) stop)]
  else
    subproof leafHashes (m - doubleBelow (stop - start) 1)
        (start + doubleBelow (stop - start) 1) stop false ++
      [mthFromLeafHashes (slice leafHashes start (start + doubleBelow (stop - start) 1))]
termination_by stop - start
decreasing_by
  · have := doubleBelow_one_lt (n := stop - start) (by omega)
    omega
  · have := doubleBelow_one_pos (n := stop - start) (by omega)
    omega

def consistencyPath (oldSize : ℤ) (leafHashes : List Bytes) : Except PyError (List Bytes) :=
  if oldSize < 0 ∨ oldSize > leafHashes.length then
    .error (.valueError "old_size out of range")
  else if oldSize = 0 ∨ oldSize = leafHashes.length then .ok []
  else if oldSize > leafHashes.length ∨ leafHashes.length < 1 then
    .error (.valueError "inconsistent sizes")
  else .ok (subproof leafHashes oldSize.toNat 0 leafHashes.length true)

/-- `while fn & 1: fn >>= 1; sn >>= 1`. -/
def shiftOnes (fn sn : ℕ) : ℕ × ℕ :=
  if fn % 2 = 1 then shiftOnes (fn / 2) (sn / 2) else (fn, sn)
termination_by fn
decreasing_by omega

/-- `while not (fn & 1) and fn > 0: fn >>= 1; sn >>= 1`. -/
def shiftZeros (fn sn : ℕ) : ℕ × ℕ :=
  if ¬ fn % 2 = 1 ∧ fn > 0 then shiftZeros (fn / 2) (sn / 2) else (fn, sn)
termination_by fn
decreasing_by omega

/-- The loop over the proof nodes, and the comparison after it. -/
def verifyLoop (oldRoot newRoot : Bytes) (fn sn : ℕ) (fr sr : Bytes) : List Bytes → Bool
  | [] => fr == oldRoot && sr == newRoot && sn == 0
  | c :: path =>
      if sn = 0 then false
      else if c.length ≠ hashSize then false
      else if fn % 2 = 1 ∨ fn = sn then
        verifyLoop oldRoot newRoot ((shiftZeros fn sn).1 / 2) ((shiftZeros fn sn).2 / 2)
          (nodeHash c fr) (nodeHash c sr) path
      else verifyLoop oldRoot newRoot (fn / 2) (sn / 2) fr (nodeHash sr c) path

/-- `_verify_consistency`.  The first node is taken as it comes: its length is
not looked at. -/
def verifyConsistencyAux (oldSize newSize : ℕ) (oldRoot newRoot : Bytes)
    (path : List Bytes) : Bool :=
  if oldSize = newSize then oldRoot == newRoot && path.isEmpty
  else
    let (fn, sn) := shiftOnes (oldSize - 1) (newSize - 1)
    match path with
    | [] => false
    | first :: rest =>
        if fn > 0 then verifyLoop oldRoot newRoot fn sn first first rest
        else verifyLoop oldRoot newRoot fn sn oldRoot oldRoot (first :: rest)

def verifyConsistency (oldSize newSize : ℤ) (oldRoot newRoot : Bytes)
    (path : List Bytes) : Bool :=
  if oldSize < 0 ∨ newSize < 0 ∨ oldSize > newSize then false
  else if oldSize = newSize then oldRoot == newRoot && path.length == 0
  else if oldSize = 0 then path.length == 0 && decide (newSize ≥ 0)
  else if oldSize < 1 ∨ newSize < 1 then false
  else if oldRoot.length ≠ hashSize ∨ newRoot.length ≠ hashSize then false
  else verifyConsistencyAux oldSize.toNat newSize.toNat oldRoot newRoot path

/-! ## Cached ranges -/

section Cached

variable {M : Type → Type} [Monad M] [MonadExceptOf PyError M]

/-- `mth_range`: the hash of leaves `start` to `stop`, from the cache where it has
the range, and stored into it otherwise. -/
def mthRange (getRange : ℕ → ℕ → M (Option Bytes))
    (storeRange : Option (ℕ → ℕ → Bytes → M Unit)) (leafAt : Option (ℕ → M Bytes))
    (start stop : ℕ) : M Bytes := do
  if stop < start then
    throw (PyError.valueError "invalid range")
  else if stop = start then
    return emptyTreeHash
  else
    match ← getRange start stop with
    | some cached => return cached
    | none =>
        let h ←
          if _h : stop - start ≤ 1 then
            match leafAt with
            | none => throw (PyError.valueError "missing leaf hash")
            | some leafAt => leafAt start
          else do
            let left ← mthRange getRange storeRange leafAt start
              (start + doubleBelow (stop - start) 1)
            let right ← mthRange getRange storeRange leafAt
              (start + doubleBelow (stop - start) 1) stop
            pure (nodeHash left right)
        match storeRange with
        | none => pure ()
        | some storeRange => storeRange start stop h
        return h
termination_by stop - start
decreasing_by
  · have := doubleBelow_one_lt (n := stop - start) (by omega)
    omega
  · have := doubleBelow_one_pos (n := stop - start) (by omega)
    omega

/-- `incremental_root`: append one leaf hash, and hash the grown tree. -/
def incrementalRoot (newSize : ℕ) (newLeafHash : Bytes)
    (getRange : ℕ → ℕ → M (Option Bytes)) (storeRange : ℕ → ℕ → Bytes → M Unit) :
    M Bytes := do
  if newSize < 1 then
    throw (PyError.valueError "new_size must be >= 1")
  else if newLeafHash.length ≠ hashSize then
    throw (PyError.valueError "leaf hash must be 32 bytes")
  else
    storeRange (newSize - 1) (newSize - 1 + 1) newLeafHash
    mthRange getRange (some storeRange) none 0 newSize

/-- `_path` of `inclusion_path_cached`. -/
def inclusionPathCachedAux (getRange : ℕ → ℕ → M (Option Bytes))
    (leafAt : Option (ℕ → M Bytes)) (storeRange : Option (ℕ → ℕ → Bytes → M Unit))
    (m start stop : ℕ) : M (List Bytes) :=
  if _h : stop - start ≤ 1 then pure []
  else if m < start + doubleBelow (stop - start) 1 then do
    let sib ← mthRange getRange storeRange leafAt
      (start + doubleBelow (stop - start) 1) stop
    let rest ← inclusionPathCachedAux getRange leafAt storeRange m start
      (start + doubleBelow (stop - start) 1)
    return rest ++ [sib]
  else do
    let sib ← mthRange getRange storeRange leafAt start
      (start + doubleBelow (stop - start) 1)
    let rest ← inclusionPathCachedAux getRange leafAt storeRange m
      (start + doubleBelow (stop - start) 1) stop
    return rest ++ [sib]
termination_by stop - start
decreasing_by
  · have := doubleBelow_one_lt (n := stop - start) (by omega)
    omega
  · have := doubleBelow_one_pos (n := stop - start) (by omega)
    omega

def inclusionPathCached (index treeSize : ℤ) (getRange : ℕ → ℕ → M (Option Bytes))
    (leafAt : Option (ℕ → M Bytes)) (storeRange : Option (ℕ → ℕ → Bytes → M Unit)) :
    M (List Bytes) :=
  if index < 0 ∨ index ≥ treeSize then throw (PyError.valueError "index out of range")
  else inclusionPathCachedAux getRange leafAt storeRange index.toNat 0 treeSize.toNat

/-- `subproof` of `consistency_path_cached`. -/
def subproofCached (getRange : ℕ → ℕ → M (Option Bytes))
    (leafAt : Option (ℕ → M Bytes)) (storeRange : Option (ℕ → ℕ → Bytes → M Unit))
    (m start stop : ℕ) (first : Bool) : M (List Bytes) :=
  if m = stop - start then
    if first then pure []
    else do
      let h ← mthRange getRange storeRange leafAt start stop
      return [h]
  else if _h : stop - start < 2 then pure []
  else if m ≤ doubleBelow (stop - start) 1 then do
    let rest ← subproofCached getRange leafAt storeRange m start
      (start + doubleBelow (stop - start) 1) first
    let h ← mthRange getRange storeRange leafAt
      (start + doubleBelow (stop - start) 1) stop
    return rest ++ [h]
  else do
    let rest ← subproofCached getRange leafAt storeRange
      (m - doubleBelow (stop - start) 1) (start + doubleBelow (stop - start) 1) stop false
    let h ← mthRange getRange storeRange leafAt start
      (start + doubleBelow (stop - start) 1)
    return rest ++ [h]
termination_by stop - start
decreasing_by
  · have := doubleBelow_one_lt (n := stop - start) (by omega)
    omega
  · have := doubleBelow_one_pos (n := stop - start) (by omega)
    omega

def consistencyPathCached (oldSize newSize : ℤ) (getRange : ℕ → ℕ → M (Option Bytes))
    (leafAt : Option (ℕ → M Bytes)) (storeRange : Option (ℕ → ℕ → Bytes → M Unit)) :
    M (List Bytes) :=
  if oldSize < 0 ∨ oldSize > newSize then
    throw (PyError.valueError "old_size out of range")
  else if oldSize = 0 ∨ oldSize = newSize then pure []
  else if newSize < 1 then throw (PyError.valueError "inconsistent sizes")
  else subproofCached getRange leafAt storeRange oldSize.toNat 0 newSize.toNat true

end Cached

end Signal402.Merkle
