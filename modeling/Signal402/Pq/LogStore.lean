import Signal402.Base.Effect
import Signal402.Pq.Tiles

/-!
# The transparency log in the store (`pq/store.py`)

The tables of the log as the process's one connection sees them, and the
functions that append to them, publish from them and read them.  Every function
of the source runs under the module's lock, so each is one step here.

A write statement opens a transaction on the connection and `commit` closes it;
`inTransaction` says whether one is open.  `leaves` lists the rows by `idx`:
`append` is the only writer of that table and inserts at `COUNT(*)`.  The hook
list is empty outside the tests, and file modes are not modelled.
-/

namespace Signal402.LogStore

open Merkle Tiles

/-- A row of `leaves`, at the position `idx`. -/
structure LeafRow where
  body : Bytes
  leafHash : Bytes

/-- The tables the log is kept in. -/
structure Log where
  leaves : List LeafRow := []
  treeHashes : ℕ → ℕ → Option Bytes := fun _ _ => none
  tiles : ℕ → ℕ → ℕ → Option Bytes := fun _ _ _ => none
  entryBundles : ℕ → ℕ → Option Bytes := fun _ _ => none
  /-- The row `size` of `meta`. -/
  metaSize : Option ℕ := none
  inTransaction : Bool := false

/-- The log of a new database. -/
def Log.empty : Log := {}

/-- The leaf hashes in the order of `idx`. -/
def Log.leafHashes (s : Log) : List Bytes := s.leaves.map (·.leafHash)

/-! ## Statements -/

def sizeUnlocked : Eff Log ℕ := .reads fun s => s.leaves.length

def cachedRange (start stop : ℕ) : Eff Log (Option Bytes) :=
  .reads fun s => s.treeHashes start stop

def storeRange (start stop : ℕ) (digest : Bytes) : Eff Log Unit :=
  .modifies fun s =>
    { s with
      treeHashes := fun a b => if a = start ∧ b = stop then some digest else s.treeHashes a b
      inTransaction := true }

def leafHashAtUnlocked (idx : ℕ) : Eff Log Bytes := do
  match ← .reads fun s => s.leaves[idx]? with
  | none => throw (PyError.valueError "missing leaf hash")
  | some row => return row.leafHash

def leafHashesUnlocked (treeSize : ℕ) : Eff Log (List Bytes) :=
  .reads fun s => s.leafHashes.take treeSize

def bodiesUnlocked (start stop : ℕ) : Eff Log (List Bytes) :=
  .reads fun s => (slice s.leaves start stop).map (·.body)

/-- `INSERT INTO leaves` at the index `COUNT(*)`. -/
def insertLeaf (raw digest : Bytes) : Eff Log Unit :=
  .modifies fun s =>
    { s with leaves := s.leaves ++ [⟨raw, digest⟩], inTransaction := true }

def setMetaSize (n : ℕ) : Eff Log Unit :=
  .modifies fun s => { s with metaSize := some n, inTransaction := true }

def storeEntryBundle (n width : ℕ) (data : Bytes) : Eff Log Unit :=
  .modifies fun s =>
    { s with
      entryBundles := fun n' w =>
        if n' = n ∧ w = width then some data else s.entryBundles n' w
      inTransaction := true }

def storeTile (level n width : ℕ) (data : Bytes) : Eff Log Unit :=
  .modifies fun s =>
    { s with
      tiles := fun l n' w =>
        if l = level ∧ n' = n ∧ w = width then some data else s.tiles l n' w
      inTransaction := true }

def commit : Eff Log Unit := .modifies fun s => { s with inTransaction := false }

/-! ## Publishing and appending -/

def publishUnlocked (treeSize : ℤ) : Eff Log Unit := do
  let have_ ← sizeUnlocked
  if treeSize < 0 ∨ treeSize > have_ then
    throw (PyError.valueError "publish size out of range")
  else
    let hashes ← leafHashesUnlocked treeSize.toNat
    (bundlesRequired treeSize.toNat).forM fun (n, width) => do
      let bodies ← bodiesUnlocked (n * tileWidth) (n * tileWidth + width)
      let data ← .ofExcept (encodeEntryBundle bodies)
      storeEntryBundle n width data
    (tilesRequired treeSize.toNat).forM fun (level, n, width) => do
      let th ← .ofExcept (tileHashesForLevel hashes level n width)
      let data ← .ofExcept (encodeHashTile th)
      storeTile level n width data
    commit

def publishUpTo (treeSize : ℤ) : Eff Log Unit := publishUnlocked treeSize

/-- Whether the blobs of a size are all there. -/
def readyUnlocked (target : ℤ) : Eff Log Bool := do
  let have_ ← sizeUnlocked
  if target < 0 ∨ target > have_ then return false
  else if target = 0 then return true
  else
    .reads fun s =>
      (bundlesRequired target.toNat).all (fun (n, width) => (s.entryBundles n width).isSome) &&
        (tilesRequired target.toNat).all fun (level, n, width) => (s.tiles level n width).isSome

/-- What `append` returns. -/
structure Appended where
  idx : ℕ
  leafHash : Bytes
  size : ℕ
  duplicate : Bool

def append (raw : Bytes) : Eff Log Appended := do
  let digest := leafHash raw
  match ← .reads fun s => s.leaves.findIdx? fun row => row.leafHash == digest with
  | some idx =>
      let size ← sizeUnlocked
      return ⟨idx, digest, size, true⟩
  | none =>
      let idx ← sizeUnlocked
      insertLeaf raw digest
      let newSize := idx + 1
      let _ ← incrementalRoot newSize digest cachedRange storeRange
      setMetaSize newSize
      commit
      publishUpTo newSize
      return ⟨idx, digest, newSize, false⟩

/-! ## Reading

Each reader is written over the lookup it consults, which is `cachedRange` in
the source; `cachedRangeOnly` is the lookup that fails where the cache has no
such range. -/

/-- `None` for a size means the current one. -/
def targetSize : Option ℤ → Eff Log ℤ
  | none => .reads fun s => s.leaves.length
  | some treeSize => pure treeSize

def readyToCheckpoint (treeSize : Option ℤ) : Eff Log Bool := do
  let target ← targetSize treeSize
  readyUnlocked target

def rootWith (getRange : ℕ → ℕ → Eff Log (Option Bytes)) (treeSize : Option ℤ) :
    Eff Log Bytes := do
  let target ← targetSize treeSize
  if target < 0 then throw (PyError.valueError "negative tree size")
  else if target = 0 then return emptyTreeHash
  else
    match ← getRange 0 target.toNat with
    | some cached => return cached
    | none => mthRange getRange (some storeRange) (some leafHashAtUnlocked) 0 target.toNat

def root (treeSize : Option ℤ) : Eff Log Bytes := rootWith cachedRange treeSize

def inclusionPathWith (getRange : ℕ → ℕ → Eff Log (Option Bytes)) (index : ℤ)
    (treeSize : Option ℤ) : Eff Log (List Bytes) := do
  let target ← targetSize treeSize
  inclusionPathCached index target getRange (some leafHashAtUnlocked) (some storeRange)

def inclusionPath (index : ℤ) (treeSize : Option ℤ) : Eff Log (List Bytes) :=
  inclusionPathWith cachedRange index treeSize

def consistencyPathWith (getRange : ℕ → ℕ → Eff Log (Option Bytes)) (oldSize : ℤ)
    (newSize : Option ℤ) : Eff Log (List Bytes) := do
  let target ← targetSize newSize
  consistencyPathCached oldSize target getRange (some leafHashAtUnlocked) (some storeRange)

def consistencyPath (oldSize : ℤ) (newSize : Option ℤ) : Eff Log (List Bytes) :=
  consistencyPathWith cachedRange oldSize newSize

/-- The lookup of the cache that refuses a range it has not got. -/
def cachedRangeOnly (start stop : ℕ) : Eff Log (Option Bytes) := do
  match ← cachedRange start stop with
  | some digest => return some digest
  | none => throw ⟨.keyError, "range not cached"⟩

end Signal402.LogStore
