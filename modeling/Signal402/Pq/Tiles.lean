import Signal402.Pq.Merkle

/-!
# Tiles and entry bundles (`pq/tiles.py`)

Which tiles and entry bundles a tree size needs, and their encodings.
-/

namespace Signal402.Tiles

open Merkle

def tileWidth : ℕ := 256

def maxEntryBytes : ℕ := 65535

def levelMax : ℕ := 63

/-- The tiles of one level: the full ones, and the partial one if there is any. -/
def tilesOfLevel (treeSize level span : ℕ) : List (ℕ × ℕ × ℕ) :=
  let full := treeSize / (span * tileWidth)
  let part := (treeSize / span) % tileWidth
  (List.range full).map (fun n => (level, n, tileWidth)) ++
    if part = 0 then [] else [(level, full, part)]

/-- The loop `while span <= tree_size` of `tiles_required`. -/
def tilesRequiredLoop (treeSize level span : ℕ) : List (ℕ × ℕ × ℕ) :=
  if _h : 0 < span ∧ span ≤ treeSize then
    tilesOfLevel treeSize level span ++
      if span > treeSize / tileWidth then []
      else if level + 1 > levelMax then []
      else tilesRequiredLoop treeSize (level + 1) (span * tileWidth)
  else []
termination_by treeSize + 1 - span
decreasing_by
  rw [tileWidth]
  omega

/-- `(level, n, width)` of the tiles that must exist before a checkpoint. -/
def tilesRequired (treeSize : ℕ) : List (ℕ × ℕ × ℕ) := tilesRequiredLoop treeSize 0 1

/-- `(n, width)` of the entry bundles that must exist before a checkpoint. -/
def bundlesRequired (treeSize : ℕ) : List (ℕ × ℕ) :=
  let full := treeSize / tileWidth
  let part := treeSize % tileWidth
  (List.range full).map (fun n => (n, tileWidth)) ++ if part = 0 then [] else [(full, part)]

/-- Each entry with its length in two bytes, big endian. -/
def encodeEntryBundle : List Bytes → Except PyError Bytes
  | [] => .ok []
  | raw :: rest =>
      if raw.length > maxEntryBytes then .error (.valueError "entry exceeds 65535 bytes")
      else (encodeEntryBundle rest).map fun out =>
        UInt8.ofNat (raw.length / 256) :: UInt8.ofNat (raw.length % 256) :: (raw ++ out)

def encodeHashTile (hashes : List Bytes) : Except PyError Bytes :=
  if hashes = [] ∨ hashes.length > tileWidth then
    .error (.valueError "tile must contain 1..256 hashes")
  else if hashes.all fun h => h.length == hashSize then .ok hashes.flatten
  else .error (.valueError "tile hash must be 32 bytes")

/-- Hashes of tile `n` at `level`, of the given width. -/
def tileHashesForLevel (leafHashes : List Bytes) (level n width : ℕ) :
    Except PyError (List Bytes) :=
  if width < 1 ∨ width > tileWidth then .error (.valueError "invalid tile width")
  else
    let span := tileWidth ^ level
    let start0 := n * tileWidth * span
    (List.range width).mapM fun i =>
      if start0 + i * span + span > leafHashes.length then
        .error (.valueError "tile exceeds tree")
      else .ok (mthFromLeafHashes
        (slice leafHashes (start0 + i * span) (start0 + i * span + span)))

end Signal402.Tiles
