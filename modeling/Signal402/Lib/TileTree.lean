import Signal402.Lib.MerkleTree

/-!
# Tiles of a Merkle tree

A tree over a list of leaf hashes is cut into tiles of `W` hashes: the hashes of
tile `n` at level `l` are the roots of consecutive blocks of `W ^ l` leaves.  At
every level a tree of `m` leaves has as many full tiles as fit, and a partial one
for the rest.

* `Required` — the tiles of a tree size.
* `Fits` — the leaves below a tile are there; tiles that a size requires fit.
* `tile` — the hashes of a tile; leaves that are added later do not change them.
-/

namespace TileTree

variable {α : Type*}

/-- The tile `n` of the width `w` at level `l` of a tree of `m` leaves: full, or the
partial one. -/
def Required (W m l n w : ℕ) : Prop :=
  W ^ l ≤ m ∧
    (w = W ∧ n < m / W ^ (l + 1) ∨ w = m / W ^ l % W ∧ w ≠ 0 ∧ n = m / W ^ (l + 1))

/-- All leaves below the tile are among the first `m`. -/
def Fits (W m l n w : ℕ) : Prop := (n * W + w) * W ^ l ≤ m

theorem Fits.mono {W m m' l n w : ℕ} (h : Fits W m l n w) (hm : m ≤ m') : Fits W m' l n w :=
  h.trans hm

/-- A tile that a size requires has its leaves in the tree. -/
theorem Required.fits {W m l n w : ℕ} (h : Required W m l n w) : Fits W m l n w := by
  obtain ⟨-, ⟨rfl, hn⟩ | ⟨rfl, -, rfl⟩⟩ := h
  · calc (n * w + w) * w ^ l = (n + 1) * w ^ (l + 1) := by ring
      _ ≤ m / w ^ (l + 1) * w ^ (l + 1) := Nat.mul_le_mul_right _ hn
      _ ≤ m := Nat.div_mul_le_self m _
  · calc (m / W ^ (l + 1) * W + m / W ^ l % W) * W ^ l
        = (m / W ^ l / W * W + m / W ^ l % W) * W ^ l := by
          rw [Nat.div_div_eq_div_mul, ← pow_succ]
      _ = m / W ^ l * W ^ l := by rw [Nat.div_add_mod']
      _ ≤ m := Nat.div_mul_le_self m _

theorem Required.width {W m l n w : ℕ} (hW : 0 < W) (h : Required W m l n w) :
    0 < w ∧ w ≤ W := by
  obtain ⟨-, ⟨rfl, -⟩ | ⟨rfl, hw, -⟩⟩ := h
  · exact ⟨hW, Nat.le_refl _⟩
  · exact ⟨Nat.pos_of_ne_zero hw, (Nat.mod_lt _ hW).le⟩

/-- Every leaf is below a tile of level 0. -/
theorem exists_required {W m i : ℕ} (hW : 0 < W) (hi : i < m) :
    ∃ n w, Required W m 0 n w ∧ n * W ≤ i ∧ i < n * W + w := by
  have hle : i / W * W ≤ i := Nat.div_mul_le_self i W
  have hlt : i < i / W * W + W := Nat.lt_div_mul_add hW
  by_cases hfull : i / W < m / W
  · refine ⟨i / W, W, ⟨?_, Or.inl ⟨rfl, ?_⟩⟩, hle, hlt⟩
    · rw [pow_zero]
      omega
    · rwa [Nat.zero_add, pow_one]
  · have hn : i / W = m / W :=
      Nat.le_antisymm (Nat.div_le_div_right hi.le) (Nat.not_lt.mp hfull)
    have hm : m / W * W + m % W = m := Nat.div_add_mod' m W
    rw [hn] at hle
    refine ⟨m / W, m % W, ⟨?_, Or.inr ⟨?_, by omega, ?_⟩⟩, hle, by omega⟩
    · rw [pow_zero]
      omega
    · rw [pow_zero, Nat.div_one]
    · rw [Nat.zero_add, pow_one]

section Hashes

variable (node : α → α → α) (empty : α) (W : ℕ)

/-- The leaves below hash `i` of tile `n` at level `l`. -/
def block (L : List α) (l n i : ℕ) : List α := (L.drop ((n * W + i) * W ^ l)).take (W ^ l)

/-- The hashes of a tile. -/
def tile (L : List α) (l n w : ℕ) : List α :=
  (List.range w).map fun i => MerkleTree.root node empty (block W L l n i)

variable {W}

/-- The block of a hash of a tile that fits ends inside the tree. -/
theorem block_end_le {m l n w i : ℕ} (h : Fits W m l n w) (hi : i < w) :
    (n * W + i) * W ^ l + W ^ l ≤ m := by
  calc (n * W + i) * W ^ l + W ^ l = (n * W + (i + 1)) * W ^ l := by ring
    _ ≤ (n * W + w) * W ^ l := Nat.mul_le_mul_right _ (by omega)
    _ ≤ m := h

/-- Leaves after the ones below a tile do not matter to it. -/
theorem tile_append {L L' : List α} {l n w : ℕ} (h : Fits W L.length l n w) :
    tile node empty W (L ++ L') l n w = tile node empty W L l n w := by
  refine List.map_congr_left fun i hi => ?_
  have hend := block_end_le h (List.mem_range.mp hi)
  rw [block, block, List.drop_append_of_le_length (by omega),
    List.take_append_of_le_length (by rw [List.length_drop]; omega)]

/-- A tile is a function of the leaves below it. -/
theorem tile_take {L : List α} {m l n w : ℕ} (h : Fits W m l n w) (hm : m ≤ L.length) :
    tile node empty W (L.take m) l n w = tile node empty W L l n w := by
  have hfits : Fits W (L.take m).length l n w := by rwa [List.length_take, Nat.min_eq_left hm]
  have happend : tile node empty W (L.take m ++ L.drop m) l n w = _ :=
    tile_append node empty hfits
  rwa [List.take_append_drop, eq_comm] at happend

end Hashes

end TileTree
