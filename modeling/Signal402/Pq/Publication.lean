import Signal402.Lib.TileTree
import Signal402.Pq.CachedLog
import Signal402.Pq.MerkleProofs

/-!
# Publication of tiles and entry bundles

What `publish_up_to` stores, for the tile coordinates of `Signal402.Lib.TileTree`
at the width 256, and what every append and publication keeps of it.

* `mem_tilesRequired`, `mem_bundlesRequired` — the loops list the tiles of a size.
* `tileBytes`, `bundleBytes` — the blobs as functions of the log.
* `publishUnlocked_small` — a publication of bodies that fit their length field.
* `Published` — the invariant: every blob is the one of its coordinates.
-/

namespace Signal402.LogStore

open Eff Merkle Tiles TileTree

/-! ## Coordinates -/

theorem mem_tilesOfLevel {m level span l n w : ℕ} :
    (l, n, w) ∈ tilesOfLevel m level span ↔
      l = level ∧ (w = tileWidth ∧ n < m / (span * tileWidth) ∨
        w = m / span % tileWidth ∧ w ≠ 0 ∧ n = m / (span * tileWidth)) := by
  rw [tilesOfLevel, List.mem_append, List.mem_map]
  constructor
  · rintro (⟨n', hn', heq⟩ | hpart)
    · cases heq
      exact ⟨rfl, Or.inl ⟨rfl, List.mem_range.mp hn'⟩⟩
    · split at hpart
      · exact absurd hpart List.not_mem_nil
      next hne =>
        cases List.mem_singleton.mp hpart
        exact ⟨rfl, Or.inr ⟨rfl, hne, rfl⟩⟩
  · rintro ⟨rfl, ⟨rfl, hn⟩ | ⟨rfl, hne, rfl⟩⟩
    · exact Or.inl ⟨n, List.mem_range.mpr hn, rfl⟩
    · right
      rw [if_neg hne]
      exact List.mem_cons_self

/-- The loop lists the required tiles from its level on, up to `LEVEL_MAX`. -/
theorem mem_tilesRequiredLoop {m level l n w : ℕ} (hlevel : level ≤ levelMax) :
    (l, n, w) ∈ tilesRequiredLoop m level (tileWidth ^ level) ↔
      level ≤ l ∧ l ≤ levelMax ∧ Required tileWidth m l n w := by
  induction hd : levelMax - level using Nat.strongRecOn generalizing level with
  | ind d ih =>
      have hspan : 0 < tileWidth ^ level := Nat.pow_pos (by decide)
      rw [tilesRequiredLoop]
      by_cases hle : tileWidth ^ level ≤ m
      · -- what the rest of the loop adds, whichever way it ends
        have hrest : (l, n, w) ∈ (if tileWidth ^ level > m / tileWidth then []
              else if level + 1 > levelMax then []
              else tilesRequiredLoop m (level + 1) (tileWidth ^ level * tileWidth)) ↔
            level + 1 ≤ l ∧ l ≤ levelMax ∧ Required tileWidth m l n w := by
          split
          next hlast =>
            refine ⟨fun h => absurd h List.not_mem_nil, fun ⟨hl, _, hreq⟩ => ?_⟩
            have hpow : tileWidth ^ (level + 1) ≤ m :=
              (Nat.pow_le_pow_right (by decide) hl).trans hreq.1
            rw [pow_succ] at hpow
            exact absurd ((Nat.le_div_iff_mul_le (by decide)).mpr hpow) (Nat.not_le.mpr hlast)
          · split
            · exact ⟨fun h => absurd h List.not_mem_nil, fun ⟨hl, hmax, _⟩ => by omega⟩
            · rw [← pow_succ]
              exact ih _ (by omega) (by omega) rfl
        rw [dif_pos ⟨hspan, hle⟩, List.mem_append, mem_tilesOfLevel, hrest, ← pow_succ]
        constructor
        · rintro (⟨rfl, htile⟩ | ⟨hl, hmax, hreq⟩)
          · exact ⟨Nat.le_refl _, hlevel, hle, htile⟩
          · exact ⟨by omega, hmax, hreq⟩
        · rintro ⟨hl, hmax, hreq⟩
          rcases Nat.eq_or_lt_of_le hl with rfl | hlt
          · exact Or.inl ⟨rfl, hreq.2⟩
          · exact Or.inr ⟨hlt, hmax, hreq⟩
      · rw [dif_neg fun h => hle h.2]
        refine ⟨fun h => absurd h List.not_mem_nil, fun ⟨hl, _, hreq⟩ => ?_⟩
        exact absurd ((Nat.pow_le_pow_right (by decide) hl).trans hreq.1) hle

theorem required_of_mem_tilesRequired {m l n w : ℕ} (h : (l, n, w) ∈ tilesRequired m) :
    Required tileWidth m l n w :=
  ((mem_tilesRequiredLoop (Nat.zero_le _)).mp h).2.2

/-- Below `256 ^ 64` leaves the listed tiles are the required ones. -/
theorem mem_tilesRequired {m l n w : ℕ} (hm : m < tileWidth ^ (levelMax + 1)) :
    (l, n, w) ∈ tilesRequired m ↔ Required tileWidth m l n w := by
  refine ⟨required_of_mem_tilesRequired, fun h => ?_⟩
  refine (mem_tilesRequiredLoop (Nat.zero_le _)).mpr ⟨Nat.zero_le _, ?_, h⟩
  have hlt := (Nat.pow_lt_pow_iff_right (by decide)).mp (h.1.trans_lt hm)
  omega

/-- The bundles are cut like the tiles of level 0. -/
theorem mem_bundlesRequired {m n w : ℕ} :
    (n, w) ∈ bundlesRequired m ↔ Required tileWidth m 0 n w := by
  rw [bundlesRequired, List.mem_append, List.mem_map, Required, pow_zero, Nat.div_one,
    show tileWidth ^ (0 + 1) = tileWidth from rfl]
  constructor
  · rintro (⟨n', hn', heq⟩ | hpart)
    · cases heq
      have hn := List.mem_range.mp hn'
      have hpos : 0 < m := by
        by_contra hzero
        rw [Nat.eq_zero_of_not_pos hzero, Nat.zero_div] at hn
        exact Nat.not_lt_zero _ hn
      exact ⟨hpos, Or.inl ⟨rfl, hn⟩⟩
    · split at hpart
      · exact absurd hpart List.not_mem_nil
      next hne =>
        cases List.mem_singleton.mp hpart
        refine ⟨Nat.pos_of_ne_zero ?_, Or.inr ⟨rfl, hne, rfl⟩⟩
        rintro rfl
        exact hne (Nat.zero_mod _)
  · rintro ⟨-, ⟨rfl, hn⟩ | ⟨rfl, hne, rfl⟩⟩
    · exact Or.inl ⟨n, List.mem_range.mpr hn, rfl⟩
    · right
      rw [if_neg hne]
      exact List.mem_cons_self

/-! ## Blobs -/

/-- An entry of a bundle: its length in two bytes, then its bytes. -/
def entryBytes (raw : Bytes) : Bytes :=
  UInt8.ofNat (raw.length / 256) :: UInt8.ofNat (raw.length % 256) :: raw

/-- The entry bundle `n` of the width `w` of a log. -/
def bundleBytes (bodies : List Bytes) (n w : ℕ) : Bytes :=
  (slice bodies (n * tileWidth) (n * tileWidth + w)).flatMap entryBytes

/-- The hash tile `n` of the width `w` at level `l` of a log. -/
def tileBytes (L : List Bytes) (l n w : ℕ) : Bytes :=
  (tile nodeHash emptyTreeHash tileWidth L l n w).flatten

/-- All entries fit the length field. -/
def Small (entries : List Bytes) : Prop := ∀ raw ∈ entries, raw.length ≤ maxEntryBytes

instance (entries : List Bytes) : Decidable (Small entries) :=
  inferInstanceAs (Decidable (∀ raw ∈ entries, raw.length ≤ maxEntryBytes))

def oversized : PyError := .valueError "entry exceeds 65535 bytes"

theorem encodeEntryBundle_eq (entries : List Bytes) :
    encodeEntryBundle entries =
      if Small entries then .ok (entries.flatMap entryBytes) else .error oversized := by
  induction entries with
  | nil => rfl
  | cons raw rest ih =>
      rw [encodeEntryBundle, ih]
      by_cases hraw : raw.length > maxEntryBytes
      · rw [if_pos hraw, if_neg fun hsmall => ?_]
        · rfl
        · exact absurd (hsmall raw List.mem_cons_self) (Nat.not_le.mpr hraw)
      · have hcons : Small (raw :: rest) ↔ Small rest :=
          List.forall_mem_cons.trans (and_iff_right (Nat.not_lt.mp hraw))
        rw [if_neg hraw]
        by_cases hrest : Small rest
        · rw [if_pos hrest, if_pos (hcons.mpr hrest)]
          rfl
        · rw [if_neg hrest, if_neg fun hsmall => hrest (hcons.mp hsmall)]
          rfl

theorem small_slice {entries : List Bytes} (h : Small entries) (start stop : ℕ) :
    Small (slice entries start stop) :=
  fun raw hraw => h raw (List.mem_of_mem_take (List.mem_of_mem_drop hraw))

section Blobs

variable {L : List Bytes} {bodies : List Bytes} {l n w : ℕ}

/-- The code's tile hashes are the tile's; `tile exceeds tree` is for tiles that do
not fit. -/
theorem tileHashesForLevel_eq (hfits : Fits tileWidth L.length l n w)
    (hw : 0 < w ∧ w ≤ tileWidth) :
    tileHashesForLevel L l n w = .ok (tile nodeHash emptyTreeHash tileWidth L l n w) := by
  rw [tileHashesForLevel, if_neg (by omega)]
  refine mapM_eq_ok fun i hi => ?_
  have hend := block_end_le hfits (List.mem_range.mp hi)
  have hstart : n * tileWidth * tileWidth ^ l + i * tileWidth ^ l =
      (n * tileWidth + i) * tileWidth ^ l := by ring
  rw [hstart, if_neg (by omega), mthFromLeafHashes_eq, block, slice, List.drop_take,
    Nat.add_sub_cancel_left]

theorem allDigests_leafHash (bodies : List Bytes) : AllDigests (bodies.map leafHash) := by
  intro h hmem
  obtain ⟨body, -, rfl⟩ := List.mem_map.mp hmem
  exact leafHash_length body

theorem tile_digests (hL : AllDigests L) :
    AllDigests (tile nodeHash emptyTreeHash tileWidth L l n w) := by
  intro h hmem
  obtain ⟨i, -, rfl⟩ := List.mem_map.mp hmem
  exact root_length ((hL.drop _).take _)

theorem encodeHashTile_eq {hashes : List Bytes} (hdigests : AllDigests hashes)
    (hlen : 0 < hashes.length ∧ hashes.length ≤ tileWidth) :
    encodeHashTile hashes = .ok hashes.flatten := by
  have hne : hashes ≠ [] := List.length_pos_iff.mp hlen.1
  rw [encodeHashTile, if_neg fun h => h.elim hne (Nat.not_lt.mpr hlen.2), if_pos]
  exact List.all_eq_true.mpr fun h hmem => beq_iff_eq.mpr (hdigests h hmem)

/-- Entries after the ones of a bundle do not matter to it. -/
theorem bundleBytes_append {later : List Bytes} (h : Fits tileWidth bodies.length 0 n w) :
    bundleBytes (bodies ++ later) n w = bundleBytes bodies n w := by
  rw [Fits, pow_zero, Nat.mul_one] at h
  rw [bundleBytes, bundleBytes, slice, slice, List.take_append_of_le_length h]

theorem tileBytes_append {later : List Bytes} (h : Fits tileWidth L.length l n w) :
    tileBytes (L ++ later) l n w = tileBytes L l n w := by
  rw [tileBytes, tileBytes, tile_append _ _ h]

end Blobs

/-! ## One publication -/

/-- The step of the loop over the entry bundles. -/
def publishBundle (c : ℕ × ℕ) : Eff Log Unit := do
  let bodies ← bodiesUnlocked (c.1 * tileWidth) (c.1 * tileWidth + c.2)
  let data ← .ofExcept (encodeEntryBundle bodies)
  storeEntryBundle c.1 c.2 data

/-- The step of the loop over the hash tiles. -/
def publishTile (hashes : List Bytes) (c : ℕ × ℕ × ℕ) : Eff Log Unit := do
  let th ← .ofExcept (tileHashesForLevel hashes c.1 c.2.1 c.2.2)
  let data ← .ofExcept (encodeHashTile th)
  storeTile c.1 c.2.1 c.2.2 data

/-- The blobs of a size in range. -/
def publishBlobs (m : ℕ) : Eff Log Unit := do
  let hashes ← leafHashesUnlocked m
  (bundlesRequired m).forM publishBundle
  (tilesRequired m).forM (publishTile hashes)
  commit

theorem publishUnlocked_eq {s : Log} {m : ℕ} (hm : m ≤ s.leaves.length) :
    exec (publishUnlocked m) s = exec (publishBlobs m) s := by
  rw [publishUnlocked, sizeUnlocked, exec_bind_ok (exec_reads _ s), if_neg (by omega)]
  rfl

section Publishing

variable {bodies : List Bytes} {s : Log} {m : ℕ}

theorem exec_publishBundle (hleaves : s.leaves = bodies.map leafRow) (c : ℕ × ℕ) :
    exec (publishBundle c) s =
      if Small (slice bodies (c.1 * tileWidth) (c.1 * tileWidth + c.2)) then
        exec (storeEntryBundle c.1 c.2 (bundleBytes bodies c.1 c.2)) s
      else (.error oversized, s) := by
  have hbodies : (slice s.leaves (c.1 * tileWidth) (c.1 * tileWidth + c.2)).map LeafRow.body =
      slice bodies (c.1 * tileWidth) (c.1 * tileWidth + c.2) := by
    rw [hleaves, slice, slice, ← List.map_take, ← List.map_drop, List.map_map]
    exact List.map_id _
  rw [publishBundle, bodiesUnlocked, exec_bind_ok (exec_reads _ _), hbodies, encodeEntryBundle_eq]
  split
  · rfl
  · rfl

theorem exec_publishTile {L : List Bytes} {c : ℕ × ℕ × ℕ} (hL : AllDigests L)
    (hm : m ≤ L.length) (hc : c ∈ tilesRequired m) :
    exec (publishTile (L.take m) c) s =
      exec (storeTile c.1 c.2.1 c.2.2 (tileBytes L c.1 c.2.1 c.2.2)) s := by
  have hreq : Required tileWidth m c.1 c.2.1 c.2.2 := required_of_mem_tilesRequired hc
  have hw := hreq.width (by decide)
  have hlen : (L.take m).length = m := by rw [List.length_take, Nat.min_eq_left hm]
  have htile := tileHashesForLevel_eq (L := L.take m) (by rw [hlen]; exact hreq.fits) hw
  rw [tile_take _ _ hreq.fits hm] at htile
  have hdata := encodeHashTile_eq (tile_digests (l := c.1) (n := c.2.1) (w := c.2.2) hL)
    (by rw [tile, List.length_map, List.length_range]; exact hw)
  rw [publishTile, exec_bind, exec_ofExcept, htile]
  dsimp only
  rw [exec_bind, exec_ofExcept, hdata, tileBytes]

/-- A bundle of a size holds only entries that fit when all its bodies do. -/
theorem small_bundle (hsmall : Small (bodies.take m)) {c : ℕ × ℕ} (hc : c ∈ bundlesRequired m) :
    Small (slice bodies (c.1 * tileWidth) (c.1 * tileWidth + c.2)) := by
  have hfits : Fits tileWidth m 0 c.1 c.2 := (mem_bundlesRequired.mp hc).fits
  rw [Fits, pow_zero, Nat.mul_one] at hfits
  have hslice := small_slice hsmall (c.1 * tileWidth) (c.1 * tileWidth + c.2)
  rwa [slice, List.take_take, Nat.min_eq_left hfits] at hslice

/-- A body that does not fit is in a bundle of its size. -/
theorem exists_bundle_of_not_small (hsmall : ¬Small (bodies.take m)) :
    ∃ c ∈ bundlesRequired m,
      ¬Small (slice bodies (c.1 * tileWidth) (c.1 * tileWidth + c.2)) := by
  simp only [Small, not_forall, Nat.not_le] at hsmall
  obtain ⟨raw, hmem, hraw⟩ := hsmall
  obtain ⟨i, hi, hget⟩ := List.mem_take_iff_getElem.mp hmem
  obtain ⟨n, w, hreq, hle, hlt⟩ :=
    exists_required (W := tileWidth) (by decide) ((Nat.lt_min.mp hi).1)
  refine ⟨(n, w), mem_bundlesRequired.mpr hreq, fun hslice => ?_⟩
  refine absurd (hslice raw ?_) (Nat.not_le.mpr hraw)
  have hindex : n * tileWidth + (i - n * tileWidth) = i := by omega
  rw [slice]
  refine List.mem_of_getElem? (i := i - n * tileWidth) ?_
  rw [List.getElem?_drop, hindex, List.getElem?_take_of_lt hlt, ← hget, List.getElem?_eq_getElem]

/-- What a publication leaves: the blobs of its size beside the others. -/
structure PublishedTo (bodies : List Bytes) (m : ℕ) (s s' : Log) : Prop where
  tiles : ∀ l n w, (l, n, w) ∈ tilesRequired m →
    s'.tiles l n w = some (tileBytes (bodies.map leafHash) l n w)
  otherTiles : ∀ l n w, (l, n, w) ∉ tilesRequired m → s'.tiles l n w = s.tiles l n w
  bundles : ∀ n w, (n, w) ∈ bundlesRequired m →
    s'.entryBundles n w = some (bundleBytes bodies n w)
  otherBundles : ∀ n w, (n, w) ∉ bundlesRequired m → s'.entryBundles n w = s.entryBundles n w
  inTransaction : s'.inTransaction = false

theorem publishBundles_small (hleaves : s.leaves = bodies.map leafRow)
    (hsmall : Small (bodies.take m)) :
    ∃ s', exec ((bundlesRequired m).forM publishBundle) s = (.ok (), s') ∧
      (s'.leaves = s.leaves ∧ s'.tiles = s.tiles) ∧ ∀ c : ℕ × ℕ,
        (c ∈ bundlesRequired m → s'.entryBundles c.1 c.2 = some (bundleBytes bodies c.1 c.2)) ∧
          (c ∉ bundlesRequired m → s'.entryBundles c.1 c.2 = s.entryBundles c.1 c.2) := by
  refine exec_forM_put (K := fun t : Log => t.leaves = s.leaves ∧ t.tiles = s.tiles)
    (v := fun c : ℕ × ℕ => bundleBytes bodies c.1 c.2)
    (g := fun (t : Log) c => t.entryBundles c.1 c.2) (fun c hc t ht => ?_) ⟨rfl, rfl⟩
  rw [exec_publishBundle (ht.1.trans hleaves) c, if_pos (small_bundle hsmall hc)]
  exact ⟨_, rfl, ht, if_pos ⟨rfl, rfl⟩, fun y hy => if_neg fun h => hy (Prod.ext h.1 h.2)⟩

theorem publishBundles_oversized (hleaves : s.leaves = bodies.map leafRow)
    (hsmall : ¬Small (bodies.take m)) :
    ∃ s', exec ((bundlesRequired m).forM publishBundle) s = (.error oversized, s') := by
  refine exec_forM_error (K := fun t => t.leaves = bodies.map leafRow)
    (fun c _ hgood t ht => ?_) (fun c _ hbad t ht => ?_) (exists_bundle_of_not_small hsmall) hleaves
  · rw [exec_publishBundle ht c, if_pos hgood]
    exact ⟨_, rfl, ht⟩
  · rw [exec_publishBundle ht c, if_neg hbad]
    exact ⟨t, rfl⟩

theorem publishTiles {L : List Bytes} (hL : AllDigests L) (hm : m ≤ L.length) :
    ∃ s', exec ((tilesRequired m).forM (publishTile (L.take m))) s = (.ok (), s') ∧
      s'.entryBundles = s.entryBundles ∧ ∀ c : ℕ × ℕ × ℕ,
        (c ∈ tilesRequired m →
          s'.tiles c.1 c.2.1 c.2.2 = some (tileBytes L c.1 c.2.1 c.2.2)) ∧
        (c ∉ tilesRequired m → s'.tiles c.1 c.2.1 c.2.2 = s.tiles c.1 c.2.1 c.2.2) := by
  refine exec_forM_put (K := fun t : Log => t.entryBundles = s.entryBundles)
    (v := fun c : ℕ × ℕ × ℕ => tileBytes L c.1 c.2.1 c.2.2)
    (g := fun (t : Log) c => t.tiles c.1 c.2.1 c.2.2) (fun c hc t ht => ?_) rfl
  rw [exec_publishTile hL hm hc]
  refine ⟨_, rfl, ht, if_pos ⟨rfl, rfl, rfl⟩, fun y hy => if_neg fun h => hy ?_⟩
  exact Prod.ext h.1 (Prod.ext h.2.1 h.2.2)

/-- A publication of bodies that fit their length field. -/
theorem publishUnlocked_small (hleaves : s.leaves = bodies.map leafRow) (hm : m ≤ bodies.length)
    (hsmall : Small (bodies.take m)) :
    ∃ s', exec (publishUnlocked m) s = (.ok (), s') ∧ PublishedTo bodies m s s' := by
  have hlen : s.leaves.length = bodies.length := by rw [hleaves, List.length_map]
  have hleafHashes : s.leafHashes = bodies.map leafHash := by
    rw [Log.leafHashes, hleaves, List.map_map]
    rfl
  obtain ⟨s₁, hbundles, ⟨-, htiles₁⟩, hput₁⟩ := publishBundles_small (m := m) hleaves hsmall
  obtain ⟨s₂, htiles, hbundles₂, hput₂⟩ := publishTiles (s := s₁) (m := m)
    (allDigests_leafHash bodies) (by rwa [List.length_map])
  refine ⟨{ s₂ with inTransaction := false }, ?_, ?_⟩
  · rw [publishUnlocked_eq (by omega), publishBlobs, leafHashesUnlocked,
      exec_bind_ok (exec_reads _ s), hleafHashes, exec_bind_ok hbundles, exec_bind_ok htiles]
    rfl
  · rw [htiles₁] at hput₂
    exact
      { tiles := fun l n w => (hput₂ (l, n, w)).1
        otherTiles := fun l n w => (hput₂ (l, n, w)).2
        bundles := fun n w hc => (congrFun₂ hbundles₂ n w).trans ((hput₁ (n, w)).1 hc)
        otherBundles := fun n w hc => (congrFun₂ hbundles₂ n w).trans ((hput₁ (n, w)).2 hc)
        inTransaction := rfl }

theorem publishUnlocked_oversized (hleaves : s.leaves = bodies.map leafRow)
    (hm : m ≤ bodies.length) (hsmall : ¬Small (bodies.take m)) :
    ∃ s', exec (publishUnlocked m) s = (.error oversized, s') := by
  have hlen : s.leaves.length = bodies.length := by rw [hleaves, List.length_map]
  obtain ⟨s', hbundles⟩ := publishBundles_oversized hleaves hsmall
  refine ⟨s', ?_⟩
  rw [publishUnlocked_eq (by omega), publishBlobs, leafHashesUnlocked,
    exec_bind_ok (exec_reads _ s), exec_bind_error hbundles]

end Publishing

end Signal402.LogStore
