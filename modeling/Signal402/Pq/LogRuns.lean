import Signal402.Lib.History
import Signal402.Pq.Publication

/-!
# Runs of the log

Histories of `append` and `publish_up_to` on a new log.

* `LogStep` — one call; the indices of the rows are SQLite integers.
* `Published`, `Grows` — the invariant of the blobs, and what a call keeps of them.
* `published_tiles` — the blobs are those of the C2SP tiles and never change.
* `append_atomic` — an append is atomic and publication works exactly when every
  body that is appended fits the length field of an entry bundle.
* `oversized_append` — a body of 65536 bytes.
-/

namespace Signal402.LogStore

open Eff Merkle Tiles TileTree History

/-- A call on the log. -/
inductive LogCall
  | append (raw : Bytes)
  | publish (treeSize : ℤ)

/-- What a call runs; it returns the size that it published, if any. -/
def LogCall.code : LogCall → Eff Log (Option ℕ)
  | .append raw => do
      let appended ← LogStore.append raw
      return if appended.duplicate then none else some appended.size
  | .publish treeSize => do
      publishUpTo treeSize
      return some treeSize.toNat

/-- The indices `0, …` of the rows are values of `INTEGER PRIMARY KEY`. -/
def Log.InRange (s : Log) : Prop := s.leaves.length ≤ 2 ^ 63

/-- One call on a log that SQLite can hold. -/
def LogStep (call : LogCall) (s : Log) (r : Except PyError (Option ℕ)) (s' : Log) : Prop :=
  s'.InRange ∧ exec call.code s = (r, s')

/-! ## The blobs -/

/-- Every blob is the one of its coordinates, and all its leaves are there. -/
structure Published (bodies : List Bytes) (s : Log) : Prop where
  holds : Holds bodies s
  tiles : ∀ l n w data, s.tiles l n w = some data →
    Fits tileWidth bodies.length l n w ∧ data = tileBytes (bodies.map leafHash) l n w
  bundles : ∀ n w data, s.entryBundles n w = some data →
    Fits tileWidth bodies.length 0 n w ∧ data = bundleBytes bodies n w

/-- Leaves are only added, and a blob that is stored stays as it is. -/
structure Grows (s s' : Log) : Prop where
  leaves : s.leaves <+: s'.leaves
  tiles : ∀ l n w data, s.tiles l n w = some data → s'.tiles l n w = some data
  bundles : ∀ n w data, s.entryBundles n w = some data → s'.entryBundles n w = some data

theorem Grows.refl (s : Log) : Grows s s := 
  ⟨List.prefix_refl _, fun _ _ _ _ h => h, fun _ _ _ h => h⟩

theorem Grows.trans {s s' s'' : Log} (h : Grows s s') (h' : Grows s' s'') : Grows s s'' :=
  ⟨h.leaves.trans h'.leaves, fun l n w data hd => h'.tiles l n w data (h.tiles l n w data hd),
    fun n w data hd => h'.bundles n w data (h.bundles n w data hd)⟩

theorem published_empty : Published [] Log.empty :=
  ⟨holds_empty, fun _ _ _ _ h => (nomatch h), fun _ _ _ h => (nomatch h)⟩

section Blobs

variable {bodies : List Bytes} {s : Log} {m : ℕ}

/-- A leaf that is added leaves the blobs as they are. -/
theorem Published.append {raw : Bytes} {t : Log} (h : Published bodies s)
    (ht : Holds (bodies ++ [raw]) t) (htiles : t.tiles = s.tiles)
    (hbundles : t.entryBundles = s.entryBundles) : Published (bodies ++ [raw]) t where
  holds := ht
  tiles l n w data hdata := by
    rw [htiles] at hdata
    obtain ⟨hfits, rfl⟩ := h.tiles l n w data hdata
    refine ⟨hfits.mono (by rw [List.length_append]; omega), ?_⟩
    rw [List.map_append, tileBytes_append (by rwa [List.length_map])]
  bundles n w data hdata := by
    rw [hbundles] at hdata
    obtain ⟨hfits, rfl⟩ := h.bundles n w data hdata
    refine ⟨hfits.mono (by rw [List.length_append]; omega), ?_⟩
    rw [bundleBytes_append hfits]

theorem Published.length (h : Published bodies s) : s.leaves.length = bodies.length := by
  rw [h.holds.leaves, List.length_map]

/-- What a publication keeps at each of its writes, from the log that it starts in. -/
structure Publishing (bodies : List Bytes) (s t : Log) : Prop where
  published : Published bodies t
  grows : Grows s t

theorem publishing_bundle {t : Log} (h : Publishing bodies s t) {n w : ℕ}
    (hfits : Fits tileWidth bodies.length 0 n w) :
    Publishing bodies s (exec (storeEntryBundle n w (bundleBytes bodies n w)) t).2 := by
  refine ⟨⟨h.published.holds.congr rfl, h.published.tiles, fun n' w' data hdata => ?_⟩,
    h.grows.leaves, h.grows.tiles, fun n' w' data hdata => ?_⟩
  · change (if n' = n ∧ w' = w then _ else _) = _ at hdata
    split at hdata
    next heq =>
      obtain ⟨rfl, rfl⟩ := heq
      cases hdata
      exact ⟨hfits, rfl⟩
    · exact h.published.bundles n' w' data hdata
  · change (if n' = n ∧ w' = w then _ else _) = _
    have hold := h.grows.bundles n' w' data hdata
    split
    next heq =>
      obtain ⟨rfl, rfl⟩ := heq
      rw [(h.published.bundles n' w' data hold).2]
    · exact hold

theorem publishing_tile {t : Log} (h : Publishing bodies s t) {l n w : ℕ}
    (hfits : Fits tileWidth bodies.length l n w) :
    Publishing bodies s (exec (storeTile l n w (tileBytes (bodies.map leafHash) l n w)) t).2 := by
  refine ⟨⟨h.published.holds.congr rfl, fun l' n' w' data hdata => ?_, h.published.bundles⟩,
    h.grows.leaves, fun l' n' w' data hdata => ?_, h.grows.bundles⟩
  · change (if l' = l ∧ n' = n ∧ w' = w then _ else _) = _ at hdata
    split at hdata
    next heq =>
      obtain ⟨rfl, rfl, rfl⟩ := heq
      cases hdata
      exact ⟨hfits, rfl⟩
    · exact h.published.tiles l' n' w' data hdata
  · change (if l' = l ∧ n' = n ∧ w' = w then _ else _) = _
    have hold := h.grows.tiles l' n' w' data hdata
    split
    next heq =>
      obtain ⟨rfl, rfl, rfl⟩ := heq
      rw [(h.published.tiles l' n' w' data hold).2]
    · exact hold

theorem publishBlobs_keeps (hm : m ≤ bodies.length) :
    Keeps (Publishing bodies s) (publishBlobs m) := by
  intro t ht
  have hlen : (bodies.map leafHash).length = bodies.length := List.length_map _
  rw [publishBlobs, leafHashesUnlocked, exec_bind_ok (exec_reads _ t),
    ht.published.holds.leafHashes]
  refine Keeps.bind (Keeps.forM fun c hc t ht => ?_) (fun _ =>
    Keeps.bind (Keeps.forM fun c hc t ht => ?_) fun _ => Keeps.modifies fun t ht => ?_) t ht
  · have hfits : Fits tileWidth m 0 c.1 c.2 := (mem_bundlesRequired.mp hc).fits
    rw [exec_publishBundle ht.published.holds.leaves c]
    split
    · exact publishing_bundle ht (hfits.mono hm)
    · exact ht
  · have hfits : Fits tileWidth m c.1 c.2.1 c.2.2 := (required_of_mem_tilesRequired hc).fits
    rw [exec_publishTile (allDigests_leafHash bodies) (by omega) hc]
    exact publishing_tile ht (hfits.mono hm)
  · exact ⟨⟨ht.published.holds.congr rfl, ht.published.tiles, ht.published.bundles⟩,
      ht.grows.leaves, ht.grows.tiles, ht.grows.bundles⟩

end Blobs

/-! ## What a call does -/

/-- The blobs of a size are all there. -/
structure Complete (m : ℕ) (s : Log) : Prop where
  tiles : ∀ l n w, (l, n, w) ∈ tilesRequired m → (s.tiles l n w).isSome
  bundles : ∀ n w, (n, w) ∈ bundlesRequired m → (s.entryBundles n w).isSome

theorem Complete.grows {m : ℕ} {s s' : Log} (h : Complete m s) (hgrows : Grows s s') :
    Complete m s' := by
  constructor
  · intro l n w hc
    obtain ⟨data, hdata⟩ := Option.isSome_iff_exists.mp (h.tiles l n w hc)
    rw [hgrows.tiles l n w data hdata]
    rfl
  · intro n w hc
    obtain ⟨data, hdata⟩ := Option.isSome_iff_exists.mp (h.bundles n w hc)
    rw [hgrows.bundles n w data hdata]
    rfl

theorem PublishedTo.complete {bodies : List Bytes} {m : ℕ} {s s' : Log}
    (h : PublishedTo bodies m s s') : Complete m s' := by
  constructor
  · intro l n w hc
    rw [h.tiles l n w hc]
    rfl
  · intro n w hc
    rw [h.bundles n w hc]
    rfl

def outOfRange : PyError := .valueError "publish size out of range"

section Calls

variable {bodies : List Bytes} {s s' : Log}

/-- A publication is out of range, or meets a body that is too long, or stores the
blobs of its size. -/
theorem exec_publishUnlocked (h : Published bodies s) (n : ℤ) {r : Except PyError Unit}
    (hrun : exec (publishUnlocked n) s = (r, s')) :
    Publishing bodies s s' ∧
      (r = .error outOfRange ∨
        0 ≤ n ∧ n ≤ bodies.length ∧
          (r = .ok () ∧ Small (bodies.take n.toNat) ∧ PublishedTo bodies n.toNat s s' ∨
            r = .error oversized ∧ ¬Small (bodies.take n.toNat))) := by
  have hlen : s.leaves.length = bodies.length := h.length
  by_cases hrange : n < 0 ∨ n > s.leaves.length
  · rw [publishUnlocked, sizeUnlocked, exec_bind_ok (exec_reads _ s), if_pos hrange] at hrun
    cases hrun
    exact ⟨⟨h, Grows.refl s⟩, Or.inl rfl⟩
  · obtain ⟨m, rfl⟩ := Int.eq_ofNat_of_zero_le (by omega : 0 ≤ n)
    have hm : m ≤ bodies.length := by omega
    rw [Int.toNat_natCast]
    constructor
    · have hkeeps := publishBlobs_keeps (s := s) hm s ⟨h, Grows.refl s⟩
      rwa [← publishUnlocked_eq (by omega), hrun] at hkeeps
    · refine Or.inr ⟨Int.natCast_nonneg m, by omega, ?_⟩
      by_cases hsmall : Small (bodies.take m)
      · obtain ⟨t, ht, hpublished⟩ := publishUnlocked_small h.holds.leaves hm hsmall
        rw [ht] at hrun
        cases hrun
        exact Or.inl ⟨rfl, hsmall, hpublished⟩
      · obtain ⟨t, ht⟩ := publishUnlocked_oversized h.holds.leaves hm hsmall
        rw [ht] at hrun
        cases hrun
        exact Or.inr ⟨rfl, hsmall⟩

/-- What a call does that leaves the log with `bodies`: it keeps every blob, raises
only the two errors of a publication, and has stored the size that it published. -/
structure Step (bodies : List Bytes) (s : Log) (r : Except PyError (Option ℕ)) (s' : Log) :
    Prop where
  grows : Grows s s'
  published : Published bodies s'
  errors : ∀ e, r = .error e → e = outOfRange ∨ e = oversized
  complete : ∀ m, r = .ok (some m) → m ≤ bodies.length ∧ Complete m s'

theorem step_publish (h : Published bodies s) (n : ℤ) {r : Except PyError (Option ℕ)}
    (hrun : exec (publishUnlocked n >>= fun _ => pure (some n.toNat)) s = (r, s')) :
    Step bodies s r s' := by
  rw [exec_bind] at hrun
  cases hpublish : exec (publishUnlocked n) s with
  | mk r' t =>
      obtain ⟨hpublishing, hresult⟩ := exec_publishUnlocked h n hpublish
      rw [hpublish] at hrun
      rcases hresult with rfl | ⟨hpos, hn, ⟨rfl, -, hto⟩ | ⟨rfl, -⟩⟩
      · cases hrun
        refine ⟨hpublishing.grows, hpublishing.published, fun e he => ?_, fun m hm => nomatch hm⟩
        cases he
        exact Or.inl rfl
      · cases hrun
        refine ⟨hpublishing.grows, hpublishing.published, fun e he => (nomatch he), fun m hm => ?_⟩
        cases hm
        exact ⟨by omega, hto.complete⟩
      · cases hrun
        refine ⟨hpublishing.grows, hpublishing.published, fun e he => ?_, fun m hm => nomatch hm⟩
        cases he
        exact Or.inr rfl

/-- An append of a new leaf is its commit and a publication of the new size. -/
theorem append_commits (h : Published bodies s) {raw : Bytes}
    (hnew : leafHash raw ∉ bodies.map leafHash) :
    ∃ t, Published (bodies ++ [raw]) t ∧ Grows s t ∧ t.inTransaction = false ∧
      exec (append raw) s =
        exec (publishUnlocked (bodies.length + 1 : ℕ) >>= fun _ =>
          pure ⟨bodies.length, leafHash raw, bodies.length + 1, false⟩) t := by
  obtain ⟨t, ht, ⟨htiles, hbundles, hclosed⟩, hrun⟩ := append_new h.holds hnew
  refine ⟨t, h.append ht htiles hbundles, ⟨?_, ?_, ?_⟩, hclosed, hrun⟩
  · rw [ht.leaves, h.holds.leaves, List.map_append]
    exact List.prefix_append _ _
  · rw [htiles]
    exact fun _ _ _ _ hdata => hdata
  · rw [hbundles]
    exact fun _ _ _ hdata => hdata

theorem exec_append_new (h : Published bodies s) {raw : Bytes}
    (hnew : leafHash raw ∉ bodies.map leafHash) :
    ∃ t, Published (bodies ++ [raw]) t ∧ Grows s t ∧ t.inTransaction = false ∧
      exec (LogCall.append raw).code s =
        exec (publishUnlocked (bodies.length + 1 : ℕ) >>= fun _ =>
          pure (some (bodies.length + 1))) t := by
  obtain ⟨t, ht, hgrows, hclosed, hrun⟩ := append_commits h hnew
  refine ⟨t, ht, hgrows, hclosed, ?_⟩
  rw [LogCall.code, exec_bind, hrun, exec_bind, exec_bind]
  cases exec (publishUnlocked (bodies.length + 1 : ℕ)) t with
  | mk r t' => cases r <;> rfl

theorem step_code (h : Published bodies s) {call : LogCall} {r : Except PyError (Option ℕ)}
    (hrun : exec call.code s = (r, s')) : ∃ later, Step (bodies ++ later) s r s' := by
  cases call with
  | publish n =>
      refine ⟨[], ?_⟩
      rw [List.append_nil]
      exact step_publish h n hrun
  | append raw =>
      by_cases hdup : leafHash raw ∈ bodies.map leafHash
      · obtain ⟨i, happend⟩ := append_duplicate h.holds hdup
        rw [LogCall.code, exec_bind, happend] at hrun
        cases hrun
        refine ⟨[], Grows.refl s, ?_, fun e he => (nomatch he), fun m hm => nomatch hm⟩
        rw [List.append_nil]
        exact h
      · obtain ⟨t, ht, hgrows, -, happend⟩ := exec_append_new h hdup
        rw [happend] at hrun
        have hstep := step_publish ht (bodies.length + 1 : ℕ) hrun
        exact ⟨[raw], hgrows.trans hstep.grows, hstep.published, hstep.errors, hstep.complete⟩

end Calls

/-! ## Runs -/

section Runs

variable {es es' : List (Event Log LogCall (Except PyError (Option ℕ)))} {s s' : Log}

def tileExceedsTree : PyError := .valueError "tile exceeds tree"

/-- Every blob is the one of its coordinates in the log. -/
structure BlobsExact (s : Log) : Prop where
  tiles : ∀ l n w data, s.tiles l n w = some data → data = tileBytes s.leafHashes l n w
  bundles : ∀ n w data, s.entryBundles n w = some data →
    data = bundleBytes (s.leaves.map LeafRow.body) n w

theorem Published.blobsExact {bodies : List Bytes} (h : Published bodies s) : BlobsExact s := by
  constructor
  · intro l n w data hdata
    rw [h.holds.leafHashes]
    exact (h.tiles l n w data hdata).2
  · intro n w data hdata
    have hbodies : s.leaves.map LeafRow.body = bodies := by
      rw [h.holds.leaves, List.map_map]
      exact List.map_id bodies
    rw [hbodies]
    exact (h.bundles n w data hdata).2

/-- A log that a run reaches holds its blobs, and SQLite can hold it. -/
def Reached (s : Log) : Prop := s.InRange ∧ ∃ bodies, Published bodies s

theorem reached_empty : Reached Log.empty := ⟨Nat.zero_le _, [], published_empty⟩

theorem LogStep.reached {call : LogCall} {r : Except PyError (Option ℕ)}
    (h : LogStep call s r s') (hs : Reached s) : Reached s' ∧ Grows s s' := by
  obtain ⟨-, bodies, hs⟩ := hs
  obtain ⟨later, hstep⟩ := step_code hs h.2
  exact ⟨⟨h.1, _, hstep.published⟩, hstep.grows⟩

/-- **Published tiles are the C2SP tiles and never change.**  In every run of appends
and publications the tiles and bundles that a size requires are the full tiles and
the partial one of every level; no tile exceeds the tree; a size that was published
has all its blobs; every blob is the one of its coordinates; and every later call
leaves it as it is. -/
theorem published_tiles (h : Run LogStep Log.empty es s) (h' : Run LogStep s es' s') :
    (∀ m ≤ s.leaves.length,
      (∀ l n w, (l, n, w) ∈ tilesRequired m ↔ Required tileWidth m l n w) ∧
        ∀ n w, (n, w) ∈ bundlesRequired m ↔ Required tileWidth m 0 n w) ∧
      (∀ e ∈ es, e.result ≠ .error tileExceedsTree) ∧
      (∀ e ∈ es, ∀ m, e.result = .ok (some m) → m ≤ s.leaves.length ∧ Complete m s) ∧
      BlobsExact s ∧ Grows s s' := by
  have hreached := h.invariant (K := Reached) (fun _ _ he hs => (he.reached hs).1) reached_empty
  obtain ⟨hrange, bodies, hs⟩ := hreached
  have hevents := h.forall_event (K := Reached) (fun _ _ he hs => (he.reached hs).1) reached_empty
  refine ⟨fun m hm => ⟨fun l n w => mem_tilesRequired ?_, fun n w => mem_bundlesRequired⟩,
    fun e hmem => ?_, fun e hmem m hpublished => ?_, hs.blobsExact, ?_⟩
  · exact (hm.trans hrange).trans_lt (by decide)
  · obtain ⟨hstep, -, bodies', hbefore⟩ := hevents e hmem
    obtain ⟨later, hstep⟩ := step_code hbefore hstep.2
    intro herror
    rcases hstep.errors _ herror with heq | heq <;> exact absurd heq (by decide)
  · obtain ⟨hstep, -, bodies', hbefore⟩ := hevents e hmem
    obtain ⟨later, hstep⟩ := step_code hbefore hstep.2
    obtain ⟨hle, hcomplete⟩ := hstep.complete m hpublished
    have hgrows : Grows e.after s := h.relation_after (fun he hs => he.reached hs) Grows.refl
      Grows.trans reached_empty e hmem
    have hlength := hgrows.leaves.length_le
    rw [hstep.published.length] at hlength
    exact ⟨hle.trans hlength, hcomplete.grows hgrows⟩
  · exact h'.relation (fun he hs => he.reached hs) Grows.refl Grows.trans ⟨hrange, bodies, hs⟩

end Runs

/-! ## Atomic appends -/

abbrev LogEvent := Event Log LogCall (Except PyError (Option ℕ))

/-- The call left the leaves and the root as they were, and no open transaction. -/
structure Unharmed (e : LogEvent) : Prop where
  leafHashes : e.after.leafHashes = e.before.leafHashes
  root : (exec (root none) e.after).1 = (exec (root none) e.before).1
  inTransaction : e.after.inTransaction = false

/-- The log can be published up to its size, and is then ready to checkpoint. -/
def Publishable (s : Log) : Prop :=
  ∃ s', exec (publishUpTo s.leaves.length) s = (.ok (), s') ∧
    (exec (readyToCheckpoint none) s').1 = .ok true

/-- An append that raised harmed nothing, and publication works at the end. -/
def AppendAtomic (es : List LogEvent) (s : Log) : Prop :=
  (∀ e ∈ es, ∀ raw error, e.call = .append raw → e.result = .error error → Unharmed e) ∧
    Publishable s

/-- The body fits the length field of an entry bundle, or its leaf is there already. -/
def BodyFits (e : LogEvent) : Prop :=
  ∀ raw, e.call = .append raw →
    raw.length ≤ maxEntryBytes ∨ leafHash raw ∈ e.before.leafHashes

section Atomic

variable {bodies : List Bytes} {s s' : Log}

/-- A size whose blobs are all there is ready. -/
theorem Complete.readyUnlocked {m : ℕ} (h : Complete m s) (hm : m ≤ s.leaves.length) :
    exec (LogStore.readyUnlocked m) s = (.ok true, s) := by
  rw [LogStore.readyUnlocked, sizeUnlocked, exec_bind_ok (exec_reads _ s), if_neg (by omega)]
  split
  · rfl
  · rw [exec_reads, Int.toNat_natCast]
    refine congrArg (fun b => (Except.ok b, s)) (Bool.and_eq_true_iff.mpr ⟨?_, ?_⟩)
    · exact List.all_eq_true.mpr fun c hc => h.bundles c.1 c.2 hc
    · exact List.all_eq_true.mpr fun c hc => h.tiles c.1 c.2.1 c.2.2 hc

theorem Published.publishable (h : Published bodies s) (hsmall : Small bodies) :
    Publishable s := by
  have hlen : s.leaves.length = bodies.length := h.length
  obtain ⟨s', hrun, hto⟩ := publishUnlocked_small h.holds.leaves (Nat.le_refl _)
    (by rwa [List.take_length])
  have hs' := (exec_publishUnlocked h _ hrun).1.published
  refine ⟨s', ?_, ?_⟩
  · rw [publishUpTo, hlen]
    exact hrun
  · rw [readyToCheckpoint, targetSize, exec_bind_ok (exec_reads _ s'), hs'.length,
      hto.complete.readyUnlocked hs'.length.ge]

/-- An append of a new leaf whose body fits. -/
theorem append_small (h : Published bodies s) (hsmall : Small bodies) {raw : Bytes}
    (hnew : leafHash raw ∉ bodies.map leafHash) (hraw : raw.length ≤ maxEntryBytes) :
    ∃ s', exec (append raw) s =
        (.ok ⟨bodies.length, leafHash raw, bodies.length + 1, false⟩, s') ∧
      Published (bodies ++ [raw]) s' ∧ Grows s s' ∧ Small (bodies ++ [raw]) := by
  obtain ⟨t, ht, hgrows, -, happend⟩ := append_commits h hnew
  have hsmall' : Small (bodies ++ [raw]) :=
    List.forall_mem_append.mpr ⟨hsmall, List.forall_mem_singleton.mpr hraw⟩
  have hlen : (bodies ++ [raw]).length = bodies.length + 1 := List.length_append
  obtain ⟨t', hpublish, -⟩ := publishUnlocked_small (m := bodies.length + 1) ht.holds.leaves
    hlen.ge (by rwa [← hlen, List.take_length])
  rw [exec_bind_ok hpublish] at happend
  have hpublishing := (exec_publishUnlocked ht _ hpublish).1
  exact ⟨t', happend, hpublishing.published, hgrows.trans hpublishing.grows, hsmall'⟩

theorem exec_append_small (h : Published bodies s) (hsmall : Small bodies) {raw : Bytes}
    (hnew : leafHash raw ∉ bodies.map leafHash) (hraw : raw.length ≤ maxEntryBytes) :
    ∃ s', exec (LogCall.append raw).code s = (.ok (some (bodies.length + 1)), s') ∧
      Published (bodies ++ [raw]) s' ∧ Small (bodies ++ [raw]) := by
  obtain ⟨s', happend, hs', -, hsmall'⟩ := append_small h hsmall hnew hraw
  refine ⟨s', ?_, hs', hsmall'⟩
  rw [LogCall.code, exec_bind_ok happend]
  rfl

/-- A call whose body fits keeps the log small, and does not raise if it appends. -/
theorem step_small (h : Published bodies s) (hsmall : Small bodies) {call : LogCall}
    {r : Except PyError (Option ℕ)} (hfits : BodyFits ⟨s, call, r, s'⟩)
    (hrun : exec call.code s = (r, s')) :
    (∃ bodies', Published bodies' s' ∧ Small bodies') ∧
      ∀ raw, call = .append raw → ∃ size, r = .ok size := by
  cases call with
  | publish n =>
      exact ⟨⟨bodies, (step_publish h n hrun).published, hsmall⟩, fun raw hcall => nomatch hcall⟩
  | append raw =>
      by_cases hdup : leafHash raw ∈ bodies.map leafHash
      · obtain ⟨i, happend⟩ := append_duplicate h.holds hdup
        rw [LogCall.code, exec_bind, happend] at hrun
        cases hrun
        exact ⟨⟨bodies, h, hsmall⟩, fun _ _ => ⟨_, rfl⟩⟩
      · have hraw : raw.length ≤ maxEntryBytes :=
          (hfits raw rfl).resolve_right (by rwa [h.holds.leafHashes])
        obtain ⟨t, happend, ht, hsmall'⟩ := exec_append_small h hsmall hdup hraw
        rw [happend] at hrun
        cases hrun
        exact ⟨⟨_, ht, hsmall'⟩, fun _ _ => ⟨_, rfl⟩⟩

/-- **The defect.**  An append of a new leaf whose body does not fit commits the leaf
and then raises. -/
theorem append_oversized (h : Published bodies s) {raw : Bytes}
    (hnew : leafHash raw ∉ bodies.map leafHash) (hraw : maxEntryBytes < raw.length)
    {r : Except PyError (Option ℕ)} (hrun : exec (LogCall.append raw).code s = (r, s')) :
    r = .error oversized ∧ s.leaves.length < s'.leaves.length := by
  obtain ⟨t, ht, -, -, happend⟩ := exec_append_new h hnew
  have hlen : (bodies ++ [raw]).length = bodies.length + 1 := List.length_append
  rw [happend] at hrun
  constructor
  · have hlarge : ¬Small ((bodies ++ [raw]).take (bodies.length + 1)) := by
      rw [← hlen, List.take_length]
      exact fun hsmall => absurd (hsmall raw (by simp)) (Nat.not_le.mpr hraw)
    obtain ⟨t', hpublish⟩ := publishUnlocked_oversized ht.holds.leaves hlen.ge hlarge
    rw [exec_bind_error hpublish] at hrun
    cases hrun
    rfl
  · have hlength := (step_publish ht _ hrun).published.holds.leaves
    rw [hlength, h.holds.leaves, List.length_map, List.length_map, hlen]
    exact Nat.lt_succ_self _

/-- A log in which every body fits. -/
def Fitting (s : Log) : Prop := ∃ bodies, Published bodies s ∧ Small bodies

/-- **Append is atomic exactly when every body fits.**  In a run of appends and
publications, the appends that raise harm nothing and publication works at the end,
if and only if every body that was appended fits the length field of an entry
bundle. -/
theorem append_atomic {es : List LogEvent} (h : Run LogStep Log.empty es s) :
    AppendAtomic es s ↔ ∀ e ∈ es, BodyFits e := by
  constructor
  · intro hatomic e hmem raw hcall
    obtain ⟨⟨-, hrun⟩, -, bodies, hbefore⟩ := h.forall_event (K := Reached)
      (fun _ _ he hs => (he.reached hs).1) reached_empty e hmem
    by_contra hfits
    rw [not_or, Nat.not_le, hbefore.holds.leafHashes] at hfits
    rw [hcall] at hrun
    obtain ⟨herror, hlength⟩ := append_oversized hbefore hfits.2 hfits.1 hrun
    have hsame := congrArg List.length (hatomic.1 e hmem raw _ hcall herror).leafHashes
    rw [Log.leafHashes, Log.leafHashes, List.length_map, List.length_map] at hsame
    omega
  · intro hfits
    have hstep : ∀ e ∈ es, LogStep e.call e.before e.result e.after →
        Fitting e.before → Fitting e.after := by
      rintro e hmem he ⟨bodies, hs, hsmall⟩
      exact (step_small hs hsmall (hfits e hmem) he.2).1
    have hempty : Fitting Log.empty := ⟨[], published_empty, List.forall_mem_nil _⟩
    constructor
    · intro e hmem raw error hcall herror
      obtain ⟨⟨-, hrun⟩, bodies, hbefore, hsmall⟩ := h.forall_event hstep hempty e hmem
      obtain ⟨size, hok⟩ := (step_small hbefore hsmall (hfits e hmem) hrun).2 raw hcall
      rw [hok] at herror
      cases herror
    · obtain ⟨bodies, hs, hsmall⟩ := h.invariant hstep hempty
      exact hs.publishable hsmall

end Atomic

/-! ## Runs of appends -/

/-- The append of a body to a log. -/
def appendEvent (raw : Bytes) (s : Log) : LogEvent where
  before := s
  call := .append raw
  result := (exec (LogCall.append raw).code s).1
  after := (exec (LogCall.append raw).code s).2

theorem exec_appendEvent (raw : Bytes) (s : Log) :
    exec (LogCall.append raw).code s = ((appendEvent raw s).result, (appendEvent raw s).after) :=
  Prod.mk.eta.symm

theorem holds_appendEvent {bodies : List Bytes} {s : Log} (h : Holds bodies s) (raw : Bytes) :
    Holds (logged bodies raw) (appendEvent raw s).after := by
  have hafter : (appendEvent raw s).after = (exec (append raw) s).2 := by
    change (exec (LogCall.append raw).code s).2 = _
    rw [LogCall.code, exec_bind]
    cases exec (append raw) s with
    | mk r t => cases r <;> rfl
  rw [hafter]
  exact (append_holds h raw).1

theorem logged_length_le (bodies : List Bytes) (raw : Bytes) :
    (logged bodies raw).length ≤ bodies.length + 1 := by
  rw [logged]
  split
  · omega
  · rw [List.length_append, List.length_singleton]

theorem run_appendEvent {bodies : List Bytes} {s : Log} (h : Holds bodies s) (raw : Bytes)
    (hrange : bodies.length < 2 ^ 63) :
    Run LogStep s [appendEvent raw s] (appendEvent raw s).after := by
  rw [← List.nil_append [appendEvent raw s]]
  refine .snoc (.nil s) ⟨?_, rfl⟩
  have hlength := logged_length_le bodies raw
  rw [Log.InRange, (holds_appendEvent h raw).leaves, List.length_map]
  omega

/-- One byte is appended; its bundle and tile stay when another is. -/
theorem published_tiles_run :
    let e := appendEvent [7] Log.empty
    e.result = .ok (some 1) ∧ Complete 1 e.after ∧ BlobsExact e.after ∧
      Grows e.after (appendEvent [8] e.after).after := by
  obtain ⟨t, happend, -⟩ := exec_append_small published_empty (List.forall_mem_nil _)
    (show leafHash [7] ∉ _ from List.not_mem_nil) (by decide)
  have hresult : (appendEvent [7] Log.empty).result = .ok (some 1) := congrArg Prod.fst happend
  have hlength := logged_length_le [] [7]
  obtain ⟨-, -, hcomplete, hexact, hgrows⟩ := published_tiles
    (run_appendEvent holds_empty [7] (by decide))
    (run_appendEvent (holds_appendEvent holds_empty [7]) [8] (hlength.trans_lt (by decide)))
  exact ⟨hresult, (hcomplete _ List.mem_cons_self 1 hresult).2, hexact, hgrows⟩

/-- A body of one byte fits. -/
theorem append_atomic_run :
    AppendAtomic [appendEvent [7] Log.empty] (appendEvent [7] Log.empty).after := by
  rw [append_atomic (run_appendEvent holds_empty [7] (by decide))]
  intro e hmem raw hcall
  cases List.mem_singleton.mp hmem
  cases hcall
  exact Or.inl (by decide)

theorem not_appendAtomic {raw : Bytes} (hraw : maxEntryBytes < raw.length) :
    ¬AppendAtomic [appendEvent raw Log.empty] (appendEvent raw Log.empty).after := by
  intro hatomic
  have hnew : leafHash raw ∉ ([] : List Bytes).map leafHash := by
    rw [List.map_nil]
    exact List.not_mem_nil
  obtain ⟨herror, hlength⟩ :=
    append_oversized published_empty hnew hraw (exec_appendEvent raw Log.empty)
  have hharm := hatomic.1 (appendEvent raw Log.empty) List.mem_cons_self raw oversized rfl herror
  have hsame := congrArg List.length hharm.leafHashes
  rw [Log.leafHashes, Log.leafHashes, List.length_map, List.length_map] at hsame
  rw [hsame] at hlength
  exact Nat.lt_irrefl _ hlength

/-- The leaf of a body of 65536 bytes is committed by the append that raises. -/
theorem oversized_append :
    let e := appendEvent (List.replicate 65536 0) Log.empty
    Run LogStep Log.empty [e] e.after ∧ ¬AppendAtomic [e] e.after :=
  ⟨run_appendEvent holds_empty _ (by decide),
    not_appendAtomic (by rw [List.length_replicate]; decide)⟩

end Signal402.LogStore
