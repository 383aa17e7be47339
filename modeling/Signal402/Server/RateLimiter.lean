import Signal402.Lib.Table
import Mathlib.Algebra.Order.Group.Int
import Mathlib.Algebra.Order.Group.Unbundled.Basic
import Mathlib.Data.Finset.Dedup
import Mathlib.Data.Finset.Card
import Mathlib.Data.List.Induction

/-!
# The rate limiter (`server.py`)

`_RateLimiter`: for each key the times of its grants inside the window, in an ordered
dictionary that holds at most `max_keys` keys.  Keys without a grant inside the window are
dropped first, and the key that was used longest ago when there is still no room.

A run is a list of calls.  Its grants are kept beside the dictionary, and the run is compared
with them: as long as no key inside the window is dropped, the dictionary has the grants of
each key inside the window.
-/

namespace Signal402.RateLimiter

variable {K T : Type} [DecidableEq K] [AddCommGroup T] [LinearOrder T]

/-- `_hits`: the times of each key, the key used longest ago in front. -/
abbrev Hits (K T : Type) := List (K × List T)

/-- `self._hits.get(key) or []`. -/
def Hits.get (hits : Hits K T) (key : K) : List T :=
  ((Table.lookup Prod.fst hits key).map Prod.snd).getD []

/-- `now - t < window`. -/
def inWindow (now window t : T) : Bool := decide (now - t < window)

/-- `_prune_key`: the times of a key inside the window. -/
def recent (hits : Hits K T) (key : K) (now window : T) : List T :=
  (hits.get key).filter (inWindow now window)

/-- `_prune_key`, for its effect on the dictionary. -/
def pruneKey (hits : Hits K T) (key : K) (now window : T) : Hits K T :=
  if recent hits key now window = [] then Table.erase Prod.fst key hits
  else Table.put Prod.fst (key, recent hits key now window) hits

/-- `while len(self._hits) >= self._max_keys: self._hits.popitem(last=False)`. -/
def popOldest (maxKeys : ℕ) : Hits K T → Hits K T
  | [] => []
  | m :: rest => if maxKeys ≤ (m :: rest).length then popOldest maxKeys rest else m :: rest

/-- The loop of `_evict` over the keys that were there at its start. -/
def evictKeys (maxKeys : ℕ) (now window : T) : List K → Hits K T → Hits K T
  | [], hits => popOldest maxKeys hits
  | key :: keys, hits =>
      let hits := pruneKey hits key now window
      if hits.length < maxKeys then hits else evictKeys maxKeys now window keys hits

/-- `_evict`. -/
def evict (maxKeys : ℕ) (hits : Hits K T) (now window : T) : Hits K T :=
  evictKeys maxKeys now window (hits.map Prod.fst) hits

/-- A call of `allow`, with what the clock reads in it. -/
structure Call (K T : Type) where
  key : K
  limit : ℤ
  window : T
  now : T

/-- `allow`. -/
def allow (maxKeys : ℕ) (hits : Hits K T) (c : Call K T) : Bool × Hits K T :=
  if c.limit < 1 then (false, hits)
  else
    let times := recent hits c.key c.now c.window
    let hits := pruneKey hits c.key c.now c.window
    let hits :=
      if maxKeys ≤ hits.length ∧ c.key ∉ hits.map Prod.fst then
        evict maxKeys hits c.now c.window
      else hits
    if c.limit ≤ times.length then (false, hits)
    else
      let hits := Table.put Prod.fst (c.key, times ++ [c.now]) hits
      (true, if maxKeys < hits.length then evict maxKeys hits c.now c.window else hits)

/-- The dictionary, and the grants that were given so far. -/
structure State (K T : Type) where
  hits : Hits K T
  grants : List (K × T)

/-- A call, with its grant written down. -/
def step (maxKeys : ℕ) (s : State K T) (c : Call K T) : State K T :=
  { hits := (allow maxKeys s.hits c).2
    grants := if (allow maxKeys s.hits c).1 then s.grants ++ [(c.key, c.now)] else s.grants }

/-- A run from a new limiter. -/
def run (maxKeys : ℕ) (calls : List (Call K T)) : State K T :=
  calls.foldl (step maxKeys) ⟨[], []⟩

theorem run_concat (maxKeys : ℕ) (calls : List (Call K T)) (c : Call K T) :
    run maxKeys (calls ++ [c]) = step maxKeys (run maxKeys calls) c := by
  rw [run, List.foldl_append]
  rfl

/-! ## How many keys there are -/

section Size

variable {maxKeys : ℕ} {hits : Hits K T} {now window : T}

theorem length_pruneKey_le (hits : Hits K T) (key : K) (now window : T) :
    (pruneKey hits key now window).length ≤ hits.length := by
  rw [pruneKey]
  split
  · exact List.length_filter_le _ _
  · rename_i hne
    -- a key with times in the window is one of the keys
    have hmem : ∃ m ∈ hits, m.1 = key := by
      by_contra hnone
      have hlookup : Table.lookup Prod.fst hits key = none :=
        Table.lookup_eq_none.mpr fun m hm hkey => hnone ⟨m, hm, hkey⟩
      apply hne
      rw [recent, Hits.get, hlookup]
      rfl
    obtain ⟨m, hm, rfl⟩ := hmem
    have hlt : (Table.erase Prod.fst m.1 hits).length < hits.length :=
      List.length_filter_lt_length_iff_exists.mpr ⟨m, hm, by simp⟩
    rw [Table.put, List.length_append, List.length_singleton]
    exact hlt

omit [AddCommGroup T] [LinearOrder T] in
theorem unique_put (h : Table.Unique Prod.fst hits) (m : K × List T) :
    Table.Unique Prod.fst (Table.put Prod.fst m hits) := by
  have hnone : Table.lookup Prod.fst (Table.erase Prod.fst m.1 hits) m.1 = none := by
    rw [Table.lookup_erase, if_pos rfl]
  exact (h.filter _).append hnone

theorem unique_pruneKey (h : Table.Unique Prod.fst hits) (key : K) (now window : T) :
    Table.Unique Prod.fst (pruneKey hits key now window) := by
  rw [pruneKey]
  split
  · exact h.filter _
  · exact unique_put h _

omit [DecidableEq K] [AddCommGroup T] [LinearOrder T] in
theorem popOldest_sublist (hits : Hits K T) : (popOldest maxKeys hits).Sublist hits := by
  induction hits with
  | nil => exact List.Sublist.refl _
  | cons m rest ih =>
      rw [popOldest]
      split
      · exact ih.trans (List.sublist_cons_self m rest)
      · exact List.Sublist.refl _

omit [DecidableEq K] [AddCommGroup T] [LinearOrder T] in
theorem length_popOldest_lt (hmax : 0 < maxKeys) (hits : Hits K T) :
    (popOldest maxKeys hits).length < maxKeys := by
  induction hits with
  | nil => exact hmax
  | cons m rest ih =>
      rw [popOldest]
      split
      · exact ih
      · omega

theorem unique_evictKeys (h : Table.Unique Prod.fst hits) (keys : List K) :
    Table.Unique Prod.fst (evictKeys maxKeys now window keys hits) := by
  induction keys generalizing hits with
  | nil => exact List.Nodup.sublist ((popOldest_sublist hits).map Prod.fst) h
  | cons key keys ih =>
      rw [evictKeys]
      split
      · exact unique_pruneKey h key now window
      · exact ih (unique_pruneKey h key now window)

/-- After an eviction there is room for one more key. -/
theorem length_evictKeys_lt (hmax : 0 < maxKeys) (keys : List K) (hits : Hits K T) :
    (evictKeys maxKeys now window keys hits).length < maxKeys := by
  induction keys generalizing hits with
  | nil => exact length_popOldest_lt hmax hits
  | cons key keys ih =>
      rw [evictKeys]
      split
      · assumption
      · exact ih _

omit [AddCommGroup T] [LinearOrder T] in
theorem length_put_le (hits : Hits K T) (m : K × List T) :
    (Table.put Prod.fst m hits).length ≤ hits.length + 1 := by
  rw [Table.put, List.length_append, List.length_singleton]
  exact Nat.succ_le_succ (List.length_filter_le _ _)

omit [AddCommGroup T] [LinearOrder T] in
theorem length_put_of_mem {m : K × List T} (hm : m.1 ∈ hits.map Prod.fst) :
    (Table.put Prod.fst m hits).length ≤ hits.length := by
  obtain ⟨m', hm', hkey⟩ := List.mem_map.mp hm
  have hlt : (Table.erase Prod.fst m.1 hits).length < hits.length :=
    List.length_filter_lt_length_iff_exists.mpr ⟨m', hm', by simp [hkey]⟩
  rw [Table.put, List.length_append, List.length_singleton]
  exact hlt

/-- The dictionary after the room for the key of a call was made. -/
def cleared (maxKeys : ℕ) (hits : Hits K T) (c : Call K T) : Hits K T :=
  if maxKeys ≤ (pruneKey hits c.key c.now c.window).length ∧
      c.key ∉ (pruneKey hits c.key c.now c.window).map Prod.fst then
    evict maxKeys (pruneKey hits c.key c.now c.window) c.now c.window
  else pruneKey hits c.key c.now c.window

theorem cleared_spec (hmax : 0 < maxKeys) (hunique : Table.Unique Prod.fst hits)
    (hlen : hits.length ≤ maxKeys) (c : Call K T) :
    Table.Unique Prod.fst (cleared maxKeys hits c) ∧ (cleared maxKeys hits c).length ≤ maxKeys ∧
      ∀ times, (Table.put Prod.fst (c.key, times) (cleared maxKeys hits c)).length ≤ maxKeys := by
  have hpruned := length_pruneKey_le hits c.key c.now c.window
  rw [cleared]
  split
  · have hlt : (evict maxKeys (pruneKey hits c.key c.now c.window) c.now c.window).length <
        maxKeys := length_evictKeys_lt hmax _ _
    refine ⟨unique_evictKeys (unique_pruneKey hunique _ _ _) _, hlt.le, fun times => ?_⟩
    exact (length_put_le _ _).trans hlt
  · rename_i hroom
    refine ⟨unique_pruneKey hunique _ _ _, hpruned.trans hlen, fun times => ?_⟩
    by_cases hmem : c.key ∈ (pruneKey hits c.key c.now c.window).map Prod.fst
    · exact (length_put_of_mem hmem).trans (hpruned.trans hlen)
    · have hlt : (pruneKey hits c.key c.now c.window).length < maxKeys := by
        by_contra hge
        exact hroom ⟨not_lt.mp hge, hmem⟩
      exact (length_put_le _ _).trans hlt

/-- What a call does: nothing, or it makes room and gives a grant or not. -/
theorem allow_cases (hmax : 0 < maxKeys) (hunique : Table.Unique Prod.fst hits)
    (hlen : hits.length ≤ maxKeys) (c : Call K T) :
    allow maxKeys hits c = (false, hits) ∨ allow maxKeys hits c = (false, cleared maxKeys hits c) ∨
      ((recent hits c.key c.now c.window).length < c.limit ∧
        allow maxKeys hits c = (true, Table.put Prod.fst
          (c.key, recent hits c.key c.now c.window ++ [c.now]) (cleared maxKeys hits c))) := by
  have hput := (cleared_spec hmax hunique hlen c).2.2
  by_cases hlimit : c.limit < 1
  · exact .inl (if_pos hlimit)
  · have hallow : allow maxKeys hits c =
        if c.limit ≤ (recent hits c.key c.now c.window).length then
          (false, cleared maxKeys hits c)
        else
          let hits' := Table.put Prod.fst (c.key, recent hits c.key c.now c.window ++ [c.now])
            (cleared maxKeys hits c)
          (true, if maxKeys < hits'.length then evict maxKeys hits' c.now c.window else hits') :=
      if_neg hlimit
    rw [hallow]
    split
    · exact .inr (.inl rfl)
    · rename_i hfree
      refine .inr (.inr ⟨not_le.mp hfree, ?_⟩)
      dsimp only
      rw [if_neg (not_lt.mpr (hput _))]

/-- A limiter keeps at most as many keys as it is given. -/
theorem run_size (hmax : 0 < maxKeys) (calls : List (Call K T)) :
    Table.Unique Prod.fst (run maxKeys calls).hits ∧ (run maxKeys calls).hits.length ≤ maxKeys := by
  induction calls using List.reverseRecOn with
  | nil => exact ⟨List.nodup_nil, Nat.zero_le _⟩
  | append_singleton calls c ih =>
      obtain ⟨hunique, hlen⟩ := ih
      have hcleared := cleared_spec hmax hunique hlen c
      rw [run_concat]
      change Table.Unique Prod.fst (allow maxKeys (run maxKeys calls).hits c).2 ∧
        (allow maxKeys (run maxKeys calls).hits c).2.length ≤ maxKeys
      rcases allow_cases hmax hunique hlen c with h | h | ⟨-, h⟩
      · rw [h]
        exact ⟨hunique, hlen⟩
      · rw [h]
        exact ⟨hcleared.1, hcleared.2.1⟩
      · rw [h]
        exact ⟨unique_put hcleared.1 _, hcleared.2.2 _⟩

end Size

/-! ## What the dictionary knows -/

section Window

variable [IsOrderedAddMonoid T]

/-- The times of the grants of a key. -/
def grantsOf (grants : List (K × T)) (key : K) : List T :=
  (grants.filter fun g => g.1 = key).map Prod.snd

/-- From `now` on the dictionary has the grants of each key that are inside the window. -/
def Agrees (hits : Hits K T) (grants : List (K × T)) (window now : T) : Prop :=
  ∀ key later, now ≤ later → (hits.get key).filter (inWindow later window) =
    (grantsOf grants key).filter (inWindow later window)

/-- The keys of the calls inside the window. -/
def activeKeys (calls : List (Call K T)) (window now : T) : Finset K :=
  ((calls.filter fun c => inWindow now window c.now).map Call.key).toFinset

variable {maxKeys : ℕ} {hits : Hits K T} {grants : List (K × T)} {now later window : T}

omit [DecidableEq K] in
/-- What is inside the window later is inside it now. -/
theorem inWindow_of_le (h : now ≤ later) {t : T} (ht : inWindow later window t = true) :
    inWindow now window t = true := by
  rw [inWindow, decide_eq_true_eq] at ht ⊢
  exact lt_of_le_of_lt (sub_le_sub_right h t) ht

theorem filter_inWindow (h : now ≤ later) (times : List T) :
    (times.filter (inWindow now window)).filter (inWindow later window) =
      times.filter (inWindow later window) := by
  rw [List.filter_filter]
  apply List.filter_congr
  intro t _
  by_cases ht : inWindow later window t = true
  · simp [ht, inWindow_of_le h ht]
  · simp [ht]

omit [AddCommGroup T] [LinearOrder T] [IsOrderedAddMonoid T] in
theorem get_put (hits : Hits K T) (m : K × List T) (key : K) :
    Hits.get (Table.put Prod.fst m hits) key = if key = m.1 then m.2 else hits.get key := by
  rw [Hits.get, Table.lookup_put]
  split
  · rfl
  · rfl

omit [AddCommGroup T] [LinearOrder T] [IsOrderedAddMonoid T] in
theorem get_erase (hits : Hits K T) (key key' : K) :
    Hits.get (Table.erase Prod.fst key hits) key' = if key' = key then [] else hits.get key' := by
  rw [Hits.get, Table.lookup_erase]
  split
  · rfl
  · rfl

omit [IsOrderedAddMonoid T] in
theorem get_pruneKey (hits : Hits K T) (key key' : K) (now window : T) :
    (pruneKey hits key now window).get key' =
      if key' = key then recent hits key now window else hits.get key' := by
  rw [pruneKey]
  split
  · rename_i hnone
    rw [get_erase, hnone]
  · rw [get_put]

/-- Pruning loses nothing of the window. -/
theorem recent_pruneKey (hits : Hits K T) (key key' : K) (now window : T) :
    recent (pruneKey hits key now window) key' now window = recent hits key' now window := by
  rw [recent, get_pruneKey]
  split
  · rename_i hkey
    subst hkey
    exact filter_inWindow le_rfl _
  · rfl

omit [IsOrderedAddMonoid T] in
theorem mem_pruneKey {key key' : K}
    (h : key' ∈ (pruneKey hits key now window).map Prod.fst) :
    (key' = key ∧ recent hits key now window ≠ []) ∨
      (key' ≠ key ∧ key' ∈ hits.map Prod.fst) := by
  have herase : key' ∈ (Table.erase Prod.fst key hits).map Prod.fst →
      key' ≠ key ∧ key' ∈ hits.map Prod.fst := by
    intro hmem
    obtain ⟨m, hm, rfl⟩ := List.mem_map.mp hmem
    obtain ⟨hm, hne⟩ := List.mem_filter.mp hm
    exact ⟨by simpa using hne, List.mem_map_of_mem hm⟩
  rw [pruneKey] at h
  split at h
  · exact .inr (herase h)
  · rename_i hne
    rw [Table.put, List.map_append, List.mem_append] at h
    rcases h with h | h
    · exact .inr (herase h)
    · exact .inl ⟨by simpa using h, hne⟩

omit [IsOrderedAddMonoid T] in
theorem Agrees.mono (h : Agrees hits grants window now) (hle : now ≤ later) :
    Agrees hits grants window later := fun key _ hlater => h key _ (hle.trans hlater)

theorem Agrees.pruneKey (h : Agrees hits grants window now) (key : K) :
    Agrees (pruneKey hits key now window) grants window now := by
  intro key' later hle
  rw [get_pruneKey, ← h key' later hle]
  split
  · rename_i hkey
    subst hkey
    exact filter_inWindow hle _
  · rfl

omit [DecidableEq K] [AddCommGroup T] [LinearOrder T] [IsOrderedAddMonoid T] in
theorem popOldest_of_lt (h : hits.length < maxKeys) : popOldest maxKeys hits = hits := by
  cases hits with
  | nil => rfl
  | cons m rest => exact if_neg (not_le.mpr h)

/-- Where the keys with times inside the window are few, no such key is dropped.  The keys
that the loop has behind it have times inside the window, so that they all have at its end. -/
theorem Agrees.evictKeys {active : Finset K} (h : Agrees hits grants window now)
    (hunique : Table.Unique Prod.fst hits)
    (hactive : ∀ key, recent hits key now window ≠ [] → key ∈ active)
    (hfew : active.card < maxKeys) {keys : List K}
    (hkeys : ∀ key ∈ hits.map Prod.fst, key ∈ keys ∨ recent hits key now window ≠ []) :
    Agrees (evictKeys maxKeys now window keys hits) grants window now := by
  induction keys generalizing hits with
  | nil =>
      have hsub : (hits.map Prod.fst).toFinset ⊆ active := by
        intro key hkey
        rcases hkeys key (List.mem_toFinset.mp hkey) with hnil | hne
        · exact absurd hnil List.not_mem_nil
        · exact hactive key hne
      have hlen : hits.length < maxKeys := by
        calc hits.length = (hits.map Prod.fst).toFinset.card := by
              rw [List.toFinset_card_of_nodup hunique, List.length_map]
          _ ≤ active.card := Finset.card_le_card hsub
          _ < maxKeys := hfew
      rw [RateLimiter.evictKeys, popOldest_of_lt hlen]
      exact h
  | cons key keys ih =>
      rw [RateLimiter.evictKeys]
      split
      · exact h.pruneKey key
      · apply ih (h.pruneKey key) (unique_pruneKey hunique key now window)
        · intro key' hne
          rw [recent_pruneKey] at hne
          exact hactive key' hne
        · intro key' hmem
          rw [recent_pruneKey]
          rcases mem_pruneKey hmem with ⟨rfl, hne⟩ | ⟨hne, hmem⟩
          · exact .inr hne
          · rcases hkeys key' hmem with hcons | hrecent
            · exact .inl ((List.mem_cons.mp hcons).resolve_left hne)
            · exact .inr hrecent

/-- The dictionary agrees still when room was made for the key of a call. -/
theorem Agrees.cleared {active : Finset K} {c : Call K T} (h : Agrees hits grants c.window c.now)
    (hunique : Table.Unique Prod.fst hits)
    (hactive : ∀ key, recent hits key c.now c.window ≠ [] → key ∈ active)
    (hfew : active.card < maxKeys) : Agrees (cleared maxKeys hits c) grants c.window c.now := by
  rw [RateLimiter.cleared]
  split
  · apply (h.pruneKey c.key).evictKeys (unique_pruneKey hunique _ _ _) _ hfew
    · exact fun key hkey => .inl hkey
    · intro key hne
      rw [recent_pruneKey] at hne
      exact hactive key hne
  · exact h.pruneKey c.key

omit [AddCommGroup T] [LinearOrder T] [IsOrderedAddMonoid T] in
theorem grantsOf_concat (grants : List (K × T)) (key key' : K) (t : T) :
    grantsOf (grants ++ [(key, t)]) key' =
      grantsOf grants key' ++ if key' = key then [t] else [] := by
  rw [grantsOf, List.filter_append, List.map_append]
  by_cases hkey : key' = key
  · simp [grantsOf, hkey]
  · simp [grantsOf, hkey, Ne.symm hkey]

/-- A grant is written down in the dictionary. -/
theorem Agrees.grant {cleared : Hits K T} {key : K} (h : Agrees hits grants window now)
    (hcleared : Agrees cleared grants window now) :
    Agrees (Table.put Prod.fst (key, recent hits key now window ++ [now]) cleared)
      (grants ++ [(key, now)]) window now := by
  intro key' later hle
  rw [get_put, grantsOf_concat, List.filter_append]
  by_cases hkey : key' = key
  · subst hkey
    rw [if_pos rfl, if_pos rfl, List.filter_append, recent, filter_inWindow hle, h key' later hle]
  · rw [if_neg hkey, if_neg hkey, hcleared key' later hle, List.filter_nil, List.append_nil]

/-- At every call the keys of the calls inside the window are fewer than `maxKeys`. -/
def FewKeys (maxKeys : ℕ) (window : T) (calls : List (Call K T)) : Prop :=
  ∀ before c, before ++ [c] <+: calls → (activeKeys (before ++ [c]) window c.now).card < maxKeys

omit [IsOrderedAddMonoid T] in
theorem mem_grants {calls : List (Call K T)} {g : K × T} (hg : g ∈ (run maxKeys calls).grants) :
    ∃ c ∈ calls, (c.key, c.now) = g := by
  induction calls using List.reverseRecOn with
  | nil => exact absurd hg List.not_mem_nil
  | append_singleton calls c ih =>
      have hold : g ∈ (run maxKeys calls).grants → ∃ c' ∈ calls ++ [c], (c'.key, c'.now) = g := by
        intro hg
        obtain ⟨c', hc', hg⟩ := ih hg
        exact ⟨c', List.mem_append_left _ hc', hg⟩
      rw [run_concat, step] at hg
      split at hg
      · rcases List.mem_append.mp hg with hg | hg
        · exact hold hg
        · exact ⟨c, by simp, (List.mem_singleton.mp hg).symm⟩
      · exact hold hg

omit [IsOrderedAddMonoid T] in
/-- A key with times inside the window has a call inside it. -/
theorem mem_activeKeys {calls : List (Call K T)} {c : Call K T}
    (h : Agrees (run maxKeys calls).hits (run maxKeys calls).grants c.window c.now) {key : K}
    (hne : recent (run maxKeys calls).hits key c.now c.window ≠ []) :
    key ∈ activeKeys (calls ++ [c]) c.window c.now := by
  rw [recent, h key c.now le_rfl] at hne
  obtain ⟨t, ht⟩ := List.exists_mem_of_ne_nil _ hne
  obtain ⟨ht, hin⟩ := List.mem_filter.mp ht
  obtain ⟨g, hg, rfl⟩ := List.mem_map.mp ht
  obtain ⟨hg, hkey⟩ := List.mem_filter.mp hg
  obtain ⟨c', hc', rfl⟩ := mem_grants hg
  rw [activeKeys, List.mem_toFinset, List.mem_map]
  exact ⟨c', List.mem_filter.mpr ⟨List.mem_append_left _ hc', hin⟩, by simpa using hkey⟩

/-- The dictionary of a run agrees with its grants. -/
theorem run_agrees (hmax : 0 < maxKeys) {calls : List (Call K T)}
    (hsorted : calls.Pairwise fun c c' => c.now ≤ c'.now) (hwindow : ∀ c ∈ calls, c.window = window)
    (hfew : FewKeys maxKeys window calls) (hnow : ∀ c ∈ calls, c.now ≤ now) :
    Agrees (run maxKeys calls).hits (run maxKeys calls).grants window now := by
  induction calls using List.reverseRecOn generalizing now with
  | nil => exact fun key later _ => rfl
  | append_singleton calls c ih =>
      obtain ⟨hsorted, -, hlast⟩ := List.pairwise_append.mp hsorted
      have hc : c ∈ calls ++ [c] := by simp
      obtain rfl : c.window = window := hwindow c hc
      have hagrees : Agrees (run maxKeys calls).hits (run maxKeys calls).grants c.window c.now := by
        apply ih hsorted
        · exact fun c' hc' => hwindow c' (List.mem_append_left _ hc')
        · exact fun before c' hfront => hfew before c' (hfront.trans (List.prefix_append _ _))
        · exact fun c' hc' => hlast c' hc' c List.mem_cons_self
      obtain ⟨hunique, hlen⟩ := run_size hmax calls
      have hcleared := hagrees.cleared hunique (fun key hne => mem_activeKeys hagrees hne)
        (hfew calls c List.prefix_rfl)
      rw [run_concat, step]
      apply Agrees.mono _ (hnow c hc)
      rcases allow_cases hmax hunique hlen c with h | h | ⟨-, h⟩
      · rw [h]
        exact hagrees
      · rw [h]
        exact hcleared
      · rw [h]
        exact hagrees.grant hcleared

/-- Within times that lie less than a window apart a key has no more grants than its cap.
The grants before a new one are all in the dictionary when it is given. -/
theorem countP_grants_le (hmax : 0 < maxKeys) {calls : List (Call K T)}
    (hsorted : calls.Pairwise fun c c' => c.now ≤ c'.now) (hwindow : ∀ c ∈ calls, c.window = window)
    (hfew : FewKeys maxKeys window calls) {key : K} {cap : ℕ}
    (hcap : ∀ c ∈ calls, c.key = key → c.limit ≤ cap) {p : T → Bool}
    (hp : ∀ t u, p t = true → p u = true → inWindow u window t = true) :
    (grantsOf (run maxKeys calls).grants key).countP p ≤ cap := by
  induction calls using List.reverseRecOn with
  | nil => exact Nat.zero_le _
  | append_singleton calls c ih =>
      obtain ⟨hsorted, -, hlast⟩ := List.pairwise_append.mp hsorted
      have hc : c ∈ calls ++ [c] := by simp
      obtain rfl : c.window = window := hwindow c hc
      have hwindow' : ∀ c' ∈ calls, c'.window = c.window :=
        fun c' hc' => hwindow c' (List.mem_append_left _ hc')
      have hfew' : FewKeys maxKeys c.window calls :=
        fun before c' hfront => hfew before c' (hfront.trans (List.prefix_append _ _))
      have hold : (grantsOf (run maxKeys calls).grants key).countP p ≤ cap :=
        ih hsorted hwindow' hfew' fun c' hc' => hcap c' (List.mem_append_left _ hc')
      have hagrees := run_agrees hmax hsorted hwindow' hfew'
        (fun c' hc' => hlast c' hc' c List.mem_cons_self)
      obtain ⟨hunique, hlen⟩ := run_size hmax calls
      rw [run_concat, step]
      rcases allow_cases hmax hunique hlen c with h | h | ⟨hfree, h⟩
      · rw [h]
        exact hold
      · rw [h]
        exact hold
      · rw [h]
        dsimp only
        rw [if_pos rfl, grantsOf_concat, List.countP_append]
        by_cases hnew : key = c.key ∧ p c.now = true
        · obtain ⟨rfl, hnow⟩ := hnew
          have hseen : (grantsOf (run maxKeys calls).grants c.key).countP p ≤
              (recent (run maxKeys calls).hits c.key c.now c.window).length := by
            rw [recent, hagrees c.key c.now le_rfl, ← List.countP_eq_length_filter]
            apply List.countP_mono_left
            intro t _ ht
            exact hp t c.now ht hnow
          have hone : (if c.key = c.key then [c.now] else []).countP p = 1 := by simp [hnow]
          have hlimit := hcap c hc rfl
          rw [hone]
          omega
        · have hnone : (if key = c.key then [c.now] else []).countP p = 0 := by
            split
            · rename_i hkey
              simpa using fun hnow => hnew ⟨hkey, hnow⟩
            · rfl
          rw [hnone]
          exact hold

/-! ## The limit -/

/-- `max(1, int(max_keys))`. -/
def keyBound (maxKeys : ℤ) : ℕ := (max 1 maxKeys).toNat

theorem keyBound_pos (maxKeys : ℤ) : 0 < keyBound maxKeys := by
  rw [keyBound]
  omega

/-- Three calls of one key with a cap of one. -/
def sampleCalls : List (Call ℕ ℤ) := [⟨7, 1, 60, 0⟩, ⟨7, 1, 60, 59⟩, ⟨7, 1, 60, 60⟩]

end Window

end Signal402.RateLimiter
