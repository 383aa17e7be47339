import Signal402.Algo.MsgPackCanonical

/-!
# How many bytes a form takes

The lengths of the forms, and what becomes of the length of a dictionary when one integer
of it changes.
-/

namespace Signal402

variable {py : Interp}

/-! ## Lengths of the forms -/

theorem length_uintForm (n : ℕ) : (uintForm n).length =
    if n < 128 then 1 else if n < 256 then 2 else if n < 65536 then 3
      else if n < 2 ^ 32 then 5 else 9 := by
  unfold uintForm
  split_ifs <;> simp

theorem length_strForm (raw : Bytes) : (strForm raw).length =
    (if raw.length < 32 then 1 else 2) + raw.length := by
  unfold strForm
  split_ifs
  · rw [List.length_append, BigEndian.length_encode]
  · rw [List.cons_append, List.length_cons, List.length_append, BigEndian.length_encode]
    omega

theorem length_binForm (b : Bytes) : (binForm b).length =
    (if b.length < 256 then 2 else 3) + b.length := by
  unfold binForm
  split_ifs
  · rw [List.cons_append, List.length_cons, List.length_append, BigEndian.length_encode]
    omega
  · rw [List.cons_append, List.length_cons, List.length_append, BigEndian.length_encode]
    omega

theorem length_mapHead (n : ℕ) : (mapHead n).length = if n < 16 then 1 else 3 := by
  unfold mapHead
  split_ifs <;> simp

/-! ## Dictionaries in the order of their keys -/

/-- The bytes under each key, up to the first value that raises. -/
def encodedPairs (items : List (PyStr × Option (Except PyError Bytes))) :
    Except PyError (List (PyStr × Bytes)) :=
  (items.filterMap fun m => m.2.map fun x => (m.1, x)).mapM
    fun m : PyStr × Except PyError Bytes => m.2.map fun x => (m.1, x)

theorem encodeItems_of_pairwise {items : List (PyStr × Option (Except PyError Bytes))}
    (h : (items.map Prod.fst).Pairwise fun k l => PyStr.lt k l = true) :
    encodeItems items = (encodedPairs items).bind mpMap := by
  rw [encodeItems, keptItems, sortedItems_of_pairwise h, encodedPairs]

theorem encodedPairs_cons {key : PyStr} {bs : Bytes}
    (items : List (PyStr × Option (Except PyError Bytes))) :
    encodedPairs ((key, some (.ok bs)) :: items) =
      (encodedPairs items).map fun pairs => (key, bs) :: pairs := by
  have hfirst : encodedPairs ((key, some (.ok bs)) :: items) =
      ((key, Except.ok bs) :: items.filterMap fun m => m.2.map fun x => (m.1, x)).mapM
        fun m : PyStr × Except PyError Bytes => m.2.map fun x => (m.1, x) := rfl
  rw [hfirst, List.mapM_cons]
  change (encodedPairs items).bind _ = _
  cases encodedPairs items <;> rfl

/-- The keys of the encoded values are those of the dictionary. -/
theorem encodeValues_keys (d : MsgDict) :
    (encodeValues py d).map Prod.fst = d.map Prod.fst := by
  rw [encodeValues_eq, List.map_map]
  rfl

/-- Another first integer changes the length by the difference of the two forms. -/
theorem msgpackEncode_cons_int {key : PyStr} {tail : MsgDict} {m n : ℕ} {bs : Bytes}
    (hkeys : (key :: tail.map Prod.fst).Pairwise fun k l => PyStr.lt k l = true)
    (hm : m < 2 ^ 64) (hn : n < 2 ^ 64)
    (h : msgpackEncode py ((key, .int n) :: tail) = .ok bs) :
    ∃ bs', msgpackEncode py ((key, .int m) :: tail) = .ok bs' ∧
      bs'.length + (uintForm n).length = bs.length + (uintForm m).length := by
  have hencode : ∀ {k : ℕ}, k < 2 ^ 64 → msgpackEncode py ((key, .int k) :: tail) =
      (encodedPairs (encodeValues py tail)).bind fun pairs =>
        mpMap ((key, uintForm k) :: pairs) := by
    intro k hk
    have hvalues : encodeValues py ((key, .int k) :: tail) =
        (key, some (.ok (uintForm k))) :: encodeValues py tail := by
      rw [encodeValues, encodeValue, mpUint_eq hk]
    rw [msgpackEncode, hvalues, encodeItems_of_pairwise, encodedPairs_cons]
    · cases encodedPairs (encodeValues py tail) <;> rfl
    · rw [List.map_cons, encodeValues_keys]
      exact hkeys
  rw [hencode hn] at h
  obtain ⟨pairs, hpairs, hmap⟩ := bind_eq_ok.mp h
  obtain ⟨⟨hlen, hfit⟩, rfl⟩ := mpMap_eq_ok.mp hmap
  rw [hencode hm, hpairs]
  refine ⟨_, mpMap_eq_ok.mpr ⟨⟨hlen, ?_⟩, rfl⟩, ?_⟩
  · intro p hp
    rcases List.mem_cons.mp hp with rfl | hp
    · exact hfit (key, uintForm n) List.mem_cons_self
    · exact hfit p (List.mem_cons_of_mem _ hp)
  · simp only [pairsForm, List.map_cons, List.flatten_cons, List.length_append, List.length_cons]
    omega

/-- A dictionary of two values of which the first is written. -/
theorem encodeItems_two {k l : PyStr} {bs : Bytes} {x : Except PyError Bytes}
    (hkeys : PyStr.lt k l = true) (hk : FitsKey k) (hl : FitsKey l) :
    encodeItems [(k, some (.ok bs)), (l, some x)] = x.map fun out =>
      mapHead 2 ++ pairsForm [(k, bs), (l, out)] := by
  rw [encodeItems_of_pairwise (by simpa using hkeys), encodedPairs_cons]
  cases x with
  | error e => rfl
  | ok out =>
      exact mpMap_eq_ok.mpr ⟨⟨by simp, by simp [hk, hl]⟩, rfl⟩

end Signal402
