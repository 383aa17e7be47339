import Signal402.Algo.MsgPackRead

/-!
# Encoding and decoding

* `msgpackDecode_eq_ok` — the strict decoder accepts the strict forms of a dictionary
  and nothing else;
* `msgpackDecode_encode` — it reads back what the encoder writes;
* `msgpackDecode_canonical` — a dictionary that was read from plain forms is written in
  the bytes it was read from.
-/

namespace Signal402

variable {str : Msgpack → PyStr} {py : Interp} {strict : Bool}

/-! ## What the decoder accepts -/

/-- Every run ends with a dictionary or a `ValueError`, in both modes. -/
theorem msgpackDecode_cases (raw : Bytes) :
    (∃ d, msgpackDecode str strict raw = .ok d) ∨
      ∃ e, msgpackDecode str strict raw = .error e ∧ e.cls = .valueError := by
  have hreads : Reads (fun _ => True) (msgpackDecode str strict raw) := by
    unfold msgpackDecode
    apply Reads.ite (fun _ => Reads.valueError _)
    intro _
    apply (mpRead_found (maxMsgpackDepth + 1) 0).bind
    rintro ⟨v, j⟩ _
    cases v with
    | dict d => exact Reads.ite (fun _ => Reads.valueError _) fun _ => Reads.ok trivial
    | _ => exact Reads.valueError _
  rcases hreads.cases with ⟨d, hd, -⟩ | he
  · exact .inl ⟨d, hd⟩
  · exact .inr he

/-- The strict decoder accepts the strict forms of dictionaries that are not too long. -/
theorem msgpackDecode_eq_ok {raw : Bytes} {d : MsgDict} :
    msgpackDecode str true raw = .ok d ↔
      raw.length ≤ maxMsgpackBytes ∧
        ∃ w : Wire, w.Strict (maxMsgpackDepth + 1) ∧ w.bytes = raw ∧ w.value = .dict d := by
  unfold msgpackDecode
  constructor
  · intro h
    split at h
    · cases h
    next hlen =>
    obtain ⟨⟨v, j⟩, hread, hv⟩ := bind_eq_ok.mp h
    obtain ⟨-, -, hwire⟩ := (mpRead_found (maxMsgpackDepth + 1) 0).of_ok hread
    obtain ⟨w, hw, rfl, hat, rfl⟩ := hwire rfl
    cases hval : w.value with
    | dict d' =>
        rw [hval] at hv
        dsimp only at hv
        split at hv
        · cases hv
        · next hend =>
            cases hv
            exact ⟨by omega, w, hw, hat.eq_of_length (by omega), hval⟩
    | _ =>
        rw [hval] at hv
        cases hv
  · rintro ⟨hlen, w, hw, rfl, hval⟩
    have hread : mpRead str true w.bytes (maxMsgpackDepth + 1) 0 =
        .ok (w.value, 0 + w.bytes.length) := mpRead_at _ w 0 hw (At.all w.bytes)
    rw [if_neg (by omega), hread, Except.bind, hval]
    dsimp only
    rw [if_neg (by simp)]

/-! ## What the encoder writes -/

theorem mpUint_eq {n : ℕ} (hn : n < 2 ^ 64) : mpUint n = .ok (uintForm n) := by
  have hnat : (n : ℤ).toNat = n := by simp
  unfold mpUint uintForm
  rw [hnat, if_neg (by omega)]
  by_cases h1 : n < 128
  · rw [if_pos (by omega), if_pos h1]
  by_cases h2 : n < 256
  · rw [if_neg (by omega), if_pos (by omega), if_neg h1, if_pos h2]
  by_cases h3 : n < 65536
  · rw [if_neg (by omega), if_neg (by omega), if_pos (by omega), if_neg h1, if_neg h2,
      if_pos h3]
  by_cases h4 : n < 2 ^ 32
  · rw [if_neg (by omega), if_neg (by omega), if_neg (by omega), if_pos (by omega), if_neg h1,
      if_neg h2, if_neg h3, if_pos h4]
  · rw [if_neg (by omega), if_neg (by omega), if_neg (by omega), if_neg (by omega),
      if_pos (by omega), if_neg h1, if_neg h2, if_neg h3, if_neg h4]

theorem mpBin_eq {b : Bytes} (hb : b.length < 65536) : mpBin b = .ok (binForm b) := by
  unfold mpBin binForm
  by_cases h1 : b.length < 256
  · rw [if_pos h1, if_pos h1]
  · rw [if_neg h1, if_pos hb, if_neg h1]

/-- The texts that are written: without surrogates, and under 256 bytes. -/
theorem mpStr_eq_ok {s : PyStr} {bs : Bytes} :
    mpStr s = .ok bs ↔
      (s.any CodePoint.isSurrogate = false ∧ (utf8Bytes s).length < 256) ∧
        bs = strForm (utf8Bytes s) := by
  unfold mpStr strForm
  rw [bind_eq_ok]
  constructor
  · rintro ⟨raw, hraw, hbs⟩
    obtain ⟨hsur, rfl⟩ := utf8Encode_eq_ok.mp hraw
    by_cases h1 : (utf8Bytes s).length < 32
    · rw [if_pos h1] at hbs ⊢
      cases hbs
      exact ⟨⟨hsur, by omega⟩, rfl⟩
    rw [if_neg h1] at hbs ⊢
    by_cases h2 : (utf8Bytes s).length < 256
    · rw [if_pos h2] at hbs
      cases hbs
      exact ⟨⟨hsur, h2⟩, rfl⟩
    · rw [if_neg h2] at hbs
      cases hbs
  · rintro ⟨⟨hsur, hlen⟩, rfl⟩
    refine ⟨utf8Bytes s, utf8Encode_eq_ok.mpr ⟨hsur, rfl⟩, ?_⟩
    by_cases h1 : (utf8Bytes s).length < 32
    · rw [if_pos h1, if_pos h1]
    · rw [if_neg h1, if_pos hlen, if_neg h1]

theorem mpArray_eq_ok {items : List Bytes} {bs : Bytes} :
    mpArray items = .ok bs ↔
      items.length < 65536 ∧ bs = arrayHead items.length ++ items.flatten := by
  unfold mpArray arrayHead
  by_cases h1 : items.length < 16
  · rw [if_pos h1, if_pos h1, Except.ok.injEq]
    constructor
    · rintro rfl
      exact ⟨by omega, rfl⟩
    · rintro ⟨-, rfl⟩
      rfl
  rw [if_neg h1, if_neg h1]
  by_cases h2 : items.length < 65536
  · rw [if_pos h2, Except.ok.injEq]
    constructor
    · rintro rfl
      exact ⟨h2, rfl⟩
    · rintro ⟨-, rfl⟩
      rfl
  · rw [if_neg h2]
    simp [h2]

/-- The bytes of the entries of a map. -/
def pairsForm (pairs : List (PyStr × Bytes)) : Bytes :=
  (pairs.map fun m => strForm (utf8Bytes m.1) ++ m.2).flatten

/-- A key that the encoder takes. -/
def FitsKey (key : PyStr) : Prop :=
  key.any CodePoint.isSurrogate = false ∧ (utf8Bytes key).length < 256

theorem mpPairs_eq_ok {pairs : List (PyStr × Bytes)} {bs : Bytes} :
    mpPairs pairs = .ok bs ↔ (∀ m ∈ pairs, FitsKey m.1) ∧ bs = pairsForm pairs := by
  induction pairs generalizing bs with
  | nil =>
      rw [mpPairs, Except.ok.injEq]
      simp [pairsForm, eq_comm]
  | cons m rest ih =>
      obtain ⟨key, val⟩ := m
      rw [mpPairs, bind_eq_ok]
      simp only [List.forall_mem_cons, pairsForm, List.map_cons, List.flatten_cons]
      constructor
      · rintro ⟨k, hk, hbs⟩
        obtain ⟨tail, htail, rfl⟩ := map_eq_ok.mp hbs
        obtain ⟨hfit, rfl⟩ := mpStr_eq_ok.mp hk
        obtain ⟨hrest, rfl⟩ := ih.mp htail
        exact ⟨⟨hfit, hrest⟩, rfl⟩
      · rintro ⟨⟨hfit, hrest⟩, rfl⟩
        exact ⟨_, mpStr_eq_ok.mpr ⟨hfit, rfl⟩, map_eq_ok.mpr ⟨_, ih.mpr ⟨hrest, rfl⟩, rfl⟩⟩

theorem mpMap_eq_ok {pairs : List (PyStr × Bytes)} {bs : Bytes} :
    mpMap pairs = .ok bs ↔
      (pairs.length < 65536 ∧ ∀ m ∈ pairs, FitsKey m.1) ∧
        bs = mapHead pairs.length ++ pairsForm pairs := by
  unfold mpMap mapHead
  by_cases h1 : pairs.length < 16
  · rw [if_pos h1, if_pos h1, map_eq_ok]
    constructor
    · rintro ⟨out, hout, rfl⟩
      obtain ⟨hfit, rfl⟩ := mpPairs_eq_ok.mp hout
      exact ⟨⟨by omega, hfit⟩, rfl⟩
    · rintro ⟨⟨-, hfit⟩, rfl⟩
      exact ⟨_, mpPairs_eq_ok.mpr ⟨hfit, rfl⟩, rfl⟩
  rw [if_neg h1, if_neg h1]
  by_cases h2 : pairs.length < 65536
  · rw [if_pos h2, map_eq_ok]
    constructor
    · rintro ⟨out, hout, rfl⟩
      obtain ⟨hfit, rfl⟩ := mpPairs_eq_ok.mp hout
      exact ⟨⟨h2, hfit⟩, rfl⟩
    · rintro ⟨⟨-, hfit⟩, rfl⟩
      exact ⟨_, mpPairs_eq_ok.mpr ⟨hfit, rfl⟩, rfl⟩
  · rw [if_neg h2]
    simp [h2]

theorem encodeValues_eq (d : MsgDict) :
    encodeValues py d = d.map fun m => (m.1, encodeValue py m.2) := by
  induction d with
  | nil => rfl
  | cons m rest ih => simp [encodeValues, ih]

section Sorted

variable {α β : Type}

theorem sortedItems_perm (items : List (PyStr × α)) : (sortedItems items).Perm items :=
  List.perm_insertionSort _ _

/-- Sorting by the keys does not look at the values. -/
theorem sortedItems_map (f : α → β) (items : List (PyStr × α)) :
    sortedItems (items.map fun m => (m.1, f m.2)) =
      (sortedItems items).map fun m => (m.1, f m.2) := by
  symm
  apply List.map_insertionSort
  intro a _ b _
  exact Iff.rfl

/-- Entries whose keys ascend are sorted. -/
theorem sortedItems_of_pairwise {items : List (PyStr × α)}
    (h : (items.map Prod.fst).Pairwise fun k l => PyStr.lt k l = true) :
    sortedItems items = items := by
  apply List.Pairwise.insertionSort_eq
  rw [List.pairwise_map] at h
  exact h.imp fun hab => (PyStr.lt_iff.mp hab).1

/-- Distinct keys ascend once they are sorted. -/
theorem sortedItems_pairwise {items : List (PyStr × α)} (h : (items.map Prod.fst).Nodup) :
    ((sortedItems items).map Prod.fst).Pairwise fun k l => PyStr.lt k l = true := by
  have hnodup : ((sortedItems items).map Prod.fst).Nodup :=
    ((sortedItems_perm items).map Prod.fst).nodup_iff.mpr h
  have hle : (sortedItems items).Pairwise fun a b => PyStr.le a.1 b.1 = true := by
    have : Std.Total fun a b : PyStr × α => PyStr.le a.1 b.1 = true :=
      ⟨fun a b => PyStr.le_total a.1 b.1⟩
    have : IsTrans (PyStr × α) fun a b => PyStr.le a.1 b.1 = true :=
      ⟨fun _ _ _ => PyStr.le_trans⟩
    exact List.pairwise_insertionSort _ _
  rw [List.pairwise_map]
  rw [List.Nodup, List.pairwise_map] at hnodup
  exact (hle.and hnodup).imp fun hab => PyStr.lt_iff.mpr hab

end Sorted

/-! ## What was read is written as it stood -/

namespace Wire

/-- A value that holds no other. -/
inductive Scalar : Wire → Prop
  | int (n : ℕ) : Scalar (.int n)
  | text (s : PyStr) : Scalar (.text s)
  | bin (b : Bytes) : Scalar (.bin b)

/-- An integer or a byte string. -/
inductive Figure : Wire → Prop
  | int (n : ℕ) : Figure (.int n)
  | bin (b : Bytes) : Figure (.bin b)

/-- Byte strings are in bin forms, texts are UTF-8 in fixstr or str8 form, and the values
of an array satisfy `P`. -/
inductive Plain (P : Wire → Prop) : Wire → Prop
  | int (n : ℕ) : Plain P (.int n)
  | text (s : PyStr) : Plain P (.text s)
  | bin (b : Bytes) : Plain P (.bin b)
  | array (items : List Wire) (h : ∀ w ∈ items, P w) : Plain P (.array items)
  | map (items : List (PyStr × Wire)) (h : ∀ m ∈ items, Plain P m.2) : Plain P (.map items)

theorem bytesItems_eq (items : List (PyStr × Wire)) :
    bytesItems items = pairsForm (items.map fun m => (m.1, m.2.bytes)) := by
  induction items with
  | nil => rfl
  | cons m rest ih =>
      rw [bytesItems, ih]
      simp [pairsForm]

end Wire

/-- The element of a list that an integer or a byte string writes. -/
theorem encodeItem_value {w : Wire} {left : ℕ} (hw : w.Strict left) (h : w.Figure) :
    encodeItem py w.value = .ok w.bytes := by
  cases left with
  | zero => exact hw.elim
  | succ left =>
      cases h with
      | int n => exact mpUint_eq hw
      | bin b => exact mpBin_eq hw

/-- A plain form is what the encoder makes of its value. -/
theorem encodeValue_value {w : Wire} {left : ℕ} (hw : w.Strict left) (h : w.Plain Wire.Figure) :
    encodeValue py w.value = some (.ok w.bytes) := by
  induction h generalizing left with
  | int n =>
      cases left with
      | zero => exact hw.elim
      | succ left =>
          rw [Wire.value, encodeValue, mpUint_eq hw]
          rfl
  | text s =>
      cases left with
      | zero => exact hw.elim
      | succ left =>
          rw [Wire.value, encodeValue, mpStr_eq_ok.mpr ⟨hw, rfl⟩]
          rfl
  | bin b =>
      cases left with
      | zero => exact hw.elim
      | succ left =>
          rw [Wire.value, encodeValue, mpBin_eq hw]
          rfl
  | array items h =>
      cases left with
      | zero => exact hw.elim
      | succ left =>
          have hitems : (items.map Wire.value).mapM (encodeItem py) =
              .ok (items.map Wire.bytes) := by
            rw [List.mapM_map]
            apply mapM_eq_ok
            intro w hmem
            exact encodeItem_value (hw.2 w hmem) (h w hmem)
          rw [Wire.value, encodeValue, Wire.valueAll_eq, hitems, Except.bind,
            mpArray_eq_ok.mpr ⟨by simpa using hw.1, rfl⟩]
          simp [Wire.bytes]
  | map items h ih =>
      cases left with
      | zero => exact hw.elim
      | succ left =>
          obtain ⟨hlen, hpair, hitems⟩ := hw
          -- every value is written, and the keys ascend already
          have hvalues : encodeValues py (Wire.valueItems items) =
              items.map fun m => (m.1, some (.ok m.2.bytes)) := by
            rw [encodeValues_eq, Wire.valueItems_eq, List.map_map]
            apply List.map_congr_left
            intro m hm
            simp only [Function.comp_apply]
            rw [ih m hm (hitems m hm).2]
          have hkept : keptItems (encodeValues py (Wire.valueItems items)) =
              items.map fun m => (m.1, .ok m.2.bytes) := by
            rw [hvalues, keptItems, sortedItems_of_pairwise, List.filterMap_map]
            · simp
            · simpa [Function.comp_def] using hpair
          have hmap : mpMap (items.map fun m => (m.1, m.2.bytes)) =
              .ok (Wire.bytes (.map items)) := by
            rw [mpMap_eq_ok]
            refine ⟨⟨by simpa using hlen, ?_⟩, by simp [Wire.bytes, Wire.bytesItems_eq]⟩
            intro m hm
            obtain ⟨m', hm', rfl⟩ := List.mem_map.mp hm
            exact ⟨(hitems m' hm').1.text, (hitems m' hm').1.short⟩
          have hpairs : (keptItems (encodeValues py (Wire.valueItems items))).mapM
              (fun m : PyStr × Except PyError Bytes => m.2.map fun x => (m.1, x)) =
                .ok (items.map fun m => (m.1, m.2.bytes)) := by
            rw [hkept, List.mapM_map]
            apply mapM_eq_ok
            intro m _
            rfl
          rw [Wire.value, encodeValue, encodeItems, hpairs]
          exact congrArg some hmap

/-! ## Dictionaries that are equal -/

namespace Msgpack

theorem sameItems_iff {xs ys : MsgDict} :
    sameItems xs ys = true ↔
      ∀ m ∈ xs, ∃ m', (ys.find? fun x => x.1 == m.1) = some m' ∧ same m.2 m'.2 = true := by
  induction xs with
  | nil => simp [sameItems]
  | cons m rest ih =>
      obtain ⟨k, v⟩ := m
      rw [sameItems, Bool.and_eq_true, ih, List.forall_mem_cons]
      apply and_congr_left
      intro _
      dsimp only
      cases ys.find? fun x => x.1 == k with
      | none => simp
      | some m' => simp

theorem sameAll_iff {xs ys : List Msgpack} :
    sameAll xs ys = true ↔ List.Forall₂ (fun x y => same x y = true) xs ys := by
  induction xs generalizing ys with
  | nil => cases ys <;> simp [sameAll]
  | cons x xs ih =>
      cases ys with
      | nil => simp [sameAll]
      | cons y ys => simp [sameAll, ih]

end Msgpack

/-- Entries that ascend and are found among as many others that ascend are those. -/
theorem eq_of_ascending {xs ys : MsgDict}
    (hx : (xs.map Prod.fst).Pairwise fun k l => PyStr.lt k l = true)
    (hy : (ys.map Prod.fst).Pairwise fun k l => PyStr.lt k l = true)
    (hlen : xs.length = ys.length) (hsub : ∀ m ∈ xs, m ∈ ys) : xs = ys := by
  rw [List.pairwise_map] at hx hy
  have hnodup : xs.Nodup := by
    apply hx.imp
    intro a b hab heq
    subst heq
    exact (PyStr.lt_iff.mp hab).2 rfl
  have hperm : xs.Perm ys := (List.subperm_of_subset hnodup hsub).perm_of_length_le hlen.ge
  apply hperm.eq_of_pairwise _ hx hy
  intro a b _ _ hab hba
  have hle := PyStr.le_antisymm (PyStr.lt_iff.mp hab).1 (PyStr.lt_iff.mp hba).1
  exact absurd hle (PyStr.lt_iff.mp hab).2

/-- The values of strict forms are equal only if they are the same. -/
theorem Wire.value_eq_of_same {left : ℕ} {v w : Wire} (hv : v.Strict left) (hw : w.Strict left)
    (h : v.value.same w.value = true) : v.value = w.value := by
  induction left generalizing v w with
  | zero => exact hv.elim
  | succ left ih =>
      -- values of different kinds are not equal
      cases v <;> cases w <;>
        simp only [Wire.value, Msgpack.same, Bool.false_eq_true, beq_iff_eq, Bool.and_eq_true] at h
      case array.array xs ys =>
          rw [Msgpack.sameAll_iff, Wire.valueAll_eq, Wire.valueAll_eq, List.forall₂_map_left_iff,
            List.forall₂_map_right_iff] at h
          rw [Wire.value, Wire.value, Wire.valueAll_eq, Wire.valueAll_eq]
          refine congrArg Msgpack.list ?_
          rw [← List.forall₂_eq_eq_eq, List.forall₂_map_left_iff, List.forall₂_map_right_iff]
          rw [List.forall₂_iff_get] at h ⊢
          refine ⟨h.1, fun i hi hi' => ?_⟩
          exact ih (hv.2 _ (List.get_mem xs _)) (hw.2 _ (List.get_mem ys _)) (h.2 i hi hi')
      case map.map xs ys =>
          rw [Wire.value, Wire.value]
          refine congrArg Msgpack.dict ?_
          rw [Wire.valueItems_eq, Wire.valueItems_eq] at h ⊢
          rw [Msgpack.sameItems_iff] at h
          apply eq_of_ascending
          · simpa [Function.comp_def] using hv.2.1
          · simpa [Function.comp_def] using hw.2.1
          · exact h.1
          · intro m hm
            obtain ⟨m', hfind, hsame⟩ := h.2 m hm
            have hmem := List.mem_of_find?_eq_some hfind
            have hkey : m'.1 = m.1 := by simpa using List.find?_some hfind
            obtain ⟨x, hx, rfl⟩ := List.mem_map.mp hm
            obtain ⟨y, hy, rfl⟩ := List.mem_map.mp hmem
            have hvalue := ih (hv.2.2 x hx).2 (hw.2.2 y hy).2 hsame
            dsimp only at hkey hvalue ⊢
            rw [hvalue, ← hkey]
            exact hmem
      all_goals rw [Wire.value, Wire.value, h]

/-- The strict decoder returns a dictionary or raises a `ValueError`, and a dictionary is
that of a strict form of the input.  When the form is plain, with integers and byte
strings in its arrays, the encoder makes the input of the dictionary, and no other input
in such a form is read as an equal dictionary. -/
theorem msgpackDecode_canonical (str : Msgpack → PyStr) (py : Interp) (raw : Bytes) :
    ((∃ d, msgpackDecode str true raw = .ok d) ∨
      ∃ e, msgpackDecode str true raw = .error e ∧ e.cls = .valueError) ∧
    ∀ d, msgpackDecode str true raw = .ok d →
      (∃ w : Wire, w.Strict (maxMsgpackDepth + 1) ∧ w.bytes = raw ∧ w.value = .dict d) ∧
      ∀ w : Wire, w.Strict (maxMsgpackDepth + 1) → w.bytes = raw → w.Plain Wire.Figure →
        msgpackEncode py d = .ok raw ∧
        ∀ (raw' : Bytes) (d' : MsgDict) (w' : Wire), msgpackDecode str true raw' = .ok d' →
          (Msgpack.dict d').same (.dict d) = true →
          w'.Strict (maxMsgpackDepth + 1) → w'.bytes = raw' → w'.Plain Wire.Figure →
            raw' = raw := by
  refine ⟨msgpackDecode_cases raw, fun d hd => ⟨(msgpackDecode_eq_ok.mp hd).2, ?_⟩⟩
  -- a form of an accepted input has the dictionary that was read as its value
  have hvalue : ∀ (raw : Bytes) (d : MsgDict) (w : Wire), msgpackDecode str true raw = .ok d →
      w.Strict (maxMsgpackDepth + 1) → w.bytes = raw → w.value = .dict d := by
    rintro raw d w hd hw rfl
    obtain ⟨hlen, w', hw', hbytes, hval⟩ := msgpackDecode_eq_ok.mp hd
    have hread : mpRead str true w.bytes (maxMsgpackDepth + 1) 0 =
        .ok (w.value, 0 + w.bytes.length) := mpRead_at _ w 0 hw (At.all w.bytes)
    have hat : At w.bytes 0 w'.bytes := by
      rw [hbytes]
      exact At.all w.bytes
    rw [mpRead_at _ w' 0 hw' hat, Except.ok.injEq, Prod.mk.injEq] at hread
    rw [← hread.1]
    exact hval
  have hencode : ∀ (raw : Bytes) (d : MsgDict) (w : Wire), msgpackDecode str true raw = .ok d →
      w.Strict (maxMsgpackDepth + 1) → w.bytes = raw → w.Plain Wire.Figure →
        msgpackEncode py d = .ok raw := by
    rintro raw d w hd hw hbytes hplain
    have hval : encodeValue py w.value = some (.ok w.bytes) := encodeValue_value hw hplain
    rw [hvalue raw d w hd hw hbytes, hbytes, encodeValue, Option.some.injEq] at hval
    exact hval
  rintro w hw hbytes hplain
  refine ⟨hencode raw d w hd hw hbytes hplain, ?_⟩
  rintro raw' d' w' hd' hsame hw' hbytes' hplain'
  have heq : w'.value = w.value := by
    apply Wire.value_eq_of_same hw' hw
    rwa [hvalue raw' d' w' hd' hw' hbytes', hvalue raw d w hd hw hbytes]
  rw [hvalue raw' d' w' hd' hw' hbytes', hvalue raw d w hd hw hbytes] at heq
  cases heq
  have hraw := hencode raw d w hd hw hbytes hplain
  rw [hencode raw' d w' hd' hw' hbytes' hplain'] at hraw
  cases hraw
  rfl

set_option maxRecDepth 8000 in
theorem msgpackDecode_canonical_bin :
    msgpackEncode Interp.plain [(PyStr.ofString "a", .bytes [0xFF])] =
      .ok [0x81, 0xA1, 0x61, 0xC4, 0x01, 0xFF] := by
  have hcanonical := msgpackDecode_canonical (fun _ => []) Interp.plain
    [0x81, 0xA1, 0x61, 0xC4, 0x01, 0xFF]
  obtain ⟨-, hform⟩ := hcanonical.2 [(PyStr.ofString "a", .bytes [0xFF])] rfl
  have hkey : Wire.Key (PyStr.ofString "a") := ⟨by decide, by decide, by decide⟩
  refine (hform (.map [(PyStr.ofString "a", .bin [0xFF])]) ?_ (by decide) ?_).1
  · refine ⟨by decide, by simp, ?_⟩
    simp [hkey, Wire.Strict]
  · exact .map _ (by simpa using Wire.Plain.bin _)

set_option maxRecDepth 8000 in
/-- A list of a text is flat, and comes back as a list of the number that the text spells:
the encoder takes the values of a list for integers or byte strings.  And a byte string may
be read from a str form, so that its dictionary has a second accepted input. -/
theorem flat_text_rewritten :
    (∃ (w : Wire) (d : MsgDict) (raw raw' : Bytes), w.Strict (maxMsgpackDepth + 1) ∧
      w.Plain Wire.Scalar ∧ w.bytes = raw ∧ msgpackDecode (fun _ => []) true raw = .ok d ∧
        msgpackEncode Interp.plain d = .ok raw' ∧ raw' ≠ raw) ∧
    ∃ (w : Wire) (d : MsgDict) (raw raw' : Bytes), w.Strict (maxMsgpackDepth + 1) ∧
      w.Plain Wire.Scalar ∧ w.bytes = raw ∧ msgpackDecode (fun _ => []) true raw = .ok d ∧
        msgpackDecode (fun _ => []) true raw' = .ok d ∧ raw' ≠ raw := by
  have hkey : Wire.Key (PyStr.ofString "a") := ⟨by decide, by decide, by decide⟩
  refine ⟨⟨.map [(PyStr.ofString "a", .array [.text (PyStr.ofString "5")])],
      [(PyStr.ofString "a", .list [.str (PyStr.ofString "5")])],
      [0x81, 0xA1, 0x61, 0x91, 0xA1, 0x35], [0x81, 0xA1, 0x61, 0x91, 0x05], ?_, ?_, by decide, rfl,
      ?_, by decide⟩,
    ⟨.map [(PyStr.ofString "a", .bin [0xFF])], [(PyStr.ofString "a", .bytes [0xFF])],
      [0x81, 0xA1, 0x61, 0xC4, 0x01, 0xFF], [0x81, 0xA1, 0x61, 0xA1, 0xFF], ?_, ?_, by decide, rfl,
      rfl, by decide⟩⟩
  · refine ⟨by decide, by simp, ?_⟩
    intro m hm
    rw [List.mem_singleton] at hm
    subst hm
    refine ⟨hkey, by decide, ?_⟩
    intro w hw
    rw [List.mem_singleton] at hw
    subst hw
    exact ⟨by decide, by decide⟩
  · exact .map _ (by simpa using Wire.Plain.array _ (by simpa using Wire.Scalar.text _))
  · simp only [msgpackEncode, encodeValues, encodeValue]
    rfl
  · refine ⟨by decide, by simp, ?_⟩
    simp [hkey, Wire.Strict]
  · exact .map _ (by simpa using Wire.Plain.bin _)

/-! ## What the encoder writes is read back -/

/-- The dictionaries that survive: nonempty text keys and texts under 256 bytes, unsigned
integers of 64 bits, byte strings under 65536 bytes, lists of integers or byte strings,
and dictionaries of such values. -/
inductive Msgpack.Packable : Msgpack → Prop
  | int {n : ℤ} (h0 : 0 ≤ n) (h : n < 2 ^ 64) : Packable (.int n)
  | str {s : PyStr} (h : (utf8Bytes s).length < 256) : Packable (.str s)
  | bytes {b : Bytes} (h : b.length < 65536) : Packable (.bytes b)
  | list {items : List Msgpack}
      (h : ∀ x ∈ items, (∃ n : ℤ, 0 ≤ n ∧ n < 2 ^ 64 ∧ x = .int n) ∨
        ∃ b : Bytes, b.length < 65536 ∧ x = .bytes b) : Packable (.list items)
  | dict {items : MsgDict} (hkeys : (items.map Prod.fst).Nodup)
      (hkey : ∀ m ∈ items, m.1 ≠ [] ∧ (utf8Bytes m.1).length < 256)
      (hvalue : ∀ m ∈ items, Packable m.2) : Packable (.dict items)

namespace Msgpack

theorem depth_lt_of_mem {d : MsgDict} {m : PyStr × Msgpack} (hm : m ∈ d) :
    m.2.depth < depthItems d := by
  induction d with
  | nil => cases hm
  | cons x rest ih =>
      obtain ⟨k, v⟩ := x
      rw [depthItems]
      rcases List.mem_cons.mp hm with rfl | hm
      · dsimp only
        omega
      · have h := ih hm
        omega

theorem depthAll_pos {x : Msgpack} {xs : List Msgpack} (hx : x ∈ xs) : 0 < depthAll xs := by
  cases xs with
  | nil => cases hx
  | cons y rest =>
      rw [depthAll]
      omega

end Msgpack

/-- An entry is found under its key. -/
theorem find?_key {d : MsgDict} (hd : (d.map Prod.fst).Nodup) {m : PyStr × Msgpack} (hm : m ∈ d) :
    (d.find? fun x => x.1 == m.1) = some m := by
  induction d with
  | nil => cases hm
  | cons x rest ih =>
      rw [List.map_cons, List.nodup_cons] at hd
      rcases List.mem_cons.mp hm with rfl | hm
      · simp
      · have hne : x.1 ≠ m.1 := by
          intro heq
          exact hd.1 (heq ▸ List.mem_map_of_mem hm)
        rw [List.find?_cons_of_neg (by simpa using hne)]
        exact ih hd.2 hm

/-- A value of a form that is equal to it. -/
def HasWire (left : ℕ) (v : Msgpack) (bs : Bytes) (w : Wire) : Prop :=
  w.Strict left ∧ w.bytes = bs ∧ w.value.same v = true

/-- The elements of a list, each in its form. -/
theorem exists_figures (left : ℕ) {items : List Msgpack} {parts : List Bytes}
    (hitems : ∀ x ∈ items, (∃ n : ℤ, 0 ≤ n ∧ n < 2 ^ 64 ∧ x = .int n) ∨
      ∃ b : Bytes, b.length < 65536 ∧ x = .bytes b)
    (h : items.mapM (encodeItem py) = .ok parts) :
    ∃ ws : List Wire, ws.map Wire.bytes = parts ∧ ws.map Wire.value = items ∧
      (∀ w ∈ ws, w.Strict (left + 1)) ∧ Msgpack.sameAll items items = true := by
  induction items generalizing parts with
  | nil =>
      cases h
      exact ⟨[], rfl, rfl, by simp, rfl⟩
  | cons x rest ih =>
      rw [List.mapM_cons] at h
      obtain ⟨bs, hbs, h⟩ := bind_eq_ok.mp h
      obtain ⟨tail, htail, h⟩ := bind_eq_ok.mp h
      cases h
      rw [List.forall_mem_cons] at hitems
      obtain ⟨ws, rfl, hvalue, hstrict, hsame⟩ := ih hitems.2 htail
      obtain ⟨w, rfl, rfl, hw, hself⟩ : ∃ w : Wire, w.bytes = bs ∧ w.value = x ∧
          w.Strict (left + 1) ∧ w.value.same w.value = true := by
        rcases hitems.1 with ⟨n, h0, hn, rfl⟩ | ⟨b, hb, rfl⟩
        · lift n to ℕ using h0
          have hn' : n < 2 ^ 64 := by exact_mod_cast hn
          rw [encodeItem, mpUint_eq hn', Except.ok.injEq] at hbs
          exact ⟨.int n, hbs, rfl, hn', by simp [Wire.value, Msgpack.same]⟩
        · rw [encodeItem, mpBin_eq hb, Except.ok.injEq] at hbs
          exact ⟨.bin b, hbs, rfl, hb, by simp [Wire.value, Msgpack.same]⟩
      refine ⟨w :: ws, rfl, by simp [hvalue], ?_, by rw [Msgpack.sameAll, hself, hsame]; rfl⟩
      simpa using ⟨hw, hstrict⟩

/-- The entries of a dictionary, each in its form. -/
theorem exists_entries {left : ℕ} {items : MsgDict} {pairs : List (PyStr × Bytes)}
    (hitems : ∀ m ∈ items, (∃ r, encodeValue py m.2 = some r) ∧
      ∀ bs, encodeValue py m.2 = some (.ok bs) → ∃ w, HasWire left m.2 bs w)
    (h : ((items.filterMap fun m => (encodeValue py m.2).map fun x => (m.1, x)).mapM
      fun m : PyStr × Except PyError Bytes => m.2.map fun x => (m.1, x)) = .ok pairs) :
    ∃ ws : List (PyStr × Wire), (ws.map fun m => (m.1, m.2.bytes)) = pairs ∧
      ws.map Prod.fst = items.map Prod.fst ∧ (∀ m ∈ ws, m.2.Strict left) ∧
      ∀ w ∈ ws, ∃ m ∈ items, w.1 = m.1 ∧ w.2.value.same m.2 = true := by
  induction items generalizing pairs with
  | nil =>
      cases h
      exact ⟨[], rfl, rfl, by simp, by simp⟩
  | cons m rest ih =>
      rw [List.forall_mem_cons] at hitems
      obtain ⟨⟨⟨r, hr⟩, hm⟩, hrest⟩ := hitems
      rw [List.filterMap_cons, hr, Option.map_some, List.mapM_cons] at h
      obtain ⟨p, hp, h⟩ := bind_eq_ok.mp h
      obtain ⟨tail, htail, h⟩ := bind_eq_ok.mp h
      cases h
      obtain ⟨bs, rfl, rfl⟩ := map_eq_ok.mp hp
      obtain ⟨ws, rfl, hkeys, hstrict, hsame⟩ := ih hrest htail
      obtain ⟨w, hw, rfl, hself⟩ := hm bs hr
      refine ⟨(m.1, w) :: ws, rfl, by simp [hkeys], List.forall_mem_cons.mpr ⟨hw, hstrict⟩,
        List.forall_mem_cons.mpr ⟨⟨m, List.mem_cons_self, rfl, hself⟩, ?_⟩⟩
      intro x hx
      obtain ⟨y, hy, hxy⟩ := hsame x hx
      exact ⟨y, List.mem_cons_of_mem _ hy, hxy⟩

/-- What the encoder makes of a dictionary that survives is a strict form of an equal
dictionary. -/
theorem Msgpack.Packable.written {v : Msgpack} {left : ℕ} {bs : Bytes} (hv : v.Packable)
    (hdepth : v.depth < left) (h : encodeValue py v = some (.ok bs)) :
    ∃ w, HasWire left v bs w := by
  induction hv generalizing left bs with
  | @int n h0 hn =>
      obtain ⟨left, rfl⟩ : ∃ k, left = k + 1 := ⟨left - 1, by omega⟩
      lift n to ℕ using h0
      have hn' : n < 2 ^ 64 := by exact_mod_cast hn
      rw [encodeValue, mpUint_eq hn', Option.some.injEq, Except.ok.injEq] at h
      exact ⟨.int n, hn', h, by simp [Wire.value, Msgpack.same]⟩
  | @str s hs =>
      obtain ⟨left, rfl⟩ : ∃ k, left = k + 1 := ⟨left - 1, by omega⟩
      rw [encodeValue, Option.some.injEq, mpStr_eq_ok] at h
      exact ⟨.text s, h.1, h.2.symm, by simp [Wire.value, Msgpack.same]⟩
  | @bytes b hb =>
      obtain ⟨left, rfl⟩ : ∃ k, left = k + 1 := ⟨left - 1, by omega⟩
      rw [encodeValue, mpBin_eq hb, Option.some.injEq, Except.ok.injEq] at h
      exact ⟨.bin b, hb, h, by simp [Wire.value, Msgpack.same]⟩
  | @list items hitems =>
      obtain ⟨left, rfl⟩ : ∃ k, left = k + 1 := ⟨left - 1, by omega⟩
      rw [encodeValue, Option.some.injEq] at h
      obtain ⟨parts, hparts, h⟩ := bind_eq_ok.mp h
      obtain ⟨hlen, rfl⟩ := mpArray_eq_ok.mp h
      obtain ⟨ws, rfl, rfl, hstrict, hsame⟩ := exists_figures (left - 1) hitems hparts
      refine ⟨.array ws, ⟨by simpa using hlen, ?_⟩, by simp [Wire.bytes],
        by simpa [Wire.value, Msgpack.same] using hsame⟩
      intro w hw
      -- a list that holds a value is not at the last level
      have hpos := Msgpack.depthAll_pos (List.mem_map_of_mem (f := Wire.value) hw)
      rw [Msgpack.depth] at hdepth
      have hw' := hstrict w hw
      rwa [show left - 1 + 1 = left by omega] at hw'
  | @dict items hkeys hkey hvalue ih =>
      obtain ⟨left, rfl⟩ : ∃ k, left = k + 1 := ⟨left - 1, by omega⟩
      rw [encodeValue, Option.some.injEq, encodeItems, keptItems, encodeValues_eq,
        sortedItems_map, List.filterMap_map] at h
      obtain ⟨pairs, hpairs, h⟩ := bind_eq_ok.mp h
      obtain ⟨⟨hlen, hfit⟩, rfl⟩ := mpMap_eq_ok.mp h
      have hmem : ∀ m ∈ sortedItems items, m ∈ items := fun m hm =>
        (sortedItems_perm items).mem_iff.mp hm
      have hentries : ∀ m ∈ sortedItems items, (∃ r, encodeValue py m.2 = some r) ∧
          ∀ bs, encodeValue py m.2 = some (.ok bs) → ∃ w, HasWire left m.2 bs w := by
        intro m hm
        refine ⟨?_, fun bs hbs => ?_⟩
        · have hv := hvalue m (hmem m hm)
          generalize m.2 = v at hv
          cases hv <;> exact ⟨_, rfl⟩
        · have hlt := Msgpack.depth_lt_of_mem (hmem m hm)
          rw [Msgpack.depth] at hdepth
          exact ih m (hmem m hm) (by omega) hbs
      obtain ⟨ws, rfl, hwkeys, hstrict, hsame⟩ := exists_entries hentries hpairs
      refine ⟨.map ws, ⟨by simpa using hlen, ?_, ?_⟩, by simp [Wire.bytes, Wire.bytesItems_eq], ?_⟩
      · rw [hwkeys]
        exact sortedItems_pairwise hkeys
      · intro m hm
        refine ⟨?_, hstrict m hm⟩
        have hfit' := hfit (m.1, m.2.bytes) (List.mem_map_of_mem hm)
        have hin : m.1 ∈ (sortedItems items).map Prod.fst := by
          rw [← hwkeys]
          exact List.mem_map_of_mem hm
        obtain ⟨m', hm', hm1⟩ := List.mem_map.mp hin
        exact ⟨by rw [← hm1]; exact (hkey m' (hmem m' hm')).1, hfit'.1, hfit'.2⟩
      · rw [Wire.value, Msgpack.same, Bool.and_eq_true, beq_iff_eq, Wire.valueItems_eq,
          List.length_map, Msgpack.sameItems_iff]
        have hlen' : ws.length = items.length := by
          rw [← (sortedItems_perm items).length_eq, ← List.length_map (f := Prod.fst), hwkeys,
            List.length_map]
        refine ⟨hlen', fun m hm => ?_⟩
        obtain ⟨x, hx, rfl⟩ := List.mem_map.mp hm
        obtain ⟨m, hm, hk, hval⟩ := hsame x hx
        refine ⟨m, ?_, hval⟩
        dsimp only
        rw [hk]
        exact find?_key hkeys (hmem m hm)

/-- A dictionary that the encoder takes, of the values that survive, comes back from the
strict decoder, when it is not too deep and its bytes are not too many. -/
theorem msgpackDecode_encode (str : Msgpack → PyStr) (py : Interp) (d : MsgDict) (raw : Bytes)
    (hd : (Msgpack.dict d).Packable) (hdepth : (Msgpack.dict d).depth ≤ maxMsgpackDepth)
    (hraw : msgpackEncode py d = .ok raw) (hlen : raw.length ≤ maxMsgpackBytes) :
    ∃ d', msgpackDecode str true raw = .ok d' ∧ (Msgpack.dict d').same (.dict d) = true := by
  have henc : encodeValue py (.dict d) = some (.ok raw) := by
    rw [encodeValue]
    exact congrArg some hraw
  obtain ⟨w, hw, hbytes, hsame⟩ := hd.written (Nat.lt_succ_of_le hdepth) henc
  cases hval : w.value with
  | dict d' =>
      rw [hval] at hsame
      exact ⟨d', msgpackDecode_eq_ok.mpr ⟨hlen, w, hw, hbytes, hval⟩, hsame⟩
  | _ =>
      rw [hval] at hsame
      cases hsame

/-- A dictionary with every kind of value, out of order. -/
def samplePack : MsgDict :=
  [("txn", .dict [("snd", .bytes [1, 2]), ("amt", .int 300)]),
    ("list", .list [.int 7, .bytes [255]]), ("gen", .str "mainnet")]

set_option maxRecDepth 8000 in
theorem msgpackDecode_encode_sample :
    ∃ raw d', msgpackEncode Interp.plain samplePack = .ok raw ∧
      msgpackDecode (fun _ => []) true raw = .ok d' ∧
        (Msgpack.dict d').same (.dict samplePack) = true := by
  have hraw : msgpackEncode Interp.plain samplePack =
      .ok [0x83, 0xA3, 103, 101, 110, 0xA7, 109, 97, 105, 110, 110, 101, 116,
        0xA4, 108, 105, 115, 116, 0x92, 7, 0xC4, 1, 255,
        0xA3, 116, 120, 110, 0x82, 0xA3, 97, 109, 116, 0xCD, 1, 44,
        0xA3, 115, 110, 100, 0xC4, 2, 1, 2] := by
    simp only [msgpackEncode, samplePack, encodeValues, encodeValue]
    rfl
  have hinner : (Msgpack.dict [("snd", .bytes [1, 2]), ("amt", .int 300)]).Packable := by
    apply Msgpack.Packable.dict (by decide) (by decide)
    simpa using ⟨Msgpack.Packable.bytes (by decide),
      Msgpack.Packable.int (by decide) (by decide)⟩
  have hpack : (Msgpack.dict samplePack).Packable := by
    apply Msgpack.Packable.dict (by decide) (by decide)
    simp only [samplePack, List.forall_mem_cons]
    refine ⟨hinner, .list ?_, .str (by decide), by simp⟩
    simp
  obtain ⟨d', hd', hsame⟩ := msgpackDecode_encode (fun _ => []) Interp.plain samplePack _ hpack
    (by decide) hraw (by decide)
  exact ⟨_, d', hraw, hd', hsame⟩

end Signal402
