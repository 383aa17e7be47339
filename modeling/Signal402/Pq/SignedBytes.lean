import Signal402.Pq.SignedTxn

/-!
# The bytes of a signed anchor (`pq/algo_anchor.py`, `algo_tx.py`)

An accepted blob is a map of the envelope and the transaction, each in a form of the strict
decoder.  The id of the transaction is made of the bytes that the encoder writes for its
dictionary, which are those of the blob but for the byte strings that the blob has in str8
form; and the estimate of the size is made of their length, which is the same in both forms.
-/

namespace Signal402.SignedTxn

open AnchorFee AnchorNote
open Payment (decodeAddress b32Digits)

variable {py : Interp} {str : Msgpack → PyStr} {env : Env}

/-! ## The forms of an accepted blob -/

/-- The blob is written in this way, in the forms that the strict decoder takes. -/
def Spells (signed : Bytes) (pqsig fields : List (PyStr × Wire)) : Prop :=
  (blobWire pqsig fields).bytes = signed ∧ (blobWire pqsig fields).Strict (maxMsgpackDepth + 1)

/-- Ascending keys are determined by which there are. -/
theorem keys_eq_of_mem_iff {keys keys' : List PyStr}
    (hpair : keys.Pairwise fun k l => PyStr.lt k l = true)
    (hpair' : keys'.Pairwise fun k l => PyStr.lt k l = true)
    (hmem : ∀ key, key ∈ keys ↔ key ∈ keys') : keys = keys' := by
  have hnodup : ∀ {keys : List PyStr}, (keys.Pairwise fun k l => PyStr.lt k l = true) →
      keys.Nodup := by
    intro keys hpair
    apply hpair.imp
    rintro k l hkl rfl
    exact (PyStr.lt_iff.mp hkl).2 rfl
  have hperm : keys.Perm keys' :=
    (List.perm_ext_iff_of_nodup (hnodup hpair) (hnodup hpair')).mpr hmem
  apply hperm.eq_of_pairwise _ hpair hpair'
  intro a b _ _ hab hba
  have hle := PyStr.le_antisymm (PyStr.lt_iff.mp hab).1 (PyStr.lt_iff.mp hba).1
  exact absurd hle (PyStr.lt_iff.mp hab).2

theorem value_eq_dict {w : Wire} {d : MsgDict} (h : w.value = .dict d) :
    ∃ items, w = .map items ∧ d = items.map fun m => (m.1, m.2.value) := by
  cases w with
  | map items =>
      rw [Wire.value, Wire.valueItems_eq] at h
      exact ⟨items, rfl, (Msgpack.dict.inj h).symm⟩
  | int _ | text _ | raw _ | long _ | bin _ | array _ => cases h

theorem hasField_iff {d : MsgDict} {key : PyStr} :
    hasField d key = true ↔ key ∈ d.map Prod.fst := by
  rw [hasField, List.any_eq_true, List.mem_map]
  constructor
  · rintro ⟨m, hm, hkey⟩
    exact ⟨m, hm, beq_iff_eq.mp hkey⟩
  · rintro ⟨m, hm, hkey⟩
    exact ⟨m, hm, beq_iff_eq.mpr hkey⟩

/-- An accepted blob is the envelope and the transaction, one behind the other. -/
theorem exists_spells {cfg : NetworkConfig} {expected : Expected} {signed : Bytes}
    {obj txn : MsgDict} (hdecode : msgpackDecode str true signed = .ok obj)
    (hauth : AuthorizedAnchor py str env cfg expected obj txn) :
    ∃ pqsig fields, Spells signed pqsig fields := by
  obtain ⟨-, w, hstrict, hbytes, hvalue⟩ := msgpackDecode_eq_ok.mp hdecode
  obtain ⟨items, rfl, rfl⟩ := value_eq_dict hvalue
  have hpair : (items.map Prod.fst).Pairwise fun k l => PyStr.lt k l = true := hstrict.2.1
  have hkeys : items.map Prod.fst = [PyStr.ofString "pqsig", "txn"] := by
    apply keys_eq_of_mem_iff hpair (by decide)
    intro key
    have hobj := hauth.objKeys key
    rw [hasField_iff, List.map_map] at hobj
    rw [List.mem_cons, List.mem_singleton, or_comm]
    exact hobj
  obtain ⟨pq, hpq, -⟩ := hauth.pqsig
  have htxn := hauth.txn_eq
  obtain ⟨⟨k, v⟩, ⟨l, w⟩, rfl⟩ : ∃ m n, items = [m, n] := by
    apply List.length_eq_two.mp
    rw [← List.length_map (f := Prod.fst), hkeys]
    rfl
  simp only [List.map_cons, List.map_nil, List.cons.injEq, and_true] at hkeys
  obtain ⟨rfl, rfl⟩ := hkeys
  have hv : v.value = .dict pq := hpq
  have hw : w.value = .dict txn := htxn
  obtain ⟨pqsig, rfl, -⟩ := value_eq_dict hv
  obtain ⟨fields, rfl, -⟩ := value_eq_dict hw
  exact ⟨pqsig, fields, hbytes, hstrict⟩

/-- What a blob spells is what the decoder reads. -/
theorem Spells.value {signed : Bytes} {pqsig fields : List (PyStr × Wire)} {obj : MsgDict}
    (h : Spells signed pqsig fields) (hdecode : msgpackDecode str true signed = .ok obj) :
    obj = [(PyStr.ofString "pqsig", .dict (pqsig.map fun m => (m.1, m.2.value))),
      (PyStr.ofString "txn", .dict (fields.map fun m => (m.1, m.2.value)))] := by
  obtain ⟨hbytes, hstrict⟩ := h
  obtain ⟨hlen, -⟩ := msgpackDecode_eq_ok.mp hdecode
  have hread : msgpackDecode str true signed = .ok _ := msgpackDecode_eq_ok.mpr
    ⟨hlen, blobWire pqsig fields, hstrict, hbytes, by
      rw [blobWire, Wire.value, Wire.valueItems_eq]⟩
  rw [hdecode, Except.ok.injEq] at hread
  simpa only [List.map_cons, List.map_nil, Wire.value, Wire.valueItems_eq] using hread

/-! ## The fields of the transaction -/

/-- A byte string in its bin form. -/
def rebin : Wire → Wire
  | .raw b => .bin b
  | w => w

@[simp] theorem value_rebin (w : Wire) : (rebin w).value = w.value := by
  cases w <;> rfl

/-- An integer, a text, or a byte string of some length between 32 and 255. -/
inductive FieldForm : Wire → Prop
  | int (n : ℕ) : FieldForm (.int n)
  | text (s : PyStr) : FieldForm (.text s)
  | bin (b : Bytes) (hmin : 32 ≤ b.length) (hmax : b.length < 256) : FieldForm (.bin b)
  | raw (b : Bytes) (hmin : 32 ≤ b.length) (hmax : b.length < 256) : FieldForm (.raw b)

/-- The bin form takes as many bytes. -/
theorem length_rebin {w : Wire} (h : FieldForm w) : (rebin w).bytes.length = w.bytes.length := by
  cases h with
  | int n => rfl
  | text s => rfl
  | bin b => rfl
  | raw b hmin hmax =>
      rw [rebin, Wire.bytes, Wire.bytes, length_binForm, length_strForm, if_pos hmax,
        if_neg (by omega)]

/-- The bin form is another form. -/
theorem rebin_bytes_ne {b : Bytes} (hmin : 32 ≤ b.length) (hmax : b.length < 256) :
    (rebin (.raw b)).bytes ≠ (Wire.raw b).bytes := by
  rw [rebin, Wire.bytes, Wire.bytes, binForm, strForm, if_pos hmax, if_neg (by omega)]
  intro h
  exact absurd (List.cons.inj h).1 (by decide)

theorem strict_rebin {w : Wire} {left : ℕ} (hw : w.Strict left) (h : FieldForm w) :
    (rebin w).Strict left := by
  cases left with
  | zero => exact hw.elim
  | succ left =>
      cases h with
      | int n => exact hw
      | text s => exact hw
      | bin b => exact hw
      | raw b hmin hmax =>
          change b.length < 65536
          omega

theorem plain_rebin {w : Wire} (h : FieldForm w) : (rebin w).Plain Wire.Figure := by
  cases h with
  | int n => exact .int n
  | text s => exact .text s
  | bin b => exact .bin b
  | raw b => exact .bin b

/-- The form of a value with one of the types and lengths of a transaction. -/
theorem fieldForm_of_value {w : Wire} {left : ℕ} (hw : w.Strict left)
    (h : (∃ n, w.value = .int n) ∨ (∃ s, w.value = .str s) ∨
      ∃ b, w.value = .bytes b ∧ 32 ≤ b.length ∧ b.length < 256) : FieldForm w := by
  cases left with
  | zero => exact hw.elim
  | succ left =>
      cases w with
      | int n => exact .int n
      | text s => exact .text s
      | bin b =>
          simp only [Wire.value, reduceCtorEq, exists_false, Msgpack.bytes.injEq, false_or] at h
          obtain ⟨_, rfl, hmin, hmax⟩ := h
          exact .bin b hmin hmax
      | raw b =>
          simp only [Wire.value, reduceCtorEq, exists_false, Msgpack.bytes.injEq, false_or] at h
          obtain ⟨_, rfl, hmin, hmax⟩ := h
          exact .raw b hmin hmax
      | long b =>
          simp only [Wire.value, reduceCtorEq, exists_false, Msgpack.bytes.injEq, false_or] at h
          obtain ⟨_, rfl, -, hmax⟩ := h
          have hmin := hw.1
          omega
      | array items => simp [Wire.value] at h
      | map items => simp [Wire.value] at h

theorem networkCfg_mem {expected : Option PyStr} {cfg : NetworkConfig}
    (h : networkCfg py env expected = .ok cfg) : cfg ∈ networks := by
  obtain ⟨name, -, h⟩ := bind_eq_ok.mp h
  rw [getNetwork] at h
  split at h
  · rename_i cfg' hfound
    obtain rfl := Except.ok.inj h
    exact List.mem_of_find?_eq_some hfound
  · cases h

/-- The hashes of the networks have 32 bytes. -/
theorem length_genesisHash {cfg : NetworkConfig} (hcfg : cfg ∈ networks) {gh : Bytes}
    (h : b64encode gh = cfg.genesisHash) : gh.length = 32 := by
  have hall : ∀ cfg ∈ networks, (b64decode cfg.genesisHash).map List.length = some 32 := by
    decide +kernel
  have hread := hall cfg hcfg
  rw [← h, b64decode_b64encode] at hread
  exact Option.some.inj hread

theorem length_note {note : Bytes} {parsed : DecodedNote} (h : decodeNote note = .ok parsed) :
    note.length = 84 := by
  rw [decodeNote] at h
  split at h
  · cases h
  · rename_i hlength
    exact not_not.mp hlength

/-- A field of an authorized transaction is an integer, a text, or a byte string with the
length of a hash or of a note. -/
theorem field_types {cfg : NetworkConfig} {expected : Expected} {obj txn : MsgDict}
    (hcfg : cfg ∈ networks) (hauth : AuthorizedAnchor py str env cfg expected obj txn)
    {key : PyStr} (hkey : hasField txn key = true) :
    (∃ n, getField txn key = .int n) ∨ (∃ s, getField txn key = .str s) ∨
      ∃ b, getField txn key = .bytes b ∧ 32 ≤ b.length ∧ b.length < 256 := by
  have hmem := hauth.txnKeys key hkey
  obtain ⟨fee, fv, lv, hfee, hfv, hlv⟩ := hauth.numbers
  obtain ⟨account, haddress, hsnd, hrcv⟩ := hauth.parties
  have haccount := (Payment.decodeAddress_eq_some.mp haddress).1
  obtain ⟨hgen, gh, hgh, hhash⟩ := hauth.genesis
  have hghlen := length_genesisHash hcfg hhash
  obtain ⟨note, parsed, hnote, hparsed, -⟩ := hauth.note
  have hnotelen := length_note hparsed
  simp only [txnAllowedKeys, List.mem_cons, List.not_mem_nil, or_false] at hmem
  rcases hmem with rfl | rfl | rfl | rfl | rfl | rfl | rfl | rfl | rfl
  · exact .inl ⟨fee, hfee⟩
  · exact .inl ⟨fv, hfv⟩
  · exact .inl ⟨lv, hlv⟩
  · exact .inr (.inl ⟨_, hgen⟩)
  · exact .inr (.inr ⟨gh, hgh, by omega, by omega⟩)
  · exact .inr (.inr ⟨note, hnote, by omega, by omega⟩)
  · exact .inr (.inr ⟨account, hrcv, by omega, by omega⟩)
  · exact .inr (.inr ⟨account, hsnd, by omega, by omega⟩)
  · exact .inr (.inl ⟨_, hauth.type⟩)

section Written

variable {cfg : NetworkConfig} {expected : Expected} {signed : Bytes} {obj txn : MsgDict}
  {pqsig fields : List (PyStr × Wire)}

/-- The parts of a blob in the forms of the level below. -/
theorem Spells.strict (h : Spells signed pqsig fields) :
    (Wire.map pqsig).Strict maxMsgpackDepth ∧ (Wire.map fields).Strict maxMsgpackDepth := by
  obtain ⟨-, -, hall⟩ := h.2
  exact ⟨(hall _ List.mem_cons_self).2, (hall _ (List.mem_cons_of_mem _ List.mem_cons_self)).2⟩

theorem Spells.txn_eq (h : Spells signed pqsig fields)
    (hdecode : msgpackDecode str true signed = .ok obj)
    (hauth : AuthorizedAnchor py str env cfg expected obj txn) :
    txn = fields.map fun m => (m.1, m.2.value) := by
  have htxn := hauth.txn_eq
  rw [h.value hdecode] at htxn
  exact (Msgpack.dict.inj htxn).symm

theorem Spells.pq_eq {pq : MsgDict} (h : Spells signed pqsig fields)
    (hdecode : msgpackDecode str true signed = .ok obj) (hpq : getField obj "pqsig" = .dict pq) :
    pq = pqsig.map fun m => (m.1, m.2.value) := by
  rw [h.value hdecode] at hpq
  exact (Msgpack.dict.inj hpq).symm

/-- The value of an entry of a map is what is found under its key. -/
theorem getField_map {items : List (PyStr × Wire)} {left : ℕ}
    (hstrict : (Wire.map items).Strict (left + 1)) {m : PyStr × Wire} (hm : m ∈ items) :
    getField (items.map fun m => (m.1, m.2.value)) m.1 = m.2.value ∧
      hasField (items.map fun m => (m.1, m.2.value)) m.1 = true := by
  have hnodup : ((items.map fun m => (m.1, m.2.value)).map Prod.fst).Nodup := by
    rw [List.map_map]
    apply hstrict.2.1.imp
    rintro k l hkl rfl
    exact (PyStr.lt_iff.mp hkl).2 rfl
  have hmem : (m.1, m.2.value) ∈ items.map fun m => (m.1, m.2.value) :=
    List.mem_map_of_mem hm
  have hfind := find?_key hnodup hmem
  constructor
  · rw [getField, hfind]
    rfl
  · exact hasField_iff.mpr (List.mem_map_of_mem hmem)

theorem Spells.fieldForm (h : Spells signed pqsig fields)
    (hdecode : msgpackDecode str true signed = .ok obj) (hcfg : cfg ∈ networks)
    (hauth : AuthorizedAnchor py str env cfg expected obj txn) {m : PyStr × Wire}
    (hm : m ∈ fields) : FieldForm m.2 := by
  have hstrict := h.strict.2
  obtain ⟨hvalue, hfield⟩ := getField_map hstrict hm
  rw [← h.txn_eq hdecode hauth] at hvalue hfield
  have htypes := field_types hcfg hauth hfield
  rw [hvalue] at htypes
  exact fieldForm_of_value (hstrict.2.2 m hm).2 htypes

/-- The fields with every byte string in a bin form. -/
def rebinned (fields : List (PyStr × Wire)) : List (PyStr × Wire) :=
  fields.map fun m => (m.1, rebin m.2)

/-- The encoder writes the transaction in bin forms. -/
theorem Spells.encode (h : Spells signed pqsig fields)
    (hdecode : msgpackDecode str true signed = .ok obj) (hcfg : cfg ∈ networks)
    (hauth : AuthorizedAnchor py str env cfg expected obj txn) :
    msgpackEncode py txn = .ok (Wire.map (rebinned fields)).bytes := by
  have hforms : ∀ m ∈ fields, FieldForm m.2 := fun m hm => h.fieldForm hdecode hcfg hauth hm
  have hstrict : (Wire.map (rebinned fields)).Strict maxMsgpackDepth := by
    obtain ⟨hlen, hpair, hall⟩ := h.strict.2
    refine ⟨by simpa [rebinned] using hlen, by simpa [rebinned, Function.comp_def] using hpair, ?_⟩
    intro m hm
    obtain ⟨m', hm', rfl⟩ := List.mem_map.mp hm
    exact ⟨(hall m' hm').1, strict_rebin (hall m' hm').2 (hforms m' hm')⟩
  have hplain : (Wire.map (rebinned fields)).Plain Wire.Figure := by
    apply Wire.Plain.map
    intro m hm
    obtain ⟨m', hm', rfl⟩ := List.mem_map.mp hm
    exact plain_rebin (hforms m' hm')
  have hvalue : encodeValue py _ = some (.ok _) := encodeValue_value hstrict hplain
  rw [Wire.value, Wire.valueItems_eq, encodeValue, Option.some.injEq] at hvalue
  rw [h.txn_eq hdecode hauth, msgpackEncode]
  simpa [rebinned, Function.comp_def] using hvalue

end Written

theorem length_rebinned {fields : List (PyStr × Wire)} (h : ∀ m ∈ fields, FieldForm m.2) :
    (Wire.bytesItems (rebinned fields)).length = (Wire.bytesItems fields).length := by
  induction fields with
  | nil => rfl
  | cons m rest ih =>
      rw [rebinned, List.map_cons, Wire.bytesItems, Wire.bytesItems]
      simp only [List.length_append]
      rw [length_rebin (h m List.mem_cons_self)]
      have hrest := ih fun m hm => h m (List.mem_cons_of_mem _ hm)
      rw [rebinned] at hrest
      omega

/-- The bin forms are those of the fields only if no byte string is in a str form. -/
theorem rebinned_bytes_eq_iff {fields : List (PyStr × Wire)} (h : ∀ m ∈ fields, FieldForm m.2) :
    Wire.bytesItems (rebinned fields) = Wire.bytesItems fields ↔
      ∀ m ∈ fields, ∀ b, m.2 ≠ .raw b := by
  induction fields with
  | nil => simp [rebinned]
  | cons m rest ih =>
      have hform := h m List.mem_cons_self
      have hrest := ih fun m hm => h m (List.mem_cons_of_mem _ hm)
      have hsplit : Wire.bytesItems (rebinned (m :: rest)) = Wire.bytesItems (m :: rest) ↔
          (rebin m.2).bytes = m.2.bytes ∧
            Wire.bytesItems (rebinned rest) = Wire.bytesItems rest := by
        rw [rebinned, List.map_cons, Wire.bytesItems, Wire.bytesItems]
        constructor
        · intro heq
          exact List.append_inj (List.append_cancel_left heq) (length_rebin hform)
        · rintro ⟨hfirst, hother⟩
          rw [rebinned] at hother
          rw [hfirst, hother]
      rw [hsplit, hrest, List.forall_mem_cons]
      apply and_congr_left
      intro _
      constructor
      · intro heq b hraw
        rw [hraw] at heq hform
        cases hform with
        | raw b hmin hmax => exact rebin_bytes_ne hmin hmax heq
      · intro hraw
        cases hw : m.2 with
        | raw b => exact absurd hw (hraw b)
        | int _ | text _ | long _ | bin _ | array _ | map _ => rfl

/-! ## The id of the exact bytes -/

/-- Two byte strings with one hash. -/
def Collision (a b : Bytes) : Prop :=
  a ≠ b ∧ Sha512.sha512_256 (txPrefix ++ a) = Sha512.sha512_256 (txPrefix ++ b)

theorem txidText_injective {a b : Bytes} (ha : a.length = 32) (hb : b.length = 32)
    (h : txidText a = txidText b) : a = b := by
  have hpow : (32 : ℕ) ^ 52 = 256 ^ 32 * 16 := by norm_num
  have hread : ∀ {raw : Bytes}, raw.length = 32 →
      Payment.digitsValue Payment.b32Alphabet (txidText raw) = BigEndian.decode raw * 16 := by
    intro raw hraw
    have hlt := BigEndian.decode_lt raw
    rw [hraw] at hlt
    rw [txidText, Payment.digitsValue_b32Digits, Nat.mod_eq_of_lt (by omega)]
  have hvalue : BigEndian.decode a = BigEndian.decode b := by
    have hdigits := congrArg (Payment.digitsValue Payment.b32Alphabet) h
    rw [hread ha, hread hb] at hdigits
    omega
  rw [← BigEndian.encode_decode a, ← BigEndian.encode_decode b, ha, hb, hvalue]

theorem txidOf_eq_iff {a b : Bytes} : txidOf a = txidOf b ↔ a = b ∨ Collision a b := by
  constructor
  · intro h
    by_cases hab : a = b
    · exact .inl hab
    · exact .inr ⟨hab, txidText_injective (Sha512.sha512_256_length _) (Sha512.sha512_256_length _) h⟩
  · rintro (rfl | ⟨-, h⟩)
    · rfl
    · rw [txidOf, txidOf, h]

/-- The id of an accepted blob is that of the bytes of its transaction when these have no
byte string in a str form, and otherwise only if the hash has a collision. -/
theorem txid_of_exact_bytes (py : Interp) (str : Msgpack → PyStr) (env : Env) (signed : Bytes)
    (expected : Expected) (out : Verified)
    (h : validateSignedTxn py str env signed expected = .ok out) :
    (∃ pqsig fields, Spells signed pqsig fields) ∧
      ∀ pqsig fields, Spells signed pqsig fields →
        (out.txid = txidOf (Wire.map fields).bytes ↔
          (∀ m ∈ fields, ∀ b, m.2 ≠ .raw b) ∨
            Collision (Wire.map (rebinned fields)).bytes (Wire.map fields).bytes) := by
  obtain ⟨cfg, obj, txn, hcfg, hdecode, hauth, htxid⟩ := validateSignedTxn_eq_ok h
  refine ⟨exists_spells hdecode hauth, fun pqsig fields hspells => ?_⟩
  have hmem := networkCfg_mem hcfg
  have hforms : ∀ m ∈ fields, FieldForm m.2 :=
    fun m hm => hspells.fieldForm hdecode hmem hauth hm
  rw [txidFromUnsigned, hspells.encode hdecode hmem hauth, Except.map, Except.ok.injEq] at htxid
  have hbytes : (Wire.map (rebinned fields)).bytes = (Wire.map fields).bytes ↔
      Wire.bytesItems (rebinned fields) = Wire.bytesItems fields := by
    rw [Wire.bytes, Wire.bytes]
    have hlen : (rebinned fields).length = fields.length := List.length_map _
    rw [hlen]
    exact List.append_right_inj _
  rw [← htxid, txidOf_eq_iff, hbytes, rebinned_bytes_eq_iff hforms]

theorem txid_of_exact_bytes_sample : ∃ out,
    validateSignedTxn Interp.plain (fun _ => []) sampleEnv sampleBlob (sampleExpected 1 none) =
        .ok out ∧
      ((∃ pqsig fields, Spells sampleBlob pqsig fields) ∧
        ∀ pqsig fields, Spells sampleBlob pqsig fields →
          (out.txid = txidOf (Wire.map fields).bytes ↔
            (∀ m ∈ fields, ∀ b, m.2 ≠ .raw b) ∨
              Collision (Wire.map (rebinned fields)).bytes (Wire.map fields).bytes)) := by
  obtain ⟨out, hout⟩ := accepted_sampleBlob checkFee_sampleTxn
  exact ⟨out, hout, txid_of_exact_bytes Interp.plain (fun _ => []) sampleEnv sampleBlob
    (sampleExpected 1 none) out hout⟩

/-- The sample with the genesis hash in str8 form is accepted, under the id of other bytes. -/
theorem txid_of_other_bytes :
    let fields := sampleFields (.raw mainnetHash)
    let pqsig := samplePqsig (.text "f1") sampleSig []
    ∃ out, validateSignedTxn Interp.plain (fun _ => []) sampleEnv (blobWire pqsig fields).bytes
        (sampleExpected 1 none) = .ok out ∧
      Spells (blobWire pqsig fields).bytes pqsig fields ∧
        out.txid ≠ txidOf (Wire.map fields).bytes := by
  intro fields pqsig
  have hgh : (Wire.raw mainnetHash).Strict 7 := by
    change utf8Decode mainnetHash = none ∧ mainnetHash.length < 256
    decide +kernel
  have hsch : (Wire.text "f1").Strict 7 := by
    change (PyStr.ofString "f1").any CodePoint.isSurrogate = false ∧
      (utf8Bytes (PyStr.ofString "f1")).length < 256
    decide
  have hsig : sampleSig.length ≤ falconF1SigMax := by decide +kernel
  have hdecode : msgpackDecode (fun _ => []) true (blobWire pqsig fields).bytes =
      .ok (sampleObj (.str "f1") sampleSig []) :=
    decode_sample hgh rfl hsch hsig (.inl rfl) (by decide +kernel)
  obtain ⟨out, hout⟩ := accepted_sample checkFee_sampleTxn hdecode (.inl rfl)
    ⟨by decide +kernel, hsig, rfl⟩ (.inl rfl)
  refine ⟨out, hout, ⟨rfl, strict_sample hgh hsch hsig (.inl rfl)⟩, ?_⟩
  obtain ⟨cfg, obj, txn, -, hread, hauth, htxid⟩ := validateSignedTxn_eq_ok hout
  obtain rfl := Except.ok.inj (hdecode.symm.trans hread)
  obtain rfl : sampleTxn = txn := Msgpack.dict.inj hauth.txn_eq
  have hother : (txidFromUnsigned Interp.plain sampleTxn).toOption ≠
      some (txidOf (Wire.map (sampleFields (.raw mainnetHash))).bytes) := by decide +kernel
  intro heq
  apply hother
  rw [htxid, heq]
  rfl

/-! ## The size of the envelope -/

theorem length_bytes_form {w : Wire} {left : ℕ} {b : Bytes} (hw : w.Strict left)
    (h : w.value = .bytes b) : w.bytes.length ≤ (if b.length < 256 then 2 else 3) + b.length ∧
      (256 ≤ b.length → w.bytes.length = 3 + b.length) := by
  cases left with
  | zero => exact hw.elim
  | succ left =>
      cases w with
      | raw c =>
          obtain rfl := Msgpack.bytes.inj h
          have hlt := hw.2
          rw [Wire.bytes, length_strForm, if_pos hlt]
          split <;> omega
      | long c =>
          obtain rfl := Msgpack.bytes.inj h
          have hge := hw.1
          rw [Wire.bytes, List.cons_append, List.length_cons, List.length_append,
            BigEndian.length_encode, if_neg (by omega)]
          omega
      | bin c =>
          obtain rfl := Msgpack.bytes.inj h
          rw [Wire.bytes, length_binForm]
          split <;> omega
      | int _ | text _ | array _ | map _ => cases h

theorem length_str_form {w : Wire} {s : PyStr} (h : w.value = .str s) :
    w.bytes.length = (strForm (utf8Bytes s)).length := by
  cases w with
  | text t =>
      obtain rfl := Msgpack.str.inj h
      rfl
  | int _ | raw _ | long _ | bin _ | array _ | map _ => cases h

theorem length_int_form {w : Wire} {n : ℤ} (h : w.value = .int n) :
    w.bytes.length = (uintForm n.toNat).length := by
  cases w with
  | int k =>
      obtain rfl := Msgpack.int.inj h
      rfl
  | text _ | raw _ | long _ | bin _ | array _ | map _ => cases h

/-- The two bytes `f1` are in bin form, since they are a text. -/
theorem length_f1_form {w : Wire} {left : ℕ} (hw : w.Strict left)
    (h : w.value = .bytes [0x66, 0x31]) : w.bytes.length = 4 := by
  cases left with
  | zero => exact hw.elim
  | succ left =>
      cases w with
      | raw c =>
          obtain rfl := Msgpack.bytes.inj h
          exact absurd hw.1 (by decide)
      | long c =>
          obtain rfl := Msgpack.bytes.inj h
          exact absurd hw.1 (by decide)
      | bin c =>
          obtain rfl := Msgpack.bytes.inj h
          rfl
      | int _ | text _ | array _ | map _ => cases h

/-- How many bytes the scheme takes over the text of the estimate. -/
def schExtra (pq : MsgDict) : ℕ := if asStr? (getField pq "sch") = none then 1 else 0

/-- How many bytes the salt takes over the zero of the estimate. -/
def sltExtra (pq : MsgDict) : ℕ :=
  match getField pq "slt" with
  | .int n => if n < 128 then 0 else 1
  | _ => 0

theorem exists_entry {items : List (PyStr × Wire)} {key : PyStr} {keys : List PyStr}
    (h : items.map Prod.fst = key :: keys) :
    ∃ w rest, items = (key, w) :: rest ∧ rest.map Prod.fst = keys := by
  obtain ⟨⟨k, w⟩, rest, rfl, rfl, hrest⟩ := List.map_eq_cons_iff.mp h
  exact ⟨w, rest, rfl, hrest⟩

theorem length_sch {pq : MsgDict} {w : Wire} {left : ℕ} (hw : w.Strict left)
    (hsch : getField pq "sch" = .str "f1" ∨ getField pq "sch" = .bytes [0x66, 0x31])
    (h : getField pq "sch" = w.value) : w.bytes.length = 3 + schExtra pq := by
  rcases hsch with htext | hbytes
  · rw [schExtra, htext, length_str_form (h.symm.trans htext)]
    rfl
  · rw [schExtra, hbytes, length_f1_form hw (h.symm.trans hbytes)]
    rfl

theorem length_slt {pq : MsgDict} {w : Wire} {n : ℤ} (hslt : getField pq "slt" = .int n)
    (hmin : 0 ≤ n) (hmax : n ≤ 255) (h : getField pq "slt" = w.value) :
    w.bytes.length = 1 + sltExtra pq := by
  rw [sltExtra, hslt, length_int_form (h.symm.trans hslt), length_uintForm]
  dsimp only
  split_ifs <;> omega

/-- The keys of an envelope. -/
theorem Envelope.keys_eq {pq : MsgDict} (h : Envelope pq)
    (hpair : (pq.map Prod.fst).Pairwise fun k l => PyStr.lt k l = true) :
    pq.map Prod.fst = [PyStr.ofString "pk", "sch", "sig"] ++
      if hasField pq "slt" then [PyStr.ofString "slt"] else [] := by
  have hfound : ∀ {key : PyStr}, getField pq key ≠ .nil → key ∈ pq.map Prod.fst :=
    fun hkey => hasField_iff.mp (hasField_of_getField hkey)
  obtain ⟨pk, hpk, -⟩ := h.pk
  obtain ⟨sig, hsig, -⟩ := h.sig
  have hpk : PyStr.ofString "pk" ∈ pq.map Prod.fst := hfound (by simp [hpk])
  have hsig : PyStr.ofString "sig" ∈ pq.map Prod.fst := hfound (by simp [hsig])
  have hsch : PyStr.ofString "sch" ∈ pq.map Prod.fst := by
    rcases h.sch with hsch | hsch
    · exact hfound (by simp [hsch])
    · exact hfound (by simp [hsch])
  have hkeys : ∀ key ∈ pq.map Prod.fst,
      key = "pk" ∨ key = "sch" ∨ key = "sig" ∨ key = "slt" := by
    intro key hkey
    simpa [pqsigAllowedKeys] using h.keys key (hasField_iff.mpr hkey)
  apply keys_eq_of_mem_iff hpair
  · split
    · decide
    · decide
  · intro key
    split
    · rename_i hslt
      simp only [List.cons_append, List.nil_append, List.mem_cons, List.not_mem_nil, or_false]
      constructor
      · exact hkeys key
      · rintro (rfl | rfl | rfl | rfl)
        · exact hpk
        · exact hsch
        · exact hsig
        · exact hasField_iff.mp hslt
    · rename_i hslt
      simp only [List.append_nil, List.mem_cons, List.not_mem_nil, or_false]
      constructor
      · intro hkey
        rcases hkeys key hkey with h | h | h | rfl
        · exact .inl h
        · exact .inr (.inl h)
        · exact .inr (.inr h)
        · exact absurd (hasField_iff.mpr hkey) hslt
      · rintro (rfl | rfl | rfl)
        · exact hpk
        · exact hsch
        · exact hsig

/-- The envelope takes no more bytes than in the estimate when it has no salt, or when the
signature leaves room for the scheme and the salt. -/
theorem length_envelope_le_iff {pqsig : List (PyStr × Wire)} {left : ℕ} {sig : Bytes}
    (hstrict : (Wire.map pqsig).Strict (left + 1))
    (henvelope : Envelope (pqsig.map fun m => (m.1, m.2.value)))
    (hsig : getField (pqsig.map fun m => (m.1, m.2.value)) "sig" = .bytes sig) :
    (Wire.map pqsig).bytes.length ≤ 3242 ↔
      hasField (pqsig.map fun m => (m.1, m.2.value)) "slt" = false ∨
        sig.length + schExtra (pqsig.map fun m => (m.1, m.2.value)) +
          sltExtra (pqsig.map fun m => (m.1, m.2.value)) ≤ falconF1SigMax := by
  have hvalues : ∀ m ∈ pqsig, m.2.Strict left ∧
      getField (pqsig.map fun m => (m.1, m.2.value)) m.1 = m.2.value := fun m hm =>
    ⟨(hstrict.2.2 m hm).2, (getField_map hstrict hm).1⟩
  have hmap : (pqsig.map fun m => (m.1, m.2.value)).map Prod.fst = pqsig.map Prod.fst := by
    rw [List.map_map]
    rfl
  have hkeys := henvelope.keys_eq (by rw [hmap]; exact hstrict.2.1)
  rw [hmap] at hkeys
  generalize hpq : (pqsig.map fun m => (m.1, m.2.value)) = pq at *
  obtain ⟨pk, hpk, hpklen⟩ := henvelope.pk
  obtain ⟨sig', hsig', hmin, hmax, -⟩ := henvelope.sig
  obtain rfl : sig = sig' := Msgpack.bytes.inj (hsig.symm.trans hsig')
  obtain ⟨wpk, _, rfl, hbehindpk⟩ := exists_entry hkeys
  obtain ⟨wsch, _, rfl, hbehindsch⟩ := exists_entry hbehindpk
  obtain ⟨wsig, rest, rfl, hbehindsig⟩ := exists_entry hbehindsch
  obtain ⟨hstrictpk, hwpk⟩ := hvalues (PyStr.ofString "pk", wpk) (by simp)
  obtain ⟨hstrictsch, hwsch⟩ := hvalues (PyStr.ofString "sch", wsch) (by simp)
  obtain ⟨hstrictsig, hwsig⟩ := hvalues (PyStr.ofString "sig", wsig) (by simp)
  have hlenpk := (length_bytes_form hstrictpk (hwpk.symm.trans hpk)).2
    (by rw [hpklen, falconF1PkLen]; omega)
  have hlensch := length_sch hstrictsch henvelope.sch hwsch
  obtain ⟨hlensig, hlensig'⟩ := length_bytes_form hstrictsig (hwsig.symm.trans hsig)
  dsimp only at hlenpk hlensch hlensig hlensig'
  have hheads : (mapHead 3).length = 1 ∧ (mapHead 4).length = 1 ∧
      (strForm (utf8Bytes "pk")).length = 3 ∧ (strForm (utf8Bytes "sch")).length = 4 ∧
      (strForm (utf8Bytes "sig")).length = 4 ∧ (strForm (utf8Bytes "slt")).length = 4 := by
    decide
  obtain ⟨hthree, hfour, hkpk, hksch, hksig, hkslt⟩ := hheads
  rw [falconF1PkLen] at hpklen
  rw [falconF1SigMax] at hmax ⊢
  change rest.map Prod.fst = if hasField pq "slt" then [PyStr.ofString "slt"] else []
    at hbehindsig
  cases hslt : hasField pq "slt" with
  | false =>
      rw [hslt] at hbehindsig
      obtain rfl := List.map_eq_nil_iff.mp hbehindsig
      simp only [Wire.bytes, Wire.bytesItems, List.length_append, List.length_cons,
        List.length_nil, hkpk, hksch, hksig, true_or, iff_true]
      have hsch : schExtra pq ≤ 1 := by
        rw [schExtra]
        split <;> omega
      rw [hthree]
      split at hlensig <;> omega
  | true =>
      rw [hslt] at hbehindsig
      obtain ⟨wslt, _, rfl, hnil⟩ := exists_entry hbehindsig
      obtain rfl := List.map_eq_nil_iff.mp hnil
      obtain ⟨-, hwslt⟩ := hvalues (PyStr.ofString "slt", wslt) (by simp)
      obtain ⟨n, hn, hn0, hn255⟩ := henvelope.slt.resolve_left (by simp [hslt])
      have hlenslt := length_slt hn hn0 hn255 hwslt
      dsimp only at hlenslt
      simp only [Wire.bytes, Wire.bytesItems, List.length_append, List.length_cons,
        List.length_nil, hkpk, hksch, hksig, hkslt, reduceCtorEq, false_or]
      rw [hfour]
      have hsch : schExtra pq ≤ 1 := by
        rw [schExtra]
        split <;> omega
      have hextra : sltExtra pq ≤ 1 := by
        rw [sltExtra, hn]
        dsimp only
        split <;> omega
      split at hlensig <;> omega

/-! ## The estimate and the bytes sent -/

/-- The estimate of a transaction covers the bytes that are sent, so that the fee that is
made of it pays for them. -/
def SizeCovered (py : Interp) (str : Msgpack → PyStr) (signed : Bytes) (txn : MsgDict) : Prop :=
  ∃ size, estimateFalconAuthorizedSize py (some txn) = .ok size ∧ signed.length ≤ size ∧
    ∀ params need fpb, requiredFee py str params none (some txn) = .ok need →
      feePerByte py params = .ok fpb → fpb * signed.length ≤ need

/-- The estimate covers an accepted blob just when its envelope has no salt, or a signature
short enough for what scheme and salt take over the estimate. -/
theorem estimate_covers (py : Interp) (str : Msgpack → PyStr) (env : Env) (signed : Bytes)
    (expected : Expected) (out : Verified)
    (h : validateSignedTxn py str env signed expected = .ok out) :
    ∃ obj txn pq sig, msgpackDecode str true signed = .ok obj ∧ getField obj "txn" = .dict txn ∧
      getField obj "pqsig" = .dict pq ∧ getField pq "sig" = .bytes sig ∧
      (SizeCovered py str signed txn ↔
        hasField pq "slt" = false ∨
          sig.length + schExtra pq + sltExtra pq ≤ falconF1SigMax) := by
  obtain ⟨cfg, obj, txn, hcfg, hdecode, hauth, -⟩ := validateSignedTxn_eq_ok h
  obtain ⟨pqsig, fields, hspells⟩ := exists_spells hdecode hauth
  obtain ⟨pq, hpq, henvelope⟩ := hauth.pqsig
  obtain ⟨sig, hsig, -⟩ := henvelope.sig
  refine ⟨obj, txn, pq, sig, hdecode, hauth.txn_eq, hpq, hsig, ?_⟩
  have hmem := networkCfg_mem hcfg
  have hforms : ∀ m ∈ fields, FieldForm m.2 :=
    fun m hm => hspells.fieldForm hdecode hmem hauth hm
  -- the estimate is made of as many bytes as the transaction has in the blob
  have hestimate : estimateFalconAuthorizedSize py (some txn) =
      .ok (3253 + (Wire.map fields).bytes.length) := by
    have hfee : hasField txn "fee" = true := by
      obtain ⟨fee, fv, lv, hfee, -⟩ := hauth.numbers
      exact hasField_of_getField (by simp [hfee])
    have hflat : txn.filter (fun m => m.1 ≠ PyStr.ofString "flatFee") = txn := by
      apply List.filter_eq_self.mpr
      intro m hm
      have hkey := hauth.txnKeys m.1 (hasField_iff.mpr (List.mem_map_of_mem hm))
      have hne : PyStr.ofString "flatFee" ∉ txnAllowedKeys := by decide
      simpa using fun heq : m.1 = PyStr.ofString "flatFee" => hne (heq ▸ hkey)
    have hne : txn ≠ [] := by
      rintro rfl
      cases hfee
    rw [estimate_eq hne (by rw [hflat]; exact hfee), hflat, hspells.encode hdecode hmem hauth,
      Except.map, Wire.bytes, Wire.bytes, List.length_append, List.length_append,
      length_rebinned hforms, rebinned, List.length_map]
  have hlength : signed.length = 11 + (Wire.map pqsig).bytes.length +
      (Wire.map fields).bytes.length := by
    have hhead : (mapHead 2).length = 1 := by decide
    have hkey : (strForm (utf8Bytes "pqsig")).length = 6 := by decide
    have hkey' : (strForm (utf8Bytes "txn")).length = 4 := by decide
    rw [← hspells.1, blobWire, Wire.bytes.eq_def]
    simp only [Wire.bytesItems, List.length_append, List.length_cons, List.length_nil, hkey, hkey']
    rw [hhead]
    omega
  have hpqsig := hspells.pq_eq hdecode hpq
  subst hpqsig
  have henvelope := length_envelope_le_iff hspells.strict.1 henvelope hsig
  rw [← henvelope]
  constructor
  · rintro ⟨size, hsize, hle, -⟩
    rw [hestimate, Except.ok.injEq] at hsize
    omega
  · intro hle
    refine ⟨_, hestimate, by omega, ?_⟩
    intro params need fpb hneed hfpb
    have hpaid := le_requiredFee hneed hfpb hestimate
    have hzero := feePerByte_eq_ok hfpb
    refine le_trans (Int.mul_le_mul_of_nonneg_left ?_ hzero) hpaid
    exact_mod_cast (by omega : signed.length ≤ 3253 + (Wire.map fields).bytes.length)

theorem estimate_covers_sample : ∃ out,
    validateSignedTxn Interp.plain (fun _ => []) sampleEnv sampleBlob (sampleExpected 1 none) =
        .ok out ∧
      ∃ obj txn pq sig, msgpackDecode (fun _ => []) true sampleBlob = .ok obj ∧
        getField obj "txn" = .dict txn ∧ getField obj "pqsig" = .dict pq ∧
        getField pq "sig" = .bytes sig ∧
        (SizeCovered Interp.plain (fun _ => []) sampleBlob txn ↔
          hasField pq "slt" = false ∨
            sig.length + schExtra pq + sltExtra pq ≤ falconF1SigMax) := by
  obtain ⟨out, hout⟩ := accepted_sampleBlob checkFee_sampleTxn
  exact ⟨out, hout, estimate_covers Interp.plain (fun _ => []) sampleEnv sampleBlob
    (sampleExpected 1 none) out hout⟩

/-- A signature of the greatest length. -/
def longSig : Bytes := 0xBA :: 0x00 :: List.replicate 1421 0

/-- With the scheme as bytes and a large salt, an accepted blob is longer than its estimate. -/
theorem estimate_too_small :
    let blob := blobWire (samplePqsig (.bin [0x66, 0x31]) longSig
      [(PyStr.ofString "slt", .int 200)]) (sampleFields (.bin mainnetHash))
    ∃ out obj size, validateSignedTxn Interp.plain (fun _ => []) sampleEnv blob.bytes
        (sampleExpected 1 none) = .ok out ∧
      msgpackDecode (fun _ => []) true blob.bytes = .ok obj ∧
      getField obj "txn" = .dict sampleTxn ∧
      estimateFalconAuthorizedSize Interp.plain (some sampleTxn) = .ok size ∧
      size + 2 = blob.bytes.length := by
  intro blob
  have hgh : (Wire.bin mainnetHash).Strict 7 := by
    change mainnetHash.length < 65536
    decide +kernel
  have hsch : (Wire.bin [0x66, 0x31]).Strict 7 := by
    change 2 < 65536
    decide
  have hsig : longSig.length ≤ falconF1SigMax := by decide +kernel
  have hdecode : msgpackDecode (fun _ => []) true blob.bytes =
      .ok (sampleObj (.bytes [0x66, 0x31]) longSig [(PyStr.ofString "slt", .int 200)]) :=
    decode_sample hgh rfl hsch hsig (.inr ⟨200, by decide, rfl⟩) (by decide +kernel)
  obtain ⟨out, hout⟩ := accepted_sample checkFee_sampleTxn hdecode (.inr rfl)
    ⟨by decide +kernel, hsig, rfl⟩ (.inr ⟨200, by decide, by decide, rfl⟩)
  have hsize : (estimateFalconAuthorizedSize Interp.plain (some sampleTxn)).toOption.any
      (fun size => size + 2 = blob.bytes.length) = true := by decide +kernel
  cases hestimate : estimateFalconAuthorizedSize Interp.plain (some sampleTxn) with
  | error e =>
      rw [hestimate] at hsize
      cases hsize
  | ok size =>
      rw [hestimate, Except.toOption, Option.any_some, decide_eq_true_eq] at hsize
      exact ⟨out, _, size, hout, hdecode, rfl, rfl, hsize⟩

end Signal402.SignedTxn
