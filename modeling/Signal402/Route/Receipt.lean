import Signal402.Base.Base64
import Signal402.Base.JsonRoundTrip
import Signal402.Base.Utf8
import Signal402.Route.Payment

/-!
# Settlement receipts (`payment.py`)

A receipt is read from the blob of a header, reduced to the fields that are allowed, and
written as a header again.

* `settlement_receipt_again` — a header written for a reduced receipt reads as that
  receipt, and reducing it once more changes nothing.
-/

namespace Signal402.Payment

/-! ## Blobs -/

/-- The first text that is the JSON of a dictionary.  A text that is no JSON is passed
over; one that nests too deeply raises. -/
def firstDict (levels : ℕ) : List PyStr → Except PyError (Option Dict)
  | [] => .ok none
  | item :: rest =>
      match loads rejectJsonConstant levels item with
      | .ok (.obj d) => .ok (some d)
      | .ok _ => firstDict levels rest
      | .error e =>
          if e.cls.isA .valueError || e.cls.isA .typeError then firstDict levels rest
          else .error e

/-- `_decode_payment_blob`: the text in Base64, or else as it stands. -/
def decodePaymentBlob (levels : ℕ) (raw : PyStr) : Except PyError (Option Dict) :=
  let text := raw.strip
  if text = [] then .ok none
  else
    let padded := text ++ List.replicate ((4 - text.length % 4) % 4) (CodePoint.ofChar '=')
    firstDict levels (((b64decode padded).bind utf8Decode).toList ++ [text])

/-- `payment_response_header`. -/
def paymentResponseHeader (py : Interp) (payload : Dict) : Except PyError PyStr :=
  ((Json.obj payload).dumps py).bind fun raw => (utf8Encode raw).map b64encode

/-! ## Receipts -/

/-- `_base58_decoded_length`. -/
def base58DecodedLength (t : PyStr) : Option ℕ :=
  if t.isEmpty || !t.all (fun c => b58Alphabet.contains c) then none
  else
    let value := digitsValue b58Alphabet t
    let zeros := (t.takeWhile (· == CodePoint.ofChar '1')).length
    some (zeros + if value = 0 then 0 else (Nat.log2 value + 1 + 7) / 8)

/-- `_settlement_txid_ok` on a text.  The 52 digits of an Algorand identifier are 32 bytes
and four bits, which are dropped. -/
def settlementTxid (t : PyStr) (rail : Rail) : Bool :=
  if t.isEmpty || decide (128 < t.length) then false
  else
    match rail with
    | .base => PyStr.startsWith t "0x" && t.length == 66 && (t.drop 2).all PyStr.isHexChar
    | .solana => base58DecodedLength t == some 64
    | .algorand => t.length == 52 && t.all (fun c => b32Alphabet.contains c)

/-- `expected_networks`. -/
def networkOf : Rail → PyStr
  | .base => baseCaip2
  | .solana => solanaMainnet
  | .algorand => algorandMainnet

/-- The allowed fields. -/
def settlementReceipt (transaction network : PyStr) (payer : Option PyStr) : Dict :=
  ([("success", .bool true), ("transaction", .str transaction), ("network", .str network)] : Dict) ++
    payer.toList.map fun p => ((PyStr.ofString "payer"), Json.str p)

section Receipts

variable (py : Interp) (keccak : Bytes → Option Bytes)

/-- The payer of a receipt, where it names one. -/
def receiptPayer (payload : Dict) (rail : Rail) : Option (Option PyStr) :=
  match payload.get "payer" with
  | .null => some none
  | .str p =>
      if 128 < p.length then none
      else if validPaytoForRail py keccak (.str p) rail then some (some p)
      else none
  | _ => none

/-- What is kept of a receipt of a rail and its network. -/
def railReceipt (payload : Dict) (rail : Rail) : Option Dict :=
  match payload.get "transaction" with
  | .str t =>
      if !settlementTxid t rail then none
      else (receiptPayer py keccak payload rail).map (settlementReceipt t (networkOf rail))
  | _ => none

/-- `sanitize_settlement_receipt`. -/
def sanitizeSettlementReceipt (payload : Option Dict) (rail : Json) :
    Except PyError (Option Dict) :=
  match payload with
  | none => .ok none
  | some payload =>
      if !(payload.get "success").isTrue then .ok none
      else
        match payload.get "network" with
        | .str network =>
            if 128 < network.length then .ok none
            else (supportedRail rail).map fun known =>
              let inferred := railOfNetwork py.uni network
              match known.or inferred with
              | none => none
              | some expected =>
                  if inferred ≠ some expected ∨ network ≠ networkOf expected then none
                  else railReceipt py keccak payload expected
        | _ => .ok none

end Receipts

/-! ## Texts without surrogates -/

theorem isSpace_lt {c : CodePoint} (h : PyStr.isSpace c = true) : c.val < 0xD800 := by
  simp only [PyStr.isSpace, Bool.or_eq_true, Bool.and_eq_true, decide_eq_true_eq, beq_iff_eq] at h
  omega

/-- What a text has besides white space stays when it is stripped. -/
theorem mem_strip {s : PyStr} {c : CodePoint} (hc : c ∈ s) (hspace : PyStr.isSpace c = false) :
    c ∈ s.strip := by
  have hkeep : ∀ t : PyStr, c ∈ t → c ∈ t.dropWhile PyStr.isSpace := by
    intro t ht
    rw [← List.takeWhile_append_dropWhile (p := PyStr.isSpace) (l := t)] at ht
    refine (List.mem_append.mp ht).resolve_left ?_
    intro htake
    have := List.mem_takeWhile_imp htake
    rw [hspace] at this
    cases this
  unfold PyStr.strip
  rw [List.mem_reverse]
  exact hkeep _ (List.mem_reverse.mpr (hkeep s hc))

theorem noSurrogate_of_strip {s : PyStr} (h : NoSurrogate s.strip) : NoSurrogate s := by
  intro c hc
  by_cases hspace : PyStr.isSpace c = true
  · exact isSurrogate_of_lt (isSpace_lt hspace)
  · exact h c (mem_strip hc (by simpa using hspace))

/-- The texts over an alphabet of ASCII. -/
theorem noSurrogate_of_alphabet {alphabet s : PyStr} (halphabet : alphabet.isAscii = true)
    (h : s.all (fun c => alphabet.contains c) = true) : NoSurrogate s := by
  intro c hc
  have hmem := List.all_eq_true.mp h c hc
  rw [List.contains_iff_mem] at hmem
  exact noSurrogate_of_isAscii halphabet c hmem

theorem isHexChar_lt {c : CodePoint} (h : PyStr.isHexChar c = true) : c.val < 0xD800 := by
  simp only [PyStr.isHexChar, PyStr.isDigitChar, Bool.or_eq_true, Bool.and_eq_true,
    decide_eq_true_eq] at h
  omega

/-- The texts of hexadecimal digits behind `0x`. -/
theorem noSurrogate_of_hex {s : PyStr} (hstart : PyStr.startsWith s "0x" = true)
    (h : (s.drop 2).all PyStr.isHexChar = true) : NoSurrogate s := by
  obtain ⟨rest, rfl⟩ := List.isPrefixOf_iff_prefix.mp hstart
  have hprefix : NoSurrogate "0x" := noSurrogate_of_isAscii (by decide)
  intro c hc
  rcases List.mem_append.mp hc with hc | hc
  · exact hprefix c hc
  · exact isSurrogate_of_lt (isHexChar_lt (List.all_eq_true.mp h c hc))

/-- A test of a text that fails unless the text is over the alphabet. -/
theorem noSurrogate_of_digits (alphabet : PyStr) {t : PyStr} (halphabet : alphabet.isAscii = true)
    (h : ¬ (t.isEmpty || !t.all fun c => alphabet.contains c) = true) : NoSurrogate t := by
  rw [Bool.not_eq_true, Bool.or_eq_false_iff, Bool.not_eq_false'] at h
  exact noSurrogate_of_alphabet halphabet h.2

theorem base58DecodedLength_noSurrogate {t : PyStr} (h : (base58DecodedLength t).isSome) :
    NoSurrogate t := by
  refine noSurrogate_of_digits b58Alphabet (by decide) fun hdigits => ?_
  rw [base58DecodedLength, if_pos hdigits] at h
  cases h

theorem b58decode32_noSurrogate {t : PyStr} (h : b58decode32 t = true) : NoSurrogate t := by
  refine noSurrogate_of_digits b58Alphabet (by decide) fun hdigits => ?_
  rw [b58decode32, if_pos hdigits] at h
  cases h

theorem decodeAddress_noSurrogate {t : PyStr} (h : (decodeAddress t).isSome) : NoSurrogate t := by
  refine noSurrogate_of_strip ?_
  by_cases hdigits : t.strip.all (fun c => b32Alphabet.contains c) = true
  · exact noSurrogate_of_alphabet (by decide) hdigits
  · refine absurd h ?_
    rw [decodeAddress]
    by_cases hlength : t.strip.length ≠ 58
    · rw [if_pos hlength]
      simp
    · rw [if_neg hlength, if_pos (by simpa using hdigits)]
      simp

theorem settlementTxid_noSurrogate {t : PyStr} {rail : Rail}
    (h : settlementTxid t rail = true) : NoSurrogate t := by
  unfold settlementTxid at h
  split_ifs at h with hlength
  cases rail with
  | base =>
      simp only [Bool.and_eq_true] at h
      exact noSurrogate_of_hex h.1.1 h.2
  | solana =>
      refine base58DecodedLength_noSurrogate ?_
      rw [beq_iff_eq.mp h]
      rfl
  | algorand =>
      simp only [Bool.and_eq_true] at h
      exact noSurrogate_of_alphabet (by decide) h.2

theorem validPayto_noSurrogate {keccak : Bytes → Option Bytes} {t : PyStr} {rail : Rail}
    (h : validPayto keccak t rail = true) : NoSurrogate t := by
  cases rail with
  | base =>
      simp only [validPayto, isBaseAddress, Bool.and_eq_true] at h
      exact noSurrogate_of_hex h.1.1.1 h.1.2
  | solana =>
      simp only [validPayto, Bool.and_eq_true] at h
      exact b58decode32_noSurrogate h.2
  | algorand => exact decodeAddress_noSurrogate h

theorem validPaytoForRail_noSurrogate {py : Interp} {keccak : Bytes → Option Bytes} {p : PyStr}
    {rail : Rail} (h : validPaytoForRail py keccak (.str p) rail = true) : NoSurrogate p := by
  have htext : py.text (.str p) = if p.strip = [] then none else some p.strip := rfl
  by_cases hempty : p.strip = []
  · rw [validPaytoForRail, htext, if_pos hempty] at h
    cases h
  · rw [validPaytoForRail, htext, if_neg hempty] at h
    exact noSurrogate_of_strip (validPayto_noSurrogate h)

/-! ## Reading a receipt again -/

section Again

variable {py : Interp} {keccak : Bytes → Option Bytes} {levels : ℕ}

/-- What a receipt that was kept looks like. -/
theorem railReceipt_eq_some {payload receipt : Dict} {rail : Rail}
    (h : railReceipt py keccak payload rail = some receipt) :
    ∃ t p, receipt = settlementReceipt t (networkOf rail) p ∧ settlementTxid t rail = true ∧
      ∀ a ∈ p, a.length ≤ 128 ∧ validPaytoForRail py keccak (.str a) rail = true := by
  unfold railReceipt at h
  cases htx : payload.get "transaction" with
  | str t =>
      rw [htx] at h
      dsimp only at h
      split_ifs at h with hok
      obtain ⟨p, hp, rfl⟩ := Option.map_eq_some_iff.mp h
      refine ⟨t, p, rfl, by simpa using hok, ?_⟩
      rintro a rfl
      unfold receiptPayer at hp
      cases hpayer : payload.get "payer" with
      | str b =>
          rw [hpayer] at hp
          dsimp only at hp
          split_ifs at hp with hlength hvalid
          cases hp
          exact ⟨Nat.not_lt.mp hlength, hvalid⟩
      | null | bool _ | int _ | float _ | arr _ | obj _ =>
          rw [hpayer] at hp
          cases hp
  | null | bool _ | int _ | float _ | arr _ | obj _ =>
      rw [htx] at h
      cases h

section Fields

variable (t network : PyStr) (p : Option PyStr)

@[simp] theorem settlementReceipt_success :
    (settlementReceipt t network p).get "success" = .bool true := by
  simp [settlementReceipt, Dict.get, Dict.get?]

@[simp] theorem settlementReceipt_transaction :
    (settlementReceipt t network p).get "transaction" = .str t := by
  simp [settlementReceipt, Dict.get, Dict.get?]

@[simp] theorem settlementReceipt_network :
    (settlementReceipt t network p).get "network" = .str network := by
  simp [settlementReceipt, Dict.get, Dict.get?]

@[simp] theorem settlementReceipt_payer :
    (settlementReceipt t network p).get "payer" = Json.ofText p := by
  cases p <;> simp [settlementReceipt, Dict.get, Dict.get?, Json.ofText]

end Fields

/-- A receipt that was kept is kept as it is. -/
theorem railReceipt_again {t : PyStr} {p : Option PyStr} {rail : Rail}
    (ht : settlementTxid t rail = true)
    (hp : ∀ a ∈ p, a.length ≤ 128 ∧ validPaytoForRail py keccak (.str a) rail = true) :
    railReceipt py keccak (settlementReceipt t (networkOf rail) p) rail =
      some (settlementReceipt t (networkOf rail) p) := by
  have hpayer : receiptPayer py keccak (settlementReceipt t (networkOf rail) p) rail = some p := by
    cases p with
    | none => simp [receiptPayer, Json.ofText]
    | some a =>
        obtain ⟨hlength, hvalid⟩ := hp a rfl
        simp [receiptPayer, Json.ofText, Nat.not_lt.mpr hlength, hvalid]
  rw [railReceipt, settlementReceipt_transaction]
  simp only [ht, hpayer, Bool.not_true, Bool.false_eq_true, ↓reduceIte, Option.map_some]

/-- The result of the reduction, and how it comes about. -/
theorem sanitizeSettlementReceipt_eq_some {payload : Option Dict} {rail : Json} {receipt : Dict}
    (h : sanitizeSettlementReceipt py keccak payload rail = .ok (some receipt)) :
    ∃ known expected t p, supportedRail rail = .ok known ∧
      known.or (railOfNetwork py.uni (networkOf expected)) = some expected ∧
      railOfNetwork py.uni (networkOf expected) = some expected ∧
      receipt = settlementReceipt t (networkOf expected) p ∧ settlementTxid t expected = true ∧
      ∀ a ∈ p, a.length ≤ 128 ∧ validPaytoForRail py keccak (.str a) expected = true := by
  unfold sanitizeSettlementReceipt at h
  cases payload with
  | none => cases h
  | some payload =>
      dsimp only at h
      split_ifs at h with hsuccess
      · cases h
      · cases hnetwork : payload.get "network" with
        | str network =>
            rw [hnetwork] at h
            dsimp only at h
            split_ifs at h with hlength
            · cases h
            · obtain ⟨known, hknown, hkept⟩ := map_eq_ok.mp h
              cases hexpected : known.or (railOfNetwork py.uni network) with
              | none =>
                  rw [hexpected] at hkept
                  cases hkept
              | some expected =>
                  rw [hexpected] at hkept
                  dsimp only at hkept
                  split_ifs at hkept with hother
                  rw [not_or, not_ne_iff, not_ne_iff] at hother
                  obtain ⟨hinferred, rfl⟩ := hother
                  obtain ⟨t, p, hreceipt, ht, hp⟩ := railReceipt_eq_some hkept
                  exact ⟨known, expected, t, p, hknown, hexpected, hinferred, hreceipt, ht, hp⟩
        | null | bool _ | int _ | float _ | arr _ | obj _ =>
            rw [hnetwork] at h
            cases h

theorem networkOf_length (rail : Rail) : (networkOf rail).length ≤ 128 := by
  cases rail <;> decide

/-- Reducing a receipt again changes nothing. -/
theorem sanitizeSettlementReceipt_again {payload : Option Dict} {rail : Json} {receipt : Dict}
    (h : sanitizeSettlementReceipt py keccak payload rail = .ok (some receipt)) :
    sanitizeSettlementReceipt py keccak (some receipt) rail = .ok (some receipt) := by
  obtain ⟨known, expected, t, p, hknown, hexpected, hinferred, rfl, ht, hp⟩ :=
    sanitizeSettlementReceipt_eq_some h
  unfold sanitizeSettlementReceipt
  simp only [settlementReceipt_success, Json.isTrue, Bool.not_true, Bool.false_eq_true, ↓reduceIte,
    settlementReceipt_network, Nat.not_lt.mpr (networkOf_length expected), hknown, Except.map,
    hexpected]
  rw [if_neg (by simp [hinferred]), railReceipt_again ht hp]

/-! ## Headers -/

/-- The members of a receipt: a flag and texts. -/
theorem mem_settlementReceipt {t network : PyStr} {p : Option PyStr} {m : PyStr × Json}
    (hm : m ∈ settlementReceipt t network p) :
    m.2 = .bool true ∨ ∃ s, m.2 = .str s ∧ (s = t ∨ s = network ∨ s ∈ p) := by
  rw [settlementReceipt, List.mem_append] at hm
  rcases hm with hm | hm
  · simp only [List.mem_cons, List.not_mem_nil, or_false] at hm
    rcases hm with rfl | rfl | rfl
    · exact .inl rfl
    · exact .inr ⟨t, rfl, .inl rfl⟩
    · exact .inr ⟨network, rfl, .inr (.inl rfl)⟩
  · obtain ⟨a, ha, rfl⟩ := List.mem_map.mp hm
    exact .inr ⟨a, rfl, .inr (.inr (Option.mem_toList.mp ha))⟩

theorem readable_settlementReceipt {t network : PyStr} {p : Option PyStr} (ht : NoSurrogate t)
    (hnetwork : NoSurrogate network) (hp : ∀ a ∈ p, NoSurrogate a) (n : ℕ) :
    (Json.obj (settlementReceipt t network p)).Readable py rejectJsonConstant (n + 1) := by
  refine .obj_ascii ?_ ?_ ?_
  · cases p <;> simp [settlementReceipt]
  · cases p <;> rfl
  · intro m hm
    rcases mem_settlementReceipt hm with hv | ⟨s, hv, hs⟩
    · rw [hv]
      exact .bool true
    · rw [hv]
      refine .str ?_
      rcases hs with rfl | rfl | hs
      · exact ht.unsplit
      · exact hnetwork.unsplit
      · exact (hp s hs).unsplit

theorem firstDict_found {item : PyStr} {rest : List PyStr} {d : Dict}
    (h : loads rejectJsonConstant levels item = .ok (.obj d)) :
    firstDict levels (item :: rest) = .ok (some d) := by
  rw [firstDict, h]

/-- A text that was encoded is the first one that is tried. -/
theorem decodePaymentBlob_b64encode {raw : PyStr} {d : Dict} (hascii : raw.isAscii = true)
    (hne : raw ≠ []) (h : loads rejectJsonConstant levels raw = .ok (.obj d)) :
    decodePaymentBlob levels (b64encode (utf8Bytes raw)) = .ok (some d) := by
  have hsurrogate : raw.any CodePoint.isSurrogate = false := by
    rw [List.any_eq_false]
    exact fun c hc => by simp [noSurrogate_of_isAscii hascii c hc]
  have hdecode := utf8Decode_utf8Bytes hsurrogate
  have hbytes : utf8Bytes raw ≠ [] := by
    intro hnil
    rw [hnil] at hdecode
    cases hdecode
    exact hne rfl
  have hstrip : PyStr.strip (b64encode (utf8Bytes raw)) = b64encode (utf8Bytes raw) :=
    PyStr.strip_eq_self fun c hc => (b64encode_plain _ c hc).2
  rw [decodePaymentBlob]
  simp only [hstrip, b64encode_ne_nil hbytes, ↓reduceIte, length_b64encode_mod,
    Nat.sub_zero, Nat.mod_self, List.replicate_zero, List.append_nil, b64decode_b64encode,
    Option.bind_some, hdecode, Option.toList_some, List.singleton_append]
  exact firstDict_found h

/-- A receipt that was kept goes through a header unchanged: it is written, read back, and
kept as it is. -/
theorem settlement_receipt_again {payload : Option Dict} {rail : Json} {receipt : Dict}
    (h : sanitizeSettlementReceipt py keccak payload rail = .ok (some receipt))
    (hlevels : 1 ≤ levels) :
    ∃ header, paymentResponseHeader py receipt = .ok header ∧
      decodePaymentBlob levels header = .ok (some receipt) ∧
      sanitizeSettlementReceipt py keccak (some receipt) rail = .ok (some receipt) ∧
      NoSurrogate header := by
  obtain ⟨-, expected, t, p, -, -, -, hreceipt, ht, hp⟩ := sanitizeSettlementReceipt_eq_some h
  have hnetwork : NoSurrogate (networkOf expected) := by
    cases expected <;> exact noSurrogate_of_isAscii (by decide)
  have hreadable : (Json.obj receipt).Readable py rejectJsonConstant (levels - 1 + 1) := by
    rw [hreceipt]
    exact readable_settlementReceipt (settlementTxid_noSurrogate ht) hnetwork
      (fun a ha => validPaytoForRail_noSurrogate (hp a ha).2) _
  obtain ⟨raw, hraw, hback⟩ := hreadable.readBack
  rw [Nat.sub_add_cancel hlevels] at hback
  have hascii : raw.isAscii = true := by
    refine Json.dumps_obj_isAscii (fun m hm => ?_) hraw
    rw [hreceipt] at hm
    rcases mem_settlementReceipt hm with hv | ⟨s, hv, -⟩
    · exact ⟨"true", by rw [hv]; rfl, by decide⟩
    · exact ⟨jsonString s, by rw [hv]; rfl, jsonString_isAscii s⟩
  have hne : raw ≠ [] := by
    obtain ⟨c, hc, -⟩ := hback.lead
    rintro rfl
    cases hc
  refine ⟨b64encode (utf8Bytes raw), ?_, decodePaymentBlob_b64encode hascii hne hback.loadsWith_eq,
    sanitizeSettlementReceipt_again h, ?_⟩
  · have hencode : utf8Encode raw = .ok (utf8Bytes raw) := by
      refine utf8Encode_eq_ok.mpr ⟨?_, rfl⟩
      rw [List.any_eq_false]
      exact fun c hc => by simp [noSurrogate_of_isAscii hascii c hc]
    rw [paymentResponseHeader, hraw]
    simp only [Except.bind, hencode, Except.map]
  · exact fun c hc => isSurrogate_of_lt (by have := (b64encode_plain _ c hc).1; omega)

end Again

end Signal402.Payment
