import Signal402.Route.Receipt
import Signal402.Route.Replay

/-!
# Stored outcomes (`replay.py`)

An outcome is reduced before it is kept: keys that may hold payment data are dropped,
nesting and lists are cut, and the receipt header is written anew.  The ledger keeps the
reduced outcome as JSON, and reduces it again when it is read.

* `cleanse_cleanse`, `not_hasKey_cleanse` — reducing twice is reducing once, and no blocked
  key is left at any depth;
* `replay_from_disk` — what is read from the ledger is what is kept in memory.
-/

namespace Signal402.Replay

open Payment Route

/-! ## Reducing a body -/

/-- `str(key).replace("-", "_").lower()`. -/
def normalKey (key : PyStr) : PyStr :=
  PyStr.lower (key.map fun c => if c = CodePoint.ofChar '-' then CodePoint.ofChar '_' else c)

def blockedContainers : List PyStr :=
  ["facilitator_response", "headers", "payment_payload", "paymentpayload", "request_headers"]

def blockedTopLevel : List PyStr := ["authorization", "errorreason", "invalidreason", "signature"]

/-- A key that holds payment data wherever it stands. -/
def isBlocked (key : PyStr) : Bool := blockedContainers.contains (normalKey key)

/-- A key that is kept. -/
def keepsKey (top : Bool) (key : PyStr) : Bool :=
  !isBlocked key && !(top && blockedTopLevel.contains (normalKey key))

/-- `cleanse`, with so many levels left to it: 17 at depth zero. -/
def cleanse : ℕ → Bool → Json → Json
  | 0, _, _ => .null
  | left + 1, top, .obj d =>
      .obj ((d.filter fun m => keepsKey top m.1).map fun m => (m.1, cleanse left false m.2))
  | left + 1, _, .arr items => .arr ((items.take 256).map fun v => cleanse left false v)
  | _ + 1, _, v => v

/-- The levels of a body. -/
def maxLevels : ℕ := 17

/-- The members that are kept of a body; a body that is no dictionary has none. -/
def cleanBody : Json → Dict
  | .obj d => (cleanse maxLevels true (.obj d)).dictOrEmpty
  | _ => []

/-- The reduced body. -/
def safeBody (code : ℤ) (body : Json) : Dict :=
  if code = 402 ∧ ((cleanBody body).get? "error").isSome then
    (cleanBody body).set "error" (.str "Payment processing failed")
  else cleanBody body

/-- The billing of a body that may carry a receipt. -/
def paidBilling (body : Dict) : Option Dict :=
  match body.get "billing" with
  | .obj billing =>
      if (Dict.get billing "settlement_attempted").isTrue &&
          (Dict.get billing "settled").isTrue then some billing
      else none
  | _ => none

section Outcomes

variable (py : Interp) (keccak : Bytes → Option Bytes) (levels : ℕ)

/-- The receipt header that is kept. -/
def receiptHeader (billing : Dict) (header : PyStr) : Except PyError Dict :=
  (decodePaymentBlob levels header).bind fun decoded =>
    (sanitizeSettlementReceipt py keccak decoded (billing.get "rail")).bind fun receipt =>
      match receipt with
      | none => .ok []
      | some receipt => (paymentResponseHeader py receipt).map fun text =>
          [("PAYMENT-RESPONSE", .str text)]

def safeReceipt (body extra : Dict) : Except PyError Dict :=
  match extra.get "PAYMENT-RESPONSE" with
  | .str header =>
      match paidBilling body with
      | some billing => receiptHeader py keccak levels billing header
      | none => .ok []
  | _ => .ok []

/-- The headers that are kept, with the request for a payment. -/
def withRequired (kept : Dict) : Json → Option Dict
  | .str required => some (kept.set "PAYMENT-REQUIRED" (.str required))
  | _ => if kept.isEmpty then none else some kept

def safeExtra (body : Dict) (extra : Option Dict) : Except PyError (Option Dict) :=
  match extra with
  | none => .ok none
  | some extra => (safeReceipt py keccak levels body extra).map fun kept =>
      withRequired kept (extra.get "PAYMENT-REQUIRED")

/-- `_sanitize_outcome`; headers that are no dictionary count as none. -/
def sanitizeOutcome (result : Outcome) : Except PyError Outcome :=
  (safeExtra py keccak levels (safeBody result.code result.body) result.extra).map fun extra =>
    ⟨result.code, .obj (safeBody result.code result.body), extra⟩

/-! ## The ledger form -/

/-- A dictionary, or `None`. -/
def ofDict? : Option Dict → Json
  | none => .null
  | some d => .obj d

/-- The value that the ledger keeps as text. -/
def storedForm (safe : Outcome) : Json :=
  .obj [("c", .int safe.code), ("b", safe.body), ("e", ofDict? safe.extra)]

/-- `_encode_outcome`. -/
def encodeOutcome (result : Outcome) : Except PyError PyStr :=
  (sanitizeOutcome py keccak levels result).bind fun safe => (storedForm safe).dumps py

/-- `int(x)`. -/
def intValue : Json → Except PyError ℤ
  | .int n => .ok n
  | .bool b => .ok (if b then 1 else 0)
  | .float x => x.toInt
  | .str s => py.int s
  | .null | .arr _ | .obj _ => .error ⟨.typeError, "int() argument must be a string or a number"⟩

/-- `data[key]`. -/
def item (data : Json) (key : PyStr) : Except PyError Json :=
  match data with
  | .obj d =>
      match Dict.get? d key with
      | some v => .ok v
      | none => .error ⟨.keyError, "key"⟩
  | _ => .error ⟨.typeError, "indices must be integers"⟩

/-- The code, the body and the headers that a stored value names. -/
def storedParts (data : Json) : Except PyError (ℤ × Json × Json) :=
  (item data "c").bind fun c => (intValue py c).bind fun code =>
    (item data "b").bind fun body => (item data "e").map fun extra => (code, body, extra)

/-- The exceptions that `_decode_outcome` takes for a row it cannot read. -/
def unreadable (e : PyError) : Bool :=
  e.cls.isA .typeError || e.cls.isA .valueError || e.cls.isA .keyError

/-- `_decode_outcome`. -/
def decodeOutcome (raw : PyStr) : Except PyError (Option Outcome) :=
  match (loads floatConstants levels raw).bind (storedParts py) with
  | .error e => if unreadable e then .ok none else .error e
  | .ok (code, body, extra) =>
      if !body.isObj then .ok none
      else if !(extra.isNull || extra.isObj) then .ok none
      else (sanitizeOutcome py keccak levels ⟨code, body, extra.asObj?⟩).map some

/-- The functions that prepare an outcome for the ledger. -/
def outcomes : Outcomes where
  sanitize := sanitizeOutcome py keccak levels
  encode := encodeOutcome py keccak levels
  decode := decodeOutcome py keccak levels

end Outcomes

/-! ## Reducing twice -/

section Cleanse

/-- Reducing what was reduced changes nothing. -/
theorem cleanse_cleanse (left : ℕ) (top : Bool) (v : Json) :
    cleanse left top (cleanse left top v) = cleanse left top v := by
  induction left generalizing top v with
  | zero => rfl
  | succ left ih =>
      cases v with
      | obj d =>
          simp only [cleanse, List.filter_map, List.map_map, Json.obj.injEq]
          have hfilter : ((d.filter fun m => keepsKey top m.1).filter
              ((fun m : PyStr × Json => keepsKey top m.1) ∘
                fun m => (m.1, cleanse left false m.2))) = d.filter fun m => keepsKey top m.1 := by
            rw [List.filter_filter]
            exact List.filter_congr fun m _ => Bool.and_self _
          rw [hfilter]
          apply List.map_congr_left
          intro m _
          exact Prod.ext rfl (ih false m.2)
      | arr items =>
          simp only [cleanse, ← List.map_take, List.take_take, min_self, List.map_map,
            Json.arr.injEq]
          apply List.map_congr_left
          intro v _
          exact ih false v
      | null | bool _ | int _ | float _ | str _ => rfl

/-- The members of a dictionary that is reduced: each is kept as it is. -/
theorem cleanse_obj_eq_self {left : ℕ} {top : Bool} {d : Dict} :
    cleanse (left + 1) top (.obj d) = .obj d ↔
      ∀ m ∈ d, keepsKey top m.1 = true ∧ cleanse left false m.2 = m.2 := by
  rw [cleanse, Json.obj.injEq]
  constructor
  · intro h
    have hlength : (d.filter fun m => keepsKey top m.1).length = d.length := by
      conv_rhs => rw [← h]
      rw [List.length_map]
    have hkeeps := List.length_filter_eq_length_iff.mp hlength
    rw [List.filter_eq_self.mpr hkeeps] at h
    have hfix : d.map (fun m => (m.1, cleanse left false m.2)) = d.map id := by
      rw [h, List.map_id]
    intro m hm
    exact ⟨hkeeps m hm, congrArg Prod.snd (List.map_inj_left.mp hfix m hm)⟩
  · intro h
    rw [List.filter_eq_self.mpr fun m hm => (h m hm).1]
    conv_rhs => rw [← List.map_id d]
    apply List.map_congr_left
    intro m hm
    exact Prod.ext rfl (h m hm).2

/-- A key of some dictionary inside a value has a property. -/
inductive HasKey (p : PyStr → Prop) : Json → Prop
  | key {d : Dict} {m} (hm : m ∈ d) (h : p m.1) : HasKey p (.obj d)
  | member {d : Dict} {m} (hm : m ∈ d) (h : HasKey p m.2) : HasKey p (.obj d)
  | item {items v} (hv : v ∈ items) (h : HasKey p v) : HasKey p (.arr items)

/-- No blocked key is left, at any depth. -/
theorem not_hasKey_cleanse (left : ℕ) (top : Bool) (v : Json) :
    ¬ HasKey (fun key => isBlocked key = true) (cleanse left top v) := by
  induction left generalizing top v with
  | zero =>
      intro h
      cases h
  | succ left ih =>
      cases v with
      | obj d =>
          rw [cleanse]
          intro h
          cases h with
          | key hm h =>
              obtain ⟨a, ha, rfl⟩ := List.mem_map.mp hm
              have hkeep := (List.mem_filter.mp ha).2
              simp only [keepsKey, Bool.and_eq_true, Bool.not_eq_true'] at hkeep
              rw [hkeep.1] at h
              cases h
          | member hm h =>
              obtain ⟨a, -, rfl⟩ := List.mem_map.mp hm
              exact ih false a.2 h
      | arr items =>
          rw [cleanse]
          intro h
          cases h with
          | item hv h =>
              obtain ⟨a, -, rfl⟩ := List.mem_map.mp hv
              exact ih false a h
      | null | bool _ | int _ | float _ | str _ =>
          intro h
          cases h

end Cleanse

section Bodies

theorem mem_set {d : Dict} {k : PyStr} {v : Json} {m : PyStr × Json} (h : m ∈ d.set k v) :
    m = (k, v) ∨ m ∈ d := by
  induction d with
  | nil => exact .inl (List.mem_singleton.mp h)
  | cons a d ih =>
      obtain ⟨k', v'⟩ := a
      rw [Dict.set] at h
      split_ifs at h with hk
      · subst hk
        rcases List.mem_cons.mp h with rfl | h
        · exact .inl rfl
        · exact .inr (List.mem_cons_of_mem _ h)
      · rcases List.mem_cons.mp h with rfl | h
        · exact .inr List.mem_cons_self
        · exact (ih h).imp_right (List.mem_cons_of_mem _)

theorem set_set (d : Dict) (k : PyStr) (v : Json) : (d.set k v).set k v = d.set k v := by
  induction d with
  | nil => simp [Dict.set]
  | cons a d ih =>
      obtain ⟨k', v'⟩ := a
      by_cases hk : k' = k
      · simp [Dict.set, hk]
      · simp [Dict.set, hk, ih]

/-- The dictionary that is kept of a body is reduced. -/
theorem cleanse_cleanBody (body : Json) :
    cleanse maxLevels true (.obj (cleanBody body)) = .obj (cleanBody body) := by
  cases body with
  | obj d => exact cleanse_cleanse maxLevels true (.obj d)
  | null | bool _ | int _ | float _ | str _ | arr _ => rfl

theorem cleanse_safeBody (code : ℤ) (body : Json) :
    cleanse maxLevels true (.obj (safeBody code body)) = .obj (safeBody code body) := by
  have hclean := cleanse_cleanBody body
  unfold safeBody
  split_ifs with h
  · refine cleanse_obj_eq_self.mpr fun m hm => ?_
    rcases mem_set hm with rfl | hm
    · exact ⟨by decide, rfl⟩
    · exact cleanse_obj_eq_self.mp hclean m hm
  · exact hclean

theorem cleanBody_safeBody (code : ℤ) (body : Json) :
    cleanBody (.obj (safeBody code body)) = safeBody code body := by
  rw [cleanBody, cleanse_safeBody]
  rfl

/-- A body that was reduced is reduced. -/
theorem safeBody_safeBody (code : ℤ) (body : Json) :
    safeBody code (.obj (safeBody code body)) = safeBody code body := by
  rw [safeBody, cleanBody_safeBody]
  by_cases h : code = 402 ∧ ((cleanBody body).get? "error").isSome
  · rw [safeBody, if_pos h, set_set]
    exact ite_self _
  · rw [safeBody, if_neg h, if_neg h]

end Bodies

section Extras

variable {py : Interp} {keccak : Bytes → Option Bytes} {levels : ℕ}

/-- A header that was kept: it comes of the billing's receipt, is kept as it is, and has
no surrogate. -/
structure KeptHeader (py : Interp) (keccak : Bytes → Option Bytes) (levels : ℕ) (billing : Dict)
    (text : PyStr) : Prop where
  again : receiptHeader py keccak levels billing text = .ok [("PAYMENT-RESPONSE", .str text)]
  plain : NoSurrogate text

theorem receiptHeader_kept (hlevels : 1 ≤ levels) {billing : Dict} {header : PyStr} {kept : Dict}
    (h : receiptHeader py keccak levels billing header = .ok kept) :
    kept = [] ∨ ∃ text, kept = [(PyStr.ofString "PAYMENT-RESPONSE", .str text)] ∧
      KeptHeader py keccak levels billing text := by
  unfold receiptHeader at h
  obtain ⟨decoded, -, h⟩ := bind_eq_ok.mp h
  obtain ⟨receipt, hreceipt, h⟩ := bind_eq_ok.mp h
  cases receipt with
  | none =>
      cases h
      exact .inl rfl
  | some receipt =>
      obtain ⟨text, htext, rfl⟩ := map_eq_ok.mp h
      obtain ⟨text', htext', hdecode, hagain, hplain⟩ := settlement_receipt_again hreceipt hlevels
      obtain rfl : text = text' := Except.ok.inj (htext.symm.trans htext')
      refine .inr ⟨text, rfl, ?_, hplain⟩
      rw [receiptHeader, hdecode]
      simp only [Except.bind, hagain, htext, Except.map]

theorem safeReceipt_kept (hlevels : 1 ≤ levels) {body extra kept : Dict}
    (h : safeReceipt py keccak levels body extra = .ok kept) :
    kept = [] ∨ ∃ billing text, paidBilling body = some billing ∧
      kept = [(PyStr.ofString "PAYMENT-RESPONSE", .str text)] ∧
      KeptHeader py keccak levels billing text := by
  unfold safeReceipt at h
  cases hheader : extra.get "PAYMENT-RESPONSE" with
  | str header =>
      rw [hheader] at h
      dsimp only at h
      cases hbilling : paidBilling body with
      | none =>
          rw [hbilling] at h
          cases h
          exact .inl rfl
      | some billing =>
          rw [hbilling] at h
          refine (receiptHeader_kept hlevels h).imp_right ?_
          rintro ⟨text, hkept, htext⟩
          exact ⟨billing, text, rfl, hkept, htext⟩
  | null | bool _ | int _ | float _ | arr _ | obj _ =>
      rw [hheader] at h
      cases h
      exact .inl rfl

/-- The headers that are kept are a receipt's and a request's. -/
theorem withRequired_cases (kept : Dict) (required : Json) :
    (∃ q, required = .str q ∧
      withRequired kept required = some (kept.set "PAYMENT-REQUIRED" (.str q))) ∨
    ((∀ q, required ≠ .str q) ∧
      withRequired kept required = if kept.isEmpty then none else some kept) := by
  cases required with
  | str q => exact .inl ⟨q, rfl, rfl⟩
  | null | bool _ | int _ | float _ | arr _ | obj _ => exact .inr ⟨by simp, rfl⟩

theorem withRequired_null (kept : Dict) :
    withRequired kept .null = if kept.isEmpty then none else some kept := rfl

theorem safeReceipt_of_kept {body extra : Dict} {billing : Dict} {text : PyStr}
    (hbilling : paidBilling body = some billing)
    (hheader : extra.get "PAYMENT-RESPONSE" = .str text)
    (h : KeptHeader py keccak levels billing text) :
    safeReceipt py keccak levels body extra = .ok [("PAYMENT-RESPONSE", .str text)] := by
  rw [safeReceipt, hheader]
  dsimp only
  rw [hbilling]
  exact h.again

theorem safeReceipt_of_null {body extra : Dict} (h : extra.get "PAYMENT-RESPONSE" = .null) :
    safeReceipt py keccak levels body extra = .ok [] := by
  rw [safeReceipt, h]

/-- Headers that were kept are kept. -/
theorem safeExtra_again (hlevels : 1 ≤ levels) {body : Dict} {extra safe : Option Dict}
    (h : safeExtra py keccak levels body extra = .ok safe) :
    safeExtra py keccak levels body safe = .ok safe := by
  cases extra with
  | none =>
      cases h
      rfl
  | some extra =>
      obtain ⟨kept, hkept, rfl⟩ := map_eq_ok.mp h
      rcases safeReceipt_kept hlevels hkept with rfl | ⟨billing, text, hbilling, rfl, htext⟩
      · rcases withRequired_cases [] (extra.get "PAYMENT-REQUIRED") with ⟨q, -, hq⟩ | ⟨-, hq⟩
        · rw [hq, safeExtra, safeReceipt_of_null (by simp [Dict.set, Dict.get, Dict.get?]),
            Except.map, Dict.get_set_self]
          rfl
        · rw [hq]
          rfl
      · rcases withRequired_cases [("PAYMENT-RESPONSE", .str text)] (extra.get "PAYMENT-REQUIRED")
          with ⟨q, -, hq⟩ | ⟨-, hq⟩
        · rw [hq, safeExtra, safeReceipt_of_kept hbilling
            (by simp [Dict.set, Dict.get, Dict.get?]) htext, Except.map, Dict.get_set_self,
            withRequired]
        · rw [hq, List.isEmpty_cons, if_neg (by decide), safeExtra,
            safeReceipt_of_kept hbilling (by simp [Dict.get, Dict.get?]) htext, Except.map]
          simp [Dict.get, Dict.get?, withRequired]

/-- An outcome that was reduced is reduced. -/
theorem sanitizeOutcome_again (hlevels : 1 ≤ levels) {result safe : Outcome}
    (h : sanitizeOutcome py keccak levels result = .ok safe) :
    sanitizeOutcome py keccak levels safe = .ok safe := by
  obtain ⟨extra, hextra, rfl⟩ := map_eq_ok.mp h
  rw [sanitizeOutcome, safeBody_safeBody, safeExtra_again hlevels hextra]
  rfl

theorem sanitizeOutcome_clean {result safe : Outcome}
    (h : sanitizeOutcome py keccak levels result = .ok safe) :
    ¬ HasKey (fun key => isBlocked key = true) safe.body := by
  obtain ⟨extra, -, rfl⟩ := map_eq_ok.mp h
  rw [← cleanse_safeBody]
  exact not_hasKey_cleanse _ _ _

end Extras

/-! ## The text in the ledger -/

section Stored

variable {py : Interp} {keccak : Bytes → Option Bytes} {levels : ℕ}

/-- What is reduced to so many levels can be read with as many. -/
theorem readable_cleanse {n : ℕ} {v : Json} (h : v.Readable py floatConstants n) (left : ℕ)
    (top : Bool) : (cleanse left top v).Readable py floatConstants left := by
  induction h generalizing left top with
  | null => cases left <;> exact .null
  | bool b =>
      cases left with
      | zero => exact .null
      | succ left => exact .bool b
  | int h =>
      cases left with
      | zero => exact .null
      | succ left => exact .int h
  | float hfinite h =>
      cases left with
      | zero => exact .null
      | succ left => exact .float hfinite h
  | infinity h =>
      cases left with
      | zero => exact .null
      | succ left => exact .infinity h
  | negInfinity h =>
      cases left with
      | zero => exact .null
      | succ left => exact .negInfinity h
  | str h =>
      cases left with
      | zero => exact .null
      | succ left => exact .str h
  | arr _ ih =>
      cases left with
      | zero => exact .null
      | succ left =>
          refine .arr fun u hu => ?_
          obtain ⟨a, ha, rfl⟩ := List.mem_map.mp hu
          exact ih a (List.mem_of_mem_take ha) left false
  | @obj n d hkeys htext _ ih =>
      cases left with
      | zero => exact .null
      | succ left =>
          refine .obj ?_ ?_ ?_
          · rw [List.map_map]
            exact hkeys.sublist (List.filter_sublist.map Prod.fst)
          · intro m hm
            obtain ⟨a, ha, rfl⟩ := List.mem_map.mp hm
            exact htext a (List.mem_filter.mp ha).1
          · intro m hm
            obtain ⟨a, ha, rfl⟩ := List.mem_map.mp hm
            exact ih a (List.mem_filter.mp ha).1 left false

/-- A value of a key that is there takes the place of the old one. -/
theorem map_fst_set {d : Dict} {k : PyStr} (h : (d.get? k).isSome) (v : Json) :
    (d.set k v).map Prod.fst = d.map Prod.fst := by
  induction d with
  | nil => cases h
  | cons a d ih =>
      obtain ⟨k', v'⟩ := a
      rw [Dict.get?] at h
      rw [Dict.set]
      split_ifs at h ⊢ with hk
      · rfl
      · rw [List.map_cons, List.map_cons, ih h]

theorem readable_cleanBody {n : ℕ} {body : Json} (h : body.Readable py floatConstants n) :
    (Json.obj (cleanBody body)).Readable py floatConstants maxLevels := by
  have hempty : (Json.obj []).Readable py floatConstants maxLevels :=
    .obj (by simp) (by simp) (by simp)
  cases body with
  | obj d => exact readable_cleanse h maxLevels true
  | null | bool _ | int _ | float _ | str _ | arr _ => exact hempty

theorem readable_safeBody {n : ℕ} {body : Json} (h : body.Readable py floatConstants n)
    (code : ℤ) : (Json.obj (safeBody code body)).Readable py floatConstants maxLevels := by
  have hclean := readable_cleanBody h
  unfold safeBody
  split_ifs with herror
  · obtain ⟨hkeys, htext, hvalues⟩ : ((cleanBody body).map Prod.fst).Nodup ∧
        (∀ m ∈ cleanBody body, Unsplit m.1) ∧
        ∀ m ∈ cleanBody body, Json.Readable py floatConstants 16 m.2 := by
      cases hclean with
      | obj hkeys htext hvalues => exact ⟨hkeys, htext, hvalues⟩
    refine .obj ?_ ?_ ?_
    · rw [map_fst_set herror.2]
      exact hkeys
    · intro m hm
      rcases mem_set hm with rfl | hm
      · exact (noSurrogate_of_isAscii (by decide)).unsplit
      · exact htext m hm
    · intro m hm
      rcases mem_set hm with rfl | hm
      · exact .str (noSurrogate_of_isAscii (by decide)).unsplit
      · exact hvalues m hm
  · exact hclean

theorem get?_mem {d : Dict} {k : PyStr} {v : Json} (h : d.get? k = some v) : (k, v) ∈ d := by
  induction d with
  | nil => cases h
  | cons a d ih =>
      obtain ⟨k', v'⟩ := a
      rw [Dict.get?] at h
      split_ifs at h with hk
      · cases h
        subst hk
        exact List.mem_cons_self
      · exact List.mem_cons_of_mem _ (ih h)

/-- A text of a dictionary that can be read. -/
theorem unsplit_of_get {n : ℕ} {d : Dict} (h : (Json.obj d).Readable py floatConstants n)
    {k s : PyStr} (hget : d.get k = .str s) : Unsplit s := by
  rw [Dict.get] at hget
  cases hfound : d.get? k with
  | none =>
      rw [hfound] at hget
      cases hget
  | some v =>
      rw [hfound] at hget
      obtain rfl : v = .str s := hget
      cases h with
      | obj _ _ hvalues =>
          have hv := hvalues _ (get?_mem hfound)
          cases hv with
          | str h => exact h

/-- Headers that are kept can be read. -/
theorem readable_safeExtra (hlevels : 1 ≤ levels) {body : Dict} {extra safe : Option Dict}
    (hextra : ∀ d ∈ extra, ∃ n, (Json.obj d).Readable py floatConstants n)
    (h : safeExtra py keccak levels body extra = .ok safe) :
    (ofDict? safe).Readable py floatConstants 1 := by
  cases extra with
  | none =>
      cases h
      exact .null
  | some extra =>
      obtain ⟨n, hread⟩ := hextra extra rfl
      obtain ⟨kept, hkept, rfl⟩ := map_eq_ok.mp h
      have hresponse : Unsplit (PyStr.ofString "PAYMENT-RESPONSE") :=
        (noSurrogate_of_isAscii (by decide)).unsplit
      have hrequired : Unsplit (PyStr.ofString "PAYMENT-REQUIRED") :=
        (noSurrogate_of_isAscii (by decide)).unsplit
      -- the receipt's header, where there is one
      have hone : kept = [] ∨ ∃ text, kept = [(PyStr.ofString "PAYMENT-RESPONSE", .str text)] ∧
          Unsplit text := by
        refine (safeReceipt_kept hlevels hkept).imp_right ?_
        rintro ⟨_, text, _, hkept, htext⟩
        exact ⟨text, hkept, htext.plain.unsplit⟩
      rcases withRequired_cases kept (extra.get "PAYMENT-REQUIRED") with ⟨q, hq, heq⟩ | ⟨-, heq⟩
      · have htext := unsplit_of_get hread hq
        rw [heq]
        rcases hone with rfl | ⟨text, rfl, hplain⟩
        · refine .obj (by simp [Dict.set]) ?_ ?_
          · simpa [Dict.set] using hrequired
          · simpa [Dict.set] using Json.Readable.str htext
        · refine .obj (by simp [Dict.set]) ?_ ?_
          · simpa [Dict.set] using And.intro hresponse hrequired
          · simpa [Dict.set] using
              And.intro (Json.Readable.str (n := 0) hplain) (Json.Readable.str htext)
      · rw [heq]
        rcases hone with rfl | ⟨text, rfl, hplain⟩
        · exact .null
        · rw [List.isEmpty_cons, if_neg (by decide)]
          refine .obj (by simp) ?_ ?_
          · simpa using hresponse
          · simpa using Json.Readable.str hplain

/-- An outcome that can be read, as the value that is stored. -/
theorem readable_storedForm {n : ℕ} {code : ℤ} {body : Dict} {extra : Option Dict}
    (hcode : (natText code.natAbs).length ≤ PyStr.maxIntDigits)
    (hbody : (Json.obj body).Readable py floatConstants (n + 1))
    (hextra : (ofDict? extra).Readable py floatConstants 1) :
    (storedForm ⟨code, .obj body, extra⟩).Readable py floatConstants (n + 2) := by
  refine .obj_ascii (by simp) rfl ?_
  intro m hm
  simp only [List.mem_cons, List.not_mem_nil, or_false] at hm
  rcases hm with rfl | rfl | rfl
  · exact .int hcode
  · exact hbody
  · exact hextra.mono (by omega)

/-- The parts of a stored value. -/
theorem storedParts_storedForm (safe : Outcome) :
    storedParts py (storedForm safe) = .ok (safe.code, safe.body, ofDict? safe.extra) := by
  simp [storedParts, storedForm, item, Dict.get?, intValue, Except.bind, Except.map]

/-- A text that reads as the stored value of a reduced outcome is decoded as it. -/
theorem decodeOutcome_of_loads {raw : PyStr} {code : ℤ} {body : Dict} {extra : Option Dict}
    (hraw : loads floatConstants levels raw = .ok (storedForm ⟨code, .obj body, extra⟩))
    (hsafe : sanitizeOutcome py keccak levels ⟨code, .obj body, extra⟩ =
      .ok ⟨code, .obj body, extra⟩) :
    decodeOutcome py keccak levels raw = .ok (some ⟨code, .obj body, extra⟩) := by
  have hextra : (ofDict? extra).isNull || (ofDict? extra).isObj := by
    cases extra <;> rfl
  have hobj : (ofDict? extra).asObj? = extra := by
    cases extra <;> rfl
  have hloads : (loads floatConstants levels raw).bind (storedParts py) =
      .ok (code, .obj body, ofDict? extra) := by
    rw [hraw, Except.bind, storedParts_storedForm]
  have hbody : (Json.obj body).isObj = true := rfl
  rw [decodeOutcome, hloads]
  simp only [hbody, Bool.not_true, Bool.false_eq_true, ↓reduceIte, hextra, hobj, hsafe,
    Except.map]

end Stored

/-! ## Memory and disk -/

section Replayed

/-- A value that may be looked up in a set. -/
def hashable : Json → Bool
  | .arr _ | .obj _ => false
  | _ => true

/-- The receipt header of an outcome is looked at: the billing says that the settlement
was attempted and settled. -/
def Examined (result : Outcome) (billing : Dict) (header : PyStr) : Prop :=
  ∃ body extra, result.body = .obj body ∧ paidBilling body = some billing ∧
    result.extra = some extra ∧ extra.get "PAYMENT-RESPONSE" = .str header

/-- A payload claims a success on a network with a name of bounded length. -/
def ClaimsSuccess (payload : Option Dict) : Prop :=
  ∃ p network, payload = some p ∧ (p.get "success").isTrue = true ∧
    p.get "network" = .str network ∧ network.length ≤ 128

/-- The status has the digits that an integer may have as text; and where the receipt
header is looked at, it nests no deeper than the reader goes, and the rail is no list and
no dictionary when the payload claims a success. -/
def Replayable (levels : ℕ) (result : Outcome) : Prop :=
  (natText result.code.natAbs).length ≤ PyStr.maxIntDigits ∧
    ∀ billing header, Examined result billing header →
      ∃ payload, decodePaymentBlob levels header = .ok payload ∧
        (ClaimsSuccess payload → hashable (billing.get "rail") = true)

variable {py : Interp} {keccak : Bytes → Option Bytes} {levels : ℕ}

theorem supportedRail_ok {rail : Json} :
    (∃ known, supportedRail rail = .ok known) ↔ hashable rail = true := by
  cases rail <;> simp [supportedRail, hashable]

theorem hashable_cleanse (left : ℕ) (top : Bool) (v : Json) :
    hashable (cleanse (left + 1) top v) = hashable v := by
  cases v <;> rfl

theorem isTrue_cleanse (left : ℕ) (top : Bool) (v : Json) :
    (cleanse (left + 1) top v).isTrue = v.isTrue := by
  cases v <;> rfl

/-- The value of a key that is kept. -/
theorem get_kept {d : Dict} {keep : PyStr → Bool} {f : Json → Json} (hf : f .null = .null)
    {k : PyStr} (hk : keep k = true) :
    Dict.get ((d.filter fun m => keep m.1).map fun m => (m.1, f m.2)) k = f (d.get k) := by
  induction d with
  | nil => exact hf.symm
  | cons a d ih =>
      obtain ⟨k', v⟩ := a
      rw [Dict.get] at ih ⊢
      rw [Dict.get] at ih ⊢
      by_cases heq : k' = k
      · subst heq
        rw [List.filter_cons_of_pos (by exact hk)]
        simp [Dict.get?]
      · rw [Dict.get?, if_neg heq, ← ih]
        by_cases hkeep : keep k' = true
        · rw [List.filter_cons_of_pos (by exact hkeep)]
          simp [Dict.get?, heq]
        · rw [List.filter_cons_of_neg (by simpa using hkeep)]

/-- The billing of a reduced body is reduced. -/
theorem billing_safeBody (code : ℤ) (body : Dict) :
    (safeBody code (.obj body)).get "billing" = cleanse 16 false (body.get "billing") := by
  have hclean : (cleanBody (.obj body)).get "billing" = cleanse 16 false (body.get "billing") :=
    get_kept rfl (by decide)
  unfold safeBody
  split_ifs
  · rw [Dict.get_set_of_ne _ _ (by simp), hclean]
  · exact hclean

/-- The fields of a reduced dictionary are reduced. -/
theorem get_cleanse {left : ℕ} {top : Bool} {d : Dict} {k : PyStr} (hk : keepsKey top k = true) :
    Dict.get (cleanse (left + 2) top (.obj d)).dictOrEmpty k = cleanse (left + 1) false (d.get k) :=
  get_kept (f := cleanse (left + 1) false) rfl hk

/-- The paid billing of the reduced body is the reduced billing. -/
theorem paidBilling_safeBody (code : ℤ) (body : Dict) :
    paidBilling (safeBody code (.obj body)) =
      (paidBilling body).map fun billing => (cleanse 16 false (.obj billing)).dictOrEmpty := by
  rw [paidBilling, billing_safeBody, paidBilling]
  cases body.get "billing" with
  | obj billing =>
      obtain ⟨clean, hclean⟩ : ∃ clean, cleanse 16 false (.obj billing) = .obj clean := ⟨_, rfl⟩
      have hfield : ∀ k : PyStr, keepsKey false k = true →
          Dict.get clean k = cleanse 15 false (Dict.get billing k) := by
        intro k hk
        have hget := @get_cleanse 14 false billing k hk
        rw [hclean] at hget
        exact hget
      rw [hclean]
      dsimp only
      rw [hfield "settlement_attempted" (by decide), hfield "settled" (by decide), isTrue_cleanse,
        isTrue_cleanse]
      split_ifs
      · rw [Option.map_some, hclean]
        rfl
      · rfl
  | null | bool _ | int _ | float _ | str _ | arr _ => rfl

/-- A receipt is reduced without an exception unless the rail is looked up in vain. -/
theorem sanitizeSettlementReceipt_ok {payload : Option Dict} {rail : Json} :
    (∃ receipt, sanitizeSettlementReceipt py keccak payload rail = .ok receipt) ↔
      (ClaimsSuccess payload → hashable rail = true) := by
  constructor
  · rintro ⟨receipt, h⟩ ⟨p, network, rfl, hsuccess, hnetwork, hlength⟩
    rw [sanitizeSettlementReceipt, hnetwork] at h
    simp only [hsuccess, Bool.not_true, Bool.false_eq_true, ↓reduceIte, Nat.not_lt.mpr hlength] at h
    obtain ⟨known, hknown, -⟩ := map_eq_ok.mp h
    exact supportedRail_ok.mp ⟨known, hknown⟩
  · intro h
    cases payload with
    | none => exact ⟨none, rfl⟩
    | some p =>
        rw [sanitizeSettlementReceipt]
        by_cases hsuccess : (p.get "success").isTrue = true
        · simp only [hsuccess, Bool.not_true, Bool.false_eq_true, ↓reduceIte]
          cases hnetwork : p.get "network" with
          | str network =>
              dsimp only
              by_cases hlength : 128 < network.length
              · exact ⟨none, if_pos hlength⟩
              · obtain ⟨known, hknown⟩ := supportedRail_ok.mpr
                  (h ⟨p, network, rfl, hsuccess, hnetwork, Nat.not_lt.mp hlength⟩)
                rw [if_neg hlength, hknown]
                exact ⟨_, rfl⟩
          | null | bool _ | int _ | float _ | arr _ | obj _ => exact ⟨none, rfl⟩
        · simp only [hsuccess, Bool.not_false, ↓reduceIte]
          exact ⟨none, rfl⟩

theorem receiptHeader_ok (hlevels : 1 ≤ levels) {billing : Dict} {header : PyStr} :
    (∃ kept, receiptHeader py keccak levels billing header = .ok kept) ↔
      ∃ payload, decodePaymentBlob levels header = .ok payload ∧
        (ClaimsSuccess payload → hashable (billing.get "rail") = true) := by
  constructor
  · rintro ⟨kept, h⟩
    obtain ⟨payload, hpayload, h⟩ := bind_eq_ok.mp h
    obtain ⟨receipt, hreceipt, -⟩ := bind_eq_ok.mp h
    exact ⟨payload, hpayload, sanitizeSettlementReceipt_ok.mp ⟨receipt, hreceipt⟩⟩
  · rintro ⟨payload, hpayload, hrail⟩
    obtain ⟨receipt, hreceipt⟩ : ∃ receipt, sanitizeSettlementReceipt py keccak payload
        (billing.get "rail") = .ok receipt := sanitizeSettlementReceipt_ok.mpr hrail
    rw [receiptHeader, hpayload]
    cases receipt with
    | none =>
        refine ⟨[], ?_⟩
        simp only [Except.bind, hreceipt]
    | some receipt =>
        obtain ⟨text, htext, -⟩ := settlement_receipt_again hreceipt hlevels
        refine ⟨[("PAYMENT-RESPONSE", .str text)], ?_⟩
        simp only [Except.bind, hreceipt, htext, Except.map]

/-- An outcome is reduced without an exception exactly when its receipt header can be
looked at. -/
theorem sanitizeOutcome_ok (hlevels : 1 ≤ levels) (result : Outcome) :
    (∃ safe, sanitizeOutcome py keccak levels result = .ok safe) ↔
      ∀ billing header, Examined result billing header →
        ∃ payload, decodePaymentBlob levels header = .ok payload ∧
          (ClaimsSuccess payload → hashable (billing.get "rail") = true) := by
  have hrail : ∀ billing : Dict, hashable
      (Dict.get (cleanse 16 false (.obj billing)).dictOrEmpty "rail") =
        hashable (billing.get "rail") := by
    intro billing
    rw [get_cleanse (by decide), hashable_cleanse]
  constructor
  · rintro ⟨safe, h⟩ billing header ⟨body, extra, hbody, hbilling, hextra, hheader⟩
    obtain ⟨kept, h, -⟩ := map_eq_ok.mp h
    rw [hbody, hextra] at h
    obtain ⟨kept, h, -⟩ := map_eq_ok.mp h
    rw [safeReceipt, hheader] at h
    dsimp only at h
    rw [paidBilling_safeBody, hbilling, Option.map_some] at h
    have hok := (receiptHeader_ok hlevels).mp ⟨kept, h⟩
    rwa [hrail] at hok
  · intro h
    have hextra : ∃ kept, safeExtra py keccak levels (safeBody result.code result.body)
        result.extra = .ok kept := by
      cases hresult : result.extra with
      | none => exact ⟨none, rfl⟩
      | some extra =>
          have hreceipt : ∃ kept, safeReceipt py keccak levels
              (safeBody result.code result.body) extra = .ok kept := by
            rw [safeReceipt]
            cases hheader : extra.get "PAYMENT-RESPONSE" with
            | str header =>
                dsimp only
                cases hbody : result.body with
                | obj body =>
                    rw [paidBilling_safeBody]
                    cases hbilling : paidBilling body with
                    | none => exact ⟨[], rfl⟩
                    | some billing =>
                        rw [Option.map_some]
                        refine (receiptHeader_ok hlevels).mpr ?_
                        rw [hrail]
                        exact h billing header ⟨body, extra, hbody, hbilling, hresult, hheader⟩
                | null | bool _ | int _ | float _ | str _ | arr _ =>
                    refine ⟨[], ?_⟩
                    simp [safeBody, cleanBody, Dict.get?, paidBilling, Dict.get]
            | null | bool _ | int _ | float _ | arr _ | obj _ => exact ⟨[], rfl⟩
          obtain ⟨kept, hkept⟩ := hreceipt
          rw [safeExtra, hkept]
          exact ⟨_, rfl⟩
    obtain ⟨kept, hkept⟩ := hextra
    rw [sanitizeOutcome, hkept]
    exact ⟨_, rfl⟩

/-- A status of too many digits has no text. -/
theorem dumps_storedForm_code {safe : Outcome} {raw : PyStr}
    (h : (storedForm safe).dumps py = .ok raw) :
    (natText safe.code.natAbs).length ≤ PyStr.maxIntDigits := by
  by_contra hlong
  have hcode : (Json.int safe.code).dumps py =
      .error (.valueError "Exceeds the limit (4300 digits) for integer string conversion") := by
    rw [Json.dumps, jsonInt, if_neg hlong]
  rw [storedForm, Json.dumps, Json.dumpsMembers, hcode] at h
  cases h

/-- An outcome that can be replayed is reduced, and read back from the ledger as it was
reduced. -/
theorem Replayable.stored (hlevels : 18 ≤ levels) {n : ℕ} {result : Outcome}
    (hbody : result.body.Readable py floatConstants n)
    (hextra : ∀ d ∈ result.extra, ∃ n, (Json.obj d).Readable py floatConstants n)
    (h : Replayable levels result) :
    ∃ safe raw, sanitizeOutcome py keccak levels result = .ok safe ∧
      sanitizeOutcome py keccak levels safe = .ok safe ∧
      encodeOutcome py keccak levels safe = .ok raw ∧
      decodeOutcome py keccak levels raw = .ok (some safe) := by
  obtain ⟨hcode, hreceipt⟩ := h
  have hone : 1 ≤ levels := by omega
  obtain ⟨safe, hsafe⟩ : ∃ safe, sanitizeOutcome py keccak levels result = .ok safe :=
    (sanitizeOutcome_ok hone result).mpr hreceipt
  have hagain := sanitizeOutcome_again hone hsafe
  obtain ⟨extra, hkept, rfl⟩ := map_eq_ok.mp hsafe
  have hstored := readable_storedForm hcode (readable_safeBody hbody result.code)
    (readable_safeExtra hone hextra hkept)
  obtain ⟨raw, hraw, hloads⟩ := (hstored.mono hlevels).loads_dumps
  refine ⟨_, raw, hsafe, hagain, ?_, decodeOutcome_of_loads hloads hagain⟩
  rw [encodeOutcome, hagain]
  exact hraw

/-- Replay from disk is replay from memory: the outcome is reduced, reducing it again
changes nothing, no blocked key is left in its body, and the text of the outcome in the
ledger, whether it is written before or after the reduction, is decoded as the reduced
outcome, exactly when the outcome can be replayed. -/
theorem replay_from_disk (hlevels : 18 ≤ levels) {n : ℕ} {result : Outcome}
    (hbody : result.body.Readable py floatConstants n)
    (hextra : ∀ d ∈ result.extra, ∃ n, (Json.obj d).Readable py floatConstants n) :
    (∃ safe raw, sanitizeOutcome py keccak levels result = .ok safe ∧
      sanitizeOutcome py keccak levels safe = .ok safe ∧
      ¬ HasKey (fun key => isBlocked key = true) safe.body ∧
      encodeOutcome py keccak levels result = .ok raw ∧
      encodeOutcome py keccak levels safe = .ok raw ∧
      decodeOutcome py keccak levels raw = .ok (some safe)) ↔ Replayable levels result := by
  have hone : 1 ≤ levels := by omega
  constructor
  · rintro ⟨safe, raw, hsafe, -, -, hraw, -⟩
    refine ⟨?_, (sanitizeOutcome_ok hone result).mp ⟨safe, hsafe⟩⟩
    obtain ⟨safe', hsafe', hdumps⟩ := bind_eq_ok.mp hraw
    have hcode := dumps_storedForm_code hdumps
    obtain ⟨extra, -, rfl⟩ := map_eq_ok.mp hsafe'
    exact hcode
  · intro h
    obtain ⟨safe, raw, hsafe, hagain, hraw, hdecode⟩ :=
      @Replayable.stored py keccak levels hlevels n result hbody hextra h
    refine ⟨safe, raw, hsafe, hagain, sanitizeOutcome_clean hsafe, ?_, hraw, hdecode⟩
    rw [encodeOutcome, hagain] at hraw
    rw [encodeOutcome, hsafe]
    exact hraw

/-- The outcome of a paid route whose receipt header is no receipt. -/
def paidOutcome (rail : Json) (header : PyStr) : Outcome where
  code := 200
  body := .obj [("live", .bool true), ("headers", .null),
    ("billing", .obj [("rail", rail), ("settlement_attempted", .bool true),
      ("settled", .bool true)])]
  extra := some [("PAYMENT-RESPONSE", .str header)]

theorem readable_paidOutcome {rail : Json} {header : PyStr} {n : ℕ}
    (hrail : rail.Readable py floatConstants (n + 1)) (hheader : Unsplit header) :
    (paidOutcome rail header).body.Readable py floatConstants (n + 3) ∧
      ∀ d ∈ (paidOutcome rail header).extra, ∃ n, (Json.obj d).Readable py floatConstants n := by
  constructor
  · refine .obj_ascii (by simp) rfl ?_
    intro m hm
    simp only [List.mem_cons, List.not_mem_nil, or_false] at hm
    rcases hm with rfl | rfl | rfl
    · exact .bool true
    · exact .null
    · refine .obj_ascii (by simp) rfl ?_
      intro m hm
      simp only [List.mem_cons, List.not_mem_nil, or_false] at hm
      rcases hm with rfl | rfl | rfl
      · exact hrail
      · exact .bool true
      · exact .bool true
  · rintro d hd
    cases hd
    refine ⟨1, .obj_ascii (by simp) rfl ?_⟩
    intro m hm
    obtain rfl := List.mem_singleton.mp hm
    exact .str hheader

/-- A receipt on Base. -/
def paidReceipt : Dict :=
  settlementReceipt (PyStr.ofString "0x" ++ List.replicate 64 (CodePoint.ofChar 'a')) baseCaip2 none

/-- The header that carries it. -/
theorem exists_paidHeader : ∃ header, Unsplit header ∧
    decodePaymentBlob 18 header = .ok (some paidReceipt) := by
  have hkept : sanitizeSettlementReceipt Interp.plain (fun _ => none) (some paidReceipt)
      (.str "base") = .ok (some paidReceipt) := rfl
  obtain ⟨header, -, hdecode, -, hplain⟩ := settlement_receipt_again hkept (show 1 ≤ 18 by decide)
  exact ⟨header, hplain.unsplit, hdecode⟩

theorem replay_from_disk_paid : ∃ header,
    decodePaymentBlob 18 header = .ok (some paidReceipt) ∧
    ∃ safe raw, sanitizeOutcome Interp.plain (fun _ => none) 18
        (paidOutcome (.str "base") header) = .ok safe ∧
      sanitizeOutcome Interp.plain (fun _ => none) 18 safe = .ok safe ∧
      ¬ HasKey (fun key => isBlocked key = true) safe.body ∧
      encodeOutcome Interp.plain (fun _ => none) 18 (paidOutcome (.str "base") header) = .ok raw ∧
      encodeOutcome Interp.plain (fun _ => none) 18 safe = .ok raw ∧
      decodeOutcome Interp.plain (fun _ => none) 18 raw = .ok (some safe) := by
  obtain ⟨header, hheader, hdecode⟩ := exists_paidHeader
  have hrail : (Json.str "base").Readable Interp.plain floatConstants 1 :=
    .str (noSurrogate_of_isAscii (by decide)).unsplit
  obtain ⟨hbody, hextra⟩ := readable_paidOutcome hrail hheader
  have hcode : (natText (200 : ℤ).natAbs).length ≤ PyStr.maxIntDigits := by decide
  refine ⟨header, hdecode, (replay_from_disk le_rfl hbody hextra).mpr ⟨hcode, ?_⟩⟩
  rintro billing header' ⟨body, extra, hbody, hbilling, hextra, hheader'⟩
  cases hbody
  cases hextra
  obtain rfl : header = header' := Json.str.inj hheader'
  cases hbilling
  exact ⟨_, hdecode, fun _ => rfl⟩

/-- A rail that is a list cannot be looked up: the receipt is not reduced. -/
theorem unhashable_rail_raises : ∃ header,
    decodePaymentBlob 18 header = .ok (some paidReceipt) ∧
      (paidOutcome (.arr []) header).body.Readable Interp.plain floatConstants 3 ∧
      ¬ ∃ safe, sanitizeOutcome Interp.plain (fun _ => none) 18 (paidOutcome (.arr []) header) =
        .ok safe := by
  obtain ⟨header, hheader, hdecode⟩ := exists_paidHeader
  refine ⟨header, hdecode, (readable_paidOutcome (.arr (by simp)) hheader).1, ?_⟩
  rw [sanitizeOutcome_ok (by decide)]
  intro h
  obtain ⟨payload, hpayload, hrail⟩ := h [("rail", .arr []), ("settlement_attempted", .bool true),
    ("settled", .bool true)] header ⟨_, _, rfl, rfl, rfl, rfl⟩
  rw [hdecode] at hpayload
  obtain rfl : some paidReceipt = payload := Except.ok.inj hpayload
  have hhash := hrail ⟨paidReceipt, baseCaip2, rfl, rfl, rfl, by decide⟩
  cases hhash

end Replayed

end Signal402.Replay
