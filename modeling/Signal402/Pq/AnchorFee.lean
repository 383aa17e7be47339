import Signal402.Algo.Address
import Signal402.Algo.MsgPackSize
import Signal402.Base.Base64
import Signal402.Pq.AnchorNote
import Signal402.Route.StoredOutcome

/-!
# The fee of an anchor (`pq/algo_anchor.py`, `pq/mainnet_params.py`)

The parameters of the network, the estimated size of a signed transaction, and the fee that
is made of them.  The builder measures a draft that carries the least fee and writes the
fee of the draft into the transaction; that the fee of the transaction is the same is a
question of how many bytes the two fees are written in.
-/

namespace Signal402.AnchorFee

open AnchorNote (anchorError)
open Payment (decodeAddress)
open Replay (intValue)

/-! ## Constants of the networks -/

/-- `PROTOCOL_BASE_MIN`. -/
def baseMin : ℤ := 1000

def falconExtraMinMult : ℤ := 2

/-- `MIN_FEE`. -/
def leastFee : ℤ := baseMin * (1 + falconExtraMinMult)

/-- `MAX_FEE`. -/
def maxFee : ℤ := 30000

def falconF1PkLen : ℕ := 1793

def falconF1SigMax : ℕ := 1423

def canonicalValidityWindow : ℤ := 1000

/-- What the anchors use of a `NetworkConfig`. -/
structure NetworkConfig where
  name : PyStr
  genesisId : PyStr
  genesisHash : PyStr
  deriving DecidableEq

def testnet : NetworkConfig :=
  ⟨"testnet", "testnet-v1.0", "SGO1GKSzyE7IEPItTxCByw9x8FmnrCDexi9/cOUJOiI="⟩

def mainnet : NetworkConfig :=
  ⟨"mainnet", "mainnet-v1.0", "wGHE2Pwdvd7S12BL5FaOP20EGYesN73ktiC1qzkkit8="⟩

/-- `NETWORKS`. -/
def networks : List NetworkConfig := [testnet, mainnet]

def networkForGenesisId (genesisId : PyStr) : Option NetworkConfig :=
  networks.find? fun cfg => cfg.genesisId = genesisId.strip

/-! ## Parameters

A dictionary of parameters; `None` counts as the empty one. -/

/-- `d.get(key)`: a missing key reads as `None`. -/
def getField (d : MsgDict) (key : PyStr) : Msgpack :=
  ((d.find? fun m => m.1 == key).map Prod.snd).getD .nil

/-- `key in d`. -/
def hasField (d : MsgDict) (key : PyStr) : Bool := d.any fun m => m.1 == key

section Fees

variable (py : Interp)

/-- `int(x)`, with the exceptions that the source turns into an `AnchorError`. -/
def anchorInt (msg : String) (x : Json) : Except PyError ℤ :=
  match intValue py x with
  | .ok n => .ok n
  | .error e =>
      if e.cls.isA .typeError ∨ e.cls.isA .valueError then .error (anchorError msg) else .error e

/-- An integer that has to be at least `least`. -/
def anchorIntFrom (least : ℤ) (msg : String) (x : Json) : Except PyError ℤ :=
  (anchorInt py msg x).bind fun n => if n < least then .error (anchorError msg) else .ok n

/-- algod min-fee: protocol base min for an ordinary txn. -/
def protocolBaseMin (params : Dict) : Except PyError ℤ :=
  let raw := if (Dict.get params "minFee").isNull then Dict.get params "min-fee"
    else Dict.get params "minFee"
  if raw.isNull then .ok baseMin else anchorIntFrom py 1 "fee out of range" raw

/-- Uncongested Falcon-1024 floor: protocol base + 2x base. -/
def falconMinFee (params : Dict) : Except PyError ℤ :=
  (protocolBaseMin py params).map fun n => n * (1 + falconExtraMinMult)

/-- The keys under which a fee per byte is given explicitly. -/
def feePerByteKeys : List PyStr := ["feePerByte", "fee_per_byte", "current_fee_per_byte"]

/-- algod suggested `fee` is current fee per byte, not a flat txn fee. -/
def feePerByte (params : Dict) : Except PyError ℤ :=
  match feePerByteKeys.find? fun key => !(Dict.get params key).isNull with
  | some key => anchorIntFrom py 0 "fee out of range" (Dict.get params key)
  | none =>
      if (Dict.get params "flatFee").isTrue then .ok 0
      else if (Dict.get params "fee").isNull then .ok 0
      else anchorIntFrom py 0 "fee out of range" (Dict.get params "fee")

/-- The transaction that is measured when there is none. -/
def defaultDraft : MsgDict :=
  [("type", .str "pay"), ("fee", .int leastFee), ("fv", .int 1), ("lv", .int 1001),
    ("gen", .str testnet.genesisId),
    ("gh", .bytes ((b64decode testnet.genesisHash).getD [])),
    ("note", .bytes (List.replicate AnchorNote.noteLen 0)), ("snd", .bytes (List.replicate 32 0)),
    ("rcv", .bytes (List.replicate 32 0))]

/-- What a signed transaction is taken to look like. -/
def envelope (txn : MsgDict) : MsgDict :=
  [("pqsig", .dict [("pk", .bytes (List.replicate falconF1PkLen 0)), ("sch", .str "f1"),
      ("sig", .bytes (List.replicate falconF1SigMax 0)), ("slt", .int 0)]),
    ("txn", .dict txn)]

/-- The fields that are measured. -/
def measuredTxn (unsigned : Option MsgDict) : MsgDict :=
  let txn : MsgDict := match unsigned with
    | some (m :: rest) => (m :: rest).filter fun m => m.1 ≠ PyStr.ofString "flatFee"
    | _ => defaultDraft
  if hasField txn "fee" then txn else txn ++ [(PyStr.ofString "fee", .int leastFee)]

/-- Deterministic msgpack size of a Falcon-1024 authorized SignedTxn. -/
def estimateFalconAuthorizedSize (unsigned : Option MsgDict) : Except PyError ℕ :=
  (msgpackEncode py (envelope (measuredTxn unsigned))).map List.length

/-- The transaction inside signed bytes, unless they cannot be read. -/
def innerTxn (str : Msgpack → PyStr) (signed : Bytes) : Option MsgDict :=
  match msgpackDecode str false signed with
  | .ok obj =>
      match getField obj "txn" with
      | .dict inner => some inner
      | _ => none
  | .error _ => none

/-- Official Falcon required fee.  The estimate looks into signed bytes only when no
transaction is given. -/
def requiredFee (str : Msgpack → PyStr) (params : Dict) (signed : Option Bytes)
    (unsigned : Option MsgDict) : Except PyError ℤ :=
  (falconMinFee py params).bind fun floor =>
    if maxFee < floor then .error (anchorError "fee exceeds cap")
    else
      (feePerByte py params).bind fun fpb =>
        let draft := unsigned.or (signed.bind (innerTxn str))
        (estimateFalconAuthorizedSize py draft).bind fun size =>
          if size < 1 then .error (anchorError "fee out of range")
          else if maxFee < max (fpb * size) floor then .error (anchorError "fee exceeds cap")
          else .ok (max (fpb * size) floor)

/-! ## Validity -/

/-- Trusted lastRound from a frozen network-parameter snapshot. -/
def snapshotLastRound (params : Dict) (require : Bool) : Except PyError ℤ :=
  match [PyStr.ofString "lastRound", PyStr.ofString "last_round"].find? fun key =>
      !(Dict.get params key).isBlank with
  | some key => anchorIntFrom py 1 "invalid lastRound" (Dict.get params key)
  | none => if require then .error (anchorError "missing lastRound") else .ok 0

/-- Canonical firstValid / lastValid from a frozen snapshot. -/
def canonicalValidity (params : Dict) (requireCanonical : Bool) : Except PyError (ℤ × ℤ) :=
  (snapshotLastRound py params requireCanonical).bind fun lastRound =>
    if requireCanonical ∧ lastRound < 1 then .error (anchorError "missing lastRound")
    else if lastRound < 1 then .ok (1, 1 + canonicalValidityWindow)
    else .ok (lastRound, lastRound + canonicalValidityWindow)

/-- What `fee_policy_snapshot` returns. -/
structure FeePolicy where
  minFee : ℤ
  feePerByte : ℤ
  lastRound : ℤ
  maxLife : ℤ
  maxFee : ℤ
  canonicalFee : ℤ
  fv : ℤ
  lv : ℤ
  snapshotAt : ℤ
  snapshotMaxAgeS : ℤ
  sizeRule : PyStr
  sizeVersion : PyStr
  version : PyStr
  formula : PyStr

def feePolicySnapshot (str : Msgpack → PyStr) (params : Dict) (unsigned : Option MsgDict)
    (now : ℤ) : Except PyError FeePolicy :=
  let genesis := ((Dict.get params "genesisID").or (Dict.get params "genesis_id")).or (.str [])
  let require := (Dict.get params "require_canonical").truthy || py.str genesis == mainnet.genesisId
  (snapshotLastRound py params require).bind fun lastRound =>
  (canonicalValidity py params require).bind fun window =>
  (requiredFee py str params none unsigned).bind fun canonical =>
  (protocolBaseMin py params).bind fun minFee =>
  (feePerByte py params).map fun fpb =>
    { minFee := minFee
      feePerByte := fpb
      lastRound := lastRound
      maxLife := canonicalValidityWindow
      maxFee := maxFee
      canonicalFee := canonical
      fv := window.1
      lv := window.2
      snapshotAt := now
      snapshotMaxAgeS := 90
      sizeRule := "deterministic_falcon_envelope_estimate"
      sizeVersion := "1"
      version := "pq-anchor/3"
      formula :=
        "max(fee_per_byte * deterministic_falcon_envelope_estimate, protocol_base_min * 3)" }

/-! ## Transactions -/

/-- `decode_address`, with its exception. -/
def addressKey (addr : PyStr) : Except PyError Bytes :=
  match decodeAddress addr with
  | some key => .ok key
  | none => .error (.valueError "invalid algorand address")

/-- `pay_txn`. -/
def payTxn (sender receiver : PyStr) (amount fee first last : ℤ) (genesisId : PyStr)
    (genesisHash note group : Bytes) : Except PyError MsgDict :=
  (addressKey receiver).bind fun rcv =>
  (addressKey sender).map fun snd =>
    let fields : List (PyStr × Option Msgpack) :=
      [("amt", if amount ≠ 0 then some (.int amount) else none),
        ("fee", if fee ≠ 0 then some (.int fee) else none),
        ("fv", if first ≠ 0 then some (.int first) else none),
        ("gen", if genesisId ≠ [] then some (.str genesisId) else none),
        ("gh", if genesisHash ≠ [] then some (.bytes genesisHash) else none),
        ("grp", if group ≠ [] then some (.bytes group) else none),
        ("lv", some (.int last)),
        ("note", if note ≠ [] then some (.bytes note) else none),
        ("rcv", some (.bytes rcv)), ("snd", some (.bytes snd)), ("type", some (.str "pay"))]
    fields.filterMap fun m => m.2.map fun v => (m.1, v)

/-- `base64.b64decode`, with its exception. -/
def b64Bytes (text : PyStr) : Except PyError Bytes :=
  match b64decode text with
  | some raw => .ok raw
  | none => .error (.valueError "Incorrect padding")

/-- `_genesis_hash_bytes`; the hash that the payment rails use is the one of MainNet. -/
def genesisHashBytes (gen : PyStr) (gh : Json) : Except PyError Bytes :=
  let known := match networkForGenesisId gen with
    | some cfg => cfg.genesisHash
    | none => if gen = testnet.genesisId then testnet.genesisHash else mainnet.genesisHash
  match gh with
  | .str text => if text.strip ≠ [] then b64Bytes text else b64Bytes known
  | _ => b64Bytes known

/-- The keys of a transaction that `build_mainnet_payment_txn` keeps. -/
def builtKeys : List PyStr := ["type", "fee", "fv", "gen", "gh", "lv", "note", "rcv", "snd"]

/-- MainNet PaymentTxn from trusted semantic fields only; `configured` is the address of
the environment. -/
def buildMainnetPaymentTxn (str : Msgpack → PyStr) (configured : PyStr) (note : Bytes)
    (params : Dict) (address : Option PyStr) : Except PyError MsgDict :=
  let addr := (if address.getD [] ≠ [] then address.getD [] else configured).strip
  if addr = [] then .error (anchorError "mainnet falcon address required")
  else
    let gen := py.str (((Dict.get params "genesisID").or (Dict.get params "genesis_id")).or
      (.str mainnet.genesisId))
    if gen ≠ mainnet.genesisId then .error (anchorError "not mainnet genesis")
    else
      (genesisHashBytes gen ((Dict.get params "genesisHash").or
        (Dict.get params "genesis_hash"))).bind fun gh =>
      if b64encode gh ≠ mainnet.genesisHash then .error (anchorError "genesis hash mismatch")
      else
        (falconMinFee py params).bind fun floor =>
        if maxFee < floor then .error (anchorError "fee exceeds cap")
        else
          (canonicalValidity py params true).bind fun window =>
          (payTxn addr addr 0 floor window.1 window.2 mainnet.genesisId gh note []).bind fun draft =>
          (requiredFee py str params none (some draft)).bind fun fee =>
          (payTxn addr addr 0 fee window.1 window.2 mainnet.genesisId gh note []).map fun txn =>
            txn.filter (fun m => builtKeys.contains m.1) ++
              [(PyStr.ofString "flatFee", .bool true)]

/-! ## Trusted parameters -/

/-- `ParamsError`, a `ValueError`. -/
def paramsError (msg : String) : PyError := .valueError msg

/-- `int(x)`, with the exceptions that the source turns into a `ParamsError`. -/
def paramsInt (x : Json) : Except PyError ℤ :=
  match intValue py x with
  | .ok n => .ok n
  | .error e =>
      if e.cls.isA .typeError ∨ e.cls.isA .valueError then
        .error (paramsError "invalid params integers")
      else .error e

/-- `a if a is not None else b`. -/
def notNoneElse (a b : Json) : Json := if a.isNull then b else a

/-- The snapshot that `parse_algod_params` returns. -/
def algodParams (lastRound minFee feePerByte : ℤ) : Dict :=
  [("minFee", .int minFee), ("fee", .int feePerByte), ("feePerByte", .int feePerByte),
    ("lastRound", .int lastRound), ("firstValid", .int lastRound),
    ("lastValid", .int (lastRound + 1000)), ("genesisID", .str mainnet.genesisId),
    ("genesisHash", .str mainnet.genesisHash), ("require_canonical", .bool true),
    ("flatFee", .bool false), ("params_host", .str [])]

/-- Extract min-fee, fee-per-byte, last-round.  Validate MainNet genesis. -/
def parseAlgodParams (body : Json) : Except PyError Dict :=
  match body with
  | .obj body =>
      (paramsInt py (notNoneElse (Dict.get body "last-round")
        ((Dict.get body "lastRound").or (.int 0)))).bind fun lastRound =>
      (paramsInt py (notNoneElse (Dict.get body "min-fee")
        ((Dict.get body "minFee").or (.int 0)))).bind fun minFee =>
      (paramsInt py (notNoneElse (Dict.get body "fee") (.int 0))).bind fun feePerByte =>
        if lastRound < 1 then .error (paramsError "missing lastRound")
        else if minFee < 1 then .error (paramsError "invalid min-fee")
        else if feePerByte < 0 then .error (paramsError "invalid fee-per-byte")
        else
          let gid := (py.str (((Dict.get body "genesis-id").or (Dict.get body "genesisID")).or
            (.str []))).strip
          let gh := (py.str (((Dict.get body "genesis-hash").or (Dict.get body "genesisHash")).or
            (.str []))).strip
          if gid ≠ mainnet.genesisId ∨ gh ≠ mainnet.genesisHash then
            .error (paramsError "genesis mismatch")
          else .ok (algodParams lastRound minFee feePerByte)
  | _ => .error (paramsError "invalid params body")

end Fees

/-! ## The estimated size -/

section Sizes

variable {py : Interp}

/-- The bytes of the authorization in the estimate. -/
theorem encode_pqsig : ∃ bs : Bytes,
    encodeItems (encodeValues py [("pk", .bytes (List.replicate falconF1PkLen 0)),
      ("sch", .str "f1"), ("sig", .bytes (List.replicate falconF1SigMax 0)), ("slt", .int 0)]) =
        .ok bs ∧ bs.length = 3242 := by
  have hpk := mpBin_eq (b := List.replicate falconF1PkLen 0)
    (by rw [List.length_replicate, falconF1PkLen]; omega)
  have hsig := mpBin_eq (b := List.replicate falconF1SigMax 0)
    (by rw [List.length_replicate, falconF1SigMax]; omega)
  have hsch : mpStr "f1" = .ok [0xA2, 0x66, 0x31] := rfl
  have hslt : mpUint 0 = .ok (uintForm 0) := mpUint_eq (n := 0) (by omega)
  simp only [encodeValues, encodeValue, hpk, hsig, hsch, hslt]
  rw [encodeItems_of_pairwise (by decide), encodedPairs_cons, encodedPairs_cons,
    encodedPairs_cons, encodedPairs_cons]
  have hfit : ∀ m ∈ [(PyStr.ofString "pk", binForm (List.replicate falconF1PkLen 0)),
      (PyStr.ofString "sch", ([0xA2, 0x66, 0x31] : Bytes)),
      (PyStr.ofString "sig", binForm (List.replicate falconF1SigMax 0)),
      (PyStr.ofString "slt", uintForm 0)], FitsKey m.1 := by
    simp only [List.forall_mem_cons, FitsKey]
    exact ⟨by decide, by decide, by decide, by decide, by simp⟩
  refine ⟨_, mpMap_eq_ok.mpr ⟨⟨by simp, hfit⟩, rfl⟩, ?_⟩
  simp only [pairsForm, List.map_cons, List.flatten_cons, List.length_append, List.length_cons,
    List.length_nil, length_binForm, List.length_replicate, length_uintForm, falconF1PkLen,
    falconF1SigMax]
  rfl

/-- The estimate of a transaction is the length of its fields and of the rest. -/
theorem estimate_eq {d : MsgDict} (hne : d ≠ []) (hfee : hasField (d.filter fun m =>
      m.1 ≠ PyStr.ofString "flatFee") "fee" = true) :
    estimateFalconAuthorizedSize py (some d) =
      (msgpackEncode py (d.filter fun m => m.1 ≠ PyStr.ofString "flatFee")).map
        fun bs => 3253 + bs.length := by
  obtain ⟨m, rest, rfl⟩ := List.exists_cons_of_ne_nil hne
  obtain ⟨pqsig, hpqsig, hlength⟩ : ∃ bs, encodeItems (encodeValues py _) = .ok bs ∧ _ :=
    encode_pqsig
  rw [estimateFalconAuthorizedSize, measuredTxn, if_pos hfee, envelope, msgpackEncode]
  simp only [encodeValues, encodeValue]
  simp only [encodeValues, encodeValue] at hpqsig
  rw [hpqsig, encodeItems_two (by decide) ⟨by decide, by decide⟩ ⟨by decide, by decide⟩]
  change ((msgpackEncode py _).map _).map _ = _
  cases msgpackEncode py ((m :: rest).filter fun m => m.1 ≠ PyStr.ofString "flatFee") with
  | error e => rfl
  | ok bs =>
      have hhead : (mapHead 2).length = 1 := by decide
      have hkey : (strForm (utf8Bytes "pqsig")).length = 6 := by decide
      have hkey' : (strForm (utf8Bytes "txn")).length = 4 := by decide
      simp only [Except.map, pairsForm, List.map_cons, List.map_nil, List.flatten_cons,
        List.flatten_nil, List.length_append, List.length_nil, hhead, hkey, hkey', hlength,
        Except.ok.injEq]
      omega

end Sizes

/-! ## The required fee -/

section Required

variable {py : Interp} {str : Msgpack → PyStr} {params : Dict}

theorem anchorIntFrom_eq_ok {least n : ℤ} {msg : String} {x : Json}
    (h : anchorIntFrom py least msg x = .ok n) : least ≤ n := by
  obtain ⟨k, -, h⟩ := bind_eq_ok.mp h
  split at h
  · cases h
  · obtain rfl := Except.ok.inj h
    omega

theorem falconMinFee_eq_ok {floor : ℤ} (h : falconMinFee py params = .ok floor) : 3 ≤ floor := by
  obtain ⟨n, hn, rfl⟩ := map_eq_ok.mp h
  have hpos : 1 ≤ n := by
    simp only [protocolBaseMin] at hn
    generalize (if (Dict.get params "minFee").isNull = true then Dict.get params "min-fee"
      else Dict.get params "minFee") = raw at hn
    split at hn
    · obtain rfl := Except.ok.inj hn
      decide
    · exact anchorIntFrom_eq_ok hn
  rw [falconExtraMinMult]
  omega

theorem feePerByte_eq_ok {fpb : ℤ} (h : feePerByte py params = .ok fpb) : 0 ≤ fpb := by
  rw [feePerByte] at h
  split at h
  · exact anchorIntFrom_eq_ok h
  · split at h
    · obtain rfl := Except.ok.inj h
      exact le_refl _
    · split at h
      · obtain rfl := Except.ok.inj h
        exact le_refl _
      · exact anchorIntFrom_eq_ok h

theorem requiredFee_eq_ok {d : MsgDict} {need : ℤ} :
    requiredFee py str params none (some d) = .ok need ↔ ∃ floor fpb size,
      falconMinFee py params = .ok floor ∧ feePerByte py params = .ok fpb ∧
        estimateFalconAuthorizedSize py (some d) = .ok size ∧ 1 ≤ size ∧
          need = max (fpb * size) floor ∧ need ≤ maxFee := by
  rw [requiredFee]
  constructor
  · intro h
    obtain ⟨floor, hfloor, h⟩ := bind_eq_ok.mp h
    split at h
    · cases h
    obtain ⟨fpb, hfpb, h⟩ := bind_eq_ok.mp h
    obtain ⟨size, hsize, h⟩ := bind_eq_ok.mp h
    split at h
    · cases h
    split at h
    · cases h
    obtain rfl := Except.ok.inj h
    exact ⟨floor, fpb, size, hfloor, hfpb, hsize, by omega, rfl, by omega⟩
  · rintro ⟨floor, fpb, size, hfloor, hfpb, hsize, hpos, rfl, hcap⟩
    have hfloor' : ¬ maxFee < floor := not_lt.mpr (le_trans (le_max_right _ _) hcap)
    rw [hfloor, Except.bind, if_neg hfloor', hfpb, Except.bind, Option.some_or]
    dsimp only
    rw [hsize, Except.bind, if_neg (by omega), if_neg (not_lt.mpr hcap)]

/-- The fee is at least the fee per byte times the estimated size. -/
theorem le_requiredFee {d : MsgDict} {need fpb : ℤ} {size : ℕ}
    (h : requiredFee py str params none (some d) = .ok need)
    (hfpb : feePerByte py params = .ok fpb)
    (hsize : estimateFalconAuthorizedSize py (some d) = .ok size) : fpb * size ≤ need := by
  obtain ⟨floor, fpb', size', -, hfpb', hsize', -, rfl, -⟩ := requiredFee_eq_ok.mp h
  rw [hfpb, Except.ok.injEq] at hfpb'
  rw [hsize, Except.ok.injEq] at hsize'
  rw [hfpb', hsize']
  exact le_max_left _ _

theorem canonicalValidity_eq_ok {window : ℤ × ℤ}
    (h : canonicalValidity py params true = .ok window) :
    snapshotLastRound py params true = .ok window.1 ∧ 1 ≤ window.1 ∧
      window.2 = window.1 + canonicalValidityWindow := by
  obtain ⟨lastRound, hlast, h⟩ := bind_eq_ok.mp h
  split at h
  · cases h
  rename_i hpos
  split at h
  · exact absurd ⟨rfl, by assumption⟩ hpos
  · obtain rfl := Except.ok.inj h
    exact ⟨hlast, by omega, rfl⟩

end Required

/-! ## What the builder returns -/

section Built

variable {py : Interp} {str : Msgpack → PyStr} {params : Dict}

/-- The fields of a payment behind its fee. -/
def payTail (first last : ℤ) (gh note key : Bytes) : MsgDict :=
  let front : MsgDict :=
    [("fv", .int first), ("gen", .str mainnet.genesisId), ("gh", .bytes gh), ("lv", .int last)]
  let back : MsgDict := [("rcv", .bytes key), ("snd", .bytes key), ("type", .str "pay")]
  if note ≠ [] then front ++ (PyStr.ofString "note", .bytes note) :: back else front ++ back

theorem payTxn_eq {addr : PyStr} {fee first last : ℤ} {gh note : Bytes} (hfee : fee ≠ 0)
    (hfirst : first ≠ 0) (hgh : gh ≠ []) :
    payTxn addr addr 0 fee first last mainnet.genesisId gh note [] =
      (addressKey addr).map fun key =>
        (PyStr.ofString "fee", .int fee) :: payTail first last gh note key := by
  have hgen : mainnet.genesisId ≠ [] := by decide
  rw [payTxn]
  cases addressKey addr with
  | error e => rfl
  | ok key =>
      simp only [Except.bind, Except.map, ne_eq, not_true_eq_false, if_false, hfee, hfirst, hgh,
        hgen, not_false_eq_true, if_true, payTail]
      split <;> rfl

/-- The keys of a payment ascend. -/
theorem payTail_keys (first last : ℤ) (gh note key : Bytes) :
    (PyStr.ofString "fee" :: (payTail first last gh note key).map Prod.fst).Pairwise
      fun k l => PyStr.lt k l = true := by
  have hnote : ([PyStr.ofString "fee", "fv", "gen", "gh", "lv", "note", "rcv", "snd", "type"] :
      List PyStr).Pairwise fun k l => PyStr.lt k l = true := by decide
  have hplain : ([PyStr.ofString "fee", "fv", "gen", "gh", "lv", "rcv", "snd", "type"] :
      List PyStr).Pairwise fun k l => PyStr.lt k l = true := by decide
  rw [payTail]
  split
  · exact hnote
  · exact hplain

theorem filter_payTail (fee first last : ℤ) (gh note key : Bytes) :
    ((PyStr.ofString "fee", Msgpack.int fee) :: payTail first last gh note key).filter
      (fun m => builtKeys.contains m.1) =
        (PyStr.ofString "fee", .int fee) :: payTail first last gh note key := by
  rw [payTail]
  split <;> rfl

/-- The measured fields of a built transaction. -/
theorem filter_built (fee first last : ℤ) (gh note key : Bytes) :
    ((PyStr.ofString "fee", Msgpack.int fee) :: payTail first last gh note key ++
      [(PyStr.ofString "flatFee", Msgpack.bool true)]).filter
        (fun m => m.1 ≠ PyStr.ofString "flatFee") =
          (PyStr.ofString "fee", .int fee) :: payTail first last gh note key := by
  rw [payTail]
  split <;> rfl

theorem buildMainnetPaymentTxn_eq_ok {configured : PyStr} {note : Bytes} {address : Option PyStr}
    {txn : MsgDict} (h : buildMainnetPaymentTxn py str configured note params address = .ok txn) :
    ∃ floor first last gh key fee, falconMinFee py params = .ok floor ∧ floor ≤ maxFee ∧
      canonicalValidity py params true = .ok (first, last) ∧
      requiredFee py str params none
        (some ((PyStr.ofString "fee", .int floor) :: payTail first last gh note key)) = .ok fee ∧
      txn = (PyStr.ofString "fee", .int fee) :: payTail first last gh note key ++
        [(PyStr.ofString "flatFee", .bool true)] := by
  simp only [buildMainnetPaymentTxn] at h
  generalize (if address.getD [] ≠ [] then address.getD [] else configured).strip = addr at h
  split at h
  · cases h
  split at h
  · cases h
  obtain ⟨gh, -, h⟩ := bind_eq_ok.mp h
  split at h
  · cases h
  rename_i hgenesis
  obtain ⟨floor, hfloor, h⟩ := bind_eq_ok.mp h
  split at h
  · cases h
  rename_i hcap
  obtain ⟨⟨first, last⟩, hwindow, h⟩ := bind_eq_ok.mp h
  obtain ⟨draft, hdraft, h⟩ := bind_eq_ok.mp h
  obtain ⟨fee, hfee, h⟩ := bind_eq_ok.mp h
  obtain ⟨built, hbuilt, rfl⟩ := map_eq_ok.mp h
  have hgh : gh ≠ [] := by
    rintro rfl
    exact hgenesis (by decide)
  have hfirst : first ≠ 0 := by
    have hpos := (canonicalValidity_eq_ok hwindow).2.1
    dsimp only at hpos
    omega
  have hthree := falconMinFee_eq_ok hfloor
  have hfloorfee : floor ≤ fee := by
    obtain ⟨floor', fpb, size, hfloor', -, -, -, rfl, -⟩ := requiredFee_eq_ok.mp hfee
    rw [hfloor, Except.ok.injEq] at hfloor'
    rw [hfloor']
    exact le_max_right _ _
  rw [payTxn_eq (by omega) hfirst hgh] at hdraft hbuilt
  obtain ⟨key, hkey, rfl⟩ := map_eq_ok.mp hdraft
  rw [hkey] at hbuilt
  obtain rfl := Except.ok.inj hbuilt
  rw [filter_payTail]
  exact ⟨floor, first, last, gh, key, fee, hfloor, not_lt.mp hcap, hwindow, hfee, rfl⟩

/-- The estimate of a payment, with or without the mark of a flat fee. -/
theorem estimate_payment (fee first last : ℤ) (gh note key : Bytes) :
    estimateFalconAuthorizedSize py
        (some ((PyStr.ofString "fee", .int fee) :: payTail first last gh note key)) =
      (msgpackEncode py ((PyStr.ofString "fee", .int fee) :: payTail first last gh note key)).map
        (fun bs => 3253 + bs.length) ∧
    estimateFalconAuthorizedSize py
        (some ((PyStr.ofString "fee", .int fee) :: payTail first last gh note key ++
          [(PyStr.ofString "flatFee", .bool true)])) =
      (msgpackEncode py ((PyStr.ofString "fee", .int fee) :: payTail first last gh note key)).map
        (fun bs => 3253 + bs.length) := by
  have hplain : ((PyStr.ofString "fee", Msgpack.int fee) :: payTail first last gh note key).filter
      (fun m => m.1 ≠ PyStr.ofString "flatFee") =
        (PyStr.ofString "fee", .int fee) :: payTail first last gh note key := by
    rw [payTail]
    split <;> rfl
  constructor
  · rw [estimate_eq (List.cons_ne_nil _ _) (by rw [hplain]; rfl), hplain]
  · rw [estimate_eq (by simp) (by rw [filter_built]; rfl), filter_built]

/-- Another fee changes the estimate by the difference of the two forms. -/
theorem estimate_other_fee {m n : ℕ} {first last : ℤ} {gh note key : Bytes} {size : ℕ}
    (hm : m < 2 ^ 64) (hn : n < 2 ^ 64)
    (h : estimateFalconAuthorizedSize py
      (some ((PyStr.ofString "fee", .int n) :: payTail first last gh note key)) = .ok size) :
    ∃ size', estimateFalconAuthorizedSize py
        (some ((PyStr.ofString "fee", .int m) :: payTail first last gh note key)) = .ok size' ∧
      size' + (uintForm n).length = size + (uintForm m).length := by
  rw [(estimate_payment n first last gh note key).1] at h
  obtain ⟨bs, hbs, rfl⟩ := map_eq_ok.mp h
  obtain ⟨bs', hbs', hlength⟩ :=
    msgpackEncode_cons_int (payTail_keys first last gh note key) hm hn hbs
  refine ⟨3253 + bs'.length, ?_, by omega⟩
  rw [(estimate_payment m first last gh note key).1, hbs']
  rfl

/-- The fee that was measured on a draft is required of the payment just when the draft is
as long: when nothing is charged for bytes, or when the least fee takes three bytes. -/
theorem requiredFee_built {floor fpb fee first last : ℤ} {gh note key : Bytes}
    (hfloor : falconMinFee py params = .ok floor) (hfpb : feePerByte py params = .ok fpb)
    (hfee : requiredFee py str params none
      (some ((PyStr.ofString "fee", .int floor) :: payTail first last gh note key)) = .ok fee) :
    requiredFee py str params none
      (some ((PyStr.ofString "fee", .int fee) :: payTail first last gh note key)) = .ok fee ↔
        fpb = 0 ∨ 256 ≤ floor := by
  have hthree := falconMinFee_eq_ok hfloor
  have hzero := feePerByte_eq_ok hfpb
  obtain ⟨floor', fpb', size, hfloor', hfpb', hsize, hpos, hmax, hcap⟩ := requiredFee_eq_ok.mp hfee
  rw [hfloor, Except.ok.injEq] at hfloor'
  rw [hfpb, Except.ok.injEq] at hfpb'
  subst hfloor' hfpb'
  have hle : floor ≤ fee := hmax ▸ le_max_right _ _
  rw [maxFee] at hcap
  obtain ⟨n, rfl⟩ := Int.eq_ofNat_of_zero_le (by omega : 0 ≤ floor)
  obtain ⟨m, rfl⟩ := Int.eq_ofNat_of_zero_le (by omega : 0 ≤ fee)
  obtain ⟨size', hsize', hlength⟩ := estimate_other_fee (m := m) (by omega) (by omega) hsize
  have hneed : requiredFee py str params none
      (some ((PyStr.ofString "fee", .int m) :: payTail first last gh note key)) = .ok (m : ℤ) ↔
        (m : ℤ) = max (fpb * size') n := by
    rw [requiredFee_eq_ok]
    constructor
    · rintro ⟨floor, fpb', size'', hfloor', hfpb', hsize'', -, hm, -⟩
      rw [hfloor, Except.ok.injEq] at hfloor'
      rw [hfpb, Except.ok.injEq] at hfpb'
      rw [hsize', Except.ok.injEq] at hsize''
      rw [hm, hfloor', hfpb', hsize'']
    · intro hm
      rw [length_uintForm, length_uintForm] at hlength
      refine ⟨n, fpb, size', hfloor, hfpb, hsize', ?_, hm, by rw [maxFee]; omega⟩
      split_ifs at hlength <;> omega
  rw [hneed]
  constructor
  · intro hm
    by_contra hnot
    rw [not_or, not_le] at hnot
    -- the fee of the draft takes fewer bytes than the fee of the payment
    have hbig : 3253 ≤ size := by
      rw [(estimate_payment _ first last gh note key).1] at hsize
      obtain ⟨bs, -, rfl⟩ := map_eq_ok.mp hsize
      omega
    have hone : 1 ≤ fpb := by omega
    have hper : (size : ℤ) ≤ fpb * size := le_mul_of_one_le_left (by omega) hone
    have hfeesize : (m : ℤ) = fpb * size := by
      rw [hmax]
      exact max_eq_left (by omega)
    rw [length_uintForm, length_uintForm] at hlength
    have hlonger : size + 1 ≤ size' := by split_ifs at hlength <;> omega
    have hmore : fpb * size < fpb * size' := by
      apply Int.mul_lt_mul_of_pos_left
      · exact_mod_cast hlonger
      · omega
    have hge : fpb * size' ≤ m := hm ▸ le_max_left _ _
    omega
  · rintro (rfl | hwide)
    · rw [hmax, zero_mul, zero_mul]
    · rw [length_uintForm, length_uintForm] at hlength
      have hsame : size' = size := by split_ifs at hlength <;> omega
      rw [hsame]
      exact hmax

end Built

/-! ## The fixpoint -/

section Fixpoint

variable {py : Interp} {str : Msgpack → PyStr}

theorem feePerByte_algodParams {lastRound minFee fpb : ℤ} (h : 0 ≤ fpb) :
    feePerByte py (algodParams lastRound minFee fpb) = .ok fpb := by
  have hread : feePerByte py (algodParams lastRound minFee fpb) =
      if fpb < 0 then .error (anchorError "fee out of range") else .ok fpb := rfl
  rw [hread, if_neg (by omega)]

theorem protocolBaseMin_algodParams {lastRound minFee fpb : ℤ} (h : 1 ≤ minFee) :
    protocolBaseMin py (algodParams lastRound minFee fpb) = .ok minFee := by
  have hread : protocolBaseMin py (algodParams lastRound minFee fpb) =
      if minFee < 1 then .error (anchorError "fee out of range") else .ok minFee := rfl
  rw [hread, if_neg (by omega)]

/-- The parsed parameters are in range. -/
theorem parseAlgodParams_eq_ok {body : Json} {lastRound minFee fpb : ℤ}
    (h : parseAlgodParams py body = .ok (algodParams lastRound minFee fpb)) :
    1 ≤ lastRound ∧ 1 ≤ minFee ∧ 0 ≤ fpb := by
  cases body with
  | obj body =>
      obtain ⟨lastRound', -, h⟩ := bind_eq_ok.mp h
      obtain ⟨minFee', -, h⟩ := bind_eq_ok.mp h
      obtain ⟨fpb', -, h⟩ := bind_eq_ok.mp h
      split at h
      · cases h
      split at h
      · cases h
      split at h
      · cases h
      simp only [] at h
      split at h
      · cases h
      have hsame := Except.ok.inj h
      simp only [algodParams, List.cons.injEq, Prod.mk.injEq, Json.int.injEq, true_and] at hsame
      obtain ⟨rfl, rfl, -, rfl, -⟩ := hsame
      omega
  | null | bool _ | int _ | float _ | str _ | arr _ => cases h

variable (py str)

/-- The fee of a built transaction is the fee that is required of it: of the transaction as
it was built, of the one that is signed, which has no mark of a flat fee, and in the
policy. -/
def FeeFixpoint (params : Dict) (txn : MsgDict) : Prop :=
  ∃ fee, getField txn "fee" = .int fee ∧ requiredFee py str params none (some txn) = .ok fee ∧
    requiredFee py str params none (some (txn.filter fun m => m.1 ≠ PyStr.ofString "flatFee")) =
      .ok fee ∧
    ∀ now, ∃ policy, feePolicySnapshot py str params (some txn) now = .ok policy ∧
      policy.canonicalFee = fee

/-- The fee is a fixpoint just when bytes are free or the least fee is written in three
bytes, as every fee is that is charged for bytes. -/
theorem fee_fixpoint (body : Json) (lastRound minFee fpb : ℤ) (configured : PyStr) (note : Bytes)
    (address : Option PyStr) (txn : MsgDict)
    (hparams : parseAlgodParams py body = .ok (algodParams lastRound minFee fpb))
    (htxn : buildMainnetPaymentTxn py str configured note (algodParams lastRound minFee fpb)
      address = .ok txn) :
    FeeFixpoint py str (algodParams lastRound minFee fpb) txn ↔ fpb = 0 ∨ 86 ≤ minFee := by
  obtain ⟨hlast, hmin, hfpb⟩ := parseAlgodParams_eq_ok hparams
  obtain ⟨floor, first, last, gh, key, fee, hfloor, hcap, hwindow, hfee, rfl⟩ :=
    buildMainnetPaymentTxn_eq_ok htxn
  have hthree : floor = minFee * 3 := by
    rw [falconMinFee, protocolBaseMin_algodParams hmin, Except.map, Except.ok.injEq] at hfloor
    exact hfloor.symm
  have hbuilt := requiredFee_built hfloor (feePerByte_algodParams hfpb) hfee
  have hwide : fpb = 0 ∨ 256 ≤ floor ↔ fpb = 0 ∨ 86 ≤ minFee := by omega
  rw [← hwide, ← hbuilt]
  -- the mark of a flat fee is not measured
  have hmark : requiredFee py str (algodParams lastRound minFee fpb) none
      (some ((PyStr.ofString "fee", .int fee) :: payTail first last gh note key ++
        [(PyStr.ofString "flatFee", .bool true)])) =
      requiredFee py str (algodParams lastRound minFee fpb) none
        (some ((PyStr.ofString "fee", .int fee) :: payTail first last gh note key)) := by
    simp only [requiredFee, Option.some_or]
    rw [(estimate_payment fee first last gh note key).1,
      (estimate_payment fee first last gh note key).2]
  constructor
  · rintro ⟨fee', hfield, -, hplain, -⟩
    obtain rfl : fee = fee' := Msgpack.int.inj hfield
    rwa [filter_built] at hplain
  · intro hrequired
    refine ⟨fee, rfl, hmark.trans hrequired, by rwa [filter_built], fun now => ?_⟩
    apply map_eq_ok.mp
    change ((snapshotLastRound py (algodParams lastRound minFee fpb) true).bind fun _ =>
      (canonicalValidity py (algodParams lastRound minFee fpb) true).bind fun _ => _).map _ = _
    rw [(canonicalValidity_eq_ok hwindow).1, Except.bind, hwindow, Except.bind, hmark, hrequired,
      Except.bind, protocolBaseMin_algodParams hmin, Except.bind, feePerByte_algodParams hfpb]
    rfl

end Fixpoint

/-! ## Two sets of parameters -/

section Sample

/-- The hash of the MainNet genesis. -/
def mainnetHash : Bytes := (b64decode mainnet.genesisHash).getD []

/-- The spelling of the zero key. -/
def zeroAddress : PyStr := "AAAAAAAAAAAAAAAAAAAAAAAAAAAAAAAAAAAAAAAAAAAAAAAAAAAAY5HFKQ"

theorem decodeAddress_zeroAddress : decodeAddress zeroAddress = some (List.replicate 32 0) := by
  decide +kernel

/-- What algod answers. -/
def algodBody (minFee fee : ℤ) : Json :=
  .obj [("last-round", .int 1), ("min-fee", .int minFee), ("fee", .int fee),
    ("genesis-id", .str mainnet.genesisId), ("genesis-hash", .str mainnet.genesisHash)]

theorem parse_algodBody {minFee fee : ℤ} (hmin : 1 ≤ minFee) (hfee : 0 ≤ fee) :
    parseAlgodParams Interp.plain (algodBody minFee fee) = .ok (algodParams 1 minFee fee) := by
  have hread : parseAlgodParams Interp.plain (algodBody minFee fee) =
      if minFee < 1 then .error (paramsError "invalid min-fee")
      else if fee < 0 then .error (paramsError "invalid fee-per-byte")
      else .ok (algodParams 1 minFee fee) := by
    rfl
  rw [hread, if_neg (by omega), if_neg (by omega)]

/-- The builder returns a payment once the fee of its draft is known. -/
theorem build_sample {minFee fpb fee : ℤ} (hmin : 1 ≤ minFee) (hcap : minFee * 3 ≤ 30000)
    (hfee : requiredFee Interp.plain (fun _ => []) (algodParams 1 minFee fpb) none
      (some ((PyStr.ofString "fee", .int (minFee * 3)) ::
        payTail 1 1001 mainnetHash [] (List.replicate 32 0))) = .ok fee) :
    buildMainnetPaymentTxn Interp.plain (fun _ => []) zeroAddress [] (algodParams 1 minFee fpb)
        none =
      .ok ((PyStr.ofString "fee", .int fee) ::
        payTail 1 1001 mainnetHash [] (List.replicate 32 0) ++
          [(PyStr.ofString "flatFee", .bool true)]) := by
  have hhash : b64decode mainnet.genesisHash = some mainnetHash := by decide +kernel
  have hencode : b64encode mainnetHash = mainnet.genesisHash := by decide +kernel
  have hgh : genesisHashBytes mainnet.genesisId (.str mainnet.genesisHash) = .ok mainnetHash := by
    have hread : genesisHashBytes mainnet.genesisId (.str mainnet.genesisHash) =
        b64Bytes mainnet.genesisHash := by rfl
    rw [hread, b64Bytes, hhash]
  have hfloor : falconMinFee Interp.plain (algodParams 1 minFee fpb) = .ok (minFee * 3) := by
    rw [falconMinFee, protocolBaseMin_algodParams hmin]
    rfl
  have hstrip : zeroAddress.strip = zeroAddress := by decide +kernel
  have hkey : addressKey zeroAddress = .ok (List.replicate 32 0) := by
    rw [addressKey, decodeAddress_zeroAddress]
  have hwindow : canonicalValidity Interp.plain (algodParams 1 minFee fpb) true = .ok (1, 1001) :=
    rfl
  have hpos : fee ≠ 0 := by
    obtain ⟨floor, fpb, size, hfloor, -, -, -, rfl, -⟩ := requiredFee_eq_ok.mp hfee
    have hthree := falconMinFee_eq_ok hfloor
    have hle := le_max_right (fpb * size) floor
    omega
  have hne : mainnetHash ≠ [] := by decide +kernel
  rw [buildMainnetPaymentTxn]
  simp only [Option.getD_none, ne_eq, not_true_eq_false, if_false, hstrip]
  rw [if_neg (by decide)]
  change (if ¬mainnet.genesisId = mainnet.genesisId then _ else
    (genesisHashBytes mainnet.genesisId (.str mainnet.genesisHash)).bind _) = _
  rw [if_neg (by simp), hgh, Except.bind, if_neg (by simp [hencode]), hfloor, Except.bind,
    if_neg (by rw [maxFee]; omega), hwindow, Except.bind,
    payTxn_eq (by omega) (by decide) hne, hkey, Except.map, Except.bind, hfee, Except.bind,
    payTxn_eq hpos (by decide) hne, hkey, Except.map, Except.map, filter_payTail]

/-- The estimate of a payment without a note that carries a fee of `n`. -/
theorem estimate_sample {n : ℕ} (hn : n < 2 ^ 64) : estimateFalconAuthorizedSize Interp.plain
    (some ((PyStr.ofString "fee", .int n) ::
      payTail 1 1001 mainnetHash [] (List.replicate 32 0))) = .ok (3407 + (uintForm n).length) := by
  have hlength : (msgpackEncode Interp.plain ((PyStr.ofString "fee", .int 3) ::
      payTail 1 1001 mainnetHash [] (List.replicate 32 0))).toOption.map List.length = some 155 := by
    decide +kernel
  have hthree : estimateFalconAuthorizedSize Interp.plain
      (some ((PyStr.ofString "fee", .int (3 : ℕ)) ::
        payTail 1 1001 mainnetHash [] (List.replicate 32 0))) = .ok 3408 := by
    rw [(estimate_payment _ 1 1001 mainnetHash [] _).1]
    obtain ⟨bs, hbs, hlen⟩ := Option.map_eq_some_iff.mp hlength
    cases hencode : msgpackEncode Interp.plain ((PyStr.ofString "fee", .int (3 : ℕ)) ::
        payTail 1 1001 mainnetHash [] (List.replicate 32 0)) with
    | error e =>
        rw [Nat.cast_ofNat] at hencode
        rw [hencode] at hbs
        cases hbs
    | ok out =>
        rw [Nat.cast_ofNat] at hencode
        rw [hencode] at hbs
        obtain rfl := Option.some.inj hbs
        rw [Except.map, hlen]
  obtain ⟨size, hsize, hother⟩ := estimate_other_fee hn (by omega) hthree
  rw [hsize, Except.ok.injEq]
  rw [length_uintForm 3] at hother
  simp only [Nat.reduceLT, if_true] at hother
  omega

/-- With free bytes the fee is the least fee of the parameters. -/
theorem free_bytes_fixpoint :
    FeeFixpoint Interp.plain (fun _ => []) (algodParams 1 1000 0)
      ((PyStr.ofString "fee", .int 3000) ::
        payTail 1 1001 mainnetHash [] (List.replicate 32 0) ++
          [(PyStr.ofString "flatFee", .bool true)]) ↔ (0 : ℤ) = 0 ∨ (86 : ℤ) ≤ 1000 := by
  apply fee_fixpoint Interp.plain (fun _ => []) (algodBody 1000 0) 1 1000 0 zeroAddress [] none
  · exact parse_algodBody (by omega) (by omega)
  · apply build_sample (by omega) (by omega)
    have hsize := estimate_sample (n := 3000) (by omega)
    exact requiredFee_eq_ok.mpr ⟨3000, 0, _, rfl, rfl, hsize, by omega, rfl, by decide⟩

/-- With a min-fee of one the draft carries a fee of one byte: the builder writes the fee
of the draft, and the transaction is two bytes longer. -/
theorem narrow_floor_undercharged :
    parseAlgodParams Interp.plain (algodBody 1 1) = .ok (algodParams 1 1 1) ∧
      ∃ txn, buildMainnetPaymentTxn Interp.plain (fun _ => []) zeroAddress [] (algodParams 1 1 1)
          none = .ok txn ∧
        getField txn "fee" = .int 3408 ∧
        requiredFee Interp.plain (fun _ => []) (algodParams 1 1 1) none (some txn) = .ok 3410 ∧
        ¬ FeeFixpoint Interp.plain (fun _ => []) (algodParams 1 1 1) txn := by
  have hdraft := estimate_sample (n := 3) (by omega)
  have hfee : requiredFee Interp.plain (fun _ => []) (algodParams 1 1 1) none
      (some ((PyStr.ofString "fee", .int (1 * 3)) ::
        payTail 1 1001 mainnetHash [] (List.replicate 32 0))) = .ok 3408 :=
    requiredFee_eq_ok.mpr ⟨3, 1, _, rfl, rfl, hdraft, by omega, rfl, by decide⟩
  have hpaid : requiredFee Interp.plain (fun _ => []) (algodParams 1 1 1) none
      (some ((PyStr.ofString "fee", .int 3408) ::
        payTail 1 1001 mainnetHash [] (List.replicate 32 0) ++
          [(PyStr.ofString "flatFee", .bool true)])) = .ok 3410 := by
    have hsize := estimate_sample (n := 3408) (by omega)
    rw [(estimate_payment _ 1 1001 mainnetHash [] _).1,
      ← (estimate_payment _ 1 1001 mainnetHash [] _).2] at hsize
    exact requiredFee_eq_ok.mpr ⟨3, 1, _, rfl, rfl, hsize, by omega, rfl, by decide⟩
  refine ⟨parse_algodBody (by omega) (by omega), _,
    build_sample (by omega) (by omega) hfee, rfl, hpaid, ?_⟩
  rintro ⟨fee, hfield, hrequired, -⟩
  obtain rfl : 3408 = fee := Msgpack.int.inj hfield
  rw [hpaid] at hrequired
  cases hrequired

end Sample

end Signal402.AnchorFee
