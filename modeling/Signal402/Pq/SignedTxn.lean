import Signal402.Base.Hex
import Signal402.Pq.AnchorFee
import Signal402.Pq.Canary

/-!
# Signed anchors (`pq/algo_anchor.py`)

`validate_signed_txn`, the check of a signed transaction before it is broadcast, as a chain
of checks on the dictionary that the strict decoder reads.  What the chain establishes is
collected in `AuthorizedAnchor`.
-/

namespace Signal402.SignedTxn

open AnchorFee AnchorNote
open Canary (looksLikeTxid)
open Payment (decodeAddress b32Digits)

/-! ## Transaction ids (`algo_tx.py`) -/

/-- `b"TX"`. -/
def txPrefix : Bytes := [0x54, 0x58]

/-- `base64.b32encode(digest).decode("ascii").rstrip("=")` of the 32 bytes of a digest, which
are 51 digits of five bits and one bit more. -/
def txidText (digest : Bytes) : PyStr := b32Digits 52 (BigEndian.decode digest * 16)

/-- The id of the transaction that is written in the bytes. -/
def txidOf (raw : Bytes) : PyStr := txidText (Sha512.sha512_256 (txPrefix ++ raw))

/-! ## Parts of a decoded transaction -/

/-- The text, for a value that is a `str`. -/
def asStr? : Msgpack → Option PyStr
  | .str s => some s
  | _ => none

/-- The bytes, for a value that is `bytes`. -/
def asBytes? : Msgpack → Option Bytes
  | .bytes b => some b
  | _ => none

/-- `v in (None, "")`. -/
def isBlank : Msgpack → Bool
  | .nil => true
  | .str s => s.isEmpty
  | _ => false

/-- Wire identifier as ASCII text. -/
def asciiIdent : Msgpack → Option PyStr
  | .bytes b =>
      if b.all fun x => x.toNat < 128 then some (b.map CodePoint.ofByte) else none
  | .str s => some s
  | _ => none

/-- `if c: raise AnchorError(msg)`. -/
def refuse (c : Prop) [Decidable c] (msg : String) : Except PyError Unit :=
  if c then .error (anchorError msg) else .ok ()

/-- Exact integer.  Reject bool and other types. -/
def requireUint : Msgpack → Except PyError ℤ
  | .int n => if n < 0 then .error (anchorError "negative txn integer") else .ok n
  | _ => .error (anchorError "boolean-as-integer")

def rejectUnknownKeys (obj : MsgDict) (allowed : List PyStr) (label : String) :
    Except PyError Unit :=
  refuse (obj.any fun m => !allowed.contains m.1) ("unknown " ++ label ++ " field")

def forbiddenSignedKeys : List PyStr :=
  ["sgnr", "sig", "msig", "lsig", "lsg", "auth-addr", "authAddr", "auth_addr"]

def signedTxnAllowedKeys : List PyStr := ["txn", "pqsig"]

def txnAllowedKeys : List PyStr := ["fee", "fv", "lv", "gen", "gh", "note", "rcv", "snd", "type"]

def txnForbiddenKeys : List PyStr := ["close", "rekey", "lx", "grp", "aamt", "xaid", "apid", "arcv"]

def pqsigAllowedKeys : List PyStr := ["pk", "sch", "sig", "slt"]

/-! ## The authorization -/

section Authorization

variable (py : Interp) (str : Msgpack → PyStr)

def pqsigMarker : PyStr := "present"

def falconF1SigMin : ℕ := 2

/-- Official Falcon-1024 wire sizes. -/
def falconF1ShapesOk (pk sig : Bytes) : Bool :=
  decide (pk.length = falconF1PkLen) &&
    decide (falconF1SigMin ≤ sig.length ∧ sig.length ≤ falconF1SigMax) &&
      sig.take 2 == [0xBA, 0x00]

/-- slt/salt is optional.  Accept 0-255 int or a single salt byte. -/
def saltInRange : Msgpack → Bool
  | .nil => true
  | .bool _ => false
  | .int n => decide (0 ≤ n ∧ n ≤ 255)
  | .bytes b => decide (b.length ≤ 1)
  | .str s =>
      s.isEmpty || match py.int s with
        | .ok n => decide (0 ≤ n ∧ n ≤ 255)
        | .error _ => false
  | .list _ | .dict _ => false

/-- `_b64` of a value that is neither missing nor bytes; `str` makes a text of a value that
is none. -/
def b64OrText (text : PyStr) : Except PyError Bytes :=
  if text = [] then .ok []
  else
    match b64decode text with
    | some raw => .ok raw
    | none =>
        match fromHex text with
        | some raw => .ok raw
        | none => utf8Encode text

/-- `_field_bytes_or_empty`. -/
def fieldBytesOrEmpty : Msgpack → Except PyError Bytes
  | .nil => .ok []
  | .bytes b => .ok b
  | .str s => b64OrText s.strip
  | v => b64OrText (str v).strip

/-- `raw.get(key) if key in raw else raw.get(other)`. -/
def fieldOr (raw : MsgDict) (key other : PyStr) : Msgpack :=
  if hasField raw key then getField raw key else getField raw other

/-- Official Algorand pqsig envelope.  Codec {sch,slt,pk,sig} or indexer REST. -/
def parsePqsigEnvelope (raw : MsgDict) : Except PyError (Option Bytes) :=
  if asStr? (getField raw "pqsig") = some pqsigMarker then .ok none
  else if asciiIdent (fieldOr raw "sch" "scheme") ≠ some "f1" then .ok none
  else if !saltInRange py (fieldOr raw "slt" "salt") then .ok none
  else
    (fieldBytesOrEmpty str (fieldOr raw "pk" "public-key")).bind fun pk =>
    (fieldBytesOrEmpty str (fieldOr raw "sig" "signature")).map fun sig =>
      if pk = [] ∨ sig = [] then none
      else if pk = asciiBytes pqsigMarker ∨ sig = asciiBytes pqsigMarker then none
      else if !falconF1ShapesOk pk sig then none
      else some sig

/-- `_sig_type_value`: the first key with an identifier. -/
def sigTypeValue (obj : MsgDict) : PyStr :=
  (([PyStr.ofString "sig-type", "sigType", "signature-type"] : List PyStr).findSome? fun key =>
    if isBlank (getField obj key) then none
    else (asciiIdent (getField obj key)).filter fun ident => !ident.isEmpty).getD []

/-- `_exclusive_sig_present`. -/
def exclusiveSigPresent (sig : MsgDict) : Bool :=
  ([PyStr.ofString "sig", "multisig", "logicsig", "msig", "lsig"] : List PyStr).any fun key =>
    match getField sig key with
    | .nil | .str [] | .dict [] | .list [] | .bytes [] => false
    | _ => true

/-- The parsed envelope of a value that is one. -/
def parsePqsig (v : Msgpack) : Except PyError (Option Bytes) :=
  match v with
  | .dict raw => parsePqsigEnvelope py str raw
  | _ => .ok none

/-- Positive PQ/Falcon authorization from an official pqsig envelope. -/
def pqAuthFromObj (obj : MsgDict) : Except PyError (Option Bytes) :=
  if asStr? (getField obj "pqsig") = some pqsigMarker then .ok none
  else if sigTypeValue obj ≠ [] ∧ sigTypeValue obj ≠ "pqsig" then .ok none
  else
    match getField obj "signature" with
    | .dict sig =>
        if (hasField sig "falcon-signature" || hasField sig "falcon" || hasField sig "falconsig") ∧
            ¬hasField sig "pqsig" then .ok none
        else
          match getField sig "pqsig" with
          | .nil => .ok none
          | pq => if exclusiveSigPresent sig then .ok none else parsePqsig py str pq
    | _ => parsePqsig py str (getField obj "pqsig")

/-- True when a pqsig key exists. -/
def pqsigFieldPresent (obj : MsgDict) : Bool :=
  hasField obj "pqsig" ||
    match getField obj "signature" with
    | .dict sig => hasField sig "pqsig"
    | _ => false

end Authorization

/-! ## The checks -/

/-- What a transaction is compared with. -/
inductive ExpectedRoot
  | bytes (raw : Bytes)
  | value (x : Json)

structure Expected where
  origin : PyStr
  size : ℤ
  root : ExpectedRoot
  address : Option PyStr
  network : Option PyStr
  params : Dict
  requireCanonical : Option Bool

/-- The environment: the network it names, and the Falcon address it has for a network. -/
structure Env where
  liveNetworkName : Except PyError PyStr
  falconAddressFor : PyStr → PyStr

/-- What `validate_signed_txn` returns. -/
structure Verified where
  origin : PyStr
  treeSize : ℕ
  root : Bytes
  address : PyStr
  fee : ℤ
  fv : ℤ
  lv : ℤ
  txid : PyStr
  network : PyStr
  genesisId : PyStr

section Validate

variable (py : Interp) (str : Msgpack → PyStr) (env : Env)

def expectedNetworkName (expected : Option PyStr) : Except PyError PyStr :=
  let raw := py.uni.lower (expected.getD []).strip
  if raw ≠ [] then
    if networks.any fun cfg => cfg.name = raw then .ok raw
    else .error (anchorError "unknown network")
  else env.liveNetworkName

def getNetwork (name : PyStr) : Except PyError NetworkConfig :=
  match networks.find? fun cfg => cfg.name = py.uni.lower name.strip with
  | some cfg => .ok cfg
  | none => .error (.valueError "unknown network")

/-- `_network_cfg`. -/
def networkCfg (expected : Option PyStr) : Except PyError NetworkConfig :=
  (expectedNetworkName py env expected).bind (getNetwork py)

/-- The transaction of a signed object with no key but the allowed ones. -/
def checkKeys (obj : MsgDict) : Except PyError MsgDict :=
  (refuse (forbiddenSignedKeys.any (hasField obj)) "auth address forbidden").bind fun _ =>
  (rejectUnknownKeys obj signedTxnAllowedKeys "SignedTxn").bind fun _ =>
  match getField obj "txn" with
  | .dict txn =>
      (refuse (asStr? (getField txn "type") = none ∨
        asciiIdent (getField txn "type") ≠ some "pay") "not a payment").bind fun _ =>
      (refuse (txnForbiddenKeys.any (hasField txn)) "not pq1 construction").bind fun _ =>
      (refuse (hasField txn "amt") "amount must be canonical zero").bind fun _ =>
      (rejectUnknownKeys txn txnAllowedKeys "txn").map fun _ => txn
  | _ => .error (anchorError "not a signed pq1 txn")

def badEnvelope : String := "falcon authorization missing: bad pqsig envelope"

/-- The types of the fields of an envelope, when there is one. -/
def checkPqsig (obj : MsgDict) : Except PyError Unit :=
  match getField obj "pqsig" with
  | .dict pq =>
      (rejectUnknownKeys pq pqsigAllowedKeys "pqsig").bind fun _ =>
      (refuse (asStr? (getField pq "sch") = none ∧ asBytes? (getField pq "sch") = none)
        badEnvelope).bind fun _ =>
      (refuse (asBytes? (getField pq "pk") = none) badEnvelope).bind fun _ =>
      (refuse (asBytes? (getField pq "sig") = none) badEnvelope).bind fun _ =>
      if hasField pq "slt" then
        (requireUint (getField pq "slt")).bind fun slt => refuse (255 < slt) badEnvelope
      else .ok ()
  | _ => .ok ()

def checkGenesis (cfg : NetworkConfig) (txn : MsgDict) : Except PyError Unit :=
  (refuse (asStr? (getField txn "gen") = none ∨
    asciiIdent (getField txn "gen") ≠ some cfg.genesisId) "genesis mismatch").bind fun _ =>
  match getField txn "gh" with
  | .bytes gh => refuse (b64encode gh ≠ cfg.genesisHash) "genesis hash mismatch"
  | _ => .error (anchorError "genesis hash mismatch")

/-- Bounds of a window against a last round. -/
def checkLastRound (first last lastRound : ℤ) : Except PyError Unit :=
  (refuse (first < lastRound - 10 ∨ lastRound + 10 < first)
    "firstValid stale or too far ahead").bind fun _ =>
  refuse (last < lastRound) "lastValid already expired"

/-- `validate_validity_window`. -/
def validateValidityWindow (first last : ℤ) (params : Dict) (requireCanonical : Bool) :
    Except PyError Unit :=
  (refuse (first < 1 ∨ last < 1) "invalid validity window").bind fun _ =>
  (refuse (last - first < 1 ∨ canonicalValidityWindow < last - first)
    "validity window out of range").bind fun _ =>
  if requireCanonical then
    (canonicalValidity py params true).bind fun want =>
    (refuse (first ≠ want.1 ∨ last ≠ want.2) "validity window not canonical").bind fun _ =>
    (snapshotLastRound py params true).bind fun lastRound => checkLastRound first last lastRound
  else
    (snapshotLastRound py params false).bind fun lastRound =>
      if 1 ≤ lastRound then checkLastRound first last lastRound else .ok ()

/-- The check of a fee that need not be canonical, and of its window, which may lie apart
from the last round. -/
def checkFeeRange (params : Dict) (fee fv lv : ℤ) : Except PyError Unit :=
  (falconMinFee py params).bind fun floor =>
  (refuse (fee < floor ∨ maxFee < fee) "fee out of range").bind fun _ =>
  match validateValidityWindow py fv lv params false with
  | .ok () => .ok ()
  | .error e =>
      if e.cls.isA .anchorError then
        if lv - fv < 1 ∨ canonicalValidityWindow < lv - fv then .error e else .ok ()
      else .error e

/-- The fee and the window of a transaction. -/
def checkFee (cfg : NetworkConfig) (params : Dict) (requireCanonical : Option Bool)
    (txn : MsgDict) : Except PyError (ℤ × ℤ × ℤ) :=
  (requireUint (getField txn "fee")).bind fun fee =>
  (requireUint (getField txn "fv")).bind fun fv =>
  (requireUint (getField txn "lv")).bind fun lv =>
    let canonical := requireCanonical.getD (decide (cfg.name = mainnet.name))
    if canonical then
      (requiredFee py str params none (some txn)).bind fun wantFee =>
      (refuse (fee ≠ wantFee) "fee not canonical").bind fun _ =>
      (validateValidityWindow py fv lv params true).map fun _ => (fee, fv, lv)
    else (checkFeeRange py params fee fv lv).map fun _ => (fee, fv, lv)

/-- The address that sender and receiver have to be. -/
def expectedAddress (cfg : NetworkConfig) (address : Option PyStr) : PyStr :=
  (if address.getD [] ≠ [] then address.getD [] else env.falconAddressFor cfg.name).strip

def checkParties (addr : PyStr) (txn : MsgDict) : Except PyError Unit :=
  (refuse (addr = []) "falcon address required").bind fun _ =>
  match asBytes? (getField txn "snd"), asBytes? (getField txn "rcv"), decodeAddress addr with
  | some snd, some rcv, some want =>
      refuse (snd ≠ want ∨ rcv ≠ want) "sender/receiver mismatch"
  | _, _, _ => .error (anchorError "sender/receiver mismatch")

/-- The bytes of the root that is expected. -/
def wantRoot : ExpectedRoot → Except PyError Bytes
  | .bytes raw => .ok raw
  | .value x =>
      match fromHex (py.strOrEmpty x) with
      | some raw => .ok raw
      | none => .error (anchorError "invalid root")

def checkNote (expected : Expected) (txn : MsgDict) : Except PyError DecodedNote :=
  match getField txn "note" with
  | .bytes note =>
      (decodeNote note).bind fun parsed =>
      (originHash expected.origin).bind fun hash =>
      (refuse (parsed.originHash ≠ hash) "origin mismatch").bind fun _ =>
      (refuse ((parsed.treeSize : ℤ) ≠ expected.size) "tree size mismatch").bind fun _ =>
      (wantRoot py expected.root).bind fun root =>
      (refuse (parsed.root ≠ root) "root mismatch").map fun _ => parsed
  | _ => .error (anchorError "invalid note")

def checkAuthorization (obj : MsgDict) : Except PyError Unit :=
  (pqAuthFromObj py str obj).bind fun pq =>
    if pq.getD [] = [] then
      if pqsigFieldPresent obj then .error (anchorError badEnvelope)
      else .error (anchorError "falcon authorization missing: no pqsig key")
    else .ok ()

/-- `txid_from_unsigned`. -/
def txidFromUnsigned (txn : MsgDict) : Except PyError PyStr := (msgpackEncode py txn).map txidOf

/-- `txid_from_signed`. -/
def txidFromSigned (signed : Bytes) : Except PyError PyStr :=
  (msgpackDecode str true signed).bind fun obj =>
    match getField obj "txn" with
    | .dict txn => txidFromUnsigned py txn
    | _ => .error (.valueError "signed txn missing txn")

/-- Local expected Algorand txid from the exact authorized SignedTxn. -/
def signedTxnTxid (signed : Bytes) : Except PyError PyStr :=
  match txidFromSigned py str signed with
  | .ok txid =>
      if looksLikeTxid txid then .ok txid else .error (anchorError "invalid signed txn txid")
  | .error _ => .error (anchorError "invalid signed txn txid")

/-- The strict reading of signed bytes. -/
def readSigned (signed : Bytes) : Except PyError MsgDict :=
  (refuse (signed = []) "not a signed pq1 txn").bind fun _ =>
  (refuse (signed = asciiBytes pqsigMarker) "pqsig marker is not a signed txn").bind fun _ =>
  match msgpackDecode str true signed with
  | .ok obj => .ok obj
  | .error _ => .error (anchorError "not a signed pq1 txn")

/-- Semantic verify of a SignedTxn before any broadcast. -/
def validateSignedTxn (signed : Bytes) (expected : Expected) : Except PyError Verified :=
  (readSigned str signed).bind fun obj =>
  (checkKeys obj).bind fun txn =>
  (checkPqsig obj).bind fun _ =>
  (networkCfg py env expected.network).bind fun cfg =>
  (checkGenesis cfg txn).bind fun _ =>
  (checkFee py str cfg expected.params expected.requireCanonical txn).bind fun window =>
  (checkParties (expectedAddress env cfg expected.address) txn).bind fun _ =>
  (checkNote py expected txn).bind fun parsed =>
  (checkAuthorization py str obj).bind fun _ =>
  (signedTxnTxid py str signed).map fun txid =>
    { origin := expected.origin
      treeSize := parsed.treeSize
      root := parsed.root
      address := expectedAddress env cfg expected.address
      fee := window.1
      fv := window.2.1
      lv := window.2.2
      txid := txid
      network := cfg.name
      genesisId := cfg.genesisId }

end Validate

/-! ## What each check establishes -/

section Checks

variable {py : Interp} {str : Msgpack → PyStr}

theorem refuse_eq_ok {c : Prop} [Decidable c] {msg : String} {u : Unit} :
    refuse c msg = .ok u ↔ ¬c := by
  rw [refuse]
  split
  · rename_i h
    simp [h]
  · rename_i h
    simp [h]

theorem rejectUnknownKeys_eq_ok {obj : MsgDict} {allowed : List PyStr} {label : String} {u : Unit}
    (h : rejectUnknownKeys obj allowed label = .ok u) {key : PyStr} (hkey : hasField obj key = true) :
    key ∈ allowed := by
  have hall := refuse_eq_ok.mp h
  obtain ⟨m, hm, hkey⟩ := List.any_eq_true.mp hkey
  rw [beq_iff_eq] at hkey
  subst hkey
  by_contra hnot
  exact hall (List.any_eq_true.mpr ⟨m, hm, by simpa using hnot⟩)

theorem hasField_of_getField {d : MsgDict} {key : PyStr} (h : getField d key ≠ .nil) :
    hasField d key = true := by
  by_contra hnot
  apply h
  have hnone : d.find? (fun m => m.1 == key) = none := by
    rw [List.find?_eq_none]
    intro m hm hkey
    exact hnot (List.any_eq_true.mpr ⟨m, hm, hkey⟩)
  rw [getField, hnone]
  rfl

theorem getField_of_not_hasField {d : MsgDict} {key : PyStr} (h : hasField d key = false) :
    getField d key = .nil := by
  by_contra hnot
  rw [hasField_of_getField hnot] at h
  cases h

theorem asStr?_eq_some {v : Msgpack} {s : PyStr} : asStr? v = some s ↔ v = .str s := by
  cases v <;> simp [asStr?]

theorem asBytes?_eq_some {v : Msgpack} {b : Bytes} : asBytes? v = some b ↔ v = .bytes b := by
  cases v <;> simp [asBytes?]

/-- A value that has to be a given identifier and a text is that text. -/
theorem eq_str_of_ident {v : Msgpack} {s : PyStr}
    (h : ¬(asStr? v = none ∨ asciiIdent v ≠ some s)) : v = .str s := by
  rw [not_or, not_not] at h
  cases v with
  | str t => exact congrArg Msgpack.str (Option.some.inj h.2)
  | nil | bool _ | int _ | bytes _ | list _ | dict _ => exact absurd rfl h.1

theorem requireUint_eq_ok {v : Msgpack} {n : ℤ} (h : requireUint v = .ok n) :
    v = .int n ∧ 0 ≤ n := by
  cases v with
  | int k =>
      rw [requireUint] at h
      split at h
      · cases h
      · obtain rfl := Except.ok.inj h
        exact ⟨rfl, by omega⟩
  | nil | bool _ | str _ | bytes _ | list _ | dict _ => cases h

theorem readSigned_eq_ok {signed : Bytes} {obj : MsgDict} (h : readSigned str signed = .ok obj) :
    msgpackDecode str true signed = .ok obj := by
  obtain ⟨-, -, h⟩ := bind_eq_ok.mp h
  obtain ⟨-, -, h⟩ := bind_eq_ok.mp h
  split at h
  · rename_i obj' hdecode
    rw [hdecode, h]
  · cases h

theorem checkKeys_eq_ok {obj txn : MsgDict} (h : checkKeys obj = .ok txn) :
    getField obj "txn" = .dict txn ∧
      (∀ key, hasField obj key = true → key ∈ signedTxnAllowedKeys) ∧
      (∀ key, hasField txn key = true → key ∈ txnAllowedKeys) ∧
      getField txn "type" = .str "pay" := by
  obtain ⟨-, -, h⟩ := bind_eq_ok.mp h
  obtain ⟨_, hkeys, h⟩ := bind_eq_ok.mp h
  generalize htxn : getField obj "txn" = v at h
  cases v with
  | dict d =>
      obtain ⟨_, htype, h⟩ := bind_eq_ok.mp h
      obtain ⟨-, -, h⟩ := bind_eq_ok.mp h
      obtain ⟨-, -, h⟩ := bind_eq_ok.mp h
      obtain ⟨_, hfields, rfl⟩ := map_eq_ok.mp h
      exact ⟨rfl, fun key => rejectUnknownKeys_eq_ok hkeys,
        fun key => rejectUnknownKeys_eq_ok hfields, eq_str_of_ident (refuse_eq_ok.mp htype)⟩
  | nil | bool _ | int _ | str _ | bytes _ | list _ => cases h

theorem checkGenesis_eq_ok {cfg : NetworkConfig} {txn : MsgDict} {u : Unit}
    (h : checkGenesis cfg txn = .ok u) :
    getField txn "gen" = .str cfg.genesisId ∧
      ∃ gh, getField txn "gh" = .bytes gh ∧ b64encode gh = cfg.genesisHash := by
  obtain ⟨_, hgen, h⟩ := bind_eq_ok.mp h
  refine ⟨eq_str_of_ident (refuse_eq_ok.mp hgen), ?_⟩
  generalize getField txn "gh" = v at h
  cases v with
  | bytes gh => exact ⟨gh, rfl, not_not.mp (refuse_eq_ok.mp h)⟩
  | nil | bool _ | int _ | str _ | list _ | dict _ => cases h

/-- A canonical window is the one of the parameters. -/
theorem validateValidityWindow_eq_ok {first last : ℤ} {params : Dict} {u : Unit}
    (h : validateValidityWindow py first last params true = .ok u) :
    canonicalValidity py params true = .ok (first, last) := by
  obtain ⟨-, -, h⟩ := bind_eq_ok.mp h
  obtain ⟨-, -, h⟩ := bind_eq_ok.mp h
  rw [if_pos rfl] at h
  obtain ⟨want, hwant, h⟩ := bind_eq_ok.mp h
  obtain ⟨_, hsame, -⟩ := bind_eq_ok.mp h
  have hsame := refuse_eq_ok.mp hsame
  rw [not_or, not_not, not_not] at hsame
  rw [hwant, hsame.1, hsame.2]

/-- The fee and the window are integers, and on MainNet, or when it is asked for, the
canonical ones. -/
theorem checkFee_eq_ok {cfg : NetworkConfig} {params : Dict} {requireCanonical : Option Bool}
    {txn : MsgDict} {window : ℤ × ℤ × ℤ}
    (h : checkFee py str cfg params requireCanonical txn = .ok window) :
    getField txn "fee" = .int window.1 ∧ getField txn "fv" = .int window.2.1 ∧
      getField txn "lv" = .int window.2.2 ∧
      (requireCanonical.getD (decide (cfg.name = mainnet.name)) = true →
        requiredFee py str params none (some txn) = .ok window.1 ∧
          canonicalValidity py params true = .ok (window.2.1, window.2.2)) := by
  obtain ⟨fee, hfee, h⟩ := bind_eq_ok.mp h
  obtain ⟨fv, hfv, h⟩ := bind_eq_ok.mp h
  obtain ⟨lv, hlv, h⟩ := bind_eq_ok.mp h
  dsimp only at h
  split at h
  · obtain ⟨want, hwant, h⟩ := bind_eq_ok.mp h
    obtain ⟨_, hsame, h⟩ := bind_eq_ok.mp h
    obtain ⟨_, hwindow, rfl⟩ := map_eq_ok.mp h
    have hsame : fee = want := not_not.mp (refuse_eq_ok.mp hsame)
    exact ⟨(requireUint_eq_ok hfee).1, (requireUint_eq_ok hfv).1, (requireUint_eq_ok hlv).1,
      fun _ => ⟨hsame ▸ hwant, validateValidityWindow_eq_ok hwindow⟩⟩
  · rename_i hrange
    obtain ⟨-, -, rfl⟩ := map_eq_ok.mp h
    exact ⟨(requireUint_eq_ok hfee).1, (requireUint_eq_ok hfv).1, (requireUint_eq_ok hlv).1,
      fun hcanonical => absurd hcanonical hrange⟩

theorem checkParties_eq_ok {addr : PyStr} {txn : MsgDict} {u : Unit}
    (h : checkParties addr txn = .ok u) :
    ∃ key, decodeAddress addr = some key ∧ getField txn "snd" = .bytes key ∧
      getField txn "rcv" = .bytes key := by
  obtain ⟨-, -, h⟩ := bind_eq_ok.mp h
  split at h
  · rename_i snd rcv want hsnd hrcv hwant
    have hsame := refuse_eq_ok.mp h
    rw [not_or, not_not, not_not] at hsame
    rw [asBytes?_eq_some] at hsnd hrcv
    exact ⟨want, hwant, hsame.1 ▸ hsnd, hsame.2 ▸ hrcv⟩
  · cases h

theorem checkNote_eq_ok {expected : Expected} {txn : MsgDict} {parsed : DecodedNote}
    (h : checkNote py expected txn = .ok parsed) :
    ∃ note, getField txn "note" = .bytes note ∧ decodeNote note = .ok parsed ∧
      originHash expected.origin = .ok parsed.originHash ∧
      (parsed.treeSize : ℤ) = expected.size ∧ wantRoot py expected.root = .ok parsed.root := by
  rw [checkNote] at h
  generalize getField txn "note" = v at h
  cases v with
  | bytes note =>
      obtain ⟨parsed', hparsed, h⟩ := bind_eq_ok.mp h
      obtain ⟨hash, hhash, h⟩ := bind_eq_ok.mp h
      obtain ⟨_, horigin, h⟩ := bind_eq_ok.mp h
      obtain ⟨_, hsize, h⟩ := bind_eq_ok.mp h
      obtain ⟨root, hroot, h⟩ := bind_eq_ok.mp h
      obtain ⟨_, hsame, rfl⟩ := map_eq_ok.mp h
      refine ⟨note, rfl, hparsed, ?_, not_not.mp (refuse_eq_ok.mp hsize), ?_⟩
      · rw [hhash, not_not.mp (refuse_eq_ok.mp horigin)]
      · rw [hroot, not_not.mp (refuse_eq_ok.mp hsame)]
  | nil | bool _ | int _ | str _ | list _ | dict _ => cases h

/-- An envelope of a Falcon-1024 signature with the types and sizes of its fields. -/
structure Envelope (pq : MsgDict) : Prop where
  keys : ∀ key, hasField pq key = true → key ∈ pqsigAllowedKeys
  pk : ∃ pk, getField pq "pk" = .bytes pk ∧ pk.length = falconF1PkLen
  sig : ∃ sig, getField pq "sig" = .bytes sig ∧ falconF1SigMin ≤ sig.length ∧
    sig.length ≤ falconF1SigMax ∧ sig.take 2 = [0xBA, 0x00]
  sch : getField pq "sch" = .str "f1" ∨ getField pq "sch" = .bytes [0x66, 0x31]
  slt : hasField pq "slt" = false ∨ ∃ n : ℤ, getField pq "slt" = .int n ∧ 0 ≤ n ∧ n ≤ 255

theorem checkPqsig_eq_ok {obj pq : MsgDict} {u : Unit} (h : checkPqsig obj = .ok u)
    (hpq : getField obj "pqsig" = .dict pq) :
    (∀ key, hasField pq key = true → key ∈ pqsigAllowedKeys) ∧ getField pq "sch" ≠ .nil ∧
      (∃ pk, getField pq "pk" = .bytes pk) ∧ (∃ sig, getField pq "sig" = .bytes sig) ∧
      (hasField pq "slt" = false ∨ ∃ n : ℤ, getField pq "slt" = .int n ∧ 0 ≤ n ∧ n ≤ 255) := by
  rw [checkPqsig, hpq] at h
  obtain ⟨_, hkeys, h⟩ := bind_eq_ok.mp h
  obtain ⟨_, hsch, h⟩ := bind_eq_ok.mp h
  obtain ⟨_, hpk, h⟩ := bind_eq_ok.mp h
  obtain ⟨_, hsig, h⟩ := bind_eq_ok.mp h
  obtain ⟨pk, hpk⟩ := Option.ne_none_iff_exists'.mp (refuse_eq_ok.mp hpk)
  obtain ⟨sig, hsig⟩ := Option.ne_none_iff_exists'.mp (refuse_eq_ok.mp hsig)
  refine ⟨fun key => rejectUnknownKeys_eq_ok hkeys, ?_, ⟨pk, asBytes?_eq_some.mp hpk⟩,
    ⟨sig, asBytes?_eq_some.mp hsig⟩, ?_⟩
  · intro hnil
    rw [hnil] at hsch
    exact refuse_eq_ok.mp hsch ⟨rfl, rfl⟩
  · split at h
    · obtain ⟨n, hn, h⟩ := bind_eq_ok.mp h
      obtain ⟨hint, hpos⟩ := requireUint_eq_ok hn
      exact .inr ⟨n, hint, hpos, not_lt.mp (refuse_eq_ok.mp h)⟩
    · rename_i hslt
      exact .inl (by simpa using hslt)

/-- An identifier `f1` is written as a text or as two bytes. -/
theorem asciiIdent_f1 {v : Msgpack} (h : asciiIdent v = some "f1") :
    v = .str "f1" ∨ v = .bytes [0x66, 0x31] := by
  cases v with
  | str s => exact .inl (congrArg Msgpack.str (Option.some.inj h))
  | bytes b =>
      refine .inr (congrArg Msgpack.bytes ?_)
      rw [asciiIdent] at h
      split at h
      · have hmap := congrArg (List.map fun c : CodePoint => UInt8.ofNat c.val) (Option.some.inj h)
        rw [List.map_map] at hmap
        have hid : (fun c : CodePoint => UInt8.ofNat c.val) ∘ CodePoint.ofByte = id := by
          funext x
          exact UInt8.ofNat_toNat
        rw [hid, List.map_id] at hmap
        exact hmap
      · cases h
  | nil | bool _ | int _ | list _ | dict _ => cases h

theorem parsePqsigEnvelope_eq_ok {pq : MsgDict} {sig : Bytes} (hsch : getField pq "sch" ≠ .nil)
    (hpk : ∃ pk, getField pq "pk" = .bytes pk) (hsig : ∃ sig, getField pq "sig" = .bytes sig)
    (h : parsePqsigEnvelope py str pq = .ok (some sig)) :
    (∃ pk, getField pq "pk" = .bytes pk ∧ pk.length = falconF1PkLen) ∧
      getField pq "sig" = .bytes sig ∧ falconF1SigMin ≤ sig.length ∧
      sig.length ≤ falconF1SigMax ∧ sig.take 2 = [0xBA, 0x00] ∧
      (getField pq "sch" = .str "f1" ∨ getField pq "sch" = .bytes [0x66, 0x31]) := by
  obtain ⟨pk, hpk⟩ := hpk
  obtain ⟨sig', hsig⟩ := hsig
  have hfirst : ∀ {key other : PyStr}, getField pq key ≠ .nil →
      fieldOr pq key other = getField pq key :=
    fun hkey => if_pos (hasField_of_getField hkey)
  rw [parsePqsigEnvelope] at h
  split at h
  · cases h
  split at h
  · cases h
  rename_i hident
  rw [not_not, hfirst hsch] at hident
  split at h
  · cases h
  rw [hfirst (by simp [hpk]), hfirst (by simp [hsig]), hpk, hsig] at h
  obtain ⟨pk', hpk', h⟩ := bind_eq_ok.mp h
  obtain ⟨sig'', hsig'', h⟩ := map_eq_ok.mp h
  obtain rfl := Except.ok.inj hpk'
  obtain rfl := Except.ok.inj hsig''
  split at h
  · cases h
  split at h
  · cases h
  split at h
  · cases h
  rename_i hshape
  obtain rfl := Option.some.inj h
  rw [Bool.not_eq_true, Bool.not_eq_false'] at hshape
  rw [falconF1ShapesOk, Bool.and_eq_true, Bool.and_eq_true, decide_eq_true_eq,
    decide_eq_true_eq, beq_iff_eq] at hshape
  exact ⟨⟨pk, hpk, hshape.1.1⟩, hsig, hshape.1.2.1, hshape.1.2.2, hshape.2, asciiIdent_f1 hident⟩

/-- The authorization of an object with no key but the allowed ones is an envelope. -/
theorem envelope_of_checks {obj : MsgDict} {u v : Unit}
    (hkeys : ∀ key, hasField obj key = true → key ∈ signedTxnAllowedKeys)
    (hpqsig : checkPqsig obj = .ok u) (hauth : checkAuthorization py str obj = .ok v) :
    ∃ pq, getField obj "pqsig" = .dict pq ∧ Envelope pq := by
  obtain ⟨pq?, hpq, h⟩ := bind_eq_ok.mp hauth
  split at h
  · split at h
    · cases h
    · cases h
  rename_i hne
  cases pq? with
  | none => exact absurd rfl hne
  | some sig =>
      have hsignature : getField obj "signature" = .nil := by
        apply getField_of_not_hasField
        by_contra hsig
        rw [Bool.not_eq_false] at hsig
        exact absurd (hkeys _ hsig) (by decide)
      simp only [pqAuthFromObj, hsignature] at hpq
      split at hpq
      · cases hpq
      split at hpq
      · cases hpq
      rw [parsePqsig.eq_def] at hpq
      generalize hfield : getField obj "pqsig" = v at hpq
      cases v with
      | dict pq =>
          obtain ⟨hallowed, hsch, hpk, hsig, hslt⟩ := checkPqsig_eq_ok hpqsig hfield
          obtain ⟨hpk, hsig, hmin, hmax, hhead, hsch⟩ :=
            parsePqsigEnvelope_eq_ok hsch hpk hsig hpq
          exact ⟨pq, rfl, hallowed, hpk, ⟨sig, hsig, hmin, hmax, hhead⟩, hsch, hslt⟩
      | nil | bool _ | int _ | str _ | bytes _ | list _ => cases hpq

end Checks

/-! ## What acceptance establishes -/

section Accepted

variable (py : Interp) (str : Msgpack → PyStr) (env : Env)

/-- What a transaction of the network is authorized to do: pay nothing from the Falcon
address to itself, with a note of the checkpoint. -/
structure AuthorizedAnchor (cfg : NetworkConfig) (expected : Expected) (obj txn : MsgDict) :
    Prop where
  /-- the keys of the signed object -/
  objKeys : ∀ key, hasField obj key = true ↔ key = "txn" ∨ key = "pqsig"
  txn_eq : getField obj "txn" = .dict txn
  pqsig : ∃ pq, getField obj "pqsig" = .dict pq ∧ Envelope pq
  /-- no amount, close, rekey, lease, group or other key -/
  txnKeys : ∀ key, hasField txn key = true → key ∈ txnAllowedKeys
  type : getField txn "type" = .str "pay"
  parties : ∃ key, decodeAddress (expectedAddress env cfg expected.address) = some key ∧
    getField txn "snd" = .bytes key ∧ getField txn "rcv" = .bytes key
  genesis : getField txn "gen" = .str cfg.genesisId ∧
    ∃ gh, getField txn "gh" = .bytes gh ∧ b64encode gh = cfg.genesisHash
  note : ∃ note parsed, getField txn "note" = .bytes note ∧ decodeNote note = .ok parsed ∧
    originHash expected.origin = .ok parsed.originHash ∧
      (parsed.treeSize : ℤ) = expected.size ∧ wantRoot py expected.root = .ok parsed.root
  numbers : ∃ fee fv lv : ℤ, getField txn "fee" = .int fee ∧ getField txn "fv" = .int fv ∧
    getField txn "lv" = .int lv
  /-- the fee and the window of the parameters -/
  canonical : expected.requireCanonical.getD (decide (cfg.name = mainnet.name)) = true →
    ∃ fee fv lv : ℤ, getField txn "fee" = .int fee ∧ getField txn "fv" = .int fv ∧
      getField txn "lv" = .int lv ∧ requiredFee py str expected.params none (some txn) = .ok fee ∧
        canonicalValidity py expected.params true = .ok (fv, lv)

variable {py str env}

/-- An accepted blob is read as an authorized object of its network, and its id is that of
the transaction in it. -/
theorem validateSignedTxn_eq_ok {signed : Bytes} {expected : Expected} {out : Verified}
    (h : validateSignedTxn py str env signed expected = .ok out) :
    ∃ cfg obj txn, networkCfg py env expected.network = .ok cfg ∧
      msgpackDecode str true signed = .ok obj ∧
      AuthorizedAnchor py str env cfg expected obj txn ∧
      txidFromUnsigned py txn = .ok out.txid := by
  obtain ⟨obj, hread, h⟩ := bind_eq_ok.mp h
  obtain ⟨txn, hkeys, h⟩ := bind_eq_ok.mp h
  obtain ⟨_, hpqsig, h⟩ := bind_eq_ok.mp h
  obtain ⟨cfg, hcfg, h⟩ := bind_eq_ok.mp h
  obtain ⟨_, hgenesis, h⟩ := bind_eq_ok.mp h
  obtain ⟨window, hfee, h⟩ := bind_eq_ok.mp h
  obtain ⟨_, hparties, h⟩ := bind_eq_ok.mp h
  obtain ⟨parsed, hnote, h⟩ := bind_eq_ok.mp h
  obtain ⟨_, hauth, h⟩ := bind_eq_ok.mp h
  obtain ⟨txid, htxid, rfl⟩ := map_eq_ok.mp h
  have hdecode := readSigned_eq_ok hread
  obtain ⟨htxn, hallowed, hfields, htype⟩ := checkKeys_eq_ok hkeys
  obtain ⟨hfee, hfv, hlv, hcanonical⟩ := checkFee_eq_ok hfee
  obtain ⟨note, hnote, hparsed, horigin, hsize, hroot⟩ := checkNote_eq_ok hnote
  obtain ⟨pq, hpq, henvelope⟩ := envelope_of_checks hallowed hpqsig hauth
  refine ⟨cfg, obj, txn, hcfg, hdecode, ?_, ?_⟩
  · exact
      { objKeys := by
          intro key
          constructor
          · intro hkey
            simpa [signedTxnAllowedKeys] using hallowed key hkey
          · rintro (rfl | rfl)
            · exact hasField_of_getField (by simp [htxn])
            · exact hasField_of_getField (by simp [hpq])
        txn_eq := htxn
        pqsig := ⟨pq, hpq, henvelope⟩
        txnKeys := hfields
        type := htype
        parties := checkParties_eq_ok hparties
        genesis := checkGenesis_eq_ok hgenesis
        note := ⟨note, parsed, hnote, hparsed, horigin, hsize, hroot⟩
        numbers := ⟨_, _, _, hfee, hfv, hlv⟩
        canonical := fun hflag => ⟨_, _, _, hfee, hfv, hlv, hcanonical hflag⟩ }
  · rw [signedTxnTxid, txidFromSigned, hdecode, Except.bind, htxn] at htxid
    dsimp only at htxid
    split at htxid
    · rename_i txid' hunsigned
      split at htxid
      · obtain rfl := Except.ok.inj htxid
        exact hunsigned
      · cases htxid
    · cases htxid

end Accepted

/-! ## A signed anchor -/

section Sample

def sampleOrigin : PyStr := "402signal.com/pq/log/mainnet-v1"

def sampleRoot : Bytes := List.replicate 32 0x11

def sampleNote : Bytes :=
  noteBytes (Sha256.sha256 (utf8Bytes (sampleOrigin.filter (· ≠ newline)))) 1 sampleRoot

/-- A payment of the least fee from the zero key to itself. -/
def sampleTxn : MsgDict :=
  (PyStr.ofString "fee", .int 3000) ::
    payTail 1 1001 mainnetHash sampleNote (List.replicate 32 0)

/-- A signed object with a given scheme, signature and salt. -/
def sampleObj (sch : Msgpack) (sig : Bytes) (slt : MsgDict) : MsgDict :=
  [("pqsig", .dict ([(PyStr.ofString "pk", .bytes (List.replicate falconF1PkLen 0)),
      (PyStr.ofString "sch", sch), (PyStr.ofString "sig", .bytes sig)] ++ slt)),
    ("txn", .dict sampleTxn)]

/-- The sample against the parameters of a given last round. -/
def sampleExpected (lastRound : ℤ) (requireCanonical : Option Bool) : Expected where
  origin := sampleOrigin
  size := 1
  root := .bytes sampleRoot
  address := some zeroAddress
  network := some "mainnet"
  params := algodParams lastRound 1000 0
  requireCanonical := requireCanonical

/-- An environment that names nothing. -/
def sampleEnv : Env where
  liveNetworkName := .error (.valueError "network unset")
  falconAddressFor _ := []

theorem encode_sampleTxn : ∃ raw, msgpackEncode Interp.plain sampleTxn = .ok raw ∧
    looksLikeTxid (txidOf raw) = true := by
  have hlooks : (msgpackEncode Interp.plain sampleTxn).toOption.any
      (fun raw => looksLikeTxid (txidOf raw)) = true := by decide +kernel
  cases hencode : msgpackEncode Interp.plain sampleTxn with
  | error e =>
      rw [hencode] at hlooks
      cases hlooks
  | ok raw =>
      rw [hencode, Except.toOption, Option.any_some] at hlooks
      exact ⟨raw, rfl, hlooks⟩

theorem checkFee_sampleTxn : checkFee Interp.plain (fun _ => []) mainnet (algodParams 1 1000 0) none
    sampleTxn = .ok (3000, 1, 1001) := by
  obtain ⟨raw, hencode, -⟩ := encode_sampleTxn
  have hsize : estimateFalconAuthorizedSize Interp.plain (some sampleTxn) =
      .ok (3253 + raw.length) := by
    rw [sampleTxn, (estimate_payment 3000 1 1001 mainnetHash sampleNote _).1, ← sampleTxn, hencode]
    rfl
  have hfee : requiredFee Interp.plain (fun _ => []) (algodParams 1 1000 0) none
      (some sampleTxn) = .ok 3000 :=
    requiredFee_eq_ok.mpr ⟨3000, 0, _, rfl, rfl, hsize, by omega, by simp, by decide⟩
  have hwindow : validateValidityWindow Interp.plain 1 1001 (algodParams 1 1000 0) true =
      .ok () := rfl
  have hint : requireUint (getField sampleTxn "fee") = .ok 3000 := rfl
  have hfirst : requireUint (getField sampleTxn "fv") = .ok 1 := rfl
  have hlast : requireUint (getField sampleTxn "lv") = .ok 1001 := rfl
  rw [checkFee, hint, hfirst, hlast]
  simp only [Except.bind, Option.getD_none, decide_true, if_true, hfee, refuse, ne_eq,
    not_true_eq_false, if_false, hwindow]
  rfl

theorem checkParties_sampleTxn : checkParties
    (expectedAddress sampleEnv mainnet (some zeroAddress)) sampleTxn = .ok () := by
  have haddress : expectedAddress sampleEnv mainnet (some zeroAddress) = zeroAddress := by
    decide +kernel
  have hsnd : asBytes? (getField sampleTxn "snd") = some (List.replicate 32 0) := rfl
  have hrcv : asBytes? (getField sampleTxn "rcv") = some (List.replicate 32 0) := rfl
  rw [haddress, checkParties, hsnd, hrcv, decodeAddress_zeroAddress]
  rfl

theorem checkNote_sampleTxn (lastRound : ℤ) (flag : Option Bool) : ∃ parsed,
    checkNote Interp.plain (sampleExpected lastRound flag) sampleTxn = .ok parsed := by
  have hnote : getField sampleTxn "note" = .bytes sampleNote := rfl
  have horigin : originHash sampleOrigin =
      .ok (Sha256.sha256 (utf8Bytes (sampleOrigin.filter (· ≠ newline)))) :=
    map_eq_ok.mpr ⟨_, utf8Encode_eq_ok.mpr ⟨by decide, rfl⟩, rfl⟩
  have hparsed : decodeNote sampleNote = .ok _ :=
    decodeNote_noteBytes (n := 1) (Sha256.sha256_length _) (by rw [sampleRoot]; rfl) (by decide)
  have hread : ∀ parsed : DecodedNote, parsed.originHash =
      Sha256.sha256 (utf8Bytes (sampleOrigin.filter (· ≠ newline))) → parsed.treeSize = 1 →
      parsed.root = sampleRoot → decodeNote sampleNote = .ok parsed →
        checkNote Interp.plain (sampleExpected lastRound flag) sampleTxn = .ok parsed := by
    intro parsed hhash hsize hroot hdecode
    rw [checkNote, hnote]
    dsimp only
    rw [hdecode, Except.bind]
    dsimp only [sampleExpected]
    simp only [horigin, Except.bind, refuse, wantRoot, hhash, hsize, hroot, ne_eq, Nat.cast_one,
      not_true_eq_false, if_false]
    rfl
  exact ⟨_, hread _ rfl rfl rfl hparsed⟩

/-- The envelope of the sample is that of a Falcon signature. -/
theorem parse_sample {sig : Bytes} {sch : Msgpack} {slt : MsgDict}
    (hsch : sch = .str "f1" ∨ sch = .bytes [0x66, 0x31])
    (hsig : falconF1SigMin ≤ sig.length ∧ sig.length ≤ falconF1SigMax ∧ sig.take 2 = [0xBA, 0x00])
    (hslt : slt = [] ∨ ∃ n : ℤ, 0 ≤ n ∧ n ≤ 255 ∧ slt = [(PyStr.ofString "slt", .int n)]) :
    parsePqsigEnvelope Interp.plain (fun _ => []) ([(PyStr.ofString "pk",
      .bytes (List.replicate falconF1PkLen 0)), (PyStr.ofString "sch", sch),
        (PyStr.ofString "sig", .bytes sig)] ++ slt) = .ok (some sig) := by
  have hshape : falconF1ShapesOk (List.replicate falconF1PkLen 0) sig = true := by
    rw [falconF1ShapesOk, List.length_replicate]
    simp [hsig]
  have hne : sig ≠ [] := by
    rintro rfl
    exact absurd hsig.1 (by decide)
  have hmarker : sig ≠ asciiBytes pqsigMarker := by
    rintro rfl
    exact absurd hsig.2.2 (by decide)
  have hpk : List.replicate falconF1PkLen (0 : UInt8) ≠ asciiBytes pqsigMarker := by
    intro h
    have hlength := congrArg List.length h
    rw [List.length_replicate, falconF1PkLen] at hlength
    exact absurd hlength (by decide)
  generalize hpq : ([(PyStr.ofString "pk", Msgpack.bytes (List.replicate falconF1PkLen 0)),
    (PyStr.ofString "sch", sch), (PyStr.ofString "sig", .bytes sig)] ++ slt) = pq
  have hmark : asStr? (getField pq "pqsig") = none ∧
      saltInRange Interp.plain (fieldOr pq "slt" "salt") = true := by
    subst hpq
    rcases hslt with rfl | ⟨n, hmin, hmax, rfl⟩
    · exact ⟨rfl, rfl⟩
    · refine ⟨rfl, ?_⟩
      exact decide_eq_true ⟨hmin, hmax⟩
  have hident : asciiIdent (fieldOr pq "sch" "scheme") = some (PyStr.ofString "f1") := by
    subst hpq
    rcases hsch with rfl | rfl
    · rfl
    · rfl
  have hfields : fieldBytesOrEmpty (fun _ => []) (fieldOr pq "pk" "public-key") =
      .ok (List.replicate falconF1PkLen 0) ∧
        fieldBytesOrEmpty (fun _ => []) (fieldOr pq "sig" "signature") = .ok sig := by
    subst hpq
    exact ⟨rfl, rfl⟩
  rw [parsePqsigEnvelope, hmark.1, if_neg (by simp), hident, if_neg (by simp), hmark.2,
    if_neg (by simp), hfields.1, hfields.2, Except.bind, Except.map,
    if_neg (by simp [hne, falconF1PkLen]), if_neg (by simp [hmarker, hpk]), hshape,
    if_neg (by simp)]

/-- The sample is accepted, whichever bytes it was read from, when its fee and its window
are. -/
theorem accepted_sample {signed sig : Bytes} {sch : Msgpack} {slt : MsgDict} {lastRound : ℤ}
    {flag : Option Bool} {window : ℤ × ℤ × ℤ}
    (hfee : checkFee Interp.plain (fun _ => []) mainnet (algodParams lastRound 1000 0) flag
      sampleTxn = .ok window)
    (hdecode : msgpackDecode (fun _ => []) true signed = .ok (sampleObj sch sig slt))
    (hsch : sch = .str "f1" ∨ sch = .bytes [0x66, 0x31])
    (hsig : falconF1SigMin ≤ sig.length ∧ sig.length ≤ falconF1SigMax ∧ sig.take 2 = [0xBA, 0x00])
    (hslt : slt = [] ∨ ∃ n : ℤ, 0 ≤ n ∧ n ≤ 255 ∧ slt = [(PyStr.ofString "slt", .int n)]) :
    ∃ out, validateSignedTxn Interp.plain (fun _ => []) sampleEnv signed
      (sampleExpected lastRound flag) = .ok out := by
  have hread : readSigned (fun _ => []) signed = .ok (sampleObj sch sig slt) := by
    have hempty : msgpackDecode (fun _ => []) true [] = .error (.valueError "truncated msgpack") :=
      rfl
    have hmarker : msgpackDecode (fun _ => []) true (asciiBytes pqsigMarker) =
        .error (.valueError "invalid msgpack map") := rfl
    have hne : signed ≠ [] := by
      rintro rfl
      rw [hempty] at hdecode
      cases hdecode
    have hne' : signed ≠ asciiBytes pqsigMarker := by
      rintro rfl
      rw [hmarker] at hdecode
      cases hdecode
    rw [readSigned, refuse, if_neg hne, Except.bind, refuse, if_neg hne', Except.bind, hdecode]
  have hkeys : checkKeys (sampleObj sch sig slt) = .ok sampleTxn := by
    rfl
  have hpqsig : checkPqsig (sampleObj sch sig slt) = .ok () := by
    rcases hslt with rfl | ⟨n, hmin, hmax, rfl⟩
    · rcases hsch with rfl | rfl
      · rfl
      · rfl
    · have hslt : (requireUint (.int n)).bind (fun slt => refuse (255 < slt) badEnvelope) =
          .ok () := by
        rw [requireUint, if_neg (by omega), Except.bind, refuse, if_neg (by omega)]
      rcases hsch with rfl | rfl
      · exact hslt
      · exact hslt
  have hnet : networkCfg Interp.plain sampleEnv (some (PyStr.ofString "mainnet")) =
      .ok mainnet := rfl
  have hgenesis : checkGenesis mainnet sampleTxn = .ok () := by
    have hgh : b64encode mainnetHash = mainnet.genesisHash := by decide +kernel
    have hread : checkGenesis mainnet sampleTxn =
        refuse (b64encode mainnetHash ≠ mainnet.genesisHash) "genesis hash mismatch" := rfl
    rw [hread, refuse, if_neg (not_not.mpr hgh)]
  obtain ⟨parsed, hnote⟩ := checkNote_sampleTxn lastRound flag
  have hauth : checkAuthorization Interp.plain (fun _ => []) (sampleObj sch sig slt) = .ok () := by
    have hread : pqAuthFromObj Interp.plain (fun _ => []) (sampleObj sch sig slt) =
        parsePqsigEnvelope Interp.plain (fun _ => []) ([(PyStr.ofString "pk",
          .bytes (List.replicate falconF1PkLen 0)), (PyStr.ofString "sch", sch),
            (PyStr.ofString "sig", .bytes sig)] ++ slt) := rfl
    have hne : sig ≠ [] := by
      rintro rfl
      exact absurd hsig.1 (by decide)
    rw [checkAuthorization, hread, parse_sample hsch hsig hslt, Except.bind, if_neg (by simpa)]
  obtain ⟨raw, hencode, hlooks⟩ := encode_sampleTxn
  have htxid : signedTxnTxid Interp.plain (fun _ => []) signed = .ok (txidOf raw) := by
    have htxn : getField (sampleObj sch sig slt) "txn" = .dict sampleTxn := rfl
    rw [signedTxnTxid, txidFromSigned, hdecode, Except.bind, htxn]
    dsimp only
    rw [txidFromUnsigned, hencode, Except.map]
    dsimp only
    rw [if_pos hlooks]
  refine ⟨_, bind_eq_ok.mpr ⟨_, hread, bind_eq_ok.mpr ⟨_, hkeys, bind_eq_ok.mpr ⟨_, hpqsig,
    bind_eq_ok.mpr ⟨_, hnet, bind_eq_ok.mpr ⟨_, hgenesis, bind_eq_ok.mpr ⟨_, hfee,
    bind_eq_ok.mpr ⟨_, checkParties_sampleTxn, bind_eq_ok.mpr ⟨_, hnote, bind_eq_ok.mpr ⟨_, hauth,
    map_eq_ok.mpr ⟨_, htxid, rfl⟩⟩⟩⟩⟩⟩⟩⟩⟩⟩⟩

/-- The fields of the sample, with the genesis hash in a given form. -/
def sampleFields (gh : Wire) : List (PyStr × Wire) :=
  [("fee", .int 3000), ("fv", .int 1), ("gen", .text mainnet.genesisId), ("gh", gh),
    ("lv", .int 1001), ("note", .bin sampleNote), ("rcv", .bin (List.replicate 32 0)),
    ("snd", .bin (List.replicate 32 0)), ("type", .text "pay")]

/-- The envelope of the sample, with a given scheme, signature and salt. -/
def samplePqsig (sch : Wire) (sig : Bytes) (slt : List (PyStr × Wire)) : List (PyStr × Wire) :=
  [(PyStr.ofString "pk", .bin (List.replicate falconF1PkLen 0)), (PyStr.ofString "sch", sch),
    (PyStr.ofString "sig", .bin sig)] ++ slt

/-- A signed object as it is written: the envelope and the fields of the transaction. -/
def blobWire (pqsig fields : List (PyStr × Wire)) : Wire :=
  .map [("pqsig", .map pqsig), ("txn", .map fields)]

theorem strict_samplePqsig {sch : Wire} {sig : Bytes} {slt : List (PyStr × Wire)}
    (hsch : sch.Strict 7) (hsig : sig.length ≤ falconF1SigMax)
    (hslt : slt = [] ∨ ∃ n < 256, slt = [(PyStr.ofString "slt", .int n)]) :
    (Wire.map (samplePqsig sch sig slt)).Strict 8 := by
  have hkeys : ∀ key ∈ [PyStr.ofString "pk", "sch", "sig", "slt"], Wire.Key key := by
    intro key hkey
    have hall : ∀ key ∈ [PyStr.ofString "pk", "sch", "sig", "slt"], key ≠ [] ∧
        key.any CodePoint.isSurrogate = false ∧ (utf8Bytes key).length < 256 := by decide
    exact ⟨(hall key hkey).1, (hall key hkey).2.1, (hall key hkey).2.2⟩
  have hpk : (Wire.bin (List.replicate falconF1PkLen 0)).Strict 7 := by
    change (List.replicate falconF1PkLen (0 : UInt8)).length < 65536
    rw [List.length_replicate]
    decide
  have hsig : (Wire.bin sig).Strict 7 := by
    change sig.length < 65536
    rw [falconF1SigMax] at hsig
    omega
  have hsltKeys : slt.map Prod.fst = [] ∨ slt.map Prod.fst = [PyStr.ofString "slt"] := by
    rcases hslt with rfl | ⟨n, -, rfl⟩
    · exact .inl rfl
    · exact .inr rfl
  have hpair : ((samplePqsig sch sig slt).map Prod.fst).Pairwise
      fun k l => PyStr.lt k l = true := by
    change List.Pairwise _ ([PyStr.ofString "pk", "sch", "sig"] ++ slt.map Prod.fst)
    rcases hsltKeys with h | h
    · rw [h]
      decide
    · rw [h]
      decide
  refine ⟨?_, hpair, ?_⟩
  · rcases hslt with rfl | ⟨n, -, rfl⟩
    · exact (by decide : 3 < 65536)
    · exact (by decide : 4 < 65536)
  · intro m hm
    rw [samplePqsig] at hm
    rcases List.mem_append.mp hm with hm | hm
    · simp only [List.mem_cons, List.not_mem_nil, or_false] at hm
      rcases hm with rfl | rfl | rfl
      · exact ⟨hkeys _ (by simp), hpk⟩
      · exact ⟨hkeys _ (by simp), hsch⟩
      · exact ⟨hkeys _ (by simp), hsig⟩
    · rcases hslt with rfl | ⟨n, hn, rfl⟩
      · cases hm
      · obtain rfl := List.mem_singleton.mp hm
        have hint : n < 2 ^ 64 := by omega
        exact ⟨hkeys _ (by simp), hint⟩

theorem strict_sampleFields {gh : Wire} (hgh : gh.Strict 7) :
    (Wire.map (sampleFields gh)).Strict 8 := by
  have hkeys : ∀ m ∈ sampleFields gh, Wire.Key m.1 := by
    have hall : ∀ key ∈ txnAllowedKeys, key ≠ [] ∧ key.any CodePoint.isSurrogate = false ∧
        (utf8Bytes key).length < 256 := by decide
    intro m hm
    have hkey : m.1 ∈ txnAllowedKeys := by
      have hmem : ∀ key ∈ (sampleFields gh).map Prod.fst, key ∈ txnAllowedKeys := by
        change ∀ key ∈ [PyStr.ofString "fee", "fv", "gen", "gh", "lv", "note", "rcv", "snd",
          "type"], key ∈ txnAllowedKeys
        decide
      exact hmem m.1 (List.mem_map_of_mem hm)
    exact ⟨(hall m.1 hkey).1, (hall m.1 hkey).2.1, (hall m.1 hkey).2.2⟩
  have hnote : (Wire.bin sampleNote).Strict 7 := by
    have hlength : sampleNote.length = 84 := by
      simp only [sampleNote, noteBytes, List.length_append, Sha256.sha256_length,
        BigEndian.length_encode, sampleRoot, List.length_replicate]
      decide
    change sampleNote.length < 65536
    omega
  have hzeros : (Wire.bin (List.replicate 32 0)).Strict 7 := by
    change (List.replicate 32 (0 : UInt8)).length < 65536
    decide
  have hgen : (Wire.text mainnet.genesisId).Strict 7 := by
    change mainnet.genesisId.any CodePoint.isSurrogate = false ∧
      (utf8Bytes mainnet.genesisId).length < 256
    decide
  have htype : (Wire.text "pay").Strict 7 := by
    change (PyStr.ofString "pay").any CodePoint.isSurrogate = false ∧
      (utf8Bytes (PyStr.ofString "pay")).length < 256
    decide
  have hints : (Wire.int 3000).Strict 7 ∧ (Wire.int 1).Strict 7 ∧ (Wire.int 1001).Strict 7 := by
    change 3000 < 2 ^ 64 ∧ 1 < 2 ^ 64 ∧ 1001 < 2 ^ 64
    omega
  refine ⟨(by decide : 9 < 65536), ?_, fun m hm => ⟨hkeys m hm, ?_⟩⟩
  · change List.Pairwise _ [PyStr.ofString "fee", "fv", "gen", "gh", "lv", "note", "rcv", "snd",
      "type"]
    decide
  · simp only [sampleFields, List.mem_cons, List.not_mem_nil, or_false] at hm
    rcases hm with rfl | rfl | rfl | rfl | rfl | rfl | rfl | rfl | rfl
    · exact hints.1
    · exact hints.2.1
    · exact hgen
    · exact hgh
    · exact hints.2.2
    · exact hnote
    · exact hzeros
    · exact hzeros
    · exact htype

/-- The sample is written in forms that the strict decoder takes. -/
theorem strict_sample {gh sch : Wire} {sig : Bytes} {slt : List (PyStr × Wire)}
    (hgh : gh.Strict 7) (hsch : sch.Strict 7) (hsig : sig.length ≤ falconF1SigMax)
    (hslt : slt = [] ∨ ∃ n < 256, slt = [(PyStr.ofString "slt", .int n)]) :
    (blobWire (samplePqsig sch sig slt) (sampleFields gh)).Strict (maxMsgpackDepth + 1) := by
  have hkeys : Wire.Key "pqsig" ∧ Wire.Key "txn" :=
    ⟨⟨by decide, by decide, by decide⟩, ⟨by decide, by decide, by decide⟩⟩
  refine ⟨(by decide : 2 < 65536), ?_, ?_⟩
  · change List.Pairwise _ [PyStr.ofString "pqsig", "txn"]
    decide
  · intro m hm
    rcases List.mem_cons.mp hm with rfl | hm
    · exact ⟨hkeys.1, strict_samplePqsig hsch hsig hslt⟩
    · obtain rfl := List.mem_singleton.mp hm
      exact ⟨hkeys.2, strict_sampleFields hgh⟩

/-- The blob that is written with the sample is read as the sample. -/
theorem decode_sample {gh sch : Wire} {sig : Bytes} {slt : List (PyStr × Wire)}
    (hgh : gh.Strict 7) (hvalue : gh.value = .bytes mainnetHash) (hsch : sch.Strict 7)
    (hsig : sig.length ≤ falconF1SigMax)
    (hslt : slt = [] ∨ ∃ n < 256, slt = [(PyStr.ofString "slt", .int n)])
    (hlen : (blobWire (samplePqsig sch sig slt) (sampleFields gh)).bytes.length ≤
      maxMsgpackBytes) :
    msgpackDecode (fun _ => []) true
        (blobWire (samplePqsig sch sig slt) (sampleFields gh)).bytes =
      .ok (sampleObj sch.value sig (slt.map fun m => (m.1, m.2.value))) := by
  refine msgpackDecode_eq_ok.mpr ⟨hlen, _, strict_sample hgh hsch hsig hslt, rfl, ?_⟩
  simp only [blobWire, samplePqsig, sampleFields, sampleObj, sampleTxn, payTail, Wire.value,
    Wire.valueItems_eq, List.map_cons, List.map_append, List.map_nil, hvalue]
  rfl

/-- A Falcon signature of the common length. -/
def sampleSig : Bytes := 0xBA :: 0x00 :: List.replicate 1228 0

/-- The sample as the signer writes it. -/
def sampleBlob : Bytes :=
  (blobWire (samplePqsig (.text "f1") sampleSig []) (sampleFields (.bin mainnetHash))).bytes

theorem decode_sampleBlob : msgpackDecode (fun _ => []) true sampleBlob =
    .ok (sampleObj (.str "f1") sampleSig []) := by
  have hgh : (Wire.bin mainnetHash).Strict 7 := by
    change mainnetHash.length < 65536
    decide +kernel
  have hsch : (Wire.text "f1").Strict 7 := by
    change (PyStr.ofString "f1").any CodePoint.isSurrogate = false ∧
      (utf8Bytes (PyStr.ofString "f1")).length < 256
    decide
  exact decode_sample hgh rfl hsch (by decide +kernel) (.inl rfl) (by decide +kernel)

theorem accepted_sampleBlob {lastRound : ℤ} {flag : Option Bool} {window : ℤ × ℤ × ℤ}
    (hfee : checkFee Interp.plain (fun _ => []) mainnet (algodParams lastRound 1000 0) flag
      sampleTxn = .ok window) : ∃ out,
    validateSignedTxn Interp.plain (fun _ => []) sampleEnv sampleBlob
      (sampleExpected lastRound flag) = .ok out :=
  accepted_sample hfee decode_sampleBlob (.inl rfl) ⟨by decide +kernel, by decide +kernel, rfl⟩
    (.inl rfl)

end Sample

/-! ## MainNet -/

section MainNet

variable (py : Interp) (str : Msgpack → PyStr) (env : Env)

/-- A blob that is accepted on MainNet does only what was authorized.  The fee and the
window are those of the parameters unless the caller gives up the canonical form. -/
theorem accepted_on_mainnet (signed : Bytes) (expected : Expected) (out : Verified)
    (hnet : networkCfg py env expected.network = .ok mainnet)
    (h : validateSignedTxn py str env signed expected = .ok out) :
    ∃ obj txn, msgpackDecode str true signed = .ok obj ∧
      AuthorizedAnchor py str env mainnet expected obj txn ∧
      (expected.requireCanonical ≠ some false →
        ∃ fee fv lv : ℤ, getField txn "fee" = .int fee ∧ getField txn "fv" = .int fv ∧
          getField txn "lv" = .int lv ∧
          requiredFee py str expected.params none (some txn) = .ok fee ∧
          canonicalValidity py expected.params true = .ok (fv, lv)) := by
  obtain ⟨cfg, obj, txn, hcfg, hdecode, hauth, -⟩ := validateSignedTxn_eq_ok h
  rw [hnet, Except.ok.injEq] at hcfg
  subst hcfg
  refine ⟨obj, txn, hdecode, hauth, fun hflag => hauth.canonical ?_⟩
  rcases hcanonical : expected.requireCanonical with _ | _ | _
  · rfl
  · exact absurd hcanonical hflag
  · rfl

theorem accepted_on_mainnet_sample :
    networkCfg Interp.plain sampleEnv (sampleExpected 1 none).network = .ok mainnet ∧
      ∃ out obj txn, validateSignedTxn Interp.plain (fun _ => []) sampleEnv sampleBlob
          (sampleExpected 1 none) = .ok out ∧
        AuthorizedAnchor Interp.plain (fun _ => []) sampleEnv mainnet (sampleExpected 1 none)
          obj txn := by
  obtain ⟨out, hout⟩ := accepted_sampleBlob checkFee_sampleTxn
  obtain ⟨obj, txn, -, hauth, -⟩ := accepted_on_mainnet Interp.plain (fun _ => []) sampleEnv
    sampleBlob (sampleExpected 1 none) out rfl hout
  exact ⟨rfl, out, obj, txn, hout, hauth⟩

/-- A caller that gives up the canonical form on MainNet has a window accepted that is not
the one of the parameters. -/
theorem canonical_form_given_up :
    networkCfg Interp.plain sampleEnv (sampleExpected 5 (some false)).network = .ok mainnet ∧
      (∃ out, validateSignedTxn Interp.plain (fun _ => []) sampleEnv sampleBlob
        (sampleExpected 5 (some false)) = .ok out) ∧
      ∃ obj txn, msgpackDecode (fun _ => []) true sampleBlob = .ok obj ∧
        getField obj "txn" = .dict txn ∧ getField txn "fv" = .int 1 ∧
        canonicalValidity Interp.plain (sampleExpected 5 (some false)).params true =
          .ok (5, 1005) := by
  have hfee : checkFee Interp.plain (fun _ => []) mainnet (algodParams 5 1000 0) (some false)
      sampleTxn = .ok (3000, 1, 1001) := rfl
  exact ⟨rfl, accepted_sampleBlob hfee, _, sampleTxn, decode_sampleBlob, rfl, rfl, rfl⟩

end MainNet

end Signal402.SignedTxn
