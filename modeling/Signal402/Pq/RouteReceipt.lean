import Signal402.Pq.Checkpoint
import Signal402.Pq.EvidenceV3
import Signal402.Pq.MerkleProofs
import Signal402.Route.Binding

/-!
# Receipts of routes (`pq/events.py`, `pq/receipt.py`, `pq/route_v4.py`, `route_binding.py`)

The log holds public leaves.  `leafBytes` is the entry of one; a leaf of type v4 commits to
the evidence of a bound route.  `verifyRouteReceipt` checks a receipt with its reveal: the
commitment, the leaf, the inclusion proof and the signed checkpoint.  `verifyRoute` does so
with a key that its caller pinned, and compares the bound terms with those of the seller.
-/

namespace Signal402.RouteReceipt

open Jcs Checkpoint RouteBinding EvidenceV3
open CandidateSet (strOf)
open Merkle (leafHash verifyInclusion)
open Sha256 (sha256)

/-! ## Public leaves -/

/-- `AMOUNT_KEYS`. -/
def amountKeys : List String :=
  ["amount", "amount_atomic", "display_amount", "normalized_usd", "price", "fee",
    "max_price_usd", "max_total_cost_usd"]

/-- The types of events. -/
def eventTypes : List String :=
  ["402signal.route_decision.v1", "402signal.route_decision.v2", "402signal.route_decision.v3",
    "402signal.route_decision.v4", "402signal.observation_batch.v1", "402signal.scoring_model.v1"]

/-- The types of events of routes. -/
def routeTypes : List String :=
  ["402signal.route_decision.v1", "402signal.route_decision.v2", "402signal.route_decision.v3",
    "402signal.route_decision.v4"]

/-- A value is one of these texts. -/
def isAmong (names : List String) : Json → Bool
  | .str s => (names.map PyStr.ofString).contains s
  | _ => false

/-- The form of `TS_RE`, with a zero for each digit. -/
def timestampForm : PyStr := "0000-00-00T00:00:00Z"

/-- `s.rstrip("0").rstrip(".")`. -/
def trimFraction (s : PyStr) : PyStr :=
  PyStr.rstripChar (.ofChar '.') (PyStr.rstripChar (.ofChar '0') s)

section Leaf

variable (p : Platform)

/-- `TS_RE.match`, of a text without white space around it. -/
def isTimestamp (text : PyStr) : Bool :=
  text.length == timestampForm.length &&
    (text.zip timestampForm).all fun c =>
      if c.2 = .ofChar '0' then Policy.isDigitPoint p.deps.py c.1 else c.1 == c.2

def requireTimestamp (value : Json) : Except PyError PyStr :=
  (if value.truthy then strOf p.deps.py value else .ok []).bind fun text =>
    if isTimestamp p text.strip then .ok text.strip
    else .error (jcsError "timestamp must be RFC3339 UTC seconds ending in Z")

/-- `_amount_string` of a text. -/
def amountText (text : PyStr) : Except PyError PyStr :=
  if text.isEmpty || (p.deps.py.floatOf text).isNone then
    .error (jcsError "amount must be a decimal string")
  else .ok text

/-- `_amount_string`. -/
def amountString : Json → Except PyError PyStr
  | .null => .error (jcsError "amount must be a decimal string")
  | .bool _ => .error (jcsError "amount must be a decimal string")
  | .int n => jsonInt n
  | .float x =>
      if !x.isFinite then .error (jcsError "non-finite amount")
      else .ok (trimFraction
        ((if x.bits.msb then [CodePoint.ofChar '-'] else []) ++ x.fixed 6))
  | val => (strOf p.deps.py val).bind fun text => amountText p text.strip

/-- `amounts_as_strings`, with the levels that recursion has left. -/
def amountsAsStrings : ℕ → Json → Except PyError Json
  | 0, .arr _ => .error tooDeep
  | 0, .obj _ => .error tooDeep
  | left + 1, .arr items => (items.mapM (amountsAsStrings left)).map .arr
  | left + 1, .obj members =>
      (members.mapM fun m =>
        (if (amountKeys.map PyStr.ofString).contains m.1 then (amountString p m.2).map .str
        else amountsAsStrings left m.2).map fun val => (m.1, val)).map .obj
  | _, val => .ok val

/-- `_forbid`, with the levels that recursion has left. -/
def forbid : ℕ → Json → Except PyError Unit
  | 0, .arr _ => .error tooDeep
  | 0, .obj _ => .error tooDeep
  | left + 1, .arr items => items.forM (forbid left)
  | left + 1, .obj members => members.forM fun m =>
      if (forbiddenNames.map PyStr.ofString).contains m.1 || isPrivateName p.deps.py m.1 then
        .error (privacyError "forbidden field")
      else forbid left m.2
  | _, _ => .ok ()

/-- The checks of `assert_public` on the event of a route. -/
def assertRoute (event : Dict) : Except PyError Unit :=
  let typ := event.get "type"
  match (event.get "nonce").or (.str []) with
  | .str nonce =>
      if nonce.length < 32 then .error (privacyError "route_decision nonce must be high entropy")
      else if !(event.get "commitment").truthy then
        .error (privacyError "route_decision requires a commitment hash")
      else if isAmong ["402signal.route_decision.v2"] typ &&
          !keysAmong ["type", "ts", "nonce", "commitment", "live", "miss_reason"] event then
        .error (privacyError "v2 public leaf has forbidden field")
      else if isAmong ["402signal.route_decision.v3", "402signal.route_decision.v4"] typ &&
          !keysAmong ["type", "ts", "nonce", "commitment"] event then
        .error (privacyError "v3 public leaf has forbidden field")
      else .ok ()
  | _ => .error (privacyError "route_decision nonce must be high entropy")

/-- `assert_public`.  The keys that the last checks of the source name are none of the
fields that its checks before them allow. -/
def assertPublic (event : Dict) : Except PyError Dict :=
  let typ := event.get "type"
  if typ.isContainer then .error ⟨.typeError, "unhashable type"⟩
  else if !isAmong eventTypes typ then .error (privacyError "unknown event type")
  else if typ.eqStr typeV4 && !(isHex64 (event.get "nonce") && isHex64 (event.get "commitment")) then
    .error (privacyError "invalid v4 commitment metadata")
  else (requireTimestamp p (event.get "ts")).bind fun _ =>
    (forbid p p.writer (.obj event)).bind fun _ =>
      if isAmong routeTypes typ then (assertRoute event).map fun _ => event else .ok event

def leafBytes (event : Dict) : Except PyError Bytes :=
  (amountsAsStrings p p.writer (.obj event)).bind fun clean =>
    (assertPublic p clean.dictOrEmpty).bind fun event =>
      canonicalize p.deps.py p.writer (.obj event)

end Leaf

/-! ## Evidence of bound routes -/

/-- `DOMAIN`. -/
def domainV4 : PyStr := "402signal.route_decision.v4\x00"

/-- `v.get(...)` of the value under a key, which is a dictionary when the key is missing. -/
def partOf (d : Dict) (key : PyStr) : Except PyError Dict :=
  match d.get? key with
  | none => .ok []
  | some (.obj fields) => .ok fields
  | some _ => .error ⟨.attributeError, "object has no attribute 'get'"⟩

section Evidence

variable (p : Platform)

/-- A text that is the JSON of a dictionary. -/
def textOfDict : Json → Except PyError Dict
  | .str text => (strictJsonText p text).bind fun value =>
      match value with
      | .obj d => .ok d
      | _ => fail "invalid_evidence"
  | _ => fail "invalid_evidence"

/-- The decision is that of a payable winner. -/
def isWinner (decision : Dict) : Except PyError Bool :=
  if !isInt 1 (decision.get "evidence_version") then .ok false
  else (partOf decision "decision").bind fun made =>
    if !(made.get "outcome").eqStr "winner" then .ok false
    else (partOf decision "observation").map fun seen =>
      (seen.get "live").isTrue && (seen.get "payable").isTrue

/-- The checks of `validate` on a dictionary. -/
def evidenceFields (evidence : Dict) : Except PyError Unit :=
  if !keysExactly ["evidence_version", "routing_evidence_json", "request_json", "binding"]
      evidence then fail "invalid_evidence"
  else if !isInt 2 (evidence.get "evidence_version") then fail "invalid_evidence"
  else
    (textOfDict p (evidence.get "routing_evidence_json")).bind fun decision =>
      (textOfDict p (evidence.get "request_json")).bind fun _ =>
        (isWinner decision).bind fun won =>
          if !won then fail "invalid_evidence"
          else (validate p (evidence.get "binding")).bind fun _ =>
            (partOf decision "decision").bind fun made =>
              let bound := (evidence.get "binding").dictOrEmpty.get "request"
              if (made.get "winner_url").eqStr (urlOf bound) then .ok ()
              else fail "invalid_evidence"

/-- `validate` of `route_v4.py`. -/
def validateEvidence (evidence : Json) : Except PyError Unit :=
  (canonical p evidence).bind fun _ =>
    match evidence with
    | .obj fields => evidenceFields p fields
    | _ => fail "invalid_evidence"

/-- The evidence of a bound route. -/
def evidenceOf (decisionJson requestJson : PyStr) (binding : Dict) : Json :=
  .obj [("evidence_version", .int 2), ("routing_evidence_json", .str decisionJson),
    ("request_json", .str requestJson), ("binding", .obj binding)]

/-- `evidence_from_route`, of the private evidence of the decision. -/
def evidenceFromRoute (decision request : Json) (binding : Dict) : Except PyError Json :=
  (serialize p.deps.py decision p.writer).bind fun decisionJson =>
    (serialize p.deps.py request p.writer).bind fun requestJson =>
      (validateEvidence p (evidenceOf decisionJson requestJson binding)).map fun _ =>
        evidenceOf decisionJson requestJson binding

/-- The string that `commitment` hashes. -/
def commitInput (evidence : Json) (salt : Bytes) : Except PyError Bytes :=
  (canonical p evidence).map fun raw => utf8Bytes domainV4 ++ raw ++ salt

def commitment (evidence : Json) (salt : Bytes) : Except PyError PyStr :=
  (validateEvidence p evidence).bind fun _ =>
    if salt.length ≠ 32 then fail "invalid_salt"
    else (commitInput p evidence salt).map fun raw => hexText (sha256 raw)

/-- The public leaf of an event. -/
def publicLeaf (typ ts nonce commitment : PyStr) : Dict :=
  [("type", .str typ), ("ts", .str ts), ("nonce", .str nonce), ("commitment", .str commitment)]

/-- The reveal of an event. -/
def reveal (ts nonce commitment : PyStr) (evidence : Json) (salt : Bytes) : Dict :=
  [("type", .str typeV4), ("ts", .str ts), ("nonce", .str nonce), ("commitment", .str commitment),
    ("event_version", .str typeV4), ("evidence", evidence), ("salt", .str (hexText salt))]

/-- `event`, at the time that `utc_minutes_z` writes: the public leaf and the reveal. -/
def event (evidence : Json) (ts : PyStr) (salt : Bytes) (nonce : PyStr) :
    Except PyError (Dict × Dict) :=
  (commitment p evidence salt).bind fun c =>
    (assertPublic p (publicLeaf typeV4 ts nonce c)).map fun leaf =>
      (leaf, reveal ts nonce c evidence salt)

/-- `verify_reveal` of `route_v4.py`. -/
def verifyReveal (expected : PyStr) (reveal : Dict) : Except PyError Bool :=
  if !keysExactly ["type", "ts", "nonce", "commitment", "event_version", "evidence", "salt"]
      reveal then .ok false
  else if !((reveal.get "event_version").eqStr typeV4 && (reveal.get "type").eqStr typeV4 &&
      (reveal.get "commitment").eqStr expected) then .ok false
  else
    match reveal.get "salt" with
    | .str salt =>
        if !isHex64 (.str salt) then .ok false
        else
          match commitment p (reveal.get "evidence") ((fromHex salt).getD []) with
          | .ok c => .ok (c == expected)
          | .error e =>
              if e.cls.isA .valueError || e.cls.isA .typeError || e.cls.isA .keyError then .ok false
              else .error e
    | _ => .ok false

end Evidence

/-! ## Receipts -/

def receiptError (msg : String) : PyError := ⟨.receiptError, msg⟩

/-- `int(value)`. -/
def intOf (py : Interp) : Json → Except PyError ℤ
  | .bool b => .ok (if b then 1 else 0)
  | .int n => .ok n
  | .float x => x.toInt
  | .str s => py.int s
  | _ => .error ⟨.typeError, "int() argument must be a string or a number"⟩

/-- The values a comprehension reads from `value or []`. -/
def pathItems : Json → Option (List Json)
  | .arr items => some items
  | .obj members => some (members.map fun m => .str m.1)
  | .str s => some (s.map fun c => .str [c])
  | value => if value.truthy then none else some []

/-- `base64.b64decode(value, validate=True)`. -/
def decodeStep : Json → Option Bytes
  | .str s => b64decodeStrict s
  | _ => none

/-- `bytes.fromhex(value or "")`. -/
def leafDigest (value : Json) : Except PyError Bytes :=
  match value.or (.str []) with
  | .str s =>
      match fromHex s with
      | some raw => .ok raw
      | none => .error (receiptError "corrupt leaf hash")
  | _ => .error ⟨.typeError, "fromhex() argument must be str"⟩

/-- Failures of the expected kinds, as a `ReceiptError`. -/
def orReceiptError {α : Type} (msg : String) : Except PyError α → Except PyError α
  | .ok a => .ok a
  | .error e => if e.cls.isA .valueError || e.cls.isA .typeError then .error (receiptError msg) else .error e

section Receipts

variable (p : Platform) {Key : Type} (ed : Ed25519 Key)

/-- `verify_signed_note` of a value.  Its exceptions are all `ValueError`s. -/
def verifyNote (note : Json) (vkey : PyStr) : Except PyError Verified :=
  match note with
  | .str text => orReceiptError "checkpoint verify failed" (verifySignedNote ed p.deps.py text vkey)
  | _ => .error (receiptError "checkpoint verify failed")

/-- `verify_receipt`.  `stored` is the key of the store or of the trust descriptor. -/
def verifyReceipt (stored : PyStr) (receipt : Dict) (vkey : PyStr) : Except PyError Verified :=
  let vk := if vkey = [] then stored else vkey
  if !(receipt.get "checkpoint").truthy || vk.isEmpty then
    .error (receiptError "missing checkpoint or vkey")
  else (verifyNote p ed (receipt.get "checkpoint") vk).bind fun verified =>
    (intOf p.deps.py (receipt.get "index")).bind fun idx =>
      match (pathItems (receipt.get "inclusion_path")).bind (·.mapM decodeStep) with
      | none => .error (receiptError "corrupt inclusion path")
      | some path =>
          (leafDigest (receipt.get "leaf_hash")).bind fun leaf =>
            if verifyInclusion idx leaf path verified.body.root verified.body.treeSize then
              .ok verified
            else .error (receiptError "corrupt proof")

/-- A field of a reveal that is a text. -/
def textField (reveal : Dict) (key : PyStr) : Option PyStr :=
  match reveal.get key with
  | .str s => some s
  | _ => none

/-- The public leaf that a reveal belongs to. -/
def revealedLeaf (version : Json) (c : PyStr) (reveal : Dict) : Dict :=
  [("commitment", .str (p.deps.py.uni.lower c)), ("nonce", reveal.get "nonce"),
    ("ts", reveal.get "ts"), ("type", version)]

/-- `verify_route_receipt` of dictionaries. -/
def verifyRouteReceipt (stored : PyStr) (receipt reveal : Dict) (vkey : PyStr) :
    Except PyError Verified :=
  let version := (reveal.get "event_version").or (reveal.get "type")
  if version.isContainer then .error ⟨.typeError, "unhashable type"⟩
  else if !isAmong ["402signal.route_decision.v3", "402signal.route_decision.v4"] version then
    .error (receiptError "unsupported event version")
  else
    match textField reveal "commitment" with
    | none => .error (receiptError "missing commitment")
    | some c =>
        if c.length ≠ 64 then .error (receiptError "missing commitment")
        else if !(reveal.get "evidence").isObj || !(reveal.get "salt").truthy ||
            !(reveal.get "nonce").truthy || !(reveal.get "ts").truthy then
          .error (receiptError "missing reveal fields")
        else
          (if version.eqStr typeV4 then verifyReveal p c reveal
            else verifyRevealV3 p.deps.py p.writer c reveal).bind fun opened =>
            if !opened then .error (receiptError "reveal mismatch")
            else
              match textField receipt "leaf_hash" with
              | none => .error (receiptError "missing leaf hash")
              | some leafHex =>
                  if leafHex.isEmpty then .error (receiptError "missing leaf hash")
                  else
                    (orReceiptError "invalid public leaf"
                      (leafBytes p (revealedLeaf p version c reveal))).bind fun body =>
                      if hexText (leafHash body) ≠ p.deps.py.uni.lower leafHex then
                        .error (receiptError "leaf hash mismatch")
                      else (verifyReceipt p ed stored receipt vkey).bind fun checked =>
                        if !version.eqStr typeV4 then .ok checked
                        else if vkey.isEmpty then .error (receiptError "untrusted log origin")
                        else (vkeyParse vkey).bind fun key =>
                          if checked.body.origin ≠ key.name then
                            .error (receiptError "untrusted log origin")
                          else
                            match receipt.get "index" with
                            | .int _ => .ok checked
                            | _ => .error (receiptError "invalid receipt index")

end Receipts

/-! ## The route -/

/-- `value[key]`. -/
def item (value : Json) (key : PyStr) : Except PyError Json :=
  match value with
  | .obj d =>
      match Dict.get? d key with
      | some v => .ok v
      | none => .error ⟨.keyError, "missing key"⟩
  | _ => .error ⟨.typeError, "indices must be integers"⟩

/-- The exceptions of `verify_route`: a reason stays, and the others name none. -/
def untrusted {α : Type} : Except PyError α → Except PyError α
  | .ok a => .ok a
  | .error e =>
      if e.cls.isA .bindingError then .error e
      else if e.cls.isA .keyError || e.cls.isA .typeError || e.cls.isA .valueError ||
          e.cls.isA .receiptError then fail "untrusted_receipt"
      else .error e

/-- The current challenge of a seller, and the request it answers. -/
structure Challenge where
  status : Json
  envelope : Json
  url : Json
  method : Json
  body : Bytes

section Route

variable (p : Platform) {Key : Type} (ed : Ed25519 Key) (stored : PyStr)

/-- A value that must be a dictionary, for `verify_route_receipt`. -/
def asDict (value : Json) : Except PyError Dict :=
  match value with
  | .obj d => .ok d
  | _ => .error (receiptError "invalid receipt")

/-- `strict_json` of a value. -/
def strictJsonOf : Json → Except PyError Json
  | .str text => strictJsonText p text
  | _ => fail "invalid_json"

/-- The part of `verify_route` behind the receipt. -/
def verifyTerms (evidence : Json) (result : Dict) (expectedRequest : Json)
    (challenge : Challenge) (now : ℤ) : Except PyError Json :=
  (walk true levels expectedRequest).bind fun _ =>
    (item evidence "request_json").bind fun requestJson =>
      (strictJsonOf p requestJson).bind fun request =>
        if !requestEqual request expectedRequest then fail "request_mismatch"
        else (item evidence "binding").bind fun binding =>
          (canonical p (result.get "decision_binding")).bind fun announced =>
            (canonical p binding).bind fun bound =>
              if announced ≠ bound then fail "binding_mismatch"
              else verifyChallenge p binding challenge.status challenge.envelope challenge.url
                challenge.method challenge.body now

def verifyRoute (result : Dict) (expectedRequest : Json) (vkey : PyStr) (challenge : Challenge)
    (now : ℤ) : Except PyError Json :=
  if vkey.isEmpty then fail "untrusted_receipt"
  else untrusted
    ((item (.obj result) "pq_trust").bind fun trust =>
      (item trust "transparency").bind fun tr =>
        (item tr "reveal").bind fun reveal =>
          (item reveal "event_version").bind fun version =>
            if !version.eqStr typeV4 then fail "unsupported_receipt"
            else
              (item tr "receipt").bind fun receipt =>
                (asDict receipt).bind fun receipt =>
                  (asDict reveal).bind fun reveal =>
                    (verifyRouteReceipt p ed stored receipt reveal vkey).bind fun _ =>
                      verifyTerms p (reveal.get "evidence") result expectedRequest challenge now)

end Route

end Signal402.RouteReceipt
