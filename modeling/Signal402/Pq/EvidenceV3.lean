import Signal402.Pq.CandidateSet
import Signal402.Route.Policy

/-!
# Committed evidence (`pq/events.py`)

The evidence of a routing decision is private: the public leaf of the log holds a commitment
to it, and the reveal that the customer keeps holds the evidence and the salt.
`canonicalizePrivateEvidenceV3` brings evidence into the one form that is hashed.
-/

namespace Signal402.EvidenceV3

open Jcs CandidateSet
open Sha256 (sha256)

/-- A `PrivacyError`, which is a `ValueError`. -/
def privacyError (msg : String) : PyError := .valueError msg

/-- `TYPE_ROUTE_DECISION_V3`. -/
def typeV3 : PyStr := "402signal.route_decision.v3"

/-- `TYPE_ROUTE_DECISION_V4`. -/
def typeV4 : PyStr := "402signal.route_decision.v4"

/-- `SALT_BYTES`. -/
def saltBytes : ℕ := 32

/-- `V3_DOMAIN`. -/
def domainV3 : PyStr := "402signal.route_decision.v3\x00"

/-- `_FORBIDDEN`. -/
def forbiddenNames : List String :=
  ["need", "prompt", "wallet", "wallets", "payer", "payers", "payer_addresses",
    "unique_payer_addresses", "payTo", "address", "addresses", "body", "api_body",
    "request_body", "response_body", "merchant_body", "PAYMENT-SIGNATURE", "X-PAYMENT"]

/-! ## The form that is hashed -/

/-- What evidence compares. -/
structure Comparison where
  candidateCount : Option ℤ
  candidateSetDigest : Option PyStr
  observationBatchHash : Option PyStr
  probeBatchId : Option PyStr

/-- What evidence decides. -/
structure Decision where
  missReason : Option PyStr
  outcome : Option PyStr
  winnerUrl : Option PyStr

/-- What evidence observes. -/
structure Observation where
  challengeObserved : Option Bool
  httpStatus : Option ℤ
  invocable : Option Bool
  latencyMs : Option ℤ
  live : Option Bool
  observedAt : Option PyStr
  payable : Option Bool

/-- The policy of evidence. -/
structure PolicyPart where
  constraints : Dict
  objective : Option PyStr
  unresolved : List PyStr

/-- The request of evidence. -/
structure RequestPart where
  need : Option PyStr
  url : Option PyStr

/-- The scoring model of evidence. -/
structure Scoring where
  modelHash : Option PyStr
  modelId : Option PyStr

/-- What `canonicalize_private_evidence_v3` returns. -/
structure Evidence where
  comparison : Comparison
  decision : Decision
  observation : Observation
  policy : PolicyPart
  request : RequestPart
  scoring : Scoring
  selectedPayment : Option SlimPayment

/-- The evidence as a dictionary. -/
def Evidence.toDict (e : Evidence) : Dict :=
  [("comparison", .obj [("candidate_count", .ofInt? e.comparison.candidateCount),
      ("candidate_set_digest", .ofText e.comparison.candidateSetDigest),
      ("observation_batch_hash", .ofText e.comparison.observationBatchHash),
      ("probe_batch_id", .ofText e.comparison.probeBatchId)]),
    ("decision", .obj [("miss_reason", .ofText e.decision.missReason),
      ("outcome", .ofText e.decision.outcome), ("winner_url", .ofText e.decision.winnerUrl)]),
    ("evidence_version", .int 1),
    ("observation", .obj [("challenge_observed", ofBool? e.observation.challengeObserved),
      ("http_status", .ofInt? e.observation.httpStatus),
      ("invocable", ofBool? e.observation.invocable),
      ("latency_ms", .ofInt? e.observation.latencyMs), ("live", ofBool? e.observation.live),
      ("observed_at", .ofText e.observation.observedAt),
      ("payable", ofBool? e.observation.payable)]),
    ("policy", .obj [("constraints", .obj e.policy.constraints),
      ("objective", .ofText e.policy.objective),
      ("unresolved", .arr (e.policy.unresolved.map .str))]),
    ("request", .obj [("need", .ofText e.request.need), ("url", .ofText e.request.url)]),
    ("scoring", .obj [("model_hash", .ofText e.scoring.modelHash),
      ("model_id", .ofText e.scoring.modelId)]),
    ("selected_payment", (e.selectedPayment.map SlimPayment.toJson).getD .null)]

section Canonical

variable (py : Interp)

/-- `_hex64_or_none`. -/
def hex64OrNone (val : Json) : Except PyError (Option PyStr) :=
  (strOrNone py val).map fun text? => text?.bind fun text =>
    let low := py.uni.lower text
    if low.length = 64 ∧ (fromHex low).isSome then some low else none

/-- A key that `_forbid` rejects and `_constraints_object` drops. -/
def isPrivateName (key : PyStr) : Bool :=
  let low := py.uni.lower key
  (forbiddenNames.map fun name => PyStr.lower name).contains low ||
    PyStr.hasInfix low "prompt" || low == "need"

/-- `_constraints_object`. -/
def constraintsObject (raw : Json) : Dict :=
  raw.dictOrEmpty.filter fun m => !isPrivateName py m.1 &&
    !(["wallet", "wallets", "PAYMENT-SIGNATURE", "X-PAYMENT", "authorization"].map
      PyStr.ofString).contains m.1

/-- `[str(x) for x in unresolved if x is not None and str(x).strip()]`. -/
def unresolvedTexts (raw : Json) : Except PyError (List PyStr) :=
  match raw with
  | .arr items =>
      ((items.filter fun x => !x.isNull).mapM (strOf py)).map fun texts =>
        texts.filter fun t => !t.strip.isEmpty
  | _ => .ok []

/-- The comparison of evidence. -/
def comparisonPart (cmp : Dict) : Except PyError Comparison := do
  let candidateCount ← intOrNone py (cmp.get "candidate_count")
  let candidateSetDigest ← hex64OrNone py (cmp.get "candidate_set_digest")
  let observationBatchHash ← hex64OrNone py (cmp.get "observation_batch_hash")
  let probeBatchId ← strOrNone py (cmp.get "probe_batch_id")
  return { candidateCount, candidateSetDigest, observationBatchHash, probeBatchId }

/-- The decision of evidence. -/
def decisionPart (dec : Dict) : Except PyError Decision := do
  let missReason ← strOrNone py (dec.get "miss_reason")
  let outcome ← strOrNone py (dec.get "outcome")
  let winnerUrl ← strOrNone py (dec.get "winner_url")
  return { missReason, outcome, winnerUrl }

/-- The observation of evidence. -/
def observationPart (obs : Dict) : Except PyError Observation := do
  let httpStatus ← intOrNone py (obs.get "http_status")
  let latencyMs ← intOrNone py (obs.get "latency_ms")
  let observedAt ← strOrNone py (obs.get "observed_at")
  return {
    challengeObserved := boolOrNone py (obs.get "challenge_observed")
    httpStatus
    invocable := boolOrNone py (obs.get "invocable")
    latencyMs
    live := boolOrNone py (obs.get "live")
    observedAt
    payable := boolOrNone py (obs.get "payable") }

/-- The policy of evidence, whose unresolved texts were read before. -/
def policyPart (pol : Dict) (unresolved : List PyStr) : Except PyError PolicyPart := do
  let objective ← strOrNone py (pol.get "objective")
  return { constraints := constraintsObject py (pol.get "constraints"), objective, unresolved }

/-- The request of evidence. -/
def requestPart (req : Dict) : Except PyError RequestPart := do
  let need ← strOrNone py (req.get "need")
  let url ← strOrNone py (req.get "url")
  return { need, url }

/-- The scoring of evidence. -/
def scoringPart (sco : Dict) : Except PyError Scoring := do
  let modelHash ← hex64OrNone py (sco.get "model_hash")
  let modelId ← strOrNone py (sco.get "model_id")
  return { modelHash, modelId }

/-- The selected payment of evidence. -/
def paymentPart (pay : Dict) : Except PyError (Option SlimPayment) :=
  if pay.isEmpty then .ok none else (slimPayment py pay).map some

/-- `canonicalize_private_evidence_v3` of a dictionary. -/
def canonicalizePrivateEvidenceV3 (raw : Dict) : Except PyError Evidence :=
  let version := raw.get "evidence_version"
  if !(version.eqInt 1 || version.eqStr "1") then
    .error (privacyError "v3 evidence_version must be 1")
  else do
    let unresolved ← unresolvedTexts py ((raw.get "policy").dictOrEmpty.get "unresolved")
    let selectedPayment ← paymentPart py (raw.get "selected_payment").dictOrEmpty
    let comparison ← comparisonPart py (raw.get "comparison").dictOrEmpty
    let decision ← decisionPart py (raw.get "decision").dictOrEmpty
    let observation ← observationPart py (raw.get "observation").dictOrEmpty
    let policy ← policyPart py (raw.get "policy").dictOrEmpty unresolved
    let request ← requestPart py (raw.get "request").dictOrEmpty
    let scoring ← scoringPart py (raw.get "scoring").dictOrEmpty
    return { comparison, decision, observation, policy, request, scoring, selectedPayment }

end Canonical

/-! ## Commitments -/

section Commit

variable (py : Interp) (writer : ℕ)

/-- The string that `commitment_hash_v3` hashes. -/
def commitInputV3 (e : Evidence) (salt : Bytes) : Except PyError Bytes :=
  (canonicalize py writer (.obj e.toDict)).map fun raw => utf8Bytes domainV3 ++ raw ++ salt

def commitmentHashV3 (evidence : Dict) (salt : Bytes) : Except PyError PyStr :=
  if salt.length ≠ saltBytes then .error (privacyError "v3 salt must be 32 bytes")
  else (canonicalizePrivateEvidenceV3 py evidence).bind fun e =>
    (commitInputV3 py writer e salt).map fun raw => hexText (sha256 raw)

def revealBundleV3 (evidence : Dict) (salt : Bytes) (ts nonce commitment : PyStr) :
    Except PyError Dict :=
  if salt.length ≠ saltBytes then .error (privacyError "v3 salt must be 32 bytes")
  else (canonicalizePrivateEvidenceV3 py evidence).map fun e =>
    [("commitment", .str commitment), ("event_version", .str typeV3), ("evidence", .obj e.toDict),
      ("nonce", .str nonce), ("salt", .str (hexText salt)), ("ts", .str ts)]

/-- The commitment of a reveal is the one of the leaf, when it names one. -/
def namesCommitment (commitment : PyStr) : Json → Bool
  | .null => true
  | .str expected => py.uni.lower expected == py.uni.lower commitment
  | _ => false

/-- `verify_reveal_v3`.  Only the exceptions of the hash are caught. -/
def verifyRevealV3 (commitment : PyStr) (reveal : Dict) : Except PyError Bool :=
  if commitment.length ≠ 64 then .ok false
  else if !((reveal.get "event_version").or (reveal.get "type")).eqStr typeV3 then .ok false
  else (if (reveal.get "salt").truthy then strOf py (reveal.get "salt") else .ok []).bind fun text =>
    match fromHex text, reveal.get "evidence" with
    | some salt, .obj evidence =>
        if salt.length ≠ saltBytes then .ok false
        else if !namesCommitment py commitment (reveal.get "commitment") then .ok false
        else
          match commitmentHashV3 py writer evidence salt with
          | .ok recomputed => .ok (recomputed == py.uni.lower commitment)
          | .error e => if e.cls.isA .valueError || e.cls.isA .typeError then .ok false else .error e
    | _, _ => .ok false

end Commit

end Signal402.EvidenceV3
