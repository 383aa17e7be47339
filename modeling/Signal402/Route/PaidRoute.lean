import Signal402.Base.Text
import Signal402.Route.Deadline

/-!
# Executing a paid request (`route.py`)

`paidExecute` is `_paid_execute` over the functions it calls (`Calls`), in any
monad with exceptions: a caller that reasons about interleavings makes each of
them a step with an arbitrary result, and one that follows a single request puts
the functions themselves.  Dictionaries are mutated in the source; here every
function returns the changed one.
-/

namespace Signal402.Route

/-- `(code, body, extra headers)`. -/
structure Outcome where
  code : ℤ
  body : Json
  extra : Option Dict

/-- The fields of a `FacilitatorResult` that the route reads. -/
structure Settlement where
  ok : Bool
  body : Json
  ambiguous : Bool

/-- The functions `_paid_execute` calls; each may raise. -/
structure Calls (M : Type → Type) where
  monotonic : M ℚ
  railOfAccept : Json → M PyStr
  requiredPair : PyStr → PyStr → Option Json → M (Dict × Dict)
  verify : Json → Json → ℚ → M Bool
  runProbe : Json → ℚ → M (ℤ × Json)
  /-- `_billable_winner` beyond its test of the code. -/
  billableGate : Json → Json → M Bool
  buildBinding : Json → Json → M Json
  evidenceFromRoute : Json → Json → M Unit
  settle : Json → Json → ℚ → M Settlement
  sanitizeSettlementReceipt : Json → PyStr → M (Option Json)
  paymentResponseHeader : Json → M Json
  markBatchSettled : Json → M Unit
  attachPqTrust : ℤ → Json → Json → M Json
  logSettle : Bool → PyStr → M Unit
  logSettleSkipped : PyStr → M Unit

/-! ## Outcomes -/

/-- `None`, for an optional flag that is not known. -/
def ofFlag : Option Bool → Json
  | none => .null
  | some b => .bool b

def billing (rail : PyStr) (settlementAttempted settled : Option Bool)
    (settlementState : PyStr) : Json :=
  .obj
    [("model", .str "success_only_v1"),
      ("condition", .str "live_eligible_route_found"),
      ("asset", .str "USDC"),
      ("amount_atomic", .str "3000"),
      ("display_amount", .str "$0.003"),
      ("rail", .str (if rail.isEmpty then "unknown" else rail)),
      ("settlement_attempted", ofFlag settlementAttempted),
      ("settled", ofFlag settled),
      ("settlement_state", .str settlementState)]

def unknownOutcome (rail : PyStr) (attempted : Option Bool) : Outcome :=
  { code := 503
    body := .obj
      [("error", .str
          "Routing authorization outcome unknown; do not retry this authorization"),
        ("live", .bool false),
        ("payable", .bool false),
        ("invocable", .bool false),
        ("selected_payment", .null),
        ("miss_reason", .str "settlement_unknown"),
        ("billing", billing rail attempted none "unknown")]
    extra := none }

def invalidNeed (error : PyStr) : Outcome :=
  { code := 400
    body := .obj
      [("error", .str error), ("miss_reason", .str "invalid_need"), ("live", .bool false),
        ("invocable", .bool false)]
    extra := none }

/-- The text of a field, empty when it is absent; `none` for another type. -/
def textField (body : Dict) (key : PyStr) : Option PyStr :=
  match body.get key with
  | .null => some []
  | .str s => some s.strip
  | _ => none

/-- Body errors after a successful verify. -/
def badRequest (body : Dict) : Option Outcome :=
  match textField body "need", textField body "url" with
  | none, _ => some (invalidNeed "need must be a string")
  | some _, none => some (invalidNeed "url must be a string")
  | some need, some url =>
      if need.isEmpty && url.isEmpty then some (invalidNeed "need or url is required")
      else if !url.isEmpty && !url.lower.startsWith "https://" then
        some (invalidNeed "url must be https")
      else none

/-! ## Misses -/

/-- `obs[key] = value` when `obs` has no such fact. -/
def keepFact (obs : Dict) (key : PyStr) (value : Json) : Dict :=
  if (obs.get key).isNull && !value.isNull then obs.set key value else obs

/-- Keep current-observation facts when a miss zeros decision fields. -/
def preserveObservedFacts (result : Dict) : Dict :=
  let obs := ((result.get "observed").asObj?).getD []
  let obs := keepFact obs "live" (.bool (result.get "live").truthy)
  let obs := keepFact obs "payable" (result.get "payable")
  let obs := keepFact obs "invocable" (result.get "invocable")
  let obs := keepFact obs "http_status" (result.get "status")
  let obs := keepFact obs "latency_ms" (result.get "latency_ms")
  result.set "observed" (.obj obs)

/-- Turn a purported malformed winner into a typed fail-closed miss. -/
def downgradeUnbillableResult (result : Json) : Dict :=
  let out := (result.asObj?).getD []
  let out := out.set "error" (.str "route result failed billable winner validation")
  let out := out.set "miss_reason" ((out.get "miss_reason").or (.str "constraints_unmet"))
  let out := out.set "stop_reason" (.str "constraints_unmet")
  let out := preserveObservedFacts out
  let out := out.set "live" (.bool false)
  let out := out.set "payable" (.bool false)
  let out := out.set "invocable" (.bool false)
  out.set "selected_payment" .null

/-- A result that `_paid_execute` may not report as a miss as it is. -/
def purportsWinner (code : ℤ) (result : Json) : Bool :=
  code == 200 ||
    match result.asObj? with
    | none => false
    | some r =>
        (r.get "live").isTrue || (r.get "payable").isTrue ||
          !(r.get "selected_payment").isNull

/-- The code and the body of a miss, before its billing is set. -/
def missResult (code : ℤ) (result : Json) : ℤ × Dict :=
  if purportsWinner code result then (503, downgradeUnbillableResult result)
  else
    match result.asObj? with
    | none => (503, downgradeUnbillableResult (.obj []))
    | some r => (code, r)

/-! ## The transparency gate -/

def requireTransparency (body : Json) : Bool :=
  match body.asObj? with
  | none => false
  | some b =>
      (b.get "require_route_binding").isTrue ||
        match b.get "require_transparency" with
        | .bool raw => raw
        | .str raw => [("1" : PyStr), "true", "yes"].contains raw.strip.lower
        | _ => false

/-- `(x or {}).get(key)`. -/
def getOrEmpty (x : Json) (key : PyStr) : Except PyError Json :=
  if x.truthy then
    match x.asObj? with
    | some members => .ok (members.get key)
    | none => .error ⟨.attributeError, "object has no attribute 'get'"⟩
  else .ok .null

/-- `str(x or "") == text`, for a nonempty text that is no number, list or
dictionary. -/
def readsAs (x : Json) (text : PyStr) : Bool := x.eqStr text

/-- True only for a durable signed leaf. -/
def transparencyOk (result : Json) : Except PyError Bool := do
  let tr ←
    match result.asObj? with
    | none => pure .null
    | some r => getOrEmpty (r.get "pq_trust") "transparency"
  let status ← getOrEmpty tr "status"
  let state ← getOrEmpty tr "state"
  if readsAs status "logged_uncheckpointed" || readsAs status "unavailable" then return false
  else if readsAs status "pending" || readsAs state "checkpoint_signed" then
    let receipt ← getOrEmpty tr "receipt"
    if receipt.truthy then return (← getOrEmpty receipt "checkpoint").truthy
    else return false
  else return false

/-- `extra or None`. -/
def nonEmpty (extra : Dict) : Option Dict := if extra.isEmpty then none else some extra

/-- The outcome of a settled request whose receipt is missing though required. -/
def unprovable (attached : Json) (extra : Dict) : Outcome :=
  let field (key : PyStr) : Json := (attached.asObj?.getD []).get key
  { code := 503
    body := .obj
      [("error", .str "transparency receipt unavailable"),
        ("live", .bool false),
        ("invocable", .bool false),
        ("miss_reason", field "miss_reason"),
        ("billing", field "billing"),
        ("pq_trust", field "pq_trust")]
    extra := nonEmpty extra }

/-! ## Paid execution -/

section Execute

variable {M : Type → Type} [Monad M] [MonadExceptOf PyError M] (calls : Calls M)

/-- A 402 with the billing of a rejected payment. -/
def rejected (accept : Json) (resourceUrl : PyStr) (bazaar : Option Json) (error : PyStr)
    (attempted : Bool) : M Outcome := do
  let (required, extra) ← calls.requiredPair resourceUrl error bazaar
  let rail ← calls.railOfAccept accept
  return ⟨402, .obj (required.set "billing"
    (billing rail (some attempted) (some false) "rejected")), some extra⟩

def billableWinner (body : Json) (code : ℤ) (result : Json) : M Bool :=
  if code ≠ 200 ∨ result.asObj? = none then pure false else calls.billableGate body result

/-- A miss that is not paid for. -/
def skipped (rail : PyStr) (code : ℤ) (result : Dict) : M Outcome := do
  calls.logSettleSkipped rail
  return ⟨code, .obj (result.set "billing"
    (billing rail (some false) (some false) "not_attempted")), none⟩

/-- Build the decision binding and prevalidate the full evidence; `none` when
they raise one of the caught exceptions. -/
def bindDecision (body : Json) (result : Dict) : M (Option Dict) :=
  if ((body.asObj?.getD []).get "require_route_binding").isTrue then
    tryCatch
      (do
        let binding ← calls.buildBinding (.obj result) body
        let bound := result.set "decision_binding" binding
        calls.evidenceFromRoute (.obj bound) body
        return some bound)
      fun e =>
        if e.cls.isA .valueError || e.cls.isA .typeError || e.cls.isA .keyError then
          pure none
        else throw e
  else pure (some result)

/-- What a settled request returns: the log receipt is attached to the result. -/
def deliver (body : Json) (code : ℤ) (result : Dict) (extra : Dict) : M Outcome := do
  calls.markBatchSettled (result.get "batch_id")
  let attached ← calls.attachPqTrust code (.obj (result.erase "binding_observation"))
    (.obj (body.asObj?.getD []))
  let proved ←
    if requireTransparency body then MonadExcept.ofExcept (transparencyOk attached)
    else pure true
  if proved then return ⟨code, attached, nonEmpty extra⟩
  else return unprovable attached extra

/-- The economic action for a billable winner. -/
def settleWinner (body parsed accept : Json) (resourceUrl : PyStr) (bazaar : Option Json)
    (paidDeadline : ℚ) (rail : PyStr) (code : ℤ) (result : Dict) : M Outcome := do
  let settleT := Deadline.settleTimeout paidDeadline (← calls.monotonic)
  if settleT ≤ 0 then
    let out ← rejected calls accept resourceUrl bazaar "Payment settlement not attempted" false
    calls.logSettleSkipped rail
    return out
  else
    let settle ← calls.settle parsed accept settleT
    if !settle.ok then
      if settle.ambiguous then
        calls.logSettle false rail
        return unknownOutcome rail (some true)
      else
        let out ← rejected calls accept resourceUrl bazaar "Payment settlement failed" true
        calls.logSettle false rail
        return out
    else
      match ← calls.sanitizeSettlementReceipt settle.body rail with
      | none =>
          calls.logSettle false rail
          return unknownOutcome rail (some true)
      | some receipt =>
          let header ← calls.paymentResponseHeader receipt
          calls.logSettle true rail
          deliver calls body code
            (result.set "billing" (billing rail (some true) (some true) "settled"))
            [("PAYMENT-RESPONSE", header)]

/-- After a verified payment: probe, and settle for a billable winner only. -/
def routeVerified (body parsed accept : Json) (resourceUrl : PyStr) (bazaar : Option Json)
    (paidDeadline : ℚ) : M Outcome := do
  let (code, result) ← calls.runProbe body (Deadline.probeDeadline paidDeadline)
  if code = 400 then return ⟨400, result, none⟩
  else
    let rail ← calls.railOfAccept accept
    if !(← billableWinner calls body code result) then
      let (code, miss) := missResult code result
      skipped calls rail code miss
    else
      match ← bindDecision calls body (result.asObj?.getD []) with
      | none =>
          let miss := ((downgradeUnbillableResult result).erase "decision_binding").set
            "binding_error" (.str "route_binding_unavailable")
          skipped calls rail 503 miss
      | some bound =>
          settleWinner calls body parsed accept resourceUrl bazaar paidDeadline rail code bound

def paidExecute (body parsed accept : Json) (resourceUrl : PyStr) (bazaar : Option Json)
    (paidDeadline : ℚ) : M Outcome := do
  let verifyT := Deadline.verifyTimeout paidDeadline (← calls.monotonic)
  if verifyT ≤ 0 then
    rejected calls accept resourceUrl bazaar "Payment verification failed" false
  else if !(← calls.verify parsed accept verifyT) then
    rejected calls accept resourceUrl bazaar "Payment verification failed" false
  else
    match badRequest (body.asObj?.getD []) with
    | some bad => return bad
    | none => routeVerified calls body parsed accept resourceUrl bazaar paidDeadline

end Execute

end Signal402.Route
