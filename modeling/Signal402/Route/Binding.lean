import Signal402.Base.Base64
import Signal402.Base.Hex
import Signal402.Base.Url
import Signal402.Lib.Sha256
import Signal402.Pq.Jcs
import Signal402.Route.Payable

/-!
# Proof-carrying routes (`route_binding.py`)

A binding names the request a route was observed for, the digest of the whole challenge that
was observed, the entry of it that the route selected, and how long that holds.  `build`
makes it of a billable winner; `verifyChallenge` compares it with the challenge a seller
makes later and returns the selected entry of that.

What is hashed is canonical JSON of safe integers, so that a digest names one value.
-/

namespace Signal402.RouteBinding

open Jcs Payment Select
open Sha256 (sha256)

/-- `MODEL`. -/
def model : PyStr := "proof_carrying_route_v1"

/-- `MAX_JSON_BYTES`. -/
def maxJsonBytes : ℕ := 64 * 1024

/-- `MAX_DEPTH`. -/
def maxDepth : ℕ := 24

/-- `MAX_SAFE_INTEGER`. -/
def maxSafeInteger : ℕ := 2 ^ 53 - 1

/-- `MAX_TTL`. -/
def maxTtl : ℤ := 120

/-- `_fail`. -/
def fail {α : Type} (reason : String) : Except PyError α := .error ⟨.bindingError, reason⟩

/-- The exceptions that `strict_json` and `canonical` turn into a reason. -/
def guarded {α : Type} : Except PyError α → Except PyError α
  | .ok a => .ok a
  | .error e =>
      if e.cls.isA .valueError || e.cls.isA .typeError || e.cls.isA .recursionError then
        fail "invalid_json"
      else .error e

/-! ## The JSON profile -/

/-- `_walk`, with the levels that are left: none when the depth exceeds `MAX_DEPTH`. -/
def walk (floats : Bool) : ℕ → Json → Except PyError Unit
  | 0, _ => fail "invalid_json"
  | left + 1, value =>
      match value with
      | .str s => if hasLoneSurrogate s then fail "invalid_json" else .ok ()
      | .null => .ok ()
      | .bool _ => .ok ()
      | .int n => if n.natAbs ≤ maxSafeInteger then .ok () else fail "unsupported_json_value"
      | .float x =>
          if floats && x.isFinite && x.unpack.abs.le (PyFloat.exact maxSafeInteger) then .ok ()
          else fail "unsupported_json_value"
      | .arr items => items.forM (walk floats left)
      | .obj members => members.forM fun m =>
          (walk floats left (.str m.1)).bind fun _ => walk floats left m.2

/-- The levels of a value at depth 0. -/
def levels : ℕ := maxDepth + 1

/-- What the functions take from the interpreter: the libraries of the route, the functions
of URLs, the levels that recursion leaves a writer and a reader of JSON, and the setting of
the time a binding lives. -/
structure Platform where
  deps : Deps
  url : UrlLib
  writer : ℕ
  reader : ℕ
  ttlSetting : Option PyStr

section Profile

variable (p : Platform)

/-- `strict_json` of bytes. -/
def strictJson (raw : Bytes) : Except PyError Json :=
  if maxJsonBytes < raw.length then fail "invalid_json"
  else guarded ((parse p.reader raw).bind fun value => (walk true levels value).map fun _ => value)

/-- `strict_json` of a text. -/
def strictJsonText (raw : PyStr) : Except PyError Json :=
  if maxJsonBytes < raw.length then fail "invalid_json"
  else guarded ((utf8Encode raw).bind fun encoded =>
    if maxJsonBytes < encoded.length then fail "invalid_json"
    else (parseText p.reader raw).bind fun value =>
      (walk true levels value).map fun _ => value)

def canonical (value : Json) : Except PyError Bytes :=
  guarded ((walk false levels value).bind fun _ =>
    (canonicalize p.deps.py p.writer value).bind fun raw =>
      if maxJsonBytes < raw.length then fail "invalid_json" else .ok raw)

def digest (value : Json) : Except PyError PyStr :=
  (canonical p value).map fun raw => hexText (sha256 raw)

end Profile

/-! ## Requests -/

/-- What `request_context` returns. -/
structure Context where
  url : PyStr
  method : PyStr
  bodySha256 : PyStr

/-- The context as a dictionary. -/
def Context.toDict (c : Context) : Dict :=
  [("url", .str c.url), ("method", .str c.method), ("body_sha256", .str c.bodySha256)]

/-- `context == request` for a dictionary of these keys. -/
def Context.equals (c : Context) (request : Dict) : Bool :=
  (request.get "url").eqStr c.url && (request.get "method").eqStr c.method &&
    (request.get "body_sha256").eqStr c.bodySha256

/-- The URL is one of a resource that may be bound. -/
def supported (url : PyStr) (parsed : ParsedUrl) : Except PyError Bool :=
  if !PyStr.startsWith url "https://" || parsed.scheme != "https" ||
      (parsed.hostname.getD []).isEmpty || parsed.hasCredentials || !parsed.fragment.isEmpty ||
      url.contains (.ofChar '#') || url.any (fun c => c.val ≤ 32 || 127 ≤ c.val) ||
      url.contains (.ofChar '\\') then .ok false
  else parsed.port.map fun port => port == none || port == some 443

section Requests

variable (p : Platform)

def requestContext (url method : Json) (body : Bytes) : Except PyError Context :=
  match url with
  | .str u =>
      if 4096 < u.length ∨ u.isAscii = false then fail "unsupported_resource"
      else
        match (p.url.urlparse u).bind (supported u) with
        | .ok true =>
            match method with
            | .str m =>
                if m ≠ "GET" ∧ m ≠ "POST" then fail "unsupported_resource"
                else if maxJsonBytes < body.length ∨ (m = "GET" ∧ body ≠ []) then
                  fail "unsupported_resource"
                else .ok { url := u, method := m, bodySha256 := hexText (sha256 body) }
            | _ => fail "unsupported_resource"
        | .ok false => fail "unsupported_resource"
        | .error e => if e.cls.isA .valueError then fail "unsupported_resource" else .error e
  | _ => fail "unsupported_resource"

end Requests

/-- The keys of a dictionary are among these: `not set(d) - names`. -/
def keysAmong (names : List String) (d : Dict) : Bool :=
  d.all fun m => (names.map PyStr.ofString).contains m.1

/-- The keys of a dictionary are these: `set(d) == names`. -/
def keysExactly (names : List String) (d : Dict) : Bool :=
  keysAmong names d && names.all fun name => (d.get? name).isSome

/-- `HEX.fullmatch` of a value that is a text. -/
def isHex64 : Json → Bool
  | .str s => s.length == 64 &&
      s.all fun c => (48 ≤ c.val && c.val ≤ 57) || (97 ≤ c.val && c.val ≤ 102)
  | _ => false

section Envelopes

variable (p : Platform)

/-- The extensions that are known. -/
def knownExtensions : Option Json → Bool
  | none => true
  | some (.obj exts) => keysAmong ["bazaar"] exts
  | _ => false

/-- A list of one to 32 dictionaries. -/
def acceptList : Json → Bool
  | .arr items => decide (1 ≤ items.length) && decide (items.length ≤ 32) && items.all Json.isObj
  | _ => false

/-- The resource of an envelope, when it names one. -/
def knownResource : Json → Bool
  | .null => true
  | .obj resource => keysAmong ["url", "description", "mimeType"] resource
  | _ => false

/-- `type(x) is int and x == n`. -/
def isInt (n : ℤ) : Json → Bool
  | .int m => m == n
  | _ => false

/-- The checks of `validate_envelope` on a dictionary. -/
def envelopeFields (env : Dict) : Except PyError Unit :=
  if !isInt 2 (env.get "x402Version") then fail "unsupported_challenge"
  else if !keysAmong ["x402Version", "accepts", "resource", "error", "extensions"] env then
    fail "unsupported_challenge"
  else if !knownExtensions (env.get? "extensions") then fail "unsupported_extension"
  else if !acceptList (env.get "accepts") then fail "unsupported_challenge"
  else if !knownResource (env.get "resource") then fail "unsupported_resource"
  else .ok ()

def validateEnvelope (env : Json) : Except PyError Unit :=
  (canonical p env).bind fun _ =>
    match env with
    | .obj fields => envelopeFields fields
    | _ => fail "unsupported_challenge"

/-- The challenge in a header of the answer. -/
def headerCandidate : Json → Except PyError Json
  | .str val =>
      if maxJsonBytes < val.length then fail "invalid_json"
      else
        match b64decodeStrict val with
        | none => fail "invalid_json"
        | some decoded =>
            if b64encode decoded ≠ val then fail "invalid_json" else strictJson p decoded
  | _ => fail "invalid_json"

/-- The dictionary looks like a challenge. -/
def looksPayable (d : Dict) : Bool := (d.get? "accepts").isSome || (d.get? "x402Version").isSome

/-- The challenge in the body of the answer.  A body that is no JSON fails with the reason of
`strict_json` again. -/
def bodyCandidate (body : Bytes) : Except PyError (List Json) :=
  if body = [] then .ok []
  else (strictJson p body).map fun val =>
    match val with
    | .obj d => if looksPayable d then [val] else []
    | _ => []

def observedChallenge (status : Json) (headers : Dict) (body : Bytes) : Except PyError Json :=
  if !isInt 402 status then fail "not_402"
  else
    let sent := ["payment-required", "x-payment-required"].filterMap fun name => headers.get? name
    (sent.mapM (headerCandidate p)).bind fun fromHeaders =>
      (bodyCandidate p body).bind fun fromBody =>
        match fromHeaders ++ fromBody with
        | [] => fail "ambiguous_challenge"
        | first :: rest =>
            (anyOf (fun c => (canonical p c).bind fun raw =>
                (canonical p first).map fun raw' => raw != raw') (first :: rest)).bind
              fun differs =>
                if differs then fail "ambiguous_challenge"
                else (validateEnvelope p first).map fun _ => first

/-- `env["accepts"]`, of an envelope that has a list of them. -/
def acceptsOf (env : Dict) : List Json :=
  match env.get "accepts" with
  | .arr items => items
  | _ => []

/-- The entry alone is the selected payment. -/
def matchesAlone (env : Dict) (selected accept : Json) : Except PyError Bool :=
  selectedPaymentMatchesCurrentEnvelope p.deps.py p.deps.keccak selected
    [("envelope", .obj (env.set "accepts" (.arr [accept])))]

/-- The entry has known fields only, and an authorization timeout. -/
def exactEntry (accept : Dict) : Bool :=
  keysAmong ["scheme", "network", "amount", "asset", "currency", "payTo", "maxTimeoutSeconds",
    "extra"] accept && (accept.get "scheme").eqStr "exact" &&
    match accept.get "maxTimeoutSeconds" with
    | .int n => decide (0 < n)
    | _ => false

def selectedIndex (env selected : Json) : Except PyError ℕ :=
  (validateEnvelope p env).bind fun _ =>
    if !selected.isObj then fail "invalid_selected_payment"
    else
      (keepIf (fun x => matchesAlone p env.dictOrEmpty selected x.1)
        (acceptsOf env.dictOrEmpty).zipIdx).bind fun found =>
          match found with
          | [(accept, index)] =>
              if exactEntry accept.dictOrEmpty then .ok index else fail "unsupported_challenge"
          | _ => fail "ambiguous_selected_payment"

end Envelopes

/-! ## Bindings -/

section Bindings

variable (p : Platform)

def ttlSeconds : Except PyError ℤ :=
  let raw := p.ttlSetting.getD "60"
  if !raw.isDecimal || raw.head? == some (.ofChar '0') then fail "invalid_binding_config"
  else (p.deps.py.int raw).bind fun n =>
    if 1 ≤ n ∧ n ≤ maxTtl then .ok n else fail "invalid_binding_config"

/-- The checks of `validate_context` on a dictionary. -/
def contextFields (ctx : Dict) : Except PyError Unit :=
  if !keysExactly ["url", "method", "body_sha256"] ctx then fail "invalid_binding"
  else (requestContext p (ctx.get "url") (ctx.get "method") []).bind fun _ =>
    if isHex64 (ctx.get "body_sha256") then .ok () else fail "invalid_binding"

def validateContext (ctx : Json) : Except PyError Unit :=
  match ctx with
  | .obj fields => contextFields p fields
  | _ => fail "invalid_binding"

/-- `EXPLICIT_CONSTRAINT_KEYS`, with the keys of a need. -/
def allowedKeys : List String :=
  ["objective", "prefer_network", "networks", "max_amount_atomic", "max_price_usd",
    "max_latency_ms", "max_probe_latency_ms", "max_service_latency_ms", "require_invocable",
    "min_observations", "min_observed_success", "min_reputation_score",
    "min_reputation_confidence", "max_total_cost_usd", "max_settlement_latency_ms",
    "search_depth", "max_candidates_to_probe", "accept_payTo_change", "require_transparency",
    "require_route_binding", "need", "url", "policy"]

/-- The observation of a result was made by a probe. -/
def observation (result : Dict) : Except PyError Dict :=
  match result.get "binding_observation" with
  | .obj obs =>
      if keysExactly ["request", "observed_at", "quote_sha256"] obs then .ok obs
      else fail "unproven_observation"
  | _ => fail "unproven_observation"

/-- The URL of a request that was validated. -/
def urlOf (request : Json) : PyStr :=
  match request.dictOrEmpty.get "url" with
  | .str url => url
  | _ => []

/-- `resource.get("url", url) == url`, of a resource that may be missing. -/
def namesUrl (url : PyStr) (resource : Json) : Bool :=
  match resource.dictOrEmpty.get? "url" with
  | none => true
  | some named => named.eqStr url

/-- `build`.  The envelope and the selected payment are there in a billable winner. -/
def build (result body : Dict) (now : ℤ) : Except PyError Dict :=
  if !billableWinner p.deps p.reader body 200 (.obj result) then fail "invalid_winner"
  else if !keysAmong allowedKeys body || (result.get "unresolved_constraints").truthy then
    fail "unresolved_policy"
  else
    (observation result).bind fun obs =>
      let ctx := obs.get "request"
      (validateContext p ctx).bind fun _ =>
        let url := urlOf ctx
        if !(result.get "url").eqStr url then fail "resource_changed"
        else
          let env := result.get "envelope"
          (selectedIndex p env (result.get "selected_payment")).bind fun index =>
            (digest p env).bind fun quote =>
              if !(obs.get "quote_sha256").eqStr quote then fail "quote_changed"
              else if !namesUrl url (env.dictOrEmpty.get "resource") then fail "resource_changed"
              else
                match obs.get "observed_at" with
                | .int observed =>
                    (ttlSeconds p).bind fun ttl =>
                      if observed ≤ now ∧ now < observed + ttl then
                        .ok [("model", .str model), ("observed_at", .int observed),
                          ("expires_at", .int (observed + ttl)), ("request", ctx),
                          ("quote_sha256", obs.get "quote_sha256"),
                          ("selected_index", .int index)]
                      else fail "quote_expired"
                | _ => fail "quote_expired"

/-- The times of a binding. -/
def validTimes : Json → Json → Bool
  | .int observed, .int expiry =>
      decide (0 ≤ observed) && decide (observed < expiry) && decide (expiry ≤ observed + maxTtl)
  | _, _ => false

/-- The index of a binding. -/
def validIndex : Json → Bool
  | .int index => decide (0 ≤ index) && decide (index < 32)
  | _ => false

/-- The checks of `validate` on a dictionary. -/
def bindingFields (binding : Dict) : Except PyError Unit :=
  if !keysExactly ["model", "observed_at", "expires_at", "request", "quote_sha256",
      "selected_index"] binding then fail "invalid_binding"
  else if !(binding.get "model").eqStr model then fail "invalid_binding"
  else (validateContext p (binding.get "request")).bind fun _ =>
    if validTimes (binding.get "observed_at") (binding.get "expires_at") &&
        isHex64 (binding.get "quote_sha256") && validIndex (binding.get "selected_index") then
      .ok ()
    else fail "invalid_binding"

def validate (binding : Json) : Except PyError Unit :=
  (canonical p binding).bind fun _ =>
    match binding with
    | .obj fields => bindingFields p fields
    | _ => fail "invalid_binding"

/-- `json.loads(canonical(value))`. -/
def readCanonical (value : Json) : Except PyError Json :=
  (canonical p value).bind fun raw =>
    match utf8Decode raw with
    | some text => loads floatConstants p.reader text
    | none => .error ⟨.unicodeError, "invalid UTF-8"⟩

/-- The time is one at which the binding holds. -/
def holdsAt (now : ℤ) : Json → Json → Bool
  | .int observed, .int expiry => decide (observed ≤ now) && decide (now < expiry)
  | _, _ => false

def verifyChallenge (binding status envelope url method : Json) (body : Bytes) (now : ℤ) :
    Except PyError Json :=
  (validate p binding).bind fun _ =>
    let b := binding.dictOrEmpty
    if !holdsAt now (b.get "observed_at") (b.get "expires_at") then fail "quote_expired"
    else if !isInt 402 status then fail "not_402"
    else (requestContext p url method body).bind fun ctx =>
      if !ctx.equals (b.get "request").dictOrEmpty then fail "resource_changed"
      else (validateEnvelope p envelope).bind fun _ =>
        (digest p envelope).bind fun quote =>
          if !(b.get "quote_sha256").eqStr quote then fail "quote_changed"
          else
            match b.get "selected_index" with
            | .int index =>
                match (acceptsOf envelope.dictOrEmpty)[index.toNat]? with
                | some accept => readCanonical p accept
                | none => fail "invalid_binding"
            | _ => fail "invalid_binding"

end Bindings

/-! ## Requests as JSON -/

mutual

/-- `_request_equal`. -/
def requestEqual : Json → Json → Bool
  | .int n, .int m => n == m
  | .int n, .float y => y.eqInt n
  | .float x, .int m => x.eqInt m
  | .float x, .float y => x.eq y
  | .null, .null => true
  | .bool b, .bool c => b == c
  | .str s, .str t => s == t
  | .arr xs, .arr ys => itemsEqual xs ys
  | .obj d, .obj e =>
      (e.all fun m => (Dict.get? d m.1).isSome) && membersEqual d e
  | _, _ => false

/-- The values of two lists, one by one. -/
def itemsEqual : List Json → List Json → Bool
  | [], [] => true
  | x :: xs, y :: ys => requestEqual x y && itemsEqual xs ys
  | _, _ => false

/-- The values of a dictionary, each with that of the other one under its key. -/
def membersEqual : Dict → Dict → Bool
  | [], _ => true
  | (k, v) :: rest, e =>
      match e.get? k with
      | some w => requestEqual v w && membersEqual rest e
      | none => false

end

end Signal402.RouteBinding
