import Signal402.Base.Base64
import Signal402.Base.Interp
import Signal402.Base.JsonText
import Signal402.Base.Utf8

/-!
# Payment envelopes (`probe.py`)

What a probe reads off a response: the envelope of a 402, from its headers or its body,
or the reason for there being none.

* `parseEnvelope` — the envelope, and the reason.
* `status_of_parseEnvelope` — only a 402 has an envelope.
-/

namespace Signal402.Probe

/-- The reasons of `MISS_REASONS` that a probe of one URL gives.  Each is its own public
name in `_MISS_MAP`. -/
inductive Miss
  | no402Envelope
  | noPayto
  | reachable200
  | probeTimeout
  | upstream5xx
  | ssrf
  | unsafeToProbe
  deriving DecidableEq, Repr

/-- `_headers_map`. -/
def headersMap (py : Interp) (headers : List (PyStr × PyStr)) : Dict :=
  headers.foldl (fun d h => d.set (py.uni.lower h.1) (.str h.2)) []

/-- The names of the headers with an envelope. -/
def envelopeHeaders : List PyStr := ["payment-required", "x-payment-required"]

/-- `_has_402_challenge`, of headers whose names are in lower case. -/
def has402Challenge (py : Interp) (status : Option ℕ) (headers : Dict) : Bool :=
  status == some 402 || headers.any fun h =>
    (envelopeHeaders ++ [("payment-challenges" : PyStr)]).contains h.1 ||
      (h.1 == ("www-authenticate" : PyStr) &&
        match h.2 with
        | .str value => PyStr.hasInfix (py.uni.lower value) "402"
        | _ => false)

/-- `json.loads(text, parse_constant=reject_json_constant)`, and nothing for what the
callers catch. -/
def loadsOrNone (levels : ℕ) (text : PyStr) : Except PyError (Option Json) :=
  match loads rejectJsonConstant levels text with
  | .ok v => .ok (some v)
  | .error e => if e.cls.isA .valueError || e.cls.isA .typeError then .ok none else .error e

/-- The first of the texts that is a dictionary. -/
def firstDict (levels : ℕ) : List PyStr → Except PyError (Option Dict)
  | [] => .ok none
  | text :: rest =>
      (loadsOrNone levels text).bind fun payload =>
        match payload with
        | some (.obj d) => .ok (some d)
        | _ => firstDict levels rest

/-- `_decode_envelope_blob`. -/
def decodeEnvelopeBlob (levels : ℕ) (raw : PyStr) : Except PyError (Option Dict) :=
  let text := raw.strip
  if text.isEmpty then .ok none
  else
    let padded := text ++ List.replicate ((4 - text.length % 4) % 4) (.ofChar '=')
    firstDict levels (((b64decode padded).bind utf8Decode).toList ++ [text])

/-- `_envelope_is_parseable`. -/
def envelopeIsParseable : Option Dict → Bool
  | none => false
  | some env =>
      (match env.get "accepts" with
        | .arr accepts => !accepts.isEmpty
        | _ => false) && !(env.get "x402Version").isNull

/-- `_payto_from_envelope`. -/
def paytoFromEnvelope (py : Interp) (env : Dict) : Option PyStr :=
  match env.get "accepts" with
  | .arr accepts =>
      accepts.findSome? fun acc =>
        match acc with
        | .obj acc => (py.str? (Dict.get acc "payTo")).bind fun text =>
            if text.strip.isEmpty then none else some text.strip
        | _ => none
  | _ => none

/-- The loop over the headers of `parse_envelope`: the last envelope read, up to the first
that is not empty. -/
def headerEnvelope (levels : ℕ) (headers : Dict) :
    Option Dict → List PyStr → Except PyError (Option Dict)
  | found, [] => .ok found
  | found, key :: rest =>
      match headers.get key with
      | .str value =>
          if value.isEmpty then headerEnvelope levels headers found rest
          else (decodeEnvelopeBlob levels value).bind fun env =>
            if (env.getD []).isEmpty then headerEnvelope levels headers env rest else .ok env
      | _ => headerEnvelope levels headers found rest

/-- The dictionary that a body is. -/
def bodyEnvelope (levels : ℕ) (body : Bytes) : Except PyError (Option Dict) :=
  match utf8Decode body with
  | none => .ok none
  | some text => (loadsOrNone levels text).map fun v => v.bind Json.asObj?

/-- `_miss_from_status`, of a status that is not 402. -/
def missFromStatus : Option ℕ → Miss
  | none => .probeTimeout
  | some status =>
      if status = 200 then .reachable200
      else if 500 ≤ status ∧ status ≤ 599 then .upstream5xx
      else .no402Envelope

/-- The envelope of a 402, of its headers or else of its body. -/
def chosenEnvelope (header body : Option Dict) : Option Dict :=
  if envelopeIsParseable header then header
  else if envelopeIsParseable body then body
  else none

/-- `parse_envelope`. -/
def parseEnvelope (py : Interp) (levels : ℕ) (status : Option ℕ) (headers : Dict)
    (body : Bytes) : Except PyError (Option Dict × Option Miss) :=
  (headerEnvelope levels headers none envelopeHeaders).bind fun headerEnv =>
    (if body.isEmpty then .ok none else bodyEnvelope levels body).map fun bodyEnv =>
      if status ≠ some 402 then (none, some (missFromStatus status))
      else
        match chosenEnvelope headerEnv bodyEnv with
        | none => (none, some .no402Envelope)
        | some env =>
            if (paytoFromEnvelope py env).isNone then (none, some .noPayto) else (some env, none)

/-- Only a 402 has an envelope. -/
theorem status_of_parseEnvelope {py : Interp} {levels : ℕ} {status : Option ℕ} {headers : Dict}
    {body : Bytes} {env : Dict} {miss : Option Miss}
    (h : parseEnvelope py levels status headers body = .ok (some env, miss)) :
    status = some 402 := by
  obtain ⟨headerEnv, -, h⟩ := bind_eq_ok.mp h
  obtain ⟨bodyEnv, -, h⟩ := map_eq_ok.mp h
  by_contra hne
  rw [if_pos hne] at h
  cases h

end Signal402.Probe
