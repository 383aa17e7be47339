import Signal402.Pq.Checkpoint
import Signal402.Pq.SignedTxn
import Signal402.Pq.SignerMac

/-!
# The link to the signer (`pq/signer_mainnet.py`)

The router sends a request with a MAC on it and reads one line back.  The network may put
anything on that line, also what it has seen before.

* `buildRequest` — `build_request`.
* `parseAuthenticatedReply`, `bindMainnetReply`, `receive` — what is made of the line.
* `requestSigned` — the rest of `request_signed`, with the check of the transaction.
* `Step` — a run of the link: the router dials and reads, the signer answers.

Requests and responses are told apart by their first lines, so `taken_is_answer` follows from
the two readings of a MAC input in `SignerMac`.
-/

namespace Signal402.SignerMac

open AnchorFee (mainnet)
open AnchorNote (parseCheckpointBody)
open Checkpoint (parseSignedNote)
open Replay (intValue)
open SignedTxn (pqsigMarker validateSignedTxn validateSignedTxn_eq_ok ExpectedRoot AuthorizedAnchor)

/-- `ORIGIN_MAINNET`. -/
def originMainnet : PyStr := "402signal.com/pq/log/mainnet-v1"

def signFailed : PyError := signerClientError "sign_failed"

/-- `if not c: raise SignerClientError("sign_failed")`. -/
def need (c : Prop) [Decidable c] : Except PyError Unit := if c then .ok () else .error signFailed

theorem need_eq_ok {c : Prop} [Decidable c] {u : Unit} : need c = .ok u ↔ c := by
  unfold need
  split <;> simp_all

/-! ## Requests -/

/-- The arguments of `request_signed`.  The callers make the request id of hex digits. -/
structure Order where
  origin : PyStr
  treeSize : Json
  root : HexValue
  consistency : Option (List HexValue)
  timestamp : ℤ
  requestId : PyStr
  requestId_line : newline ∉ requestId
  checkpoint : PyStr
  policy : Json

/-- The payload of a request. -/
structure Payload where
  origin : PyStr
  treeSize : ℤ
  root : PyStr
  consistency : List PyStr
  timestamp : ℤ
  requestId : PyStr
  checkpoint : PyStr
  policy : NarrowPolicy
  hmac : PyStr

/-- A narrow policy as the dictionary it is sent as. -/
def NarrowPolicy.toJson (p : NarrowPolicy) : Json :=
  .obj [("canonical_fee", .int p.canonicalFee), ("fee_per_byte", .int p.feePerByte),
    ("fv", .int p.fv), ("last_round", .int p.lastRound), ("lv", .int p.lv),
    ("min_fee", .int p.minFee), ("size_rule", .str p.sizeRule),
    ("size_version", .str p.sizeVersion), ("snapshot_at", .int p.snapshotAt)]

/-- What `build_request` hands to `canonical_bytes`. -/
def Payload.macArgs (p : Payload) : Request where
  origin := some p.origin
  treeSize := .int p.treeSize
  root := .value (.str p.root)
  consistency := .list (p.consistency.map fun s => .value (.str s))
  timestamp := .int p.timestamp
  requestId := some p.requestId
  checkpoint := some p.checkpoint
  policy := p.policy.toJson
  v := .int requestVersion

/-- `require_signed_note`. -/
def requireSignedNote (text : PyStr) : Except PyError PyStr :=
  if text.strip.isEmpty then .error (signerClientError "unsigned checkpoint")
  else
    match parseSignedNote text with
    | .ok _ => .ok text
    | .error _ => .error (signerClientError "unsigned checkpoint")

section Router

variable (py : Interp) (mac : Bytes → Bytes)

/-- `mac_hex` under the token. -/
def macHex (raw : Bytes) : PyStr := hexText (mac raw)

def buildRequest (o : Order) : Except PyError Payload :=
  (requireSignedNote o.checkpoint).bind fun note =>
  ((o.consistency.getD []).mapM (hexNode py)).bind fun nodes =>
  (hexNode py o.root).bind fun root =>
  (narrowPolicy py o.policy).bind fun bound =>
  (intValue py o.treeSize).bind fun treeSize =>
    let payload : Payload :=
      { origin := o.origin, treeSize, root, consistency := nodes, timestamp := o.timestamp
        requestId := o.requestId, checkpoint := note, policy := bound, hmac := [] }
    (canonicalBytes py payload.macArgs).map fun body => { payload with hmac := macHex mac body }

/-! ## Replies -/

/-- What `parse_authenticated_reply` returns. -/
structure Reply where
  treeSize : ℤ
  root : PyStr
  signed : Bytes
  responseHmac : PyStr

/-- `AUTHENTICATED_REPLY_KEYS`. -/
def replyKeys : List PyStr := ["ok", "tree_size", "root", "pqsig", "signed", "response_hmac"]

/-- `json.loads(raw, object_pairs_hook=_reject_duplicate_keys)`. -/
def replyHooks : Hooks :=
  { floatConstants.hooks with
    pairs := fun ps => if (ps.map Prod.fst).Nodup then .ok (.obj ps) else .error signFailed }

/-- Digits of a hex text in lower case. -/
def lowerHex (s : PyStr) : Bool :=
  s.all fun c => PyStr.isDigitChar c || (decide (97 ≤ c.val) && decide (c.val ≤ 102))

/-- The text of a member. -/
def textOf (data : Dict) (key : PyStr) : Except PyError PyStr :=
  match Dict.get data key with
  | .str s => .ok s
  | _ => .error signFailed

/-- The size of a member: an integer from zero to below `2 ** 64`. -/
def sizeOf64 (data : Dict) (key : PyStr) : Except PyError ℤ :=
  match Dict.get data key with
  | .int n => if 0 ≤ n ∧ n < 2 ^ 64 then .ok n else .error signFailed
  | _ => .error signFailed

/-- The bytes that a hex text in lower case writes. -/
def rawOf (text : PyStr) : Except PyError Bytes :=
  match fromHex text with
  | some raw => .ok raw
  | none => .error signFailed

/-- What the router takes the MAC of, of a reply to a request. -/
def responseOf (p : Payload) (treeSize : ℤ) (root : PyStr) (signed : Bytes) : Response where
  requestVersion := signerProtocol
  origin := p.origin
  requestHmac := p.hmac
  requestId := p.requestId
  checkpoint := p.checkpoint
  treeSize := treeSize
  root := root
  pqsig := pqsigMarker
  signed := signed

/-- `response_mac_hex`, of a payload that `build_request` made. -/
def responseMacHex (p : Payload) (treeSize : ℤ) (root : PyStr) (signed : Bytes) :
    Except PyError PyStr :=
  if p.hmac.length ≠ 64 ∨ lowerHex p.hmac = false then .error (signerClientError "response hmac")
  else (responseCanonicalBytes py (responseOf p treeSize root signed)).map (macHex mac)

/-- `parse_authenticated_reply`, of a line that is a dictionary. -/
def authenticate (p : Payload) (data : Dict) : Except PyError Reply :=
  (need (replyKeys.all (fun key => (data.map Prod.fst).contains key) ∧
    data.all (fun m => replyKeys.contains m.1))).bind fun _ =>
  (need ((Dict.get data "ok").isTrue)).bind fun _ =>
  (sizeOf64 data "tree_size").bind fun treeSize =>
  (textOf data "root").bind fun root =>
  (need (root.length = 64 ∧ lowerHex root)).bind fun _ =>
  (rawOf root).bind fun rootRaw =>
  (need (rootRaw.length = 32)).bind fun _ =>
  (need ((Dict.get data "pqsig").eqStr pqsigMarker)).bind fun _ =>
  (textOf data "signed").bind fun signedHex =>
  (need (signedHex ≠ [] ∧ lowerHex signedHex)).bind fun _ =>
  (rawOf signedHex).bind fun signed =>
  (need (signed ≠ [] ∧ signed ≠ pqsigMarker.map fun c => UInt8.ofNat c.val)).bind fun _ =>
  (textOf data "response_hmac").bind fun got =>
  (need (got.length = 64 ∧ lowerHex got)).bind fun _ =>
  (responseMacHex py mac p treeSize root signed).bind fun want =>
  (need (got = want)).map fun _ => { treeSize, root, signed, responseHmac := got }

/-- The dictionary on the line, and `sign_failed` for what `parse_authenticated_reply`
catches. -/
def replyDict (levels : ℕ) (raw : PyStr) : Except PyError Dict :=
  match loadsWith replyHooks levels raw with
  | .ok (.obj data) => .ok data
  | .ok _ => .error signFailed
  | .error e =>
      if e.cls.isA .typeError ∨ e.cls.isA .valueError ∨ e = signFailed then .error signFailed
      else .error e

def parseAuthenticatedReply (levels : ℕ) (p : Payload) (raw : PyStr) : Except PyError Reply :=
  (replyDict levels raw).bind (authenticate py mac p)

/-- `_int64_be`, as the number that the eight bytes write. -/
def int64 (x : Json) : Except PyError ℤ :=
  match intValue py x with
  | .ok n => if 0 ≤ n ∧ n < 2 ^ 64 then .ok n else .error signFailed
  | .error _ => .error signFailed

/-- `roots_equal`. -/
def rootsEqual (left right : HexValue) : Bool :=
  match hexNode py left, hexNode py right with
  | .ok a, .ok b => (fromHex a).isSome && fromHex a == fromHex b
  | _, _ => false

/-- `bind_reply`. -/
def bindReply (reply : Reply) (treeSize : Json) (root : HexValue) : Except PyError Unit :=
  (int64 py (.int reply.treeSize)).bind fun have_ =>
  (int64 py treeSize).bind fun want =>
  (need (have_ = want)).bind fun _ =>
  (need (rootsEqual py (.value (.str reply.root)) root)).bind fun _ =>
  need (reply.signed ≠ [])

/-- `bind_mainnet_reply`. -/
def bindMainnetReply (reply : Reply) (o : Order) : Except PyError Unit :=
  (bindReply py reply o.treeSize o.root).bind fun _ =>
  (need (o.origin = originMainnet)).bind fun _ =>
  (requireSignedNote o.checkpoint).bind fun note =>
  match (parseSignedNote note).bind fun parsed => parseCheckpointBody py parsed.text with
  | .error _ => .error signFailed
  | .ok body =>
      (need (body.origin = originMainnet)).bind fun _ =>
      (intValue py o.treeSize).bind fun size =>
        -- `body.get("tree_size") or -1`
        need ((if body.treeSize = 0 then -1 else body.treeSize) = size)

/-- What `request_signed` makes of the line up to the check of the transaction. -/
def receive (levels : ℕ) (o : Order) (p : Payload) (raw : PyStr) : Except PyError Reply :=
  (parseAuthenticatedReply py mac levels p raw).bind fun reply =>
    (bindMainnetReply py reply o).map fun _ => reply

/-- The error of a refusal that is passed on, one of `SURFACE_ERRORS`. -/
def surfaced (levels : ℕ) (raw : PyStr) : Except PyError Unit :=
  match loads floatConstants levels raw with
  | .ok (.obj data) =>
      if (Dict.get data "ok").isFalse ∧
          (py.strOrEmpty (Dict.get data "error")).strip = "consistency_proof_required" then
        .error (signerClientError "consistency_proof_required")
      else .ok ()
  | .ok _ => .ok ()
  | .error e => if e.cls.isA .typeError ∨ e.cls.isA .valueError then .ok () else .error e

/-- `params_from_fee_policy`, with what `request_signed` adds to it. -/
def verifyParams (p : NarrowPolicy) : Dict :=
  [("minFee", .int (if p.minFee = 0 then 1000 else p.minFee)), ("feePerByte", .int p.feePerByte),
    ("flatFee", .bool false), ("lastRound", .int p.lastRound),
    ("firstValid", .int (if p.fv = 0 then p.lastRound else p.fv)),
    ("lastValid", .int (if p.lv = 0 then p.lastRound + 1000 else p.lv)),
    ("genesisID", .str mainnet.genesisId), ("genesisHash", .str mainnet.genesisHash),
    ("require_canonical", .bool true)]

def HexValue.expected : HexValue → ExpectedRoot
  | .bytes raw => .bytes raw
  | .value x => .value x

/-- What `request_signed` expects of the transaction. -/
def orderExpected (env : SignedTxn.Env) (o : Order) (p : Payload) : SignedTxn.Expected where
  origin := o.origin
  size := p.treeSize
  root := o.root.expected
  address := some (env.falconAddressFor mainnet.name)
  network := some mainnet.name
  params := verifyParams p.policy
  requireCanonical := some true

/-- `request_signed`, from the line on. -/
def requestSigned (str : Msgpack → PyStr) (env : SignedTxn.Env) (levels : ℕ) (o : Order)
    (p : Payload) (raw : PyStr) : Except PyError (Reply × SignedTxn.Verified) :=
  (surfaced py levels raw).bind fun _ =>
  (receive py mac levels o p raw).bind fun reply =>
  (validateSignedTxn py str env reply.signed (orderExpected env o p)).bind fun verified =>
  if verified.fee ≠ p.policy.canonicalFee ∨ verified.fv ≠ p.policy.fv ∨
      verified.lv ≠ p.policy.lv then .error (signerClientError "policy mismatch")
  else .ok (reply, verified)

end Router

/-! ## Runs -/

/-- An answer of the signer: the request it took it for, and what it put its MAC on. -/
structure Answer where
  request : Request
  response : Response

/-- A reply the router has taken, with the order it is for. -/
structure Taken where
  order : Order
  payload : Payload
  reply : Reply

/-- What the router took the MAC of, of a reply it has taken. -/
def Taken.response (t : Taken) : Response :=
  responseOf t.payload t.reply.treeSize t.reply.root t.reply.signed

structure Link where
  dialled : List (Order × Payload)
  answered : List Answer
  taken : List Taken

section Runs

variable (py : Interp) (mac : Bytes → Bytes)

/-- The signer answers a request whose MAC is right, under its identity and its MAC. -/
structure Answer.Honest (a : Answer) : Prop where
  verified : ∃ body, canonicalBytes py a.request = .ok body ∧ a.response.requestHmac = macHex mac body
  origin : a.response.origin = a.request.origin.getD []
  requestId : a.response.requestId = a.request.requestId.getD []
  checkpoint : a.response.checkpoint = a.request.checkpoint.getD []

/-- The messages that a MAC was made of: the requests of the router, and the responses of
the signer. -/
def Made (l : Link) (m : Bytes) : Prop :=
  (∃ d ∈ l.dialled, canonicalBytes py d.2.macArgs = .ok m) ∨
    ∃ a ∈ l.answered, responseCanonicalBytes py a.response = .ok m

/-- One step of the link.  A MAC that the router finds right was made by one that has the
token. -/
inductive Step (levels : ℕ) : Link → Link → Prop
  | dial {l : Link} {o : Order} {p : Payload} (h : buildRequest py mac o = .ok p) :
      Step levels l { l with dialled := (o, p) :: l.dialled }
  | answer {l : Link} {a : Answer} (h : a.Honest py mac)
      (hmade : ∀ body, canonicalBytes py a.request = .ok body → Made py l body) :
      Step levels l { l with answered := a :: l.answered }
  | take {l : Link} {o : Order} {p : Payload} {raw : PyStr} {reply : Reply}
      (hdialled : (o, p) ∈ l.dialled) (h : receive py mac levels o p raw = .ok reply)
      (hmade : ∀ m, responseCanonicalBytes py
        (responseOf p reply.treeSize reply.root reply.signed) = .ok m → Made py l m) :
      Step levels l { l with taken := ⟨o, p, reply⟩ :: l.taken }

/-- A link on which nothing has happened. -/
def Link.idle : Link := ⟨[], [], []⟩

/-- A run of the link. -/
abbrev Runs (levels : ℕ) : Link → Link → Prop := Relation.ReflTransGen (Step py mac levels)

/-- No two messages that a MAC was made of have one MAC. -/
def Link.Collisionless (l : Link) : Prop :=
  ∀ m m', Made py l m → Made py l m' → mac m = mac m' → m = m'

end Runs

/-! ## Two kinds of messages -/

/-- The tenth byte of a request is the slash of the protocol. -/
theorem slash_of_canonicalBytes {py : Interp} {r : Request} {raw : Bytes}
    (h : canonicalBytes py r = .ok raw) : raw[9]? = some 47 := by
  obtain ⟨texts, root, timestamp, treeSize, policy, -, -, -, -, -, -, hraw⟩ :=
    canonicalBytes_eq_ok py h
  obtain ⟨-, rfl⟩ := utf8Encode_eq_ok.mp hraw
  rw [macText_eq, List.append_assoc, utf8Bytes, List.flatMap_append]
  rfl

/-- The tenth byte of a response is a hyphen. -/
theorem hyphen_of_responseCanonicalBytes {py : Interp} {r : Response} {raw : Bytes}
    (h : responseCanonicalBytes py r = .ok raw) : raw[9]? = some 45 := by
  obtain ⟨checkpoint, origin, pqsig, requestHmac, requestId, requestV, root, treeSize, -, -, -, -,
    -, -, -, -, -, rfl⟩ := responseCanonicalBytes_eq_ok py h
  rw [List.append_assoc]
  rfl

/-- No request is a response. -/
theorem request_ne_response {py : Interp} {r : Request} {s : Response} {raw : Bytes}
    (hr : canonicalBytes py r = .ok raw) : responseCanonicalBytes py s ≠ .ok raw := by
  intro hs
  have hslash := slash_of_canonicalBytes hr
  rw [hyphen_of_responseCanonicalBytes hs] at hslash
  cases hslash

/-! ## MACs in hex -/

theorem lowerHex_hexText (raw : Bytes) : lowerHex (hexText raw) = true := by
  have hdigit : ∀ n < 16, (PyStr.isDigitChar (CodePoint.ofByte (hexDigit n)) ||
      (decide (97 ≤ (CodePoint.ofByte (hexDigit n)).val) &&
        decide ((CodePoint.ofByte (hexDigit n)).val ≤ 102))) = true := by
    decide
  refine List.all_eq_true.mpr fun c hc => ?_
  obtain ⟨b, hb, rfl⟩ := List.mem_map.mp hc
  obtain ⟨x, -, hx⟩ := List.mem_flatMap.mp hb
  have hlt := x.toNat_lt
  simp only [List.mem_cons, List.not_mem_nil, or_false] at hx
  rcases hx with rfl | rfl
  · exact hdigit _ (by omega)
  · exact hdigit _ (by omega)

/-- A hex text in lower case is its own lower case. -/
theorem lower_of_lowerHex (py : Interp) {s : PyStr} (h : lowerHex s = true) :
    py.uni.lower s = s := by
  have hchar : ∀ c ∈ s, (48 ≤ c.val ∧ c.val ≤ 57) ∨ (97 ≤ c.val ∧ c.val ≤ 102) := by
    intro c hc
    have hhex := List.all_eq_true.mp h c hc
    rw [Bool.or_eq_true, isDigitChar_iff, Bool.and_eq_true, decide_eq_true_eq,
      decide_eq_true_eq] at hhex
    exact hhex
  have hascii : s.isAscii = true := by
    refine isAscii_iff.mpr fun c hc => ?_
    rcases hchar c hc with h | h <;> omega
  show (if s.isAscii then s.map PyStr.lowerCodePoint else _) = s
  rw [if_pos hascii]
  conv_rhs => rw [← List.map_id s]
  refine List.map_congr_left fun c hc => ?_
  have hcapital : ¬ (65 ≤ c.val ∧ c.val ≤ 90) := by
    rcases hchar c hc with h | h <;> omega
  exact dif_neg hcapital

/-- MACs that are written alike are alike. -/
theorem mac_of_macHex {mac : Bytes → Bytes} {m m' : Bytes} (h : macHex mac m = macHex mac m') :
    mac m = mac m' := by
  have hread := congrArg fromHex h
  rw [macHex, macHex, fromHex_hexText, fromHex_hexText] at hread
  exact Option.some.inj hread

section Runs

variable {py : Interp} {mac : Bytes → Bytes}

/-! ## What is sent and what is taken -/

/-- The MAC of a request is over what it says. -/
theorem buildRequest_eq_ok {o : Order} {p : Payload} (h : buildRequest py mac o = .ok p) :
    p.origin = o.origin ∧ p.requestId = o.requestId ∧ p.checkpoint = o.checkpoint ∧
      ∃ body, canonicalBytes py p.macArgs = .ok body ∧ p.hmac = macHex mac body := by
  obtain ⟨note, hnote, h⟩ := bind_eq_ok.mp h
  obtain ⟨nodes, -, h⟩ := bind_eq_ok.mp h
  obtain ⟨root, -, h⟩ := bind_eq_ok.mp h
  obtain ⟨bound, -, h⟩ := bind_eq_ok.mp h
  obtain ⟨treeSize, -, h⟩ := bind_eq_ok.mp h
  obtain ⟨body, hbody, rfl⟩ := map_eq_ok.mp h
  have hsame : note = o.checkpoint := by
    unfold requireSignedNote at hnote
    split at hnote
    · cases hnote
    · split at hnote
      · exact (Except.ok.inj hnote).symm
      · cases hnote
  exact ⟨rfl, rfl, hsame, body, hbody, rfl⟩

/-- A reply that is authenticated has the MAC of what it says, over the request's. -/
theorem parseAuthenticatedReply_eq_ok {levels : ℕ} {p : Payload} {raw : PyStr} {reply : Reply}
    (h : parseAuthenticatedReply py mac levels p raw = .ok reply) :
    ∃ m, responseCanonicalBytes py (responseOf p reply.treeSize reply.root reply.signed) = .ok m ∧
      reply.responseHmac = macHex mac m := by
  obtain ⟨data, -, h⟩ := bind_eq_ok.mp h
  obtain ⟨-, -, h⟩ := bind_eq_ok.mp h
  obtain ⟨-, -, h⟩ := bind_eq_ok.mp h
  obtain ⟨treeSize, -, h⟩ := bind_eq_ok.mp h
  obtain ⟨root, -, h⟩ := bind_eq_ok.mp h
  obtain ⟨-, -, h⟩ := bind_eq_ok.mp h
  obtain ⟨rootRaw, -, h⟩ := bind_eq_ok.mp h
  obtain ⟨-, -, h⟩ := bind_eq_ok.mp h
  obtain ⟨-, -, h⟩ := bind_eq_ok.mp h
  obtain ⟨signedHex, -, h⟩ := bind_eq_ok.mp h
  obtain ⟨-, -, h⟩ := bind_eq_ok.mp h
  obtain ⟨signed, -, h⟩ := bind_eq_ok.mp h
  obtain ⟨-, -, h⟩ := bind_eq_ok.mp h
  obtain ⟨got, -, h⟩ := bind_eq_ok.mp h
  obtain ⟨-, -, h⟩ := bind_eq_ok.mp h
  obtain ⟨want, hwant, h⟩ := bind_eq_ok.mp h
  obtain ⟨_, hequal, rfl⟩ := map_eq_ok.mp h
  unfold responseMacHex at hwant
  split at hwant
  · cases hwant
  obtain ⟨m, hm, rfl⟩ := map_eq_ok.mp hwant
  exact ⟨m, hm, need_eq_ok.mp hequal⟩

/-- A reply that is taken is bound to its order. -/
structure Bound (py : Interp) (reply : Reply) (o : Order) : Prop where
  origin : o.origin = originMainnet
  treeSize : int64 py o.treeSize = .ok reply.treeSize
  root : rootsEqual py (.value (.str reply.root)) o.root = true

theorem bindMainnetReply_eq_ok {reply : Reply} {o : Order}
    (h : bindMainnetReply py reply o = .ok ()) : Bound py reply o := by
  obtain ⟨_, hreply, h⟩ := bind_eq_ok.mp h
  obtain ⟨_, horigin, -⟩ := bind_eq_ok.mp h
  obtain ⟨have_, hhave, hreply⟩ := bind_eq_ok.mp hreply
  obtain ⟨want, hwant, hreply⟩ := bind_eq_ok.mp hreply
  obtain ⟨_, hsize, hreply⟩ := bind_eq_ok.mp hreply
  obtain ⟨_, hroot, -⟩ := bind_eq_ok.mp hreply
  have hread : have_ = reply.treeSize := by
    unfold int64 at hhave
    split at hhave
    · rename_i n hn
      split at hhave
      · rw [← Except.ok.inj hhave]
        exact (Except.ok.inj hn).symm
      · cases hhave
    · cases hhave
  exact
    { origin := need_eq_ok.mp horigin
      treeSize := by rw [hwant, ← need_eq_ok.mp hsize, hread]
      root := need_eq_ok.mp hroot }

/-- A transaction that is returned is an anchor of the order, at the price and in the window of
the policy. -/
theorem requestSigned_eq_ok {str : Msgpack → PyStr} {env : SignedTxn.Env} {levels : ℕ} {o : Order}
    {p : Payload} {raw : PyStr} {reply : Reply} {verified : SignedTxn.Verified}
    (h : requestSigned py mac str env levels o p raw = .ok (reply, verified)) :
    receive py mac levels o p raw = .ok reply ∧ verified.fee = p.policy.canonicalFee ∧
      verified.fv = p.policy.fv ∧ verified.lv = p.policy.lv ∧
      ∃ obj txn, msgpackDecode str true reply.signed = .ok obj ∧
        AuthorizedAnchor py str env mainnet (orderExpected env o p) obj txn := by
  obtain ⟨_, -, h⟩ := bind_eq_ok.mp h
  obtain ⟨reply', hreceive, h⟩ := bind_eq_ok.mp h
  obtain ⟨verified', hverified, h⟩ := bind_eq_ok.mp h
  split at h
  · cases h
  rename_i hpolicy
  obtain ⟨rfl, rfl⟩ := Prod.mk.inj (Except.ok.inj h)
  obtain ⟨cfg, obj, txn, hcfg, hdecode, hauth, -⟩ := validateSignedTxn_eq_ok hverified
  have hmainnet : SignedTxn.networkCfg py env (orderExpected env o p).network = .ok mainnet := rfl
  obtain rfl := Except.ok.inj (hmainnet.symm.trans hcfg)
  push Not at hpolicy
  exact ⟨hreceive, hpolicy.1, hpolicy.2.1, hpolicy.2.2, obj, txn, hdecode, hauth⟩

/-! ## The invariant -/

theorem Made.mono {l l' : Link} {m : Bytes} (h : Made py l m) (hdialled : l.dialled ⊆ l'.dialled)
    (hanswered : l.answered ⊆ l'.answered) : Made py l' m := by
  rcases h with ⟨d, hd, hm⟩ | ⟨a, ha, hm⟩
  · exact .inl ⟨d, hdialled hd, hm⟩
  · exact .inr ⟨a, hanswered ha, hm⟩

variable (py mac) in
/-- Everything on the link came about by its own step. -/
structure Link.Sound (levels : ℕ) (l : Link) : Prop where
  dialled : ∀ d ∈ l.dialled, buildRequest py mac d.1 = .ok d.2
  answered : ∀ a ∈ l.answered, a.Honest py mac ∧
    ∀ body, canonicalBytes py a.request = .ok body → Made py l body
  taken : ∀ t ∈ l.taken, (t.order, t.payload) ∈ l.dialled ∧
    (∃ raw, receive py mac levels t.order t.payload raw = .ok t.reply) ∧
    ∀ m, responseCanonicalBytes py t.response = .ok m → Made py l m

theorem Link.Sound.idle (levels : ℕ) : Link.idle.Sound py mac levels where
  dialled := by simp [Link.idle]
  answered := by simp [Link.idle]
  taken := by simp [Link.idle]

theorem Step.sound {levels : ℕ} {l l' : Link} (h : Step py mac levels l l')
    (hl : l.Sound py mac levels) : l'.Sound py mac levels := by
  cases h with
  | @dial o p hbuild =>
      have hmono : ∀ {m}, Made py l m → Made py { l with dialled := (o, p) :: l.dialled } m :=
        fun hm => hm.mono (List.subset_cons_self _ _) (List.Subset.refl _)
      exact
        { dialled := List.forall_mem_cons.mpr ⟨hbuild, hl.dialled⟩
          answered := fun a ha =>
            ⟨(hl.answered a ha).1, fun body hbody => hmono ((hl.answered a ha).2 body hbody)⟩
          taken := fun t ht =>
            have ⟨hdialled, hreceive, hmade⟩ := hl.taken t ht
            ⟨List.mem_cons_of_mem _ hdialled, hreceive, fun m hm => hmono (hmade m hm)⟩ }
  | @answer a hhonest hmade =>
      have hmono : ∀ {m}, Made py l m → Made py { l with answered := a :: l.answered } m :=
        fun hm => hm.mono (List.Subset.refl _) (List.subset_cons_self _ _)
      exact
        { dialled := hl.dialled
          answered := List.forall_mem_cons.mpr
            ⟨⟨hhonest, fun body hbody => hmono (hmade body hbody)⟩, fun b hb =>
              ⟨(hl.answered b hb).1, fun body hbody => hmono ((hl.answered b hb).2 body hbody)⟩⟩
          taken := fun t ht =>
            have ⟨hdialled, hreceive, hmade⟩ := hl.taken t ht
            ⟨hdialled, hreceive, fun m hm => hmono (hmade m hm)⟩ }
  | @take o p raw reply hdialled hreceive hmade =>
      exact
        { dialled := hl.dialled
          answered := hl.answered
          taken := List.forall_mem_cons.mpr ⟨⟨hdialled, ⟨raw, hreceive⟩, hmade⟩, hl.taken⟩ }

theorem Runs.sound {levels : ℕ} {l : Link} (h : Runs py mac levels Link.idle l) :
    l.Sound py mac levels := by
  induction h with
  | refl => exact .idle levels
  | tail _ hstep ih => exact hstep.sound ih

/-! ## Whose answer a reply is -/

/-- A message of a response was made by the signer. -/
theorem Made.answer {l : Link} {r : Response} {m : Bytes} (h : Made py l m)
    (hm : responseCanonicalBytes py r = .ok m) :
    ∃ a ∈ l.answered, SameResponse py a.response r := by
  rcases h with ⟨d, hd, hrequest⟩ | ⟨a, ha, hresponse⟩
  · exact absurd hm (request_ne_response hrequest)
  · exact ⟨a, ha, responseCanonicalBytes_injective py hresponse hm⟩

/-- What is taken, unfolded. -/
theorem Link.Sound.take {levels : ℕ} {l : Link} (hl : l.Sound py mac levels) {t : Taken}
    (ht : t ∈ l.taken) :
    Bound py t.reply t.order ∧ t.payload.origin = originMainnet ∧
      newline ∉ t.payload.requestId ∧
      (∃ body, canonicalBytes py t.payload.macArgs = .ok body ∧ Made py l body ∧
        t.payload.hmac = macHex mac body) ∧
      ∃ m, responseCanonicalBytes py t.response = .ok m ∧ Made py l m ∧
        t.reply.responseHmac = macHex mac m := by
  obtain ⟨hdialled, ⟨raw, hreceive⟩, hmade⟩ := hl.taken t ht
  obtain ⟨horigin, hid, -, body, hbody, hmac⟩ := buildRequest_eq_ok (hl.dialled _ hdialled)
  obtain ⟨reply, hreply, hreceive⟩ := bind_eq_ok.mp hreceive
  obtain ⟨_, hbound, rfl⟩ := map_eq_ok.mp hreceive
  obtain ⟨m, hm, hresponse⟩ := parseAuthenticatedReply_eq_ok hreply
  have hbound := bindMainnetReply_eq_ok hbound
  exact ⟨hbound, horigin.trans hbound.origin, hid ▸ t.order.requestId_line,
    ⟨body, hbody, .inl ⟨_, hdialled, hbody⟩, hmac⟩, m, hm, hmade m hm, hresponse⟩

/-- The requests of one MAC are the same request. -/
theorem sameRequest_of_mac {l : Link} (hfree : l.Collisionless py mac) {r s : Request}
    {body body' : Bytes} (hr : canonicalBytes py r = .ok body)
    (hs : canonicalBytes py s = .ok body') (hmade : Made py l body) (hmade' : Made py l body')
    (hmac : macHex mac body = macHex mac body')
    (horigin : r.origin.getD [] = originMainnet) (horigin' : s.origin.getD [] = originMainnet)
    (hid : newline ∉ r.requestId.getD []) (hid' : newline ∉ s.requestId.getD []) :
    SameRequest py r s := by
  have hsame := hfree body body' hmade hmade' (mac_of_macHex hmac)
  have hline : newline ∉ originMainnet := by decide
  exact canonicalBytes_injective py (horigin ▸ hline) (horigin' ▸ hline) hid hid' hr (hsame ▸ hs)

/-- Responses that say the same are over one request MAC. -/
theorem macHex_of_sameResponse {r s : Response} {body body' : Bytes} (h : SameResponse py r s)
    (hr : r.requestHmac = macHex mac body) (hs : s.requestHmac = macHex mac body') :
    macHex mac body = macHex mac body' := by
  have hlower := h.requestHmac
  rw [hr, hs, macHex, macHex, lower_of_lowerHex py (lowerHex_hexText _),
    lower_of_lowerHex py (lowerHex_hexText _)] at hlower
  exact hlower

/-- Every reply that is taken is the signer's answer to the very request it was dialled with,
and a transaction that is returned with it is an anchor of the order that the signer has
signed.  A reply is no answer to two requests. -/
theorem taken_is_answer {levels : ℕ} {l : Link} (h : Runs py mac levels Link.idle l)
    (hfree : l.Collisionless py mac) :
    (∀ t ∈ l.taken, Bound py t.reply t.order ∧
      ∃ a ∈ l.answered, SameRequest py a.request t.payload.macArgs ∧
        SameResponse py a.response t.response ∧
        ∀ str env raw verified,
          requestSigned py mac str env levels t.order t.payload raw = .ok (t.reply, verified) →
            verified.fee = t.payload.policy.canonicalFee ∧ verified.fv = t.payload.policy.fv ∧
            verified.lv = t.payload.policy.lv ∧
            ∃ obj txn, msgpackDecode str true a.response.signed = .ok obj ∧
              AuthorizedAnchor py str env mainnet (orderExpected env t.order t.payload) obj txn) ∧
    ∀ t ∈ l.taken, ∀ t' ∈ l.taken, t.reply.responseHmac = t'.reply.responseHmac →
      SameRequest py t.payload.macArgs t'.payload.macArgs ∧ t.reply.signed = t'.reply.signed := by
  have hl := h.sound
  constructor
  · intro t ht
    obtain ⟨hbound, horigin, hid, ⟨body, hbody, hmade, hmac⟩, m, hm, hmadem, -⟩ := hl.take ht
    obtain ⟨a, ha, hsame⟩ := hmadem.answer hm
    obtain ⟨hhonest, hverified⟩ := hl.answered a ha
    obtain ⟨body', hbody', hmac'⟩ := hhonest.verified
    have hrequest : SameRequest py a.request t.payload.macArgs := by
      refine sameRequest_of_mac hfree hbody' hbody (hverified body' hbody') hmade
        (macHex_of_sameResponse hsame hmac' hmac) ?_ horigin ?_ hid
      · exact hhonest.origin.symm.trans (hsame.origin.trans horigin)
      · rw [← hhonest.requestId, hsame.requestId]
        exact hid
    refine ⟨hbound, a, ha, hrequest, hsame, ?_⟩
    intro str env raw verified hreturned
    obtain ⟨-, hfee, hfv, hlv, hanchor⟩ := requestSigned_eq_ok hreturned
    exact ⟨hfee, hfv, hlv, hsame.signed ▸ hanchor⟩
  · intro t ht t' ht' hresponse
    obtain ⟨-, horigin, hid, ⟨body, hbody, hmade, hmac⟩, m, hm, hmadem, hmacm⟩ := hl.take ht
    obtain ⟨-, horigin', hid', ⟨body', hbody', hmade', hmac'⟩, m', hm', hmadem', hmacm'⟩ :=
      hl.take ht'
    rw [hmacm, hmacm'] at hresponse
    have hsame := responseCanonicalBytes_injective py hm
      (hfree m m' hmadem hmadem' (mac_of_macHex hresponse) ▸ hm')
    exact ⟨sameRequest_of_mac hfree hbody hbody' hmade hmade'
      (macHex_of_sameResponse hsame hmac hmac') horigin horigin' hid hid', hsame.signed⟩

end Runs

/-! ## A run -/

section Sample

def sampleRoot : PyStr := List.replicate 64 (CodePoint.ofChar '1')

def sampleCheckpoint : PyStr :=
  originMainnet ++ [newline] ++ "1" ++ [newline] ++ b64encode (List.replicate 32 0x11) ++
    [newline, newline] ++ "— " ++ originMainnet ++ " " ++ b64encode (List.replicate 68 0) ++ [newline]

def sampleOrder : Order where
  origin := originMainnet
  treeSize := .int 1
  root := .value (.str sampleRoot)
  consistency := none
  timestamp := 1
  requestId := "ab"
  requestId_line := by decide
  checkpoint := sampleCheckpoint
  policy := NarrowPolicy.toJson
    { canonicalFee := 3000, feePerByte := 0, fv := 1, lastRound := 1, lv := 1001, minFee := 1000
      sizeRule := hmacSizeRule, sizeVersion := hmacSizeVersion, snapshotAt := 1 }

def sampleMac : Bytes → Bytes := Sha256.hmac (asciiBytes "token")

/-- The signer's line for the order. -/
def sampleLine : PyStr :=
  "\x7b\"ok\":true,\"tree_size\":1,\"root\":\"" ++ sampleRoot ++
    "\",\"pqsig\":\"present\",\"signed\":\"aa\",\"response_hmac\":\"" ++
    "49c71ce4baf9ffcca35fe4b69e280fc3330ee049b03b981d4b5190deab2191e7\"\x7d"

theorem sample_received : ((buildRequest Interp.plain sampleMac sampleOrder).bind fun p =>
    (receive Interp.plain sampleMac 9 sampleOrder p sampleLine).bind fun reply =>
      need (p.hmac ≠ reply.responseHmac)) = .ok () := by
  decide +kernel

theorem taken_is_answer_sample :
    ∃ l t, Runs Interp.plain sampleMac 9 Link.idle l ∧ l.Collisionless Interp.plain sampleMac ∧
      t ∈ l.taken ∧ t.order = sampleOrder ∧ ∃ a ∈ l.answered,
        SameRequest Interp.plain a.request t.payload.macArgs ∧
          SameResponse Interp.plain a.response t.response := by
  obtain ⟨p, hp, hline⟩ := bind_eq_ok.mp sample_received
  obtain ⟨reply, hreply, hne⟩ := bind_eq_ok.mp hline
  rw [need_eq_ok] at hne
  obtain ⟨-, -, -, body, hbody, hmac⟩ := buildRequest_eq_ok hp
  obtain ⟨reply', hparse, hreceived⟩ := bind_eq_ok.mp hreply
  obtain ⟨_, -, hsame⟩ := map_eq_ok.mp hreceived
  obtain rfl : reply = reply' := hsame.symm
  obtain ⟨m, hm, hresponse⟩ := parseAuthenticatedReply_eq_ok hparse
  let a : Answer := ⟨p.macArgs, responseOf p reply.treeSize reply.root reply.signed⟩
  let t : Taken := ⟨sampleOrder, p, reply⟩
  let l : Link := ⟨[(sampleOrder, p)], [a], [t]⟩
  have hhonest : a.Honest Interp.plain sampleMac :=
    { verified := ⟨body, hbody, hmac⟩, origin := rfl, requestId := rfl, checkpoint := rfl }
  have hruns : Runs Interp.plain sampleMac 9 Link.idle l :=
    .head (.dial hp) (.head
      (.answer hhonest fun body' hbody' => .inl ⟨_, List.mem_singleton_self _, hbody'⟩) (.single
        (.take (List.mem_singleton_self _) hreply fun m' hm' =>
          .inr ⟨a, List.mem_singleton_self _, hm'⟩)))
  have hmade : ∀ {m'}, Made Interp.plain l m' → m' = body ∨ m' = m := by
    rintro m' (⟨d, hd, hm'⟩ | ⟨b, hb, hm'⟩)
    · obtain rfl := List.mem_singleton.mp hd
      exact .inl (Except.ok.inj (hm'.symm.trans hbody))
    · obtain rfl := List.mem_singleton.mp hb
      exact .inr (Except.ok.inj (hm'.symm.trans hm))
  have hfree : l.Collisionless Interp.plain sampleMac := by
    intro m₁ m₂ h₁ h₂ hsame
    rw [hmac, hresponse] at hne
    rcases hmade h₁ with rfl | rfl <;> rcases hmade h₂ with rfl | rfl
    · rfl
    · exact absurd (congrArg hexText hsame) hne
    · exact absurd (congrArg hexText hsame.symm) hne
    · rfl
  obtain ⟨-, b, hb, hrequest, hsame, -⟩ :=
    (taken_is_answer hruns hfree).1 t (List.mem_singleton_self _)
  exact ⟨l, t, hruns, hfree, List.mem_singleton_self _, rfl, b, hb, hrequest, hsame⟩

end Sample

end Signal402.SignerMac
