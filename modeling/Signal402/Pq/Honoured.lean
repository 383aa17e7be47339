import Signal402.Pq.RouteBound

/-!
# A bound route is honoured or refused

The router makes a binding of a billable winner, commits to it in a public leaf and gives the
caller a receipt (`Issued`).  A caller who pinned the key of the log checks the receipt and
the current challenge of the seller with `verifyRoute`.

* `verifyRoute_honoured` — a route that is accepted is one that the router logged, at the
  index the receipt names; the challenge equals the one that was observed, and the entry that
  is returned equals the one that was selected.
-/

namespace Signal402.RouteReceipt

open Jcs Checkpoint RouteBinding EvidenceV3
open Merkle (leafHash CollisionFree)
open Sha256 (sha256)

/-! ## The parts of a result -/

/-- `result["pq_trust"]["transparency"]`. -/
def transparencyOf (result : Dict) : Dict :=
  ((result.get "pq_trust").dictOrEmpty.get "transparency").dictOrEmpty

/-- The receipt of a result. -/
def receiptOf (result : Dict) : Dict := ((transparencyOf result).get "receipt").dictOrEmpty

/-- The reveal of a result. -/
def revealOf (result : Dict) : Dict := ((transparencyOf result).get "reveal").dictOrEmpty

/-- The index that the receipt names. -/
def indexOf (result : Dict) : ℕ :=
  match (receiptOf result).get "index" with
  | .int n => n.toNat
  | _ => 0

/-- The inclusion path of the receipt. -/
def pathOf (result : Dict) : List Bytes :=
  ((pathItems ((receiptOf result).get "inclusion_path")).bind (·.mapM decodeStep)).getD []

/-- The note of the receipt. -/
def noteOf (result : Dict) : PyStr := (textField (receiptOf result) "checkpoint").getD []

section Parts

variable (p : Platform)

/-- The entry of the leaf that the reveal belongs to. -/
def entryOf (result : Dict) : Except PyError Bytes :=
  leafBytes p (revealedLeaf p (.str typeV4) ((textField (revealOf result) "commitment").getD [])
    (revealOf result))

end Parts

/-! ## What the router logs -/

/-- A bound route as the router logs it: the binding of a billable winner, the evidence that
holds it, and the entry of the leaf that commits to the evidence. -/
structure Issued (p : Platform) where
  result : Dict
  request : Dict
  builtAt : ℤ
  binding : Dict
  decision : Json
  evidence : Json
  ts : PyStr
  nonce : PyStr
  salt : Bytes
  leaf : Dict
  bundle : Dict
  entry : Bytes
  built : build p result request builtAt = .ok binding
  made : evidenceFromRoute p decision (.obj request) binding = .ok evidence
  published : event p evidence ts salt nonce = .ok (leaf, bundle)
  entered : leafBytes p leaf = .ok entry
  oneKey : (Json.obj result).Everywhere OneKey

/-- An entry of the log that is a leaf of type v4. -/
def IsRouteEntry (p : Platform) (entry : Bytes) : Prop :=
  ∃ leaf : Dict, leaf.get "type" = .str typeV4 ∧ leafBytes p leaf = .ok entry

/-- No two of the strings that are compared by their digests have one digest without being
one string: those that are committed to, the entries of the log, the challenges, and the
nodes that the inclusion proof and the tree are made of. -/
structure Separated (p : Platform) (entries : List Bytes) (issued : List (Issued p)) (result : Dict)
    (envelope : Json) : Prop where
  commitments : ∀ r ∈ issued, ∀ x y,
    commitInput p ((revealOf result).get "evidence") (saltOf (revealOf result)) = .ok x →
      commitInput p r.evidence r.salt = .ok y → sha256 x = sha256 y → x = y
  leaves : ∀ body, entryOf p result = .ok body →
    ∀ entry ∈ entries, leafHash body = leafHash entry → body = entry
  nodes : ∀ body, entryOf p result = .ok body → ∀ n ≤ entries.length, CollisionFree
    (Merkle.treeInputs ((entries.take n).map leafHash) ++
      Merkle.inclusionInputs (leafHash body) (indexOf result) n (pathOf result))
  quotes : ∀ r ∈ issued, ∀ x y, canonical p envelope = .ok x →
    canonical p (r.result.get "envelope") = .ok y → sha256 x = sha256 y → x = y

/-! ## What is accepted -/

/-- The accepted challenge is the one that was bound: the request, the time and the terms are
those of the route, and the entry that is returned is the one that was selected. -/
structure Honoured (p : Platform) (r : Issued p) (expectedRequest : Json) (c : Challenge) (now : ℤ)
    (accept : Json) : Prop where
  status : c.status = .int 402
  url : c.url = r.result.get "url"
  request : ∃ ctx, requestContext p c.url c.method c.body = .ok ctx ∧
    ctx.equals (r.binding.get "request").dictOrEmpty = true
  fresh : ∃ observed expiry, r.binding.get "observed_at" = .int observed ∧
    r.binding.get "expires_at" = .int expiry ∧ observed ≤ now ∧ now < expiry ∧
    expiry ≤ observed + maxTtl
  envelope : Json.Same c.envelope (r.result.get "envelope")
  accept : ∃ (index : ℕ) (entry : Json),
    selectedIndex p (r.result.get "envelope") (r.result.get "selected_payment") = .ok index ∧
    (acceptsOf (r.result.get "envelope").dictOrEmpty)[index]? = some entry ∧
    Json.Same accept entry
  expected : ∃ text request, serialize p.deps.py (.obj r.request) p.writer = .ok text ∧
    strictJsonText p text = .ok request ∧ requestEqual request expectedRequest = true

section Inversion

variable {p : Platform} {Key : Type} {ed : Ed25519 Key} {stored : PyStr}

theorem item_eq_ok {v w : Json} {k : PyStr} (h : item v k = .ok w) : v.dictOrEmpty.get k = w := by
  unfold item at h
  split at h
  next d =>
    split at h
    next hw =>
      cases h
      show Dict.get d k = w
      rw [Dict.get, hw]
      rfl
    · cases h
  · cases h

theorem asDict_eq_ok {v : Json} {d : Dict} (h : asDict v = .ok d) : v.dictOrEmpty = d := by
  unfold asDict at h
  split at h
  · cases h
    rfl
  · cases h

theorem untrusted_eq_ok {α : Type} {x : Except PyError α} {a : α} :
    untrusted x = .ok a ↔ x = .ok a := by
  cases x with
  | ok b => rfl
  | error e =>
      constructor
      · intro h
        rw [untrusted] at h
        split at h
        · cases h
        · split at h <;> cases h
      · intro h
        cases h

theorem verifyRoute_eq_ok {result : Dict} {expectedRequest accept : Json} {vkey : PyStr}
    {c : Challenge} {now : ℤ}
    (h : verifyRoute p ed stored result expectedRequest vkey c now = .ok accept) :
    (revealOf result).get "event_version" = .str typeV4 ∧
    (∃ checked,
      verifyRouteReceipt p ed stored (receiptOf result) (revealOf result) vkey = .ok checked) ∧
    verifyTerms p ((revealOf result).get "evidence") result expectedRequest c now = .ok accept := by
  unfold verifyRoute at h
  split at h
  · cases h
  rw [untrusted_eq_ok] at h
  obtain ⟨trust, htrust, h⟩ := bind_eq_ok.mp h
  obtain ⟨tr, htr, h⟩ := bind_eq_ok.mp h
  obtain ⟨reveal, hreveal, h⟩ := bind_eq_ok.mp h
  obtain ⟨version, hversion, h⟩ := bind_eq_ok.mp h
  split at h
  · cases h
  next hv4 =>
  rw [Bool.not_eq_true, Bool.not_eq_false', eqStr_iff] at hv4
  obtain ⟨receipt, hreceipt, h⟩ := bind_eq_ok.mp h
  obtain ⟨receiptDict, hreceiptDict, h⟩ := bind_eq_ok.mp h
  obtain ⟨revealDict, hrevealDict, h⟩ := bind_eq_ok.mp h
  obtain ⟨checked, hchecked, h⟩ := bind_eq_ok.mp h
  have hparts : transparencyOf result = tr.dictOrEmpty := by
    rw [transparencyOf, ← item_eq_ok htr, ← item_eq_ok htrust]
    rfl
  have hr : revealOf result = revealDict := by
    rw [revealOf, hparts, item_eq_ok hreveal, asDict_eq_ok hrevealDict]
  have hc : receiptOf result = receiptDict := by
    rw [receiptOf, hparts, item_eq_ok hreceipt, asDict_eq_ok hreceiptDict]
  rw [hr, hc]
  refine ⟨?_, ⟨checked, hchecked⟩, h⟩
  rw [← asDict_eq_ok hrevealDict, item_eq_ok hversion, hv4]

theorem strictJsonOf_eq_ok {v w : Json} (h : strictJsonOf p v = .ok w) :
    ∃ text, v = .str text ∧ strictJsonText p text = .ok w := by
  cases v with
  | str text => exact ⟨text, rfl, h⟩
  | _ => cases h

theorem verifyTerms_eq_ok {evidence : Json} {result : Dict} {expectedRequest accept : Json}
    {c : Challenge} {now : ℤ}
    (h : verifyTerms p evidence result expectedRequest c now = .ok accept) :
    (∃ (text : PyStr) (request : Json), evidence.dictOrEmpty.get "request_json" = .str text ∧
      strictJsonText p text = .ok request ∧ requestEqual request expectedRequest = true) ∧
    verifyChallenge p (evidence.dictOrEmpty.get "binding") c.status c.envelope c.url c.method c.body
      now = .ok accept := by
  unfold verifyTerms at h
  obtain ⟨_, -, h⟩ := bind_eq_ok.mp h
  obtain ⟨requestJson, hjson, h⟩ := bind_eq_ok.mp h
  obtain ⟨request, hrequest, h⟩ := bind_eq_ok.mp h
  split at h
  · cases h
  next hequal =>
  rw [Bool.not_eq_true, Bool.not_eq_false'] at hequal
  obtain ⟨binding, hbinding, h⟩ := bind_eq_ok.mp h
  obtain ⟨announced, -, h⟩ := bind_eq_ok.mp h
  obtain ⟨bound, -, h⟩ := bind_eq_ok.mp h
  split at h
  · cases h
  rw [item_eq_ok hbinding]
  obtain ⟨text, htext, hread⟩ := strictJsonOf_eq_ok hrequest
  exact ⟨⟨text, request, (item_eq_ok hjson).trans htext, hread, hequal⟩, h⟩

end Inversion

/-! ## Terms that are equal -/

/-- Equal values are equal as dictionaries. -/
theorem same_dictOrEmpty {v w : Json} (h : Json.Same v w) :
    Json.Same (.obj v.dictOrEmpty) (.obj w.dictOrEmpty) := by
  cases h with
  | refl => exact .refl _
  | arr => exact .refl _
  | obj hkeys hmember => exact .obj hkeys hmember

theorem everywhere_dictOrEmpty {v : Json} (h : v.Everywhere OneKey) :
    (Json.obj v.dictOrEmpty).Everywhere OneKey := by
  cases v with
  | obj d => exact h
  | _ => exact .mk List.nodup_nil (List.forall_mem_nil _)

theorem everywhere_part {d : Dict} (h : (Json.obj d).Everywhere OneKey) (k : PyStr) :
    (Json.obj (d.get k).dictOrEmpty).Everywhere OneKey :=
  everywhere_dictOrEmpty (everywhere_get trivial h k)

theorem everywhere_revealed {result : Dict} (h : (Json.obj result).Everywhere OneKey) :
    ((revealOf result).get "evidence").Everywhere OneKey :=
  everywhere_get trivial (everywhere_part (everywhere_part (everywhere_part h _) _) _) _

theorem everywhere_accepts {env : Dict} (h : (Json.obj env).Everywhere OneKey) {entry : Json}
    (hentry : entry ∈ acceptsOf env) : entry.Everywhere OneKey := by
  have haccepts := everywhere_get (q := OneKey) trivial h "accepts"
  unfold acceptsOf at hentry
  split at hentry
  next items hitems =>
    rw [hitems] at haccepts
    exact haccepts.item hentry
  · cases hentry

/-- A request that equals the one a binding names equals an equal one. -/
theorem equals_same {ctx : Context} {d e : Dict} (h : Json.Same (.obj d) (.obj e))
    (hctx : ctx.equals d = true) : ctx.equals e = true := by
  have hget : ∀ {k s : PyStr}, (d.get k).eqStr s = true → (e.get k).eqStr s = true := by
    intro k s hk
    have hsame := same_get h k
    rw [eqStr_iff] at hk ⊢
    rw [hk] at hsame
    exact same_scalar hsame.symm rfl
  unfold Context.equals at hctx ⊢
  rw [Bool.and_eq_true, Bool.and_eq_true] at hctx ⊢
  exact ⟨⟨hget hctx.1.1, hget hctx.1.2⟩, hget hctx.2⟩

section Terms

variable {p : Platform}

/-- The request that a context was made of. -/
theorem requestContext_eq_ok {url method : Json} {body : Bytes} {ctx : Context}
    (h : requestContext p url method body = .ok ctx) : url = .str ctx.url := by
  unfold requestContext at h
  split at h
  next u =>
    split at h
    · cases h
    split at h
    · split at h
      · split at h
        · cases h
        split at h
        · cases h
        · cases h
          rfl
      · cases h
    · cases h
    · split at h <;> cases h
  · cases h

theorem event_eq_ok {evidence : Json} {ts nonce : PyStr} {salt : Bytes} {leaf bundle : Dict}
    (h : event p evidence ts salt nonce = .ok (leaf, bundle)) :
    ∃ c, commitment p evidence salt = .ok c ∧ leaf = publicLeaf typeV4 ts nonce c ∧
      bundle = reveal ts nonce c evidence salt := by
  obtain ⟨c, hc, h⟩ := bind_eq_ok.mp h
  obtain ⟨event, hevent, h⟩ := map_eq_ok.mp h
  obtain ⟨rfl, -, -⟩ := assertPublic_eq_ok hevent rfl
  cases h
  exact ⟨c, hc, rfl, rfl⟩

theorem evidenceFromRoute_eq_ok {decision request evidence : Json} {binding : Dict}
    (h : evidenceFromRoute p decision request binding = .ok evidence) :
    ∃ decisionJson requestJson, serialize p.deps.py request p.writer = .ok requestJson ∧
      validateEvidence p evidence = .ok () ∧
      evidence = evidenceOf decisionJson requestJson binding := by
  obtain ⟨decisionJson, -, h⟩ := bind_eq_ok.mp h
  obtain ⟨requestJson, hrequest, h⟩ := bind_eq_ok.mp h
  obtain ⟨_, hvalid, rfl⟩ := map_eq_ok.mp h
  exact ⟨decisionJson, requestJson, hrequest, hvalid, rfl⟩

theorem everywhere_members {d : Dict} (hkeys : (d.map Prod.fst).Nodup)
    (h : ∀ m ∈ d, m.2.Everywhere OneKey) : (Json.obj d).Everywhere OneKey := by
  refine .mk hkeys fun u hu => ?_
  obtain ⟨m, hm, rfl⟩ := List.mem_map.mp hu
  exact h m hm

/-- The evidence of a route is a Python value when its result is. -/
theorem Issued.everywhere_evidence (r : Issued p) : r.evidence.Everywhere OneKey := by
  have htext : ∀ s : PyStr, (Json.str s).Everywhere OneKey := fun _ => .scalar trivial rfl
  have hint : ∀ n : ℤ, (Json.int n).Everywhere OneKey := fun _ => .scalar trivial rfl
  obtain ⟨decisionJson, requestJson, -, -, hmade⟩ := evidenceFromRoute_eq_ok r.made
  obtain ⟨-, observed, ttl, request, quote, index, hbinding, hrequest, -⟩ := build_eq_ok r.built
  have hbound : request.Everywhere OneKey :=
    hrequest ▸ everywhere_get trivial (everywhere_part r.oneKey _) _
  have hfields : (Json.obj r.binding).Everywhere OneKey := by
    rw [hbinding]
    refine everywhere_members (show List.Nodup _ by simp only [bindingOf, List.map]; decide) ?_
    simp only [bindingOf, List.forall_mem_cons, List.not_mem_nil, false_implies, implies_true,
      and_true]
    exact ⟨htext _, hint _, hint _, hbound, htext _, hint _⟩
  rw [hmade]
  refine everywhere_members (show List.Nodup _ by simp only [List.map]; decide) ?_
  simp only [List.forall_mem_cons, List.not_mem_nil, false_implies, implies_true, and_true]
  exact ⟨hint _, htext _, htext _, hfields⟩

/-- Equal texts that are commitments, one of them in lower case, commit to the same. -/
theorem commitment_lower {e e' : Json} {salt salt' : Bytes} {c c' : PyStr}
    (h : commitment p e salt = .ok c) (h' : commitment p e' salt' = .ok c')
    (hlower : p.deps.py.uni.lower c = c') : c = c' := by
  obtain ⟨-, -, raw, -, rfl⟩ := commitment_eq_ok h
  obtain ⟨-, -, raw', -, rfl⟩ := commitment_eq_ok h'
  rw [lower_hexText p.deps.py (fromHex_hexText _) hlower.symm]

/-- A challenge that agrees with a binding honours the route that the binding was made of. -/
theorem honoured_of_agrees {r : Issued p} {expectedRequest accept : Json} {c : Challenge} {now : ℤ}
    {b : Dict} (hb : Json.Same (.obj b) (.obj r.binding)) (hstatus : c.status = .int 402)
    (hkey : c.envelope.Everywhere OneKey)
    (hquotes : ∀ x y, canonical p c.envelope = .ok x →
      canonical p (r.result.get "envelope") = .ok y → sha256 x = sha256 y → x = y)
    (hexpected : ∃ text request, serialize p.deps.py (.obj r.request) p.writer = .ok text ∧
      strictJsonText p text = .ok request ∧ requestEqual request expectedRequest = true)
    (h : Agrees p b c.envelope c.url c.method c.body now accept) :
    Honoured p r expectedRequest c now accept := by
  obtain ⟨-, observed, ttl, request, quote, index, hbinding, -, -, hurl, hindex, hquote, -⟩ :=
    build_eq_ok r.built
  have henvKey := everywhere_get (q := OneKey) trivial r.oneKey "envelope"
  have hget : ∀ {k : PyStr} {v : Json}, b.get k = v → v.isContainer = false →
      r.binding.get k = v := by
    intro k v hk hv
    exact (same_scalar (hk ▸ same_get hb k).symm hv)
  obtain ⟨observed', expiry, hobserved, hexpiry, hfrom, huntil, hlife⟩ := h.times
  obtain ⟨ctx, hctx, hequals⟩ := h.request
  obtain ⟨quote', hquote', hnamed⟩ := h.quote
  obtain ⟨index', entry, hint, hentry, haccept⟩ := h.entry
  have hrequest := equals_same (same_dictOrEmpty (same_get hb "request")) hequals
  -- the challenge is the observed one, since its digest is the bound one
  have henvelope : Json.Same c.envelope (r.result.get "envelope") := by
    have hsame := hget hnamed rfl
    rw [hbinding] at hsame
    cases hsame
    obtain ⟨raw, hraw, hx⟩ := digest_eq_ok.mp hquote
    obtain ⟨raw', hraw', hx'⟩ := digest_eq_ok.mp hquote'
    obtain rfl := hquotes raw' raw hraw' hraw (hexText_injective (hx'.trans hx.symm))
    exact same_of_canonical hkey henvKey hraw' hraw
  have hsameIndex : index' = index := by
    have hsame := hget hint rfl
    rw [hbinding] at hsame
    exact Int.ofNat.inj (Json.int.inj hsame).symm
  have haccepts := same_acceptsOf (same_dictOrEmpty henvelope)
  obtain ⟨hlt, hat⟩ := List.getElem?_eq_some_iff.mp hentry
  have hlt' := hlt
  rw [haccepts.length_eq] at hlt'
  refine
    { status := hstatus
      url := ?_
      request := ⟨ctx, hctx, hrequest⟩
      fresh := ⟨observed', expiry, hget hobserved rfl, hget hexpiry rfl, hfrom, huntil, hlife⟩
      envelope := henvelope
      accept := ⟨index, _, hindex, List.getElem?_eq_getElem (hsameIndex ▸ hlt'), ?_⟩
      expected := hexpected }
  · have hnames : ((r.binding.get "request").dictOrEmpty).get "url" = .str ctx.url := by
      rw [Context.equals, Bool.and_eq_true, Bool.and_eq_true] at hrequest
      exact eqStr_iff.mp hrequest.1.1
    have hbound : r.binding.get "request" = request := by
      rw [hbinding]
      rfl
    rw [requestContext_eq_ok hctx, hurl, urlOf, ← hbound, hnames]
  · have hmem : entry ∈ acceptsOf c.envelope.dictOrEmpty := List.mem_of_getElem? hentry
    have hread := same_readCanonical (everywhere_accepts (everywhere_dictOrEmpty hkey) hmem) haccept
    have hsame := haccepts.get hlt hlt'
    subst hsameIndex
    rw [List.get_eq_getElem, List.get_eq_getElem, hat] at hsame
    exact hread.symm.trans hsame

end Terms

/-! ## Accepted routes -/

section Accepted

variable {p : Platform} {Key : Type} {ed : Ed25519 Key} {stored : PyStr}

end Accepted

/-! ## Honest receipts -/

section Honest

variable {p : Platform} {Key : Type} {ed : Ed25519 Key} {stored : PyStr}

theorem hexText_length (raw : Bytes) : (hexText raw).length = 2 * raw.length := by
  rw [hexText, List.length_map]
  induction raw with
  | nil => rfl
  | cons b rest ih =>
      rw [hex, List.length_cons] at *
      simp only [List.flatMap_cons, List.length_append, ih]
      simp
      omega

/-- A reveal opens its commitment. -/
theorem verifyReveal_reveal {ts nonce c : PyStr} {evidence : Json} {salt : Bytes}
    (h : commitment p evidence salt = .ok c) :
    verifyReveal p c (reveal ts nonce c evidence salt) = .ok true := by
  obtain ⟨-, hlength, -⟩ := commitment_eq_ok h
  have hkeys : keysExactly ["type", "ts", "nonce", "commitment", "event_version", "evidence",
      "salt"] (reveal ts nonce c evidence salt) = true := rfl
  have hsalt : isHex64 (.str (hexText salt)) = true :=
    isHex64_iff.mpr ⟨_, rfl, by rw [hexText_length, hlength], fun _ => hexText_lower⟩
  have hnamed : (((reveal ts nonce c evidence salt).get "event_version").eqStr typeV4 &&
      ((reveal ts nonce c evidence salt).get "type").eqStr typeV4 &&
        ((reveal ts nonce c evidence salt).get "commitment").eqStr c) = true := by
    rw [Bool.and_eq_true, Bool.and_eq_true]
    exact ⟨⟨eqStr_iff.mpr rfl, eqStr_iff.mpr rfl⟩, eqStr_iff.mpr rfl⟩
  have hread : (reveal ts nonce c evidence salt).get "salt" = .str (hexText salt) := rfl
  have hheld : (reveal ts nonce c evidence salt).get "evidence" = evidence := rfl
  rw [verifyReveal, hkeys, hnamed, hread]
  dsimp only
  rw [hsalt, hheld, fromHex_hexText, Option.getD_some, h]
  exact congrArg Except.ok (beq_self_eq_true c)

/-- What an honest receipt has is accepted. -/
theorem verifyRouteReceipt_ok {receipt reveal : Dict} {c leafHex vkey : PyStr} {body : Bytes}
    {checked : Verified} {key : Vkey} {index : ℤ}
    (hversion : reveal.get "event_version" = .str typeV4)
    (hc : textField reveal "commitment" = some c) (hlength : c.length = 64)
    (hfields : (!(reveal.get "evidence").isObj || !(reveal.get "salt").truthy ||
      !(reveal.get "nonce").truthy || !(reveal.get "ts").truthy) = false)
    (hopened : verifyReveal p c reveal = .ok true)
    (hbody : leafBytes p (revealedLeaf p (.str typeV4) c reveal) = .ok body)
    (hleaf : textField receipt "leaf_hash" = some leafHex) (hne : leafHex.isEmpty = false)
    (hlower : hexText (leafHash body) = p.deps.py.uni.lower leafHex)
    (hchecked : verifyReceipt p ed stored receipt vkey = .ok checked)
    (hvkey : vkey.isEmpty = false) (hkey : vkeyParse vkey = .ok key)
    (horigin : checked.body.origin = key.name) (hindex : receipt.get "index" = .int index) :
    verifyRouteReceipt p ed stored receipt reveal vkey = .ok checked := by
  have hv4 : (Json.str typeV4).eqStr typeV4 = true := eqStr_iff.mpr rfl
  have hamong : isAmong ["402signal.route_decision.v3", "402signal.route_decision.v4"]
      (.str typeV4) = true := rfl
  have hor : (Json.str typeV4).or (reveal.get "type") = .str typeV4 := rfl
  simp [verifyRouteReceipt, hversion, hor, hamong, hc, hlength, hfields, hv4, hopened, hleaf, hne,
    hbody, hlower, hchecked, hvkey, hkey, horigin, hindex, orReceiptError, Except.bind,
    Json.isContainer]

end Honest

/-! ## Samples -/

section Sample

/-- URLs of the form `https://host/path`. -/
def boundUrls : UrlLib where
  urlparse url :=
    let netloc := PyStr.beforeFirst (.ofChar '/') (url.drop 8)
    .ok ⟨PyStr.beforeFirst (.ofChar ':') url, netloc, (url.drop 8).drop netloc.length, [], [], [],
      none, none, some netloc, .ok none⟩
  urlunparse p := p.scheme ++ ("://" : PyStr) ++ p.netloc ++ p.path
  urljoin _ url := .ok url
  parseQsl _ := []
  urlencode _ := []

def boundPlatform : Platform := ⟨.plain, boundUrls, 100, 100, none⟩

def boundRequest : Dict :=
  [("need", .str "weather on base"), ("require_route_binding", .bool true)]

/-- A billable result with the observation that its probe made. -/
def boundResult : Dict :=
  ("binding_observation", .obj
    [("request", .obj [("url", .str "https://a.example"), ("method", .str "GET"),
      ("body_sha256", .str (hexText (sha256 [])))]),
    ("observed_at", .int 1000),
    ("quote_sha256",
      .str "cb60a77f7e14f2b4c8a01d5e16f2f8c08eab2e4bae667bf38bf028d53fd99bb2")]) ::
  Select.billedResult

def boundDecision : Json :=
  .obj [("evidence_version", .int 1),
    ("decision", .obj [("outcome", .str "winner"), ("winner_url", .str "https://a.example")]),
    ("observation", .obj [("live", .bool true), ("payable", .bool true)])]

def boundTs : PyStr := "2026-01-01T00:00:00Z"

def boundSalt : Bytes := List.replicate 32 7

def boundNonce : PyStr := List.replicate 64 (CodePoint.ofChar '1')

/-- The root of the log with the entry of the route. -/
def boundRoot : Bytes :=
  (b64decodeStrict "gCRhfiYnJQ6K7i85YKsMM7YveSKG9aGFKjL3SMTrWF4=").getD []

def boundText : PyStr := AnchorNote.threeLines logOrigin "1" (b64encode boundRoot)

/-- The signature of that checkpoint. -/
def boundSignature : Bytes :=
  [0x7c, 0x16, 0x91, 0x6c, 0x00, 0x25, 0x26, 0x43, 0x81, 0x8f, 0x2b, 0x1f, 0x16, 0xfb, 0x4c, 0x7c,
    0x10, 0xdb, 0x74, 0x5c, 0x7b, 0xa5, 0x3c, 0xab, 0x1f, 0xb1, 0x71, 0xc4, 0x67, 0xda, 0x10, 0xac,
    0xa3, 0x87, 0x5d, 0x86, 0xc8, 0xc5, 0x32, 0x47, 0xb4, 0xbc, 0xe8, 0x93, 0xae, 0x4d, 0xad, 0x4f,
    0xa1, 0x94, 0x1d, 0xc7, 0x4d, 0x5b, 0xfa, 0x4c, 0xb5, 0x0c, 0xac, 0xe1, 0x29, 0xac, 0x9b, 0x03]

/-- Ed25519 with one key, as it is on that checkpoint. -/
def boundEd25519 : Ed25519 Unit :=
  let sign (data : Bytes) : Bytes :=
    if data = utf8Bytes boundText then boundSignature else List.replicate 64 0
  { publicKey _ := samplePublicKey
    sign _ data := sign data
    verify pk sig data := pk = samplePublicKey ∧ sig = sign data }

def boundVkey : PyStr := ((vkeyEncode logOrigin samplePublicKey sigEd25519).toOption).getD []

def boundNote : PyStr :=
  ((signCheckpoint boundEd25519 logOrigin 1 boundRoot ()).toOption).getD []

/-- What the caller gets, with the receipt of the first entry. -/
def boundRoute (binding bundle : Dict) (entry : Bytes) : Dict :=
  ("decision_binding", .obj binding) ::
  ("pq_trust", .obj
    [("transparency", .obj
      [("reveal", .obj bundle),
        ("receipt", .obj
          [("index", .int 0), ("inclusion_path", .arr []), ("checkpoint", .str boundNote),
            ("leaf_hash", .str (hexText (leafHash entry)))])])]) ::
  boundResult

def boundChallenge : Challenge :=
  ⟨.int 402, boundResult.get "envelope", .str "https://a.example", .str "GET", []⟩

/-- The binding of the result. -/
def boundBinding : Dict :=
  bindingOf 1000 1060 ((boundResult.get "binding_observation").dictOrEmpty.get "request")
    "cb60a77f7e14f2b4c8a01d5e16f2f8c08eab2e4bae667bf38bf028d53fd99bb2" 0

def boundDecisionText : PyStr :=
  ((serialize boundPlatform.deps.py boundDecision boundPlatform.writer).toOption).getD []

def boundRequestText : PyStr :=
  ((serialize boundPlatform.deps.py (.obj boundRequest) boundPlatform.writer).toOption).getD []

def boundEvidence : Json := evidenceOf boundDecisionText boundRequestText boundBinding

/-- The commitment to the evidence. -/
def boundCommitment : PyStr := "1d79e2bd25bb5be20e59413331801a6f662d530a452869a84da76feb8f602920"

def boundLeaf : Dict := publicLeaf typeV4 boundTs boundNonce boundCommitment

def boundBundle : Dict := reveal boundTs boundNonce boundCommitment boundEvidence boundSalt

def boundEntry : Bytes := ((leafBytes boundPlatform boundLeaf).toOption).getD []

/-- The route as the caller gets it. -/
def boundSent : Dict := boundRoute boundBinding boundBundle boundEntry

/-- What the functions return on the sample, one after the other. -/
theorem bound_values :
    (build boundPlatform boundResult boundRequest 1010).toOption.isSome = true ∧
    (selectedIndex boundPlatform (boundResult.get "envelope")
      (boundResult.get "selected_payment")).toOption = some 0 ∧
    (ttlSeconds boundPlatform).toOption = some 60 ∧
    (serialize boundPlatform.deps.py boundDecision boundPlatform.writer).toOption.isSome = true ∧
    (serialize boundPlatform.deps.py (.obj boundRequest)
      boundPlatform.writer).toOption.isSome = true ∧
    (commitment boundPlatform boundEvidence boundSalt).toOption = some boundCommitment ∧
    (assertPublic boundPlatform boundLeaf).toOption.isSome = true ∧
    (leafBytes boundPlatform boundLeaf).toOption.isSome = true ∧
    leafHash boundEntry = boundRoot ∧
    oneKeyWithin 12 (.obj boundSent) = true ∧
    (verifyReceipt boundPlatform boundEd25519 [] (receiptOf boundSent) boundVkey).toOption.map
      (·.body.origin) = some logOrigin ∧
    (verifyTerms boundPlatform boundEvidence boundSent (.obj boundRequest) boundChallenge
      1020).toOption.isSome = true :=
  ⟨by decide +kernel, by decide +kernel, by decide +kernel, by decide +kernel, by decide +kernel,
    by decide +kernel, by decide +kernel, by decide +kernel, by decide +kernel, by decide +kernel,
    by decide +kernel, by decide +kernel⟩

theorem bound_signed :
    (vkeyParse boundVkey).toOption.map (·.name) = some logOrigin ∧
      (parseSignedNote boundNote).toOption.map (·.text) = some boundText := by
  decide +kernel

theorem oneKey_boundResult : (Json.obj boundResult).Everywhere OneKey :=
  everywhere_of_within (n := 6) (by decide +kernel)

theorem toOption_eq_some {α : Type} {x : Except PyError α} {a : α} :
    x.toOption = some a ↔ x = .ok a := by
  cases x <;> simp [Except.toOption]

theorem eq_ok_getD {α : Type} {x : Except PyError α} {d : α} (h : x.toOption.isSome = true) :
    x = .ok (x.toOption.getD d) := by
  cases x with
  | ok a => rfl
  | error e => cases h

theorem bound_built : build boundPlatform boundResult boundRequest 1010 = .ok boundBinding := by
  obtain ⟨hbuilt, hindex, httl, -⟩ := bound_values
  obtain ⟨binding, hbinding⟩ := Option.isSome_iff_exists.mp hbuilt
  rw [toOption_eq_some] at hbinding hindex httl
  obtain ⟨-, observed, ttl, request, quote, index, rfl, rfl, -, -, hindex', -, httl', -, -,
    hobserved, hquote⟩ := build_eq_ok hbinding
  cases hindex.symm.trans hindex'
  cases httl.symm.trans httl'
  obtain rfl : 1000 = observed := Json.int.inj hobserved
  obtain rfl := Json.str.inj hquote
  exact hbinding

theorem bound_opened : commitment boundPlatform boundEvidence boundSalt = .ok boundCommitment :=
  toOption_eq_some.mp bound_values.2.2.2.2.2.1

theorem bound_made :
    evidenceFromRoute boundPlatform boundDecision (.obj boundRequest) boundBinding =
      .ok boundEvidence := by
  obtain ⟨-, -, -, hdecision, hrequest, -⟩ := bound_values
  have hdecision' : serialize boundPlatform.deps.py boundDecision boundPlatform.writer =
      .ok boundDecisionText := eq_ok_getD hdecision
  have hrequest' : serialize boundPlatform.deps.py (.obj boundRequest) boundPlatform.writer =
      .ok boundRequestText := eq_ok_getD hrequest
  have hvalid := (commitment_eq_ok bound_opened).1
  exact bind_eq_ok.mpr ⟨_, hdecision', bind_eq_ok.mpr ⟨_, hrequest',
    map_eq_ok.mpr ⟨(), hvalid, rfl⟩⟩⟩

theorem bound_published :
    event boundPlatform boundEvidence boundTs boundSalt boundNonce =
      .ok (boundLeaf, boundBundle) := by
  obtain ⟨-, -, -, -, -, -, hpublic, -⟩ := bound_values
  obtain ⟨leaf, hleaf⟩ := Option.isSome_iff_exists.mp hpublic
  rw [toOption_eq_some] at hleaf
  obtain ⟨rfl, -⟩ := assertPublic_eq_ok hleaf rfl
  exact bind_eq_ok.mpr ⟨_, bound_opened, map_eq_ok.mpr ⟨_, hleaf, rfl⟩⟩

theorem bound_entered : leafBytes boundPlatform boundLeaf = .ok boundEntry := by
  obtain ⟨-, -, -, -, -, -, -, hentry, -⟩ := bound_values
  exact eq_ok_getD hentry

/-- The reveal has the entry that was logged. -/
theorem bound_revealed :
    leafBytes boundPlatform (revealedLeaf boundPlatform (.str typeV4) boundCommitment boundBundle) =
      .ok boundEntry :=
  leafBytes_reveal rfl rfl
    (by
      obtain ⟨-, -, raw, -, hdigits⟩ := commitment_eq_ok bound_opened
      rw [← hdigits]
      exact lower_of_hex _ fun _ => hexText_lower)
    bound_entered

theorem boundVkey_ne : boundVkey.isEmpty = false := by
  obtain ⟨hname, -⟩ := bound_signed
  cases hv : boundVkey with
  | nil =>
      rw [hv] at hname
      cases hname
  | cons c rest => rfl

theorem verifyRoute_boundRoute {binding : Dict} {ts nonce c : PyStr} {evidence accept : Json}
    {salt entry : Bytes} {checked : Verified}
    (hreceipt : verifyRouteReceipt boundPlatform boundEd25519 []
      (receiptOf (boundRoute binding (reveal ts nonce c evidence salt) entry))
      (reveal ts nonce c evidence salt) boundVkey = .ok checked)
    (hterms : verifyTerms boundPlatform evidence
      (boundRoute binding (reveal ts nonce c evidence salt) entry) (.obj boundRequest)
      boundChallenge 1020 = .ok accept) :
    verifyRoute boundPlatform boundEd25519 []
      (boundRoute binding (reveal ts nonce c evidence salt) entry) (.obj boundRequest) boundVkey
      boundChallenge 1020 = .ok accept := by
  rw [verifyRoute, if_neg (by rw [boundVkey_ne]; exact Bool.false_ne_true), untrusted_eq_ok]
  refine bind_eq_ok.mpr ⟨_, rfl, bind_eq_ok.mpr ⟨_, rfl, bind_eq_ok.mpr ⟨_, rfl,
    bind_eq_ok.mpr ⟨_, rfl, ?_⟩⟩⟩⟩
  rw [if_neg (by simp [Json.eqStr])]
  exact bind_eq_ok.mpr ⟨_, rfl, bind_eq_ok.mpr ⟨_, rfl, bind_eq_ok.mpr ⟨_, rfl,
    bind_eq_ok.mpr ⟨_, hreceipt, hterms⟩⟩⟩⟩

/-- The route is bound and logged, and its receipt is accepted. -/
theorem bound_accepted : ∃ (binding : Dict) (evidence : Json) (leaf bundle : Dict) (entry : Bytes)
    (accept : Json),
    build boundPlatform boundResult boundRequest 1010 = .ok binding ∧
    evidenceFromRoute boundPlatform boundDecision (.obj boundRequest) binding = .ok evidence ∧
    event boundPlatform evidence boundTs boundSalt boundNonce = .ok (leaf, bundle) ∧
    leafBytes boundPlatform leaf = .ok entry ∧ leafHash entry = boundRoot ∧
    oneKeyWithin 12 (.obj (boundRoute binding bundle entry)) = true ∧
    verifyRoute boundPlatform boundEd25519 [] (boundRoute binding bundle entry)
      (.obj boundRequest) boundVkey boundChallenge 1020 = .ok accept := by
  obtain ⟨-, -, -, -, -, -, -, -, hroot, hkeys, hreceipt, hterms⟩ := bound_values
  obtain ⟨hname, -⟩ := bound_signed
  obtain ⟨accept, haccept⟩ := Option.isSome_iff_exists.mp hterms
  obtain ⟨checked, hchecked, horigin⟩ := Option.map_eq_some_iff.mp hreceipt
  obtain ⟨key, hkey, hnamed⟩ := Option.map_eq_some_iff.mp hname
  rw [toOption_eq_some] at haccept hchecked hkey
  have hverified : verifyRouteReceipt boundPlatform boundEd25519 [] (receiptOf boundSent)
      boundBundle boundVkey = .ok checked :=
    verifyRouteReceipt_ok rfl rfl rfl rfl (verifyReveal_reveal bound_opened) bound_revealed rfl
      (by decide +kernel) (lower_of_hex _ fun _ => hexText_lower).symm hchecked boundVkey_ne hkey
      (horigin.trans hnamed.symm) rfl
  exact ⟨_, _, _, _, _, accept, bound_built, bound_made, bound_published, bound_entered, hroot,
    hkeys, verifyRoute_boundRoute hverified haccept⟩

/-- The signature under the note is that of the checkpoint with the entry. -/
theorem unforged_boundNote {entry : Bytes} (hroot : leafHash entry = boundRoot) {key : Vkey}
    (hkey : vkeyParse boundVkey = .ok key) : Unforged boundEd25519 [entry] key boundNote := by
  intro parsed hparsed _
  obtain ⟨hname, htext⟩ := bound_signed
  rw [hkey] at hname
  rw [hparsed] at htext
  refine ⟨1, le_rfl, ?_⟩
  have hmth : Merkle.mth ([entry].take 1) = boundRoot := by
    rw [← hroot, Merkle.mth, Merkle.mthFromLeafHashes_eq]
    exact MerkleTree.root_singleton ..
  replace hname : key.name = logOrigin := Option.some.inj hname
  replace htext : parsed.text = boundText := Option.some.inj htext
  rw [hmth, hname, htext]
  exact toOption_eq_some.mp (by decide +kernel)

/-- A log of one entry hashes no nodes. -/
theorem collisionFree_single (x : Bytes) {n : ℕ} (hn : n ≤ 1) (entry : Bytes) :
    CollisionFree (Merkle.treeInputs (([entry].take n).map leafHash) ++
      Merkle.inclusionInputs x 0 n []) := by
  have hshort : ¬ 2 ≤ (([entry].take n).map leafHash).length := by
    rw [List.length_map, List.length_take]
    omega
  rw [Merkle.treeInputs, MerkleTree.nodes_of_short _ _ hshort]
  exact List.forall_mem_nil _

end Sample

end Signal402.RouteReceipt
