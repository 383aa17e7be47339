import Signal402.Route.Options

/-!
# The accept that a payment takes (`match_accept`)

Which advertised entry of `accepts` an inbound payment is for.  A payment declares one
version, the resource, network, scheme, amount and payee; `matchAccept` returns the first
entry that has all of them.

Versions are not compared with each other: a payment of version 1 may take an entry of
version 2.  What the version decides is how a network is written, on either side.
-/

namespace Signal402.Payment

/-- `resource_url_of`. -/
def resourceUrlOf : Json → Option PyStr
  | .str s => Signal402.text (some s)
  | .obj d =>
      match Dict.get d "resource" with
      | .str s => Signal402.text (some s)
      | .obj resource =>
          match Dict.get resource "url" with
          | .str s => Signal402.text (some s)
          | _ => none
      | _ => none
  | _ => none

/-- The fields of a payment of version 1, which are those of its accept. -/
def acceptFields : List PyStr :=
  ["scheme", "network", "asset", "payTo", "amount", "maxAmountRequired", "extra"]

/-- `_accepted_from_payload`. -/
def acceptedFromPayload (payload : Dict) : Dict :=
  match payload.get "accepted" with
  | .obj accepted => accepted
  | _ => acceptFields.filterMap fun key => (payload.get? key).map fun value => (key, value)

/-- The literal versions that are given: nothing is, or something that is no version. -/
def givenVersion (obj : Dict) : Option (Option ℤ) :=
  (obj.get? "x402Version").map literalX402Version

/-- `inbound_payload_version`: the one version that the payload and its accept give. -/
def inboundPayloadVersion (payload : Dict) : Option ℤ :=
  match givenVersion payload, givenVersion (acceptedFromPayload payload) with
  | some (some v), none => some v
  | none, some (some v) => some v
  | some (some v), some (some w) => if w = v then some v else none
  | _, _ => none

/-- `inbound_client_network`. -/
def inboundClientNetwork (payload : Dict) : Json :=
  let accepted := acceptedFromPayload payload
  if (accepted.get? "network").isSome then accepted.get "network" else payload.get "network"

/-- `inbound_client_amount`: the amount under the field of the version. -/
def inboundClientAmount (accepted : Dict) (version : ℤ) : Option ℤ :=
  (wireAmount accepted version).map Prod.snd

/-- `advertised_accept_amount`. -/
def advertisedAcceptAmount (entry : Dict) : Option ℤ :=
  let raw := entry.get "amount"
  canonicalAtomicString
    (if raw.isNull || raw.eqStr [] then entry.get "maxAmountRequired" else raw)

section Match

variable (py : Interp)

/-- `token_of`. -/
def tokenOf (req : Dict) : PyStr :=
  let asset := (py.strOrEmpty (req.get "asset")).strip
  let currency := (py.strOrEmpty (req.get "currency")).strip
  let named := [("USDC" : PyStr), "USD", ""].contains (py.uni.upper asset)
  let first := if named then currency else asset
  if first.isEmpty then (if named then asset else currency) else first

/-- The tokens are the same up to the case of letters, or one is the name of USDC. -/
def sameToken (client our : PyStr) : Bool :=
  let c := norm py.uni client
  let o := norm py.uni our
  c == o || [("usdc" : PyStr), "usd"].contains c || [("usdc" : PyStr), "usd"].contains o

/-- The version an entry is read under: its own, or the envelope's. -/
def offeredVersion (entry required : Dict) : ℤ :=
  (literalX402Version (entry.get "x402Version")).getD
    ((literalX402Version (required.get "x402Version")).getD 2)

/-- What a payment declares. -/
structure Declared where
  url : PyStr
  rail : Rail
  payTo : Json
  amount : ℤ
  token : PyStr

/-- The first half of `match_accept`: what the payment declares, for a resource. -/
def declared (payload : Dict) (url : PyStr) : Option Declared :=
  let accepted := acceptedFromPayload payload
  let payloadUrl := resourceUrlOf (.obj payload)
  let acceptedUrl := resourceUrlOf (.obj accepted)
  if payloadUrl.any (· ≠ url) ∨ acceptedUrl.any (· ≠ url) ∨ payloadUrl.or acceptedUrl ≠ some url
  then none
  else
    (inboundPayloadVersion payload).bind fun version =>
      (railOfObservedNetwork (inboundClientNetwork payload) version).bind fun rail =>
        if !(accepted.get "payTo").truthy then none
        else
          (inboundClientAmount accepted version).bind fun amount =>
            if (tokenOf py accepted).isEmpty then none
            else if !(accepted.get "scheme").eqStr "exact" then none
            else some ⟨url, rail, accepted.get "payTo", amount, tokenOf py accepted⟩

/-- The tests of `match_accept` on one offered entry. -/
def takes (d : Declared) (required : Dict) (item : Json) : Bool :=
  match item.asObj? with
  | none => false
  | some entry =>
      (resourceUrlOf item).all (· == d.url) &&
        (Dict.get entry "scheme").eqStr "exact" &&
        railOfObservedNetwork (Dict.get entry "network") (offeredVersion entry required) ==
          some d.rail &&
        paytoEqual py.uni (py.str? d.payTo) (py.str? (Dict.get entry "payTo"))
          (some d.rail.name) &&
        advertisedAcceptAmount entry == some d.amount &&
        !(tokenOf py entry).isEmpty &&
        sameToken py d.token (tokenOf py entry)

/-- `for item in x or []`. -/
def itemsOf : Json → Except PyError (List Json)
  | .arr items => .ok items
  | .obj d => .ok (d.map fun m => .str m.1)
  | .str s => .ok (s.map fun c => .str [c])
  | x => if x.truthy then .error ⟨.typeError, "object is not iterable"⟩ else .ok []

/-- `match_accept`. -/
def matchAccept (payload required : Json) : Except PyError (Option Json) :=
  match required.asObj? with
  | none => .ok none
  | some req =>
      match resourceUrlOf required with
      | none => .ok none
      | some url =>
          match declared py payload.dictOrEmpty url with
          | none => .ok none
          | some d => (itemsOf (Dict.get req "accepts")).map fun items => items.find? (takes py d req)

/-! ## What the returned entry agrees with -/

/-- What a payment declares, read from its fields. -/
structure Declares (payload : Dict) (d : Declared) : Prop where
  url : (resourceUrlOf (.obj payload)).or (resourceUrlOf (.obj (acceptedFromPayload payload))) =
    some d.url
  payloadUrl : ∀ u, resourceUrlOf (.obj payload) = some u → u = d.url
  acceptedUrl : ∀ u, resourceUrlOf (.obj (acceptedFromPayload payload)) = some u → u = d.url
  /-- The rail and the amount are those of the one version that is given. -/
  version : ∃ v, inboundPayloadVersion payload = some v ∧
    railOfObservedNetwork (inboundClientNetwork payload) v = some d.rail ∧
    inboundClientAmount (acceptedFromPayload payload) v = some d.amount
  scheme : ((acceptedFromPayload payload).get "scheme").eqStr "exact" = true
  payTo : d.payTo = (acceptedFromPayload payload).get "payTo" ∧ d.payTo.truthy = true
  token : d.token = tokenOf py (acceptedFromPayload payload) ∧ d.token ≠ []

/-- What an entry of an envelope offers is what was declared. -/
structure Offers (d : Declared) (required entry : Dict) : Prop where
  url : ∀ u, resourceUrlOf (.obj entry) = some u → u = d.url
  scheme : (entry.get "scheme").eqStr "exact" = true
  rail : railOfObservedNetwork (entry.get "network") (offeredVersion entry required) =
    some d.rail
  payTo : paytoEqual py.uni (py.str? d.payTo) (py.str? (entry.get "payTo")) (some d.rail.name) =
    true
  amount : advertisedAcceptAmount entry = some d.amount
  token : tokenOf py entry ≠ [] ∧ sameToken py d.token (tokenOf py entry) = true

/-- An entry offers what a payment declares, for the resource of the envelope. -/
def Agrees (payload required entry : Dict) : Prop :=
  ∃ d, resourceUrlOf (.obj required) = some d.url ∧ Declares py payload d ∧
    Offers py d required entry

variable {py}

theorem Declares.unique {payload : Dict} {d d' : Declared} (h : Declares py payload d)
    (h' : Declares py payload d') : d = d' := by
  obtain ⟨v, hv, hrail, hamount⟩ := h.version
  obtain ⟨v', hv', hrail', hamount'⟩ := h'.version
  obtain rfl : v = v' := Option.some.inj (hv.symm.trans hv')
  have hurl : d.url = d'.url := Option.some.inj (h.url.symm.trans h'.url)
  have hrail : d.rail = d'.rail := Option.some.inj (hrail.symm.trans hrail')
  have hamount : d.amount = d'.amount := Option.some.inj (hamount.symm.trans hamount')
  have hpayTo : d.payTo = d'.payTo := h.payTo.1.trans h'.payTo.1.symm
  have htoken : d.token = d'.token := h.token.1.trans h'.token.1.symm
  cases d
  cases d'
  simp_all

/-- A stated address may be left out. -/
theorem any_ne_iff {stated : Option PyStr} {url : PyStr} :
    ¬ stated.any (· ≠ url) = true ↔ ∀ u, stated = some u → u = url := by
  cases stated <;> simp

theorem declared_eq_some {payload : Dict} {url : PyStr} {d : Declared} :
    declared py payload url = some d ↔ d.url = url ∧ Declares py payload d := by
  unfold declared
  simp only [Option.ite_none_left_eq_some, Option.bind_eq_some_iff, not_or, any_ne_iff,
    Bool.not_eq_true', Bool.not_eq_false, ne_eq, not_not, Option.some.injEq]
  constructor
  · rintro ⟨⟨hpayload, haccepted, hurl⟩, v, hv, rail, hrail, hpayTo, amount, hamount, htoken,
      hscheme, rfl⟩
    exact ⟨rfl, hurl, hpayload, haccepted, ⟨v, hv, hrail, hamount⟩, hscheme, ⟨rfl, hpayTo⟩,
      rfl, by simpa using htoken⟩
  · rintro ⟨rfl, h⟩
    obtain ⟨v, hv, hrail, hamount⟩ := h.version
    obtain ⟨hpayTo, htruthy⟩ := h.payTo
    obtain ⟨htoken, hne⟩ := h.token
    rw [hpayTo] at htruthy
    rw [htoken] at hne
    refine ⟨⟨h.payloadUrl, h.acceptedUrl, h.url⟩, v, hv, d.rail, hrail, htruthy, d.amount, hamount,
      by simpa using hne, h.scheme, ?_⟩
    rw [← hpayTo, ← htoken]

theorem takes_iff {d : Declared} {required entry : Dict} :
    takes py d required (.obj entry) = true ↔ Offers py d required entry := by
  unfold takes
  simp only [Json.asObj?, Bool.and_eq_true, beq_iff_eq, Bool.not_eq_true']
  constructor
  · rintro ⟨⟨⟨⟨⟨⟨h1, h2⟩, h3⟩, h4⟩, h5⟩, h6⟩, h7⟩
    refine ⟨?_, h2, h3, h4, h5, ?_, h7⟩
    · intro u hu
      simpa [hu] using h1
    · simpa using h6
  · intro h
    refine ⟨⟨⟨⟨⟨⟨?_, h.scheme⟩, h.rail⟩, h.payTo⟩, h.amount⟩, ?_⟩, h.token.2⟩
    · cases hu : resourceUrlOf (.obj entry) with
      | none => rfl
      | some u => simpa using h.url u hu
    · simpa using h.token.1

theorem takes_obj {d : Declared} {required : Dict} {item : Json}
    (h : takes py d required item = true) : ∃ entry, item = .obj entry := by
  cases item with
  | obj entry => exact ⟨entry, rfl⟩
  | null | bool _ | int _ | float _ | str _ | arr _ => cases h

/-- Only a list holds entries that are dictionaries. -/
theorem itemsOf_obj {x : Json} {items : List Json} {entry : Dict} (h : itemsOf x = .ok items)
    (hmem : .obj entry ∈ items) : x = .arr items := by
  cases x with
  | arr xs =>
      cases h
      rfl
  | obj d =>
      cases h
      obtain ⟨m, -, hm⟩ := List.mem_map.mp hmem
      cases hm
  | str s =>
      cases h
      obtain ⟨c, -, hc⟩ := List.mem_map.mp hmem
      cases hc
  | null | bool _ | int _ | float _ =>
      simp only [itemsOf] at h
      split at h
      · cases h
      · cases h
        exact absurd hmem List.not_mem_nil

/-- **The accept of a payment**: what `match_accept` returns is an offered entry that the
payment declares, and when all such entries are one it is returned. -/
theorem matchAccept_spec {payload required : Json} :
    (∀ item, matchAccept py payload required = .ok (some item) →
      ∃ (req : Dict) (items : List Json) (entry : Dict), required = .obj req ∧
        Dict.get req "accepts" = .arr items ∧ item = .obj entry ∧ item ∈ items ∧
        Agrees py payload.dictOrEmpty req entry) ∧
    ∀ (req : Dict) (items : List Json) (entry : Dict), required = .obj req →
      Dict.get req "accepts" = .arr items → Json.obj entry ∈ items →
      Agrees py payload.dictOrEmpty req entry →
      (∀ other, Json.obj other ∈ items → Agrees py payload.dictOrEmpty req other →
        other = entry) →
      matchAccept py payload required = .ok (some (.obj entry)) := by
  constructor
  · intro item h
    unfold matchAccept at h
    cases required with
    | null | bool _ | int _ | float _ | str _ | arr _ => cases h
    | obj req =>
        dsimp only [Json.asObj?] at h
        cases hurl : resourceUrlOf (.obj req) with
        | none =>
            rw [hurl] at h
            cases h
        | some url =>
            rw [hurl] at h
            dsimp only at h
            cases hd : declared py payload.dictOrEmpty url with
            | none =>
                rw [hd] at h
                cases h
            | some d =>
                rw [hd] at h
                obtain ⟨items, hitems, hfind⟩ := map_eq_ok.mp h
                obtain ⟨hmem, htakes⟩ :=
                  And.intro (List.mem_of_find?_eq_some hfind) (List.find?_some hfind)
                obtain ⟨entry, rfl⟩ := takes_obj htakes
                obtain ⟨rfl, hdeclares⟩ := declared_eq_some.mp hd
                exact ⟨req, items, entry, rfl, itemsOf_obj hitems hmem, rfl, hmem, d, hurl,
                  hdeclares, takes_iff.mp htakes⟩
  · rintro req items entry rfl hitems hmem ⟨d, hurl, hdeclares, hoffers⟩ hunique
    have hd : declared py payload.dictOrEmpty d.url = some d :=
      declared_eq_some.mpr ⟨rfl, hdeclares⟩
    unfold matchAccept
    dsimp only [Json.asObj?]
    rw [hurl]
    dsimp only
    rw [hd, hitems]
    change Except.ok (items.find? (takes py d req)) = _
    -- what is found first is one of the entries that agree
    obtain ⟨found, hfound⟩ : ∃ found, items.find? (takes py d req) = some found :=
      Option.isSome_iff_exists.mp (List.find?_isSome.mpr ⟨_, hmem, takes_iff.mpr hoffers⟩)
    obtain ⟨other, rfl⟩ := takes_obj (List.find?_some hfound)
    have hagrees : Agrees py payload.dictOrEmpty req other :=
      ⟨d, hurl, hdeclares, takes_iff.mp (List.find?_some hfound)⟩
    rw [hfound, hunique other (List.mem_of_find?_eq_some hfound) hagrees]

end Match

/-! ## Sample payments -/

/-- An envelope of version 2 with one entry. -/
def requiredFor (rail : Rail) : Dict :=
  [("x402Version", .int 2),
    ("resource", .obj [("url", .str "https://402signal.com/route")]),
    ("accepts", .arr [usdcAccept rail 3000])]

/-- A payment of version 1 on Base. -/
def paymentOfVersionOne : Dict :=
  [("x402Version", .int 1),
    ("resource", .str "https://402signal.com/route"),
    ("scheme", .str "exact"),
    ("network", .str "base"),
    ("asset", .str usdcBase),
    ("maxAmountRequired", .str "3000"),
    ("payTo", .str "0xb18fc2275f36dae99eb215caeff03b431f887d16")]

/-- A payment of version 2 on Solana, in some token. -/
def paymentOnSolana (mint : PyStr) : Dict :=
  [("x402Version", .int 2),
    ("resource", .obj [("url", .str "https://402signal.com/route")]),
    ("accepted", .obj
      [("scheme", .str "exact"),
        ("network", .str solanaMainnet),
        ("asset", .str mint),
        ("amount", .str "3000"),
        ("payTo", .str "HCM423cyKYVUoq9GvmqUphZwYVB6M2wez34i9jzSewLy")])]

/-- The entry of an envelope is the one its payment declares. -/
theorem matchAccept_spec_versions :
    ∃ (req : Dict) (items : List Json) (entry : Dict),
      Json.obj (requiredFor .base) = .obj req ∧ Dict.get req "accepts" = .arr items ∧
        usdcAccept .base 3000 = .obj entry ∧ usdcAccept .base 3000 ∈ items ∧
        Agrees .plain paymentOfVersionOne req entry := by
  have hmatch : matchAccept .plain (.obj paymentOfVersionOne) (.obj (requiredFor .base)) =
      .ok (some (usdcAccept .base 3000)) := rfl
  exact matchAccept_spec.1 _ hmatch

/-- A payment of version 1 takes an entry of version 2, and a payment on Solana takes an
entry whose mint differs in the case of its letters. -/
theorem versions_and_mints_differ :
    (∃ entry, matchAccept .plain (.obj paymentOfVersionOne) (.obj (requiredFor .base)) =
        .ok (some (.obj entry)) ∧ inboundPayloadVersion paymentOfVersionOne = some 1 ∧
      offeredVersion entry (requiredFor .base) = 2) ∧
    ∃ entry mint, matchAccept .plain (.obj (paymentOnSolana mint)) (.obj (requiredFor .solana)) =
        .ok (some (.obj entry)) ∧ tokenOf .plain entry = usdcSolanaMint ∧
      mint ≠ usdcSolanaMint ∧ PyStr.lower mint = PyStr.lower usdcSolanaMint := by
  refine ⟨⟨_, rfl, rfl, rfl⟩, _, PyStr.lower usdcSolanaMint, rfl, rfl, ?_, rfl⟩
  decide

end Signal402.Payment
