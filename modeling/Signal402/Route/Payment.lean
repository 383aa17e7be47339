import Signal402.Base.Interp
import Signal402.Lib.Sha512

/-!
# Payment options (`payment.py`)

What a 402 answer offers to take, read strictly: `validateObservedAccept` accepts an
entry of `accepts` only when its version, scheme, network, amount, asset and payee are
each well formed, and `paymentOptionsFromResult` lists the options of a routing result.

Keccak, which the checksum of an EVM address needs, is a library outside the
repository and may be missing; it is a parameter.
-/

namespace Signal402

namespace Rail

/-- The short name. -/
def name : Rail → PyStr
  | .base => "base"
  | .solana => "solana"
  | .algorand => "algorand"

/-- The rail with a short name. -/
def ofName (s : PyStr) : Option Rail :=
  if s = "base" then some .base
  else if s = "solana" then some .solana
  else if s = "algorand" then some .algorand
  else none

@[simp] theorem ofName_name (r : Rail) : ofName r.name = some r := by
  cases r <;> rfl

theorem name_of_ofName {s : PyStr} {r : Rail} (h : ofName s = some r) : s = r.name := by
  unfold ofName at h
  split at h
  · cases h; assumption
  split at h
  · cases h; assumption
  split at h
  · cases h; assumption
  · exact absurd h (by simp)

theorem name_injective : Function.Injective name := fun r s h =>
  Option.some.inj (by rw [← ofName_name r, ← ofName_name s, h])

end Rail

/-- `x in SUPPORTED_RAILS`, for the rail it names; a list or a dictionary raises. -/
def supportedRail : Json → Except PyError (Option Rail)
  | .str s => .ok (Rail.ofName s)
  | .arr _ | .obj _ => .error ⟨.typeError, "unhashable type"⟩
  | _ => .ok none

namespace Payment

def usdcBase : PyStr := "0x833589fCD6eDb6E08f4c7C32D4f71b54bdA02913"

def usdcAlgorandAsa : PyStr := "31566704"

def usdcSolanaMint : PyStr := "EPjFWdd5AufqSSqeM2qN1xzybapC8G4wEGGkZwyTDt1v"

def usdcDecimals : ℕ := 6

def maxAtomicAmount : ℤ := 9223372036854775807

def maxAcceptTimeoutSeconds : ℤ := 86400

def maxAtomicTextLen : ℕ := 20

/-- One way to pay, as an entry of `accepts` offers it. -/
structure PaymentOption where
  network : Option PyStr
  rail : Option Rail
  asset : Option PyStr
  amountAtomic : Option ℤ
  decimals : Option ℕ
  displayAmount : Option PyStr
  normalizedUsd : Option PyFloat
  payTo : Option PyStr
  facilitator : Option PyStr
  scheme : Option PyStr
  version : Json

/-! ## Networks and amounts -/

/-- `rail_of_observed_network`: exact identifiers, short names in version 1 only. -/
def railOfObservedNetwork (network : Json) (version : ℤ) : Option Rail :=
  match network with
  | .str n =>
      if version = 2 then
        if n = baseCaip2 then some .base
        else if n = solanaMainnet then some .solana
        else if n = algorandMainnet then some .algorand
        else none
      else if version = 1 then
        if n = "base" ∨ n = baseCaip2 then some .base
        else if n = "solana" ∨ n = solanaMainnet then some .solana
        else if n = "algorand" ∨ n = algorandMainnet then some .algorand
        else none
      else none
  | _ => none

/-- `canonical_atomic_string`: the canonical decimal of an amount in range. -/
def canonicalAtomicString : Json → Option ℤ
  | .str s =>
      if !s.isDecimal then none
      else if maxAtomicTextLen < s.length then none
      else if 1 < s.length ∧ s.head? = some (CodePoint.ofChar '0') then none
      else if maxAtomicAmount < s.decimalValue then none
      else some s.decimalValue
  | _ => none

/-- `_literal_x402_version`. -/
def literalX402Version : Json → Option ℤ
  | .int n => if n = 1 ∨ n = 2 then some n else none
  | _ => none

/-- `_literal_timeout`. -/
def literalTimeout : Json → Option ℤ
  | .int n => if n < 1 ∨ maxAcceptTimeoutSeconds < n then none else some n
  | _ => none

/-- `_required_scheme` finds the scheme. -/
def requiredScheme (accept extra : Dict) : Bool :=
  (accept.get "scheme").eqStr "exact" &&
    ((extra.get "scheme").isNull || (extra.get "scheme").eqStr "exact")

/-- `_format_usd`. -/
def formatUsd (usd : PyFloat) : PyStr :=
  if usd.eq PyFloat.zero then "$0.00"
  else if (PyFloat.ofDecimal 1 (-2)).le usd ∧
      ((usd.sub (usd.round 2)).abs).lt (PyFloat.ofDecimal 1 (-12)) then
    CodePoint.ofChar '$' :: (usd.round 2).fixed 2
  else
    let digits := ((usd.fixed 6).reverse.dropWhile (· == CodePoint.ofChar '0'))
    CodePoint.ofChar '$' :: (digits.dropWhile (· == CodePoint.ofChar '.')).reverse

/-- `usdc_from_atomic` on a nonnegative integer: the label and the price in dollars. -/
def usdcFromAtomic (n : ℕ) : PyStr × PyFloat :=
  let usd := PyFloat.ofRatio n 1000000
  if n = 0 then ("$0.00", PyFloat.zero)
  else if n % 10000 = 0 then (CodePoint.ofChar '$' :: usd.fixed 2, usd)
  else (formatUsd usd, usd)

/-! ## Addresses -/

def b58Alphabet : PyStr := "123456789ABCDEFGHJKLMNPQRSTUVWXYZabcdefghijkmnopqrstuvwxyz"

def b32Alphabet : PyStr := "ABCDEFGHIJKLMNOPQRSTUVWXYZ234567"

/-- The number that the digits of an alphabet write. -/
def digitsValue (alphabet text : PyStr) : ℕ :=
  text.foldl (fun n c => n * alphabet.length + alphabet.idxOf c) 0

/-- `_b58decode32`: the Base58 text of 32 bytes. -/
def b58decode32 (t : PyStr) : Bool :=
  if t.isEmpty || !t.all (fun c => b58Alphabet.contains c) then false
  else
    let value := digitsValue b58Alphabet t
    let zeros := (t.takeWhile (· == CodePoint.ofChar '1')).length
    -- the bytes of the number, none for zero
    let bytes := if value = 0 then 0 else (Nat.log2 value + 1 + 7) / 8
    zeros + bytes == 32

/-- `decode_address` of `algo_tx.py`: the public key, unless it raises `ValueError`. -/
def decodeAddress (addr : PyStr) : Option Bytes :=
  if addr.strip.length ≠ 58 then none
  else if !addr.strip.all (fun c => b32Alphabet.contains c) then none
  else
    -- 58 digits of five bits are 36 bytes and two bits, which are dropped
    let decoded := Sha256.beBytes 36 (digitsValue b32Alphabet addr.strip / 4)
    if (Sha512.sha512_256 (decoded.take 32)).drop 28 = decoded.drop 32 then
      some (decoded.take 32)
    else none

/-- `_BASE_PAYTO_RE`. -/
def isBaseAddress (t : PyStr) : Bool :=
  PyStr.startsWith t "0x" && t.length == 42 && (t.drop 2).all PyStr.isHexChar

/-- `_SOLANA_PAYTO_RE`. -/
def isBase58Text (t : PyStr) : Bool :=
  t.all (fun c => b58Alphabet.contains c) && decide (32 ≤ t.length) && decide (t.length ≤ 44)

/-- The value of a hexadecimal digit. -/
def nibble (c : CodePoint) : ℕ :=
  if PyStr.isDigitChar c then c.val - 48
  else if PyStr.isLowerChar c then c.val - 87
  else c.val - 55

section Wire

variable (py : Interp) (keccak : Bytes → Option Bytes)

/-- `_eip55_ok`: the case of the letters is the checksum, when there is a Keccak. -/
def eip55Ok (addr : PyStr) : Bool :=
  let body := addr.drop 2
  let low := body.map PyStr.lowerCodePoint
  if body = low ∨ body = body.map PyStr.upperCodePoint then true
  else
    match keccak (low.map fun c => UInt8.ofNat c.val) with
    | none => true
    | some hashed =>
        (body.zip (hashed.flatMap fun b => [b.toNat / 16, b.toNat % 16])).all fun (c, n) =>
          if !PyStr.isAlphaChar c then true
          else if 8 ≤ n then c == PyStr.upperCodePoint c
          else c == PyStr.lowerCodePoint c

/-- `valid_payto_for_rail` on a text. -/
def validPayto (t : PyStr) : Rail → Bool
  | .base => isBaseAddress t && eip55Ok keccak t
  | .algorand => (decodeAddress t).isSome
  | .solana => !(PyStr.startsWith t "0x" || PyStr.startsWith t "0X") && b58decode32 t

/-- `valid_payto_for_rail`. -/
def validPaytoForRail (addr : Json) (rail : Rail) : Bool :=
  match py.text addr with
  | none => false
  | some t => validPayto keccak t rail

/-- `valid_asset_for_rail` on a text; digits that are no number raise. -/
def validAsset (t : PyStr) (rail : Rail) : Except PyError Bool :=
  if py.uni.upper t = "USDC" ∨ py.uni.upper t = "USD" then .ok true
  else
    match rail with
    | .base => .ok (isBaseAddress t)
    | .algorand =>
        if py.isDigit t then
          (py.int t).map fun n => decide (1 ≤ n) && decide (n ≤ maxAtomicAmount)
        else .ok false
    | .solana =>
        .ok (!(PyStr.startsWith t "0x" || PyStr.startsWith t "0X") && isBase58Text t)

/-- `valid_asset_for_rail`. -/
def validAssetForRail (asset : Json) (rail : Rail) : Except PyError Bool :=
  match py.text asset with
  | none => .ok false
  | some t => validAsset py t rail

/-- `known_usdc_asset`. -/
def knownUsdcAsset (asset : Option PyStr) : Bool :=
  match Signal402.text asset with
  | none => false
  | some raw =>
      addressEqual py.uni (some .base) raw usdcBase ||
        addressEqual py.uni (some .solana) raw usdcSolanaMint ||
        addressEqual py.uni (some .algorand) raw usdcAlgorandAsa

/-- `usdc_asset_for_rail`. -/
def usdcAssetForRail : Rail → PyStr
  | .solana => usdcSolanaMint
  | .algorand => usdcAlgorandAsa
  | .base => usdcBase

/-- `asset_identity`: `None` for an asset that cannot be compared. -/
def assetIdentity (rail : Option Rail) (network asset : Option PyStr) : Option PyStr :=
  match Signal402.text asset with
  | none => none
  | some a =>
      let r := rail.or (railName py.uni network)
      if knownUsdcAsset py (some a) then
        let known := match r with
          | some r => usdcAssetForRail r
          | none => a
        some (py.uni.lower (("usdc:" : PyStr) ++ known))
      else
        some (match r with
          | some .base => ("base:" : PyStr) ++ py.uni.lower a
          | some .algorand => ("algorand:" : PyStr) ++ py.uni.upper a
          | some .solana => ("solana:" : PyStr) ++ a
          | none => ("unknown:" : PyStr) ++ a)

/-! ## One entry of `accepts` -/

/-- `_accept_asset`. -/
def acceptAsset (accept : Dict) : Option PyStr :=
  match py.text (accept.get "asset") with
  | none => py.text (accept.get "currency")
  | some asset => some asset

/-- The HTTPS address of the facilitator an entry names. -/
def facilitatorUrl (extra : Dict) : Option PyStr :=
  match extra.get "facilitator" with
  | .str s => if PyStr.startsWith s.strip "https://" then some s.strip else none
  | .obj fac =>
      let cand := PyStr.strip (py.strOrEmpty (Dict.get fac "url"))
      if PyStr.startsWith cand "https://" then some cand else none
  | _ => none

/-- The amount a seller displays. -/
def sellerDisplay (extra : Dict) (rawAmt : Json) : Option PyStr :=
  match py.text (extra.get "displayAmount") with
  | some s => some s
  | none =>
      match py.str? rawAmt with
      | some s => if PyStr.startsWith s.strip "$" then some s.strip else none
      | none => none

/-- The price of an option: the label and the dollars, when the asset has known units. -/
def displayed (known : Bool) (amount : Option ℤ) (seller asset : Option PyStr) :
    Option PyStr × Option PyFloat :=
  match known, amount with
  | true, some n => (some (usdcFromAtomic n.toNat).1, some (usdcFromAtomic n.toNat).2)
  | _, _ =>
      match seller, amount, asset with
      | some s, _, _ => (some s, none)
      | none, some n, some a => (some (intText n ++ CodePoint.ofChar ' ' :: a), none)
      | none, _, _ => (none, none)

/-- `payment_option_from_accept` on an entry whose amount is a nonnegative integer. -/
def paymentOptionFromAccept (accept : Dict) : Except PyError (Option PaymentOption) :=
  let networkS := py.text ((accept.get "network").or .null)
  let asset := acceptAsset py accept
  let amt := accept.get "amount"
  let rawAmt := if amt.isNull || amt.eqStr [] then accept.get "maxAmountRequired" else amt
  let extra := (accept.get "extra").dictOrEmpty
  (py.asInt rawAmt).map fun amount =>
    if amount.isNone ∧ rawAmt.isNull ∧ asset.isNone ∧ networkS.isNone ∧
        (sellerDisplay py extra rawAmt).isNone then none
    else
      let known := knownUsdcAsset py asset
      let price := displayed known amount (sellerDisplay py extra rawAmt) asset
      some
        { network := networkS
          rail := railName py.uni networkS
          asset
          amountAtomic := amount
          decimals := if known then some usdcDecimals else none
          displayAmount := price.1
          normalizedUsd := price.2
          payTo := py.text (accept.get "payTo")
          facilitator := facilitatorUrl py extra
          scheme := py.text ((accept.get "scheme").or (extra.get "scheme"))
          version := (accept.get? "x402Version").getD (extra.get "version") }

/-! ## Valid options -/

/-- `_x402_version_ok`. -/
def x402VersionOk (raw : Json) : Except PyError Bool :=
  if raw.isNull || raw.eqStr [] then .ok true
  else (py.asInt raw).map fun n => n == some 1 || n == some 2

/-- `_scheme_ok` on a text. -/
def schemeOk (scheme : Option PyStr) : Bool :=
  match scheme with
  | none => true
  | some s => py.uni.lower s == "exact"

/-- Whether the scheme of an option fits its envelope. -/
def schemeFits (scheme : Option PyStr) (env : Dict) : Bool :=
  if env.isEmpty then schemeOk py scheme
  else
    match env.get "accepts" with
    | .arr accepts =>
        if accepts.any fun a => (Dict.get? a.dictOrEmpty "scheme").isSome then
          schemeOk py scheme && scheme.isSome
        else true
    | _ => true

/-- `sane_atomic_amount`. -/
def saneAtomicAmount (n : Option ℤ) : Option ℤ :=
  n.bind fun n => if n < 0 ∨ maxAtomicAmount < n then none else some n

/-- `a and b`, for tests that may raise. -/
def both (a b : Except PyError Bool) : Except PyError Bool :=
  a.bind fun x => if x then b else .ok false

theorem both_eq_true {a b : Except PyError Bool} :
    both a b = .ok true ↔ a = .ok true ∧ b = .ok true := by
  rcases a with e | (_ | _) <;> simp [both, Except.bind]

/-- The version an envelope names, if any, is supported. -/
def versionFits (env : Dict) : Except PyError Bool :=
  match env.get? "x402Version" with
  | none => .ok true
  | some v => x402VersionOk py v

/-- `is_complete_payment_option`. -/
def isCompletePaymentOption (opt : PaymentOption) (env : Dict) : Except PyError Bool :=
  match opt.rail, opt.network with
  | some rail, some network =>
      both (.ok (railOfNetwork py.uni network == some rail))
        (both (.ok (saneAtomicAmount opt.amountAtomic).isSome)
          (both (validAssetForRail py (.ofText opt.asset) rail)
            (both (.ok (validPaytoForRail py keccak (.ofText opt.payTo) rail))
              (both (versionFits py env) (.ok (schemeFits py opt.scheme env))))))
  | _, _ => .ok false

/-- The amount of an entry, under the field of its version; the other field may only
repeat it. -/
def wireAmount (accept : Dict) (version : ℤ) : Option (Json × ℤ) :=
  let field : PyStr := if version = 2 then "amount" else "maxAmountRequired"
  let other := accept.get (if version = 2 then "maxAmountRequired" else "amount")
  match accept.get? field with
  | none => none
  | some raw =>
      match canonicalAtomicString raw with
      | none => none
      | some amount =>
          if other.isNull || other.eqStr [] || canonicalAtomicString other == some amount then
            some (raw, amount)
          else none

/-- What `validate_observed_accept` reads of an entry before its asset and payee: the
rail, the amount as written and its value. -/
def wireTerms (accept env : Dict) : Option (Rail × Json × ℤ) :=
  let ver := if (accept.get "x402Version").isNull then env.get "x402Version"
    else accept.get "x402Version"
  match literalX402Version ver with
  | none => none
  | some version =>
      if !requiredScheme accept (accept.get "extra").dictOrEmpty then none
      else if (literalTimeout (accept.get "maxTimeoutSeconds")).isNone then none
      else
        match railOfObservedNetwork (accept.get "network") version, wireAmount accept version with
        | some rail, some (raw, amount) => some (rail, raw, amount)
        | _, _ => none

/-- The option of a valid entry: the amount and the network are those on the wire. -/
def observed (opt : PaymentOption) (rail : Rail) (amount : ℤ) (network : Json) :
    PaymentOption :=
  { opt with
    amountAtomic := some amount
    rail := some rail
    network := match network with
      | .str n => some n
      | _ => none
    scheme := some "exact" }

/-- An option, if it is complete. -/
def keepComplete (env : Dict) (opt : PaymentOption) : Except PyError (Option PaymentOption) :=
  (isCompletePaymentOption py keccak opt env).map fun complete =>
    if complete then some opt else none

/-- The asset and the payee of an entry are valid on its rail. -/
def validParties (accept : Dict) (rail : Rail) : Except PyError Bool :=
  both (.ok (accept.get? "asset").isSome)
    (both (validAssetForRail py (accept.get "asset") rail)
      (both (.ok (accept.get? "payTo").isSome)
        (.ok (validPaytoForRail py keccak (accept.get "payTo") rail))))

/-- `validate_observed_accept` on an entry whose terms are well formed. -/
def acceptOption (accept env : Dict) (rail : Rail) (raw : Json) (amount : ℤ) :
    Except PyError (Option PaymentOption) :=
  (validParties py keccak accept rail).bind fun valid =>
    if valid then
      (paymentOptionFromAccept py (accept.set "amount" raw)).bind fun found =>
        match found with
        | none => .ok none
        | some opt =>
            keepComplete py keccak env (observed opt rail amount (accept.get "network"))
    else .ok none

/-- `validate_observed_accept`. -/
def validateObservedAccept (accept : Json) (env : Dict) :
    Except PyError (Option PaymentOption) :=
  match accept.asObj? with
  | none => .ok none
  | some acc =>
      match wireTerms acc env with
      | none => .ok none
      | some (rail, raw, amount) => acceptOption py keccak acc env rail raw amount

/-! ## The options of a result -/

/-- `_option_identity`. -/
def PaymentOption.identity (opt : PaymentOption) :
    Option Rail × PyStr × PyStr × Option ℤ :=
  (opt.rail, opt.network.getD [], opt.asset.getD [], opt.amountAtomic)

/-- `_dedupe_options`: the first option of each identity. -/
def dedupeOptions (seen : List (Option Rail × PyStr × PyStr × Option ℤ)) :
    List PaymentOption → List PaymentOption
  | [] => []
  | opt :: rest =>
      if opt.identity ∈ seen then dedupeOptions seen rest
      else opt :: dedupeOptions (opt.identity :: seen) rest

/-- The valid entries of a list. -/
def validOptions (env : Dict) (accepts : List Json) : Except PyError (List PaymentOption) :=
  (accepts.mapM fun acc => validateObservedAccept py keccak acc env).map fun opts =>
    opts.filterMap id

/-- The entry that stands for a result without any `accepts`. -/
def legacyAccept (result target : Dict) : Dict :=
  let display := (target.get "displayAmount").or (result.get "displayAmount")
  let amount :=
    if (result.get "amount").isNull then
      (result.get "amountAtomic").or (target.get "amountAtomic")
    else result.get "amount"
  [("network", (result.get "network").or (result.get "rail")),
    ("asset", (result.get "asset").or (target.get "asset")),
    ("currency", result.get "currency"),
    ("amount", amount),
    ("payTo", result.get "payTo"),
    ("extra", .obj (if display.truthy then [("displayAmount", display)] else []))]

/-- `payment_options_from_result`. -/
def paymentOptionsFromResult (result : Dict) : Except PyError (List PaymentOption) :=
  let target := (result.get "target").dictOrEmpty
  let env := (result.get "envelope").dictOrEmpty
  match [env, target, result].findSome? fun blob => Dict.get? blob "accepts" with
  | some (.arr accepts) => (validOptions py keccak env accepts).map (dedupeOptions [])
  | some _ => .ok []
  | none =>
      (validateObservedAccept py keccak (.obj (legacyAccept result target)) env).map
        Option.toList

/-! ## The selected payment -/

/-- `selected_payment_fields`. -/
def selectedPaymentFields (opt : PaymentOption) : Dict :=
  [("rail", .ofText (opt.rail.map Rail.name)),
    ("network", .ofText opt.network),
    ("asset", .ofText opt.asset),
    ("amount_atomic", .ofInt? opt.amountAtomic),
    ("display_amount", .ofText opt.displayAmount),
    ("normalized_usd", .ofFloat? opt.normalizedUsd),
    ("payTo", .ofText opt.payTo),
    ("facilitator", .ofText opt.facilitator)]

/-- The eight fields of a selected payment are those of an option. -/
def sameFields (selected : Dict) (opt : PaymentOption) : Bool :=
  (selected.get "rail").eqText (opt.rail.map Rail.name) &&
    (selected.get "network").eqText opt.network &&
    (selected.get "asset").eqText opt.asset &&
    (selected.get "amount_atomic").eqInt? opt.amountAtomic &&
    (selected.get "display_amount").eqText opt.displayAmount &&
    (selected.get "normalized_usd").eqFloat opt.normalizedUsd &&
    (selected.get "payTo").eqText opt.payTo &&
    (selected.get "facilitator").eqText opt.facilitator

/-- `sane_atomic_amount` on the field of a selected payment. -/
def selectedAmount (x : Json) : Except PyError (Option ℤ) := (py.asInt x).map saneAtomicAmount

/-- An entry of the envelope is valid and is the selected payment. -/
def entryMatches (selected env : Dict) (rail : Rail) (network : PyStr) (amount : ℤ)
    (asset : PyStr) (accept : Json) : Except PyError Bool :=
  (validateObservedAccept py keccak accept env).map fun found =>
    found.any fun opt =>
      opt.rail == some rail && opt.network == some network &&
        saneAtomicAmount opt.amountAtomic == some amount &&
        assetIdentity py opt.rail opt.network opt.asset == some asset &&
        paytoEqual py.uni opt.payTo (py.str? (selected.get "payTo")) (some rail.name) &&
        sameFields selected opt

/-- `any(f(x) for x in xs)`, which stops at the first true one. -/
def anyOf {α : Type} (f : α → Except PyError Bool) : List α → Except PyError Bool
  | [] => .ok false
  | x :: rest => (f x).bind fun b => if b then .ok true else anyOf f rest

/-- `selected_payment_matches_current_envelope`. -/
def selectedPaymentMatchesCurrentEnvelope (selected : Json) (result : Dict) :
    Except PyError Bool :=
  match selected.asObj?, (result.get "envelope").asObj? with
  | some sel, some env =>
      match env.get "x402Version", env.get "accepts" with
      | .int _, .arr (first :: rest) =>
          (selectedAmount py (sel.get "amount_atomic")).bind fun amount =>
            (supportedRail (sel.get "rail")).bind fun rail =>
              match rail, sel.get "network", amount with
              | some rail, .str network, some amount =>
                  match assetIdentity py (some rail) (some network)
                      (py.str? (sel.get "asset")) with
                  | none => .ok false
                  | some asset =>
                      anyOf (entryMatches py keccak sel env rail network amount asset)
                        (first :: rest)
              | _, _, _ => .ok false
      | _, _ => .ok false
  | _, _ => .ok false

end Wire

end Payment

end Signal402
