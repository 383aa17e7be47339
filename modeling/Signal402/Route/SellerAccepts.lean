import Signal402.Route.Options

/-!
# Entries of sellers, judged without raising

An entry of `accepts` is whatever a seller sends.  `validateObservedAccept` answers
`None` to nearly everything it cannot read, and raises in two places only:

* `StrayDigits`: on Algorand an asset whose characters are digits, but which `int` does
  not read (`isdigit` holds of superscripts, and `int` stops at 4300 digits);
* `InfiniteVersion`: the version of an envelope is an infinite float, which `_as_int`
  does not expect; it is read when everything else of the entry is valid.
-/

namespace Signal402

namespace PyFloat

def isInfinite (x : PyFloat) : Bool :=
  match x.unpack with
  | .infinity _ => true
  | _ => false

/-- `int` of a float: an infinite one overflows, and the error of a NaN is a `ValueError`. -/
theorem toInt_cases (x : PyFloat) :
    (x.isInfinite = true ∧
        x.toInt = .error ⟨.overflowError, "cannot convert float infinity to integer"⟩) ∨
      (x.isInfinite = false ∧ ((∃ n, x.toInt = .ok n) ∨
        x.toInt = .error (.valueError "cannot convert float NaN to integer"))) := by
  unfold isInfinite toInt
  generalize x.unpack = u
  cases u with
  | infinity _ => exact .inl ⟨rfl, rfl⟩
  | notANumber => exact .inr ⟨rfl, .inr rfl⟩
  | zero _ => exact .inr ⟨rfl, .inl ⟨0, rfl⟩⟩
  | finite sign m e h => exact .inr ⟨rfl, .inl ⟨_, rfl⟩⟩

end PyFloat

namespace Payment

/-- The version that `validate_observed_accept` reads: the entry's own, or the envelope's. -/
def entryVersion (accept env : Dict) : Json :=
  if (accept.get "x402Version").isNull then env.get "x402Version" else accept.get "x402Version"

/-- The terms of an entry before its asset and its payee are well formed. -/
structure WellFormedTerms (accept env : Dict) (rail : Rail) (v : ℤ) : Prop where
  version : literalX402Version (entryVersion accept env) = some v
  scheme : requiredScheme accept (accept.get "extra").dictOrEmpty = true
  timeout : (literalTimeout (accept.get "maxTimeoutSeconds")).isSome
  network : railOfObservedNetwork (accept.get "network") v = some rail
  amount : (wireAmount accept v).isSome

/-- The version of an envelope is an infinite float. -/
def InfiniteVersion (env : Dict) : Prop :=
  ∃ x : PyFloat, env.get? "x402Version" = some (.float x) ∧ x.isInfinite

section Wire

variable (py : Interp) (keccak : Bytes → Option Bytes)

/-- The asset of an entry is made of digits, and is no number. -/
def StrayDigits (accept : Dict) : Prop :=
  ∃ t, py.text (accept.get "asset") = some t ∧ py.uni.upper t ≠ "USDC" ∧
    py.uni.upper t ≠ "USD" ∧ py.isDigit t = true ∧ py.int? t = none

/-- The asset and the payee of an entry are there and valid. -/
structure ValidParties (accept : Dict) (rail : Rail) : Prop where
  hasAsset : (accept.get? "asset").isSome
  asset : validAssetForRail py (accept.get "asset") rail = .ok true
  hasPayTo : (accept.get? "payTo").isSome
  payTo : validPaytoForRail py keccak (accept.get "payTo") rail = true

/-- An entry that makes `validate_observed_accept` raise. -/
inductive Hostile (accept env : Dict) : Prop
  | digits {v : ℤ} (terms : WellFormedTerms accept env .algorand v)
      (stray : StrayDigits py accept) : Hostile accept env
  | version {rail : Rail} {v : ℤ} (terms : WellFormedTerms accept env rail v)
      (parties : ValidParties py keccak accept rail) (infinite : InfiniteVersion env) :
      Hostile accept env

variable {py keccak}

/-! ## The terms -/

theorem wireTerms_isSome {accept env : Dict} {rail : Rail} {raw : Json} {amount : ℤ}
    (h : wireTerms accept env = some (rail, raw, amount)) :
    ∃ version, WellFormedTerms accept env rail version := by
  unfold wireTerms at h
  dsimp only at h
  split at h
  · cases h
  rename_i version hversion
  simp only [Option.ite_none_left_eq_some, Bool.not_eq_true', Bool.not_eq_false,
    Option.isNone_iff_eq_none] at h
  obtain ⟨hscheme, htimeout, h⟩ := h
  split at h
  case h_2 => cases h
  rename_i rail raw amount hrail hamount
  cases h
  refine ⟨version, hversion, hscheme, Option.isSome_iff_ne_none.mpr htimeout, hrail, ?_⟩
  rw [hamount]
  rfl

theorem WellFormedTerms.wireTerms {accept env : Dict} {rail : Rail} {version : ℤ}
    (h : WellFormedTerms accept env rail version) :
    ∃ raw amount, Payment.wireTerms accept env = some (rail, raw, amount) := by
  obtain ⟨⟨raw, amount⟩, hamount⟩ := Option.isSome_iff_exists.mp h.amount
  have hversion := h.version
  unfold entryVersion at hversion
  refine ⟨raw, amount, ?_⟩
  unfold Payment.wireTerms
  dsimp only
  rw [hversion]
  dsimp only
  rw [h.scheme, h.network, hamount, if_neg (by simp), if_neg]
  rw [Option.isNone_iff_eq_none]
  exact Option.isSome_iff_ne_none.mp h.timeout

/-- An entry has one version, and one rail. -/
theorem WellFormedTerms.rail_unique {accept env : Dict} {rail rail' : Rail} {v v' : ℤ}
    (h : WellFormedTerms accept env rail v) (h' : WellFormedTerms accept env rail' v') :
    rail = rail' := by
  obtain rfl : v = v' := Option.some.inj (h.version.symm.trans h'.version)
  exact Option.some.inj (h.network.symm.trans h'.network)

/-- The identifiers that validation knows are networks everywhere. -/
theorem railOfNetwork_observed {network : PyStr} {version : ℤ} {rail : Rail}
    (h : railOfObservedNetwork (.str network) version = some rail) :
    railOfNetwork py.uni network = some rail := by
  have hbase : railOfNetwork py.uni baseCaip2 = some .base := rfl
  have hsolana : railOfNetwork py.uni solanaMainnet = some .solana := rfl
  have halgorand : railOfNetwork py.uni algorandMainnet = some .algorand := rfl
  have hshort : ∀ r : Rail, railOfNetwork py.uni r.name = some r := by
    intro r
    cases r <;> rfl
  unfold railOfObservedNetwork at h
  dsimp only at h
  grind [Rail.name]

/-! ## The asset and the payee -/

theorem map_returns {α β : Type} {x : Except PyError α} {f : α → β} :
    (∃ b, x.map f = .ok b) ↔ ∃ a, x = .ok a := by
  cases x with
  | error e => simp [Except.map]
  | ok a => simp [Except.map]

theorem bothOk_returns {b : Bool} {x : Except PyError Bool} :
    (∃ r, both (.ok b) x = .ok r) ↔ (b = true → ∃ r, x = .ok r) := by
  cases b <;> simp [both, Except.bind]

theorem both_ok_returns {b : Bool} {x : Except PyError Bool} :
    (∃ r, both x (.ok b) = .ok r) ↔ ∃ r, x = .ok r := by
  cases x with
  | error e => simp [both, Except.bind]
  | ok a => cases a <;> simp [both, Except.bind]

/-- The check of an asset returns, but for stray digits on Algorand. -/
theorem validAsset_returns {accept : Dict} {rail : Rail} :
    (∃ b, validAssetForRail py (accept.get "asset") rail = .ok b) ↔
      ¬ (rail = .algorand ∧ StrayDigits py accept) := by
  unfold StrayDigits validAssetForRail
  cases htext : py.text (accept.get "asset") with
  | none => simp
  | some t =>
      dsimp only
      unfold validAsset
      by_cases husd : py.uni.upper t = "USDC" ∨ py.uni.upper t = "USD"
      · rw [if_pos husd]
        simp only [Option.some.injEq, Except.ok.injEq, exists_eq', true_iff]
        rintro ⟨-, t', rfl, husdc, hus, -⟩
        exact husd.elim husdc hus
      · rw [if_neg husd]
        obtain ⟨husdc, hus⟩ := not_or.mp husd
        cases rail with
        | base | solana => simp
        | algorand =>
            dsimp only
            unfold Interp.int
            cases hdigit : py.isDigit t <;> cases hint : py.int? t <;>
              simp [husdc, hus, hdigit, hint, Except.map]

theorem validParties_eq_true {accept : Dict} {rail : Rail} :
    validParties py keccak accept rail = .ok true ↔ ValidParties py keccak accept rail := by
  unfold validParties
  simp only [both_eq_true, Except.ok.injEq]
  constructor
  · rintro ⟨h1, h2, h3, h4⟩
    exact ⟨h1, h2, h3, h4⟩
  · intro h
    exact ⟨h.hasAsset, h.asset, h.hasPayTo, h.payTo⟩

/-- The parties of an entry are judged, but for stray digits on Algorand. -/
theorem validParties_returns {accept : Dict} {rail : Rail} :
    (∃ b, validParties py keccak accept rail = .ok b) ↔
      ¬ (rail = .algorand ∧ StrayDigits py accept) := by
  rw [← validAsset_returns]
  unfold validParties
  rw [bothOk_returns]
  cases hasset : validAssetForRail py (accept.get "asset") rail with
  | error e =>
      simp only [both, Except.bind, reduceCtorEq, exists_false, imp_false, iff_false, not_not]
      -- a field that is not there is no text
      cases hget : accept.get? "asset" with
      | some x => rfl
      | none =>
          rw [validAssetForRail, Dict.get, hget] at hasset
          cases hasset
  | ok valid =>
      simp only [Except.ok.injEq, exists_eq', iff_true]
      intro _
      exact bothOk_returns.mpr fun _ => bothOk_returns.mpr fun _ => ⟨_, rfl⟩

/-! ## The version of the envelope -/

theorem asInt_returns {x : Json} :
    (∃ n, py.asInt x = .ok n) ↔ ¬ ∃ f : PyFloat, x = .float f ∧ f.isInfinite := by
  cases x with
  | float f =>
      unfold Interp.asInt
      rcases f.toInt_cases with ⟨hinf, h⟩ | ⟨hinf, ⟨n, h⟩ | h⟩
      · simp [h, hinf, ExcClass.isA, ExcClass.parent]
      · simp [h, hinf]
      · simp [h, hinf, PyError.valueError, ExcClass.isA]
  | null | bool b | int n | str s | arr xs | obj d => simp [Interp.asInt]

/-- The version of an envelope is judged, unless it is infinite. -/
theorem versionFits_returns {env : Dict} :
    (∃ b, versionFits py env = .ok b) ↔ ¬ InfiniteVersion env := by
  unfold versionFits InfiniteVersion
  cases env.get? "x402Version" with
  | none => simp
  | some x =>
      unfold x402VersionOk
      simp only [Option.some.injEq]
      split
      · rename_i hempty
        simp only [Except.ok.injEq, exists_eq', true_iff]
        rintro ⟨f, rfl, -⟩
        cases hempty
      · rw [map_returns, asInt_returns]

/-! ## The option -/

/-- The option read from an entry with a canonical amount. -/
theorem option_of_entry {acc : Dict} {raw : Json} {amount : ℤ}
    (h : canonicalAtomicString raw = some amount) :
    ∃ opt, paymentOptionFromAccept py (acc.set "amount" raw) = .ok (some opt) ∧
      opt.asset = acceptAsset py acc ∧ opt.payTo = py.text (acc.get "payTo") := by
  have hother : ∀ key : PyStr, key ≠ "amount" →
      Dict.get (Dict.set acc "amount" raw) key = acc.get key :=
    fun key hkey => Dict.get_set_of_ne acc raw hkey
  unfold paymentOptionFromAccept
  dsimp only
  rw [Dict.get_set_self, given_of_canonical h, if_neg Bool.false_ne_true,
    (asInt_of_canonical h).1]
  refine ⟨_, congrArg Except.ok (if_neg ?_), ?_, ?_⟩
  · rintro ⟨hnone, -⟩
    cases hnone
  · dsimp only [acceptAsset]
    rw [hother _ (by simp), hother _ (by simp)]
  · dsimp only
    rw [hother _ (by simp)]

/-- A canonical amount is in range. -/
theorem sane_of_canonical {raw : Json} {amount : ℤ}
    (h : canonicalAtomicString raw = some amount) :
    (saneAtomicAmount (some amount)).isSome = true := by
  unfold canonicalAtomicString at h
  split at h
  case h_2 => cases h
  simp only [Option.ite_none_left_eq_some] at h
  obtain ⟨-, -, -, hle, h⟩ := h
  cases h
  unfold saneAtomicAmount
  rw [Option.bind_some, if_neg (not_or.mpr ⟨Int.not_lt.mpr (Int.natCast_nonneg _), hle⟩)]
  rfl

theorem text_ofText (s : Option PyStr) : py.text (.ofText s) = Signal402.text s := by
  cases s <;> rfl

/-- A text that is read again is the same. -/
theorem text_ofText_text (x : Json) : py.text (.ofText (py.text x)) = py.text x := by
  rw [text_ofText]
  exact text_text _

/-- An entry with valid parties is an option, once the version of the envelope is read. -/
theorem complete_returns {acc env : Dict} {rail : Rail} {raw : Json} {amount v : ℤ}
    (hterms : WellFormedTerms acc env rail v) (hraw : canonicalAtomicString raw = some amount)
    (hparties : ValidParties py keccak acc rail) {opt : PaymentOption}
    (hasset : opt.asset = acceptAsset py acc) (hpayTo : opt.payTo = py.text (acc.get "payTo")) :
    (∃ b, isCompletePaymentOption py keccak
        (observed opt rail amount (acc.get "network")) env = .ok b) ↔ ¬ InfiniteVersion env := by
  -- the asset and the payee of the option are those of the entry
  have hasset' : validAssetForRail py (.ofText opt.asset) rail = .ok true := by
    have hvalid := hparties.asset
    rw [hasset, acceptAsset]
    cases htext : py.text (acc.get "asset") with
    | none =>
        rw [validAssetForRail, htext] at hvalid
        cases hvalid
    | some t =>
        dsimp only
        rw [← htext, validAssetForRail, text_ofText_text]
        exact hvalid
  have hpayTo' : validPaytoForRail py keccak (.ofText opt.payTo) rail = true := by
    rw [hpayTo, validPaytoForRail, text_ofText_text]
    exact hparties.payTo
  obtain ⟨network, hnetwork, hrail⟩ : ∃ network, acc.get "network" = .str network ∧
      railOfNetwork py.uni network = some rail := by
    have hobserved := hterms.network
    cases hget : acc.get "network" with
    | str network =>
        rw [hget] at hobserved
        exact ⟨network, rfl, railOfNetwork_observed hobserved⟩
    | null | bool _ | int _ | float _ | arr _ | obj _ =>
        rw [hget] at hobserved
        cases hobserved
  have hsane := sane_of_canonical hraw
  rw [hnetwork]
  dsimp only [isCompletePaymentOption, observed]
  have hversion : (∃ b, versionFits py env = .ok b) ↔ ¬ InfiniteVersion env :=
    versionFits_returns
  rw [← hversion, hrail, hsane, hasset', hpayTo', beq_self_eq_true]
  exact both_ok_returns

theorem acceptOption_returns {acc env : Dict} {rail : Rail} {raw : Json} {amount v : ℤ}
    (hterms : WellFormedTerms acc env rail v) (hraw : canonicalAtomicString raw = some amount) :
    (∃ opt, acceptOption py keccak acc env rail raw amount = .ok opt) ↔
      ¬ (rail = .algorand ∧ StrayDigits py acc) ∧
        ¬ (ValidParties py keccak acc rail ∧ InfiniteVersion env) := by
  have hreturns : (∃ b, validParties py keccak acc rail = .ok b) ↔ _ := validParties_returns
  rw [← hreturns, ← validParties_eq_true]
  unfold acceptOption
  cases hvalid : validParties py keccak acc rail with
  | error e => simp [Except.bind]
  | ok valid =>
      cases valid with
      | false => simp [Except.bind]
      | true =>
          obtain ⟨opt, hopt, hasset, hpayTo⟩ :
              ∃ opt, paymentOptionFromAccept py (acc.set "amount" raw) = .ok (some opt) ∧
                opt.asset = acceptAsset py acc ∧ opt.payTo = py.text (acc.get "payTo") :=
            option_of_entry hraw
          have hparties := validParties_eq_true.mp hvalid
          simp only [Except.bind, if_true, hopt, Except.ok.injEq, exists_eq', true_and]
          unfold keepComplete
          rw [map_returns, complete_returns hterms hraw hparties hasset hpayTo]

/-- **Entries are judged without raising**, but for the hostile ones. -/
theorem validateObservedAccept_returns {accept : Json} {env : Dict} :
    (∃ opt, validateObservedAccept py keccak accept env = .ok opt) ↔
      ∀ acc, accept = .obj acc → ¬ Hostile py keccak acc env := by
  unfold validateObservedAccept
  cases accept with
  | null | bool _ | int _ | float _ | str _ | arr _ => simp [Json.asObj?]
  | obj acc =>
      simp only [Json.asObj?, Json.obj.injEq, forall_eq']
      cases hwire : wireTerms acc env with
      | none =>
          simp only [Except.ok.injEq, exists_eq', true_iff]
          -- neither kind of hostile entry gets this far without well-formed terms
          have hterms : ∀ {rail v}, ¬ WellFormedTerms acc env rail v := by
            intro rail v h
            obtain ⟨raw, amount, hsome⟩ := h.wireTerms
            rw [hwire] at hsome
            cases hsome
          rintro (⟨h, -⟩ | ⟨h, -, -⟩)
          · exact hterms h
          · exact hterms h
      | some terms =>
          obtain ⟨rail, raw, amount⟩ := terms
          obtain ⟨v, hterms⟩ := wireTerms_isSome hwire
          dsimp only
          rw [acceptOption_returns hterms (wireTerms_amount hwire)]
          constructor
          · rintro ⟨hdigits, hversion⟩ (⟨h, hstray⟩ | ⟨h, hparties, hinf⟩)
            · exact hdigits ⟨hterms.rail_unique h, hstray⟩
            · cases h.rail_unique hterms
              exact hversion ⟨hparties, hinf⟩
          · intro h
            refine ⟨?_, fun ⟨hparties, hinf⟩ => h (.version hterms hparties hinf)⟩
            rintro ⟨rfl, hstray⟩
            exact h (.digits hterms hstray)

/-! ## Hostile entries -/

/-- Superscript two: a digit that is no number. -/
def superscriptTwo : CodePoint := CodePoint.ofChar '²'

/-- An interpreter that knows the superscript. -/
def withSuperscript : Interp :=
  { Interp.plain with isdigit := fun s => s == [superscriptTwo] }

/-- An entry on Algorand whose asset is a superscript. -/
def superscriptAsset : Dict :=
  [("x402Version", .int 2),
    ("scheme", .str "exact"),
    ("network", .str algorandMainnet),
    ("amount", .str "10000"),
    ("asset", .str [superscriptTwo]),
    ("maxTimeoutSeconds", .int 60)]

theorem superscript_raises :
    ¬ ∃ opt, validateObservedAccept withSuperscript (fun _ => none) (.obj superscriptAsset) [] =
      .ok opt := by
  rintro ⟨opt, h⟩
  cases h

end Wire

end Payment

end Signal402
