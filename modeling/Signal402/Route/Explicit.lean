import Signal402.Route.Policy
import Signal402.Route.SellerAccepts
import Signal402.Route.Unmet
import Signal402.Route.PaidLeast

/-!
# Explicit bounds (`policy.py`, `select.py`)

What the structured keys of a body ask of a result (`Meets`), and when every result that
passes the merged constraints meets it.

* `explicit_bounds_bind` — exactly when nothing can pass, or when neither the probe bound
  nor the networks that are in force are looser than the body's own.
-/

namespace Signal402

namespace Select

open Payment Policy

/-! ## What a body asks for -/

section Statement

variable (d : Deps) (levels : ℕ) (src : Dict)

/-- A figure is within the integer under a key, if there is one. -/
def AtMost (key : PyStr) (value : Except PyError (Option ℤ)) : Prop :=
  ∀ n, src.get? key = some (.int n) → within (some n) value = .ok true

/-- A figure is not below the number under a key, if there is one. -/
def NotBelow (key : PyStr) (value : Except PyError (Option PyFloat)) : Prop :=
  ∀ v x, src.get? key = some v → d.py.asFloat v = .ok (some x) →
    notBelow (some x) value = .ok true

/-- The structured bounds of a body hold of a result, those on options of one option. -/
structure Meets (r : Dict) : Prop where
  option : ∃ opts, paymentOptions d r = .ok opts ∧ ∃ o ∈ opts,
    (∀ n, src.get? "max_amount_atomic" = some (.int n) → amountWithin (some n) o = true) ∧
    (∀ v x, src.get? "max_price_usd" = some v → d.py.asFloat v = .ok (some x) →
      priceWithin (some x) o = true) ∧
    (∀ v rails, src.get? "networks" = some v → parseRails d.py levels v = .ok (some rails) →
      onRails (some rails) o = true) ∧
    (∀ v rails, src.get? "rails" = some v → parseRails d.py levels v = .ok (some rails) →
      onRails (some rails) o = true)
  latency : AtMost src "max_latency_ms" (latencyMs d r)
  probe : AtMost src "max_probe_latency_ms" (latencyMs d r)
  service : AtMost src "max_service_latency_ms" (serviceLatencyMs d r)
  settlement : AtMost src "max_settlement_latency_ms"
    (settlementOrFinalityMs d.py d.keccak r .null)
  cost : ∀ v x, src.get? "max_total_cost_usd" = some v → d.py.asFloat v = .ok (some x) →
    notAbove (some x) (totalCostUsd d.py d.keccak r .null) = .ok true
  observations : ∀ n, src.get? "min_observations" = some (.int n) →
    atLeast (some n) (observationCount d r) = .ok true
  success : NotBelow d src "min_observed_success" (observedSuccessOf d r)
  score : NotBelow d src "min_reputation_score" (scoreOf d r)
  confidence : NotBelow d src "min_reputation_confidence" (confidenceOf d r)
  invocable : src.get? "require_invocable" = some (.bool true) →
    (r.get "invocable").truthy = true

/-- The bound in force under a key: that of the body, and that of the text when the body
has none. -/
def inForce (found : Dict) (key : PyStr) : Json := (overlay src found).get key

/-- The networks in force, under either key. -/
def networksInForce (found : Dict) : Json :=
  if (inForce src found "networks").isNull then inForce src found "rails"
  else inForce src found "networks"

/-- No result can pass: no total cost is known, no settlement is sooner than two seconds,
no rail is allowed, or the price is no number. -/
inductive Unmeetable (py : Interp) (found : Dict) : Prop
  | cost (m : PyFloat) (h : costBound py (inForce src found "max_total_cost_usd") = .ok (some m))
  | settlement (m : ℤ)
      (h : nonnegInt py (inForce src found "max_settlement_latency_ms") = .ok (some m))
      (hsoon : m < 2000)
  | networks (h : parseRails py levels (networksInForce src found) = .ok (some []))
  | price (m : PyFloat) (h : costBound py (inForce src found "max_price_usd") = .ok (some m))
      (hnan : ¬ m.IsNumber)

/-- The probe bound and the networks in force are no looser than those of the body. -/
structure Kept (py : Interp) (found : Dict) : Prop where
  latency : ∀ n p, src.get? "max_latency_ms" = some (.int n) →
    nonnegInt py (inForce src found "max_probe_latency_ms") = .ok (some p) → p ≤ n
  rails : ∀ v rails allowed, src.get? "rails" = some v →
    parseRails py levels v = .ok (some rails) →
    parseRails py levels (networksInForce src found) = .ok allowed →
    ∀ e : Rail, (∀ l, allowed = some l → e ∈ l) → e ∈ rails

end Statement

variable {d : Deps} {levels : ℕ} {src found r : Dict} {cons : Constraints}

/-! ## Bounds that are in force -/

theorem inForce_of_get? {key : PyStr} {v : Json} (hkey : key ∈ structuredKeys)
    (h : src.get? key = some v) : inForce src found key = v := by
  unfold inForce Dict.get
  rw [get?_overlay src found hkey, h]
  rfl

/-- A check of the gate was passed. -/
theorem checked {key : String} {check : Json → Except PyError Unit} {v : Json}
    (hvalid : validateExplicitConstraints d.py (.obj src) = .ok ())
    (hcheck : present key check ∈ explicitChecks d.py) (h : src.get? key = some v) :
    check v = .ok () :=
  present_eq_ok.mp (validate_eq_ok.mp hvalid _ hcheck) v h

/-- An integer bound of the body is in force. -/
theorem int_inForce {key : String} {n : ℤ} {bound : Option ℤ}
    (hvalid : validateExplicitConstraints d.py (.obj src) = .ok ())
    (hcheck : presentInt key ∈ explicitChecks d.py) (hkey : (key : PyStr) ∈ structuredKeys)
    (h : src.get? key = some (.int n))
    (hbound : nonnegInt d.py (inForce src found key) = .ok bound) : bound = some n := by
  obtain ⟨m, hm, -⟩ := map_eq_ok.mp (checked hvalid hcheck h)
  obtain ⟨heq, hnonneg, -⟩ := requireInt_eq_ok.mp hm
  cases heq
  rw [inForce_of_get? hkey h, nonnegInt, if_pos hnonneg] at hbound
  exact (Except.ok.inj hbound).symm

theorem within_mono {m n : ℤ} {value : Except PyError (Option ℤ)} (hmn : m ≤ n)
    (h : within (some m) value = .ok true) :
    within (some n) value = .ok true := by
  obtain ⟨v, rfl, hany⟩ := map_eq_ok.mp h
  obtain ⟨x, rfl, hx⟩ := (Option.any_eq_true _ _).mp hany
  exact congrArg Except.ok (decide_eq_true ((of_decide_eq_true hx).trans hmn))

/-- A cost of the body is in force. -/
theorem cost_inForce {key : String} {v : Json} {x : PyFloat} {bound : Option PyFloat}
    (hvalid : validateExplicitConstraints d.py (.obj src) = .ok ())
    (hcheck : present key (requireNonnegNumber key) ∈ explicitChecks d.py)
    (hkey : (key : PyStr) ∈ structuredKeys) (h : src.get? key = some v)
    (hx : d.py.asFloat v = .ok (some x))
    (hbound : costBound d.py (inForce src found key) = .ok bound) : bound = some x := by
  obtain ⟨n, hfloat, hn⟩ := costBound_of_nonneg d.py (checked hvalid hcheck h)
  rw [inForce_of_get? hkey h, hn] at hbound
  rw [hfloat] at hx
  exact (Except.ok.inj hbound).symm.trans (Except.ok.inj hx)

/-- A rate of the body is in force, as a rate and as a cost. -/
theorem rate_inForce {key : String} {v : Json} {x : PyFloat} {bound : Option PyFloat}
    (hvalid : validateExplicitConstraints d.py (.obj src) = .ok ())
    (hcheck : present key (requireProbability key) ∈ explicitChecks d.py)
    (hkey : (key : PyStr) ∈ structuredKeys) (h : src.get? key = some v)
    (hx : d.py.asFloat v = .ok (some x))
    (hbound : rateBound d.py (inForce src found key) = .ok bound ∨
      costBound d.py (inForce src found key) = .ok bound) : bound = some x := by
  obtain ⟨n, hfloat, hrate, hcost⟩ := rateBound_of_probability d.py
    (checked hvalid hcheck h)
  rw [inForce_of_get? hkey h, hrate, hcost, or_self] at hbound
  rw [hfloat] at hx
  exact (Except.ok.inj hbound).symm.trans (Except.ok.inj hx)

/-- The networks of the body are in force. -/
theorem networks_inForce {v : Json}
    (hvalid : validateExplicitConstraints d.py (.obj src) = .ok ())
    (h : src.get? "networks" = some v) : networksInForce src found = v := by
  have hlisted : present "networks" (checkNetworks d.py) ∈ explicitChecks d.py := by
    simp [explicitChecks]
  have hcheck : checkNetworks d.py v = .ok () := checked hvalid hlisted h
  unfold networksInForce
  rw [inForce_of_get? (by simp [structuredKeys]) h, if_neg]
  intro hnull
  cases v with
  | null => cases hcheck
  | _ => cases hnull

theorem onRails_iff {rails : Option (List Rail)} {o : PaymentOption} {e : Rail}
    (hrail : o.rail = some e) :
    onRails rails o = true ↔ ∀ l, rails = some l → e ∈ l := by
  unfold onRails
  rw [hrail]
  cases rails with
  | none => simp
  | some l => simp

/-- Bounds that are no looser than those of the body are met with them. -/
theorem meets_of_kept (hvalid : validateExplicitConstraints d.py (.obj src) = .ok ())
    (hparsed : Parsed d.py levels (overlay src found) cons)
    (hkept : Kept levels src d.py found) (h : Passes d r cons) : Meets d levels src r where
  option := by
    obtain ⟨opts, hopts, hne⟩ := passes_options h
    obtain ⟨o, ho⟩ := List.exists_mem_of_ne_nil _ hne
    obtain ⟨hin, hadmits⟩ := List.mem_filter.mp ho
    unfold admits at hadmits
    simp only [Bool.and_eq_true] at hadmits
    obtain ⟨⟨hrails, hamount⟩, hprice⟩ := hadmits
    obtain ⟨e, _, _, _, _, hrail, _⟩ := complete_fields (options_valid hopts o hin).complete
    refine ⟨opts, hopts, o, hin, ?_, ?_, ?_, ?_⟩
    · intro n hn
      rwa [int_inForce hvalid (by simp [explicitChecks]) (by simp [structuredKeys]) hn
        hparsed.amount] at hamount
    · intro v x hv hx
      rwa [cost_inForce hvalid (by simp [explicitChecks]) (by simp [structuredKeys]) hv hx
        hparsed.price] at hprice
    · intro v rails hv hread
      have hlocked := hparsed.rails
      change parseRails d.py levels (networksInForce src found) = _ at hlocked
      rw [networks_inForce hvalid hv, hread] at hlocked
      rwa [← Except.ok.inj hlocked] at hrails
    · intro v rails hv hread
      rw [onRails_iff hrail] at hrails ⊢
      intro l hl
      cases hl
      exact hkept.rails v rails cons.rails hv hread hparsed.rails e hrails
  latency := by
    intro n hn
    obtain ⟨lat, given, hlat, hgiven, heq⟩ := hparsed.probe
    have hbound := h.probe
    rw [heq, int_inForce hvalid (by simp [explicitChecks]) (by simp [structuredKeys]) hn hlat]
      at hbound
    cases given with
    | none => exact hbound
    | some p => exact within_mono (hkept.latency n p hn hgiven) hbound
  probe := by
    intro n hn
    obtain ⟨lat, given, hlat, hgiven, heq⟩ := hparsed.probe
    have hbound := h.probe
    rwa [heq, int_inForce hvalid (by simp [explicitChecks]) (by simp [structuredKeys]) hn hgiven]
      at hbound
  service := by
    intro n hn
    have hbound := h.service
    rwa [int_inForce hvalid (by simp [explicitChecks]) (by simp [structuredKeys]) hn
      hparsed.service] at hbound
  settlement := by
    intro n hn
    have hbound := h.settlement
    rwa [int_inForce hvalid (by simp [explicitChecks]) (by simp [structuredKeys]) hn
      hparsed.settlement] at hbound
  cost := by
    intro v x hv hx
    have hbound := h.cost
    rwa [cost_inForce hvalid (by simp [explicitChecks]) (by simp [structuredKeys]) hv hx
      hparsed.cost] at hbound
  observations := by
    intro n hn
    have hbound := h.observations
    rwa [int_inForce hvalid (by simp [explicitChecks]) (by simp [structuredKeys]) hn
      hparsed.observations] at hbound
  success := by
    intro v x hv hx
    have hbound := h.success
    rwa [rate_inForce hvalid (by simp [explicitChecks]) (by simp [structuredKeys]) hv hx
      (.inl hparsed.success)] at hbound
  score := by
    intro v x hv hx
    have hbound := h.score
    rwa [rate_inForce hvalid (by simp [explicitChecks]) (by simp [structuredKeys]) hv hx
      (.inr hparsed.score)] at hbound
  confidence := by
    intro v x hv hx
    have hbound := h.confidence
    rwa [rate_inForce hvalid (by simp [explicitChecks]) (by simp [structuredKeys]) hv hx
      (.inl hparsed.confidence)] at hbound
  invocable := by
    intro htrue
    have hbound := h.invocable
    rw [hparsed.invocable] at hbound
    have hforce : (overlay src found).get "require_invocable" = .bool true :=
      inForce_of_get? (by simp [structuredKeys]) htrue
    rw [hforce] at hbound
    simpa [truthy] using hbound

/-! ## Constraints that nothing passes -/

/-- The time of a result is the finality of some rail. -/
theorem settlement_of_result {t : Option ℤ}
    (h : settlementOrFinalityMs d.py d.keccak r .null = .ok t) :
    ∃ rail : Option Rail, t = rail.bind railFinality := by
  obtain ⟨eco, heco, rfl⟩ := map_eq_ok.mp h
  obtain ⟨offer, -, hoffer⟩ := bind_eq_ok.mp heco
  exact ⟨eco.rail, forOption_settlementOrFinalityMs _ _ hoffer⟩

theorem le_of_not_isNumber {x m : PyFloat} (h : ¬ m.IsNumber) : x.le m = false := by
  have hnan : m.unpack = .notANumber := not_not.mp h
  unfold PyFloat.le Float.Model.UnpackedFloat.le
  rw [hnan]
  cases x.unpack <;> rfl

/-- Where the bounds in force cannot be met, nothing passes. -/
theorem not_passes_of_unmeetable (hparsed : Parsed d.py levels (overlay src found) cons)
    (h : Unmeetable levels src d.py found) : ¬ Passes d r cons := by
  intro hpass
  cases h with
  | cost m h =>
      have hsome : cons.maxTotalCostUsd = some m := Except.ok.inj (hparsed.cost.symm.trans h)
      have hnone := notAbove_unknown (fun c hc => totalCostUsd_eq_none _ _ hc) hpass.cost
      rw [hsome] at hnone
      cases hnone
  | settlement m h hsoon =>
      have hsome : cons.maxSettlementLatencyMs = some m :=
        Except.ok.inj (hparsed.settlement.symm.trans h)
      have hbound := hpass.settlement
      rw [hsome] at hbound
      obtain ⟨t, ht, hany⟩ := map_eq_ok.mp hbound
      obtain ⟨rail, rfl⟩ := settlement_of_result ht
      obtain ⟨x, hx, hle⟩ := (Option.any_eq_true _ _).mp hany
      have hle : x ≤ m := of_decide_eq_true hle
      obtain ⟨e, -, he⟩ := Option.bind_eq_some_iff.mp hx
      -- no rail is final sooner
      have hlate : 2000 ≤ x := by
        cases e with
        | base => cases he; rfl
        | solana => cases he
        | algorand => cases he; decide
      omega
  | networks h =>
      have hsome : cons.rails = some [] := Except.ok.inj (hparsed.rails.symm.trans h)
      obtain ⟨opts, hopts, hne⟩ := passes_options hpass
      obtain ⟨o, ho⟩ := List.exists_mem_of_ne_nil _ hne
      obtain ⟨hin, hadmits⟩ := List.mem_filter.mp ho
      obtain ⟨e, _, _, _, _, hrail, _⟩ := complete_fields (options_valid hopts o hin).complete
      unfold admits at hadmits
      simp only [Bool.and_eq_true] at hadmits
      exact absurd ((onRails_iff hrail).mp hadmits.1.1 [] hsome) List.not_mem_nil
  | price m h hnan =>
      have hsome : cons.maxPriceUsd = some m := Except.ok.inj (hparsed.price.symm.trans h)
      obtain ⟨opts, hopts, hne⟩ := passes_options hpass
      obtain ⟨o, ho⟩ := List.exists_mem_of_ne_nil _ hne
      obtain ⟨hin, hadmits⟩ := List.mem_filter.mp ho
      unfold admits at hadmits
      simp only [Bool.and_eq_true] at hadmits
      have hprice := hadmits.2
      rw [hsome] at hprice
      obtain ⟨x, -, hle⟩ := (Option.any_eq_true _ _).mp hprice
      rw [le_of_not_isNumber hnan] at hle
      cases hle

/-! ## A result that passes -/

/-- The network of a rail, as it is written. -/
def caip2 : Rail → PyStr
  | .base => baseCaip2
  | .solana => solanaMainnet
  | .algorand => algorandMainnet

/-- The payee of the sample entries. -/
def samplePayee : Rail → PyStr
  | .base => "0xb18fc2275f36dae99eb215caeff03b431f887d16"
  | .solana => "HCM423cyKYVUoq9GvmqUphZwYVB6M2wez34i9jzSewLy"
  | .algorand => "N2JSJZCSORMYGYO2NSIYRUEMBFRHEOMYODVXV2MXYYHB5H2JVUGG6NJ4NQ"

/-- An envelope that asks for nothing on one rail. -/
def freeEnvelope (e : Rail) : Dict :=
  [("x402Version", .int 2), ("accepts", .arr [usdcAccept e 0])]

theorem samplePayee_valid (e : Rail) :
    validPaytoForRail d.py d.keccak (.str (samplePayee e)) e = true := by
  have htext : d.py.text (.str (samplePayee e)) = some (samplePayee e) := by
    show text (some (samplePayee e)) = _
    cases e <;> decide +kernel
  unfold validPaytoForRail
  rw [htext]
  cases e with
  | base =>
      have hcase : eip55Ok d.keccak (samplePayee .base) = true := by
        unfold eip55Ok
        exact if_pos (Or.inl (by decide +kernel))
      show (isBaseAddress (samplePayee .base) && eip55Ok d.keccak (samplePayee .base)) = true
      rw [hcase]
      decide +kernel
  | solana =>
      show (!(PyStr.startsWith (samplePayee .solana) "0x" ||
        PyStr.startsWith (samplePayee .solana) "0X") && b58decode32 (samplePayee .solana)) = true
      decide +kernel
  | algorand =>
      show (decodeAddress (samplePayee .algorand)).isSome = true
      decide +kernel

theorem sampleAsset_valid (e : Rail) :
    validAssetForRail d.py (.str (usdcAssetForRail e)) e = .ok true := by
  cases e <;> rfl

/-- The members of an entry that takes USDC. -/
def freeEntry (e : Rail) : Dict := (usdcAccept e 0).dictOrEmpty

theorem freeEntry_terms (e : Rail) :
    wireTerms (freeEntry e) (freeEnvelope e) = some (e, .str (natText 0), 0) := by
  cases e <;> rfl

theorem freeEntry_parties (e : Rail) : validParties d.py d.keccak (freeEntry e) e = .ok true := by
  unfold validParties
  show both (.ok true) (both (validAssetForRail d.py (.str (usdcAssetForRail e)) e)
    (both (.ok true) (.ok (validPaytoForRail d.py d.keccak (.str (samplePayee e)) e)))) = _
  rw [sampleAsset_valid, samplePayee_valid]
  rfl

/-- The entry is an option on its rail that asks for nothing. -/
theorem freeEntry_option (e : Rail) : ∃ o,
    validateObservedAccept d.py d.keccak (usdcAccept e 0) (freeEnvelope e) = .ok (some o) ∧
      o.rail = some e ∧ o.asset = some (usdcAssetForRail e) ∧ o.amountAtomic = some 0 := by
  obtain ⟨opt, hopt, hasset, hpayTo⟩ :
      ∃ opt, paymentOptionFromAccept d.py ((freeEntry e).set "amount" (.str (natText 0))) =
          .ok (some opt) ∧ opt.asset = acceptAsset d.py (freeEntry e) ∧
        opt.payTo = d.py.text ((freeEntry e).get "payTo") :=
    option_of_entry (show canonicalAtomicString (.str (natText 0)) = some 0 from rfl)
  have hasset : opt.asset = some (usdcAssetForRail e) := by
    rw [hasset]
    cases e <;> rfl
  have hpayTo : opt.payTo = some (samplePayee e) := by
    rw [hpayTo]
    cases e <;> rfl
  have hcomplete : isCompletePaymentOption d.py d.keccak
      (observed opt e 0 (.str (caip2 e))) (freeEnvelope e) = .ok true := by
    show both (.ok (railOfNetwork d.py.uni (caip2 e) == some e))
      (both (.ok true) (both (validAssetForRail d.py (.ofText opt.asset) e)
        (both (.ok (validPaytoForRail d.py d.keccak (.ofText opt.payTo) e))
          (both (.ok true) (.ok (schemeFits d.py (some "exact") (freeEnvelope e))))))) = _
    have hof : railOfNetwork d.py.uni (caip2 e) = some e := by
      cases e <;> rfl
    rw [hof, hasset, hpayTo, Json.ofText, Json.ofText, sampleAsset_valid, samplePayee_valid]
    cases e <;> rfl
  have hnetwork : (freeEntry e).get "network" = .str (caip2 e) := by
    cases e <;> rfl
  refine ⟨observed opt e 0 (.str (caip2 e)), ?_, rfl, hasset, rfl⟩
  have hentry : (usdcAccept e 0).asObj? = some (freeEntry e) := rfl
  unfold validateObservedAccept
  simp only [hentry, freeEntry_terms]
  unfold acceptOption keepComplete
  rw [freeEntry_parties]
  simp only [Except.bind, if_true, hopt, hnetwork, hcomplete, Except.map]

/-- A result on one rail that asks for nothing, with the figures the constraints ask for. -/
def freeResult (cons : Constraints) (e : Rail) : Dict :=
  [("live", .bool true), ("invocable", .bool true), ("envelope", .obj (freeEnvelope e)),
    ("latency_ms", .int ((cons.maxProbeLatencyMs.or cons.maxLatencyMs).getD 0)),
    ("history", .obj
      [("n_7d", .int (max 3 (cons.minObservations.getD 0))), ("p50_latency_ms", .int 0),
        ("success_7d", .ofFloat? cons.minObservedSuccess)]),
    ("reputation", .obj
      [("observed", .bool true), ("reputation_score", .ofFloat? cons.minReputationScore),
        ("reputation_confidence", .ofFloat? cons.minReputationConfidence)]),
    ("selected_payment", .obj [("rail", .str "base")])]

/-- Its only option. -/
theorem freeResult_options (cons : Constraints) (e : Rail) : ∃ o,
    paymentOptions d (freeResult cons e) = .ok [o] ∧ o.rail = some e ∧ o.decimals.isSome ∧
      o.amountAtomic = some 0 ∧ o.normalizedUsd = some PyFloat.zero := by
  obtain ⟨o, ho, hrail, hasset, hamount⟩ := freeEntry_option (d := d) e
  have hvalid := validate_valid ho
  have hknown : knownUsdcAsset d.py o.asset = true := by
    rw [hasset]
    cases e <;> rfl
  refine ⟨o, ?_, hrail, ?_, hamount, ?_⟩
  · show (validOptions d.py d.keccak (freeEnvelope e) [usdcAccept e 0]).map (dedupeOptions []) = _
    unfold validOptions
    rw [List.mapM_cons, ho]
    rfl
  · rw [hvalid.decimals, if_pos hknown]
    rfl
  · rw [hvalid.price, dollars, if_pos hknown, hamount]
    decide +kernel

theorem nonneg_of_nonnegInt {py : Interp} {x : Json} {n : ℤ}
    (h : nonnegInt py x = .ok (some n)) : 0 ≤ n := by
  have hkeep : ∀ m : ℤ, (if 0 ≤ m then some m else none) = some n → 0 ≤ n := by
    intro m hm
    split at hm
    · cases hm
      assumption
    · cases hm
  cases x with
  | int m => exact hkeep m (Except.ok.inj h)
  | str s =>
      rw [nonnegInt] at h
      split at h
      · obtain ⟨m, -, hm⟩ := map_eq_ok.mp h
        exact hkeep m hm
      · cases h
  | _ => cases h

theorem zero_le {m : PyFloat} (hm : m.IsNumber) (h : m.lt PyFloat.zero = false) :
    PyFloat.zero.le m = true := by
  have hzero : PyFloat.zero.unpack = .zero .positive := rfl
  unfold PyFloat.lt Float.Model.UnpackedFloat.lt at h
  unfold PyFloat.le Float.Model.UnpackedFloat.le
  unfold PyFloat.IsNumber at hm
  rw [hzero] at h ⊢
  generalize m.unpack = u at h hm ⊢
  cases u with
  | notANumber => exact absurd rfl hm
  | infinity s => cases s <;> first | rfl | cases h
  | zero s => rfl
  | finite s n k hn => cases s <;> first | rfl | cases h

theorem lt_self (x : PyFloat) : x.lt x = false := by
  by_cases hx : x.IsNumber
  · rw [Bool.eq_false_iff, Ne, PyFloat.lt_iff_rank hx hx]
    exact lt_irrefl _
  · have hnan : x.unpack = .notANumber := not_not.mp hx
    unfold PyFloat.lt Float.Model.UnpackedFloat.lt
    rw [hnan]
    rfl

theorem notBelow_self (bound : Option PyFloat) : notBelow bound (.ok bound) = .ok true := by
  cases bound with
  | none => rfl
  | some m =>
      unfold notBelow
      simp [Except.map, lt_self]

theorem forall_of_within {x : Json} {m : ℤ} {py : Interp} {bound : Option ℤ}
    (h : nonnegInt py x = .ok bound) (hm : bound = some m) : 0 ≤ m :=
  nonneg_of_nonnegInt (h.trans (congrArg Except.ok hm))

theorem asFloat_ofFloat? (py : Interp) (f : Option PyFloat) :
    py.asFloat (.ofFloat? f) = .ok f := by
  cases f <;> rfl

/-- The result names Base as its selected payment, which is final in two seconds. -/
theorem freeResult_settlement (cons : Constraints) (e : Rail) :
    settlementOrFinalityMs d.py d.keccak (freeResult cons e) .null = .ok (some 2000) := by
  obtain ⟨o, hopts, -⟩ := freeResult_options (d := d) cons e
  have hmerchant : merchantPrice d.py d.keccak (.ofDict [("rail", .str "base")])
      (freeResult cons e) = .ok ([o].findSome? PaymentOption.normalizedUsd) :=
    map_eq_ok.mpr ⟨[o], hopts, rfl⟩
  have hrail : railOf d.py (.ofDict [("rail", .str "base")]) (freeResult cons e) =
      .ok (some .base) := rfl
  show (forOption d.py d.keccak (.ofDict [("rail", .str "base")]) (freeResult cons e)).map _ = _
  unfold forOption
  rw [hrail, hmerchant]
  rfl

/-- Where the bounds in force can be met, the result passes on a rail that they allow. -/
theorem freeResult_passes (hparsed : Parsed d.py levels (overlay src found) cons)
    (hmeet : ¬ Unmeetable levels src d.py found) {e : Rail}
    (he : ∀ l, cons.rails = some l → e ∈ l) : Passes d (freeResult cons e) cons := by
  obtain ⟨o, hopts, hrail, hdecimals, hamount, hprice⟩ := freeResult_options (d := d) cons e
  have hadmits : admits cons o = true := by
    unfold admits
    rw [(onRails_iff hrail).mpr he, Bool.true_and, Bool.and_eq_true]
    constructor
    · unfold amountWithin
      cases hbound : cons.maxAmountAtomic with
      | none => rfl
      | some m =>
          have hm : 0 ≤ m := forall_of_within hparsed.amount hbound
          simp [hdecimals, hamount, hm]
    · unfold priceWithin
      cases hbound : cons.maxPriceUsd with
      | none => rfl
      | some m =>
          have hread := hparsed.price
          rw [hbound] at hread
          have hnumber : m.IsNumber := by
            by_contra hnan
            exact hmeet (.price m hread hnan)
          obtain ⟨f, -, hf⟩ := map_eq_ok.mp hread
          have hlow := (Option.filter_eq_some_iff.mp hf).2
          rw [Bool.not_eq_true'] at hlow
          simp [hprice, zero_le hnumber hlow]
  have hkept : [o].filter (admits cons) = [o] := by simp [hadmits]
  refine ⟨rfl, ?_, ?_, ?_, ?_, ?_, ?_, ?_, ?_, ?_, ?_, ?_, ?_⟩
  · exact payable_of_option rfl hopts List.mem_cons_self
  · rw [hparsed.measured]
    rfl
  · unfold offersOption optionsForConstraints
    rw [completeOptions_eq hopts, hopts]
    simp only [Except.map, hkept]
    split
    · rfl
    · split <;> rfl
  · show within _ (.ok (some ((cons.maxProbeLatencyMs.or cons.maxLatencyMs).getD 0))) = _
    cases cons.maxProbeLatencyMs.or cons.maxLatencyMs with
    | none => rfl
    | some m => simp [within, Except.map]
  · show within _ (.ok (some 0)) = _
    cases hbound : cons.maxServiceLatencyMs with
    | none => rfl
    | some m =>
        have hm : 0 ≤ m := forall_of_within hparsed.service hbound
        simp [within, Except.map, hm]
  · show atLeast _ (.ok (some (max 0 (max 3 (cons.minObservations.getD 0))))) = _
    cases cons.minObservations with
    | none => rfl
    | some m => simp [atLeast, Except.map]
  · have hrate : observedSuccessOf d (freeResult cons e) = .ok cons.minObservedSuccess := by
      show (if (some (max 3 (cons.minObservations.getD 0))).any (weakMinN ≤ ·) then
        d.py.asFloat (.ofFloat? cons.minObservedSuccess) else .ok none) = _
      simp [weakMinN, asFloat_ofFloat?]
    rw [hrate]
    exact notBelow_self _
  · show notBelow _ (d.py.asFloat (.ofFloat? cons.minReputationScore)) = _
    rw [asFloat_ofFloat?]
    exact notBelow_self _
  · show notBelow _ (d.py.asFloat (.ofFloat? cons.minReputationConfidence)) = _
    rw [asFloat_ofFloat?]
    exact notBelow_self _
  · rw [freeResult_settlement]
    cases hbound : cons.maxSettlementLatencyMs with
    | none => rfl
    | some m =>
        have hm : 2000 ≤ m := by
          by_contra hsoon
          exact hmeet (.settlement m (hparsed.settlement.trans (congrArg Except.ok hbound))
            (not_le.mp hsoon))
        simp [within, Except.map, hm]
  · have hnone : cons.maxTotalCostUsd = none := by
      cases hbound : cons.maxTotalCostUsd with
      | none => rfl
      | some m => exact absurd (.cost m (hparsed.cost.trans (congrArg Except.ok hbound))) hmeet
    rw [hnone]
    rfl
  · show (!cons.requireInvocable || true) = true
    exact Bool.or_true _

/-! ## When explicit bounds bind -/

theorem parsed_of_merge {compiled : Compiled}
    (hcompiled : compilePolicy d.py levels (constraintText src) = .ok compiled)
    (hmerge : mergeConstraints d.py levels (.obj src) = .ok cons) :
    Parsed d.py levels (overlay src compiled.interpreted) cons := by
  unfold mergeConstraints at hmerge
  obtain ⟨c, hc, hparse⟩ := bind_eq_ok.mp hmerge
  have heq : c = compiled := Except.ok.inj (hc.symm.trans hcompiled)
  subst heq
  exact parsed_of_eq_ok hparse

/-- Some rail is allowed, unless none can be. -/
theorem exists_allowed (hparsed : Parsed d.py levels (overlay src found) cons)
    (hmeet : ¬ Unmeetable levels src d.py found) :
    ∃ e : Rail, ∀ l, cons.rails = some l → e ∈ l := by
  cases hrails : cons.rails with
  | none => exact ⟨.base, by simp⟩
  | some l =>
      cases l with
      | nil => exact absurd (.networks (hparsed.rails.trans (congrArg Except.ok hrails))) hmeet
      | cons e rest => exact ⟨e, by simp⟩

/-- Bounds that bind are in force. -/
theorem kept_of_binding (hparsed : Parsed d.py levels (overlay src found) cons)
    (hmeet : ¬ Unmeetable levels src d.py found)
    (hbind : ∀ r, Passes d r cons → Meets d levels src r) : Kept levels src d.py found where
  latency := by
    intro n p hn hp
    obtain ⟨e, he⟩ := exists_allowed hparsed hmeet
    have hmeets := hbind _ (freeResult_passes hparsed hmeet he)
    obtain ⟨lat, given, -, hgiven, heq⟩ := hparsed.probe
    have hp : given = some p := Except.ok.inj (hgiven.symm.trans hp)
    -- the result takes as long as the probe bound lets it
    have hlatency : latencyMs d (freeResult cons e) = .ok (some p) := by
      show Except.ok (some ((cons.maxProbeLatencyMs.or cons.maxLatencyMs).getD 0)) = _
      rw [heq, hp]
      rfl
    have hwithin := hmeets.latency n hn
    rw [hlatency] at hwithin
    exact of_decide_eq_true (Except.ok.inj hwithin)
  rails := by
    intro v rails allowed hv hread hallowed e he
    have heq : allowed = cons.rails := Except.ok.inj (hallowed.symm.trans hparsed.rails)
    subst heq
    have hmeets := hbind _ (freeResult_passes hparsed hmeet he)
    obtain ⟨o, hopts, hrail, -⟩ := freeResult_options (d := d) cons e
    obtain ⟨opts, hopts', o', ho', -, -, -, hrails⟩ := hmeets.option
    rw [hopts] at hopts'
    cases hopts'
    rw [List.mem_singleton.mp ho'] at hrails
    exact (onRails_iff hrail).mp (hrails v rails hv hread) rails rfl

/-- **Explicit bounds bind** exactly when no result can pass, or when neither the probe
bound nor the networks in force are looser than the ones the body states. -/
theorem explicit_bounds_bind {compiled : Compiled}
    (hvalid : validateExplicitConstraints d.py (.obj src) = .ok ())
    (hcompiled : compilePolicy d.py levels (constraintText src) = .ok compiled)
    (hmerge : mergeConstraints d.py levels (.obj src) = .ok cons) :
    (∀ r, passesConstraints d r cons = .ok true → Meets d levels src r) ↔
      Unmeetable levels src d.py compiled.interpreted ∨
        Kept levels src d.py compiled.interpreted := by
  have hparsed := parsed_of_merge hcompiled hmerge
  constructor
  · intro hbind
    by_cases hmeet : Unmeetable levels src d.py compiled.interpreted
    · exact .inl hmeet
    · exact .inr (kept_of_binding hparsed hmeet fun r hr => hbind r (passes_iff.mpr hr))
  · rintro (hmeet | hkept) r hr
    · exact absurd (passes_iff.mp hr) (not_passes_of_unmeetable hparsed hmeet)
    · exact meets_of_kept hvalid hparsed hkept (passes_iff.mp hr)

/-- A body with a bound on the probe and a text that names a longer time. -/
def hurriedBody : Dict := [("need", .str "weather within 500 ms"), ("max_latency_ms", .int 100)]

theorem explicit_bounds_bind_hurried : ∃ compiled cons,
    compilePolicy Interp.plain 100 (constraintText hurriedBody) = .ok compiled ∧
      mergeConstraints Interp.plain 100 (.obj hurriedBody) = .ok cons ∧
      ((∀ r, passesConstraints .plain r cons = .ok true → Meets .plain 100 hurriedBody r) ↔
        Unmeetable 100 hurriedBody Interp.plain compiled.interpreted ∨
          Kept 100 hurriedBody Interp.plain compiled.interpreted) := by
  have hcompiled : (compilePolicy Interp.plain 100 (constraintText hurriedBody)).map (fun _ => ()) =
      .ok () := by decide +kernel
  have hmerge : (mergeConstraints Interp.plain 100 (.obj hurriedBody)).map (fun _ => ()) =
      .ok () := by decide +kernel
  obtain ⟨compiled, hcompiled, -⟩ := map_eq_ok.mp hcompiled
  obtain ⟨cons, hmerge, -⟩ := map_eq_ok.mp hmerge
  exact ⟨compiled, cons, hcompiled, hmerge,
    explicit_bounds_bind (d := .plain) (by decide +kernel) hcompiled hmerge⟩

/-- A body that takes one rail, with a text that names another. -/
def lockedBody : Dict := [("need", .str "weather on solana"), ("rails", .arr [.str "base"])]

/-- The text loosens the bound on the probe, and it replaces the rails: a result of 300 ms
passes where 100 ms are the most, and one on Solana passes where Base is the only rail. -/
theorem text_loosens_bounds :
    (∃ cons r, validateExplicitConstraints Interp.plain (.obj hurriedBody) = .ok () ∧
      mergeConstraints Interp.plain 100 (.obj hurriedBody) = .ok cons ∧
      passesConstraints .plain r cons = .ok true ∧ ¬ Meets .plain 100 hurriedBody r) ∧
    (∃ cons r, validateExplicitConstraints Interp.plain (.obj lockedBody) = .ok () ∧
      mergeConstraints Interp.plain 100 (.obj lockedBody) = .ok cons ∧
      passesConstraints .plain r cons = .ok true ∧ ¬ Meets .plain 100 lockedBody r) := by
  constructor
  · have hpass : ((mergeConstraints Interp.plain 100 (.obj hurriedBody)).bind fun cons =>
        passesConstraints .plain (liveResult [(.base, 3000)] 300) cons) = .ok true := by
      decide +kernel
    obtain ⟨cons, hcons, hpass⟩ := bind_eq_ok.mp hpass
    refine ⟨cons, _, by decide +kernel, hcons, hpass, fun hmeets => ?_⟩
    exact absurd (hmeets.latency 100 rfl) (by decide +kernel)
  · have hpass : ((mergeConstraints Interp.plain 100 (.obj lockedBody)).bind fun cons =>
        passesConstraints .plain (liveResult [(.solana, 3000)] 300) cons) = .ok true := by
      decide +kernel
    obtain ⟨cons, hcons, hpass⟩ := bind_eq_ok.mp hpass
    refine ⟨cons, _, by decide +kernel, hcons, hpass, fun hmeets => ?_⟩
    obtain ⟨opts, hopts, o, ho, -, -, -, hrails⟩ := hmeets.option
    have hbase : (paymentOptions .plain (liveResult [(.solana, 3000)] 300)).map
        (fun opts => opts.map PaymentOption.rail) = .ok [some .solana] := by decide +kernel
    rw [hopts] at hbase
    have hrails' : opts.map PaymentOption.rail = [some .solana] := Except.ok.inj hbase
    have hrail : o.rail = some .solana := by
      have hmem : o.rail ∈ opts.map PaymentOption.rail := List.mem_map_of_mem ho
      rw [hrails'] at hmem
      exact List.mem_singleton.mp hmem
    exact absurd ((onRails_iff hrail).mp (hrails _ [.base] rfl (by decide +kernel)) _ rfl)
      (by decide)

end Select

end Signal402
