import Signal402.Route.PickWinner
import Signal402.Route.Policy

/-!
# The settlement gate (`route.py`)

`_billable_winner` decides whether a routed result may be charged for.

* `billable_payable` — a billable winner is payable by an entry of its current envelope
  that is the selected payment, and option and result meet every constraint.
-/

namespace Signal402

namespace Select

open Payment

section Gate

variable (d : Deps) (levels : ℕ)

/-- The part of `_billable_winner` whose exceptions it catches. -/
def paysCurrently (body result : Dict) : Except PyError Bool :=
  let selected := result.get "selected_payment"
  (strRaises levels (body.get "objective")).bind fun _ =>
    (Policy.mergeConstraints d.py levels (.obj body)).bind fun cons =>
      allOf
        [http200WinnerOk d result (parseObjective d (body.get "objective")) cons,
          .ok (paytoSelectable result cons),
          selectedPaymentMatchesCurrentEnvelope d.py d.keccak selected result,
          selectedPaymentPassesConstraints d result selected cons,
          .ok (paytoEqual d.py.uni (d.py.str? (result.get "payTo"))
            (d.py.str? (selected.dictOrEmpty.get "payTo"))
            (d.py.str? (selected.dictOrEmpty.get "rail")))]

/-- A text that is an `https` URL. -/
def isHttps : Json → Bool
  | .str url => (d.py.uni.lower url.strip).startsWith "https://"
  | _ => false

/-- The status is that of a challenge. -/
def isChallenge : Json → Bool
  | .int n => n == 402
  | _ => false

/-- `_billable_winner`. -/
def billableWinner (body : Dict) (code : ℤ) (result : Json) : Bool :=
  match result.asObj? with
  | none => false
  | some r =>
      code == 200 && (r.get "live").isTrue && (r.get "payable").isTrue &&
        isHttps d (r.get "url") && isChallenge (r.get "status") &&
        (paysCurrently d levels body r).toOption.getD false

end Gate

/-- An entry of an envelope is the selected payment, and meets the constraints on options. -/
structure PaysBy (d : Deps) (cons : Constraints) (result env selected : Dict) (accept : Json)
    (opt : PaymentOption) : Prop where
  valid : validateObservedAccept d.py d.keccak accept env = .ok (some opt)
  described : Describes selected opt
  admitted : admits cons opt = true
  cost : notAbove cons.maxTotalCostUsd
    (totalCostUsd d.py d.keccak result (.obj (selectedPaymentFields opt))) = .ok true
  settlement : within cons.maxSettlementLatencyMs
    (settlementOrFinalityMs d.py d.keccak result (.obj (selectedPaymentFields opt))) = .ok true

variable {d : Deps} {levels : ℕ} {body : Dict} {code : ℤ} {result : Json}

/-- What a billable winner went through. -/
theorem billableWinner_eq_true (h : billableWinner d levels body code result = true) :
    ∃ (r : Dict) (cons : Constraints), result = .obj r ∧ isChallenge (r.get "status") = true ∧
      Policy.mergeConstraints d.py levels (.obj body) = .ok cons ∧
      selectedPaymentMatchesCurrentEnvelope d.py d.keccak (r.get "selected_payment") r =
        .ok true ∧
      SelectedPasses d r (r.get "selected_payment") cons := by
  unfold billableWinner at h
  cases result with
  | obj r =>
      simp only [Json.asObj?, Bool.and_eq_true] at h
      obtain ⟨⟨-, hstatus⟩, hpays⟩ := h
      cases hrun : paysCurrently d levels body r with
      | error e =>
          rw [hrun] at hpays
          cases hpays
      | ok b =>
          rw [hrun] at hpays
          change b = true at hpays
          rw [hpays] at hrun
          obtain ⟨-, -, hrun⟩ := bind_eq_ok.mp hrun
          obtain ⟨cons, hcons, hrun⟩ := bind_eq_ok.mp hrun
          have hall := allOf_eq_true.mp hrun
          exact ⟨r, cons, rfl, hstatus, hcons, hall _ (by simp),
            selectedPasses_iff.mp (hall _ (by simp))⟩
  | _ => cases h

/-- A selected payment that matches is described by a valid entry of the envelope. -/
theorem matches_envelope {selected : Json} {r : Dict}
    (h : selectedPaymentMatchesCurrentEnvelope d.py d.keccak selected r = .ok true) :
    ∃ (sel env : Dict) (accepts : List Json), selected = .obj sel ∧ r.get "envelope" = .obj env ∧
      env.get "accepts" = .arr accepts ∧
      ∃ accept ∈ accepts, ∃ opt,
        validateObservedAccept d.py d.keccak accept env = .ok (some opt) ∧
          Describes sel opt := by
  unfold selectedPaymentMatchesCurrentEnvelope at h
  split at h
  case h_2 => cases h
  rename_i sel env hsel henv
  split at h
  case h_2 => cases h
  rename_i first rest hversion haccepts
  obtain ⟨amount, -, h⟩ := bind_eq_ok.mp h
  obtain ⟨rail, -, h⟩ := bind_eq_ok.mp h
  split at h
  case h_2 => cases h
  split at h
  case h_1 => cases h
  obtain ⟨accept, hmem, hentry⟩ := anyOf_eq_true h
  obtain ⟨found, hfound, hany⟩ := map_eq_ok.mp hentry
  obtain ⟨opt, rfl, hopt⟩ := Option.any_eq_true _ _ |>.mp hany
  rw [Bool.and_eq_true] at hopt
  have hselected : selected = .obj sel := by
    cases selected with
    | obj m => rw [Option.some_inj.mp hsel]
    | _ => cases hsel
  have henvelope : r.get "envelope" = .obj env := by
    cases hvalue : r.get "envelope" with
    | obj m =>
        rw [hvalue] at henv
        rw [Option.some_inj.mp henv]
    | _ =>
        rw [hvalue] at henv
        cases henv
  exact ⟨sel, env, first :: rest, hselected, henvelope, haccepts, accept, hmem, opt, hfound,
    sameFields_iff.mp hopt.2⟩

/-- Options that one selected payment describes have the same fields. -/
theorem Describes.fields_eq {selected env env' : Dict} {o p : PaymentOption}
    (ho : Describes selected o) (hp : Describes selected p) (hov : o.Valid d.py d.keccak env)
    (hpv : p.Valid d.py d.keccak env') : selectedPaymentFields o = selectedPaymentFields p := by
  obtain ⟨hrail, hamount, -, hprice⟩ := ho.unique hp hov hpv
  unfold selectedPaymentFields
  rw [hrail, hamount, hprice, Json.eqText_unique ho.network hp.network,
    Json.eqText_unique ho.asset hp.asset, Json.eqText_unique ho.display hp.display,
    Json.eqText_unique ho.payTo hp.payTo, Json.eqText_unique ho.facilitator hp.facilitator]

/-- The time of a selected payment is that of the option it describes. -/
theorem settlement_of_described {r sel : Dict} {opts : List PaymentOption} {o : PaymentOption}
    {t : Option ℤ} (hopts : paymentOptions d r = .ok opts) (ho : o ∈ opts)
    (hdesc : Describes sel o)
    (ht : settlementOrFinalityMs d.py d.keccak r (.obj sel) = .ok t) :
    settlementOrFinalityMs d.py d.keccak r (.obj (selectedPaymentFields o)) = .ok t := by
  rw [settlement_of_selected hopts ho]
  obtain ⟨eco, heco, rfl⟩ := map_eq_ok.mp ht
  obtain ⟨x, hx, hfor⟩ := bind_eq_ok.mp heco
  cases hx
  rw [forOption_settlementOrFinalityMs _ _ hfor]
  obtain ⟨rail, hrail, hfor⟩ := bind_eq_ok.mp hfor
  obtain ⟨merchant, -, rfl⟩ := map_eq_ok.mp hfor
  obtain ⟨own, _, _, _, _, hown, _⟩ := complete_fields (options_valid hopts o ho).complete
  have hname : sel.get "rail" = .str own.name := by
    have hsame := hdesc.rail
    rw [hown] at hsame
    change (sel.get "rail").eqStr own.name = true at hsame
    cases hvalue : sel.get "rail" with
    | str s =>
        rw [hvalue] at hsame
        rw [beq_iff_eq.mp hsame]
    | _ =>
        rw [hvalue] at hsame
        cases hsame
  have hof : railOf d.py (.ofDict sel) r = .ok (some own) := by
    unfold railOf Offer.ofDict
    rw [hname]
    show (Except.ok (Rail.ofName own.name)).bind _ = _
    rw [Rail.ofName_name]
    rfl
  rw [hof] at hrail
  cases hrail
  rw [hown]

/-- A billable winner is payable as advertised: the selected payment is a valid entry of
the current envelope, and every constraint of the request holds for that option and that
result. -/
theorem billable_payable (h : billableWinner d levels body code result = true) :
    ∃ (r sel env : Dict) (accepts : List Json) (cons : Constraints),
      result = .obj r ∧ isChallenge (r.get "status") = true ∧
      r.get "selected_payment" = .obj sel ∧ r.get "envelope" = .obj env ∧
      env.get "accepts" = .arr accepts ∧
      Policy.mergeConstraints d.py levels (.obj body) = .ok cons ∧
      (∃ accept ∈ accepts, ∃ opt, PaysBy d cons r env sel accept opt) ∧
      Passes d r (Constraints.common cons) := by
  obtain ⟨r, cons, rfl, hstatus, hcons, hmatch, hpass⟩ := billableWinner_eq_true h
  obtain ⟨sel, env, accepts, hsel, henv, haccepts, accept, hmem, opt, hvalid, hdesc⟩ :=
    matches_envelope hmatch
  rw [hsel] at hpass
  refine ⟨r, sel, env, accepts, cons, rfl, hstatus, hsel, henv, haccepts, hcons,
    ⟨accept, hmem, opt, ?_⟩, hpass.common⟩
  -- the eligible option of the result and the entry have the same fields
  obtain ⟨opts, hopts⟩ : ∃ opts, paymentOptions d r = .ok opts := by
    obtain ⟨opts, hopts, -⟩ := options_of_payable hpass.common.payable
    exact ⟨opts, hopts⟩
  obtain ⟨kept, hkept, o, ho, hsame⟩ := hpass.eligible
  rw [completeOptions_eq hopts] at hkept
  cases hkept
  obtain ⟨hin, hadmits⟩ := List.mem_filter.mp ho
  have hodesc : Describes sel o := sameFields_iff.mp hsame
  have hov := options_valid hopts o hin
  have hpv := validate_valid hvalid
  obtain ⟨hrail, hamount, hdecimals, hprice⟩ := hodesc.unique hdesc hov hpv
  have hfields := Describes.fields_eq hodesc hdesc hov hpv
  have hnone : cons.maxTotalCostUsd = none :=
    notAbove_unknown (fun c hc => totalCostUsd_eq_none _ _ hc) hpass.cost
  refine ⟨hvalid, hdesc, ?_, ?_, ?_⟩
  · unfold admits onRails amountWithin priceWithin at hadmits ⊢
    rwa [← hrail, ← hamount, ← hdecimals, ← hprice]
  · rw [hnone]
    rfl
  · have hbound := hpass.settlement
    unfold within at hbound ⊢
    cases hmax : cons.maxSettlementLatencyMs with
    | none => rfl
    | some m =>
        rw [hmax] at hbound
        obtain ⟨t, ht, hle⟩ := map_eq_ok.mp hbound
        rw [← hfields, settlement_of_described hopts hin hodesc ht]
        exact congrArg Except.ok hle

/-- A result that is paid in USDC on Base. -/
def billedResult : Dict :=
  liveResult [(.base, 3000)] 100 ++ ([("payable", .bool true), ("url", .str "https://a.example"),
    ("status", .int 402), ("payTo", .str "0xb18fc2275f36dae99eb215caeff03b431f887d16"),
    ("selected_payment", .obj
      [("rail", .str "base"), ("network", .str baseCaip2), ("asset", .str usdcBase),
        ("amount_atomic", .int 3000), ("display_amount", .str "$0.003"),
        ("normalized_usd", .float (.ofRatio 3000 1000000)),
        ("payTo", .str "0xb18fc2275f36dae99eb215caeff03b431f887d16"),
        ("facilitator", .null)])] : Dict)

/-- A request for Base by its text, with a bound on the probe. -/
def billedBody : Dict := [("need", .str "weather on base"), ("max_latency_ms", .int 150)]

theorem billable_payable_base :
    ∃ (r sel env : Dict) (accepts : List Json) (cons : Constraints),
      Json.obj billedResult = .obj r ∧ isChallenge (r.get "status") = true ∧
      r.get "selected_payment" = .obj sel ∧ r.get "envelope" = .obj env ∧
      env.get "accepts" = .arr accepts ∧
      Policy.mergeConstraints Interp.plain 100 (.obj billedBody) = .ok cons ∧
      (∃ accept ∈ accepts, ∃ opt, PaysBy .plain cons r env sel accept opt) ∧
      Passes .plain r (Constraints.common cons) :=
  @billable_payable .plain 100 billedBody 200 (.obj billedResult) (by decide +kernel)

end Select

end Signal402
