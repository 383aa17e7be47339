import Signal402.Route.Payment

/-!
# Economics of an option (`economics.py`)

Costs and times of paying by an option.  No fee is known in dollars on any rail, so
no total cost is; the time is the documented finality of the rail.
-/

namespace Signal402.Payment

/-- The fields of an option or of a selected payment that the economics read. -/
structure Offer where
  rail : Json
  network : Json
  normalizedUsd : Json

def PaymentOption.offer (opt : PaymentOption) : Offer :=
  ⟨.ofText (opt.rail.map Rail.name), .ofText opt.network, .ofFloat? opt.normalizedUsd⟩

def Offer.ofDict (d : Dict) : Offer := ⟨d.get "rail", d.get "network", d.get "normalized_usd"⟩

/-- `RAIL_FINALITY[rail]["value_ms"]`. -/
def railFinality : Rail → Option ℤ
  | .base => some 2000
  | .algorand => some 2820
  | .solana => none

/-- `RAIL_CHAIN_FEE_USD[rail]["value"]`. -/
def railChainFeeUsd : Rail → Option PyFloat
  | .base => none
  | .solana => none
  | .algorand => none

/-- The values of `for_option`. -/
structure Economics where
  rail : Option Rail
  merchantPriceUsd : Option PyFloat
  chainFeeUsd : Option PyFloat
  facilitatorFeeUsd : Option PyFloat
  totalCostUsd : Option PyFloat
  settlementLatencyMs : Option ℤ
  finalityMs : Option ℤ
  settlementOrFinalityMs : Option ℤ

variable (py : Interp) (keccak : Bytes → Option Bytes)

/-- `_rail_of`. -/
def railOf (opt : Offer) (result : Dict) : Except PyError (Option Rail) :=
  (supportedRail opt.rail).bind fun own =>
    match own with
    | some r => .ok (some r)
    | none =>
        (supportedRail (result.get "rail")).map fun catalog =>
          catalog.or (railName py.uni (py.str? (opt.network.or opt.rail)))

/-- The price of the seller: that of the option, or the first known one of the result. -/
def merchantPrice (opt : Offer) (result : Dict) : Except PyError (Option PyFloat) :=
  if opt.normalizedUsd.isNull then
    (paymentOptionsFromResult py keccak result).map fun opts =>
      opts.findSome? PaymentOption.normalizedUsd
  else py.asFloat opt.normalizedUsd

/-- `for_option`. -/
def forOption (opt : Offer) (result : Dict) : Except PyError Economics :=
  (railOf py opt result).bind fun rail =>
    (merchantPrice py keccak opt result).map fun merchant =>
      let chainFee := rail.bind railChainFeeUsd
      let facilitatorFee : Option PyFloat := none
      let settlement : Option ℤ := none
      let finality := rail.bind railFinality
      { rail
        merchantPriceUsd := merchant
        chainFeeUsd := chainFee
        facilitatorFeeUsd := facilitatorFee
        totalCostUsd :=
          match merchant, chainFee, facilitatorFee with
          | some m, some c, some f => some ((m.add c).add f)
          | _, _, _ => none
        settlementLatencyMs := settlement
        finalityMs := finality
        settlementOrFinalityMs := settlement.or finality }

/-- The option `for_result` looks at: the one given, the selected payment of the result,
or its first option. -/
def offerOf (result : Dict) (selected : Json) : Except PyError Offer :=
  match selected.asObj?.or (result.get "selected_payment").asObj? with
  | some sel => .ok (.ofDict sel)
  | none =>
      (paymentOptionsFromResult py keccak result).map fun opts =>
        match opts with
        | opt :: _ => opt.offer
        | [] => ⟨result.get "rail", .null, .null⟩

/-- `for_result`. -/
def forResult (result : Dict) (selected : Json) : Except PyError Economics :=
  (offerOf py keccak result selected).bind fun opt => forOption py keccak opt result

/-- `total_cost_usd`. -/
def totalCostUsd (result : Dict) (selected : Json) : Except PyError (Option PyFloat) :=
  (forResult py keccak result selected).map Economics.totalCostUsd

/-- `settlement_or_finality_ms`. -/
def settlementOrFinalityMs (result : Dict) (selected : Json) : Except PyError (Option ℤ) :=
  (forResult py keccak result selected).map Economics.settlementOrFinalityMs

/-- No total cost is known. -/
theorem forOption_totalCostUsd {opt : Offer} {result : Dict} {eco : Economics}
    (h : forOption py keccak opt result = .ok eco) : eco.totalCostUsd = none := by
  unfold forOption at h
  obtain ⟨rail, -, h⟩ := bind_eq_ok.mp h
  obtain ⟨merchant, -, rfl⟩ := map_eq_ok.mp h
  dsimp only
  split <;> simp_all

/-- The time of an option is the finality of its rail. -/
theorem forOption_settlementOrFinalityMs {opt : Offer} {result : Dict} {eco : Economics}
    (h : forOption py keccak opt result = .ok eco) :
    eco.settlementOrFinalityMs = eco.rail.bind railFinality := by
  unfold forOption at h
  obtain ⟨rail, -, h⟩ := bind_eq_ok.mp h
  obtain ⟨merchant, -, rfl⟩ := map_eq_ok.mp h
  rfl

theorem totalCostUsd_eq_none {result : Dict} {selected : Json} {cost : Option PyFloat}
    (h : totalCostUsd py keccak result selected = .ok cost) : cost = none := by
  obtain ⟨eco, heco, rfl⟩ := map_eq_ok.mp h
  obtain ⟨opt, -, hopt⟩ := bind_eq_ok.mp heco
  exact forOption_totalCostUsd py keccak hopt

end Signal402.Payment
