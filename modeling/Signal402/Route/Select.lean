import Signal402.Lib.CmpSort
import Signal402.Route.Economics
import Mathlib.Data.List.Dedup
import Mathlib.Data.List.Sort

/-!
# Selection under constraints (`select.py`)

Which probed results pass the constraints of a request, which option of a result is
paid, and which result wins.  A result is the dictionary of one probe; a figure that
cannot be read fails its bound, and one that is no number raises, as in the source.
-/

namespace Signal402

open Payment

inductive Objective
  | best
  | cheapest
  | fastest
  | mostReliable
  | lowestTotalCost
  | fastestSettlement
  deriving DecidableEq, Repr

/-- The constraints `parse_constraints` returns. -/
structure Constraints where
  maxAmountAtomic : Option ℤ
  maxPriceUsd : Option PyFloat
  maxTotalCostUsd : Option PyFloat
  maxLatencyMs : Option ℤ
  maxProbeLatencyMs : Option ℤ
  maxServiceLatencyMs : Option ℤ
  maxSettlementLatencyMs : Option ℤ
  requireInvocable : Bool
  rails : Option (List Rail)
  minObservations : Option ℤ
  minObservedSuccess : Option PyFloat
  minReputationScore : Option PyFloat
  minReputationConfidence : Option PyFloat
  unmeasured : List PyStr
  acceptPayToChange : Bool
  requireTransparency : Bool

/-- No constraint. -/
def Constraints.none : Constraints where
  maxAmountAtomic := .none
  maxPriceUsd := .none
  maxTotalCostUsd := .none
  maxLatencyMs := .none
  maxProbeLatencyMs := .none
  maxServiceLatencyMs := .none
  maxSettlementLatencyMs := .none
  requireInvocable := false
  rails := .none
  minObservations := .none
  minObservedSuccess := .none
  minReputationScore := .none
  minReputationConfidence := .none
  unmeasured := []
  acceptPayToChange := false
  requireTransparency := false

/-- What the selection takes from elsewhere: the interpreter, the Keccak library, and
the reputation of a result that carries none. -/
structure Deps where
  py : Interp
  keccak : Bytes → Option Bytes
  scoring : Dict → Json

/-- Tests in a row, each of which may raise. -/
def allOf (checks : List (Except PyError Bool)) : Except PyError Bool :=
  checks.foldr both (.ok true)

theorem allOf_eq_true {checks : List (Except PyError Bool)} :
    allOf checks = .ok true ↔ ∀ c ∈ checks, c = .ok true := by
  induction checks with
  | nil => simp [allOf]
  | cons c rest ih =>
      rw [allOf, List.foldr_cons, both_eq_true, List.forall_mem_cons]
      exact and_congr_right fun _ => ih

/-- The elements that pass a test, which may raise. -/
def keepIf {α : Type} (f : α → Except PyError Bool) : List α → Except PyError (List α)
  | [] => .ok []
  | x :: rest =>
      (f x).bind fun b => (keepIf f rest).map fun kept => if b then x :: kept else kept

theorem mem_keepIf {α : Type} {f : α → Except PyError Bool} {xs ys : List α}
    (h : keepIf f xs = .ok ys) {x : α} : x ∈ ys ↔ x ∈ xs ∧ f x = .ok true := by
  induction xs generalizing ys with
  | nil => cases h; simp
  | cons a rest ih =>
      obtain ⟨b, hb, h⟩ := bind_eq_ok.mp h
      obtain ⟨kept, hkept, rfl⟩ := map_eq_ok.mp h
      have hiff := ih hkept
      cases b with
      | true =>
          rw [if_pos rfl, List.mem_cons, List.mem_cons, hiff]
          constructor
          · rintro (rfl | hx)
            · exact ⟨.inl rfl, hb⟩
            · exact ⟨.inr hx.1, hx.2⟩
          · rintro ⟨rfl | hx, hf⟩
            · exact .inl rfl
            · exact .inr ⟨hx, hf⟩
      | false =>
          rw [if_neg Bool.false_ne_true, hiff, List.mem_cons]
          constructor
          · exact fun hx => ⟨.inr hx.1, hx.2⟩
          · rintro ⟨rfl | hx, hf⟩
            · rw [hb] at hf
              cases hf
            · exact ⟨hx, hf⟩

/-- A figure is known and at most the bound, if there is one. -/
def within (bound : Option ℤ) (value : Except PyError (Option ℤ)) : Except PyError Bool :=
  match bound with
  | none => .ok true
  | some m => value.map fun v => v.any (· ≤ m)

/-- A figure is known and at least the bound, if there is one. -/
def atLeast (bound : Option ℤ) (value : Except PyError (Option ℤ)) : Except PyError Bool :=
  match bound with
  | none => .ok true
  | some m => value.map fun v => v.any (m ≤ ·)

/-- A rate is known and not below the bound, if there is one. -/
def notBelow (bound : Option PyFloat) (value : Except PyError (Option PyFloat)) :
    Except PyError Bool :=
  match bound with
  | none => .ok true
  | some m => value.map fun v => v.any fun x => !x.lt m

/-- A cost is known and not above the bound, if there is one. -/
def notAbove (bound : Option PyFloat) (value : Except PyError (Option PyFloat)) :
    Except PyError Bool :=
  match bound with
  | none => .ok true
  | some m => value.map fun v => v.any fun x => !m.lt x

namespace Select

def weakMinN : ℤ := 3

def matureN : ℤ := 10

section Options

variable (d : Deps)

/-- `parse_objective`. -/
def parseObjective (raw : Json) : Objective :=
  if raw.isNull then .best
  else
    let t := d.py.uni.lower (PyStr.strip (d.py.str raw))
    if t = "cheapest" then .cheapest
    else if t = "fastest" then .fastest
    else if t = "most_reliable" then .mostReliable
    else if t = "lowest_total_cost" then .lowestTotalCost
    else if t = "fastest_settlement" then .fastestSettlement
    else .best

/-- `payment_options`. -/
def paymentOptions (result : Dict) : Except PyError (List PaymentOption) :=
  paymentOptionsFromResult d.py d.keccak result

/-- The envelope of a result. -/
def envelope (result : Dict) : Dict := (result.get "envelope").dictOrEmpty

/-- The option is on a rail of the lock. -/
def onRails (rails : Option (List Rail)) (opt : PaymentOption) : Bool :=
  match rails with
  | none => true
  | some rails => opt.rail.any (rails.contains ·)

/-- The amount is in known units and within the bound. -/
def amountWithin (bound : Option ℤ) (opt : PaymentOption) : Bool :=
  match bound with
  | none => true
  | some m => opt.decimals.isSome && opt.amountAtomic.any (· ≤ m)

/-- The price is known and within the bound. -/
def priceWithin (bound : Option PyFloat) (opt : PaymentOption) : Bool :=
  match bound with
  | none => true
  | some m => opt.normalizedUsd.any (·.le m)

/-- The tests of `_options_for_constraints` on one option. -/
def admits (cons : Constraints) (opt : PaymentOption) : Bool :=
  onRails cons.rails opt && amountWithin cons.maxAmountAtomic opt &&
    priceWithin cons.maxPriceUsd opt

/-- `_options_for_constraints`. -/
def optionsForConstraints (result : Dict) (cons : Constraints) :
    Except PyError (List PaymentOption) :=
  (paymentOptions d result).map (·.filter (admits cons))

/-- `_complete_options_for_constraints`. -/
def completeOptionsForConstraints (result : Dict) (cons : Constraints) :
    Except PyError (List PaymentOption) :=
  (optionsForConstraints d result cons).bind
    (keepIf fun opt => isCompletePaymentOption d.py d.keccak opt (envelope result))

/-- `_is_payable`. -/
def isPayable (result : Dict) : Except PyError Bool :=
  if (result.get "live").truthy then
    (paymentOptions d result).bind
      (anyOf fun opt => isCompletePaymentOption d.py d.keccak opt (envelope result))
  else .ok false

/-! ## Figures of a result -/

/-- `latency_ms`. -/
def latencyMs (result : Dict) : Except PyError (Option ℤ) :=
  (d.py.asInt (result.get "latency_ms")).bind fun n =>
    match n with
    | some n => .ok (some n)
    | none => d.py.asInt (Dict.get (result.get "health").dictOrEmpty "latency_ms")

/-- The history of a result. -/
def history (result : Dict) : Dict := (result.get "history").dictOrEmpty

/-- `service_latency_ms`. -/
def serviceLatencyMs (result : Dict) : Except PyError (Option ℤ) :=
  d.py.asInt ((history result).get "p50_latency_ms")

/-- `observation_count`. -/
def observationCount (result : Dict) : Except PyError (Option ℤ) :=
  match (result.get "history").asObj? with
  | none => .ok none
  | some hist => (d.py.asInt (Dict.get hist "n_7d")).map fun n => some (max 0 (n.getD 0))

/-- `_reliability_window`. -/
def reliabilityWindow (result : Dict) : Except PyError (ℤ × Option PyFloat) :=
  (d.py.asInt ((history result).get "n_7d")).bind fun n7 =>
    (d.py.asInt ((history result).get "n_24h")).bind fun n24 =>
      if weakMinN ≤ n7.getD 0 then
        (d.py.asFloat ((history result).get "success_7d")).map (n7.getD 0, ·)
      else if weakMinN ≤ n24.getD 0 then
        (d.py.asFloat ((history result).get "success_24h")).map (n24.getD 0, ·)
      else .ok (0, none)

/-- `mature_reliability`. -/
def matureReliability (result : Dict) : Except PyError (Option PyFloat) :=
  (reliabilityWindow d result).map fun w => if matureN ≤ w.1 then w.2 else none

/-- `weak_reliability`. -/
def weakReliability (result : Dict) : Except PyError (Option PyFloat) :=
  (reliabilityWindow d result).map fun w =>
    if weakMinN ≤ w.1 ∧ w.1 < matureN then w.2 else none

/-- `observed_success_of`. -/
def observedSuccessOf (result : Dict) : Except PyError (Option PyFloat) :=
  (d.py.asInt ((history result).get "n_7d")).bind fun n =>
    if n.any (weakMinN ≤ ·) then d.py.asFloat ((history result).get "success_7d")
    else .ok none

/-- `reputation.of`: the reputation a result carries, or its score. -/
def reputationOf (result : Dict) : Json :=
  match (result.get "reputation").asObj? with
  | some rep =>
      if (Dict.get? rep "observed").isSome then .obj rep else d.scoring result
  | none => d.scoring result

/-- A field of the reputation. -/
def reputationField (field : PyStr) (result : Dict) : Except PyError (Option PyFloat) :=
  match (reputationOf d result).asObj? with
  | none => .ok none
  | some rep => d.py.asFloat (Dict.get rep field)

/-- `score_of`. -/
def scoreOf : Dict → Except PyError (Option PyFloat) := reputationField d "reputation_score"

/-- `confidence_of`. -/
def confidenceOf : Dict → Except PyError (Option PyFloat) :=
  reputationField d "reputation_confidence"

/-! ## The constraints -/

/-- Some option fits the networks, the amount and the price. -/
def offersOption (result : Dict) (cons : Constraints) : Except PyError Bool :=
  if cons.rails.isSome then
    (completeOptionsForConstraints d result cons).map fun opts => !opts.isEmpty
  else if cons.maxAmountAtomic.isSome ∨ cons.maxPriceUsd.isSome then
    (optionsForConstraints d result cons).map fun opts => !opts.isEmpty
  else .ok true

/-- `passes_constraints`. -/
def passesConstraints (result : Dict) (cons : Constraints) : Except PyError Bool :=
  allOf
    [.ok (result.get "live").truthy,
      isPayable d result,
      .ok cons.unmeasured.isEmpty,
      offersOption d result cons,
      within (cons.maxProbeLatencyMs.or cons.maxLatencyMs) (latencyMs d result),
      within cons.maxServiceLatencyMs (serviceLatencyMs d result),
      atLeast cons.minObservations (observationCount d result),
      notBelow cons.minObservedSuccess (observedSuccessOf d result),
      notBelow cons.minReputationScore (scoreOf d result),
      notBelow cons.minReputationConfidence (confidenceOf d result),
      within cons.maxSettlementLatencyMs (settlementOrFinalityMs d.py d.keccak result .null),
      notAbove cons.maxTotalCostUsd (totalCostUsd d.py d.keccak result .null),
      .ok (!cons.requireInvocable || (result.get "invocable").truthy)]

/-- `selected_payment_is_complete`. -/
def selectedPaymentIsComplete (selected : Json) : Except PyError Bool :=
  match selected.asObj? with
  | none => .ok false
  | some sel =>
      (supportedRail (Dict.get sel "rail")).map fun rail =>
        match rail with
        | none => false
        | some rail =>
            (Dict.get sel "network").truthy &&
              railOfNetwork d.py.uni (d.py.strOrEmpty (Dict.get sel "network")) == some rail &&
              !(Dict.get sel "amount_atomic").isNull &&
              (Dict.get sel "asset").truthy &&
              (Dict.get sel "payTo").truthy

/-- The constraints that `selected_payment_passes_constraints` leaves to the result. -/
def Constraints.common (cons : Constraints) : Constraints :=
  { cons with
    rails := none
    maxAmountAtomic := none
    maxPriceUsd := none
    maxTotalCostUsd := none
    maxSettlementLatencyMs := none }

/-- `selected_payment_passes_constraints`. -/
def selectedPaymentPassesConstraints (result : Dict) (selected : Json) (cons : Constraints) :
    Except PyError Bool :=
  allOf
    [selectedPaymentIsComplete d selected,
      .ok cons.unmeasured.isEmpty,
      (completeOptionsForConstraints d result cons).map fun eligible =>
        eligible.any (sameFields selected.dictOrEmpty),
      notAbove cons.maxTotalCostUsd (totalCostUsd d.py d.keccak result selected),
      within cons.maxSettlementLatencyMs (settlementOrFinalityMs d.py d.keccak result selected),
      passesConstraints d result (Constraints.common cons)]

end Options

/-! ## The option that is paid -/

/-- `sorted(options, key=...)` on a known price. -/
def byUsd (opts : List PaymentOption) : List PaymentOption :=
  opts.insertionSort fun a b =>
    !((b.normalizedUsd.getD PyFloat.zero).lt (a.normalizedUsd.getD PyFloat.zero)) = true

/-- `sorted(options, key=...)` on a known amount. -/
def byAmount (opts : List PaymentOption) : List PaymentOption :=
  opts.insertionSort fun a b => a.amountAtomic.getD 0 ≤ b.amountAtomic.getD 0

/-- The options with a known figure and the figure. -/
def figured {α : Type} (figure : PaymentOption → Except PyError (Option α)) :
    List PaymentOption → Except PyError (List (α × PaymentOption))
  | [] => .ok []
  | opt :: rest =>
      (figure opt).bind fun f =>
        (figured figure rest).map fun known =>
          match f with
          | some x => (x, opt) :: known
          | none => known

section Pick

variable (d : Deps)

/-- The distinct assets of options, those that cannot be compared left out. -/
def assetKeys (opts : List PaymentOption) : List PyStr :=
  (opts.filterMap fun o => assetIdentity d.py o.rail o.network o.asset).dedup

/-- The complete options in the order in which they are taken: by price when one is
known, by amount when they are of one asset and the cheapest is asked for. -/
def inOrder (objective : Objective) (complete : List PaymentOption) : List PaymentOption :=
  let usd := complete.filter (·.normalizedUsd.isSome)
  if !usd.isEmpty then byUsd usd
  else if objective = .cheapest ∧ (assetKeys d complete).length = 1 then
    byAmount (complete.filter (·.amountAtomic.isSome))
  else complete

/-- The figure of an option that an objective minimises, from its economics. -/
def economicsOf {α : Type} (figure : Economics → Option α) (result : Dict)
    (opt : PaymentOption) : Except PyError (Option α) :=
  (forOption d.py d.keccak opt.offer result).map figure

/-- `pick_selected_payment`: the option whose fields it returns. -/
def pickSelectedPayment (result : Dict) (objective : Objective) (cons : Constraints) :
    Except PyError (Option PaymentOption) :=
  if (result.get "live").truthy then
    (completeOptionsForConstraints d result cons).bind fun complete =>
      match objective with
      | .lowestTotalCost =>
          (figured (economicsOf d Economics.totalCostUsd result) (inOrder d objective complete)).map
            fun priced =>
              ((priced.insertionSort fun a b => !(b.1.lt a.1) = true).head?).map Prod.snd
      | .fastestSettlement =>
          (figured (economicsOf d Economics.settlementOrFinalityMs result)
            (inOrder d objective complete)).map
            fun timed => ((timed.insertionSort fun a b => a.1 ≤ b.1).head?).map Prod.snd
      | .best | .cheapest | .fastest | .mostReliable =>
          .ok (inOrder d objective complete).head?
  else .ok none

/-- `selected_payment_matches_networks`. -/
def selectedPaymentMatchesNetworks (selected : Json) (cons : Constraints) :
    Except PyError Bool :=
  match cons.rails with
  | none => .ok true
  | some rails =>
      both (selectedPaymentIsComplete d selected)
        ((supportedRail (Dict.get selected.dictOrEmpty "rail")).map fun rail =>
          rail.any (rails.contains ·))

/-- `http200_winner_ok`. -/
def http200WinnerOk (result : Dict) (objective : Objective) (cons : Constraints) :
    Except PyError Bool :=
  allOf
    [.ok (result.get "live").truthy,
      isPayable d result,
      (selectedPaymentIsComplete d (result.get "selected_payment")).bind fun complete =>
        if complete then selectedPaymentMatchesNetworks d (result.get "selected_payment") cons
        else
          (pickSelectedPayment d result objective cons).bind fun picked =>
            match picked with
            | none => .ok false
            | some opt =>
                both (selectedPaymentIsComplete d (.obj (selectedPaymentFields opt)))
                  (selectedPaymentMatchesNetworks d (.obj (selectedPaymentFields opt)) cons)]

end Pick

end Select

end Signal402
