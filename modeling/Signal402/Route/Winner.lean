import Signal402.Route.Select

/-!
# Choosing a winner (`select.py`)

The comparisons that rank results, the results that can be compared by price, and the
choice itself: `enoughEvidence` stops the probing and `pickWinner` takes the first
ranked result that has an option to pay by.
-/

namespace Signal402.Select

open Payment

/-! ## Comparisons -/

/-- `-1`, `0` or `1` on floats: neither is less when one is no number. -/
def cmpFloat (a b : PyFloat) : Ordering :=
  if a.lt b then .lt else if b.lt a then .gt else .eq

/-- The least float of a list, the first of equal ones. -/
def minFloat : List PyFloat → Option PyFloat
  | [] => none
  | x :: xs => some (xs.foldl (fun m y => if y.lt m then y else m) x)

/-- The least integer of a list. -/
def minInt : List ℤ → Option ℤ
  | [] => none
  | n :: ns => some (ns.foldl min n)

/-- Known before unknown, lower before higher. -/
def cmpKnownFirst {α : Type} (cmp : α → α → Ordering) : Option α → Option α → Ordering
  | some x, some y => cmp x y
  | some _, none => .lt
  | none, some _ => .gt
  | none, none => .eq

/-- Compared only when both are known. -/
def cmpBothKnown {α : Type} (cmp : α → α → Ordering) : Option α → Option α → Ordering
  | some x, some y => cmp x y
  | _, _ => .eq

/-- `if c: return c`. -/
def orElse (a b : Except PyError Ordering) : Except PyError Ordering :=
  a.bind fun c => if c = .eq then b else .ok c

/-- A comparison of figures. -/
def cmpBy {α : Type} (figure : Dict → Except PyError α) (cmp : α → α → Ordering)
    (a b : Dict) : Except PyError Ordering :=
  (figure a).bind fun x => (figure b).map fun y => cmp x y

section Compare

variable (d : Deps)

/-- The options a price is read from: those within the constraints, or, when there are
none and no network is locked, all of them. -/
def comparedOptions (result : Dict) (cons : Constraints) :
    Except PyError (List PaymentOption) :=
  (optionsForConstraints d result cons).bind fun opts =>
    if opts.isEmpty ∧ cons.rails.isNone then paymentOptions d result else .ok opts

/-- The least amount of the options of an asset. -/
def leastAmount (key : PyStr) (opts : List PaymentOption) : Option ℤ :=
  minInt ((opts.filter fun o =>
    assetIdentity d.py o.rail o.network o.asset == some key).filterMap (·.amountAtomic))

/-- `_best_usd`. -/
def bestUsd (result : Dict) (cons : Constraints) : Except PyError (Option PyFloat) :=
  (comparedOptions d result cons).map fun opts => minFloat (opts.filterMap (·.normalizedUsd))

/-- `_best_atomic_for_asset`. -/
def bestAtomicForAsset (result : Dict) (key : PyStr) (cons : Constraints) :
    Except PyError (Option ℤ) :=
  (comparedOptions d result cons).map (leastAmount d key)

/-- `_cmp_amount_asc`: by dollars, or by the amounts of the one asset that both take. -/
def cmpAmountAsc (a b : Dict) : Except PyError Ordering :=
  (bestUsd d a .none).bind fun ua =>
    (bestUsd d b .none).bind fun ub =>
      match ua, ub with
      | some x, some y => .ok (cmpFloat x y)
      | _, _ =>
          (paymentOptions d a).bind fun oa =>
            (paymentOptions d b).bind fun ob =>
              match (assetKeys d oa).filter (assetKeys d ob).contains with
              | [key] =>
                  cmpBy (fun r => bestAtomicForAsset d r key .none) (cmpBothKnown compare) a b
              | _ => .ok .eq

/-- `_cmp_latency_asc`. -/
def cmpLatencyAsc (unknownLast : Bool) : Dict → Dict → Except PyError Ordering :=
  cmpBy (latencyMs d) (if unknownLast then cmpKnownFirst compare else cmpBothKnown compare)

/-- `_cmp_rate_desc`. -/
def cmpRateDesc : Option PyFloat → Option PyFloat → Ordering :=
  cmpKnownFirst fun x y => cmpFloat y x

/-- `_cmp_mature_reliability_desc`. -/
def cmpMatureReliabilityDesc : Dict → Dict → Except PyError Ordering :=
  cmpBy (matureReliability d) cmpRateDesc

/-- `_cmp_weak_reliability_desc`. -/
def cmpWeakReliabilityDesc : Dict → Dict → Except PyError Ordering :=
  cmpBy (weakReliability d) cmpRateDesc

/-- `_cmp_cheapest`. -/
def cmpCheapest (a b : Dict) : Except PyError Ordering :=
  orElse (cmpAmountAsc d a b) (cmpLatencyAsc d false a b)

/-- `_cmp_fastest`. -/
def cmpFastest (a b : Dict) : Except PyError Ordering :=
  orElse (cmpLatencyAsc d true a b) (cmpAmountAsc d a b)

/-- `_cmp_most_reliable`. -/
def cmpMostReliable (a b : Dict) : Except PyError Ordering :=
  orElse (cmpMatureReliabilityDesc d a b)
    (orElse (cmpWeakReliabilityDesc d a b)
      (orElse (cmpLatencyAsc d true a b) (cmpAmountAsc d a b)))

/-- `_total_cost`. -/
def totalCost (result : Dict) : Except PyError (Option PyFloat) :=
  totalCostUsd d.py d.keccak result .null

/-- `_settlement_ms`. -/
def settlementMs (result : Dict) : Except PyError (Option ℤ) :=
  settlementOrFinalityMs d.py d.keccak result .null

/-- `_cmp_lowest_total_cost`. -/
def cmpLowestTotalCost (a b : Dict) : Except PyError Ordering :=
  (totalCost d a).bind fun ca =>
    (totalCost d b).bind fun cb =>
      match ca, cb with
      | some x, some y => orElse (.ok (cmpFloat x y)) (cmpLatencyAsc d false a b)
      | some _, none => .ok .lt
      | none, some _ => .ok .gt
      | none, none => .ok .eq

/-- `_cmp_fastest_settlement`. -/
def cmpFastestSettlement (a b : Dict) : Except PyError Ordering :=
  (settlementMs d a).bind fun sa =>
    (settlementMs d b).bind fun sb =>
      match sa, sb with
      | some x, some y => orElse (.ok (compare x y)) (cmpAmountAsc d a b)
      | some _, none => .ok .lt
      | none, some _ => .ok .gt
      | none, none => .ok .eq

/-- `_readiness_tier`. -/
def readinessTier (result : Dict) : Except PyError ℤ :=
  if (result.get "invocable").truthy then .ok 2
  else
    (isPayable d result).map fun payable =>
      if payable then 1 else if (result.get "live").truthy then 0 else -1

/-- `_cmp_best`. -/
def cmpBest (a b : Dict) : Except PyError Ordering :=
  orElse (cmpBy (readinessTier d) (fun x y => compare y x) a b)
    (orElse (cmpMatureReliabilityDesc d a b)
      (orElse (cmpLatencyAsc d false a b)
        (orElse (cmpAmountAsc d a b) (cmpWeakReliabilityDesc d a b))))

/-- `_CMP`. -/
def cmp : Objective → Dict → Dict → Except PyError Ordering
  | .cheapest => cmpCheapest d
  | .fastest => cmpFastest d
  | .mostReliable => cmpMostReliable d
  | .lowestTotalCost => cmpLowestTotalCost d
  | .fastestSettlement => cmpFastestSettlement d
  | .best => cmpBest d

/-! ## Results that compare by price -/

/-- The price by which `_cheapest_comparable_subset` knows a result. -/
inductive Priced
  | usd (price : PyFloat)
  | atomic (amount : ℤ) (key : PyStr)

/-- The price of the options of a result: the least in dollars, or the least amount of
their one asset. -/
def pricedOptions (opts : List PaymentOption) : Option Priced :=
  match minFloat (opts.filterMap (·.normalizedUsd)) with
  | some price => some (.usd price)
  | none =>
      match assetKeys d opts with
      | [key] => (leastAmount d key opts).map fun n => .atomic n key
      | _ => none

/-- The price of a result under constraints. -/
def pricedResult (cons : Constraints) (result : Dict) : Except PyError (Option Priced) :=
  (comparedOptions d result cons).map (pricedOptions d)

/-- The asset of a price that is no dollar price. -/
def Priced.key? : Priced → Option PyStr
  | .usd _ => none
  | .atomic _ key => some key

/-- The results that have a price, with it. -/
def pricedResults (cons : Constraints) : List Dict → Except PyError (List (Dict × Priced))
  | [] => .ok []
  | r :: rest =>
      (pricedResult d cons r).bind fun p =>
        (pricedResults cons rest).map fun known =>
          match p with
          | some p => (r, p) :: known
          | none => known

/-- The part of priced results that compares: the dollar prices if there are any, or
everything when it is one asset. -/
def comparable (priced : List (Dict × Priced)) : List Dict :=
  let usd := priced.filter fun p => p.2.key?.isNone
  if !usd.isEmpty then usd.map Prod.fst
  else if ((priced.filterMap fun p => p.2.key?).dedup).length = 1 then priced.map Prod.fst
  else []

/-- `_cheapest_comparable_subset`. -/
def cheapestComparableSubset (results : List Dict) (cons : Constraints) :
    Except PyError (List Dict) :=
  (pricedResults d cons results).map comparable

/-! ## The choice -/

/-- `_payto_selectable`. -/
def paytoSelectable (result : Dict) (cons : Constraints) : Bool :=
  !(result.get "payTo_pending").truthy || cons.acceptPayToChange

/-- A result passes the constraints and may be selected. -/
def isViable (cons : Constraints) (result : Dict) : Except PyError Bool :=
  both (passesConstraints d result cons) (.ok (paytoSelectable result cons))

/-- The viable results of a list. -/
def viable (results : List Json) (cons : Constraints) : Except PyError (List Dict) :=
  keepIf (isViable d cons) (results.filterMap Json.asObj?)

/-- The results whose payee is the one the catalog claims, or all of them. -/
def stableOr (results : List Dict) : List Dict :=
  let stable := results.filter fun r => !(r.get "payTo_changed").truthy
  if stable.isEmpty then results else stable

/-- A test whether a figure of a result is known. -/
def known {α : Type} (figure : Dict → Except PyError (Option α)) (result : Dict) :
    Except PyError Bool := (figure result).map Option.isSome

/-- `enough_evidence`. -/
def enoughEvidence (results : List Json) (objective : Objective) (cons : Constraints) :
    Except PyError Bool :=
  (viable d results cons).bind fun found =>
    if found.isEmpty then .ok false
    else
      match objective with
      | .best => .ok (found.any fun r => !(r.get "payTo_changed").truthy)
      | .cheapest =>
          (cheapestComparableSubset d (stableOr found) cons).map fun pool => !pool.isEmpty
      | .lowestTotalCost => anyOf (known (totalCost d)) (stableOr found)
      | .fastestSettlement => anyOf (known (settlementMs d)) (stableOr found)
      | .fastest | .mostReliable => .ok true

/-- The results among which an objective chooses. -/
def eligible (objective : Objective) (cons : Constraints) (found : List Dict) :
    Except PyError (List Dict) :=
  match objective with
  | .cheapest => cheapestComparableSubset d found cons
  | .lowestTotalCost => keepIf (known (totalCost d)) found
  | .fastestSettlement => keepIf (known (settlementMs d)) found
  | .best | .fastest | .mostReliable => .ok found

/-- The first result that has an option to pay by. -/
def firstPayable (objective : Objective) (cons : Constraints) :
    List Dict → Except PyError (Option Dict)
  | [] => .ok none
  | r :: rest =>
      (pickSelectedPayment d r objective cons).bind fun picked =>
        match picked with
        | some _ => .ok (some r)
        | none => firstPayable objective cons rest

variable (sorter : CmpSort.Sorter Dict PyError)

/-- The results of a list in the order of an objective. -/
def ranked (results : List Json) (objective : Objective) (cons : Constraints) :
    Except PyError (List Dict) :=
  (viable d results cons).bind fun found =>
    (eligible d objective cons found).bind (sorter.sorted (cmp d objective))

/-- `pick_winner`. -/
def pickWinner (results : List Json) (objective : Objective) (cons : Constraints) :
    Except PyError (Option Dict) :=
  (ranked d sorter results objective cons).bind (firstPayable d objective cons)

end Compare

end Signal402.Select
