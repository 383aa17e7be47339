import Signal402.Base.JsonDepth
import Signal402.Route.Select

/-!
# The constraints of a request (`select.py`)

The gate that refuses malformed constraints, and the reading of the others.  A bound that
cannot be read is no bound; what a conversion raises besides a `ValueError` it catches goes
through.

`str` of a list or a dictionary may go `levels` deep before it raises.
-/

namespace Signal402

namespace Select

/-- `10 ** 4300`: `int` and `str` convert no longer integer. -/
def intLimit : ℕ := 10 ^ PyStr.maxIntDigits

/-- What `str(x)` raises. -/
def strRaises : ℕ → Json → Except PyError Unit
  | _, .int n =>
      if n.natAbs < intLimit then .ok ()
      else .error (.valueError "Exceeds the limit (4300 digits) for integer string conversion")
  | 0, .arr _ | 0, .obj _ => .error recursionError
  | k + 1, .arr items => items.forM (strRaises k)
  | k + 1, .obj members => members.forM fun m => strRaises k m.2
  | _, .null | _, .bool _ | _, .float _ | _, .str _ => .ok ()

section Read

variable (py : Interp) (levels : ℕ)

/-- `str(x)`. -/
def strOf (x : Json) : Except PyError PyStr := (strRaises levels x).map fun _ => py.str x

/-- `_text`. -/
def textOf (x : Json) : Except PyError (Option PyStr) :=
  if x.isNull then .ok none else (strOf py levels x).map fun s => text (some s)

/-- A text without the blanks around it and without one leading plus sign. -/
def unsigned (s : PyStr) : PyStr :=
  if s.strip.head? = some (CodePoint.ofChar '+') then s.strip.tail else s.strip

/-- `_nonneg_int`. -/
def nonnegInt : Json → Except PyError (Option ℤ)
  | .int n => .ok (if 0 ≤ n then some n else none)
  | .str s =>
      if py.isDigit (unsigned s) then
        (py.int (unsigned s)).map fun n => if 0 ≤ n then some n else none
      else .ok none
  | .null | .bool _ | .float _ | .arr _ | .obj _ => .ok none

/-- `_truthy`, with `False` as its default. -/
def truthy : Json → Bool
  | .bool b => b
  | .str s =>
      let low := py.uni.lower s.strip
      low == "1" || low == "true" || low == "yes"
  | .int n => n ≠ 0
  | .null | .float _ | .arr _ | .obj _ => false

/-- `[part.strip() for part in raw.split(",") if part.strip()]`. -/
def parts (raw : PyStr) : List PyStr :=
  ((raw.splitOn (CodePoint.ofChar ',')).map PyStr.strip).filter fun p => !p.isEmpty

/-- The items of a list, or of a text with commas. -/
def railItems : Json → Option (List Json)
  | .str s => some ((parts s).map .str)
  | .arr items => some items
  | .null | .bool _ | .int _ | .float _ | .obj _ => none

/-- The rail an item names. -/
def railOfItem (item : Json) : Except PyError (Option Rail) :=
  (textOf py levels item).map fun name => name.bind fun s => Rail.ofName (py.uni.lower s)

/-- `_parse_rails`. -/
def parseRails (raw : Json) : Except PyError (Option (List Rail)) :=
  if raw.isBlank then .ok none
  else
    match railItems raw with
    | none => .ok (some [])
    | some items => (items.mapM (railOfItem py levels)).map fun rails => some (rails.filterMap id)

/-- `1.0`. -/
def oneFloat : PyFloat := PyFloat.ofRatio 1 1

/-- A bound below zero is no bound. -/
def costBound (x : Json) : Except PyError (Option PyFloat) :=
  (py.asFloat x).map fun f => f.filter fun n => !n.lt PyFloat.zero

/-- A rate below zero or above one is no bound. -/
def rateBound (x : Json) : Except PyError (Option PyFloat) :=
  (py.asFloat x).map fun f => f.filter fun n => !(n.lt PyFloat.zero || oneFloat.lt n)

/-- `parse_constraints`. -/
def parseConstraints (src : Dict) : Except PyError Constraints := do
  let networks := if (src.get "networks").isNull then src.get "rails" else src.get "networks"
  let maxUsd ← costBound py (src.get "max_price_usd")
  let maxTotal ← costBound py (src.get "max_total_cost_usd")
  let minRep ← costBound py (src.get "min_reputation_score")
  let minSuccess ← rateBound py (src.get "min_observed_success")
  let minConf ← rateBound py (src.get "min_reputation_confidence")
  let maxLat ← nonnegInt py (src.get "max_latency_ms")
  let givenProbe ← nonnegInt py (src.get "max_probe_latency_ms")
  let maxProbe := givenProbe.or maxLat
  let maxAmount ← nonnegInt py (src.get "max_amount_atomic")
  let maxService ← nonnegInt py (src.get "max_service_latency_ms")
  let maxSettlement ← nonnegInt py (src.get "max_settlement_latency_ms")
  let rails ← parseRails py levels networks
  let minObservations ← nonnegInt py (src.get "min_observations")
  return {
    maxAmountAtomic := maxAmount
    maxPriceUsd := maxUsd
    maxTotalCostUsd := maxTotal
    maxLatencyMs := maxLat.or maxProbe
    maxProbeLatencyMs := maxProbe
    maxServiceLatencyMs := maxService
    maxSettlementLatencyMs := maxSettlement
    requireInvocable := truthy py (src.get "require_invocable")
    rails := rails
    minObservations := minObservations
    minObservedSuccess := minSuccess
    minReputationScore := minRep
    minReputationConfidence := minConf
    -- `UNMEASURED_CONSTRAINTS` is empty
    unmeasured := []
    acceptPayToChange := truthy py (src.get "accept_payTo_change")
    requireTransparency := truthy py (src.get "require_transparency") }

/-- What the constraints are that `parse_constraints` reads. -/
structure Parsed (src : Dict) (cons : Constraints) : Prop where
  price : costBound py (src.get "max_price_usd") = .ok cons.maxPriceUsd
  cost : costBound py (src.get "max_total_cost_usd") = .ok cons.maxTotalCostUsd
  score : costBound py (src.get "min_reputation_score") = .ok cons.minReputationScore
  success : rateBound py (src.get "min_observed_success") = .ok cons.minObservedSuccess
  confidence : rateBound py (src.get "min_reputation_confidence") =
    .ok cons.minReputationConfidence
  probe : ∃ lat given, nonnegInt py (src.get "max_latency_ms") = .ok lat ∧
    nonnegInt py (src.get "max_probe_latency_ms") = .ok given ∧
      cons.maxProbeLatencyMs.or cons.maxLatencyMs = given.or lat
  amount : nonnegInt py (src.get "max_amount_atomic") = .ok cons.maxAmountAtomic
  service : nonnegInt py (src.get "max_service_latency_ms") = .ok cons.maxServiceLatencyMs
  settlement : nonnegInt py (src.get "max_settlement_latency_ms") =
    .ok cons.maxSettlementLatencyMs
  rails : parseRails py levels
    (if (src.get "networks").isNull then src.get "rails" else src.get "networks") = .ok cons.rails
  observations : nonnegInt py (src.get "min_observations") = .ok cons.minObservations
  invocable : cons.requireInvocable = truthy py (src.get "require_invocable")
  measured : cons.unmeasured = []

theorem parsed_of_eq_ok {py : Interp} {levels : ℕ} {src : Dict} {cons : Constraints}
    (h : parseConstraints py levels src = .ok cons) : Parsed py levels src cons := by
  unfold parseConstraints at h
  obtain ⟨usd, husd, h⟩ := bind_eq_ok.mp h
  obtain ⟨total, htotal, h⟩ := bind_eq_ok.mp h
  obtain ⟨rep, hrep, h⟩ := bind_eq_ok.mp h
  obtain ⟨success, hsuccess, h⟩ := bind_eq_ok.mp h
  obtain ⟨conf, hconf, h⟩ := bind_eq_ok.mp h
  obtain ⟨lat, hlat, h⟩ := bind_eq_ok.mp h
  obtain ⟨given, hgiven, h⟩ := bind_eq_ok.mp h
  obtain ⟨amount, hamount, h⟩ := bind_eq_ok.mp h
  obtain ⟨service, hservice, h⟩ := bind_eq_ok.mp h
  obtain ⟨settlement, hsettlement, h⟩ := bind_eq_ok.mp h
  obtain ⟨rails, hrails, h⟩ := bind_eq_ok.mp h
  obtain ⟨observations, hobservations, h⟩ := bind_eq_ok.mp h
  cases h
  refine ⟨husd, htotal, hrep, hsuccess, hconf, ⟨lat, given, hlat, hgiven, ?_⟩, hamount,
    hservice, hsettlement, hrails, hobservations, rfl, rfl⟩
  cases given <;> cases lat <;> rfl

end Read

/-- A loop that raises nothing raises nothing in any round. -/
theorem forM_eq_ok {α : Type} {f : α → Except PyError Unit} {xs : List α} :
    xs.forM f = .ok () ↔ ∀ x ∈ xs, f x = .ok () := by
  induction xs with
  | nil => exact ⟨fun _ x hx => absurd hx List.not_mem_nil, fun _ => rfl⟩
  | cons x rest ih =>
      rw [List.forall_mem_cons, ← ih]
      show (f x).bind (fun _ => rest.forM f) = .ok () ↔ _
      rw [bind_eq_ok]
      exact ⟨fun ⟨_, hx, hrest⟩ => ⟨hx, hrest⟩, fun ⟨hx, hrest⟩ => ⟨⟨⟩, hx, hrest⟩⟩

/-- The first round of a loop that raises. -/
theorem forM_eq_error {α : Type} {f : α → Except PyError Unit} {xs : List α} {e : PyError} :
    xs.forM f = .error e ↔ ∃ before x after, xs = before ++ x :: after ∧
      (∀ y ∈ before, f y = .ok ()) ∧ f x = .error e := by
  constructor
  · intro h
    induction xs with
    | nil => cases h
    | cons x rest ih =>
        change (f x).bind (fun _ => rest.forM f) = .error e at h
        cases hx : f x with
        | error e' =>
            rw [hx] at h
            cases h
            exact ⟨[], x, rest, rfl, fun y hy => absurd hy List.not_mem_nil, hx⟩
        | ok u =>
            rw [hx] at h
            obtain ⟨before, y, after, rfl, hbefore, hy⟩ := ih h
            exact ⟨x :: before, y, after, rfl, List.forall_mem_cons.mpr ⟨hx, hbefore⟩, hy⟩
  · rintro ⟨before, x, after, rfl, hbefore, hx⟩
    induction before with
    | nil =>
        show (f x).bind (fun _ => after.forM f) = .error e
        rw [hx]
        rfl
    | cons y rest ih =>
        obtain ⟨hy, hrest⟩ := List.forall_mem_cons.mp hbefore
        show (f y).bind (fun _ => (rest ++ x :: after).forM f) = .error e
        rw [hy]
        exact ih hrest

/-! ## The gate -/

/-- `_reject`. -/
def reject {α : Type} (message : String) : Except PyError α := .error ⟨.constraintError, message⟩

/-- `_require_bool`. -/
def requireBool (name : String) : Json → Except PyError Unit
  | .bool _ => .ok ()
  | _ => reject (name ++ " must be a boolean")

/-- `_require_int`. -/
def requireInt (name : String) : Json → Except PyError ℤ
  | .int n =>
      if 2 ^ 63 ≤ n.natAbs then reject (name ++ " is out of range")
      else if n < 0 then reject (name ++ " cannot be negative")
      else .ok n
  | _ => reject (name ++ " must be an integer")

/-- `_require_finite_number`. -/
def requireFiniteNumber (name : String) : Json → Except PyError PyFloat
  | .int n => PyFloat.ofInt n
  | .float x =>
      if x.isFinite then .ok x else reject (name ++ " must be a finite number")
  | _ => reject (name ++ " must be a number")

/-- `_require_probability`. -/
def requireProbability (name : String) (x : Json) : Except PyError Unit :=
  (requireFiniteNumber name x).bind fun n =>
    if n.lt PyFloat.zero || oneFloat.lt n then reject (name ++ " must be between 0 and 1")
    else .ok ()

/-- `_require_nonneg_number`. -/
def requireNonnegNumber (name : String) (x : Json) : Except PyError Unit :=
  (requireFiniteNumber name x).bind fun n =>
    if n.lt PyFloat.zero then reject (name ++ " cannot be negative") else .ok ()

section Gate

variable (py : Interp)

/-- One entry of the networks. -/
def checkNetwork : Json → Except PyError Unit
  | .str s =>
      if (Rail.ofName (py.uni.lower s.strip)).isSome then .ok () else reject "unsupported network"
  | _ => reject "networks entries must be strings"

/-- `_parse_explicit_networks`, for its effect. -/
def checkNetworks (raw : Json) : Except PyError Unit :=
  match railItems raw with
  | none | some [] => reject "networks must be a nonempty list or string of supported rails"
  | some (item :: rest) => (item :: rest).forM (checkNetwork py)

/-- A text among some, in lower case. -/
def checkChoice (name : String) (choices : List PyStr) : Json → Except PyError Unit
  | .str s =>
      if choices.contains (py.uni.lower s.strip) then .ok () else reject ("unsupported " ++ name)
  | _ => reject ("unsupported " ++ name)

def objectives : List PyStr :=
  ["best", "cheapest", "fastest", "most_reliable", "lowest_total_cost", "fastest_settlement"]

def preferNetworks : List PyStr := ["base", "solana", "algorand"]

def searchDepths : List PyStr := ["standard", "thorough"]

/-- A key that is present is checked, `null` included. -/
def present (key : String) (check : Json → Except PyError Unit) (src : Dict) :
    Except PyError Unit :=
  match src.get? key with
  | none => .ok ()
  | some v => check v

/-- The check of `max_candidates_to_probe`. -/
def checkCandidates (v : Json) : Except PyError Unit :=
  (requireInt "max_candidates_to_probe" v).bind fun n =>
    if n < 1 then reject "max_candidates_to_probe must be at least 1" else .ok ()

/-- `_require_int`, for its effect. -/
def presentInt (key : String) : Dict → Except PyError Unit :=
  present key fun v => (requireInt key v).map fun _ => ()

/-- The checks of `validate_explicit_constraints`, in their order. -/
def explicitChecks : List (Dict → Except PyError Unit) :=
  [present "constraints" fun _ => reject "constraints must be specified as top-level fields",
    present "objective" (checkChoice py "objective" objectives),
    present "prefer_network" (checkChoice py "prefer_network" preferNetworks),
    present "networks" (checkNetworks py),
    presentInt "max_amount_atomic",
    presentInt "max_latency_ms",
    presentInt "max_probe_latency_ms",
    presentInt "max_service_latency_ms",
    presentInt "min_observations",
    presentInt "max_settlement_latency_ms",
    present "max_candidates_to_probe" checkCandidates,
    present "require_invocable" (requireBool "require_invocable"),
    present "accept_payTo_change" (requireBool "accept_payTo_change"),
    present "require_route_binding" (requireBool "require_route_binding"),
    present "require_transparency" (requireBool "require_transparency"),
    present "max_price_usd" (requireNonnegNumber "max_price_usd"),
    present "max_total_cost_usd" (requireNonnegNumber "max_total_cost_usd"),
    present "min_reputation_score" (requireProbability "min_reputation_score"),
    present "min_reputation_confidence" (requireProbability "min_reputation_confidence"),
    present "min_observed_success" (requireProbability "min_observed_success"),
    present "search_depth" (checkChoice py "search_depth" searchDepths)]

/-- `validate_explicit_constraints`. -/
def validateExplicitConstraints (body : Json) : Except PyError Unit :=
  (explicitChecks py).forM fun check => check body.dictOrEmpty

end Gate

variable {py : Interp} {src : Dict}

theorem validate_eq_ok :
    validateExplicitConstraints py (.obj src) = .ok () ↔
      ∀ check ∈ explicitChecks py, check src = .ok () :=
  forM_eq_ok

theorem present_eq_ok {key : String} {check : Json → Except PyError Unit} :
    present key check src = .ok () ↔ ∀ v, src.get? key = some v → check v = .ok () := by
  unfold present
  cases src.get? key <;> simp

theorem requireInt_eq_ok {name : String} {v : Json} {n : ℤ} :
    requireInt name v = .ok n ↔ v = .int n ∧ 0 ≤ n ∧ n < 2 ^ 63 := by
  cases v with
  | int m =>
      rw [requireInt, reject, reject, Json.int.injEq]
      split
      case isTrue hbig => exact ⟨fun h => absurd h (by simp), by omega⟩
      case isFalse hbig =>
        split
        case isTrue hneg => exact ⟨fun h => absurd h (by simp), by omega⟩
        case isFalse hneg =>
          rw [Except.ok.injEq]
          omega
  | _ => simp [requireInt, reject]

theorem asFloat_of_finite {name : String} {v : Json} {n : PyFloat}
    (h : requireFiniteNumber name v = .ok n) : py.asFloat v = .ok (some n) := by
  cases v with
  | int m => exact map_eq_ok.mpr ⟨n, h, rfl⟩
  | float x =>
      rw [requireFiniteNumber] at h
      split at h
      · cases h
        rfl
      · cases h
  | _ => cases h

variable (py) in
/-- A price that is accepted is its own bound. -/
theorem costBound_of_nonneg {name : String} {v : Json} (h : requireNonnegNumber name v = .ok ()) :
    ∃ n, py.asFloat v = .ok (some n) ∧ costBound py v = .ok (some n) := by
  obtain ⟨n, hn, hcheck⟩ := bind_eq_ok.mp h
  have hfloat : py.asFloat v = .ok (some n) := asFloat_of_finite hn
  refine ⟨n, hfloat, map_eq_ok.mpr ⟨some n, hfloat, ?_⟩⟩
  cases hlt : n.lt PyFloat.zero with
  | false => simp [hlt]
  | true =>
      rw [hlt] at hcheck
      cases hcheck

variable (py) in
/-- A rate that is accepted is its own bound, as a rate and as a cost. -/
theorem rateBound_of_probability {name : String} {v : Json}
    (h : requireProbability name v = .ok ()) :
    ∃ n, py.asFloat v = .ok (some n) ∧ rateBound py v = .ok (some n) ∧
      costBound py v = .ok (some n) := by
  obtain ⟨n, hn, hcheck⟩ := bind_eq_ok.mp h
  have hfloat : py.asFloat v = .ok (some n) := asFloat_of_finite hn
  have hin : (n.lt PyFloat.zero || oneFloat.lt n) = false := by
    cases hout : n.lt PyFloat.zero || oneFloat.lt n with
    | false => rfl
    | true =>
        rw [hout] at hcheck
        cases hcheck
  obtain ⟨hlow, hhigh⟩ := Bool.or_eq_false_iff.mp hin
  refine ⟨n, hfloat, map_eq_ok.mpr ⟨some n, hfloat, ?_⟩, map_eq_ok.mpr ⟨some n, hfloat, ?_⟩⟩
  · simp [hlow, hhigh]
  · simp [hlow]

end Select

end Signal402
