import Signal402.Lib.Regex
import Signal402.Route.Constraints

/-!
# Constraints from free text (`policy.py`)

A short text is searched for bounds with patterns that ignore case.  The bounds found are
overlaid with the structured keys of the body, and the result is parsed as constraints.
-/

namespace Signal402

namespace PyFloat

open Float.Model (UnpackedFloat Format)

/-- `x * y`. -/
def mul (x y : PyFloat) : PyFloat := pack (UnpackedFloat.mul Format.binary64 x.unpack y.unpack)

/-- `x / y`, for a `y` other than zero. -/
def div (x y : PyFloat) : PyFloat := pack (UnpackedFloat.div Format.binary64 x.unpack y.unpack)

/-- `int(round(x))`, for an `x` that is not negative. -/
def rounded (x : PyFloat) : Except PyError ℤ :=
  if x.isFinite then .ok (x.scaled 0) else x.toInt

end PyFloat

namespace Policy

open Regex Select

/-! ## The patterns -/

/-- A symbol in either case, as `re.I` takes it: `i`, `s` and `k` have a third form, and
`i` a fourth. -/
def letter (c : Char) (x : CodePoint) : Bool :=
  PyStr.lowerCodePoint x == CodePoint.ofChar c ||
    (c == 'i' && (x.val == 0x130 || x.val == 0x131)) || (c == 's' && x.val == 0x17F) ||
    (c == 'k' && x.val == 0x212A)

/-- A text in any case. -/
def word (s : String) : Pattern CodePoint := .inRow (s.toList.map fun c => .one (letter c))

/-- A text with an optional ending. -/
def ending (s rest : String) : Pattern CodePoint := .seq (word s) (.opt (word rest))

/-- `\s*`. -/
def spaces : Pattern CodePoint := .many PyStr.isSpace 0 none

/-- `\s+`. -/
def gap : Pattern CodePoint := .many PyStr.isSpace 1 none

/-- `.{0,n}`. -/
def upTo (n : ℕ) : Pattern CodePoint := .many (fun x => x != CodePoint.ofChar '\n') 0 (some n)

/-- `under|below|less\s+than|at\s+most|max(?:imum)?|<=|<`. -/
def atMost : List (Pattern CodePoint) :=
  [word "under", word "below", .inRow [word "less", gap, word "than"],
    .inRow [word "at", gap, word "most"], ending "max" "imum", word "<=", word "<"]

/-- The same or `within`, if at all. -/
def atMostOrWithin : Pattern CodePoint := .opt (.oneOf (atMost ++ [word "within"]))

/-- `s(?:ec(?:ond)?s?)?`. -/
def seconds : Pattern CodePoint :=
  .seq (word "s") (.opt (.inRow [word "ec", .opt (word "ond"), .opt (word "s")]))

/-- `m(?:illi)?s(?:ec(?:ond)?s?)?`. -/
def milliseconds : Pattern CodePoint := .inRow [word "m", .opt (word "illi"), seconds]

/-- `total\s+cost`. -/
def totalCostWords : Pattern CodePoint := .inRow [word "total", gap, word "cost"]

/-- `base|solana|algorand`. -/
def railWords : Pattern CodePoint := .oneOf [word "base", word "solana", word "algorand"]

section Patterns

variable (py : Interp)

/-- `\d`: the code points that `int` reads as a digit. -/
def isDigitPoint (x : CodePoint) : Bool :=
  if x.val < 128 then PyStr.isDigitChar x else (py.intOf [x]).isSome

/-- `\w`. -/
def isWordPoint (x : CodePoint) : Bool := py.uni.isalnum [x] || x == CodePoint.ofChar '_'

/-- `\b`. -/
def edge : Pattern CodePoint := .boundary (isWordPoint py)

/-- `\d+`. -/
def digits : Pattern CodePoint := .many (isDigitPoint py) 1 none

/-- `\d+(?:\.\d+)?`. -/
def decimal : Pattern CodePoint := .seq (digits py) (.opt (.seq (word ".") (digits py)))

/-- `_PRICE`. -/
def pricePattern : Pattern CodePoint :=
  .inRow [.oneOf atMost, spaces, .opt (word "$"), spaces, .group 1 (decimal py), spaces,
    .opt (.group 2 (.oneOf [word "usd", ending "dollar" "s", ending "cent" "s"]))]

/-- `_PRICE_BARE`. -/
def priceBarePattern : Pattern CodePoint := .inRow [word "$", spaces, .group 1 (decimal py)]

/-- `_CENTS`. -/
def centsPattern : Pattern CodePoint :=
  .inRow [.oneOf atMost, spaces, .group 1 (digits py), spaces, ending "cent" "s"]

/-- `_MS`. -/
def msPattern : Pattern CodePoint :=
  .inRow [atMostOrWithin, spaces, .group 1 (digits py), spaces, milliseconds]

/-- `_OBS`. -/
def obsPattern : Pattern CodePoint :=
  .inRow [.oneOf [.inRow [word "at", gap, word "least"], ending "min" "imum", word ">=", word ">"],
    spaces, .group 1 (digits py), spaces,
    .oneOf [ending "observation" "s", ending "probe" "s", ending "sample" "s"]]

/-- `_NETWORK`. -/
def networkPattern : Pattern CodePoint :=
  .inRow [edge py,
    .oneOf [word "on", word "via", word "using", word "only", word "just",
      .inRow [ending "network" "s",
        .opt (.seq spaces (.one fun x => letter ':' x || letter '=' x))]],
    gap, .group 1 railWords, edge py]

/-- `_NETWORK_ONLY`. -/
def networkOnlyPattern : Pattern CodePoint :=
  .inRow [edge py, .group 1 railWords, gap, word "only", edge py]

/-- `_INVOCABLE`. -/
def invocablePattern : Pattern CodePoint :=
  .oneOf
    [.inRow [edge py,
      .oneOf [.seq (word "require") (.opt (.one fun x => letter 's' x || letter 'd' x)),
        .inRow [word "must", gap, word "be"], ending "need" "s"],
      gap, word "invocable", edge py],
    .inRow [edge py, word "invocable", gap, word "only", edge py]]

/-- `_UNRESOLVED_HINTS`. -/
def unresolvedHints : List (Pattern CodePoint × PyStr) :=
  [(.inRow [edge py, word "reputat"], "min_reputation_score"),
    (.inRow [edge py, word "trust", spaces, word "score", edge py], "min_reputation_score"),
    (.inRow [edge py, word "settlement", edge py], "max_settlement_latency_ms"),
    (.inRow [edge py, word "success", .opt (.seq gap (word "rate")), edge py],
      "min_observed_success"),
    (.inRow [edge py, .oneOf [word "reliable", word "reliability"], edge py],
      "min_observed_success"),
    (.inRow [edge py, totalCostWords, edge py], "max_total_cost_usd")]

/-- `_ESTABLISHED`. -/
def establishedPattern : Pattern CodePoint :=
  .inRow [edge py,
    .oneOf [.inRow [word "established", gap, word "usage"],
      .inRow [word "strong", gap, word "observed", gap, word "evidence"],
      .inRow [word "well", .opt (.one fun x => letter '-' x || PyStr.isSpace x),
        word "established"]],
    edge py]

/-- `_TOTAL_COST`. -/
def totalCostPattern : Pattern CodePoint :=
  .inRow [totalCostWords, upTo 24, .oneOf atMost, spaces, .opt (word "$"), spaces,
    .group 1 (decimal py)]

/-- `_TOTAL_COST_BARE`. -/
def totalCostBarePattern : Pattern CodePoint :=
  .inRow [.oneOf atMost, spaces, .opt (word "$"), spaces, .group 1 (decimal py), upTo 16,
    totalCostWords]

/-- `_SETTLEMENT_MS`. -/
def settlementMsPattern : Pattern CodePoint :=
  .inRow [word "settlement", upTo 24, atMostOrWithin, spaces, .group 1 (digits py), spaces,
    milliseconds]

/-- `_SETTLEMENT_S`. -/
def settlementSPattern : Pattern CodePoint :=
  .inRow [word "settlement", upTo 24, atMostOrWithin, spaces, .group 1 (decimal py), spaces,
    seconds, edge py]

/-- The patterns of `_VAGUE` for a price. -/
def vaguePrice : List (Pattern CodePoint) := [.inRow [edge py, ending "cheap" "est", edge py]]

/-- The patterns of `_VAGUE` for a latency. -/
def vagueLatency : List (Pattern CodePoint) :=
  [.inRow [edge py, ending "fast" "est", edge py], .inRow [edge py, word "low", gap, word "latenc"]]

/-! ## The bounds in a text -/

/-- `m.group(n)`, of a group that takes part. -/
def groupText (m : Match CodePoint) (n : ℕ) : PyStr := (m.group? n).getD []

/-- `_f`. -/
def numberOf (s : PyStr) : Option PyFloat := (py.floatOf s).filter fun n => !n.lt PyFloat.zero

/-- `100.0`. -/
def hundred : PyFloat := PyFloat.ofRatio 100 1

/-- `1000`. -/
def thousand : PyFloat := PyFloat.ofRatio 1000 1

/-- `round(n / 100.0, 6)`. -/
def centsToUsd (n : PyFloat) : PyFloat :=
  let q := n.div hundred
  if q.isFinite then q.round 6 else q

/-- The price of `_CENTS`. -/
def centsPrice (raw : PyStr) : Option PyFloat :=
  ((centsPattern py).search raw).bind fun m => (numberOf py (groupText m 1)).map centsToUsd

/-- The price of `_PRICE`. -/
def statedPrice (raw : PyStr) : Option PyFloat :=
  ((pricePattern py).search raw).bind fun m =>
    (numberOf py (groupText m 1)).map fun n =>
      if (py.uni.lower (groupText m 2)).startsWith "cent" then n.div hundred else n

/-- The price of `_PRICE_BARE`. -/
def barePrice (raw : PyStr) : Option PyFloat :=
  ((priceBarePattern py).search raw).bind fun m => numberOf py (groupText m 1)

/-- The price of a text. -/
def price (raw : PyStr) : Option PyFloat :=
  (centsPrice py raw).or ((statedPrice py raw).or (barePrice py raw))

/-- The text around a match, in lower case. -/
def around (raw : PyStr) (m : Match CodePoint) : PyStr :=
  py.uni.lower ((raw.take (m.stop + 24)).drop (m.start - 24))

/-- A bound in milliseconds: of the service when the text around it says so, and of the
probe otherwise. -/
def readLatency (raw : PyStr) (found : Dict) (m : Match CodePoint) : Except PyError Dict :=
  (nonnegInt py (.str (groupText m 1))).map fun n =>
    match n with
    | none => found
    | some n =>
        let span := around py raw m
        if span.hasInfix "service" || span.hasInfix "historical" || span.hasInfix "p50" then
          found.set "max_service_latency_ms" (.int n)
        else (found.set "max_probe_latency_ms" (.int n)).set "max_latency_ms" (.int n)

/-- A count that a match states. -/
def readCount (key : PyStr) (found : Dict) (m : Match CodePoint) : Except PyError Dict :=
  (nonnegInt py (.str (groupText m 1))).map fun n =>
    n.elim found fun n => found.set key (.int n)

/-- The networks that a text names, in order. -/
def namedRails (raw : PyStr) : List PyStr :=
  ((((networkPattern py).findAll raw ++ (networkOnlyPattern py).findAll raw).map fun m =>
    py.uni.lower (groupText m 1)).filter fun name => (Rail.ofName name).isSome).eraseDups

/-- The settlement bound of `_SETTLEMENT_S`. -/
def readSeconds (found : Dict) (m : Match CodePoint) : Except PyError Dict :=
  match numberOf py (groupText m 1) with
  | none => .ok found
  | some n =>
      (n.mul thousand).rounded.map fun k => found.set "max_settlement_latency_ms" (.int k)

/-- The settlement bound of a text. -/
def settlement (raw : PyStr) (found : Dict) : Except PyError Dict :=
  match (settlementMsPattern py).search raw with
  | some m => readCount py "max_settlement_latency_ms" found m
  | none =>
      match (settlementSPattern py).search raw with
      | some m => readSeconds py found m
      | none => .ok found

/-- The total cost of a text. -/
def totalCost (raw : PyStr) : Option PyFloat :=
  (((totalCostPattern py).search raw).or ((totalCostBarePattern py).search raw)).bind fun m =>
    numberOf py (groupText m 1)

/-- The count of observations of `_OBS`. -/
def observations (raw : PyStr) (found : Dict) : Except PyError Dict :=
  match (obsPattern py).search raw with
  | some m => readCount py "min_observations" found m
  | none => .ok found

/-- The bounds that no number states: the networks, `invocable`, and the floor of
`_ESTABLISHED`. -/
def flagged (raw : PyStr) (found : Dict) : Dict :=
  let rails := namedRails py raw
  let found := if rails.isEmpty then found else found.set "networks" (.arr (rails.map .str))
  let found :=
    if ((invocablePattern py).search raw).isSome then found.set "require_invocable" (.bool true)
    else found
  if ((establishedPattern py).search raw).isSome then found.set "min_observations" (.int 10)
  else found

/-- `interpreted_constraints` of a text that is not blank. -/
def interpreted (raw : PyStr) : Except PyError Dict := do
  let found : Dict := (price py raw).elim [] fun n => [("max_price_usd", .float n)]
  let found ← ((msPattern py).findAll raw).foldlM (readLatency py raw) found
  let found ← observations py raw found
  let found ← settlement py raw (flagged py raw found)
  return (totalCost py raw).elim found fun n => found.set "max_total_cost_usd" (.float n)

/-- A phrase that is not compiled. -/
structure Unresolved where
  name : PyStr
  fragment : PyStr
  reason : PyStr

/-- The first phrase of each name. -/
def firstOfEach : List Unresolved → List Unresolved :=
  List.foldl (fun seen u => if seen.any (·.name == u.name) then seen else seen ++ [u]) []

/-- `unresolved_constraints` of a text. -/
def unresolved (raw : PyStr) (found : Dict) : List Unresolved :=
  let hints := ((unresolvedHints py).filter fun h => (found.get? h.2).isNone).filterMap fun h =>
    (h.1.search raw).map fun m =>
      ⟨h.2, m.text,
        if h.2 = "min_reputation_score" then
          "vague adjective; never guessed as a score threshold"
        else "no numeric bound; not guessed"⟩
  let prices :=
    if (found.get? "max_price_usd").isSome then []
    else (vaguePrice py).filterMap fun r =>
      (r.search raw).map fun m => ⟨"max_price_usd", m.text, "no numeric price bound"⟩
  let latencies :=
    if (found.get? "max_probe_latency_ms").isSome || (found.get? "max_service_latency_ms").isSome
    then []
    else (vagueLatency py).filterMap fun r =>
      (r.search raw).map fun m => ⟨"max_probe_latency_ms", m.text, "no numeric latency bound"⟩
  firstOfEach (hints ++ prices ++ latencies)

/-- What `compile_policy` returns. -/
structure Compiled where
  interpreted : Dict
  unresolved : List Unresolved

/-- `" ".join(s.split())`. -/
def squeeze (s : PyStr) : PyStr :=
  List.intercalate [CodePoint.ofChar ' '] ((s.splitOnP PyStr.isSpace).filter fun w => !w.isEmpty)

/-- `compile_policy` on a text. -/
def compileText (s : PyStr) : Except PyError Compiled :=
  if (squeeze s).isEmpty then .ok ⟨[], []⟩
  else
    (interpreted py (squeeze s)).map fun found => ⟨found, unresolved py (squeeze s) found⟩

/-- `compile_policy`. -/
def compilePolicy (levels : ℕ) (text : Json) : Except PyError Compiled :=
  if text.truthy then (strOf py levels text).bind (compileText py) else compileText py []

end Patterns

/-! ## The constraints of a body -/

/-- The structured keys that are laid over the text's. -/
def structuredKeys : List PyStr :=
  ["max_amount_atomic", "max_price_usd", "max_latency_ms", "max_probe_latency_ms",
    "max_service_latency_ms", "require_invocable", "networks", "rails", "min_observations",
    "min_observed_success", "min_reputation_score", "min_reputation_confidence",
    "max_settlement_latency_ms", "max_total_cost_usd", "accept_payTo_change",
    "require_transparency"]

/-- The structured keys of a body over the bounds of its text. -/
def overlay (src found : Dict) : Dict :=
  structuredKeys.foldl (fun d key => (src.get? key).elim d (d.set key)) found

/-- A structured key reads as the body has it, and as the text has it when the body has
none. -/
theorem get?_overlay (src found : Dict) {key : PyStr} (hkey : key ∈ structuredKeys) :
    (overlay src found).get? key = (src.get? key).or (found.get? key) := by
  have hlay : ∀ (keys : List PyStr) (d : Dict),
      (keys.foldl (fun d key => (src.get? key).elim d (d.set key)) d).get? key =
        if key ∈ keys then (src.get? key).or (d.get? key) else d.get? key := by
    intro keys
    induction keys with
    | nil =>
        intro d
        rfl
    | cons k rest ih =>
        intro d
        rw [List.foldl_cons, ih]
        by_cases hk : key = k
        · subst hk
          rw [if_pos List.mem_cons_self]
          cases hsrc : src.get? key with
          | none => simp
          | some v => simp [Dict.get?_set]
        · have hset : ((src.get? k).elim d (d.set k)).get? key = d.get? key := by
            cases src.get? k with
            | none => rfl
            | some v => exact (Dict.get?_set d k key v).trans (if_neg (Ne.symm hk))
          rw [hset]
          simp [hk]
  exact (hlay structuredKeys found).trans (if_pos hkey)

section Merge

variable (py : Interp) (levels : ℕ)

/-- The policy is a text that is not blank. -/
def policyText (src : Dict) : Option PyStr :=
  match src.get "policy" with
  | .str s => if s.strip.isEmpty then none else some s
  | _ => none

/-- `merge_constraints`, for a text that is compiled. -/
def mergeCompiled (src : Dict) (compiled : Compiled) : Except PyError Constraints :=
  parseConstraints py levels (overlay src compiled.interpreted)

/-- The text that `merge_constraints` compiles. -/
def constraintText (src : Dict) : Json := (policyText src).elim (src.get "need") .str

/-- `merge_constraints`. -/
def mergeConstraints (body : Json) : Except PyError Constraints :=
  (compilePolicy py levels (constraintText body.dictOrEmpty)).bind
    (mergeCompiled py levels body.dictOrEmpty)

/-- `sorted(rails)`. -/
def sortedRails (rails : List Rail) : List Json :=
  ([Rail.algorand, .base, .solana].filter (rails.contains ·)).map fun r => .str r.name

/-- The bounds `public_applied_constraints` copies. -/
def appliedBounds (cons : Constraints) : List (PyStr × Json) :=
  [("max_amount_atomic", .ofInt? cons.maxAmountAtomic),
    ("max_price_usd", .ofFloat? cons.maxPriceUsd),
    ("max_latency_ms", .ofInt? cons.maxLatencyMs),
    ("max_probe_latency_ms", .ofInt? cons.maxProbeLatencyMs),
    ("max_service_latency_ms", .ofInt? cons.maxServiceLatencyMs),
    ("min_observations", .ofInt? cons.minObservations),
    ("min_observed_success", .ofFloat? cons.minObservedSuccess),
    ("min_reputation_score", .ofFloat? cons.minReputationScore),
    ("min_reputation_confidence", .ofFloat? cons.minReputationConfidence),
    ("max_total_cost_usd", .ofFloat? cons.maxTotalCostUsd),
    ("max_settlement_latency_ms", .ofInt? cons.maxSettlementLatencyMs)]

/-- `public_applied_constraints`. -/
def publicAppliedConstraints (cons : Constraints) (src : Dict) : Dict :=
  let rails : Dict := cons.rails.elim [] fun rs => [("networks", .arr (sortedRails rs))]
  let bounds : Dict := (appliedBounds cons).filter fun b => !b.2.isNull
  let invocable : Dict :=
    if cons.requireInvocable then [("require_invocable", .bool true)]
    else if (src.get? "require_invocable").isSome then [("require_invocable", .bool false)]
    else []
  let payTo : Dict := if cons.acceptPayToChange then [("accept_payTo_change", .bool true)] else []
  let transparency : Dict :=
    if cons.requireTransparency then [("require_transparency", .bool true)] else []
  let prefer : Dict :=
    match src.get "prefer_network" with
    | .str s =>
        if s.strip.isEmpty then [] else [("prefer_network", .str (py.uni.lower s.strip))]
    | _ => []
  rails ++ bounds ++ invocable ++ payTo ++ transparency ++ prefer

/-- A phrase as it is shown. -/
def Unresolved.toDict (u : Unresolved) : Dict :=
  [("name", .str u.name), ("fragment", .str u.fragment), ("reason", .str u.reason)]

/-- The text that `attach_policy` compiles. -/
def attachText (src : Dict) : PyStr :=
  match policyText src, src.get "need" with
  | some s, _ => s
  | none, .str s => s
  | none, _ => []

/-- `attach_policy`. -/
def attachPolicy (result : Dict) (body : Json) : Except PyError Dict := do
  let src := body.dictOrEmpty
  let compiled ← compilePolicy py levels (.str (attachText src))
  let cons ← mergeCompiled py levels src compiled
  let applied := publicAppliedConstraints py cons src
  return ((result.set "interpreted_constraints" (.obj applied)).set "applied_constraints"
    (.obj applied)).set "unresolved_constraints"
      (.arr (compiled.unresolved.map fun u => .obj u.toDict))

end Merge

end Policy

end Signal402
