import Signal402.Lib.Dialogue
import Signal402.Route.Constraints
import Signal402.Route.Winner
import Signal402.Route.Figures

/-!
# Probing the candidates of a need (`probe.py`)

`route_need`, from the ranked candidates on.  Candidates are probed in tranches; the
probes of a tranche run at once, and end in any order or not before the deadline.  The
clock, the pool and the probes are the environment of a dialogue.

* `probePlan`, `ceilingOf` — how many candidates may be probed.
* `collect`, `probeTranche` — one tranche.
* `round`, `rounds` — the loop over the tranches.
* `selectionSet`, `byRank`, `stopReason`, `conclude` — what is made of the results.
-/

namespace Signal402.RouteNeed

open Select Payment

/-! ## The plan -/

/-- `PROBE_CEILING`. -/
def probeCeiling : ℕ := 20

/-- `FIRST_TRANCHE`. -/
def firstTranche : ℕ := 3

/-- `EXPAND_TRANCHE`. -/
def expandTranche : ℕ := 3

/-- `STANDARD_PROBE_CAP`. -/
def standardProbeCap : ℕ := 7

/-- `THOROUGH_PROBE_CAP`. -/
def thoroughProbeCap : ℕ := 15

/-- `MAX_IN_FLIGHT`. -/
def maxInFlight : ℕ := 3

/-- `parse_search_depth`: whether the depth is `thorough`. -/
def isThorough (py : Interp) (raw : Json) : Bool :=
  !raw.isNull && py.uni.lower (py.str raw).strip == ("thorough" : PyStr)

/-- The ceiling of `probe_plan`, of arguments that are given. -/
def probePlan (py : Interp) (searchDepth maxCandidates : Json) : Except PyError ℕ :=
  (nonnegInt py maxCandidates).map fun requested =>
    let requested := requested.filter fun n => 1 ≤ n
    match requested with
    | some n => max 1 (min n.toNat probeCeiling)
    | none =>
        max 1 (min (if isThorough py searchDepth then thoroughProbeCap else standardProbeCap)
          probeCeiling)

/-- The ceiling of `route_need`. -/
def ceilingOf (py : Interp) (searchDepth maxCandidates : Json) (ceiling : Option ℤ) :
    Except PyError ℕ :=
  (probePlan py searchDepth maxCandidates).map fun plan =>
    match ceiling with
    | some n => (min (max n 1) probeCeiling).toNat
    | none => plan

def nextTrancheSize (probed remaining ceiling : ℕ) (first : Bool) : ℕ :=
  let left := min remaining (ceiling - probed)
  if left = 0 then 0 else if first then min firstTranche left else min expandTranche left

/-! ## Candidates and their results -/

/-- `a or b`. -/
def orValue (a b : Json) : Json := if a.truthy then a else b

/-- `_resource_url`. -/
def resourceUrl (py : Interp) (item : Dict) : PyStr :=
  let raw := orValue (item.get "resource") (orValue (item.get "resourceUrl")
    (orValue (item.get "url") (.str [])))
  let raw :=
    match raw with
    | .obj fields => orValue (Dict.get fields "url") (orValue (Dict.get fields "resourceUrl") (.str []))
    | _ => raw
  (py.str raw).strip

variable (d : Deps)

/-- What became of a candidate: the result of its probe, or the stub of one that failed or
got no slot. -/
structure Outcome where
  item : Dict
  row : Dict
  url_eq : row.get "url" = .str (resourceUrl d.py item)
  readable : Readable d row

/-- `_probe_miss_stub`; `rail` is `_item_rail` of the candidate. -/
def missStub (item : Dict) (rail need reason probedAt : PyStr) : Dict :=
  [("live", .bool false), ("invocable", .bool false), ("url", .str (resourceUrl d.py item)),
    ("status", .null), ("latency_ms", .int 0), ("has_402_challenge", .bool false),
    ("payTo", .null), ("miss_reason", .str reason), ("probes", .arr []),
    ("probed_at", .str probedAt), ("need", .str need), ("rail", .str rail),
    ("source", .str "discovery")]

theorem missStub_readable (item : Dict) (rail need reason probedAt : PyStr) :
    Readable d (missStub d item rail need reason probedAt) := by
  obtain ⟨eco, heco⟩ : ∃ eco, forResult d.py d.keccak
      (missStub d item rail need reason probedAt) .null = .ok eco := by
    show ∃ eco, forOption d.py d.keccak ⟨.str rail, .null, .null⟩ _ = .ok eco
    unfold forOption railOf
    show ∃ eco, (((Except.ok (Rail.ofName rail)).bind _ : Except PyError (Option Rail)).bind _ :
      Except PyError Economics) = .ok eco
    cases Rail.ofName rail with
    | none => exact ⟨_, rfl⟩
    | some r => exact ⟨_, rfl⟩
  refine ⟨⟨_, rfl⟩, ⟨(0, none), rfl, ?_⟩, ⟨eco.settlementOrFinalityMs, ?_⟩, eco.totalCostUsd, ?_⟩
  · rintro x ⟨⟩
  · rw [settlementMs, settlementOrFinalityMs, heco]
    rfl
  · rw [totalCost, totalCostUsd, heco]
    rfl

/-- A candidate whose probe failed. -/
def Outcome.stub (item : Dict) (rail need reason probedAt : PyStr) : Outcome d where
  item := item
  row := missStub d item rail need reason probedAt
  url_eq := rfl
  readable := missStub_readable d item rail need reason probedAt

/-- The results, as lists of dictionaries. -/
def rowsOf (outcomes : List (Outcome d)) : List Json := outcomes.map fun o => .obj o.row

/-- What `wait` returns: some of the pending probes are done, in any order. -/
structure Done (pending : List Dict) where
  finished : List (Outcome d)
  rest : List Dict
  perm : (finished.map Outcome.item ++ rest).Perm pending
  finished_ne : pending ≠ [] → finished ≠ []

/-! ## The environment -/

variable (T : Type) [LinearOrder T]

/-- What is asked of the environment: the clock, which does not go back; one probe; a
tranche of probes; and some probes that are done.  A `wait` that times out with nothing
done changes nothing, and is left out. -/
inductive Ask
  | clock (last : T)
  | alone (item : Dict)
  | submit (items : List Dict)
  | wait (pending : List Dict)

variable {T} in
def Answer : Ask T → Type
  | .clock last => {now : T // last ≤ now}
  | .alone item => {o : Outcome d // o.item = item}
  | .submit _ => Unit
  | .wait pending => Done d pending

abbrev Talk (α : Type) := Dialogue (Ask T) (Answer d) α

variable {T}

/-! ## Tranches -/

section Loop

variable (deadline : T)

def readClock (last : T) : Talk d T {now : T // last ≤ now} := Dialogue.query (Ask.clock last)

def probeAlone (item : Dict) : Talk d T {o : Outcome d // o.item = item} :=
  Dialogue.query (Ask.alone item)

def submitAll (items : List Dict) : Talk d T Unit := Dialogue.query (Ask.submit items)

def waitFor (pending : List Dict) : Talk d T (Done d pending) := Dialogue.query (Ask.wait pending)

/-- `_budget_hit`, with the reading of the clock. -/
def budgetHit (now : T) : Talk d T (T × Bool) := do
  let t ← readClock d now
  pure (t.1, decide (deadline ≤ t.1))

/-- The probes that are done before the deadline, of so many pending ones. -/
def collect : ℕ → T → List Dict → List (Outcome d) → Talk d T (T × List (Outcome d))
  | 0, now, _, collected => pure (now, collected)
  | n + 1, now, pending, collected =>
      if pending = [] then pure (now, collected)
      else do
        let (now, hit) ← budgetHit d deadline now
        if hit then pure (now, collected)
        else do
          let done ← waitFor d pending
          collect n now done.rest (collected ++ done.finished)

/-- `_probe_tranche`. -/
def probeTranche (now : T) (items : List Dict) : Talk d T (T × List (Outcome d)) :=
  if items = [] then pure (now, [])
  else do
    let (now, hit) ← budgetHit d deadline now
    if hit then pure (now, [])
    else
      match items with
      | [item] => do
          let o ← probeAlone d item
          pure (now, [o.1])
      | _ => do
          submitAll d items
          collect d deadline items.length now items []

/-! ## The loop -/

/-- The variables of the loop; `rest` is `ranked[next_idx:]`. -/
structure Progress (T : Type) where
  now : T
  probed : List (Outcome d)
  rest : List Dict
  first : Bool
  exhausted : Bool

/-- The variables before the first turn. -/
def Progress.start (ranked : List Dict) (now : T) : Progress d T where
  now := now
  probed := []
  rest := ranked
  first := true
  exhausted := false

/-- `_probed_urls`. -/
def probedUrls (probed : List (Outcome d)) : List PyStr :=
  probed.filterMap fun o =>
    match o.row.get "url" with
    | .str url => if url = [] then none else some url
    | _ => none

/-- `_candidate_evaluation_complete`. -/
def evaluationComplete (ranked : List Dict) (probed : List (Outcome d)) : Bool :=
  ranked.all fun item =>
    let url := resourceUrl d.py item
    url.isEmpty || (probedUrls d probed).contains url

variable (objective : Objective) (cons : Constraints) (ceiling : ℕ) (ranked : List Dict)

/-- The end of a round, after its tranche: whether there is another. -/
def afterTranche (p : Progress d T) : Talk d T (Except PyError (Bool × Progress d T)) :=
  match enoughEvidence d (rowsOf d p.probed) objective cons with
  | .error e => pure (.error e)
  | .ok true => pure (.ok (false, p))
  | .ok false => do
      let (now, hit) ← budgetHit d deadline p.now
      if hit && !evaluationComplete d ranked p.probed then
        pure (.ok (false, { p with now, exhausted := true }))
      else pure (.ok (true, { p with now }))

/-- A tranche of a round, and what follows it. -/
def tranche (p : Progress d T) (take : ℕ) : Talk d T (Except PyError (Bool × Progress d T)) := do
  let (now, batch) ← probeTranche d deadline p.now (p.rest.take take)
  let p := { p with now, first := false }
  if batch = [] then do
    let (now, hit) ← budgetHit d deadline p.now
    if hit then pure (.ok (false, { p with now, exhausted := true }))
    else afterTranche d deadline objective cons ranked { p with now, rest := p.rest.drop take }
  else
    afterTranche d deadline objective cons ranked
      { p with probed := p.probed ++ batch, rest := p.rest.drop take }

/-- One turn of the `while` of `route_need`. -/
def round (p : Progress d T) : Talk d T (Except PyError (Bool × Progress d T)) :=
  if p.rest = [] ∨ ceiling ≤ p.probed.length then pure (.ok (false, p))
  else do
    let (now, hit) ← budgetHit d deadline p.now
    let p := { p with now }
    if hit then pure (.ok (false, { p with exhausted := true }))
    else
      match enoughEvidence d (rowsOf d p.probed) objective cons with
      | .error e => pure (.error e)
      | .ok true => pure (.ok (false, p))
      | .ok false =>
          let take := nextTrancheSize p.probed.length p.rest.length ceiling p.first
          if take = 0 then pure (.ok (false, { p with first := false }))
          else tranche d deadline objective cons ranked p take

/-- The loop.  It takes no more turns than there are candidates. -/
def rounds : ℕ → Progress d T → Talk d T (Except PyError (Progress d T))
  | 0, p => pure (.ok p)
  | n + 1, p => do
      match ← round d deadline objective cons ceiling ranked p with
      | .error e => pure (.error e)
      | .ok (false, p) => pure (.ok p)
      | .ok (true, p) => rounds n p

end Loop

/-! ## The answer -/

/-- `STOP_REASONS`. -/
inductive StopReason
  | winnerSelected
  | candidateSetExhausted
  | probeLimitReached
  | probeBudgetExhausted
  | constraintsUnmet
  deriving DecidableEq, Repr

/-- The `miss_reason` of an answer without a winner; `last` is the one of the last result,
as `public_miss_reason` maps it. -/
inductive MissReason
  | noCandidates
  | probeBudgetExhausted
  | probeLimitReached
  | constraintsUnmet
  | last (raw : Json)
  | none

/-- The answer of `route_need`: the winner, and the funnel. -/
structure Routed where
  winner : Option Dict
  probed : List (Outcome d)
  ceiling : ℕ
  probeBudgetExhausted : Bool
  evaluationComplete : Bool
  stopReason : StopReason
  missReason : MissReason

section Answers

variable (sorter : CmpSort.Sorter Dict PyError) (objective : Objective) (cons : Constraints)
  (ceiling : ℕ) (ranked : List Dict)

/-- A flag of a result, by its truth. -/
def flag (key : PyStr) (r : Dict) : Bool := (r.get key).truthy

/-- The live results without a first change of the payee, unless that is accepted. -/
def selectable (probed : List (Outcome d)) : List (Outcome d) :=
  let hits := probed.filter fun o => flag "live" o.row
  if cons.acceptPayToChange then hits else hits.filter fun o => !flag "payTo_pending" o.row

/-- `_selection_set`. -/
def selectionSet (probed : List (Outcome d)) : List (Outcome d) :=
  let hits := selectable d cons probed
  let stable := hits.filter fun o => !flag "payTo_changed" o.row
  if stable.isEmpty then hits else stable

/-- `rank_of.get(url, 10**9)`; of candidates with one URL the last counts. -/
def rankOf (url : PyStr) : ℕ :=
  match (ranked.zipIdx.filter fun x => resourceUrl d.py x.1 == url).getLast? with
  | some x => x.2
  | none => 10 ^ 9

/-- `_by_rank`: in the order of the ranking. -/
def byRank (probed : List (Outcome d)) : List (Outcome d) :=
  probed.insertionSort fun a b =>
    rankOf d ranked (resourceUrl d.py a.item) ≤ rankOf d ranked (resourceUrl d.py b.item)

/-- `winner_now`. -/
def winnerNow (probed : List (Outcome d)) : Except PyError (Option Dict) :=
  pickWinner d sorter (rowsOf d (byRank d ranked (selectionSet d cons probed))) objective cons

/-- The winner, unless an answer 200 must not carry it. -/
def finalWinner (probed : List (Outcome d)) : Except PyError (Option Dict) :=
  (winnerNow d sorter objective cons ranked probed).bind fun winner =>
    match winner with
    | none => .ok none
    | some w => (http200WinnerOk d w objective cons).map fun ok => if ok then some w else none

/-- `_stop_reason`. -/
def stopReason (won complete exhausted someLive : Bool) (probed : ℕ) : StopReason :=
  if won then .winnerSelected
  else if exhausted && !complete then .probeBudgetExhausted
  else if !complete && decide (ceiling ≤ probed) then .probeLimitReached
  else if someLive then .constraintsUnmet
  else if complete then .candidateSetExhausted
  else if exhausted then .probeBudgetExhausted
  else .probeLimitReached

/-- The `miss_reason` of `route_need`. -/
def missReason (complete exhausted someLive : Bool) (probed : List (Outcome d)) : MissReason :=
  let reason := (probed.getLast?.map fun o => o.row.get "miss_reason").getD .null
  if ranked = [] then .noCandidates
  else if exhausted && !complete then .probeBudgetExhausted
  else if !complete && decide (ceiling ≤ probed.length) then .probeLimitReached
  else if someLive then .constraintsUnmet
  else if reason.truthy then .last reason
  else if !complete then
    if exhausted then .probeBudgetExhausted else .probeLimitReached
  else .none

/-- What follows the loop, when the deadline has passed or not. -/
def conclude (p : Progress d T) (hit : Bool) : Except PyError (Routed d) :=
  let complete := evaluationComplete d ranked p.probed
  (if hit && !complete then
      (winnerNow d sorter objective cons ranked p.probed).map fun w => w.isNone
    else .ok false).bind fun late =>
  (finalWinner d sorter objective cons ranked p.probed).map fun winner =>
    let exhausted := p.exhausted || late
    let someLive := p.probed.any fun o => flag "live" o.row
    { winner
      probed := p.probed
      ceiling
      probeBudgetExhausted := exhausted
      evaluationComplete := complete
      stopReason := stopReason ceiling winner.isSome complete exhausted someLive p.probed.length
      missReason := missReason d ceiling ranked complete exhausted someLive p.probed }

/-- `route_need`, of ranked candidates, from a reading of the clock on. -/
def routeNeed (deadline start : T) : Talk d T (Except PyError (Routed d)) := do
  match ← rounds d deadline objective cons ceiling ranked ranked.length
      (.start d ranked start) with
  | .error e => pure (.error e)
  | .ok p => do
      let (_, hit) ← budgetHit d deadline p.now
      pure (conclude d sorter objective cons ceiling ranked p hit)

end Answers

end Signal402.RouteNeed
