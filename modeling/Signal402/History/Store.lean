import Signal402.Base.JsonText
import Signal402.Base.Rails
import Signal402.Lib.Script
import Signal402.Lib.Sha256
import Signal402.Lib.Table
import Mathlib.Data.List.Sort

/-!
# The observation history

The database of probe observations: the probes with the fields observed and
claimed at each of them, the trusted state of each URL, and the sealed batches.
Probes of a paid route are tentative until the payment is settled; only trusted
observations reach the state of a URL.

* `applyTrustedUrlState` — one trusted observation.
* `writeProbeRow` — one probe, with its observations and the caps of the tables.
* `recordProbe`, `persistRouteBatch`, `markBatchSettled`, `recordClaim` — the calls
  that write.
* `attestationFor` — the hash of a batch, which seals it.

An observation comes with what the source reads off it before it writes.
-/

namespace Signal402.ProbeHistory

/-- `PER_URL_CAP`. -/
def perUrlCap : ℕ := 500

/-- `GLOBAL_CAP`. -/
def globalCap : ℕ := 50000

/-- `OBS_PER_URL_CAP`. -/
def obsPerUrlCap : ℕ := 4000

inductive SourceType
  | observed
  | claimed
  deriving DecidableEq, Repr

inductive TrustClass
  | independent
  | scheduled
  | routeTentative
  | routeSettled
  deriving DecidableEq, Repr

/-- `is_trusted_class`. -/
def TrustClass.trusted : TrustClass → Bool
  | routeTentative => false
  | independent | scheduled | routeSettled => true

/-- The fields of an observation. -/
inductive Field
  | live
  | payable
  | invocable
  | latencyMs
  | payTo
  | amount
  | httpStatus
  | schemaPresent
  | facilitator
  | source
  deriving DecidableEq, Repr

/-- The name of a field in the database. -/
def Field.name : Field → PyStr
  | live => "live"
  | payable => "payable"
  | invocable => "invocable"
  | latencyMs => "latency_ms"
  | payTo => "payTo"
  | amount => "amount"
  | httpStatus => "http_status"
  | schemaPresent => "schema_present"
  | facilitator => "facilitator"
  | source => "source"

/-! ## Rows -/

/-- A row of `probes`. -/
structure Probe where
  id : ℕ
  url : PyStr
  ts : ℤ
  live : Bool
  payable : Bool
  invocable : Bool
  latencyMs : Option ℤ
  payTo : Option PyStr
  amount : Option PyStr
  missReason : Option PyStr
  rail : Option PyStr
  schemaPresent : Option Bool
  settledRouteObservation : Bool
  trustClass : TrustClass
  deriving DecidableEq

/-- A row of `observations`. -/
structure Observation where
  id : ℕ
  probeId : Option ℕ
  batchId : Option PyStr
  sourceType : SourceType
  source : Option PyStr
  rail : Option PyStr
  url : PyStr
  field : Field
  value : PyStr
  ts : ℤ
  trustClass : Option TrustClass
  deriving DecidableEq

/-- A row of `url_state`. -/
structure UrlState where
  url : PyStr
  lastPayTo : Option PyStr
  lastAmount : Option PyStr
  schemaPresent : Option Bool
  payToChangedAt : Option ℤ
  priceChangedAt : Option ℤ
  schemaChangedAt : Option ℤ
  lastChecked : Option ℤ
  lastSuccess402 : Option ℤ
  pendingPayTo : Option PyStr
  deriving DecidableEq

/-- A row of `sealed_batches`. -/
structure SealedBatch where
  batchId : PyStr
  sealedAt : ℤ
  deriving DecidableEq

/-- The database.  The counters are those of the `AUTOINCREMENT` keys. -/
structure Db where
  probes : List Probe
  observations : List Observation
  urlStates : List UrlState
  sealedBatches : List SealedBatch
  nextProbe : ℕ
  nextObservation : ℕ
  deriving DecidableEq

/-- An empty database. -/
def Db.empty : Db := ⟨[], [], [], [], 1, 1⟩

/-- The catalog's claims that come with an observation. -/
structure Claimed where
  payTo : Option PyStr
  amount : Option PyStr
  schemaPresent : Option Bool
  facilitator : Option PyStr
  source : Option PyStr
  rail : Option PyStr
  deriving DecidableEq

/-- What is read off an observation: its texts as `str` gives them, its time, and
the values that the envelope and its payment options decide. -/
structure Snap where
  ts : Option ℤ
  live : Bool
  payTo : Option PyStr
  amount : Option PyStr
  schemaPresent : Option Bool
  payable : Bool
  latencyMs : Option ℤ
  missReason : Option PyStr
  rail : Option PyStr
  httpStatus : Option ℤ
  batchId : Option PyStr
  source : Option PyStr
  claimed : Option Claimed
  trustClass : TrustClass
  deriving DecidableEq

/-- The functions of other modules and of the standard library that the history
uses. -/
structure Env where
  uni : Unicode
  priceFlipped : PyStr → PyStr → Snap → Bool
  isoTs : ℤ → Option PyStr

/-- Code on the database. -/
abbrev Code := Script (Session Db)

open Session (execute update select commit)

variable (env : Env)

/-! ## The trusted state of a URL -/

/-- A row as it is read, with its texts read again. -/
def UrlState.read (row : UrlState) : UrlState :=
  { row with
    lastPayTo := text row.lastPayTo
    lastAmount := text row.lastAmount
    pendingPayTo := text row.pendingPayTo }

/-- `_load_url_state`. -/
def loadUrlState (rows : List UrlState) (dest : PyStr) : UrlState :=
  match Table.lookup UrlState.url rows dest with
  | none => ⟨dest, none, none, none, none, none, none, none, none, none⟩
  | some row => row.read

/-- The update of a row by the conflicting one. -/
def UrlState.replace (row old : UrlState) : UrlState := { row with url := old.url }

/-- `INSERT INTO url_state … ON CONFLICT(url) DO UPDATE`. -/
def putUrlState (row : UrlState) (rows : List UrlState) : List UrlState :=
  match Table.lookup UrlState.url rows row.url with
  | none => rows ++ [row]
  | some _ => Table.update UrlState.url row.url row.replace rows

/-- What a write reports of the changes it saw. -/
structure Meta where
  payToFlipped : Bool
  payToPending : Bool
  payToEstablished : Bool
  priceFlipped : Bool
  schemaFlipped : Bool
  claimedPayToMismatch : Bool
  deriving DecidableEq, Repr

def Meta.initial : Meta := ⟨false, false, false, false, false, false⟩

/-- Whether the catalog claims another address. -/
def claimedMismatch (snap : Snap) : Bool :=
  match snap.claimed with
  | none => false
  | some claimed =>
      (text claimed.payTo).isSome && (text snap.payTo).isSome &&
        !paytoEqual env.uni (text claimed.payTo) (text snap.payTo)
          ((text claimed.rail).or (text snap.rail))

/-- The address is known, and another one than the trusted address. -/
def UrlState.otherPayTo (state : UrlState) (snap : Snap) : Bool :=
  (text state.lastPayTo).isSome && (text snap.payTo).isSome &&
    !paytoEqual env.uni (text state.lastPayTo) (text snap.payTo) (text snap.rail)

/-- The address is the one that waits for a second observation. -/
def UrlState.pendingPayToSeen (state : UrlState) (snap : Snap) : Bool :=
  (text state.pendingPayTo).isSome &&
    paytoEqual env.uni (text state.pendingPayTo) (text snap.payTo) (text snap.rail)

/-- `_payto_risk_against_trusted`. -/
def paytoRiskAgainstTrusted (state : UrlState) (snap : Snap) (m : Meta) : Meta :=
  let m :=
    if state.otherPayTo env snap then
      if state.pendingPayToSeen env snap then
        { m with payToFlipped := false, payToPending := true, payToEstablished := false }
      else { m with payToFlipped := true, payToPending := true }
    else m
  if claimedMismatch env snap then { m with claimedPayToMismatch := true } else m

/-- The state that a trusted observation at the time `ts` leaves, and what it reports. -/
def UrlState.observe (dest : PyStr) (snap : Snap) (ts : ℤ) (state : UrlState) (m : Meta) :
    UrlState × Meta :=
  let payTo := text snap.payTo
  let amount := text snap.amount
  let other := state.otherPayTo env snap
  let established := other && state.pendingPayToSeen env snap
  let priceFlipped := match text state.lastAmount, amount with
    | some prev, some now => env.priceFlipped prev now snap
    | _, _ => false
  let schemaFlipped := match state.schemaPresent, snap.schemaPresent with
    | some prev, some now => prev != now
    | _, _ => false
  let m := { m with
    payToFlipped := if other then !established else m.payToFlipped
    payToPending := if other && !established then true else m.payToPending
    payToEstablished := if established then true else m.payToEstablished
    claimedPayToMismatch := m.claimedPayToMismatch || claimedMismatch env snap
    priceFlipped := m.priceFlipped || priceFlipped
    schemaFlipped := m.schemaFlipped || schemaFlipped }
  let prevPay := if established then payTo else text state.lastPayTo
  ({ url := dest
     lastPayTo := if m.payToPending then prevPay else payTo.or prevPay
     lastAmount := amount.or (text state.lastAmount)
     schemaPresent := snap.schemaPresent.or state.schemaPresent
     payToChangedAt := if other && !established then some ts else state.payToChangedAt
     priceChangedAt := if priceFlipped then some ts else state.priceChangedAt
     schemaChangedAt := if schemaFlipped then some ts else state.schemaChangedAt
     lastChecked := some ts
     lastSuccess402 := if snap.live then some ts else state.lastSuccess402
     pendingPayTo :=
      if other then (if established then none else payTo)
      else if payTo.isSome then none else text state.pendingPayTo }, m)

/-- A newer trusted observation is there. -/
def UrlState.newer (state : UrlState) (ts : ℤ) : Bool :=
  match state.lastChecked with
  | some last => decide (ts < last)
  | none => false

/-- `_apply_trusted_url_state`: whether the state was written, and the report. -/
def applyTrustedUrlState (dest : PyStr) (snap : Snap) (now : ℤ) (m : Meta) : Code (Bool × Meta) := do
  let ts ← Script.convert (snap.ts.getD now)
  let state ← select fun db => loadUrlState db.urlStates dest
  if state.newer ts then
    pure (false, paytoRiskAgainstTrusted env state snap m)
  else do
    let out ← Script.convert (state.observe env dest snap ts m)
    execute fun db => { db with urlStates := putUrlState out.1 db.urlStates }
    pure (true, out.2)

/-! ## One probe -/

/-- `_insert_observation`, of the text of the value. -/
def insertObservation (probeId : Option ℕ) (batchId : Option PyStr) (sourceType : SourceType)
    (source rail : Option PyStr) (url : PyStr) (ts : ℤ) (trustClass : Option TrustClass)
    (entry : Field × Option PyStr) : Code Unit :=
  match entry.2 with
  | none => pure ()
  | some value => execute fun db => { db with
      observations := db.observations ++
        [⟨db.nextObservation, probeId, batchId, sourceType, source, rail, url, entry.1, value, ts,
          trustClass⟩]
      nextObservation := db.nextObservation + 1 }

/-- `_obs_text` of a truth value. -/
def boolText (b : Bool) : PyStr := if b then "1" else "0"

/-- `str(n)`. -/
def intText (n : ℤ) : PyStr := toString n

/-- `invocable`, where it is known. -/
def Snap.invocable (snap : Snap) : Option Bool :=
  match snap.schemaPresent with
  | some present => some (snap.payable && present)
  | none => if snap.live then none else some false

/-- The fields that `_write_observed` writes, in its order. -/
def Snap.observedFields (snap : Snap) : List (Field × Option PyStr) :=
  [(.live, some (boolText snap.live)),
    (.payable, some (boolText snap.payable)),
    (.invocable, snap.invocable.map boolText),
    (.latencyMs, snap.latencyMs.map intText),
    (.payTo, text snap.payTo),
    (.amount, text snap.amount),
    (.httpStatus, snap.httpStatus.map intText),
    (.schemaPresent, snap.schemaPresent.map boolText)]

/-- The fields that `_write_claimed` writes, in its order. -/
def Claimed.fields (claimed : Claimed) : List (Field × Option PyStr) :=
  [(.payTo, text claimed.payTo),
    (.amount, text claimed.amount),
    (.schemaPresent, claimed.schemaPresent.map boolText),
    (.facilitator, text claimed.facilitator),
    (.source, text claimed.source)]

/-- `x or y`, of texts. -/
def pyOr (x y : Option PyStr) : Option PyStr := (x.filter (· ≠ [])).or y

/-- `_write_claimed`. -/
def writeClaimed (probeId : Option ℕ) (batchId source rail : Option PyStr) (url : PyStr) (ts : ℤ)
    (claimed : Claimed) (trustClass : Option TrustClass) : Code Unit :=
  claimed.fields.forM (insertObservation probeId batchId .claimed
    ((text claimed.source).or (text source)) ((text claimed.rail).or (text rail)) url ts trustClass)

/-- `ORDER BY ts DESC, id DESC`. -/
def newestFirst (a b : ℤ × ℕ) : Bool := b.1 < a.1 || (a.1 == b.1 && b.2 ≤ a.2)

/-- `ORDER BY ts ASC, id ASC`. -/
def oldestFirst (a b : ℤ × ℕ) : Bool := newestFirst b a

/-- The ids of rows that are sorted by time and id. -/
def sortedIds (order : ℤ × ℕ → ℤ × ℕ → Bool) (rows : List (ℤ × ℕ)) : List ℕ :=
  (rows.insertionSort fun a b => order a b).map Prod.snd

namespace Db

variable (db : Db)

/-- The probes of a URL beyond the newest `PER_URL_CAP`. -/
def beyondPerUrlCap (url : PyStr) : List ℕ :=
  (sortedIds newestFirst ((db.probes.filter (·.url = url)).map fun p => (p.ts, p.id))).drop perUrlCap

/-- The oldest probes beyond `GLOBAL_CAP`. -/
def beyondGlobalCap : List ℕ :=
  (sortedIds oldestFirst (db.probes.map fun p => (p.ts, p.id))).take (db.probes.length - globalCap)

/-- The observations of a URL beyond the newest `OBS_PER_URL_CAP`. -/
def beyondObsCap (url : PyStr) : List ℕ :=
  (sortedIds newestFirst ((db.observations.filter (·.url = url)).map fun o => (o.ts, o.id))).drop
    obsPerUrlCap

/-- `DELETE FROM probes WHERE id = ?`, for each id. -/
def deleteProbes (ids : List ℕ) : Db :=
  { db with probes := db.probes.filter fun p => p.id ∉ ids }

/-- `DELETE FROM observations WHERE probe_id = ?`, for each id. -/
def deleteObservationsOf (ids : List ℕ) : Db :=
  { db with observations := db.observations.filter fun o => ∀ i ∈ o.probeId, i ∉ ids }

/-- `DELETE FROM observations WHERE id = ?`, for each id. -/
def deleteObservations (ids : List ℕ) : Db :=
  { db with observations := db.observations.filter fun o => o.id ∉ ids }

end Db

/-- `_delete_probes_and_obs`. -/
def deleteProbesAndObs (ids : List ℕ) : Code Unit :=
  if ids = [] then pure () else do
    execute fun db => db.deleteProbes ids
    execute fun db => db.deleteObservationsOf ids

/-- `_cap_observations`. -/
def capObservations (url : PyStr) : Code Unit := do
  let extra ← select fun db => db.beyondObsCap url
  if extra = [] then pure () else execute fun db => db.deleteObservations extra

/-- The caps at the end of `_write_probe_row`. -/
def capProbes (url : PyStr) : Code Unit := do
  let ids ← select fun db => db.beyondPerUrlCap url
  deleteProbesAndObs ids
  let n ← select fun db => db.probes.length
  if n ≤ globalCap then
    capObservations url
  else do
    let drop ← select fun db => db.beyondGlobalCap
    deleteProbesAndObs drop
    capObservations url

/-- The insertion of a probe. -/
def insertProbe (dest : PyStr) (snap : Snap) (ts : ℤ) : Code ℕ :=
  update
    (fun db => { db with
      probes := db.probes ++
        [{ id := db.nextProbe
           url := dest
           ts := ts
           live := snap.live
           payable := snap.payable
           invocable := snap.invocable.getD false
           latencyMs := snap.latencyMs
           payTo := text snap.payTo
           amount := text snap.amount
           missReason := text snap.missReason
           rail := text snap.rail
           schemaPresent := snap.schemaPresent
           settledRouteObservation := snap.trustClass.trusted
           trustClass := snap.trustClass }]
      nextProbe := db.nextProbe + 1 })
    fun db => db.nextProbe

/-- The part of `_write_probe_row` that only trusted observations take. -/
def applyWhenTrusted (dest : PyStr) (snap : Snap) (now : ℤ) (m : Meta) : Code Meta :=
  if snap.trustClass.trusted then do
    let out ← applyTrustedUrlState env dest snap now
      { m with payToFlipped := false, payToPending := false, payToEstablished := false }
    pure out.2
  else pure m

/-- The claims that come with an observation. -/
def writeClaims (dest : PyStr) (snap : Snap) (probeId : ℕ) (ts : ℤ) : Code Unit :=
  match snap.claimed with
  | none => pure ()
  | some claimed =>
      writeClaimed (some probeId) (text snap.batchId)
        (pyOr claimed.source (some ((text snap.source).getD "402signal")))
        (pyOr claimed.rail (text snap.rail)) dest ts claimed (some snap.trustClass)

/-- What `_write_probe_row` does before its caps. -/
def insertProbeRow (dest : PyStr) (snap : Snap) (now : ℤ) : Code Meta := do
  let ts ← Script.convert (snap.ts.getD now)
  let state ← select fun db => loadUrlState db.urlStates dest
  let risk ← Script.convert (paytoRiskAgainstTrusted env state snap .initial)
  let m ← applyWhenTrusted env dest { snap with ts := some ts } now risk
  let probeId ← insertProbe dest snap ts
  snap.observedFields.forM (insertObservation (some probeId) (text snap.batchId) .observed
    (some ((text snap.source).getD "402signal")) (text snap.rail) dest ts (some snap.trustClass))
  writeClaims dest snap probeId ts
  pure m

/-- `_write_probe_row`. -/
def writeProbeRow (dest : PyStr) (snap : Snap) (now : ℤ) : Code Meta := do
  let m ← insertProbeRow env dest snap now
  capProbes dest
  pure m

/-! ## The calls -/

/-- `_is_sealed_unlocked`. -/
def Db.isSealed (db : Db) (batchId : PyStr) : Bool :=
  db.sealedBatches.any fun b => b.batchId == batchId

/-- `_seal_unlocked`. -/
def Db.sealBatch (batchId : PyStr) (now : ℤ) (db : Db) : Db :=
  if db.isSealed batchId then db
  else { db with sealedBatches := db.sealedBatches ++ [⟨batchId, now⟩] }

/-- `_ok_batch_id`. -/
def okBatchId (raw : Option PyStr) : Option PyStr :=
  (text raw).bind fun t =>
    if 128 < t.length then none
    else if t.all fun c => env.uni.isalnum [c] || c = CodePoint.ofChar '-' || c = CodePoint.ofChar '_'
    then some t else none

/-- `record_probe`, of the URL that is given or else that of the observation. -/
def recordProbe (url : Option PyStr) (snap : Snap) (now : ℤ) : Code Meta :=
  match text url with
  | none => pure .initial
  | some dest =>
      match text snap.batchId with
      | none => do
          let m ← writeProbeRow env dest snap now
          commit
          pure m
      | some batchId => do
          let isSealed ← select fun db => db.isSealed batchId
          if isSealed then
            pure .initial
          else do
            let m ← writeProbeRow env dest snap now
            commit
            pure m

/-- The loop over the observations of a batch. -/
def writeBatch (batchId : PyStr) (now : ℤ) : List (PyStr × Snap) → Code (List (PyStr × Meta))
  | [] => pure []
  | (dest, snap) :: rest => do
      let m ← writeProbeRow env dest { snap with batchId := some batchId } now
      let metas ← writeBatch batchId now rest
      pure ((dest, m) :: metas)

/-- The observations of a batch that have a URL. -/
def batchRows (results : List (Option PyStr × Snap)) : List (PyStr × Snap) :=
  results.filterMap fun r => (text r.1).map fun dest => (dest, r.2)

/-- `persist_route_batch`. -/
def persistRouteBatch (batchId : Option PyStr) (results : List (Option PyStr × Snap)) (now : ℤ) :
    Code (List (PyStr × Meta)) :=
  match okBatchId env batchId with
  | none => pure []
  | some bid => do
      let isSealed ← select fun db => db.isSealed bid
      if isSealed then
        pure []
      else do
        let metas ← writeBatch env bid now (batchRows results)
        execute (Db.sealBatch bid now)
        commit
        pure metas

namespace Db

/-- The tentative probes of a batch, oldest first. -/
def tentativeProbes (batchId : PyStr) (db : Db) : List Probe :=
  (db.probes.filter fun p =>
    p.trustClass = .routeTentative ∧
      db.observations.any fun o => o.probeId = some p.id && o.batchId = some batchId).insertionSort
    fun a b => oldestFirst (a.ts, a.id) (b.ts, b.id)

/-- The promotion of the probes with given ids. -/
def settleProbes (ids : List ℕ) (db : Db) : Db :=
  { db with
    probes := db.probes.map fun p =>
      if p.id ∈ ids then { p with settledRouteObservation := true, trustClass := .routeSettled }
      else p }

/-- The promotion of the observations of the probes with given ids. -/
def settleObservations (ids : List ℕ) (db : Db) : Db :=
  { db with
    observations := db.observations.map fun o =>
      if ∃ i ∈ o.probeId, i ∈ ids then { o with trustClass := some .routeSettled } else o }

/-- The promotion of what is tentative among the probes of a batch. -/
def settleBatchProbes (batchId : PyStr) (db : Db) : Db :=
  let ids := (db.observations.filter (·.batchId = some batchId)).filterMap (·.probeId)
  { db with
    probes := db.probes.map fun p =>
      if p.id ∈ ids ∧ p.trustClass = .routeTentative then
        { p with settledRouteObservation := true, trustClass := .routeSettled }
      else p }

/-- The promotion of what is tentative among the observations of a batch. -/
def settleBatchObservations (batchId : PyStr) (db : Db) : Db :=
  { db with
    observations := db.observations.map fun o =>
      if o.batchId = some batchId ∧ (o.trustClass = none ∨ o.trustClass = some .routeTentative)
      then { o with trustClass := some .routeSettled } else o }

end Db

/-- The observation that the late settlement of a probe applies. -/
def Probe.settledSnap (p : Probe) : Snap where
  ts := some p.ts
  live := p.live
  payTo := p.payTo
  amount := p.amount
  schemaPresent := p.schemaPresent
  payable := p.payable
  latencyMs := p.latencyMs
  missReason := p.missReason
  rail := p.rail
  httpStatus := none
  batchId := none
  source := none
  claimed := none
  trustClass := .routeSettled

/-- The late settlement of one probe. -/
def applySettledProbe (p : Probe) (now : ℤ) : Code Unit :=
  match text (some p.url) with
  | none => pure ()
  | some dest => do
      let _ ← applyTrustedUrlState env dest p.settledSnap now .initial
      pure ()

/-- The loop of `mark_batch_settled` over the promoted probes. -/
def applySettled (now : ℤ) : List Probe → Code Unit
  | [] => pure ()
  | p :: rest => do
      applySettledProbe env p now
      applySettled now rest

/-- `mark_batch_settled`. -/
def markBatchSettled (batchId : Option PyStr) (now : ℤ) : Code Unit :=
  match (okBatchId env batchId).or (text batchId) with
  | none => pure ()
  | some bid => do
      let rows ← select fun db => db.tentativeProbes bid
      if rows = [] then do
        execute (Db.settleBatchProbes bid)
        execute (Db.settleBatchObservations bid)
        commit
      else do
        execute (Db.settleProbes (rows.map (·.id)))
        execute (Db.settleObservations (rows.map (·.id)))
        applySettled env now rows
        commit

/-- `record_claim`, of fields that are not empty. -/
def recordClaim (url : Option PyStr) (claimed : Option Claimed) (source rail : Option PyStr)
    (ts : Option ℤ) (batchId : Option PyStr) (now : ℤ) : Code Unit :=
  match text url, claimed with
  | some dest, some claimed => do
      writeClaimed none (text batchId) source rail dest (ts.getD now) claimed none
      capObservations dest
      commit
  | _, _ => pure ()

/-! ## Attestation -/

/-- A row as it is attested. -/
structure AttestedRow where
  url : PyStr
  field : Field
  ts : ℤ
  value : PyStr
  deriving DecidableEq

/-- `_batch_rows_unlocked`, by the ids of the rows. -/
def Db.batchRows (batchId : PyStr) (db : Db) : List AttestedRow :=
  (db.observations.filter fun o => o.batchId = some batchId ∧ o.sourceType = .observed).map
    fun o => ⟨o.url, o.field, o.ts, o.value⟩

/-- A row as `json.dumps` writes it, with its keys sorted. -/
def AttestedRow.json (r : AttestedRow) : PyStr :=
  PyStr.ofString "\x7b\"field\":" ++ jsonString r.field.name ++
    PyStr.ofString ",\"ts\":" ++ intText r.ts ++
    PyStr.ofString ",\"url\":" ++ jsonString r.url ++
    PyStr.ofString ",\"value\":" ++ jsonString r.value ++ PyStr.ofString "\x7d"

/-- The order of the attested rows: by URL, field, time and value. -/
def AttestedRow.before (a b : AttestedRow) : Bool :=
  PyStr.lt a.url b.url || (a.url == b.url &&
    (PyStr.lt a.field.name b.field.name || (a.field == b.field &&
      (decide (a.ts < b.ts) || (a.ts == b.ts && PyStr.le a.value b.value)))))

/-- `canonical_observation_rows`, of rows of the database. -/
def canonicalObservationRows (rows : List AttestedRow) : PyStr :=
  let slim := (rows.filterMap fun r =>
    (text (some r.url)).map fun url => { r with url := url }).insertionSort fun a b => a.before b
  PyStr.ofString "[" ++ ((slim.map AttestedRow.json).intersperse (PyStr.ofString ",")).flatten ++
    PyStr.ofString "]"

/-- `hash_canonical`; text that does not encode raises. -/
def hashCanonical (canonical : PyStr) : Option Bytes :=
  match utf8Encode canonical with
  | .ok b => some (hex (Sha256.sha256 b))
  | .error _ => none

/-- What `attestation_for` returns. -/
structure Attestation where
  batchId : PyStr
  createdAt : Option PyStr
  n : ℕ
  hash : Bytes
  deriving DecidableEq

/-- The latest time of an observed row of each batch, with the batch. -/
def Db.batchTimes (db : Db) : List (ℤ × PyStr) :=
  db.observations.filterMap fun o =>
    match o.sourceType, o.batchId with
    | .observed, some b => if b = [] then none else some (o.ts, b)
    | _, _ => none

/-- `ORDER BY latest DESC, batch_id DESC`. -/
def latestFirst (a b : ℤ × PyStr) : Bool := decide (b.1 < a.1) || (a.1 == b.1 && PyStr.le b.2 a.2)

/-- `_latest_batch_id_unlocked`. -/
def Db.latestBatchId (db : Db) : Option PyStr :=
  okBatchId env (((db.batchTimes.insertionSort fun a b => latestFirst a b).head?).map Prod.snd)

/-- The hash of the rows of a batch. -/
def hashRows (rows : List AttestedRow) : Option Bytes :=
  if rows = [] then none else hashCanonical (canonicalObservationRows rows)

/-- The batch that an attestation is about. -/
def attestedBatch (batchId : Option PyStr) : Code (Option PyStr) :=
  match batchId.filter (· ≠ []) with
  | some b => pure (okBatchId env (some b))
  | none => select fun db => db.latestBatchId env

/-- `attestation_for`. -/
def attestationFor (batchId : Option PyStr) (now : ℤ) : Code (Option Attestation) := do
  let bid ← attestedBatch env batchId
  match bid with
  | none => pure none
  | some bid => do
      let rows ← select fun db => db.batchRows bid
      let digest ← Script.convert (hashRows rows)
      match digest with
      | none => pure none
      | some digest => do
          let created ← Script.convert (((rows.map AttestedRow.ts).min?).bind env.isoTs)
          execute (Db.sealBatch bid now)
          commit
          pure (some ⟨bid, created, rows.length, digest⟩)

/-! ## Runs -/

/-- A call, with the clock it reads. -/
inductive Call
  | recordProbe (url : Option PyStr) (snap : Snap) (now : ℤ)
  | persistRouteBatch (batchId : Option PyStr) (results : List (Option PyStr × Snap)) (now : ℤ)
  | markBatchSettled (batchId : Option PyStr) (now : ℤ)
  | recordClaim (url : Option PyStr) (claimed : Option Claimed) (source rail : Option PyStr)
      (ts : Option ℤ) (batchId : Option PyStr) (now : ℤ)
  | attestationFor (batchId : Option PyStr) (now : ℤ)

/-- The database after a call. -/
def Call.after (s : Session Db) : Call → Session Db
  | recordProbe url snap now => ((ProbeHistory.recordProbe env url snap now).run s).2
  | persistRouteBatch batchId results now =>
      ((ProbeHistory.persistRouteBatch env batchId results now).run s).2
  | markBatchSettled batchId now => ((ProbeHistory.markBatchSettled env batchId now).run s).2
  | recordClaim url claimed source rail ts batchId now =>
      ((ProbeHistory.recordClaim url claimed source rail ts batchId now).run s).2
  | attestationFor batchId now => ((ProbeHistory.attestationFor env batchId now).run s).2

/-- The database after a list of calls. -/
def runCalls (calls : List Call) (s : Session Db) : Session Db :=
  calls.foldl (fun s c => c.after env s) s

/-- The database before the first call. -/
def start : Session Db := ⟨.empty, .empty⟩

end Signal402.ProbeHistory
