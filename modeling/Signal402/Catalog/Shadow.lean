import Signal402.Base.Text
import Signal402.Lib.Script
import Signal402.Lib.Table
import Mathlib.Data.List.Sort

/-!
# The shadow catalog

The catalog database of the service: the listings that the sources list, which
source saw each of them and in which sweep, and the claims made for them.  A
sweep of a source reads its pages in turn; what the sweep did not see is retired.
Searches upsert what they find without belonging to a sweep.

* `upsertOne` — write one listing.
* `upsertItem`, `upsertItems` — the upserts of a search.
* `beginSweep`, `ingestPage`, `completeSweep` — a sweep.

The fields, the claims and the hash of a listing are computed from the listing
alone, before anything is written; `Conversions` holds these functions.
-/

namespace Signal402.Shadow

def sourceCdp : PyStr := "cdp"

def sourcePayai : PyStr := "payai"

def sourceGoplausible : PyStr := "goplausible"

/-- `SOURCES`. -/
def sources : List PyStr := [sourceCdp, sourcePayai, sourceGoplausible]

instance (s : PyStr) : Decidable (s ∈ sources) := List.instDecidableMemOfLawfulBEq s sources

inductive Status
  | active
  | retired
  deriving DecidableEq, Repr

inductive EventKind
  | resourceAdded
  | resourceRetired
  | railAdded
  | railRemoved
  | priceChanged
  | payToChanged
  | schemaChanged
  deriving DecidableEq, Repr

/-- `EVENT_CAP`. -/
def eventCap : ℕ := 5000

/-! ## Rows -/

/-- What the catalog says about a listing. -/
structure Description where
  serviceName : Option PyStr
  description : Option PyStr
  capability : Option PyStr
  method : Option PyStr
  tags : Option PyStr
  inputSchemaPresent : Bool
  outputSchemaPresent : Bool
  deriving DecidableEq

/-- What `_fields_from_item` returns. -/
structure Fields extends Description where
  canonicalUrl : PyStr
  sourceResourceId : Option PyStr
  deriving DecidableEq

/-- A row of `resources`. -/
structure Resource where
  id : ℕ
  canonicalUrl : PyStr
  about : Description
  firstSeen : ℤ
  lastSeen : ℤ
  lastFetched : ℤ
  rowHash : PyStr
  status : Status
  retiredAt : Option ℤ
  reappearedAt : Option ℤ
  lastVerified : Option ℤ
  lastSearched : Option ℤ
  lastRouted : Option ℤ
  lastProbeOk : Option Bool
  deriving DecidableEq

/-- A row of `resource_sources`. -/
structure SourceRow where
  resourceId : ℕ
  source : PyStr
  sourceResourceId : Option PyStr
  sourceGeneration : Option ℤ
  sourceLastSeen : ℤ
  deriving DecidableEq

/-- The unique key of `resource_sources`. -/
def SourceRow.key (r : SourceRow) : ℕ × PyStr := (r.resourceId, r.source)

/-- What `_claims_from_item` returns for each accepted payment. -/
structure Claim where
  rail : Option PyStr
  network : Option PyStr
  asset : Option PyStr
  amountAtomic : Option PyStr
  payTo : Option PyStr
  facilitator : Option PyStr
  deriving DecidableEq

/-- A row of `accept_claims`. -/
structure ClaimRow where
  id : ℕ
  resourceId : ℕ
  source : PyStr
  claim : Claim
  deriving DecidableEq

/-- A row of `source_state`. -/
structure SourceState where
  source : PyStr
  generation : ℤ
  cursor : ℤ
  upstreamTotal : Option ℤ
  sweepStartedAt : Option ℤ
  lastCompleteSweepAt : Option ℤ
  deriving DecidableEq

/-- The `detail` of an event. -/
inductive Detail
  | none
  | schema (oldIn newIn oldOut newOut : Bool)
  | rail (rail : PyStr)
  | price (rail : PyStr) (old new : Option PyStr)
  | generation (n : ℤ)
  deriving DecidableEq

/-- A row of `claim_events`. -/
structure ClaimEvent where
  id : ℕ
  resourceId : ℕ
  canonicalUrl : PyStr
  event : EventKind
  source : PyStr
  detail : Detail
  ts : ℤ
  deriving DecidableEq

/-- A row of `resource_fts`. -/
structure FtsRow where
  rowid : ℕ
  serviceName : PyStr
  description : PyStr
  tags : PyStr
  capability : PyStr
  url : PyStr
  deriving DecidableEq

/-- The database.  The counters are those of the `AUTOINCREMENT` keys. -/
structure Catalog where
  resources : List Resource
  resourceSources : List SourceRow
  acceptClaims : List ClaimRow
  sourceStates : List SourceState
  claimEvents : List ClaimEvent
  resourceFts : List FtsRow
  nextResource : ℕ
  nextClaim : ℕ
  nextEvent : ℕ
  deriving DecidableEq

/-- An empty database. -/
def Catalog.empty : Catalog := ⟨[], [], [], [], [], [], 1, 1, 1⟩

/-- The functions that read a listing before it is written, and the
configuration of the database. -/
structure Conversions (Item : Type) where
  fieldsFromItem : Item → Fields
  claimsFromItem : Item → PyStr → List Claim
  rowHash : Fields → List Claim → PyStr
  paytoEqual : Option PyStr → Option PyStr → PyStr → Bool
  ftsOk : Bool
  coldSweepS : ℤ

/-- Code on the database. -/
abbrev Code := Script (Session Catalog)

open Session (execute update select commit)

variable {Item : Type} (conv : Conversions Item)

/-- `_as_int(ts, None) or _now()`. -/
def timeOf (ts : Option ℤ) (now : ℤ) : ℤ :=
  match ts with
  | some t => if t = 0 then now else t
  | none => now

/-! ## Events -/

/-- `_insert_event`. -/
def insertEvent (resourceId : ℕ) (url : PyStr) (event : EventKind) (source : PyStr)
    (detail : Detail) (ts : ℤ) : Code Unit :=
  execute fun c => { c with
    claimEvents := c.claimEvents ++
      [⟨c.nextEvent, resourceId, url, event, source, detail, ts⟩]
    nextEvent := c.nextEvent + 1 }

/-- An event that is inserted and reported when `p` holds. -/
def eventWhen (p : Prop) [Decidable p] (resourceId : ℕ) (url : PyStr) (event : EventKind)
    (source : PyStr) (detail : Detail) (ts : ℤ) : Code (List EventKind) :=
  if p then do
    insertEvent resourceId url event source detail ts
    pure [event]
  else pure []

/-- `ORDER BY ts ASC, id ASC`. -/
def ClaimEvent.older (a b : ClaimEvent) : Bool := a.ts < b.ts || (a.ts == b.ts && a.id ≤ b.id)

/-- `_cap_events`. -/
def capEvents : Code Unit := do
  let n ← select fun c => c.claimEvents.length
  if n ≤ eventCap then
    pure ()
  else
    execute fun c =>
      let drop := ((c.claimEvents.insertionSort fun a b => ClaimEvent.older a b).take (n - eventCap)).map (·.id)
      { c with claimEvents := c.claimEvents.filter fun e => e.id ∉ drop }

/-! ## One listing -/

namespace Catalog

variable (c : Catalog)

/-- The row of a URL. -/
def resource (url : PyStr) : Option Resource := Table.lookup Resource.canonicalUrl c.resources url

/-- The row of a listing and a source. -/
def sourceRow (resourceId : ℕ) (source : PyStr) : Option SourceRow :=
  Table.lookup SourceRow.key c.resourceSources (resourceId, source)

/-- `_load_claims`. -/
def loadClaims (resourceId : ℕ) (source : PyStr) : List Claim :=
  (c.acceptClaims.filter fun r => r.resourceId = resourceId ∧ r.source = source).map (·.claim)

end Catalog

/-- `x or ""`. -/
def orEmpty (x : Option PyStr) : PyStr := x.getD []

/-- `{c.get("rail") for c in claims if c.get("rail")}`. -/
def railsOf (claims : List Claim) : List PyStr :=
  (claims.filterMap (·.rail)).filter (· ≠ [])

/-- `sorted(a - b)` for sets of rails. -/
def sortedDifference (a b : List PyStr) : List PyStr :=
  ((a.filter (· ∉ b)).dedup).insertionSort fun x y => PyStr.le x y

/-- `_by_rail`: the first claim of each rail. -/
def byRail : List Claim → List (PyStr × Claim)
  | [] => []
  | c :: rest =>
      match c.rail with
      | some rail =>
          if rail = [] then byRail rest
          else (rail, c) :: (byRail rest).filter fun m => m.1 ≠ rail
      | none => byRail rest

/-- The events of the claims of one rail, when it was claimed before. -/
def claimChanged (prev : Option (PyStr × Claim)) (nxt : Claim) (resourceId : ℕ)
    (source url rail : PyStr) (ts : ℤ) : Code (List EventKind) :=
  match prev with
  | none => pure []
  | some (_, prev) => do
      let price ← eventWhen (orEmpty prev.amountAtomic ≠ orEmpty nxt.amountAtomic) resourceId url
        .priceChanged source (.price rail prev.amountAtomic nxt.amountAtomic) ts
      let payTo ← eventWhen
        (orEmpty prev.payTo ≠ orEmpty nxt.payTo ∧ ¬conv.paytoEqual prev.payTo nxt.payTo rail)
        resourceId url .payToChanged source (.rail rail) ts
      pure (price ++ payTo)

/-- The events of all rails that are claimed. -/
def claimsChanged (old : List (PyStr × Claim)) (resourceId : ℕ) (source url : PyStr) (ts : ℤ) :
    List (PyStr × Claim) → Code (List EventKind)
  | [] => pure []
  | (rail, nxt) :: rest => do
      let first ← claimChanged conv (old.find? (·.1 = rail)) nxt resourceId source url rail ts
      let events ← claimsChanged old resourceId source url ts rest
      pure (first ++ events)

/-- `_replace_claims`. -/
def replaceClaims (resourceId : ℕ) (source : PyStr) (claims : List Claim) (url : PyStr) (ts : ℤ) :
    Code (List EventKind) := do
  let old ← select fun c => c.loadClaims resourceId source
  let added := sortedDifference (railsOf claims) (railsOf old)
  let removed := sortedDifference (railsOf old) (railsOf claims)
  added.forM fun rail => insertEvent resourceId url .railAdded source (.rail rail) ts
  removed.forM fun rail => insertEvent resourceId url .railRemoved source (.rail rail) ts
  let changed ← claimsChanged conv (byRail old) resourceId source url ts (byRail claims)
  execute fun c => { c with
    acceptClaims :=
      c.acceptClaims.filter fun r => ¬(r.resourceId = resourceId ∧ r.source = source) }
  claims.forM fun claim => execute fun c => { c with
    acceptClaims := c.acceptClaims ++ [⟨c.nextClaim, resourceId, source, claim⟩]
    nextClaim := c.nextClaim + 1 }
  pure (added.map (fun _ => EventKind.railAdded) ++ removed.map (fun _ => EventKind.railRemoved) ++
    changed)

/-- The update of `_upsert_source`: a missing generation or source id keeps the one
that is there. -/
def SourceRow.seeAgain (sourceResourceId : Option PyStr) (generation : Option ℤ) (ts : ℤ)
    (r : SourceRow) : SourceRow :=
  { r with
    sourceResourceId := sourceResourceId.or r.sourceResourceId
    sourceGeneration := generation.or r.sourceGeneration
    sourceLastSeen := ts }

/-- The statement of `_upsert_source`. -/
def Catalog.upsertSource (resourceId : ℕ) (source : PyStr) (sourceResourceId : Option PyStr)
    (generation : Option ℤ) (ts : ℤ) (c : Catalog) : Catalog :=
  match c.sourceRow resourceId source with
  | none => { c with
      resourceSources :=
        c.resourceSources ++ [⟨resourceId, source, sourceResourceId, generation, ts⟩] }
  | some _ => { c with
      resourceSources := Table.update SourceRow.key (resourceId, source)
        (SourceRow.seeAgain sourceResourceId generation ts) c.resourceSources }

/-- `_sync_fts`. -/
def syncFts (resourceId : ℕ) (fields : Fields) : Code Unit :=
  if conv.ftsOk then do
    execute fun c => { c with resourceFts := c.resourceFts.filter (·.rowid ≠ resourceId) }
    execute fun c => { c with
      resourceFts := c.resourceFts ++
        [⟨resourceId, orEmpty fields.serviceName, orEmpty fields.description, orEmpty fields.tags,
          orEmpty fields.capability, fields.canonicalUrl⟩] }
  else pure ()

/-- The new row of a URL that is not listed yet. -/
def insertResource (fields : Fields) (digest : PyStr) (ts : ℤ) : Code ℕ :=
  update
    (fun c => { c with
      resources := c.resources ++
        [⟨c.nextResource, fields.canonicalUrl, fields.toDescription, ts, ts, ts, digest,
          .active, none, none, none, none, none, none⟩]
      nextResource := c.nextResource + 1 })
    fun c => c.nextResource

/-- The update of a listed row, which makes it active. -/
def Resource.refresh (prevStatus : Status) (fields : Fields) (digest : PyStr) (ts : ℤ)
    (r : Resource) : Resource :=
  { r with
    about := fields.toDescription
    lastSeen := ts
    lastFetched := ts
    rowHash := digest
    status := .active
    retiredAt := none
    reappearedAt := (if prevStatus = .retired then some ts else none).or r.reappearedAt }

def refreshResource (row : Resource) (fields : Fields) (digest : PyStr) (ts : ℤ) : Code Unit :=
  execute fun c => { c with
    resources :=
      Table.update Resource.id row.id (Resource.refresh row.status fields digest ts) c.resources }

/-- What `_upsert_one` returns. -/
structure Upserted where
  id : Option ℕ
  events : List EventKind
  created : Bool
  deriving DecidableEq, Repr

/-- The row of a listing: its id, the events so far, and whether it is new. -/
def writeResource (row : Option Resource) (fields : Fields) (digest source : PyStr) (ts : ℤ) :
    Code (ℕ × List EventKind × Bool) :=
  match row with
  | none => do
      let resourceId ← insertResource fields digest ts
      insertEvent resourceId fields.canonicalUrl .resourceAdded source .none ts
      pure (resourceId, [.resourceAdded], true)
  | some row => do
      let events ← eventWhen
        (row.about.inputSchemaPresent ≠ fields.inputSchemaPresent ∨
          row.about.outputSchemaPresent ≠ fields.outputSchemaPresent)
        row.id fields.canonicalUrl .schemaChanged source
        (.schema row.about.inputSchemaPresent fields.inputSchemaPresent
          row.about.outputSchemaPresent fields.outputSchemaPresent) ts
      refreshResource row fields digest ts
      pure (row.id, events, false)

/-- `_upsert_one`. -/
def upsertOne (item : Item) (source : PyStr) (generation : Option ℤ) (ts : ℤ) : Code Upserted := do
  let fields ← Script.convert (conv.fieldsFromItem item)
  if fields.canonicalUrl = [] then
    pure ⟨none, [], false⟩
  else do
    let claims ← Script.convert (conv.claimsFromItem item source)
    let digest ← Script.convert (conv.rowHash fields claims)
    let row ← select fun c => c.resource fields.canonicalUrl
    let out ← writeResource row fields digest source ts
    let changed ← replaceClaims conv out.1 source claims fields.canonicalUrl ts
    execute (Catalog.upsertSource out.1 source fields.sourceResourceId generation ts)
    syncFts conv out.1 fields
    pure ⟨some out.1, out.2.1 ++ changed, out.2.2⟩

/-! ## Upserts of a search -/

/-- `(source or "").strip() or SOURCE_CDP`. -/
def upsertSourceName (source : PyStr) : PyStr :=
  if (PyStr.strip source) = [] then sourceCdp else (PyStr.strip source)

/-- `upsert_item`. -/
def upsertItem (item : Option Item) (source : PyStr) (generation : Option ℤ) (ts : Option ℤ)
    (now : ℤ) : Code Upserted :=
  match item with
  | none => pure ⟨none, [], false⟩
  | some item => do
      let out ← upsertOne conv item (upsertSourceName source) generation (timeOf ts now)
      capEvents
      commit
      pure out

/-- The loop over the listings of a batch, which counts those with an id. -/
def upsertAll (source : PyStr) (generation : Option ℤ) (ts : ℤ) :
    List Item → Code (ℕ × List EventKind)
  | [] => pure (0, [])
  | item :: rest => do
      let out ← upsertOne conv item source generation ts
      let more ← upsertAll source generation ts rest
      pure (if out.id.isSome then (more.1 + 1, out.events ++ more.2) else more)

/-- `upsert_items`. -/
def upsertItems (items : List Item) (source : PyStr) (generation : Option ℤ) (ts : Option ℤ)
    (now : ℤ) : Code (ℕ × List EventKind) := do
  let out ← upsertAll conv (upsertSourceName source) generation (timeOf ts now) items
  capEvents
  commit
  pure out

/-! ## Sweeps -/

/-- `_source_state_unlocked`. -/
def Catalog.sourceState (c : Catalog) (source : PyStr) : SourceState :=
  (Table.lookup SourceState.source c.sourceStates source).getD ⟨source, 0, 0, none, none, none⟩

/-- `INSERT INTO source_state … ON CONFLICT(source) DO UPDATE`. -/
def Catalog.putState (source : PyStr) (new : SourceState) (f : SourceState → SourceState)
    (c : Catalog) : Catalog :=
  match Table.lookup SourceState.source c.sourceStates source with
  | none => { c with sourceStates := c.sourceStates ++ [new] }
  | some _ => { c with sourceStates := Table.update SourceState.source source f c.sourceStates }

/-- `UPDATE source_state … WHERE source = ?`. -/
def Catalog.setState (source : PyStr) (f : SourceState → SourceState) (c : Catalog) : Catalog :=
  { c with sourceStates := Table.update SourceState.source source f c.sourceStates }

/-- `begin_sweep`. -/
def beginSweep (source : PyStr) (ts : Option ℤ) (now : ℤ) : Code ℤ :=
  if (PyStr.strip source) ∉ sources then pure 0 else do
    let state ← select fun c => c.sourceState (PyStr.strip source)
    let gen := state.generation + 1
    execute (Catalog.putState (PyStr.strip source)
      ⟨(PyStr.strip source), gen, 0, none, some (timeOf ts now), none⟩
      fun r => { r with generation := gen, cursor := 0, sweepStartedAt := some (timeOf ts now) })
    commit
    pure gen

/-- The active listings that the sweep did not see, with their URLs. -/
def Catalog.unseen (c : Catalog) (source : PyStr) (generation : ℤ) : List (ℕ × PyStr) :=
  (c.resourceSources.filter fun rs =>
      rs.source = source ∧ rs.sourceGeneration ≠ some generation).flatMap fun rs =>
    (c.resources.filter fun r => r.id = rs.resourceId ∧ r.status = .active).map fun r =>
      (r.id, r.canonicalUrl)

/-- Whether another source that sweeps the listing saw it from `cutoff` on. -/
def Catalog.seenElsewhere (c : Catalog) (resourceId : ℕ) (source : PyStr) (cutoff : ℤ) : Bool :=
  c.resourceSources.any fun rs =>
    rs.resourceId = resourceId && rs.source ≠ source && rs.sourceGeneration.isSome &&
      decide (cutoff ≤ rs.sourceLastSeen)

/-- An active row is retired. -/
def Resource.retire (ts : ℤ) (r : Resource) : Resource :=
  if r.status = .active then { r with status := .retired, retiredAt := some ts } else r

/-- `UPDATE resources SET status = ?, retired_at = ? WHERE id = ? AND status = ?`. -/
def Catalog.retire (resourceId : ℕ) (ts : ℤ) (c : Catalog) : Catalog :=
  { c with resources := Table.update Resource.id resourceId (Resource.retire ts) c.resources }

/-- The body of the loop of `_retire_unseen_unlocked`; the update changes a row
when the listing is active. -/
def retireOne (source : PyStr) (generation ts : ℤ) (row : ℕ × PyStr) : Code ℕ := do
  let seen ← select fun c => c.seenElsewhere row.1 source (ts - conv.coldSweepS)
  if seen then
    pure 0
  else do
    let rowcount ← update (Catalog.retire row.1 ts) fun c =>
      (c.resources.filter fun r => r.id = row.1 ∧ r.status = .active).length
    if rowcount = 0 then
      pure 0
    else do
      insertEvent row.1 row.2 .resourceRetired source (.generation generation) ts
      pure 1

def retireAll (source : PyStr) (generation ts : ℤ) : List (ℕ × PyStr) → Code ℕ
  | [] => pure 0
  | row :: rest => do
      let n ← retireOne conv source generation ts row
      let m ← retireAll source generation ts rest
      pure (n + m)

/-- `_retire_unseen_unlocked`. -/
def retireUnseen (source : PyStr) (generation ts : ℤ) : Code ℕ := do
  let candidates ← select fun c => c.unseen source generation
  retireAll conv source generation ts candidates

/-- The end of a sweep in `source_state`. -/
def finishState (source : PyStr) (ts : ℤ) : Code Unit :=
  execute (Catalog.setState source fun r =>
    { r with lastCompleteSweepAt := some ts, cursor := 0, sweepStartedAt := none })

/-- What `complete_sweep` returns. -/
structure Completed where
  retired : ℕ
  generation : ℤ
  deriving DecidableEq, Repr

/-- `complete_sweep`. -/
def completeSweep (source : PyStr) (ts : Option ℤ) (now : ℤ) : Code Completed :=
  if (PyStr.strip source) ∉ sources then pure ⟨0, 0⟩ else do
    let state ← select fun c => c.sourceState (PyStr.strip source)
    if state.generation < 1 then
      pure ⟨0, 0⟩
    else do
      let retired ← retireUnseen conv (PyStr.strip source) state.generation (timeOf ts now)
      finishState (PyStr.strip source) (timeOf ts now)
      capEvents
      commit
      pure ⟨retired, state.generation⟩

/-- The arguments of a page other than its source, listings and time. -/
structure Page where
  offset : ℤ
  last : Bool
  upstreamTotal : Option ℤ
  step : Option ℤ
  deriving DecidableEq, Repr

/-- The cursor after a page of `n` listings. -/
def Page.newCursor (page : Page) (n : ℕ) : ℤ :=
  let off := if page.offset < 0 then 0 else page.offset
  let adv := match page.step with
    | some s => if s < 1 then (n : ℤ) else s
    | none => n
  off + max adv 0

/-- Whether a page of `n` listings ends the sweep. -/
def Page.complete (page : Page) (n : ℕ) : Bool :=
  page.last || match page.upstreamTotal with
    | some total => decide (total ≤ page.newCursor n)
    | none => false

/-- What `ingest_page` returns when it does not fail. -/
structure Ingested where
  upserted : ℕ
  events : List EventKind
  cursor : ℤ
  generation : ℤ
  retired : ℕ
  complete : Bool
  deriving DecidableEq, Repr

/-- The generation a page belongs to; the first page of a source starts one. -/
def pageGeneration (source : PyStr) (ts : ℤ) : Code ℤ := do
  let state ← select fun c => c.sourceState source
  if state.generation < 1 then do
    execute (Catalog.putState source ⟨source, 1, 0, none, some ts, none⟩ fun r =>
      { r with generation := 1, sweepStartedAt := r.sweepStartedAt.or (some ts) })
    pure 1
  else pure state.generation

/-- The end of a page, which ends the sweep when it is the last one. -/
def finishPage (source : PyStr) (generation ts : ℤ) (complete : Bool) : Code ℕ :=
  if complete then do
    let retired ← retireUnseen conv source generation ts
    finishState source ts
    pure retired
  else pure 0

/-- `ingest_page`. -/
def ingestPage (source : PyStr) (items : List Item) (page : Page) (ts : Option ℤ) (now : ℤ) :
    Code (Except String Ingested) :=
  if (PyStr.strip source) ∉ sources then pure (.error "unknown_source") else do
    let gen ← pageGeneration (PyStr.strip source) (timeOf ts now)
    let out ← upsertAll conv (PyStr.strip source) (some gen) (timeOf ts now) items
    execute (Catalog.setState (PyStr.strip source) fun r => { r with
      cursor := page.newCursor items.length
      upstreamTotal := page.upstreamTotal.or r.upstreamTotal })
    let retired ← finishPage conv (PyStr.strip source) gen (timeOf ts now)
      (page.complete items.length)
    capEvents
    commit
    pure (.ok ⟨out.1, out.2,
      if page.complete items.length then 0 else page.newCursor items.length, gen, retired,
      page.complete items.length⟩)

end Signal402.Shadow
