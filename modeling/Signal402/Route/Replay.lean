import Signal402.Lib.Concurrent
import Signal402.Lib.Sha256
import Signal402.Lib.Sqlite
import Signal402.Route.PaidRoute
import Signal402.Route.Payment

/-!
# The replay ledger and the paid route (`replay.py`, `route.py`)

The functions as programs over atomic operations: one operation for each access
to the process's maps, for each SQL statement, for taking and releasing the
module's lock, and for each call that leaves the two modules.  A statement that
raises returns so, and the programs handle it where the source's `except`
clauses do.

`Outcomes` are the pure functions that prepare an outcome for storage, and
`Fingerprints` those that name a payment; nothing here depends on which they
are.  The gate that tests open with `LOCAL_FREE` is closed.  `created_at` is
written and never read, so it is left out, and so are the prunings of
`_completed`: an entry may expire at any time instead.
-/

namespace Signal402.Replay

open Concurrent Route

/-! ## Ledger rows -/

/-- The outcome states a row may have. -/
inductive LedgerState
  | settlementPending
  | unknown
  | settled
  | notSettled
  | rejected
  deriving DecidableEq, Repr

def LedgerState.isTerminal : LedgerState → Bool
  | .settlementPending => false
  | .unknown => false
  | .settled => true
  | .notSettled => true
  | .rejected => true

/-- A row of `settle_ledger`. -/
structure Row where
  fpHash : Bytes
  state : LedgerState
  outcomeJson : Option PyStr
  fingerprintVersion : ℕ
  scopeHash : Option Bytes

/-- The ledger file: the rows, and whether the identity cutover is acknowledged
in `replay_meta`. -/
structure Ledger where
  rows : List Row
  cutoverAck : Bool

def fingerprintVersion : ℕ := 2

/-- The row of a fingerprint hash. -/
def Ledger.find (d : Ledger) (fpHash : Bytes) : Option Row :=
  d.rows.find? fun row => row.fpHash == fpHash

/-- A row of the fingerprint hash is there. -/
def Ledger.Has (fpHash : Bytes) (d : Ledger) : Prop := ∃ row ∈ d.rows, row.fpHash = fpHash

instance (fpHash : Bytes) (d : Ledger) : Decidable (d.Has fpHash) :=
  inferInstanceAs (Decidable (∃ row ∈ d.rows, row.fpHash = fpHash))

/-- `SELECT 1 … WHERE fingerprint_version < 2`. -/
def Ledger.hasLegacy (d : Ledger) : Bool :=
  d.rows.any fun row => row.fingerprintVersion < fingerprintVersion

/-- `INSERT` of a pending row, under the `UNIQUE` constraint. -/
def insertPending (fpHash : Bytes) (scopeHash : Option Bytes) (d : Ledger) : Option Ledger :=
  if d.Has fpHash then none
  else some { d with
    rows := d.rows ++ [⟨fpHash, .settlementPending, none, fingerprintVersion, scopeHash⟩] }

/-- `UPDATE … SET state, outcome_json WHERE fp_hash`. -/
def updateOutcome (fpHash : Bytes) (state : LedgerState) (outcomeJson : PyStr) (d : Ledger) :
    Option Ledger :=
  some { d with
    rows := d.rows.map fun row =>
      if row.fpHash = fpHash then { row with state := state, outcomeJson := some outcomeJson }
      else row }

/-- `DELETE … WHERE fp_hash`. -/
def deleteRow (fpHash : Bytes) (d : Ledger) : Option Ledger :=
  some { d with rows := d.rows.filter fun row => row.fpHash ≠ fpHash }

/-! ## Fingerprints and outcomes -/

/-- `canonical_fingerprint` and `legacy_fingerprint` of a payload and an accept. -/
structure Fingerprints where
  canonical : Json → Json → Except PyError PyStr
  legacy : Json → Json → Except PyError PyStr

/-- `_sanitize_outcome`, `_encode_outcome` and `_decode_outcome`. -/
structure Outcomes where
  sanitize : Outcome → Except PyError Outcome
  encode : Outcome → Except PyError PyStr
  decode : PyStr → Except PyError (Option Outcome)

/-- SHA-256 of the fingerprint, in hexadecimal. -/
def durableHash (fp : PyStr) : Except PyError Bytes :=
  (asciiEncode fp).map fun b => hex (Sha256.sha256 b)

def scopeHash (scope : Option PyStr) : Except PyError (Option Bytes) :=
  match scope with
  | none => .ok none
  | some scope =>
      (utf8Encode ("replay-scope-v1:" ++ scope : PyStr)).map fun b =>
        some (hex (Sha256.sha256 b))

/-- `x in (True, None)`: equality with `True` is numeric. -/
def trueOrNone : Json → Bool
  | .null => true
  | .bool b => b
  | .int n => n == 1
  | .float x => x.bits == 0x3FF0000000000000
  | _ => false

/-- The constants of a success-only billing. -/
def successOnly (billing : Dict) : Bool :=
  (billing.get "model").eqStr "success_only_v1" &&
    (billing.get "condition").eqStr "live_eligible_route_found" &&
    (billing.get "asset").eqStr "USDC" &&
    (billing.get "amount_atomic").eqStr "3000" &&
    (billing.get "display_amount").eqStr "$0.003"

/-- The state that the flags of a billing name. -/
def flaggedState (code : ℤ) (body billing : Dict) : Option LedgerState :=
  let attempted := billing.get "settlement_attempted"
  let settled := billing.get "settled"
  let state := billing.get "settlement_state"
  let notLive := (body.get "live").isFalse
  if state.eqStr "settled" && attempted.isTrue && settled.isTrue then some .settled
  else if state.eqStr "not_attempted" && attempted.isFalse && settled.isFalse &&
      code == 503 && notLive then some .notSettled
  else if state.eqStr "rejected" && attempted.isBool && settled.isFalse &&
      code == 402 then some .rejected
  else if state.eqStr "unknown" && trueOrNone attempted && settled.isNull &&
      code == 503 then some .unknown
  else if attempted.isBool && settled.isBool then
    if settled.isTrue && attempted.isTrue then some .settled
    else if !settled.isTrue && !attempted.isTrue && code == 503 && notLive then some .notSettled
    else none
  else none

/-- Read a valid success-only outcome state; legacy rows return `None`.  A rail that
cannot be looked up raises. -/
def explicitOutcomeState (result : Outcome) : Except PyError (Option LedgerState) :=
  if result.code ≠ 200 ∧ result.code ≠ 503 then .ok none
  else
    match result.body.asObj? with
    | none => .ok none
    | some body =>
        match (body.get "billing").asObj? with
        | none => .ok none
        | some billing =>
            if !successOnly billing then .ok none
            else (supportedRail (billing.get "rail")).map fun rail =>
              rail.bind fun _ => flaggedState result.code body billing

/-! ## Operations -/

/-- A call out of the two modules. -/
inductive Call
  | extractPaymentPayload
  | algorandSender
  | matchAccept (parsed : Json) (resourceUrl : PyStr)
  | inboundMatchError (parsed : Json)
  | paymentDeadline (accept : Json)
  | monotonic
  | railOfAccept (accept : Json)
  | requiredPair (resourceUrl : PyStr) (error : Option PyStr)
  | verify (parsed accept : Json)
  | runProbe (body : Json)
  | billableGate (body result : Json)
  | buildBinding (result body : Json)
  | evidenceFromRoute (result body : Json)
  | settle (parsed accept : Json)
  | sanitizeSettlementReceipt (receipt : Json)
  | paymentResponseHeader (receipt : Json)
  | markBatchSettled
  | attachPqTrust (code : ℤ) (result : Json)
  | logSettle
  | logSettleSkipped

/-- What a call returns. -/
abbrev Call.Res : Call → Type
  | .extractPaymentPayload => Option Json
  | .algorandSender => Option PyStr
  | .matchAccept .. => Option Json
  | .inboundMatchError _ => PyStr
  | .paymentDeadline _ => ℚ
  | .monotonic => ℚ
  | .railOfAccept _ => PyStr
  | .requiredPair .. => Dict × Dict
  | .verify .. => Bool
  | .runProbe _ => ℤ × Json
  | .billableGate .. => Bool
  | .buildBinding .. => Json
  | .evidenceFromRoute .. => Unit
  | .settle .. => Settlement
  | .sanitizeSettlementReceipt _ => Option Json
  | .paymentResponseHeader _ => Json
  | .markBatchSettled => Unit
  | .attachPqTrust .. => Json
  | .logSettle => Unit
  | .logSettleSkipped => Unit

variable {Tid : Type}

/-- The atomic operations; an in-flight entry is named by the thread that made
it. -/
inductive Op (Tid : Type)
  | acquire
  | release
  | completedGet (fp : PyStr)
  | completedPut (fp : PyStr) (scopeHash : Option Bytes) (result : Outcome)
  | inflightGet (fp : PyStr)
  | inflightPut (fp : PyStr) (scopeHash : Option Bytes)
  | inflightPop (fp : PyStr) (result : Outcome)
  | wait (entry : Tid)
  | selectRow (fpHash : Bytes)
  | selectLegacy
  | selectCutoverAck
  | insertPending (fpHash : Bytes) (scopeHash : Option Bytes)
  | updateOutcome (fpHash : Bytes) (state : LedgerState) (outcomeJson : PyStr)
  | deleteRow (fpHash : Bytes)
  | commit
  | rollback
  | call (c : Call)

/-- What an operation returns; `Except` where the source may see an exception. -/
abbrev Op.Res : Op Tid → Type
  | .acquire => Unit
  | .release => Unit
  | .completedGet _ => Option (Option Bytes × Outcome)
  | .completedPut .. => Unit
  | .inflightGet _ => Option (Tid × Option Bytes)
  | .inflightPut .. => Unit
  | .inflightPop .. => Option (Option Bytes)
  | .wait _ => Option Outcome
  | .selectRow _ => Except PyError (Option Row)
  | .selectLegacy => Except PyError Bool
  | .selectCutoverAck => Except PyError Bool
  | .insertPending .. => Sqlite.Written
  | .updateOutcome .. => Sqlite.Written
  | .deleteRow _ => Sqlite.Written
  | .commit => Bool
  | .rollback => Unit
  | .call c => Except PyError c.Res

/-- The signature of the two modules. -/
abbrev sig (Tid : Type) : Sig := ⟨Op Tid, Op.Res⟩

/-- Code of the two modules: it may raise. -/
abbrev Code (Tid : Type) := ExceptT PyError (Prog (sig Tid))

/-- An operation of the modules themselves. -/
def perform (o : Op Tid) : Code Tid o.Res := ExceptT.lift (Prog.op (S := sig Tid) o)

/-- A call out of them. -/
def invoke (c : Call) : Code Tid c.Res := ExceptT.mk (Prog.op (S := sig Tid) (.call c))

/-- `with _lock: body`. -/
def withLock {α : Type} (body : Code Tid α) : Code Tid α :=
  ExceptT.mk do
    let _ ← Prog.op (S := sig Tid) .acquire
    let r ← body.run
    let _ ← Prog.op (S := sig Tid) .release
    return r

/-! ## The ledger -/

/-- What `_ledger_lookup` answers. -/
inductive Lookup
  | missing
  | cached (result : Outcome)
  | reject

variable (oc : Outcomes)

/-- The outcome of a row in state `unknown`, where its billing says the same. -/
def unknownReplay (state : LedgerState) (outcome : PyStr) : Except PyError (Option Outcome) :=
  if state = .unknown ∧ outcome ≠ [] then
    (oc.decode outcome).bind fun decoded =>
      match decoded with
      | none => .ok none
      | some result => (explicitOutcomeState result).map fun explicit =>
          if explicit = some .unknown then some result else none
  else .ok none

/-- The outcome of a row in a terminal state. -/
def terminalReplay (state : LedgerState) (outcome : PyStr) : Except PyError Lookup :=
  if !state.isTerminal then .ok .reject
  else if outcome ≠ [] then
    (oc.decode outcome).map fun decoded =>
      match decoded with
      | some result => .cached result
      | none => .reject
  else .ok .reject

/-- A stored row, seen by a request of a scope. -/
def readRow (row : Row) (scopeHash : Option Bytes) (enforceScope : Bool) :
    Except PyError Lookup :=
  let version := if row.fingerprintVersion = 0 then 1 else row.fingerprintVersion
  let outcome := row.outcomeJson.getD []
  if enforceScope && version ≥ fingerprintVersion && row.scopeHash ≠ scopeHash then .ok .reject
  else
    (unknownReplay oc row.state outcome).bind fun replayed =>
      match replayed with
      | some result => .ok (.cached result)
      | none => terminalReplay oc row.state outcome

def ledgerLookup (fpHash : Bytes) (scopeHash : Option Bytes) (enforceScope : Bool) :
    Code Tid Lookup := do
  match ← perform (.selectRow fpHash) with
  | .error _ => return .reject
  | .ok none => return .missing
  | .ok (some row) => MonadExcept.ofExcept (readRow oc row scopeHash enforceScope)

def identityCutoverReady : Code Tid (Except PyError Bool) := do
  match ← perform .selectLegacy with
  | .error e => return .error e
  | .ok false => return .ok true
  | .ok true => perform .selectCutoverAck

/-- `true` is `run`, `false` is `reject`. -/
def ledgerReserve (fpHash : Bytes) (scopeHash : Option Bytes) : Code Tid Bool := do
  match ← identityCutoverReady with
  | .error _ => return false
  | .ok false => return false
  | .ok true =>
      match ← perform (.insertPending fpHash scopeHash) with
      | .constraint =>
          perform .rollback
          return false
      | .failed => return false
      | .done => perform .commit

/-- The state recorded for an outcome. -/
def recordedState (result : Outcome) : Except PyError LedgerState :=
  (explicitOutcomeState result).map fun explicit => explicit.getD
    (if result.code = 200 ∨ result.code = 503 then .settled else .rejected)

/-- The state and the text that a row gets for an outcome. -/
def rowValues (oc : Outcomes) (result : Outcome) : Except PyError (LedgerState × PyStr) :=
  (recordedState result).bind fun state => (oc.encode result).map fun json => (state, json)

/-- The exceptions that `_ledger_finish` swallows. -/
def ledgerCatches (e : PyError) : Bool :=
  e.cls.isA .osError || e.cls.isA .typeError || e.cls.isA .valueError

/-- The commit after a statement that went through. -/
def commitWritten : Sqlite.Written → Code Tid Unit
  | .done => do
      let _ ← perform .commit
  | .constraint => pure ()
  | .failed => pure ()

def ledgerFinish (fpHash : Bytes) (result : Outcome) (cache : Bool) : Code Tid Unit := do
  if cache then
    match rowValues oc result with
    | .error e => if ledgerCatches e then pure () else throw e
    | .ok (state, json) =>
        let w ← perform (.updateOutcome fpHash state json)
        commitWritten w
  else
    let w ← perform (.deleteRow fpHash)
    commitWritten w

/-! ## Claiming and finishing -/

/-- What `begin` answers. -/
inductive Begin (Tid : Type)
  | run
  | cached (result : Outcome)
  | wait (entry : Tid)
  | reject

/-- The lookup of the legacy fingerprint, where there is another one. -/
def legacyLookup (fp : PyStr) (legacyFp : Option PyStr) : Code Tid Lookup :=
  match legacyFp with
  | none => pure .missing
  | some legacyFp =>
      if legacyFp = [] ∨ legacyFp = fp then pure .missing
      else do
        let legacyHash ← MonadExcept.ofExcept (durableHash legacyFp)
        ledgerLookup oc legacyHash none false

/-- The ledger part of `begin`. -/
def claim (fp : PyStr) (legacyFp : Option PyStr) (fpHash : Bytes) (scopeHash : Option Bytes) :
    Code Tid (Begin Tid) := do
  match ← ledgerLookup oc fpHash scopeHash true with
  | .cached result => return .cached result
  | .reject => return .reject
  | .missing =>
      match ← legacyLookup oc fp legacyFp with
      | .cached result => return .cached result
      | .reject => return .reject
      | .missing =>
          if ← ledgerReserve fpHash scopeHash then
            perform (.inflightPut fp scopeHash)
            return .run
          else return .reject

def begin (fp : PyStr) (legacyFp : Option PyStr) (scope : Option PyStr) :
    Code Tid (Begin Tid) := do
  let fpHash ← MonadExcept.ofExcept (durableHash fp)
  let scopeHash ← MonadExcept.ofExcept (scopeHash scope)
  withLock do
    match ← perform (.completedGet fp) with
    | some (storedScope, result) =>
        if storedScope ≠ scopeHash then return .reject else return .cached result
    | none =>
        match ← perform (.inflightGet fp) with
        | some (entry, storedScope) =>
            if storedScope ≠ scopeHash then return .reject else return .wait entry
        | none => claim oc fp legacyFp fpHash scopeHash

def finish (fp : PyStr) (result : Outcome) (cache : Bool) : Code Tid Unit := do
  let fpHash ← MonadExcept.ofExcept (durableHash fp)
  let safeResult ← MonadExcept.ofExcept (oc.sanitize result)
  withLock do
    let entryScope ← perform (.inflightPop fp safeResult)
    if cache then perform (.completedPut fp entryScope.join safeResult)
    ledgerFinish oc fpHash safeResult cache

/-! ## The route -/

/-- `_paid_execute`'s calls, each a step. -/
def stepCalls : Calls (Code Tid) where
  monotonic := invoke .monotonic
  railOfAccept accept := invoke (.railOfAccept accept)
  requiredPair resourceUrl error _ := invoke (.requiredPair resourceUrl (some error))
  verify parsed accept _ := invoke (.verify parsed accept)
  runProbe body _ := invoke (.runProbe body)
  billableGate body result := invoke (.billableGate body result)
  buildBinding result body := invoke (.buildBinding result body)
  evidenceFromRoute result body := invoke (.evidenceFromRoute result body)
  settle parsed accept _ := invoke (.settle parsed accept)
  sanitizeSettlementReceipt receipt _ := invoke (.sanitizeSettlementReceipt receipt)
  paymentResponseHeader receipt := invoke (.paymentResponseHeader receipt)
  markBatchSettled _ := invoke .markBatchSettled
  attachPqTrust code result _ := invoke (.attachPqTrust code result)
  logSettle _ _ := invoke .logSettle
  logSettleSkipped _ := invoke .logSettleSkipped

/-- A request to the route. -/
structure Request where
  body : Json
  resourceUrl : PyStr
  bazaar : Option Json

/-- A 402 that asks for a payment. -/
def paymentRequired (resourceUrl : PyStr) (error : Option PyStr) : Code Tid Outcome := do
  let (required, extra) ← invoke (.requiredPair resourceUrl error)
  return ⟨402, .obj required, some extra⟩

def unknownFor (accept : Json) : Code Tid Outcome := do
  let rail ← invoke (.railOfAccept accept)
  return unknownOutcome rail none

/-- The owner of a payment executes it and finishes the claim.  A 400 is the only
outcome that is not kept. -/
def executeClaimed (req : Request) (fp : PyStr) (parsed accept : Json) (paidDeadline : ℚ) :
    Code Tid Outcome :=
  tryCatch
    (do
      let out ← paidExecute stepCalls req.body parsed accept req.resourceUrl req.bazaar
        paidDeadline
      finish oc fp out (out.code != 400)
      return out)
    fun _ => do
      let out ← unknownFor accept
      finish oc fp out true
      return out

/-- A paid request, from its claim on. -/
def handleClaim (req : Request) (fp legacyFp : PyStr) (parsed accept : Json)
    (paidDeadline : ℚ) : Code Tid Outcome := do
  match ← begin oc fp (some legacyFp) (some req.resourceUrl) with
  | .cached result => return result
  | .reject => unknownFor accept
  | .wait entry =>
      match ← perform (.wait entry) with
      | some result => return result
      | none => unknownFor accept
  | .run => executeClaimed oc req fp parsed accept paidDeadline

def handleRoute (fps : Fingerprints) (req : Request) : Code Tid Outcome := do
  let parsed ← invoke .extractPaymentPayload
  let _ ← invoke .algorandSender
  match parsed with
  | none => paymentRequired req.resourceUrl none
  | some parsed =>
      match ← invoke (.matchAccept parsed req.resourceUrl) with
      | none =>
          let error ← invoke (.inboundMatchError parsed)
          paymentRequired req.resourceUrl (some error)
      | some accept =>
          let paidDeadline ← invoke (.paymentDeadline accept)
          let named := do
            let fp ← fps.canonical parsed accept
            let legacyFp ← fps.legacy parsed accept
            return (fp, legacyFp)
          match named with
          | .error e =>
              if e.cls.isA .typeError || e.cls.isA .valueError then
                paymentRequired req.resourceUrl (some "Payment verification failed")
              else throw e
          | .ok (fp, legacyFp) => handleClaim oc req fp legacyFp parsed accept paidDeadline

/-! ## Processes and the shared file -/

/-- The memory of one process. -/
structure Memory (Tid : Type) where
  lock : Option Tid := none
  completed : PyStr → Option (Option Bytes × Outcome) := fun _ => none
  inflight : PyStr → Option (Tid × Option Bytes) := fun _ => none

/-- An in-flight entry: its result, and whether its event is set. -/
structure Entry where
  result : Option Outcome := none
  event : Bool := false

/-- What a run is judged by: the settlements that were called for, and the
deletions of rows that were asked for. -/
inductive Event (Tid : Type)
  | settle (t : Tid) (parsed accept : Json)
  | deleted (t : Tid) (fpHash : Bytes)

/-- The ledger file with the connection of each process, the memory of each
process, the in-flight entries, and the events so far, the latest first. -/
structure World (Tid Pid : Type) where
  db : Sqlite.Db Ledger Pid
  memory : Pid → Memory Tid
  entries : Tid → Entry
  events : List (Event Tid)

section World

variable {Pid : Type} [DecidableEq Tid] [DecidableEq Pid] (pid : Tid → Pid)

/-- Change the memory of one process. -/
def World.setMemory (w : World Tid Pid) (q : Pid) (m : Memory Tid) : World Tid Pid :=
  { w with memory := Function.update w.memory q m }

omit [DecidableEq Tid] in
@[simp] theorem World.setMemory_self (w : World Tid Pid) (q : Pid) (m : Memory Tid) :
    (w.setMemory q m).memory q = m := Function.update_self ..

omit [DecidableEq Tid] in
theorem World.setMemory_ne (w : World Tid Pid) {q q' : Pid} (h : q' ≠ q) (m : Memory Tid) :
    (w.setMemory q m).memory q' = w.memory q' := Function.update_of_ne h ..

omit [DecidableEq Tid] in
theorem World.setMemory_lock (w : World Tid Pid) {q : Pid} {m : Memory Tid}
    (hlock : m.lock = (w.memory q).lock) (q' : Pid) :
    ((w.setMemory q m).memory q').lock = (w.memory q').lock := by
  by_cases hq : q' = q
  · rw [hq, World.setMemory_self, hlock]
  · rw [World.setMemory_ne _ hq]

/-- A `SELECT` of thread `t`: it may fail. -/
def select {A : Type} (w : World Tid Pid) (t : Tid) (f : Ledger → A) (r : Except PyError A)
    (w' : World Tid Pid) : Prop :=
  (∃ a db, Sqlite.Read f (pid t) w.db a db ∧ r = .ok a ∧ w' = { w with db := db }) ∨
    ((∃ e, r = .error e) ∧ w' = w)

/-- What an operation of thread `t` does. -/
def exec (w : World Tid Pid) (t : Tid) : (o : Op Tid) → o.Res → World Tid Pid → Prop
  | .acquire, _, w' =>
      (w.memory (pid t)).lock = none ∧
        w' = w.setMemory (pid t) { w.memory (pid t) with lock := some t }
  | .release, _, w' => w' = w.setMemory (pid t) { w.memory (pid t) with lock := none }
  | .completedGet fp, r, w' => w' = w ∧ r = (w.memory (pid t)).completed fp
  | .completedPut fp scopeHash result, _, w' =>
      w' = w.setMemory (pid t) { w.memory (pid t) with
        completed := Function.update (w.memory (pid t)).completed fp
          (some (scopeHash, result)) }
  | .inflightGet fp, r, w' => w' = w ∧ r = (w.memory (pid t)).inflight fp
  | .inflightPut fp scopeHash, _, w' =>
      w' = { w.setMemory (pid t) { w.memory (pid t) with
          inflight := Function.update (w.memory (pid t)).inflight fp (some (t, scopeHash)) } with
        entries := Function.update w.entries t {} }
  | .inflightPop fp result, r, w' =>
      r = ((w.memory (pid t)).inflight fp).map (·.2) ∧
        w' = { w.setMemory (pid t) { w.memory (pid t) with
            inflight := Function.update (w.memory (pid t)).inflight fp none } with
          entries :=
            match (w.memory (pid t)).inflight fp with
            | none => w.entries
            | some (entry, _) => Function.update w.entries entry ⟨some result, true⟩ }
  -- a wait ends when the event is set or at the deadline, with the result there is
  | .wait entry, r, w' => w' = w ∧ r = (w.entries entry).result
  | .selectRow fpHash, r, w' => select pid w t (fun d => d.find fpHash) r w'
  | .selectLegacy, r, w' => select pid w t Ledger.hasLegacy r w'
  | .selectCutoverAck, r, w' => select pid w t (fun d => d.cutoverAck) r w'
  | .insertPending fpHash scopeHash, r, w' =>
      ∃ db, Sqlite.Write (insertPending fpHash scopeHash) (pid t) w.db r db ∧
        w' = { w with db := db }
  | .updateOutcome fpHash state outcomeJson, r, w' =>
      ∃ db, Sqlite.Write (updateOutcome fpHash state outcomeJson) (pid t) w.db r db ∧
        w' = { w with db := db }
  | .deleteRow fpHash, r, w' =>
      ∃ db, Sqlite.Write (deleteRow fpHash) (pid t) w.db r db ∧
        w' = { w with db := db, events := .deleted t fpHash :: w.events }
  | .commit, r, w' => ∃ db, Sqlite.Commit (pid t) w.db r db ∧ w' = { w with db := db }
  | .rollback, _, w' => ∃ db, Sqlite.Rollback (pid t) w.db db ∧ w' = { w with db := db }
  | .call c, _, w' =>
      match c with
      | .settle parsed accept =>
          w' = { w with events := .settle t parsed accept :: w.events }
      | _ => w' = w

/-- A crash of a process: its memory is gone, and so is what it had not
committed. -/
def crash (w : World Tid Pid) (q : Pid) (w' : World Tid Pid) : Prop :=
  w' = { w.setMemory q {} with db := w.db.setConn q .idle }

/-- A completed entry expires. -/
def expire (w w' : World Tid Pid) : Prop :=
  ∃ q fp, w' = w.setMemory q { w.memory q with
    completed := Function.update (w.memory q).completed fp none }

/-- Any number of processes and threads on one ledger file. -/
def system (ledger : Ledger) : System (sig Tid) where
  World := World Tid Pid
  Tid := Tid
  Pid := Pid
  pid := pid
  init := ⟨⟨ledger, fun _ => .idle⟩, fun _ => {}, fun _ => {}, []⟩
  exec := exec pid
  crash := crash
  env := expire

instance (ledger : Ledger) : DecidableEq (system pid ledger).Tid :=
  inferInstanceAs (DecidableEq Tid)

instance (ledger : Ledger) : DecidableEq (system pid ledger).Pid :=
  inferInstanceAs (DecidableEq Pid)

end World

end Signal402.Replay
