import Signal402.Lib.Concurrent
import Signal402.Lib.Sqlite
import Signal402.Pq.AnchorStore

/-!
# The canary and the automatic sender (`canary.py`)

The functions as programs over atomic operations: one for each read of the
anchor tables, each transaction on them, the transport `post`, and each call
that leaves the modules.  A transaction may also fail, before or after it took
effect (`Sqlite.Transact`).  Calls return anything of their type, or raise.

The rows are shared by any number of threads in any number of processes; the
lock of one process only removes interleavings and is left out.  The confirmed
side (`last_confirmed_checkpoint`, `save_confirmed_checkpoint`) is reached by
calls, and the test hooks `crash_before_post` and `crash_after_send` are off: a
thread may die at any step instead.
-/

namespace Signal402.Canary

open AnchorStore Concurrent

/-! ## Operations -/

/-- A checkpoint to anchor. -/
structure Identity where
  treeSize : ℤ
  origin : PyStr
  root : PyStr
  checkpoint : PyStr

/-- What the signer returned, after its verification. -/
structure SignedReply where
  signed : Bytes
  feePolicy : PyStr
  fv : ℤ
  lv : ℤ

/-- The fields of a confirmed checkpoint. -/
structure Confirmed where
  size : ℤ
  root : PyStr
  txid : PyStr

/-- A call out of the modules. -/
inductive Call
  | humanGates
  | automaticGates
  | accountBalance
  | rejectUnsendablePolicy (row : AuthorizedRow) (now : ℤ)
  | snapshotFresh (row : AuthorizedRow) (now : ℤ)
  | policyParams (row : AuthorizedRow)
  | canonicalFee (row : AuthorizedRow)
  | signedTxnTxid (signed : Bytes)
  | fetchConfirmedTxn (txid : PyStr)
  | verifyFetchedAnchor (row : AuthorizedRow)
  | lastConfirmedCheckpoint
  | saveConfirmedCheckpoint (row : AuthorizedRow) (txid : PyStr) (now : ℤ)
  | automationCheckpointIdentity (ident : Identity)
  | requestSigned (ident : Identity) (requestId params : PyStr) (now : ℤ)
  | logSize
  | configurationGate
  | automaticEnabled
  | tickLock
  | automationObserve (current confirmed now : ℤ)
  | retryReady (scope : String) (n : ℤ)
  | confirmationPathVerified
  | currentCheckpointIdentity
  | trustedParams
  | draftFee (ident : Identity) (params : PyStr)
  | freshRequestId

/-- What a call returns. -/
abbrev Call.Res : Call → Type
  | .humanGates => Unit
  | .automaticGates => Unit
  | .accountBalance => ℤ
  | .rejectUnsendablePolicy .. => Unit
  | .snapshotFresh .. => Unit
  | .policyParams _ => Unit
  | .canonicalFee _ => ℤ
  | .signedTxnTxid _ => PyStr
  | .fetchConfirmedTxn _ => Bool
  | .verifyFetchedAnchor _ => PyStr
  | .lastConfirmedCheckpoint => Confirmed
  | .saveConfirmedCheckpoint .. => Confirmed
  | .automationCheckpointIdentity _ => Unit
  | .requestSigned .. => SignedReply
  | .logSize => ℤ
  | .configurationGate => Unit
  | .automaticEnabled => Bool
  | .tickLock => Bool
  | .automationObserve .. => ℤ
  | .retryReady .. => Bool
  | .confirmationPathVerified => Bool
  | .currentCheckpointIdentity => Identity
  | .trustedParams => PyStr
  | .draftFee .. => ℤ
  | .freshRequestId => PyStr

/-- The atomic operations. -/
inductive Op
  | authorizedRow (n : ℤ)
  | lastAuthorizedRow
  | automationJobRow (n : ℤ)
  | lastAutomationJob
  | budgetUsage (b : Budget)
  | updateAuthorized (existing : AuthorizedRow) (a : SaveArgs)
  | insertAuthorized (existing : Option AuthorizedRow) (a : SaveArgs)
  | createAutomationJob (job : Job)
  | setAutomationJobStatus (n : ℤ) (status : JobStatus) (now : ℤ)
  | recordAutomationSignAttempt (n now : ℤ)
  | beginAutomationResign (n : ℤ) (requestId params : PyStr) (authorizeAt : ℤ)
  | reserveAutomaticSend (n : ℤ) (expected : PyStr) (fee now : ℤ) (b : Budget)
  | setAutomaticSendStatus (n : ℤ) (status : SendStatus) (now : ℤ)
  | post (n : ℤ) (signed : Bytes)
  | call (c : Call)

/-- What `automatic_budget_usage` returns. -/
structure Usage where
  hourlyCount : ℤ
  dailyFee : ℤ
  monthlyFee : ℤ

/-- What an operation returns, or the exception it raises. -/
abbrev Op.Res : Op → Type
  | .authorizedRow _ => Except PyError (Option AuthorizedRow)
  | .lastAuthorizedRow => Except PyError (Option AuthorizedRow)
  | .automationJobRow _ => Except PyError (Option Job)
  | .lastAutomationJob => Except PyError (Option Job)
  | .budgetUsage _ => Except PyError Usage
  | .updateAuthorized .. => Except PyError Unit
  | .insertAuthorized .. => Except PyError Unit
  | .createAutomationJob _ => Except PyError Unit
  | .setAutomationJobStatus .. => Except PyError Unit
  | .recordAutomationSignAttempt .. => Except PyError Unit
  | .beginAutomationResign .. => Except PyError Unit
  | .reserveAutomaticSend .. => Except PyError Unit
  | .setAutomaticSendStatus .. => Except PyError Unit
  | .post .. => Except PyError (Option PyStr)
  | .call c => Except PyError c.Res

abbrev sig : Sig := ⟨Op, Op.Res⟩

/-- Code of the modules: it may raise. -/
abbrev Code := ExceptT PyError (Prog sig)

def authorizedAt (n : ℤ) : Code (Option AuthorizedRow) :=
  ExceptT.mk (Prog.op (S := sig) (.authorizedRow n))

def lastAuthorizedCheckpoint : Code (Option AuthorizedRow) :=
  ExceptT.mk (Prog.op (S := sig) .lastAuthorizedRow)

def automationJobAt (n : ℤ) : Code (Option Job) :=
  ExceptT.mk (Prog.op (S := sig) (.automationJobRow n))

def lastAutomationJob : Code (Option Job) := ExceptT.mk (Prog.op (S := sig) .lastAutomationJob)

def automaticBudgetUsage (b : Budget) : Code Usage :=
  ExceptT.mk (Prog.op (S := sig) (.budgetUsage b))

/-- The transport POST of signed bytes, with the checks before it. -/
def submitMainnet (n : ℤ) (signed : Bytes) : Code (Option PyStr) :=
  ExceptT.mk (Prog.op (S := sig) (.post n signed))

/-- A call out of the modules. -/
def invoke (c : Call) : Code c.Res := ExceptT.mk (Prog.op (S := sig) (.call c))

/-! ## Store functions -/

/-- Persist a row.  The same checkpoint is idempotent; a different one is refused. -/
def saveAuthorizedCheckpoint (a : SaveArgs) : Code AuthorizedRow := do
  let _ ← MonadExcept.ofExcept (sendStateRank a.sendState)
  let row ← authorizedAt a.treeSize
  match row.filter fun row => row.signed ≠ [] with
  | some existing =>
      if ← MonadExcept.ofExcept (saveCheck existing a) then
        ExceptT.mk (Prog.op (S := sig) (.updateAuthorized existing a))
        return (← authorizedAt a.treeSize).getD existing
      else return existing
  | none =>
      ExceptT.mk (Prog.op (S := sig) (.insertAuthorized row a))
      return (← authorizedAt a.treeSize).getD (newRow a)

/-- The job that a function of the jobs table leaves. -/
def thenJob (o : Code Unit) (n : ℤ) : Code (Option Job) := do
  o
  automationJobAt n

def createAutomationJob (job : Job) : Code (Option Job) :=
  thenJob (ExceptT.mk (Prog.op (S := sig) (.createAutomationJob job))) job.treeSize

def setAutomationJobStatus (n : ℤ) (status : JobStatus) (now : ℤ) : Code (Option Job) :=
  thenJob (ExceptT.mk (Prog.op (S := sig) (.setAutomationJobStatus n status now))) n

def recordAutomationSignAttempt (n now : ℤ) : Code (Option Job) :=
  thenJob (ExceptT.mk (Prog.op (S := sig) (.recordAutomationSignAttempt n now))) n

def beginAutomationResign (n : ℤ) (requestId params : PyStr) (authorizeAt : ℤ) :
    Code (Option Job) :=
  thenJob (ExceptT.mk (Prog.op (S := sig) (.beginAutomationResign n requestId params
    authorizeAt))) n

def reserveAutomaticSend (n : ℤ) (expected : PyStr) (fee now : ℤ) (b : Budget) :
    Code (Option AuthorizedRow) := do
  ExceptT.mk (Prog.op (S := sig) (.reserveAutomaticSend n expected fee now b))
  authorizedAt n

def setAutomaticSendStatus (n : ℤ) (status : SendStatus) (now : ℤ) : Code Unit :=
  ExceptT.mk (Prog.op (S := sig) (.setAutomaticSendStatus n status now))

/-! ## Marks on the authorized row -/

def canaryError {A : Type} (msg : String) : Code A := throw ⟨.canaryError, msg⟩

def securityError {A : Type} (msg : String) : Code A := throw ⟨.canarySecurityError, msg⟩

/-- `_looks_like_txid`. -/
def looksLikeTxid (txid : PyStr) : Bool :=
  let text := txid.strip
  !text.lower.hasInfix "placeholder" && text.length == 52 &&
    text.all fun c => (65 ≤ c.val && c.val ≤ 90) || (50 ≤ c.val && c.val ≤ 55)

def sendStateOf (row : AuthorizedRow) : SendState :=
  if row.sendState ≠ .empty then row.sendState
  else if row.submitted && looksLikeTxid row.txid then .submitted
  else if row.signed ≠ [] then .authorized
  else .empty

/-- The arguments that save a row as it is. -/
def resave (row : AuthorizedRow) : SaveArgs where
  treeSize := row.treeSize
  origin := row.origin
  root := row.root
  checkpoint := row.checkpoint
  requestId := row.requestId
  signed := row.signed
  at' := row.at'
  feePolicy := row.feePolicy
  fv := row.fv
  lv := row.lv

/-- Persist expected txid and `SEND_ATTEMPTED` before the irreversible POST. -/
def markSendAttempted (row : AuthorizedRow) (now : ℤ) : Code AuthorizedRow := do
  if row.signed = [] then canaryError "not a signed pq1 txn"
  let expected := row.expectedTxid.strip
  let expected ← if expected = [] then invoke (.signedTxnTxid row.signed) else pure expected
  saveAuthorizedCheckpoint { resave row with
    at' := if row.at' = 0 then now else row.at'
    sendState := .sendAttempted
    expectedTxid := expected.strip
    sendAttemptedAt := now }

def markSubmitted (row : AuthorizedRow) (txid : PyStr) : Code AuthorizedRow := do
  let expected := row.expectedTxid.strip
  let text := txid.strip
  if expected = [] ∨ text ≠ expected then securityError "provider txid mismatch"
  saveAuthorizedCheckpoint { resave row with
    submitted := true
    txid := text
    sendState := .submitted
    expectedTxid := expected
    sendAttemptedAt := row.sendAttemptedAt }

def validityWindowS : ℤ := 3600

/-- When the send was attempted, or the row written. -/
def attemptedAt (row : AuthorizedRow) : ℤ :=
  if row.sendAttemptedAt = 0 then row.at' else row.sendAttemptedAt

/-- After `SEND_ATTEMPTED`: look up the expected txid.  Never POST. -/
def pollExpected (row : AuthorizedRow) (now : ℤ) : Code (Option Confirmed) := do
  let expected := row.expectedTxid.strip
  if expected = [] then return none
  if !(← invoke (.fetchConfirmedTxn expected)) then
    if attemptedAt row ≠ 0 ∧ validityWindowS < now - attemptedAt row then
      canaryError "validity window expired; operator review"
    return none
  let txid ← invoke (.verifyFetchedAnchor row)
  if txid ≠ expected then securityError "provider txid mismatch"
  let _ ← saveAuthorizedCheckpoint { resave row with
    at' := if row.at' = 0 then now else row.at'
    submitted := true
    txid := expected
    sendState := .confirmed
    expectedTxid := expected
    sendAttemptedAt := row.sendAttemptedAt }
  some <$> invoke (.saveConfirmedCheckpoint row txid now)

/-! ## Sending -/

/-- What a send returns: the confirmed checkpoint, or the row so far. -/
inductive SendResult
  | confirmed (c : Confirmed)
  | pending (row : AuthorizedRow)

/-- After the POST was answered: record it, and poll once. -/
def recordSubmitted (attempted : AuthorizedRow) (txid : PyStr) (now : ℤ)
    (onSubmitted onConfirmed : Code Unit) : Code SendResult := do
  let submitted ← markSubmitted attempted txid
  onSubmitted
  match ← pollExpected submitted now with
  | some confirmed =>
      onConfirmed
      return .confirmed confirmed
  | none => return .pending submitted

/-- The state of a row that the sender already latched: poll only. -/
def pollLatched (row : AuthorizedRow) (now : ℤ) (waiting : String) : Code SendResult := do
  match ← pollExpected row now with
  | some confirmed => return .confirmed confirmed
  | none => canaryError waiting

/-- The send of a row that is not latched: mark it, then one POST. -/
def sendUnlatched (row : AuthorizedRow) (authorizeHumanCanary : Bool) (now : ℤ) :
    Code SendResult := do
  if !authorizeHumanCanary then canaryError "canary not authorized"
  invoke .humanGates
  invoke (.rejectUnsendablePolicy row now)
  invoke (.policyParams row)
  let attempted ← markSendAttempted row now
  if attempted.signed = [] ∨ attempted.signed ≠ row.signed then
    securityError "stored blob mismatch"
  let txid ← tryCatch (submitMainnet row.treeSize attempted.signed) fun e =>
    if e.cls.isA .anchorError then canaryError "submit failed"
    else canaryError "submit incomplete"
  if txid.getD [] ≠ attempted.expectedTxid then securityError "provider txid mismatch"
  recordSubmitted attempted (txid.getD []) now (pure ()) (pure ())

/-- One-shot send.  After `SEND_ATTEMPTED`, poll only. -/
def sendDurable (row : AuthorizedRow) (authorizeHumanCanary : Bool) (now : ℤ) :
    Code SendResult :=
  match sendStateOf row with
  | .confirmed => do return .confirmed (← invoke .lastConfirmedCheckpoint)
  | .sendAttempted => pollLatched row now "send attempted; polling expected txid"
  | .submitted => pollLatched row now "submitted but not confirmed"
  | .unknown _ => canaryError "cannot send from state"
  | .authorized => sendUnlatched row authorizeHumanCanary now
  | .sendIntent => sendUnlatched row authorizeHumanCanary now
  | .empty => sendUnlatched row authorizeHumanCanary now

def autoMaxFee : ℤ := 30000

def autoDailyFeeMax : ℤ := 500000

def autoMonthlyFeeMax : ℤ := 10000000

def autoHourlyAnchorMax : ℤ := 12

def autoBalanceHalt : ℤ := 1000000

def minFee : ℤ := 3000

def maxFee : ℤ := 30000

/-- The starts of the hour, the day and the month of a time. -/
structure BudgetWindows where
  hour : ℤ → ℤ
  day : ℤ → ℤ
  month : ℤ → ℤ

/-- The budget at a time. -/
def budgetAt (windows : BudgetWindows) (now : ℤ) : Budget where
  hourStart := windows.hour now
  dayStart := windows.day now
  monthStart := windows.month now
  hourlyMax := autoHourlyAnchorMax
  dailyMax := autoDailyFeeMax
  monthlyMax := autoMonthlyFeeMax

/-- The poll of a latched automatic send. -/
def pollAutomatic (row : AuthorizedRow) (now : ℤ) (waiting : String) : Code SendResult := do
  match ← pollExpected row now with
  | some confirmed =>
      setAutomaticSendStatus row.treeSize .confirmed now
      return .confirmed confirmed
  | none => canaryError waiting

/-- A row that is confirmed: its pointer may lag behind. -/
def repairConfirmed (row : AuthorizedRow) (now : ℤ) : Code SendResult := do
  let confirmed ← invoke .lastConfirmedCheckpoint
  let expected := (if row.expectedTxid = [] then row.txid else row.expectedTxid).strip
  if confirmed.size = row.treeSize ∧ confirmed.txid = expected ∧
      confirmed.root.strip.lower = row.root.strip.lower then
    setAutomaticSendStatus row.treeSize .confirmed now
    return .confirmed confirmed
  else pollAutomatic row now "automatic confirmation pointer awaiting repair"

/-- The one POST of a reservation, and what is recorded of it. -/
def postReserved (row attempted : AuthorizedRow) (expected : PyStr) (now : ℤ) :
    Code SendResult := do
  if attempted.signed = [] ∨ attempted.signed ≠ row.signed then
    securityError "stored blob mismatch"
  invoke (.policyParams attempted)
  let txid ← tryCatch (submitMainnet attempted.treeSize attempted.signed) fun _ =>
    canaryError "automatic submit incomplete"
  if txid.getD [] ≠ expected then securityError "provider txid mismatch"
  recordSubmitted attempted expected now (setAutomaticSendStatus row.treeSize .submitted now)
    (setAutomaticSendStatus row.treeSize .confirmed now)

/-- Reserve, then POST what the reservation returned. -/
def reserveAndPost (windows : BudgetWindows) (row : AuthorizedRow) (fee now : ℤ) :
    Code SendResult := do
  let expected ← invoke (.signedTxnTxid row.signed)
  match ← reserveAutomaticSend row.treeSize expected fee now (budgetAt windows now) with
  | none => securityError "stored blob mismatch"
  | some attempted => postReserved row attempted expected now

/-- The send of an authorized row, once its balance, policy and fee allow it. -/
def sendReserved (windows : BudgetWindows) (row : AuthorizedRow) (now : ℤ) :
    Code SendResult := do
  if (← invoke .accountBalance) < autoBalanceHalt then canaryError "automatic balance halt"
  invoke (.rejectUnsendablePolicy row now)
  let fee ← invoke (.canonicalFee row)
  if fee < minFee ∨ min autoMaxFee maxFee < fee then canaryError "automatic fee cap"
  reserveAndPost windows row fee now

/-- Automatic one-shot send with atomic budget reservation and send latch. -/
def sendAutomaticDurable (windows : BudgetWindows) (row : AuthorizedRow) (now : ℤ) :
    Code SendResult := do
  invoke .automaticGates
  match sendStateOf row with
  | .confirmed => repairConfirmed row now
  | .sendAttempted => pollAutomatic row now "automatic send latched; polling expected txid"
  | .submitted => pollAutomatic row now "automatic send latched; polling expected txid"
  | .authorized => sendReserved windows row now
  | _ => canaryError "automatic send requires AUTHORIZED"

/-! ## Authorizing -/

/-- Reuse fresh `AUTHORIZED`.  Stale `AUTHORIZED` requires explicit discard. -/
def existingAuthorizedUsable (existing : AuthorizedRow) (ident : Identity) (now : ℤ) :
    Code AuthorizedRow := do
  if existing.treeSize ≠ ident.treeSize ∨ existing.origin ≠ ident.origin ∨
      existing.root.strip.lower ≠ ident.root.strip.lower ∨
      existing.checkpoint ≠ ident.checkpoint then
    securityError "authorized record does not match"
  match sendStateOf existing with
  | .sendAttempted | .submitted | .confirmed => return existing
  | _ =>
      tryCatch (invoke (.snapshotFresh existing now)) fun e =>
        if e.cls.isA .anchorError then canaryError "stale authorized; explicit discard required"
        else throw e
      return existing

/-- The authorization of a frozen job: reuse its row, or sign and persist. -/
def authorize (ident : Identity) (requestId params : PyStr) (now : ℤ) :
    Code AuthorizedRow := do
  invoke (.automationCheckpointIdentity ident)
  match (← authorizedAt ident.treeSize).filter fun row => row.signed ≠ [] with
  | some existing => existingAuthorizedUsable existing ident now
  | none =>
      let reply ← invoke (.requestSigned ident requestId params now)
      saveAuthorizedCheckpoint
        { treeSize := ident.treeSize
          origin := ident.origin
          root := ident.root
          checkpoint := ident.checkpoint
          requestId := requestId
          signed := reply.signed
          at' := now
          sendState := .authorized
          feePolicy := reply.feePolicy
          fv := reply.fv
          lv := reply.lv }

/-! ## The shared store -/

/-- What a run is judged by: the POSTs, and what the saves did to their row. -/
inductive Event (Tid : Type)
  | posted (t : Tid) (n : ℤ) (signed : Bytes)
  | saved (t : Tid) (n : ℤ) (before after : Option AuthorizedRow)

/-- The store and the events so far, the latest first. -/
structure World (Tid : Type) where
  store : Store
  events : List (Event Tid)

variable {Tid : Type}

/-- A read: it may fail. -/
def select {A : Type} (w : World Tid) (a : A) (r : Except PyError A) (w' : World Tid) : Prop :=
  (r = .ok a ∨ ∃ e, r = .error e) ∧ w' = w

/-- A transaction. -/
def transact (w : World Tid) (f : Store → Except PyError (Unit × Store)) (r : Except PyError Unit)
    (w' : World Tid) : Prop :=
  ∃ s, Sqlite.Transact f w.store r s ∧ w' = { w with store := s }

/-- A save of an authorized row. -/
def save (w : World Tid) (t : Tid) (n : ℤ) (f : Store → Store) (r : Except PyError Unit)
    (w' : World Tid) : Prop :=
  ∃ s, Sqlite.Transact (fun s => .ok ((), f s)) w.store r s ∧
    w' = ⟨s, .saved t n (w.store.authorizedRow n) (s.authorizedRow n) :: w.events⟩

/-- What an operation of thread `t` does. -/
def exec (w : World Tid) (t : Tid) : (o : Op) → o.Res → World Tid → Prop
  | .authorizedRow n, r, w' => select w (w.store.authorizedRow n) r w'
  | .lastAuthorizedRow, r, w' => select w w.store.lastAuthorizedRow r w'
  | .automationJobRow n, r, w' => select w (w.store.automationJobRow n) r w'
  | .lastAutomationJob, r, w' => select w w.store.lastAutomationJob r w'
  | .budgetUsage b, r, w' =>
      select w ⟨w.store.sendCount b.hourStart, w.store.sendFees b.dayStart,
        w.store.sendFees b.monthStart⟩ r w'
  | .updateAuthorized existing a, r, w' =>
      save w t a.treeSize (AnchorStore.updateAuthorized existing a) r w'
  | .insertAuthorized _ a, r, w' => save w t a.treeSize (AnchorStore.insertAuthorized a) r w'
  | .createAutomationJob job, r, w' => transact w (AnchorStore.createAutomationJob job) r w'
  | .setAutomationJobStatus n status now, r, w' =>
      transact w (AnchorStore.setAutomationJobStatus n status now) r w'
  | .recordAutomationSignAttempt n now, r, w' =>
      transact w (AnchorStore.recordAutomationSignAttempt n now) r w'
  | .beginAutomationResign n requestId params authorizeAt, r, w' =>
      transact w (AnchorStore.beginAutomationResign n requestId params authorizeAt) r w'
  | .reserveAutomaticSend n expected fee now b, r, w' =>
      transact w (AnchorStore.reserveAutomaticSend n expected fee now b) r w'
  | .setAutomaticSendStatus n status now, r, w' =>
      transact w (AnchorStore.setAutomaticSendStatus n status now) r w'
  | .post n signed, _, w' => w' = { w with events := .posted t n signed :: w.events }
  | .call _, _, w' => w' = w

/-- Threads on one store, whose steps all meet the condition `guard` on the
store before the step.  A crash of a process loses nothing that is stored. -/
def system (guard : Store → Op → Prop) (Tid : Type) (store : Store) : System sig where
  World := World Tid
  Tid := Tid
  Pid := Tid
  pid := id
  init := ⟨store, []⟩
  exec w t o r w' := guard w.store o ∧ exec w t o r w'
  crash w _ w' := w' = w
  env w w' := w' = w

instance {guard : Store → Op → Prop} [DecidableEq Tid] {store : Store} :
    DecidableEq (system guard Tid store).Tid := inferInstanceAs (DecidableEq Tid)

instance {guard : Store → Op → Prop} [DecidableEq Tid] {store : Store} :
    DecidableEq (system guard Tid store).Pid := inferInstanceAs (DecidableEq Tid)

/-! ### Undisturbed steps -/

/-- How the calls and the POSTs of a thread turn out. -/
structure Outcomes where
  call : (c : Call) → Except PyError c.Res
  post : Except PyError (Option PyStr)

/-- What a transaction that does not fail returns, and the world after it. -/
def written (w : World Tid) (x : Except PyError (Unit × Store)) :
    Except PyError Unit × World Tid :=
  match x with
  | .ok (_, s) => (.ok (), { w with store := s })
  | .error e => (.error e, w)

/-- The world after a save that does not fail. -/
def saved (w : World Tid) (t : Tid) (n : ℤ) (s : Store) : World Tid :=
  ⟨s, .saved t n (w.store.authorizedRow n) (s.authorizedRow n) :: w.events⟩

/-- What an operation returns, and the world after it, when the store does not fail. -/
def outcome (x : Outcomes) (w : World Tid) (t : Tid) : (o : Op) → o.Res × World Tid
  | .authorizedRow n => (.ok (w.store.authorizedRow n), w)
  | .lastAuthorizedRow => (.ok w.store.lastAuthorizedRow, w)
  | .automationJobRow n => (.ok (w.store.automationJobRow n), w)
  | .lastAutomationJob => (.ok w.store.lastAutomationJob, w)
  | .budgetUsage b => (.ok ⟨w.store.sendCount b.hourStart, w.store.sendFees b.dayStart,
      w.store.sendFees b.monthStart⟩, w)
  | .updateAuthorized existing a =>
      (.ok (), saved w t a.treeSize (AnchorStore.updateAuthorized existing a w.store))
  | .insertAuthorized _ a =>
      (.ok (), saved w t a.treeSize (AnchorStore.insertAuthorized a w.store))
  | .createAutomationJob job => written w (AnchorStore.createAutomationJob job w.store)
  | .setAutomationJobStatus n status now =>
      written w (AnchorStore.setAutomationJobStatus n status now w.store)
  | .recordAutomationSignAttempt n now =>
      written w (AnchorStore.recordAutomationSignAttempt n now w.store)
  | .beginAutomationResign n requestId params authorizeAt =>
      written w (AnchorStore.beginAutomationResign n requestId params authorizeAt w.store)
  | .reserveAutomaticSend n expected fee now b =>
      written w (AnchorStore.reserveAutomaticSend n expected fee now b w.store)
  | .setAutomaticSendStatus n status now =>
      written w (AnchorStore.setAutomaticSendStatus n status now w.store)
  | .post n signed => (x.post, { w with events := .posted t n signed :: w.events })
  | .call c => (x.call c, w)

theorem transact_written (w : World Tid) (f : Store → Except PyError (Unit × Store)) :
    transact w f (written w (f w.store)).1 (written w (f w.store)).2 := by
  cases hf : f w.store with
  | ok u => exact ⟨u.2, .done hf, rfl⟩
  | error e => exact ⟨w.store, .refused hf, rfl⟩

theorem exec_outcome (x : Outcomes) (w : World Tid) (t : Tid) (o : Op) :
    exec w t o (outcome x w t o).1 (outcome x w t o).2 := by
  cases o with
  | authorizedRow n => exact ⟨Or.inl rfl, rfl⟩
  | lastAuthorizedRow => exact ⟨Or.inl rfl, rfl⟩
  | automationJobRow n => exact ⟨Or.inl rfl, rfl⟩
  | lastAutomationJob => exact ⟨Or.inl rfl, rfl⟩
  | budgetUsage b => exact ⟨Or.inl rfl, rfl⟩
  | updateAuthorized existing a => exact ⟨_, .done rfl, rfl⟩
  | insertAuthorized existing a => exact ⟨_, .done rfl, rfl⟩
  | createAutomationJob job => exact transact_written _ _
  | setAutomationJobStatus n status now => exact transact_written _ _
  | recordAutomationSignAttempt n now => exact transact_written _ _
  | beginAutomationResign n requestId params authorizeAt => exact transact_written _ _
  | reserveAutomaticSend n expected fee now b => exact transact_written _ _
  | setAutomaticSendStatus n status now => exact transact_written _ _
  | post n signed => exact rfl
  | call c => exact rfl

/-- The outcome of an operation, where the condition allows it. -/
def answer (guard : Store → Op → Prop) [∀ s o, Decidable (guard s o)] (x : Outcomes) (t : Tid)
    (w : World Tid) (o : Op) : Option (o.Res × World Tid) :=
  if guard w.store o then some (outcome x w t o) else none

/-- A thread takes up to `k` operations in a row, and no read or write fails. -/
theorem turn {α : Type} [DecidableEq Tid] {guard : Store → Op → Prop}
    [∀ s o, Decidable (guard s o)] {store : Store} {main : Prog sig α → Prop}
    {c : (system guard Tid store).Config α} (h : (system guard Tid store).Reachable main c)
    (t : Tid) (x : Outcomes) (k : ℕ) {p : Prog sig α} (hthread : c.threads t = .alive p) :
    (system guard Tid store).Reachable main
      ⟨(p.drive (answer guard x t) k c.world).1,
        Function.update c.threads t (.alive (p.drive (answer guard x t) k c.world).2)⟩ := by
  refine h.drive t (fun {w o r w'} hanswer => ?_) k hthread
  unfold answer at hanswer
  split at hanswer
  next hguard =>
    have hexec := exec_outcome x w t o
    rw [Option.some_inj.mp hanswer] at hexec
    exact ⟨hguard, hexec⟩
  next => cases hanswer

/-- How often a transport POST was made for a tree size. -/
def postCount (n : ℤ) (events : List (Event Tid)) : ℕ :=
  events.countP fun
    | .posted _ m _ => m = n
    | .saved .. => false

@[simp] theorem postCount_saved {t : Tid} {n n' : ℤ} {before after : Option AuthorizedRow}
    {events : List (Event Tid)} :
    postCount n (.saved t n' before after :: events) = postCount n events := by
  simp [postCount]

theorem postCount_posted {t : Tid} {n n' : ℤ} {signed : Bytes} {events : List (Event Tid)} :
    postCount n (.posted t n' signed :: events) =
      postCount n events + if n' = n then 1 else 0 := by
  simp [postCount, List.countP_cons]

/-- A save did what it does, or raised and changed nothing. -/
theorem save_cases {w w' : World Tid} {t : Tid} {n : ℤ} {f : Store → Store} {r : Except PyError Unit}
    (h : save w t n f r w') :
    (∃ store, store = f w.store ∧
      w' = ⟨store,
        .saved t n (w.store.authorizedRow n) (store.authorizedRow n) :: w.events⟩) ∨
    (∃ e, r = .error e) ∧
      w' = ⟨w.store,
        .saved t n (w.store.authorizedRow n) (w.store.authorizedRow n) :: w.events⟩ := by
  obtain ⟨store, htransact, rfl⟩ := h
  cases htransact with
  | done hf =>
      cases hf
      exact Or.inl ⟨_, rfl, rfl⟩
  | refused hf => cases hf
  | failed e => exact Or.inr ⟨⟨e, rfl⟩, rfl⟩
  | unreported hf e =>
      cases hf
      exact Or.inl ⟨_, rfl, rfl⟩

end Signal402.Canary
