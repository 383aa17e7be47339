import Signal402.Pq.Canary

/-!
# The automatic anchor controller (`auto_anchor.py`)

`tick` as a program over the operations of `Signal402.Pq.Canary`: it freezes a
checkpoint, persists a job, has it signed, and sends it, or resumes the last
job where an earlier tick left it.  Event logging and the in-process retry
times only decide whether a tick goes on; `retryReady` answers for the latter.
-/

namespace Signal402.AutoAnchor

open AnchorStore Canary Concurrent

/-- What a tick reports. -/
inductive TickStatus
  | halted
  | pending
  | authorized
  | sendAttempted
  | submitted
  | confirmed
  | budgetWait
  | prePostWait
  | hold
  deriving DecidableEq, Repr

/-- The checkpoint a job froze. -/
def identityFromJob (job : Job) : Identity where
  treeSize := job.treeSize
  origin := job.origin
  root := job.root
  checkpoint := job.checkpoint

def jobMatchesAuthorized (job : Job) (auth : AuthorizedRow) : Bool :=
  job.treeSize = auth.treeSize ∧ job.origin = auth.origin ∧ job.root = auth.root ∧
    job.checkpoint = auth.checkpoint ∧ job.requestId = auth.requestId

/-- A job row that must be there: a missing key raises. -/
def requireJob (job : Option Job) : Code Job :=
  match job with
  | some job => pure job
  | none => throw ⟨.keyError, "tree_size"⟩

def authorizeJob (job : Job) (now : ℤ) : Code AuthorizedRow := do
  let job ← requireJob (← recordAutomationSignAttempt job.treeSize now)
  let auth ← authorize (identityFromJob job) job.requestId job.params job.authorizeAt
  if !jobMatchesAuthorized job auth then securityError "automatic authorization mismatch"
  let _ ← setAutomationJobStatus job.treeSize .authorized now
  return auth

/-- Advisory precheck; the durable reservation repeats this atomically. -/
def budgetBlock (windows : BudgetWindows) (fee now : ℤ) : Code Bool := do
  if fee < minFee ∨ autoMaxFee < fee then return true
  let b := budgetAt windows now
  let used ← automaticBudgetUsage b
  return b.hourlyMax ≤ used.hourlyCount || b.dailyMax < used.dailyFee + fee ||
    b.monthlyMax < used.monthlyFee + fee

def anchorSlaLeaves : ℤ := 1000

def anchorSlaSeconds : ℤ := 15 * 60

def eligible (delta unanchoredSince now : ℤ) : Bool :=
  1 ≤ delta && (anchorSlaLeaves ≤ delta ||
    (1 ≤ unanchoredSince && anchorSlaSeconds ≤ now - unanchoredSince))

def halt (job : Job) (now : ℤ) : Code TickStatus := do
  let _ ← setAutomationJobStatus job.treeSize .halted now
  return .halted

/-- The state a tick shows for a latched row; `none` before the latch. -/
def visibleState (auth : Option AuthorizedRow) : Option TickStatus :=
  match auth.map sendStateOf with
  | some .sendAttempted => some .sendAttempted
  | some .submitted => some .submitted
  | some .confirmed => some .submitted
  | _ => none

def statusOfSend : SendResult → TickStatus
  | .confirmed _ => .confirmed
  | .pending row =>
      match row.sendState with
      | .sendAttempted => .sendAttempted
      | .confirmed => .confirmed
      | _ => .submitted

def send (windows : BudgetWindows) (auth : AuthorizedRow) (now : ℤ) : Code TickStatus := do
  return statusOfSend (← sendAutomaticDurable windows auth now)

/-- The latest row of a job, or the one at hand. -/
def latestJob (job : Job) : Code Job := do
  return (← automationJobAt job.treeSize).getD job

/-- The one policy refresh before the POST: sign again and send. -/
def resign (windows : BudgetWindows) (job : Job) (now : ℤ) : Code TickStatus :=
  tryCatch
    (do
      let params ← invoke .trustedParams
      let requestId ← invoke .freshRequestId
      let refreshed ← requireJob (← beginAutomationResign job.treeSize requestId params now)
      let auth ← authorizeJob refreshed now
      send windows auth now)
    fun _ => do
      let latest ← latestJob job
      match (← authorizedAt job.treeSize).map sendStateOf with
      | some .sendAttempted => return .sendAttempted
      | some .submitted => return .submitted
      | _ => halt latest now

/-- The exceptions of a send. -/
def handleSend (windows : BudgetWindows) (job : Job) (now : ℤ) (e : PyError) :
    Code TickStatus := do
  if e.cls.isA .canaryError then
    let auth ← authorizedAt job.treeSize
    match visibleState auth with
    | some visible =>
        if e.mentions "validity window expired" ∧ auth.map sendStateOf ≠ some .confirmed then
          halt job now
        else return visible
    | none =>
        if e.mentions "stale snapshot" ∧ job.resignCount < 1 then resign windows job now
        else halt job now
  else if e.cls.isA .anchorError then return .prePostWait
  else if e.cls.isA .storeError then
    match visibleState (← authorizedAt job.treeSize) with
    | some visible => return visible
    | none =>
        if e.mentions "rate cap" || e.mentions "fee cap" then return .budgetWait
        else halt (← latestJob job) now
  else throw e

/-- The send of a job whose row was read. -/
def resumeSend (windows : BudgetWindows) (job : Job) (auth : Option AuthorizedRow) (now : ℤ) :
    Code TickStatus := do
  match auth with
  | none => halt job now
  | some auth =>
      if !jobMatchesAuthorized job auth then halt job now
      else
        let blocked ←
          if sendStateOf auth = .authorized then do
            let fee ← tryCatch (invoke (.canonicalFee auth)) fun e =>
              if e.cls.isA .canaryError then pure 0 else throw e
            budgetBlock windows fee now
          else pure false
        if blocked then return .budgetWait
        else tryCatch (send windows auth now) (handleSend windows job now)

def snapshotMaxAgeS : ℤ := 90

/-- The signing of a pending job: the job and its row, or the tick's status. -/
def resumePending (job : Job) (now : ℤ) : Code (TickStatus ⊕ Job × AuthorizedRow) :=
  tryCatch
    (do
      let auth ← authorizeJob job now
      let job ← latestJob job
      return .inr (job, auth))
    fun _ => do
      let latest ← latestJob job
      if 2 ≤ latest.signAttempts then return .inl (← halt latest now)
      else return .inl .pending

def resumeJob (windows : BudgetWindows) (job : Job) (now : ℤ) : Code TickStatus := do
  if job.status = .halted then return .halted
  let auth ← authorizedAt job.treeSize
  if job.status = .pending then
    if snapshotMaxAgeS < now - job.authorizeAt then halt job now
    else
      match ← resumePending job now with
      | .inl status => return status
      | .inr (job, auth) => resumeSend windows job (some auth) now
  else resumeSend windows job auth now

/-- A job for the current checkpoint, or the reason there is none. -/
def prepareJob (windows : BudgetWindows) (now : ℤ) : Code (Option Job) :=
  tryCatch
    (do
      let ident ← invoke .currentCheckpointIdentity
      invoke (.automationCheckpointIdentity ident)
      let params ← invoke .trustedParams
      let fee ← invoke (.draftFee ident params)
      if ← budgetBlock windows fee now then return none
      let requestId ← invoke .freshRequestId
      createAutomationJob
        { treeSize := ident.treeSize
          origin := ident.origin
          root := ident.root
          checkpoint := ident.checkpoint
          requestId := requestId
          params := params
          authorizeAt := now
          status := .pending
          resignCount := 0
          signAttempts := 0
          updatedAt := now })
    fun _ => return none

/-- The gates before a new job is prepared. -/
def preflight (current : ℤ) : Code Bool := do
  if !(← invoke (.retryReady "prepare" current)) then return false
  if !(← invoke .confirmationPathVerified) then return false
  let balance ← tryCatch (some <$> invoke .accountBalance) fun e =>
    if e.cls.isA .anchorError then pure none else throw e
  return balance.any fun balance => autoBalanceHalt ≤ balance

/-- Mark a job whose confirmation was recorded before its own status. -/
def reconcile (job : Option Job) (confirmed : Confirmed) (now : ℤ) : Code (Option Job) := do
  match job with
  | none => return none
  | some job =>
      if job.treeSize = confirmed.size ∧
          (job.status = .sendAttempted ∨ job.status = .submitted) then
        match ← authorizedAt confirmed.size with
        | none => return some job
        | some auth =>
            let expected := (if auth.expectedTxid = [] then auth.txid
              else auth.expectedTxid).strip
            if expected ≠ [] ∧ confirmed.txid = expected ∧
                confirmed.root.lower = job.root.lower then
              tryCatch
                (do
                  setAutomaticSendStatus confirmed.size .confirmed now
                  some <$> latestJob job)
                fun e => if e.cls.isA .storeError then pure (some job) else throw e
            else return some job
      else return some job

/-- Whether the last job is left alone until its next retry. -/
def waiting (job : Job) (auth : Option AuthorizedRow) : Code (Option TickStatus) := do
  if (visibleState auth).isSome then
    if !(← invoke (.retryReady "poll" job.treeSize)) then return visibleState auth
  if auth.map sendStateOf = some .authorized then
    if !(← invoke (.retryReady "resume" job.treeSize)) then return some .authorized
  if job.status = .pending then
    if !(← invoke (.retryReady "resume" job.treeSize)) then return some .pending
  return none

/-- A tick past its gates. -/
def tickUnlocked (windows : BudgetWindows) (now : ℤ) : Code (Option TickStatus) := do
  let current ← invoke .logSize
  let confirmed ← invoke .lastConfirmedCheckpoint
  let since ← invoke (.automationObserve current confirmed.size now)
  let job ← reconcile (← lastAutomationJob) confirmed now
  match job.filter fun job => confirmed.size < job.treeSize with
  | some job =>
      match ← waiting job (← authorizedAt job.treeSize) with
      | some status => return some status
      | none => some <$> resumeJob windows job now
  | none =>
      match ← lastAuthorizedCheckpoint with
      | some auth =>
          if auth.signed ≠ [] ∧ confirmed.size < auth.treeSize then return some .hold
          else prepare current confirmed.size since
      | none => prepare current confirmed.size since
where
  prepare (current confirmed since : ℤ) : Code (Option TickStatus) := do
    if !eligible (max 0 (current - confirmed)) since now then return none
    else if !(← preflight current) then return none
    else
      match ← prepareJob windows now with
      | none => return none
      | some job => some <$> resumeJob windows job now

/-- Run one bounded controller step. -/
def tick (windows : BudgetWindows) (now : ℤ) : Code (Option TickStatus) := do
  if !(← invoke .automaticEnabled) then return none
  else if !(← invoke .tickLock) then return none
  else
    let allowed ← tryCatch (do invoke .configurationGate; return true) fun e =>
      if e.cls.isA .autoAnchorError then pure false else throw e
    if !allowed then return none
    else tickUnlocked windows now

end Signal402.AutoAnchor
