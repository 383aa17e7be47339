import Signal402.Base.Text
import Signal402.Lib.Table

/-!
# The anchor tables (`store.py`)

The rows of `authorized_anchors`, `anchor_automation_jobs` and
`anchor_automation_sends`, and what each function of the store reads and writes
there.  A function that runs in one transaction is a map of the store that
returns or raises.  `save_authorized_checkpoint` reads the row before it starts
its transaction, so it comes in three parts: the row it reads, `saveCheck`, and
the write of `updateAuthorized` or `insertAuthorized`.

Left out are the columns nothing here reads: `superseded_signed_sha256`,
`last_error` and the audit fields of `meta`.
-/

namespace Signal402.AnchorStore

/-! ## Rows -/

/-- The text of the column `send_state`. -/
inductive SendState
  | empty
  | authorized
  | sendIntent
  | sendAttempted
  | submitted
  | confirmed
  | unknown (text : PyStr)
  deriving DecidableEq

/-- Numeric rank.  Unknown states fail closed. -/
def sendStateRank : SendState → Except PyError ℕ
  | .empty => .ok 0
  | .authorized => .ok 0
  | .sendIntent => .ok 0
  | .sendAttempted => .ok 1
  | .submitted => .ok 2
  | .confirmed => .ok 3
  | .unknown _ => .error ⟨.storeError, "unknown send_state"⟩

/-- `SEND_ATTEMPTED` and later. -/
def latchedRank : ℕ := 1

/-- A row of `authorized_anchors`. -/
structure AuthorizedRow where
  treeSize : ℤ
  origin : PyStr
  root : PyStr
  checkpoint : PyStr
  requestId : PyStr
  signed : Bytes
  at' : ℤ
  submitted : Bool
  txid : PyStr
  sendState : SendState
  expectedTxid : PyStr
  feePolicy : PyStr
  fv : ℤ
  lv : ℤ
  sendAttemptedAt : ℤ
  deriving DecidableEq

/-- The row is at `SEND_ATTEMPTED` or later. -/
def AuthorizedRow.Latched (row : AuthorizedRow) : Prop :=
  row.sendState = .sendAttempted ∨ row.sendState = .submitted ∨ row.sendState = .confirmed

instance (row : AuthorizedRow) : Decidable row.Latched :=
  inferInstanceAs (Decidable (_ ∨ _ ∨ _))

theorem AuthorizedRow.latched_iff (row : AuthorizedRow) :
    row.Latched ↔ ∃ rank, sendStateRank row.sendState = .ok rank ∧ latchedRank ≤ rank := by
  rw [AuthorizedRow.Latched]
  cases row.sendState <;> simp [sendStateRank, latchedRank]

/-- The row is before `SEND_ATTEMPTED`. -/
def AuthorizedRow.Unlatched (row : AuthorizedRow) : Prop := sendStateRank row.sendState = .ok 0

instance (row : AuthorizedRow) : Decidable row.Unlatched :=
  inferInstanceAs (Decidable (_ = _))

theorem AuthorizedRow.Unlatched.not_latched {row : AuthorizedRow} (h : row.Unlatched) :
    ¬row.Latched := by
  rw [Unlatched] at h
  rintro (hs | hs | hs) <;> rw [hs] at h <;> cases h

inductive JobStatus
  | pending
  | authorized
  | sendAttempted
  | submitted
  | confirmed
  | halted
  deriving DecidableEq, Repr

def autoStatusRank : JobStatus → ℕ
  | .pending => 0
  | .authorized => 1
  | .sendAttempted => 2
  | .submitted => 3
  | .confirmed => 4
  | .halted => 5

/-- A row of `anchor_automation_jobs`; `params` is the stored text. -/
structure Job where
  treeSize : ℤ
  origin : PyStr
  root : PyStr
  checkpoint : PyStr
  requestId : PyStr
  params : PyStr
  authorizeAt : ℤ
  status : JobStatus
  resignCount : ℕ
  signAttempts : ℕ
  updatedAt : ℤ
  deriving DecidableEq

inductive SendStatus
  | sendAttempted
  | submitted
  | confirmed
  deriving DecidableEq, Repr

def SendStatus.rank : SendStatus → ℕ
  | .sendAttempted => 1
  | .submitted => 2
  | .confirmed => 3

/-- The job status that goes with it. -/
def SendStatus.toJob : SendStatus → JobStatus
  | .sendAttempted => .sendAttempted
  | .submitted => .submitted
  | .confirmed => .confirmed

/-- A row of `anchor_automation_sends`. -/
structure Send where
  treeSize : ℤ
  expectedTxid : PyStr
  fee : ℤ
  attemptedAt : ℤ
  status : SendStatus
  deriving DecidableEq

/-- The three tables, and the size in `meta['last_authorized_checkpoint']`. -/
structure Store where
  authorized : List AuthorizedRow
  jobs : List Job
  sends : List Send
  lastAuthorized : ℤ

namespace Store

variable (s : Store)

def authorizedRow (n : ℤ) : Option AuthorizedRow :=
  Table.lookup AuthorizedRow.treeSize s.authorized n

def automationJobRow (n : ℤ) : Option Job := Table.lookup Job.treeSize s.jobs n

def sendRow (n : ℤ) : Option Send := Table.lookup Send.treeSize s.sends n

/-- The signed row of the largest tree. -/
def latestAuthorizedRow : Option AuthorizedRow :=
  (s.authorized.filter fun row => row.signed ≠ []).foldl
    (fun best row =>
      match best with
      | none => some row
      | some b => if b.treeSize < row.treeSize then some row else some b) none

/-- The row `last_authorized_checkpoint` reads. -/
def lastAuthorizedRow : Option AuthorizedRow :=
  let row := if s.lastAuthorized = 0 then none else s.authorizedRow s.lastAuthorized
  match row.filter fun row => row.signed ≠ [] with
  | some row => some row
  | none => s.latestAuthorizedRow

/-- `ORDER BY updated_at DESC, tree_size DESC LIMIT 1`. -/
def lastAutomationJob : Option Job :=
  s.jobs.foldl
    (fun best job =>
      match best with
      | none => some job
      | some b =>
          if b.updatedAt < job.updatedAt ∨
              b.updatedAt = job.updatedAt ∧ b.treeSize < job.treeSize then some job
          else some b) none

/-- How many sends were attempted from a time on. -/
def sendCount (start : ℤ) : ℤ := s.sends.countP fun send => start ≤ send.attemptedAt

/-- The fees of the sends attempted from a time on. -/
def sendFees (start : ℤ) : ℤ :=
  (s.sends.filter fun send => start ≤ send.attemptedAt).foldr (fun send fees => send.fee + fees) 0

end Store

/-! ## Saving an authorized row -/

/-- The arguments of `save_authorized_checkpoint`, its texts stripped. -/
structure SaveArgs where
  treeSize : ℤ
  origin : PyStr
  root : PyStr
  checkpoint : PyStr
  requestId : PyStr
  signed : Bytes
  at' : ℤ
  submitted : Bool := false
  txid : PyStr := []
  sendState : SendState := .empty
  expectedTxid : PyStr := []
  feePolicy : PyStr := []
  fv : ℤ := 0
  lv : ℤ := 0
  sendAttemptedAt : ℤ := 0

/-- Raise when a column of a latched row would change. -/
def immutable {A : Type} [DecidableEq A] (empty : A) (want have' : A) (column : String) :
    Except PyError Unit :=
  if want ≠ empty ∧ have' ≠ empty ∧ want ≠ have' then
    .error ⟨.storeError, "immutable " ++ column⟩
  else .ok ()

/-- The rank of the row that was read; a save may not go below it. -/
def checkRank (existing : AuthorizedRow) (a : SaveArgs) : Except PyError ℕ := do
  let haveRank ← sendStateRank existing.sendState
  if a.sendState ≠ .empty then
    let wantRank ← sendStateRank a.sendState
    if wantRank < haveRank then throw ⟨.storeError, "send_state regression"⟩
  return haveRank

/-- After `SEND_ATTEMPTED` these columns are immutable. -/
def checkImmutable (existing : AuthorizedRow) (a : SaveArgs) : Except PyError Unit := do
  immutable [] a.signed existing.signed "signed blob"
  immutable [] a.expectedTxid existing.expectedTxid "expected_txid"
  immutable [] a.origin existing.origin "origin"
  immutable [] a.root existing.root "root"
  immutable [] a.checkpoint existing.checkpoint "checkpoint"
  immutable [] a.feePolicy existing.feePolicy "fee_policy"
  immutable 0 a.fv existing.fv "fv"
  immutable 0 a.lv existing.lv "lv"

/-- Before `SEND_ATTEMPTED`: another checkpoint, root or blob is not written. -/
def agrees (existing : AuthorizedRow) (a : SaveArgs) : Bool :=
  existing.checkpoint = a.checkpoint ∧
    (existing.root = [] ∨ a.root = [] ∨ existing.root = a.root) ∧
    (existing.signed = [] ∨ a.signed = [] ∨ existing.signed = a.signed)

/-- The checks against the row that was read: whether to write at all. -/
def saveCheck (existing : AuthorizedRow) (a : SaveArgs) : Except PyError Bool := do
  let haveRank ← checkRank existing a
  if latchedRank ≤ haveRank then
    checkImmutable existing a
    return true
  else return agrees existing a

/-- The rank a save starts from, and the one it asks for. -/
theorem checkRank_ok {existing : AuthorizedRow} {a : SaveArgs} {rank : ℕ}
    (h : checkRank existing a = .ok rank) :
    sendStateRank existing.sendState = .ok rank ∧
      (a.sendState ≠ .empty → ∃ want, sendStateRank a.sendState = .ok want ∧ rank ≤ want) := by
  simp only [checkRank, bind, Except.bind] at h
  cases hrank : sendStateRank existing.sendState with
  | error e => rw [hrank] at h; cases h
  | ok haveRank =>
      rw [hrank] at h
      dsimp only at h
      by_cases hempty : a.sendState = .empty
      · rw [if_neg (not_not.mpr hempty)] at h
        cases h
        exact ⟨rfl, fun hne => absurd hempty hne⟩
      · rw [if_pos hempty] at h
        cases hwant : sendStateRank a.sendState with
        | error e => rw [hwant] at h; cases h
        | ok want =>
            rw [hwant] at h
            dsimp only at h
            by_cases hlt : want < haveRank
            · rw [if_pos hlt] at h
              cases h
            · rw [if_neg hlt] at h
              cases h
              exact ⟨rfl, fun _ => ⟨want, rfl, Nat.not_lt.mp hlt⟩⟩

/-- What a save that was not refused checked. -/
theorem saveCheck_ok {existing : AuthorizedRow} {a : SaveArgs} {b : Bool}
    (h : saveCheck existing a = .ok b) :
    ∃ rank, checkRank existing a = .ok rank ∧
      if latchedRank ≤ rank then checkImmutable existing a = .ok () ∧ b = true
      else b = agrees existing a := by
  simp only [saveCheck, bind, Except.bind] at h
  cases hrank : checkRank existing a with
  | error e => rw [hrank] at h; cases h
  | ok rank =>
      rw [hrank] at h
      refine ⟨rank, rfl, ?_⟩
      dsimp only at h
      by_cases hle : latchedRank ≤ rank
      · rw [if_pos hle] at h ⊢
        cases himmutable : checkImmutable existing a with
        | error e => rw [himmutable] at h; cases h
        | ok u =>
            rw [himmutable] at h
            cases h
            exact ⟨rfl, rfl⟩
      · rw [if_neg hle] at h ⊢
        cases h
        rfl

theorem agrees_of_saveCheck_false {existing : AuthorizedRow} {a : SaveArgs}
    (h : saveCheck existing a = .ok false) : agrees existing a = false := by
  obtain ⟨rank, -, hcheck⟩ := saveCheck_ok h
  split at hcheck
  · cases hcheck.2
  · exact hcheck.symm

/-- A check that went through compared equal, or one side was empty. -/
theorem immutable_ok {A : Type} [DecidableEq A] {empty want have' : A} {column : String}
    {u : Unit} (h : immutable empty want have' column = .ok u) (hwant : want ≠ empty)
    (hhave : have' ≠ empty) : want = have' := by
  rw [immutable] at h
  split at h
  · cases h
  next hne =>
    by_contra hdiff
    exact hne ⟨hwant, hhave, hdiff⟩

/-- An `expected_txid` that is set stays. -/
theorem expectedTxid_of_checkImmutable {existing : AuthorizedRow} {a : SaveArgs}
    (h : checkImmutable existing a = .ok ()) (hwant : a.expectedTxid ≠ [])
    (hhave : existing.expectedTxid ≠ []) : a.expectedTxid = existing.expectedTxid := by
  simp only [checkImmutable, bind, Except.bind] at h
  cases hsigned : immutable [] a.signed existing.signed "signed blob" with
  | error e => rw [hsigned] at h; cases h
  | ok u =>
      rw [hsigned] at h
      dsimp only at h
      cases htxid : immutable [] a.expectedTxid existing.expectedTxid "expected_txid" with
      | error e => rw [htxid] at h; cases h
      | ok u => exact immutable_ok htxid hwant hhave

/-- The `SET` clauses, built from the row that was read. -/
def saveSets (existing : AuthorizedRow) (a : SaveArgs) (row : AuthorizedRow) : AuthorizedRow :=
  let submits : Bool := a.submitted ∧ a.txid ≠ []
  { row with
    submitted := if submits then true else row.submitted
    txid := if submits then a.txid else row.txid
    sendState := if a.sendState ≠ .empty then a.sendState else row.sendState
    expectedTxid := if a.expectedTxid ≠ [] then a.expectedTxid else row.expectedTxid
    feePolicy := if a.feePolicy ≠ [] ∧ ¬existing.Latched then a.feePolicy else row.feePolicy
    fv := if a.fv ≠ 0 ∧ ¬existing.Latched then a.fv else row.fv
    lv := if a.lv ≠ 0 ∧ ¬existing.Latched then a.lv else row.lv
    sendAttemptedAt :=
      if a.sendAttemptedAt ≠ 0 then a.sendAttemptedAt else row.sendAttemptedAt }

/-- The `UPDATE` of a row that was read as `existing`. -/
def updateAuthorized (existing : AuthorizedRow) (a : SaveArgs) (s : Store) : Store :=
  { s with
    authorized :=
      Table.update AuthorizedRow.treeSize a.treeSize (saveSets existing a) s.authorized
    lastAuthorized := existing.treeSize }

/-- The row of a first save. -/
def newRow (a : SaveArgs) : AuthorizedRow where
  treeSize := a.treeSize
  origin := a.origin
  root := a.root
  checkpoint := a.checkpoint
  requestId := a.requestId
  signed := a.signed
  at' := a.at'
  submitted := a.submitted
  txid := a.txid
  sendState := if a.sendState = .empty then .authorized else a.sendState
  expectedTxid := a.expectedTxid
  feePolicy := a.feePolicy
  fv := a.fv
  lv := a.lv
  sendAttemptedAt := a.sendAttemptedAt

/-- `INSERT OR REPLACE`. -/
def insertAuthorized (a : SaveArgs) (s : Store) : Store :=
  { s with
    authorized := Table.put AuthorizedRow.treeSize (newRow a) s.authorized
    lastAuthorized := a.treeSize }

theorem authorizedRow_updateAuthorized (existing : AuthorizedRow) (a : SaveArgs) (s : Store)
    (n : ℤ) : (updateAuthorized existing a s).authorizedRow n =
      if n = a.treeSize then (s.authorizedRow a.treeSize).map (saveSets existing a)
      else s.authorizedRow n :=
  Table.lookup_update (f := saveSets existing a) (fun _ => rfl) _ _ _

theorem authorizedRow_insertAuthorized (a : SaveArgs) (s : Store) (n : ℤ) :
    (insertAuthorized a s).authorizedRow n =
      if n = a.treeSize then some (newRow a) else s.authorizedRow n :=
  Table.lookup_put _ _ _

/-! ## Automation jobs -/

def storeError {A : Type} (msg : String) : Except PyError A := .error ⟨.storeError, msg⟩

/-- Persist exact sign intent before dialing the signer. -/
def createAutomationJob (job : Job) (s : Store) : Except PyError (Unit × Store) :=
  match s.automationJobRow job.treeSize with
  | some existing =>
      if existing.origin = job.origin ∧ existing.root = job.root ∧
          existing.checkpoint = job.checkpoint ∧ existing.requestId = job.requestId ∧
          existing.params = job.params ∧ existing.authorizeAt = job.authorizeAt then
        .ok ((), s)
      else storeError "automation job conflict"
  | none =>
      .ok ((), { s with
        jobs := s.jobs ++
          [{ job with
            status := .pending
            resignCount := 0
            signAttempts := 0
            updatedAt := job.authorizeAt }] })

def updateJob (n : ℤ) (f : Job → Job) (s : Store) : Store :=
  { s with jobs := Table.update Job.treeSize n f s.jobs }

def setAutomationJobStatus (n : ℤ) (status : JobStatus) (now : ℤ) (s : Store) :
    Except PyError (Unit × Store) :=
  match s.automationJobRow n with
  | none => storeError "automation job missing"
  | some existing =>
      if existing.status = .halted ∧ status ≠ .halted then storeError "halted automation job"
      else if status ≠ .halted ∧ autoStatusRank status < autoStatusRank existing.status then
        storeError "automation status regression"
      else
        .ok ((), updateJob n (fun job => { job with status := status, updatedAt := now }) s)

/-- Initial call plus one exact-request recovery only. -/
def recordAutomationSignAttempt (n now : ℤ) (s : Store) : Except PyError (Unit × Store) :=
  match s.automationJobRow n with
  | none => storeError "automation sign state"
  | some job =>
      if job.status ≠ .pending then storeError "automation sign state"
      else if 2 ≤ job.signAttempts then storeError "automation sign attempt cap"
      else
        .ok ((), updateJob n
          (fun job => { job with signAttempts := job.signAttempts + 1, updatedAt := now }) s)

/-- Raise unless the row, where there is one, is before `SEND_ATTEMPTED`. -/
def requireUnlatched (row : Option AuthorizedRow) (msg : String) : Except PyError Unit :=
  match row with
  | none => .ok ()
  | some row => do
      if latchedRank ≤ (← sendStateRank row.sendState) then storeError msg

/-- Allow one pre-POST policy refresh.  Never after `SEND_ATTEMPTED`. -/
def beginAutomationResign (n : ℤ) (requestId params : PyStr) (authorizeAt : ℤ) (s : Store) :
    Except PyError (Unit × Store) := do
  match s.automationJobRow n with
  | none => storeError "automation resign state"
  | some job =>
      if job.status ≠ .authorized then storeError "automation resign state"
      else if 1 ≤ job.resignCount then storeError "automation resign cap"
      else
        requireUnlatched (s.authorizedRow n) "cannot resign after SEND_ATTEMPTED"
        return ((), updateJob n
          (fun job => { job with
            requestId := requestId
            params := params
            authorizeAt := authorizeAt
            status := .pending
            resignCount := job.resignCount + 1
            signAttempts := 0
            updatedAt := authorizeAt })
          { s with
            authorized := Table.erase AuthorizedRow.treeSize n s.authorized
            lastAuthorized := if s.lastAuthorized = n then 0 else s.lastAuthorized })

/-! ## Automatic sends -/

/-- The budget windows of a reservation, and their ceilings. -/
structure Budget where
  hourStart : ℤ
  dayStart : ℤ
  monthStart : ℤ
  hourlyMax : ℤ
  dailyMax : ℤ
  monthlyMax : ℤ

/-- The row after its reservation. -/
def latchRow (expected : PyStr) (now : ℤ) (row : AuthorizedRow) : AuthorizedRow :=
  { row with sendState := .sendAttempted, expectedTxid := expected, sendAttemptedAt := now }

/-- Atomically reserve budgets and persist `SEND_ATTEMPTED` before the POST. -/
def reserveAutomaticSend (n : ℤ) (expected : PyStr) (fee now : ℤ) (b : Budget) (s : Store) :
    Except PyError (Unit × Store) := do
  let expected := expected.strip
  if expected = [] ∨ fee < 1 then throw ⟨.storeError, "invalid automatic send reservation"⟩
  match s.sendRow n with
  | some send =>
      if send.expectedTxid ≠ expected ∨ send.fee ≠ fee then storeError "automatic send conflict"
      else storeError "automatic send already reserved"
  | none =>
      match s.authorizedRow n, s.automationJobRow n with
      | some auth, some job =>
          if auth.signed = [] then storeError "automatic authorization missing"
          else if job.status ≠ .authorized then storeError "automatic job not authorized"
          else
            requireUnlatched (some auth) "automatic send already latched"
            if b.hourlyMax ≤ s.sendCount b.hourStart then storeError "automatic hourly rate cap"
            else if b.dailyMax < s.sendFees b.dayStart + fee then
              storeError "automatic daily fee cap"
            else if b.monthlyMax < s.sendFees b.monthStart + fee then
              storeError "automatic monthly fee cap"
            else if s.sends.any fun send => send.expectedTxid == expected then
              .error ⟨.databaseError, "UNIQUE constraint failed"⟩
            else
              return ((), updateJob n
                (fun job => { job with status := .sendAttempted, updatedAt := now })
                { s with
                  sends := s.sends ++ [⟨n, expected, fee, now, .sendAttempted⟩]
                  authorized :=
                    Table.update AuthorizedRow.treeSize n (latchRow expected now)
                      s.authorized })
      | _, _ => storeError "automatic authorization missing"

/-- How long confirmed sends and jobs are kept. -/
def automationRetention : ℤ := 40 * 24 * 60 * 60

/-- Keep only recent automatic budget metadata. -/
def pruneAutomation (now : ℤ) (s : Store) : Store :=
  let cutoff := now - automationRetention
  { s with
    sends := s.sends.filter fun send => !(send.status = .confirmed ∧ send.attemptedAt < cutoff)
    jobs := s.jobs.filter fun job => !(job.status = .confirmed ∧ job.updatedAt < cutoff) }

def setAutomaticSendStatus (n : ℤ) (status : SendStatus) (now : ℤ) (s : Store) :
    Except PyError (Unit × Store) := do
  if status = .sendAttempted then throw ⟨.storeError, "invalid automatic send status"⟩
  match s.sendRow n with
  | none => storeError "automatic send missing"
  | some send =>
      if status.rank < send.status.rank then storeError "automatic send status regression"
      else
        let s := updateJob n (fun job => { job with status := status.toJob, updatedAt := now })
          { s with
            sends := Table.update Send.treeSize n (fun send => { send with status := status })
              s.sends }
        .ok ((), if status = .confirmed then pruneAutomation now s else s)

/-! ## What the functions do to the authorized rows -/

section Effects

variable {s s' : Store} {u : Unit}

theorem unlatched_of_require {row : AuthorizedRow} {msg : String} {u : Unit}
    (h : requireUnlatched (some row) msg = .ok u) : row.Unlatched := by
  rw [AuthorizedRow.Unlatched]
  simp only [requireUnlatched, bind, Except.bind] at h
  cases hrank : sendStateRank row.sendState with
  | error e => rw [hrank] at h; cases h
  | ok rank =>
      rw [hrank] at h
      dsimp only at h
      split at h
      · cases h
      next hlt =>
        rw [latchedRank] at hlt
        rw [show rank = 0 by omega]

theorem jobsOnly_createAutomationJob {job : Job}
    (h : createAutomationJob job s = .ok (u, s')) : s' = { s with jobs := s'.jobs } := by
  rw [createAutomationJob] at h
  split at h
  · split at h <;> cases h
    rfl
  · cases h
    rfl

theorem jobsOnly_setAutomationJobStatus {n now : ℤ} {status : JobStatus}
    (h : setAutomationJobStatus n status now s = .ok (u, s')) :
    s' = { s with jobs := s'.jobs } := by
  rw [setAutomationJobStatus] at h
  split at h
  · cases h
  · split at h
    · cases h
    · split at h <;> cases h
      rfl

theorem jobsOnly_recordAutomationSignAttempt {n now : ℤ}
    (h : recordAutomationSignAttempt n now s = .ok (u, s')) : s' = { s with jobs := s'.jobs } := by
  rw [recordAutomationSignAttempt] at h
  split at h
  · cases h
  · split at h
    · cases h
    · split at h <;> cases h
      rfl

theorem authorized_createAutomationJob {job : Job}
    (h : createAutomationJob job s = .ok (u, s')) : s'.authorized = s.authorized := by
  rw [jobsOnly_createAutomationJob h]

theorem authorized_setAutomationJobStatus {n now : ℤ} {status : JobStatus}
    (h : setAutomationJobStatus n status now s = .ok (u, s')) : s'.authorized = s.authorized := by
  rw [jobsOnly_setAutomationJobStatus h]

theorem authorized_recordAutomationSignAttempt {n now : ℤ}
    (h : recordAutomationSignAttempt n now s = .ok (u, s')) : s'.authorized = s.authorized := by
  rw [jobsOnly_recordAutomationSignAttempt h]

/-- The jobs after an `UPDATE` of one. -/
theorem automationJobRow_update {s s' : Store} {n : ℤ} {f : Job → Job}
    (h : s'.jobs = Table.update Job.treeSize n f s.jobs)
    (hf : ∀ job, (f job).treeSize = job.treeSize) (m : ℤ) :
    s'.automationJobRow m =
      if m = n then (s.automationJobRow n).map f else s.automationJobRow m := by
  rw [Store.automationJobRow, h]
  exact Table.lookup_update hf _ _ _

/-- A job is created with its counters at zero, or it is there already. -/
theorem create_of_ok {job : Job} (h : createAutomationJob job s = .ok (u, s')) :
    s' = s ∨ s.automationJobRow job.treeSize = none ∧ ∃ job' : Job,
      job'.treeSize = job.treeSize ∧ job'.resignCount = 0 ∧ job'.signAttempts = 0 ∧
        s'.jobs = s.jobs ++ [job'] := by
  rw [createAutomationJob] at h
  split at h
  · split at h <;> cases h
    exact Or.inl rfl
  next hnone =>
    cases h
    refine Or.inr ⟨hnone, { job with
      status := .pending, resignCount := 0, signAttempts := 0, updatedAt := job.authorizeAt },
      rfl, rfl, rfl, rfl⟩

/-- The job after a sign attempt. -/
def Job.attempted (now : ℤ) (job : Job) : Job :=
  { job with signAttempts := job.signAttempts + 1, updatedAt := now }

/-- A sign attempt is counted in a pending job that has had one at most. -/
theorem attempt_of_ok {n now : ℤ} (h : recordAutomationSignAttempt n now s = .ok (u, s')) :
    ∃ job, s.automationJobRow n = some job ∧ job.signAttempts < 2 ∧
      s'.jobs = Table.update Job.treeSize n (Job.attempted now) s.jobs := by
  rw [recordAutomationSignAttempt] at h
  split at h
  · cases h
  next job hjob =>
    split at h
    · cases h
    · split at h
      · cases h
      next hcap =>
        cases h
        exact ⟨job, hjob, Nat.not_le.mp hcap, rfl⟩

/-- The job after a resign. -/
def Job.resigned (requestId params : PyStr) (authorizeAt : ℤ) (job : Job) : Job :=
  { job with
    requestId := requestId
    params := params
    authorizeAt := authorizeAt
    status := .pending
    resignCount := job.resignCount + 1
    signAttempts := 0
    updatedAt := authorizeAt }

/-- What a resign checked and wrote. -/
structure Resign (n authorizeAt : ℤ) (requestId params : PyStr) (s s' : Store) : Prop where
  job : ∃ job, s.automationJobRow n = some job ∧ job.status = .authorized ∧ job.resignCount = 0
  unlatched : ∀ row, s.authorizedRow n = some row → row.Unlatched
  authorized : s'.authorized = Table.erase AuthorizedRow.treeSize n s.authorized
  jobs : s'.jobs =
    Table.update Job.treeSize n (Job.resigned requestId params authorizeAt) s.jobs
  sends : s'.sends = s.sends

theorem resign_of_ok {n authorizeAt : ℤ} {requestId params : PyStr}
    (h : beginAutomationResign n requestId params authorizeAt s = .ok (u, s')) :
    Resign n authorizeAt requestId params s s' := by
  rw [beginAutomationResign] at h
  split at h
  · cases h
  next job hjob =>
    split at h
    · cases h
    next hstatus =>
      split at h
      · cases h
      next hcount =>
        cases hrequire : requireUnlatched (s.authorizedRow n)
            "cannot resign after SEND_ATTEMPTED" with
        | error e => rw [hrequire] at h; cases h
        | ok _ =>
            rw [hrequire] at h
            cases h
            refine ⟨⟨job, hjob, not_not.mp hstatus, by omega⟩, fun row hrow => ?_, rfl, rfl, rfl⟩
            rw [hrow] at hrequire
            exact unlatched_of_require hrequire

/-- A resign deletes an unlatched row. -/
theorem authorized_beginAutomationResign {n authorizeAt : ℤ} {requestId params : PyStr}
    (h : beginAutomationResign n requestId params authorizeAt s = .ok (u, s')) :
    (∀ row, s.authorizedRow n = some row → row.Unlatched) ∧
      s'.authorized = Table.erase AuthorizedRow.treeSize n s.authorized :=
  ⟨(resign_of_ok h).unlatched, (resign_of_ok h).authorized⟩

/-- The job after its status was set. -/
def Job.withStatus (status : JobStatus) (now : ℤ) (job : Job) : Job :=
  { job with status := status, updatedAt := now }

/-- `set_automation_job_status` writes the status. -/
theorem jobStatus_of_ok {n now : ℤ} {status : JobStatus}
    (h : setAutomationJobStatus n status now s = .ok (u, s')) :
    s'.jobs = Table.update Job.treeSize n (Job.withStatus status now) s.jobs := by
  rw [setAutomationJobStatus] at h
  split at h
  · cases h
  · split at h
    · cases h
    · split at h <;> cases h
      rfl

/-- What a reservation that was granted checked and wrote. -/
structure Reservation (n fee now : ℤ) (expected : PyStr) (b : Budget) (s s' : Store) : Prop where
  fee_pos : 1 ≤ fee
  fresh : s.sendRow n = none
  row : ∃ row, s.authorizedRow n = some row ∧ row.Unlatched ∧ row.signed ≠ []
  job : ∃ job, s.automationJobRow n = some job ∧ job.status = .authorized
  hourly : s.sendCount b.hourStart < b.hourlyMax
  daily : s.sendFees b.dayStart + fee ≤ b.dailyMax
  monthly : s.sendFees b.monthStart + fee ≤ b.monthlyMax
  authorized : s'.authorized =
    Table.update AuthorizedRow.treeSize n (latchRow expected.strip now) s.authorized
  jobs : s'.jobs = Table.update Job.treeSize n (Job.withStatus .sendAttempted now) s.jobs
  sends : s'.sends = s.sends ++ [⟨n, expected.strip, fee, now, .sendAttempted⟩]

theorem reservation_of_ok {n fee now : ℤ} {expected : PyStr} {b : Budget}
    (h : reserveAutomaticSend n expected fee now b s = .ok (u, s')) :
    Reservation n fee now expected b s s' := by
  rw [reserveAutomaticSend] at h
  dsimp only at h
  split at h
  · cases h
  next hfee =>
    rw [not_or, Int.not_lt] at hfee
    split at h
    · split at h <;> cases h
    next hfresh =>
      split at h
      next auth job hauth hjob =>
        split at h
        · cases h
        next hsigned =>
          split at h
          · cases h
          next hstatus =>
            cases hrequire : requireUnlatched (some auth) "automatic send already latched" with
            | error e => rw [hrequire] at h; cases h
            | ok _ =>
                rw [hrequire] at h
                have hrow := unlatched_of_require hrequire
                change (if _ then _ else _) = _ at h
                split at h
                · cases h
                next hhourly =>
                  split at h
                  · cases h
                  next hdaily =>
                    split at h
                    · cases h
                    next hmonthly =>
                      split at h
                      · cases h
                      · cases h
                        exact
                          { fee_pos := hfee.2
                            fresh := hfresh
                            row := ⟨auth, hauth, hrow, hsigned⟩
                            job := ⟨job, hjob, not_not.mp hstatus⟩
                            hourly := Int.not_le.mp hhourly
                            daily := Int.not_lt.mp hdaily
                            monthly := Int.not_lt.mp hmonthly
                            authorized := rfl
                            jobs := rfl
                            sends := rfl }
      · cases h

/-- A reservation latches an unlatched, signed row. -/
theorem authorized_reserveAutomaticSend {n fee now : ℤ} {expected : PyStr} {b : Budget}
    (h : reserveAutomaticSend n expected fee now b s = .ok (u, s')) :
    (∃ row, s.authorizedRow n = some row ∧ row.Unlatched ∧ row.signed ≠ []) ∧
      s'.authorized = Table.update AuthorizedRow.treeSize n (latchRow expected.strip now)
        s.authorized := ⟨(reservation_of_ok h).row, (reservation_of_ok h).authorized⟩

/-- What `set_automatic_send_status` writes, before and after it prunes. -/
structure SendStatusSet (n now : ℤ) (want : SendStatus) (s s' : Store) : Prop where
  send : ∃ send, s.sendRow n = some send ∧ send.status.rank ≤ want.rank
  authorized : s'.authorized = s.authorized
  jobs : s'.jobs = (Table.update Job.treeSize n (Job.withStatus want.toJob now) s.jobs).filter
    fun job => !(want = .confirmed ∧ job.status = .confirmed ∧
      job.updatedAt < now - automationRetention)
  sends : s'.sends = (Table.update Send.treeSize n (fun send => { send with status := want })
      s.sends).filter
    fun send => !(want = .confirmed ∧ send.status = .confirmed ∧
      send.attemptedAt < now - automationRetention)

theorem sendStatusSet_of_ok {n now : ℤ} {want : SendStatus}
    (h : setAutomaticSendStatus n want now s = .ok (u, s')) : SendStatusSet n now want s s' := by
  rw [setAutomaticSendStatus] at h
  split at h
  · cases h
  · split at h
    · cases h
    next send hsend =>
      split at h
      · cases h
      next hrank =>
        dsimp only at h
        cases h
        have hsend' : ∃ send, s.sendRow n = some send ∧ send.status.rank ≤ want.rank :=
          ⟨send, hsend, Nat.not_lt.mp hrank⟩
        by_cases hwant : want = .confirmed
        · rw [if_pos hwant]
          subst hwant
          refine ⟨hsend', rfl, ?_, ?_⟩
          · change List.filter _ _ = List.filter _ _
            simp only [true_and]
            rfl
          · change List.filter _ _ = List.filter _ _
            simp only [true_and]
            rfl
        · rw [if_neg hwant]
          refine ⟨hsend', rfl, ?_, ?_⟩
          · simp only [hwant, false_and, decide_false, Bool.not_false, List.filter_true]
            rfl
          · simp only [hwant, false_and, decide_false, Bool.not_false, List.filter_true]
            rfl

theorem authorized_setAutomaticSendStatus {n now : ℤ} {want : SendStatus}
    (h : setAutomaticSendStatus n want now s = .ok (u, s')) : s'.authorized = s.authorized :=
  (sendStatusSet_of_ok h).authorized

end Effects

end Signal402.AnchorStore
