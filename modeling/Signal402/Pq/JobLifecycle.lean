import Signal402.Pq.StoreCalls

/-!
# The lifecycle of an automation job

A HALTED job stays HALTED, and the status of a job only moves up in rank, except
that a resign takes an AUTHORIZED job back to PENDING.  All writers of the
status column keep to this but `set_automatic_send_status`: it compares the
status it is given with the status of the send row, and writes it to the job
without a look at the job's own.

* `Lawful` — what one call may do to the job of a tree size.
* `Aligned` — the condition under which `set_automatic_send_status` keeps to it.
* `job_lifecycle` — a run is lawful exactly when its calls are aligned.
* `halted_job_revived` — a run that takes a HALTED job back to SUBMITTED.
-/

namespace Signal402.StoreCalls

open AnchorStore

/-- A move of a job's status that the lifecycle allows. -/
def StatusMove (call : Call) (job job' : Job) : Prop :=
  (job.status = .halted → job'.status = .halted) ∧
    (autoStatusRank job.status ≤ autoStatusRank job'.status ∨
      ∃ requestId params authorizeAt,
        call = .beginAutomationResign job.treeSize requestId params authorizeAt ∧
          job.status = .authorized ∧ job'.status = .pending)

theorem StatusMove.of_eq {call : Call} {job job' : Job} (h : job'.status = job.status) :
    StatusMove call job job' := ⟨fun hhalted => h.trans hhalted, Or.inl (h ▸ le_rfl)⟩

/-- A call that keeps to the lifecycle of the job of size `n`: it moves the job's
status as it may, or deletes a job that is not HALTED. -/
def Lawful (t : Transition) (n : ℤ) : Prop :=
  ∀ job, t.before.automationJobRow n = some job →
    match t.after.automationJobRow n with
    | some job' => StatusMove t.call job job'
    | none => job.status ≠ .halted

/-- A `set_automatic_send_status` call that finds the send row at no higher status
than the one it sets finds the job at no higher status either. -/
def Aligned (t : Transition) : Prop :=
  match t.call with
  | .setAutomaticSendStatus n status _ =>
      ∀ want send job, sendStatus? status.strip = some want →
        t.before.sendRow n = some send → send.status.rank ≤ want.rank →
        t.before.automationJobRow n = some job →
          autoStatusRank job.status ≤ autoStatusRank want.toJob
  | _ => True

/-! ## What the calls do to the jobs -/

section Jobs

variable {s s' : Store} {call : Call} {r : Except PyError Unit}

/-- What a call other than `set_automatic_send_status` does to the jobs. -/
inductive JobsChange (call : Call) (s s' : Store) : Prop
  | same (h : s'.jobs = s.jobs)
  | added {job : Job} (h : s'.jobs = s.jobs ++ [job])
      (hnone : s.automationJobRow job.treeSize = none)
  | updated {m : ℤ} (f : Job → Job) (hf : ∀ job, (f job).treeSize = job.treeSize)
      (h : s'.jobs = Table.update Job.treeSize m f s.jobs)
      (hmove : ∀ job, s.automationJobRow m = some job → StatusMove call job (f job))

theorem JobsChange.unique (h : JobsChange call s s') (hkeys : Table.Unique Job.treeSize s.jobs) :
    Table.Unique Job.treeSize s'.jobs := by
  cases h with
  | same h =>
      rw [h]
      exact hkeys
  | added h hnone =>
      rw [h]
      exact hkeys.append hnone
  | updated f hf h =>
      rw [h]
      exact hkeys.update hf

theorem JobsChange.lawful (h : JobsChange call s s') (n : ℤ) : Lawful ⟨s, call, r, s'⟩ n := by
  intro job hjob
  dsimp only at hjob ⊢
  cases h with
  | same h =>
      rw [show s'.automationJobRow n = some job by rw [Store.automationJobRow, h]; exact hjob]
      exact StatusMove.of_eq rfl
  | added h hnone =>
      have hafter : s'.automationJobRow n = some job := by
        rw [Store.automationJobRow, h, Table.lookup_append]
        change (s.automationJobRow n).or _ = _
        rw [hjob]
        rfl
      rw [hafter]
      exact StatusMove.of_eq rfl
  | @updated m f hf h hmove =>
      rw [automationJobRow_update h hf]
      by_cases hn : n = m
      · subst hn
        rw [if_pos rfl, hjob]
        exact hmove job hjob
      · rw [if_neg hn, hjob]
        exact StatusMove.of_eq rfl

theorem jobsChange_created {job : Job} (h : createAutomationJob job s = .ok ((), s')) :
    JobsChange call s s' := by
  rw [createAutomationJob] at h
  split at h
  · split at h <;> cases h
    exact .same rfl
  next hnone =>
    cases h
    exact .added rfl hnone

/-- `set_automation_job_status` refuses a smaller rank, and a HALTED job. -/
theorem jobsChange_jobStatusSet {m now : ℤ} {want : JobStatus}
    (h : setAutomationJobStatus m want now s = .ok ((), s')) : JobsChange call s s' := by
  rw [setAutomationJobStatus] at h
  split at h
  · cases h
  next existing hexisting =>
    split at h
    · cases h
    next hhalted =>
      split at h
      · cases h
      next hrank =>
        cases h
        refine .updated (Job.withStatus want now) (fun _ => rfl) rfl fun job hjob => ?_
        rw [hexisting] at hjob
        cases hjob
        rw [not_and_or, not_not] at hhalted hrank
        refine ⟨fun heq => hhalted.resolve_left (not_not.mpr heq), Or.inl ?_⟩
        rcases hrank with hwant | hle
        · change _ ≤ autoStatusRank want
          rw [hwant]
          cases existing.status <;> decide
        · exact Nat.not_lt.mp hle

theorem jobsChange_signAttempted {m now : ℤ}
    (h : recordAutomationSignAttempt m now s = .ok ((), s')) : JobsChange call s s' := by
  rw [recordAutomationSignAttempt] at h
  split at h
  · cases h
  · split at h
    · cases h
    · split at h <;> cases h
      exact .updated
        (fun job => { job with signAttempts := job.signAttempts + 1, updatedAt := now })
        (fun _ => rfl) rfl fun job _ => StatusMove.of_eq rfl

/-- A resign takes an AUTHORIZED job back to PENDING. -/
theorem jobsChange_resigned {m authorizeAt : ℤ} {requestId params : PyStr}
    (h : beginAutomationResign m requestId params authorizeAt s = .ok ((), s')) :
    JobsChange (.beginAutomationResign m requestId params authorizeAt) s s' := by
  have hresign := resign_of_ok h
  obtain ⟨job, hjob, hstatus, -⟩ := hresign.job
  refine .updated (Job.resigned requestId params authorizeAt) (fun _ => rfl) hresign.jobs
    fun job' hjob' => ?_
  have hsize : job'.treeSize = m := Table.lookup_key hjob'
  rw [hjob] at hjob'
  cases hjob'
  refine ⟨fun heq => ?_, Or.inr ⟨requestId, params, authorizeAt, ?_, hstatus, rfl⟩⟩
  · rw [hstatus] at heq
    cases heq
  · rw [hsize]

/-- A reservation takes an AUTHORIZED job to SEND_ATTEMPTED. -/
theorem jobsChange_reserved {m fee now : ℤ} {expected : PyStr} {b : Budget}
    (h : reserveAutomaticSend m expected fee now b s = .ok ((), s')) :
    JobsChange call s s' := by
  have hreserved := reservation_of_ok h
  obtain ⟨job, hjob, hstatus⟩ := hreserved.job
  refine .updated (Job.withStatus .sendAttempted now) (fun _ => rfl) hreserved.jobs
    fun job' hjob' => ?_
  rw [hjob] at hjob'
  cases hjob'
  refine ⟨fun heq => ?_, Or.inl ?_⟩
  · rw [hstatus] at heq
    cases heq
  · rw [hstatus]
    exact Nat.le_succ 1

/-- What a call does to the jobs, as far as it is not `set_automatic_send_status`. -/
theorem Effect.jobsChange (h : Effect s call s') :
    (JobsChange call s s' ∧ ∀ r, Aligned ⟨s, call, r, s'⟩) ∨
      ∃ n status now want, call = .setAutomaticSendStatus n status now ∧
        sendStatus? status.strip = some want ∧ SendStatusSet n now want s s' := by
  cases h with
  | agreed a => exact Or.inl ⟨.same rfl, fun _ => trivial⟩
  | updated _ _ => exact Or.inl ⟨.same rfl, fun _ => trivial⟩
  | inserted _ => exact Or.inl ⟨.same rfl, fun _ => trivial⟩
  | missing n => exact Or.inl ⟨.same rfl, fun _ => trivial⟩
  | discarded _ => exact Or.inl ⟨.same rfl, fun _ => trivial⟩
  | created h => exact Or.inl ⟨jobsChange_created h, fun _ => trivial⟩
  | jobStatusSet _ h => exact Or.inl ⟨jobsChange_jobStatusSet h, fun _ => trivial⟩
  | signAttempted h => exact Or.inl ⟨jobsChange_signAttempted h, fun _ => trivial⟩
  | resigned h => exact Or.inl ⟨jobsChange_resigned h, fun _ => trivial⟩
  | reserved h => exact Or.inl ⟨jobsChange_reserved h, fun _ => trivial⟩
  | sendStatusSet hstatus h => exact Or.inr ⟨_, _, _, _, rfl, hstatus, sendStatusSet_of_ok h⟩

/-- The jobs after `set_automatic_send_status`.  They are found by their primary
key, so pruning hides none that it keeps. -/
theorem automationJobRow_sendStatusSet {m now : ℤ} {want : SendStatus}
    (hkeys : Table.Unique Job.treeSize s.jobs) (h : SendStatusSet m now want s s') (n : ℤ) :
    s'.automationJobRow n =
      (if n = m then
        (s.automationJobRow m).map (Job.withStatus want.toJob now)
      else s.automationJobRow n).filter fun job =>
        !(want = .confirmed ∧ job.status = .confirmed ∧
          job.updatedAt < now - automationRetention) := by
  have hkey : ∀ job, (Job.withStatus want.toJob now job).treeSize = job.treeSize := fun _ => rfl
  rw [Store.automationJobRow, h.jobs, Table.lookup_filter (hkeys.update hkey),
    Table.lookup_update hkey]
  rfl

/-- The job whose status is set is not pruned. -/
theorem automationJobRow_sendStatusSet_self {m now : ℤ} {want : SendStatus} {job : Job}
    (hkeys : Table.Unique Job.treeSize s.jobs) (h : SendStatusSet m now want s s')
    (hjob : s.automationJobRow m = some job) :
    s'.automationJobRow m = some (Job.withStatus want.toJob now job) := by
  rw [automationJobRow_sendStatusSet hkeys h, if_pos rfl, hjob]
  have hnow : ¬now < now - automationRetention := by
    rw [automationRetention]
    omega
  simp [Option.filter, Job.withStatus, hnow]

theorem lawful_sendStatusSet {m now : ℤ} {want : SendStatus}
    (hkeys : Table.Unique Job.treeSize s.jobs) (h : SendStatusSet m now want s s')
    (haligned : ∀ job, s.automationJobRow m = some job →
      autoStatusRank job.status ≤ autoStatusRank want.toJob) (n : ℤ) :
    Lawful ⟨s, call, r, s'⟩ n := by
  intro job hjob
  dsimp only at hjob ⊢
  by_cases hn : n = m
  · subst hn
    rw [automationJobRow_sendStatusSet_self hkeys h hjob]
    have hrank := haligned job hjob
    refine ⟨fun heq => ?_, Or.inl hrank⟩
    rw [heq] at hrank
    cases want <;> exact absurd hrank (by decide)
  · rw [automationJobRow_sendStatusSet hkeys h, if_neg hn, hjob, Option.filter_some]
    split
    next hif =>
      split at hif
      · cases hif
        exact StatusMove.of_eq rfl
      · cases hif
    next hif =>
      split at hif
      · cases hif
      next hpruned =>
        simp only [Bool.not_eq_true', decide_eq_false_iff_not, not_not] at hpruned
        rw [hpruned.2.1]
        exact JobStatus.noConfusion

/-- A status set below the job's own is not lawful. -/
theorem not_lawful_sendStatusSet {m now : ℤ} {want : SendStatus} {job : Job} {status : PyStr}
    (hkeys : Table.Unique Job.treeSize s.jobs) (h : SendStatusSet m now want s s')
    (hjob : s.automationJobRow m = some job)
    (hlt : autoStatusRank want.toJob < autoStatusRank job.status) :
    ¬Lawful ⟨s, .setAutomaticSendStatus m status now, r, s'⟩ m := by
  intro hlawful
  have hmove := hlawful job hjob
  dsimp only at hmove
  rw [automationJobRow_sendStatusSet_self hkeys h hjob] at hmove
  rcases hmove.2 with hle | ⟨requestId, params, authorizeAt, hcall, -⟩
  · exact absurd hle (Nat.not_le.mpr hlt)
  · cases hcall

end Jobs

/-! ## Whole runs -/

section Runs

variable {s s' : Store} {call : Call}

theorem Effect.unique_jobs (h : Effect s call s') (hkeys : Table.Unique Job.treeSize s.jobs) :
    Table.Unique Job.treeSize s'.jobs := by
  rcases h.jobsChange with ⟨hchange, -⟩ | ⟨n, status, now, want, -, -, hset⟩
  · exact hchange.unique hkeys
  · have hkey : ∀ job, (Job.withStatus want.toJob now job).treeSize = job.treeSize :=
      fun _ => rfl
    rw [hset.jobs]
    exact (hkeys.update hkey).filter _

/-- **What a call does to the lifecycle.**  A call that returns is lawful for every
tree size exactly when it is aligned. -/
theorem Effect.lawful_iff (h : Effect s call s') (hkeys : Table.Unique Job.treeSize s.jobs)
    (r : Except PyError Unit) :
    (∀ n, Lawful ⟨s, call, r, s'⟩ n) ↔ Aligned ⟨s, call, r, s'⟩ := by
  rcases h.jobsChange with ⟨hchange, haligned⟩ | ⟨m, status, now, want, rfl, hstatus, hset⟩
  · exact ⟨fun _ => haligned r, fun _ => hchange.lawful⟩
  · obtain ⟨send, hsend, hrank⟩ := hset.send
    constructor
    · intro hlawful want' send' job hwant' hsend' _ hjob
      rw [hstatus] at hwant'
      cases hwant'
      by_contra hlt
      exact not_lawful_sendStatusSet hkeys hset hjob (Nat.not_le.mp hlt) (hlawful m)
    · intro haligned n
      refine lawful_sendStatusSet hkeys hset (fun job hjob => ?_) n
      exact haligned want send job hstatus hsend hrank hjob

/-- A call that raises is lawful. -/
theorem lawful_of_unchanged {t : Transition} (h : t.after = t.before) (n : ℤ) : Lawful t n := by
  intro job hjob
  rw [h, hjob]
  exact StatusMove.of_eq rfl

theorem Run.unique_jobs {ts : List Transition} (h : Run s ts s')
    (hkeys : Table.Unique Job.treeSize s.jobs) :
    Table.Unique Job.treeSize s'.jobs ∧ ∀ t ∈ ts, Table.Unique Job.treeSize t.before.jobs := by
  induction h with
  | nil => exact ⟨hkeys, by simp⟩
  | @snoc ts t _ ht ih =>
      obtain ⟨hbefore, hall⟩ := ih
      refine ⟨?_, fun t' hmem => ?_⟩
      · rcases ht.outcome with ⟨-, hafter⟩ | ⟨-, heffect⟩
        · rw [hafter]
          exact hbefore
        · exact heffect.unique_jobs hbefore
      · rcases List.mem_append.mp hmem with hmem | hmem
        · exact hall t' hmem
        · rw [List.mem_singleton.mp hmem]
          exact hbefore

/-- A HALTED job of a lawful run stays HALTED. -/
theorem Run.halted {ts : List Transition} (h : Run s ts s')
    (hlawful : ∀ t ∈ ts, ∀ n, Lawful t n) {n : ℤ} {job : Job}
    (hjob : s.automationJobRow n = some job) (hhalted : job.status = .halted) :
    ∃ job', s'.automationJobRow n = some job' ∧ job'.status = .halted := by
  refine h.preserves (K := fun s => ∃ job', s.automationJobRow n = some job' ∧
    job'.status = .halted) ?_ ⟨job, hjob, hhalted⟩
  rintro t hmem - ⟨job', hjob', hhalted'⟩
  have hmove := hlawful t hmem n job' hjob'
  cases hafter : t.after.automationJobRow n with
  | none =>
      rw [hafter] at hmove
      exact absurd hhalted' hmove
  | some job'' =>
      rw [hafter] at hmove
      exact ⟨job'', rfl, hmove.1 hhalted'⟩

/-- **The lifecycle of an automation job.**  Every call of a run keeps to the
lifecycle of every job exactly when every call that returns is aligned, and then
a HALTED job stays HALTED. -/
theorem job_lifecycle {ts : List Transition} (h : Run s ts s')
    (hkeys : Table.Unique Job.treeSize s.jobs) :
    ((∀ t ∈ ts, ∀ n, Lawful t n) ↔ ∀ t ∈ ts, t.result = .ok () → Aligned t) ∧
      ((∀ t ∈ ts, t.result = .ok () → Aligned t) → ∀ n job, s.automationJobRow n = some job →
        job.status = .halted →
          ∃ job', s'.automationJobRow n = some job' ∧ job'.status = .halted) := by
  have hcalls : (∀ t ∈ ts, ∀ n, Lawful t n) ↔ ∀ t ∈ ts, t.result = .ok () → Aligned t := by
    refine forall₂_congr fun t hmem => ?_
    have hunique := (h.unique_jobs hkeys).2 t hmem
    rcases (h.valid t hmem).outcome with ⟨⟨e, hraised⟩, hafter⟩ | ⟨hok, heffect⟩
    · refine ⟨fun _ hok => ?_, fun _ => lawful_of_unchanged hafter⟩
      rw [hraised] at hok
      cases hok
    · rw [heffect.lawful_iff hunique t.result]
      exact ⟨fun haligned _ => haligned, fun haligned => haligned hok⟩
  refine ⟨hcalls, fun haligned n job hjob hhalted => ?_⟩
  exact h.halted (hcalls.mpr haligned) hjob hhalted

end Runs

/-! ## Two runs -/

/-- A row that is signed and not sent. -/
def signedRow : AuthorizedRow where
  treeSize := 1
  origin := "402signal.com/pq/log/mainnet-v1"
  root := "6e340b9cffb37a989ca544e6bb780a2c78901d3fb33738768511a30617afa01d"
  checkpoint := "note"
  requestId := "request"
  signed := [1]
  at' := 1000
  submitted := false
  txid := []
  sendState := .authorized
  expectedTxid := []
  feePolicy := "policy"
  fv := 1
  lv := 1001
  sendAttemptedAt := 0

/-- A store with that row and no job. -/
def signedStore : Store := ⟨[signedRow], [], [], 1⟩

/-- The job of that row. -/
def firstJob : Job where
  treeSize := 1
  origin := signedRow.origin
  root := signedRow.root
  checkpoint := signedRow.checkpoint
  requestId := signedRow.requestId
  params := "params"
  authorizeAt := 1000
  status := .pending
  resignCount := 0
  signAttempts := 0
  updatedAt := 1000

/-- From the job's creation to its reservation. -/
def reserveCalls : List Call :=
  [.createAutomationJob firstJob, .setAutomationJobStatus 1 "AUTHORIZED" 1001,
    .reserveAutomaticSend 1 "TXID" 3000 1002 ⟨0, 0, 0, 12, 500000, 10000000⟩]

/-- A job goes its way to CONFIRMED. -/
theorem job_lifecycle_run :
    let calls := reserveCalls ++ [.setAutomaticSendStatus 1 "SUBMITTED" 1003,
      .setAutomaticSendStatus 1 "CONFIRMED" 1004]
    (∀ t ∈ transitions signedStore calls, ∀ n, Lawful t n) ↔
      ∀ t ∈ transitions signedStore calls, t.result = .ok () → Aligned t :=
  (job_lifecycle (run_transitions signedStore _) List.nodup_nil).1

/-- A job is HALTED after its reservation, and the send row then takes it back to
SUBMITTED. -/
theorem halted_job_revived :
    ¬∀ (calls : List Call) (n : ℤ) (job : Job), (after signedStore calls).automationJobRow n = some job →
      job.status = .halted → ∀ later, ∃ job',
        (after signedStore (calls ++ later)).automationJobRow n = some job' ∧
          job'.status = .halted := by
  intro h
  have hhalted := h (reserveCalls ++ [.setAutomationJobStatus 1 "HALTED" 1003]) 1
    { firstJob with status := .halted, updatedAt := 1003 } (by decide +kernel) rfl
    [.setAutomaticSendStatus 1 "SUBMITTED" 1004]
  obtain ⟨job', hjob', hstatus⟩ := hhalted
  have hrevived : (after signedStore (reserveCalls ++ [.setAutomationJobStatus 1 "HALTED" 1003] ++
      [.setAutomaticSendStatus 1 "SUBMITTED" 1004])).automationJobRow 1 =
        some { firstJob with status := .submitted, updatedAt := 1004 } := by decide +kernel
  rw [hrevived] at hjob'
  cases hjob'
  cases hstatus

end Signal402.StoreCalls
