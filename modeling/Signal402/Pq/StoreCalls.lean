import Signal402.Base.Effect
import Signal402.Pq.AnchorStore

/-!
# Calls of the anchor store (`store.py`)

The functions of `store.py` on the anchor tables, each as one atomic call with
the arguments it takes, and the runs that sequences of calls make.

* `immediate` — a function that runs under `BEGIN IMMEDIATE` and rolls back when
  it raises.
* `saveAuthorizedCheckpoint`, `discardAuthorizedCheckpoint` — the two functions
  that write without a `rollback`: what they wrote before they raise would stay.
* `Call` / `Call.code` — a call with its arguments, and what it runs.
* `Transition` / `Run` — a call of a run with the store before and after it, and
  a whole run.  A call may also fail at its first write, as when an integer does
  not fit a column or the database is locked; then nothing is written.
* `Effect` — what a call that returned did to the store, one constructor for each
  of its outcomes; `outcome_code` is the inversion that later proofs use.
-/

namespace Signal402.StoreCalls

open AnchorStore

variable {α : Type}

/-- A transaction that starts with `BEGIN IMMEDIATE`: it commits, or it is rolled
back and the exception goes on. -/
def immediate (f : Store → Except PyError (α × Store)) : Eff Store α := fun s =>
  match f s with
  | .ok (a, s') => (.ok a, s')
  | .error e => (.error e, s)

theorem exec_immediate (f : Store → Except PyError (α × Store)) (s : Store) :
    exec (immediate f) s =
      match f s with
      | .ok (a, s') => (.ok a, s')
      | .error e => (.error e, s) := rfl

theorem immediate_cases {f : Store → Except PyError (α × Store)} {s s' : Store}
    {r : Except PyError α} (h : exec (immediate f) s = (r, s')) :
    (∃ a, r = .ok a ∧ f s = .ok (a, s')) ∨ (∃ e, r = .error e) ∧ s' = s := by
  rw [exec_immediate] at h
  cases hf : f s with
  | ok p =>
      rw [hf] at h
      cases h
      exact Or.inl ⟨p.1, rfl, rfl⟩
  | error e =>
      rw [hf] at h
      cases h
      exact Or.inr ⟨⟨e, rfl⟩, rfl⟩

/-! ## The functions without a rollback -/

/-- Persist a row.  The same checkpoint is idempotent; a different one is refused. -/
def saveAuthorizedCheckpoint (a : SaveArgs) : Eff Store AuthorizedRow := do
  let _ ← .ofExcept (sendStateRank a.sendState)
  let row ← .reads fun s => s.authorizedRow a.treeSize
  match row.filter fun row => row.signed ≠ [] with
  | some existing =>
      if ← .ofExcept (saveCheck existing a) then
        .modifies (updateAuthorized existing a)
        return (← .reads fun s => s.authorizedRow a.treeSize).getD existing
      else return existing
  | none =>
      .modifies (insertAuthorized a)
      return (← .reads fun s => s.authorizedRow a.treeSize).getD (newRow a)

/-- The `DELETE` of a row, and of the pointer to it. -/
def deleteAuthorized (n : ℤ) (s : Store) : Store :=
  { s with
    authorized := Table.erase AuthorizedRow.treeSize n s.authorized
    lastAuthorized := if s.lastAuthorized = n then 0 else s.lastAuthorized }

/-- Explicit operator discard of a row before `SEND_ATTEMPTED`. -/
def discardAuthorizedCheckpoint (n : ℤ) : Eff Store Unit := do
  match ← .reads fun s => s.authorizedRow n with
  | none => return ()
  | some existing =>
      if latchedRank ≤ (← .ofExcept (sendStateRank existing.sendState)) then
        throw ⟨.storeError, "cannot discard after SEND_ATTEMPTED"⟩
      else .modifies (deleteAuthorized n)

/-! ## Calls -/

/-- The statuses that `_AUTO_STATUS_RANK` knows. -/
def jobStatus? (text : PyStr) : Option JobStatus :=
  if text = "PENDING" then some .pending
  else if text = "AUTHORIZED" then some .authorized
  else if text = "SEND_ATTEMPTED" then some .sendAttempted
  else if text = "SUBMITTED" then some .submitted
  else if text = "CONFIRMED" then some .confirmed
  else if text = "HALTED" then some .halted
  else none

/-- The statuses that `set_automatic_send_status` accepts. -/
def sendStatus? (text : PyStr) : Option SendStatus :=
  if text = "SUBMITTED" then some .submitted
  else if text = "CONFIRMED" then some .confirmed
  else none

/-- A function of the store with its arguments. -/
inductive Call
  | saveAuthorizedCheckpoint (a : SaveArgs)
  | discardAuthorizedCheckpoint (n : ℤ)
  | createAutomationJob (job : Job)
  | setAutomationJobStatus (n : ℤ) (status : PyStr) (now : ℤ)
  | recordAutomationSignAttempt (n now : ℤ)
  | beginAutomationResign (n : ℤ) (requestId params : PyStr) (authorizeAt : ℤ)
  | reserveAutomaticSend (n : ℤ) (expected : PyStr) (fee now : ℤ) (b : Budget)
  | setAutomaticSendStatus (n : ℤ) (status : PyStr) (now : ℤ)

/-- What a call runs. -/
def Call.code : Call → Eff Store Unit
  | .saveAuthorizedCheckpoint a => do let _ ← StoreCalls.saveAuthorizedCheckpoint a
  | .discardAuthorizedCheckpoint n => StoreCalls.discardAuthorizedCheckpoint n
  | .createAutomationJob job => immediate (AnchorStore.createAutomationJob job)
  | .setAutomationJobStatus n status now =>
      match jobStatus? status.strip with
      | none => throw ⟨.storeError, "unknown automation status"⟩
      | some want => immediate (AnchorStore.setAutomationJobStatus n want now)
  | .recordAutomationSignAttempt n now => immediate (AnchorStore.recordAutomationSignAttempt n now)
  | .beginAutomationResign n requestId params authorizeAt =>
      immediate (AnchorStore.beginAutomationResign n requestId params authorizeAt)
  | .reserveAutomaticSend n expected fee now b =>
      immediate (AnchorStore.reserveAutomaticSend n expected fee now b)
  | .setAutomaticSendStatus n status now =>
      match sendStatus? status.strip with
      | none => throw ⟨.storeError, "invalid automatic send status"⟩
      | some want => immediate (AnchorStore.setAutomaticSendStatus n want now)

/-- A call of a run. -/
structure Transition where
  before : Store
  call : Call
  result : Except PyError Unit
  after : Store

/-- The call does what its code does, or fails at its first write. -/
inductive Transition.Valid (t : Transition) : Prop
  | ran (h : exec t.call.code t.before = (t.result, t.after))
  | failed {e : PyError} (hresult : t.result = .error e) (hafter : t.after = t.before)

/-- The calls `ts` in their order lead from one store to another. -/
inductive Run : Store → List Transition → Store → Prop
  | nil (s : Store) : Run s [] s
  | snoc {s : Store} {ts : List Transition} {t : Transition} (h : Run s ts t.before)
      (ht : t.Valid) : Run s (ts ++ [t]) t.after

theorem Run.valid {s s' : Store} {ts : List Transition} (h : Run s ts s') :
    ∀ t ∈ ts, t.Valid := by
  induction h with
  | nil => simp
  | snoc _ ht ih =>
      intro t hmem
      rcases List.mem_append.mp hmem with hmem | hmem
      · exact ih t hmem
      · rwa [List.mem_singleton.mp hmem]

/-- A property of the store that every call of a run preserves. -/
theorem Run.preserves {K : Store → Prop} {s s' : Store} {ts : List Transition}
    (h : Run s ts s') (hstep : ∀ t ∈ ts, t.Valid → K t.before → K t.after) (hs : K s) : K s' := by
  induction h with
  | nil => exact hs
  | snoc _ ht ih =>
      refine hstep _ (List.mem_append_right _ List.mem_cons_self) ht (ih fun t hmem => ?_)
      exact hstep t (List.mem_append_left _ hmem)

theorem Run.append {s s' s'' : Store} {ts ts' : List Transition} (h : Run s ts s')
    (h' : Run s' ts' s'') : Run s (ts ++ ts') s'' := by
  induction h' with
  | nil =>
      rw [List.append_nil]
      exact h
  | snoc _ ht ih =>
      rw [← List.append_assoc]
      exact ih.snoc ht

/-- A call that does not fail before its first write. -/
def Call.transition (call : Call) (s : Store) : Transition where
  before := s
  call := call
  result := (exec call.code s).1
  after := (exec call.code s).2

/-- The store after calls that do not fail. -/
def after (s : Store) (calls : List Call) : Store :=
  calls.foldl (fun s call => (call.transition s).after) s

/-- The transitions of calls that do not fail. -/
def transitions (s : Store) : List Call → List Transition
  | [] => []
  | call :: rest => call.transition s :: transitions (call.transition s).after rest

theorem run_transitions (s : Store) (calls : List Call) :
    Run s (transitions s calls) (after s calls) := by
  induction calls generalizing s with
  | nil => exact .nil s
  | cons call rest ih =>
      have hfirst : Run s ([] ++ [call.transition s]) (call.transition s).after :=
        .snoc (t := call.transition s) (.nil s) (.ran rfl)
      exact hfirst.append (ih _)

/-! ## What a call does -/

/-- What a call that returned did to the store. -/
inductive Effect (s : Store) : Call → Store → Prop
  | agreed (a : SaveArgs) : Effect s (.saveAuthorizedCheckpoint a) s
  | updated {a : SaveArgs} {existing : AuthorizedRow}
      (hrow : s.authorizedRow a.treeSize = some existing)
      (hcheck : saveCheck existing a = .ok true) :
      Effect s (.saveAuthorizedCheckpoint a) (updateAuthorized existing a s)
  | inserted {a : SaveArgs}
      (hrow : ∀ row, s.authorizedRow a.treeSize = some row → row.signed = []) :
      Effect s (.saveAuthorizedCheckpoint a) (insertAuthorized a s)
  | missing (n : ℤ) : Effect s (.discardAuthorizedCheckpoint n) s
  | discarded {n : ℤ} (hrow : ∀ row, s.authorizedRow n = some row → row.Unlatched) :
      Effect s (.discardAuthorizedCheckpoint n) (deleteAuthorized n s)
  | created {job : Job} {s' : Store} (h : createAutomationJob job s = .ok ((), s')) :
      Effect s (.createAutomationJob job) s'
  | jobStatusSet {n now : ℤ} {status : PyStr} {want : JobStatus} {s' : Store}
      (hstatus : jobStatus? status.strip = some want)
      (h : setAutomationJobStatus n want now s = .ok ((), s')) :
      Effect s (.setAutomationJobStatus n status now) s'
  | signAttempted {n now : ℤ} {s' : Store}
      (h : recordAutomationSignAttempt n now s = .ok ((), s')) :
      Effect s (.recordAutomationSignAttempt n now) s'
  | resigned {n authorizeAt : ℤ} {requestId params : PyStr} {s' : Store}
      (h : beginAutomationResign n requestId params authorizeAt s = .ok ((), s')) :
      Effect s (.beginAutomationResign n requestId params authorizeAt) s'
  | reserved {n fee now : ℤ} {expected : PyStr} {b : Budget} {s' : Store}
      (h : reserveAutomaticSend n expected fee now b s = .ok ((), s')) :
      Effect s (.reserveAutomaticSend n expected fee now b) s'
  | sendStatusSet {n now : ℤ} {status : PyStr} {want : SendStatus} {s' : Store}
      (hstatus : sendStatus? status.strip = some want)
      (h : setAutomaticSendStatus n want now s = .ok ((), s')) :
      Effect s (.setAutomaticSendStatus n status now) s'

section Effects

variable {s s' : Store} {r : Except PyError Unit}

/-- The call raised and changed nothing, or returned with its effect. -/
abbrev Outcome (s : Store) (call : Call) (r : Except PyError Unit) (s' : Store) : Prop :=
  ((∃ e, r = .error e) ∧ s' = s) ∨ (r = .ok () ∧ Effect s call s')

theorem outcome_immediate {f : Store → Except PyError (Unit × Store)} {call : Call}
    (h : exec (immediate f) s = (r, s'))
    (hf : ∀ {s'}, f s = .ok ((), s') → Effect s call s') : Outcome s call r s' := by
  rcases immediate_cases h with ⟨a, rfl, hs⟩ | hraised
  · exact Or.inr ⟨rfl, hf hs⟩
  · exact Or.inl hraised

theorem outcome_saveAuthorizedCheckpoint {a : SaveArgs}
    (h : exec (Call.saveAuthorizedCheckpoint a).code s = (r, s')) :
    Outcome s (.saveAuthorizedCheckpoint a) r s' := by
  simp only [Call.code, saveAuthorizedCheckpoint, Eff.exec_bind, Eff.exec_ofExcept,
    Eff.exec_reads] at h
  cases hstate : sendStateRank a.sendState with
  | error e =>
      rw [hstate] at h
      cases h
      exact Or.inl ⟨⟨e, rfl⟩, rfl⟩
  | ok rank =>
      rw [hstate] at h
      dsimp only at h
      cases hfilter : (s.authorizedRow a.treeSize).filter fun row => row.signed ≠ [] with
      | none =>
          rw [hfilter] at h
          cases h
          refine Or.inr ⟨rfl, .inserted fun row hrow => ?_⟩
          rw [hrow] at hfilter
          simpa [Option.filter] using hfilter
      | some existing =>
          rw [hfilter] at h
          have hrow := (Option.filter_eq_some_iff.mp hfilter).1
          simp only [Eff.exec_bind, Eff.exec_ofExcept] at h
          cases hcheck : saveCheck existing a with
          | error e =>
              rw [hcheck] at h
              cases h
              exact Or.inl ⟨⟨e, rfl⟩, rfl⟩
          | ok check =>
              rw [hcheck] at h
              cases check with
              | false =>
                  cases h
                  exact Or.inr ⟨rfl, .agreed a⟩
              | true =>
                  cases h
                  exact Or.inr ⟨rfl, .updated hrow hcheck⟩

theorem outcome_discardAuthorizedCheckpoint {n : ℤ}
    (h : exec (Call.discardAuthorizedCheckpoint n).code s = (r, s')) :
    Outcome s (.discardAuthorizedCheckpoint n) r s' := by
  simp only [Call.code, discardAuthorizedCheckpoint, Eff.exec_bind, Eff.exec_reads] at h
  cases hrow : s.authorizedRow n with
  | none =>
      rw [hrow] at h
      cases h
      exact Or.inr ⟨rfl, .missing n⟩
  | some existing =>
      rw [hrow] at h
      simp only [Eff.exec_bind, Eff.exec_ofExcept] at h
      cases hrank : sendStateRank existing.sendState with
      | error e =>
          rw [hrank] at h
          cases h
          exact Or.inl ⟨⟨e, rfl⟩, rfl⟩
      | ok rank =>
          rw [hrank] at h
          dsimp only at h
          by_cases hle : latchedRank ≤ rank
          · rw [if_pos hle] at h
            cases h
            exact Or.inl ⟨⟨_, rfl⟩, rfl⟩
          · rw [if_neg hle] at h
            cases h
            refine Or.inr ⟨rfl, .discarded fun row hrow' => ?_⟩
            rw [hrow] at hrow'
            cases hrow'
            rw [latchedRank] at hle
            rw [AuthorizedRow.Unlatched, hrank, show rank = 0 by omega]

/-- **What a call does.**  It raises and leaves the store as it is, or returns with
its effect. -/
theorem outcome_code {call : Call} (h : exec call.code s = (r, s')) : Outcome s call r s' := by
  cases call with
  | saveAuthorizedCheckpoint a => exact outcome_saveAuthorizedCheckpoint h
  | discardAuthorizedCheckpoint n => exact outcome_discardAuthorizedCheckpoint h
  | createAutomationJob job => exact outcome_immediate h .created
  | setAutomationJobStatus n status now =>
      cases hstatus : jobStatus? status.strip with
      | none =>
          rw [Call.code, hstatus] at h
          cases h
          exact Or.inl ⟨⟨_, rfl⟩, rfl⟩
      | some want =>
          rw [Call.code, hstatus] at h
          exact outcome_immediate h (.jobStatusSet hstatus)
  | recordAutomationSignAttempt n now => exact outcome_immediate h .signAttempted
  | beginAutomationResign n requestId params authorizeAt => exact outcome_immediate h .resigned
  | reserveAutomaticSend n expected fee now b => exact outcome_immediate h .reserved
  | setAutomaticSendStatus n status now =>
      cases hstatus : sendStatus? status.strip with
      | none =>
          rw [Call.code, hstatus] at h
          cases h
          exact Or.inl ⟨⟨_, rfl⟩, rfl⟩
      | some want =>
          rw [Call.code, hstatus] at h
          exact outcome_immediate h (.sendStatusSet hstatus)

theorem Transition.Valid.outcome {t : Transition} (h : t.Valid) :
    Outcome t.before t.call t.result t.after := by
  cases h with
  | ran h => exact outcome_code h
  | failed hresult hafter => exact Or.inl ⟨⟨_, hresult⟩, hafter⟩

/-- A call that raises leaves the store as it is. -/
theorem Transition.Valid.unchanged {t : Transition} (h : t.Valid) {e : PyError}
    (hraised : t.result = .error e) : t.after = t.before := by
  rcases h.outcome with ⟨-, hafter⟩ | ⟨hok, -⟩
  · exact hafter
  · rw [hraised] at hok
    cases hok

end Effects

end Signal402.StoreCalls
