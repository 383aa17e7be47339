import Signal402.Pq.AutoAnchor

/-!
# What a tick may call

The functions under `tick`, for every protocol on their operations at once.  All
of them may run from any phase of a protocol that allows the reads, the
transactions and the saves that pass their checks (`Quiets`), except where the
POST and the signer are reached: `reserve_automatic_send` with the POST behind
it, and `record_automation_sign_attempt` with the dial behind it.  A protocol
that lets these two run as well lets `tick` run (`Lenient.tick`).
-/

namespace Signal402.AutoAnchor

open AnchorStore Canary Concurrent

/-- An operation that neither saves a row, nor posts, nor dials the signer. -/
def Quiet : Op → Prop
  | .updateAuthorized .. => False
  | .insertAuthorized .. => False
  | .post .. => False
  | .call (.requestSigned ..) => False
  | _ => True

variable {Φ : Type}

/-- A protocol that allows the quiet operations in every phase, and the saves that
pass the checks on the row they read. -/
structure Quiets (P : Protocol sig Φ) : Prop where
  quiet : ∀ {φ o}, Quiet o → P.allowed φ o
  update : ∀ {φ existing a}, saveCheck existing a = .ok true →
    P.allowed φ (.updateAuthorized existing a)
  insert : ∀ {φ existing a}, (∀ row ∈ existing, row.signed = []) →
    P.allowed φ (.insertAuthorized existing a)

variable {α β : Type} {P : Protocol sig Φ}

/-- A program that may run from every phase, whatever comes back. -/
def Anywhere (P : Protocol sig Φ) (x : Code α) : Prop :=
  ∀ φ, wpe P x (fun _ _ => True) (fun _ _ => True) φ

theorem Anywhere.pure (a : α) : Anywhere P (pure a : Code α) := fun _ => trivial

theorem Anywhere.throw (e : PyError) : Anywhere P (throw e : Code α) := fun _ => trivial

theorem Anywhere.ofExcept (x : Except PyError α) : Anywhere P (MonadExcept.ofExcept x : Code α) := by
  intro φ
  cases x <;> trivial

theorem Anywhere.bind {x : Code β} {f : β → Code α} (hx : Anywhere P x) (hf : ∀ b, Anywhere P (f b)) :
    Anywhere P (x >>= f) := by
  intro φ
  rw [wpe_bind]
  exact wpe_mono (hx φ) (fun φ' b _ => hf b φ') fun _ _ _ => trivial

theorem Anywhere.map {x : Code β} {f : β → α} (hx : Anywhere P x) : Anywhere P (f <$> x) := by
  rw [map_eq_pure_bind]
  exact hx.bind fun b => .pure (f b)

theorem Anywhere.tryCatch {x : Code α} {f : PyError → Code α} (hx : Anywhere P x)
    (hf : ∀ e, Anywhere P (f e)) : Anywhere P (tryCatch x f) := by
  intro φ
  rw [wpe_tryCatch]
  exact wpe_mono (hx φ) (fun _ _ _ => trivial) fun φ' e _ => hf e φ'

theorem Anywhere.ite {p : Prop} [Decidable p] {x y : Code α} (hx : Anywhere P x) (hy : Anywhere P y) :
    Anywhere P (if p then x else y) := by
  split
  · exact hx
  · exact hy

/-- A check that raises, and the rest of the function. -/
theorem Anywhere.unless {p : Prop} [Decidable p] {e : Code Unit} {x : Code α} (he : Anywhere P e)
    (hx : Anywhere P x) : Anywhere P (if p then e >>= fun _ => x else x) :=
  .ite (he.bind fun _ => hx) hx

theorem Anywhere.mk {x : Prog sig (Except PyError α)}
    (h : ∀ φ, wp P x (fun _ _ => True) φ) : Anywhere P (ExceptT.mk x) := by
  intro φ
  refine wp_mono (h φ) ?_
  rintro φ' (e | a) - <;> trivial

theorem Anywhere.canaryError (msg : String) : Anywhere P (Canary.canaryError msg : Code α) :=
  .throw _

theorem Anywhere.securityError (msg : String) :
    Anywhere P (Canary.securityError msg : Code α) := .throw _

theorem Anywhere.requireJob (job : Option Job) : Anywhere P (AutoAnchor.requireJob job) := by
  cases job with
  | none => exact .throw _
  | some job => exact .pure job

section Quiets

variable (hP : Quiets P)
include hP

theorem Quiets.invoke (c : Call) (hc : Quiet (.call c) := by trivial) :
    Anywhere P (Canary.invoke c) :=
  .mk fun _ => ⟨hP.quiet hc, fun _ => trivial⟩

theorem Quiets.authorizedAt (n : ℤ) : Anywhere P (Canary.authorizedAt n) :=
  .mk fun _ => ⟨hP.quiet trivial, fun _ => trivial⟩

theorem Quiets.lastAuthorizedCheckpoint : Anywhere P Canary.lastAuthorizedCheckpoint :=
  .mk fun _ => ⟨hP.quiet trivial, fun _ => trivial⟩

theorem Quiets.automationJobAt (n : ℤ) : Anywhere P (Canary.automationJobAt n) :=
  .mk fun _ => ⟨hP.quiet trivial, fun _ => trivial⟩

theorem Quiets.lastAutomationJob : Anywhere P Canary.lastAutomationJob :=
  .mk fun _ => ⟨hP.quiet trivial, fun _ => trivial⟩

theorem Quiets.automaticBudgetUsage (b : Budget) : Anywhere P (Canary.automaticBudgetUsage b) :=
  .mk fun _ => ⟨hP.quiet trivial, fun _ => trivial⟩

theorem Quiets.setAutomaticSendStatus (n : ℤ) (status : SendStatus) (now : ℤ) :
    Anywhere P (Canary.setAutomaticSendStatus n status now) :=
  .mk fun _ => ⟨hP.quiet trivial, fun _ => trivial⟩

theorem Quiets.thenJob {o : Code Unit} (ho : Anywhere P o) (n : ℤ) : Anywhere P (Canary.thenJob o n) :=
  ho.bind fun _ => hP.automationJobAt n

theorem Quiets.createAutomationJob (job : Job) : Anywhere P (Canary.createAutomationJob job) := by
  refine hP.thenJob ?_ _
  exact .mk fun _ => ⟨hP.quiet trivial, fun _ => trivial⟩

theorem Quiets.setAutomationJobStatus (n : ℤ) (status : JobStatus) (now : ℤ) :
    Anywhere P (Canary.setAutomationJobStatus n status now) := by
  refine hP.thenJob ?_ _
  exact .mk fun _ => ⟨hP.quiet trivial, fun _ => trivial⟩

theorem Quiets.recordAutomationSignAttempt (n now : ℤ) :
    Anywhere P (Canary.recordAutomationSignAttempt n now) := by
  refine hP.thenJob ?_ _
  exact .mk fun _ => ⟨hP.quiet trivial, fun _ => trivial⟩

theorem Quiets.beginAutomationResign (n : ℤ) (requestId params : PyStr) (authorizeAt : ℤ) :
    Anywhere P (Canary.beginAutomationResign n requestId params authorizeAt) := by
  refine hP.thenJob ?_ _
  exact .mk fun _ => ⟨hP.quiet trivial, fun _ => trivial⟩

/-! ## The canary's functions -/

/-- A save writes only what its checks on the row it read allow. -/
theorem Quiets.saveAuthorizedCheckpoint (a : SaveArgs) :
    Anywhere P (Canary.saveAuthorizedCheckpoint a) := by
  have hback : ∀ dflt, Anywhere P (do
      return (← Canary.authorizedAt a.treeSize).getD dflt : Code AuthorizedRow) := fun dflt =>
    (hP.authorizedAt _).bind fun _ => .pure _
  rw [Canary.saveAuthorizedCheckpoint]
  refine (Anywhere.ofExcept _).bind fun _ => (hP.authorizedAt _).bind fun row => ?_
  split
  next existing _ =>
    intro φ
    rw [wpe_bind]
    cases hcheck : saveCheck existing a with
    | error e => trivial
    | ok check =>
        cases check with
        | false => trivial
        | true =>
            refine ⟨hP.update hcheck, ?_⟩
            rintro (e | _)
            · trivial
            · exact hback existing _
  next hfilter =>
    intro φ
    rw [wpe_bind]
    refine ⟨hP.insert fun existing hexisting => ?_, ?_⟩
    · rw [Option.mem_def.mp hexisting] at hfilter
      simpa [Option.filter] using hfilter
    · rintro (e | _)
      · trivial
      · exact hback (newRow a) _

theorem Quiets.markSubmitted (row : AuthorizedRow) (txid : PyStr) :
    Anywhere P (Canary.markSubmitted row txid) := by
  rw [Canary.markSubmitted]
  exact .unless (.securityError _) (hP.saveAuthorizedCheckpoint _)

theorem Quiets.pollExpected (row : AuthorizedRow) (now : ℤ) : Anywhere P (Canary.pollExpected row now) := by
  rw [Canary.pollExpected]
  refine Anywhere.ite (.pure none) ((hP.invoke _).bind fun fetched => .ite ?_ ?_)
  · exact .unless (.canaryError _) (.pure none)
  · exact (hP.invoke _).bind fun txid => .unless (.securityError _)
      ((hP.saveAuthorizedCheckpoint _).bind fun _ => (hP.invoke _).map)

theorem Quiets.recordSubmitted {row : AuthorizedRow} {txid : PyStr} {now : ℤ}
    {onSubmitted onConfirmed : Code Unit} (hsubmitted : Anywhere P onSubmitted)
    (hconfirmed : Anywhere P onConfirmed) :
    Anywhere P (Canary.recordSubmitted row txid now onSubmitted onConfirmed) := by
  refine (hP.markSubmitted _ _).bind fun submitted => hsubmitted.bind fun _ =>
    (hP.pollExpected _ _).bind fun polled => ?_
  cases polled with
  | none => exact .pure _
  | some c => exact hconfirmed.bind fun _ => .pure _

theorem Quiets.pollAutomatic (row : AuthorizedRow) (now : ℤ) (waiting : String) :
    Anywhere P (Canary.pollAutomatic row now waiting) := by
  refine (hP.pollExpected _ _).bind fun polled => ?_
  cases polled with
  | none => exact .canaryError _
  | some c => exact (hP.setAutomaticSendStatus _ _ _).bind fun _ => .pure _

theorem Quiets.repairConfirmed (row : AuthorizedRow) (now : ℤ) :
    Anywhere P (Canary.repairConfirmed row now) := by
  refine (hP.invoke _).bind fun confirmed => Anywhere.ite ?_ (hP.pollAutomatic _ _ _)
  exact (hP.setAutomaticSendStatus _ _ _).bind fun _ => .pure _

theorem Quiets.existingAuthorizedUsable (existing : AuthorizedRow) (ident : Identity) (now : ℤ) :
    Anywhere P (Canary.existingAuthorizedUsable existing ident now) := by
  rw [Canary.existingAuthorizedUsable]
  refine .unless (.securityError _) ?_
  split
  · exact .pure _
  · exact .pure _
  · exact .pure _
  · exact ((hP.invoke _).tryCatch fun _ => .ite (.canaryError _) (.throw _)).bind
      fun _ => .pure _

end Quiets

/-! ## The POST and the dial -/

section Reached

variable (hP : Quiets P)
include hP

/-- A protocol that allows the POST in every phase lets the reservation run. -/
theorem Quiets.reserveAndPost (hpost : ∀ {φ n signed}, P.allowed φ (.post n signed))
    (windows : BudgetWindows) (row : AuthorizedRow) (fee now : ℤ) :
    Anywhere P (Canary.reserveAndPost windows row fee now) := by
  have hsubmit : ∀ n signed, Anywhere P (submitMainnet n signed) := fun n signed =>
    .mk fun _ => ⟨hpost, fun _ => trivial⟩
  have hreserve : ∀ n expected b,
      Anywhere P (Canary.reserveAutomaticSend n expected fee now b) := by
    intro n expected b
    refine Anywhere.bind ?_ fun _ => hP.authorizedAt _
    exact .mk fun _ => ⟨hP.quiet trivial, fun _ => trivial⟩
  refine (hP.invoke _).bind fun expected => (hreserve _ _ _).bind fun attempted => ?_
  cases attempted with
  | none => exact .securityError _
  | some attempted =>
      refine Anywhere.unless (.securityError _) ((hP.invoke _).bind fun _ => ?_)
      refine ((hsubmit _ _).tryCatch fun _ => .canaryError _).bind fun txid => ?_
      exact .unless (.securityError _) (hP.recordSubmitted (hP.setAutomaticSendStatus _ _ _)
        (hP.setAutomaticSendStatus _ _ _))

/-- A protocol that allows the dial in every phase lets the authorization run. -/
theorem Quiets.authorizeJob
    (hdial : ∀ {φ ident requestId params now},
      P.allowed φ (.call (.requestSigned ident requestId params now)))
    (job : Job) (now : ℤ) : Anywhere P (AutoAnchor.authorizeJob job now) := by
  have hrequest : ∀ ident requestId params now,
      Anywhere P (Canary.invoke (.requestSigned ident requestId params now)) :=
    fun ident requestId params now => .mk fun _ => ⟨hdial, fun _ => trivial⟩
  have hauthorize : ∀ ident requestId params now,
      Anywhere P (Canary.authorize ident requestId params now) := by
    intro ident requestId params now
    refine (hP.invoke _).bind fun _ => (hP.authorizedAt _).bind fun row => ?_
    split
    · exact hP.existingAuthorizedUsable _ _ _
    · exact (hrequest _ _ _ _).bind fun _ => hP.saveAuthorizedCheckpoint _
  refine (hP.recordAutomationSignAttempt _ _).bind fun job => (Anywhere.requireJob _).bind
    fun job => (hauthorize _ _ _ _).bind fun auth => ?_
  exact .unless (.securityError _) ((hP.setAutomationJobStatus _ _ _).bind fun _ => .pure _)

end Reached

/-- A protocol that lets the POST and the dial run as well. -/
structure Lenient (P : Protocol sig Φ) : Prop extends Quiets P where
  reserveAndPost : ∀ windows row fee now, Anywhere P (Canary.reserveAndPost windows row fee now)
  authorizeJob : ∀ job now, Anywhere P (AutoAnchor.authorizeJob job now)

section Lenient

variable (hP : Lenient P)
include hP

theorem Lenient.sendReserved (windows : BudgetWindows) (row : AuthorizedRow) (now : ℤ) :
    Anywhere P (Canary.sendReserved windows row now) := by
  refine (hP.invoke _).bind fun balance => .unless (.canaryError _) ?_
  refine (hP.invoke _).bind fun _ => (hP.invoke _).bind fun fee => ?_
  exact .unless (.canaryError _) (hP.reserveAndPost _ _ _ _)

theorem Lenient.sendAutomaticDurable (windows : BudgetWindows) (row : AuthorizedRow) (now : ℤ) :
    Anywhere P (Canary.sendAutomaticDurable windows row now) := by
  refine (hP.invoke _).bind fun _ => ?_
  split
  · exact hP.repairConfirmed _ _
  · exact hP.pollAutomatic _ _ _
  · exact hP.pollAutomatic _ _ _
  · exact hP.sendReserved _ _ _
  · exact .canaryError _

/-! ## The controller -/

theorem Lenient.budgetBlock (windows : BudgetWindows) (fee now : ℤ) :
    Anywhere P (AutoAnchor.budgetBlock windows fee now) :=
  .ite (.pure _) ((hP.automaticBudgetUsage _).bind fun _ => .pure _)

theorem Lenient.halt (job : Job) (now : ℤ) : Anywhere P (AutoAnchor.halt job now) :=
  (hP.setAutomationJobStatus _ _ _).bind fun _ => .pure _

theorem Lenient.send (windows : BudgetWindows) (auth : AuthorizedRow) (now : ℤ) :
    Anywhere P (AutoAnchor.send windows auth now) :=
  (hP.sendAutomaticDurable _ _ _).bind fun _ => .pure _

theorem Lenient.latestJob (job : Job) : Anywhere P (AutoAnchor.latestJob job) :=
  (hP.automationJobAt _).bind fun _ => .pure _

theorem Lenient.resign (windows : BudgetWindows) (job : Job) (now : ℤ) :
    Anywhere P (AutoAnchor.resign windows job now) := by
  refine Anywhere.tryCatch ?_ fun _ => ?_
  · exact (hP.invoke _).bind fun _ => (hP.invoke _).bind fun _ =>
      (hP.beginAutomationResign _ _ _ _).bind fun _ => (Anywhere.requireJob _).bind fun _ =>
        (hP.authorizeJob _ _).bind fun _ => hP.send _ _ _
  · refine (hP.latestJob _).bind fun latest => (hP.authorizedAt _).bind fun auth => ?_
    split
    · exact .pure _
    · exact .pure _
    · exact hP.halt _ _

theorem Lenient.handleSend (windows : BudgetWindows) (job : Job) (now : ℤ) (e : PyError) :
    Anywhere P (AutoAnchor.handleSend windows job now e) := by
  refine Anywhere.ite ?_ (.ite (.pure _) (.ite ?_ (.throw _)))
  · refine (hP.authorizedAt _).bind fun auth => ?_
    split
    · exact .ite (hP.halt _ _) (.pure _)
    · exact .ite (hP.resign _ _ _) (hP.halt _ _)
  · refine (hP.authorizedAt _).bind fun auth => ?_
    split
    · exact .pure _
    · exact .ite (.pure _) ((hP.latestJob _).bind fun _ => hP.halt _ _)

theorem Lenient.resumeSend (windows : BudgetWindows) (job : Job) (auth : Option AuthorizedRow)
    (now : ℤ) : Anywhere P (AutoAnchor.resumeSend windows job auth now) := by
  cases auth with
  | none => exact hP.halt _ _
  | some auth =>
      have hsend : ∀ blocked : Bool, Anywhere P (if blocked then Pure.pure TickStatus.budgetWait
          else MonadExcept.tryCatch (AutoAnchor.send windows auth now)
            (AutoAnchor.handleSend windows job now)) := fun blocked =>
        .ite (.pure _) ((hP.send _ _ _).tryCatch (hP.handleSend _ _ _))
      refine Anywhere.ite (hP.halt _ _) ?_
      split
      · exact ((hP.invoke _).tryCatch fun _ => .ite (.pure _) (.throw _)).bind
          fun _ => (hP.budgetBlock _ _ _).bind hsend
      · exact hsend false

theorem Lenient.resumePending (job : Job) (now : ℤ) :
    Anywhere P (AutoAnchor.resumePending job now) := by
  refine Anywhere.tryCatch ?_ fun _ => ?_
  · exact (hP.authorizeJob _ _).bind fun _ => (hP.latestJob _).bind fun _ => .pure _
  · exact (hP.latestJob _).bind fun _ =>
      .ite ((hP.halt _ _).bind fun _ => .pure _) (.pure _)

theorem Lenient.resumeJob (windows : BudgetWindows) (job : Job) (now : ℤ) :
    Anywhere P (AutoAnchor.resumeJob windows job now) := by
  refine Anywhere.ite (.pure _) ((hP.authorizedAt _).bind fun auth => .ite (.ite (hP.halt _ _) ?_)
    (hP.resumeSend _ _ _ _))
  refine (hP.resumePending _ _).bind fun resumed => ?_
  split
  · exact .pure _
  · exact hP.resumeSend _ _ _ _

theorem Lenient.prepareJob (windows : BudgetWindows) (now : ℤ) :
    Anywhere P (AutoAnchor.prepareJob windows now) := by
  refine Anywhere.tryCatch ?_ fun _ => .pure _
  exact (hP.invoke _).bind fun _ => (hP.invoke _).bind fun _ => (hP.invoke _).bind
    fun _ => (hP.invoke _).bind fun _ => (hP.budgetBlock _ _ _).bind fun _ =>
      .ite (.pure _) ((hP.invoke _).bind fun _ => hP.createAutomationJob _)

theorem Lenient.preflight (current : ℤ) : Anywhere P (AutoAnchor.preflight current) := by
  refine (hP.invoke _).bind fun _ => .ite (.pure _) ((hP.invoke _).bind fun _ =>
    .ite (.pure _) (Anywhere.bind ?_ fun _ => .pure _))
  exact (hP.invoke _).map.tryCatch fun _ => .ite (.pure _) (.throw _)

theorem Lenient.reconcile (job : Option Job) (confirmed : Confirmed) (now : ℤ) :
    Anywhere P (AutoAnchor.reconcile job confirmed now) := by
  cases job with
  | none => exact .pure _
  | some job =>
      refine Anywhere.ite ((hP.authorizedAt _).bind fun auth => ?_) (.pure _)
      cases auth with
      | none => exact .pure _
      | some auth =>
          refine Anywhere.ite (Anywhere.tryCatch ?_ fun _ => .ite (.pure _) (.throw _)) (.pure _)
          exact (hP.setAutomaticSendStatus _ _ _).bind fun _ => (hP.latestJob _).map

theorem Lenient.waiting (job : Job) (auth : Option AuthorizedRow) :
    Anywhere P (AutoAnchor.waiting job auth) := by
  have hask : ∀ (scope : String) (status : Option TickStatus)
      {rest : Code (Option TickStatus)}, Anywhere P rest → Anywhere P (do
        if !(← Canary.invoke (.retryReady scope job.treeSize)) then return status
        rest) := fun scope status rest hrest =>
    (hP.invoke _).bind fun _ => .ite (.pure _) hrest
  have hpending : Anywhere P (if job.status = .pending then do
        if !(← Canary.invoke (.retryReady "resume" job.treeSize)) then
          return some TickStatus.pending
        return none
      else Pure.pure none) := .ite (hask _ _ (.pure _)) (.pure _)
  have hauthorized : Anywhere P (if auth.map sendStateOf = some .authorized then do
        if !(← Canary.invoke (.retryReady "resume" job.treeSize)) then
          return some TickStatus.authorized
        if job.status = .pending then
          if !(← Canary.invoke (.retryReady "resume" job.treeSize)) then
            return some TickStatus.pending
        return none
      else if job.status = .pending then do
        if !(← Canary.invoke (.retryReady "resume" job.treeSize)) then
          return some TickStatus.pending
        return none
      else Pure.pure none) := .ite (hask _ _ hpending) hpending
  exact .ite (hask _ _ hauthorized) hauthorized

theorem Lenient.prepare (windows : BudgetWindows) (now current confirmed since : ℤ) :
    Anywhere P (AutoAnchor.tickUnlocked.prepare windows now current confirmed since) := by
  refine Anywhere.ite (.pure _) ((hP.preflight _).bind fun _ => .ite (.pure _)
    ((hP.prepareJob _ _).bind fun job => ?_))
  cases job with
  | none => exact .pure _
  | some job => exact (hP.resumeJob _ _ _).map

theorem Lenient.tickUnlocked (windows : BudgetWindows) (now : ℤ) :
    Anywhere P (AutoAnchor.tickUnlocked windows now) := by
  refine (hP.invoke _).bind fun current => (hP.invoke _).bind fun confirmed =>
    (hP.invoke _).bind fun since => hP.lastAutomationJob.bind fun job =>
      (hP.reconcile _ _ _).bind fun job => ?_
  split
  · refine (hP.authorizedAt _).bind fun auth => (hP.waiting _ _).bind fun status => ?_
    split
    · exact .pure _
    · exact (hP.resumeJob _ _ _).map
  · refine hP.lastAuthorizedCheckpoint.bind fun auth => ?_
    split
    · exact .ite (.pure _) (hP.prepare _ _ _ _ _)
    · exact hP.prepare _ _ _ _ _

/-- **A tick keeps to the protocol.** -/
theorem Lenient.tick (windows : BudgetWindows) (now : ℤ) : Anywhere P (AutoAnchor.tick windows now) := by
  refine (hP.invoke _).bind fun _ => .ite (.pure _) ((hP.invoke _).bind fun _ =>
    .ite (.pure _) (Anywhere.bind ?_ fun _ => .ite (.pure _) (hP.tickUnlocked _ _)))
  exact ((hP.invoke _).bind fun _ => .pure _).tryCatch fun _ => .ite (.pure _) (.throw _)

end Lenient

end Signal402.AutoAnchor
