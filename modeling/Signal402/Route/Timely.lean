import Mathlib.Tactic.Linarith
import Signal402.Route.PaidRoute

/-!
# The paid deadline and the clock

One paid request followed on a clock.  The facilitator and the probe take time, as much
as they like; what the other functions take is counted with the probe.  `Timed` is a
computation that keeps its result apart from what has been started, so that an exception
undoes no call, and `timed` puts any answers of the called functions in the place of the
parameters of `paidExecute`.

`verify` and `settle` are each given a slice of what is left.  Both slices can be too
long: `clampSlice` rounds the last instants up to `minSliceSeconds`, and `settleTimeout`
never answers less, so that the test for an empty slice before `settle` never holds.
-/

namespace Signal402.Route

open Deadline

/-- A call to the facilitator: the instant of its start, and the time it is given. -/
structure Start where
  instant : ℚ
  timeout : ℚ

/-- A call starts before the deadline, and what it is given ends by it. -/
structure Start.InTime (s : Start) (deadline : ℚ) : Prop where
  before : s.instant < deadline
  ends : s.instant + s.timeout ≤ deadline

/-- The calls that took time so far, and the ones to the facilitator among them. -/
structure Trace where
  ticks : ℕ
  starts : List Start

/-- A computation with exceptions, whose trace outlives them. -/
abbrev Timed : Type → Type := ExceptT PyError (StateM Trace)

namespace Timed

/-- What was started by the end of a computation. -/
def startsOf {α : Type} (prog : Timed α) (s : Trace) : List Start := (prog.run.run s).2.starts

/-- An answer that takes no time. -/
def answer {α : Type} (x : Except PyError α) : Timed α := ExceptT.mk (pure x)

/-- An answer that takes time. -/
def slow {α : Type} (x : Except PyError α) : Timed α :=
  ExceptT.mk fun s => (x, { s with ticks := s.ticks + 1 })

/-- A call to the facilitator. -/
def facilitator {α : Type} (clock : ℕ → ℚ) (timeout : ℚ) (x : Except PyError α) : Timed α :=
  ExceptT.mk fun s =>
    (x, ⟨s.ticks + 1, s.starts ++ [⟨clock s.ticks, timeout⟩]⟩)

/-- The reading of the clock after the calls so far. -/
def reading (clock : ℕ → ℚ) : Timed ℚ := ExceptT.mk fun s => (.ok (clock s.ticks), s)

end Timed

open Timed

/-- The called functions on a clock, with any answers. -/
def timed (clock : ℕ → ℚ) (answers : Calls (Except PyError)) : Calls Timed where
  monotonic := reading clock
  railOfAccept accept := answer (answers.railOfAccept accept)
  requiredPair url error bazaar := answer (answers.requiredPair url error bazaar)
  verify parsed accept t := facilitator clock t (answers.verify parsed accept t)
  runProbe body until_ := slow (answers.runProbe body until_)
  billableGate body result := answer (answers.billableGate body result)
  buildBinding result body := answer (answers.buildBinding result body)
  evidenceFromRoute result body := answer (answers.evidenceFromRoute result body)
  settle parsed accept t := facilitator clock t (answers.settle parsed accept t)
  sanitizeSettlementReceipt body rail := answer (answers.sanitizeSettlementReceipt body rail)
  paymentResponseHeader receipt := answer (answers.paymentResponseHeader receipt)
  markBatchSettled batch := answer (answers.markBatchSettled batch)
  attachPqTrust code result body := answer (answers.attachPqTrust code result body)
  logSettle ok rail := answer (answers.logSettle ok rail)
  logSettleSkipped rail := answer (answers.logSettleSkipped rail)

/-! ## Answers that take no time -/

section Answers

variable {α β : Type}

theorem answer_pure (a : α) : answer (pure a) = pure a := rfl

theorem answer_bind (x : Except PyError α) (f : α → Except PyError β) :
    answer (x >>= f) = answer x >>= fun a => answer (f a) := by
  cases x <;> rfl

theorem answer_throw (e : PyError) : (answer (throw e) : Timed α) = throw e := rfl

theorem answer_tryCatch (x : Except PyError α) (h : PyError → Except PyError α) :
    answer (tryCatch x h) = tryCatch (answer x) fun e => answer (h e) := by
  cases x <;> rfl

theorem answer_ofExcept (x : Except PyError α) :
    answer (MonadExcept.ofExcept x) = MonadExcept.ofExcept x := by
  cases x <;> rfl

theorem answer_ite (c : Prop) [Decidable c] (x y : Except PyError α) :
    answer (if c then x else y) = if c then answer x else answer y := by
  split <;> rfl

end Answers

/-! ## Runs -/

section Runs

variable {α β : Type} {prog : Timed α} {next : α → Timed β} {s s' : Trace}

theorem run_bind_ok {a : α} (h : prog.run.run s = (.ok a, s')) :
    (prog >>= next).run.run s = (next a).run.run s' := by
  rw [ExceptT.run_bind, StateT.run_bind, h]
  rfl

theorem run_bind_error {e : PyError} (h : prog.run.run s = (.error e, s')) :
    (prog >>= next).run.run s = (.error e, s') := by
  rw [ExceptT.run_bind, StateT.run_bind, h]
  rfl

/-- A computation that starts nothing. -/
def Quiet {α : Type} (prog : Timed α) : Prop := ∀ s, startsOf prog s = s.starts

theorem quiet_answer (x : Except PyError α) : Quiet (answer x) := fun _ => rfl

theorem quiet_pure (a : α) : Quiet (pure a) := fun _ => rfl

theorem quiet_bind (hprog : Quiet prog) (hnext : ∀ a, Quiet (next a)) :
    Quiet (prog >>= next) := by
  intro s
  have hs := hprog s
  unfold startsOf at hs ⊢
  rcases hrun : prog.run.run s with ⟨e | a, s'⟩
  · rw [run_bind_error hrun, ← hs, hrun]
  · rw [run_bind_ok hrun, ← hs, hrun]
    exact hnext a s'

theorem startsOf_answer_ok (a : α) :
    startsOf (answer (.ok a) >>= next) s = startsOf (next a) s := rfl

theorem startsOf_answer_error (e : PyError) :
    startsOf (answer (.error e) >>= next) s = s.starts := rfl

theorem startsOf_slow_ok (a : α) :
    startsOf (slow (.ok a) >>= next) s = startsOf (next a) { s with ticks := s.ticks + 1 } := rfl

theorem startsOf_slow_error (e : PyError) :
    startsOf (slow (.error e) >>= next) s = s.starts := rfl

theorem startsOf_reading {clock : ℕ → ℚ} {after : ℚ → Timed β} :
    startsOf (reading clock >>= after) s = startsOf (after (clock s.ticks)) s := rfl

/-- The trace after a call to the facilitator. -/
def Trace.started (s : Trace) (clock : ℕ → ℚ) (timeout : ℚ) : Trace :=
  ⟨s.ticks + 1, s.starts ++ [⟨clock s.ticks, timeout⟩]⟩

theorem startsOf_facilitator_ok {clock : ℕ → ℚ} {timeout : ℚ} (a : α) :
    startsOf (facilitator clock timeout (.ok a) >>= next) s =
      startsOf (next a) (s.started clock timeout) := rfl

theorem startsOf_facilitator_error {clock : ℕ → ℚ} {timeout : ℚ} (e : PyError) :
    startsOf (facilitator clock timeout (.error e) >>= next) s =
      (s.started clock timeout).starts := rfl

/-- A call to the facilitator that is the last to start. -/
theorem startsOf_facilitator_quiet {clock : ℕ → ℚ} {timeout : ℚ} {x : Except PyError α}
    (hnext : ∀ a, Quiet (next a)) :
    startsOf (facilitator clock timeout x >>= next) s = (s.started clock timeout).starts := by
  cases x with
  | error e => exact startsOf_facilitator_error e
  | ok a => exact (startsOf_facilitator_ok a).trans (hnext a _)

end Runs

/-! ## What each function starts -/

section Starts

variable {clock : ℕ → ℚ} {answers : Calls (Except PyError)}
variable {body parsed accept : Json} {resourceUrl : PyStr} {bazaar : Option Json}
variable {deadline : ℚ}

theorem quiet_rejected {error : PyStr} {attempted : Bool} :
    Quiet (rejected (timed clock answers) accept resourceUrl bazaar error attempted) := by
  apply quiet_bind (quiet_answer _)
  rintro ⟨required, extra⟩
  exact quiet_bind (quiet_answer _) fun rail => quiet_pure _

theorem quiet_skipped {rail : PyStr} {code : ℤ} {result : Dict} :
    Quiet (skipped (timed clock answers) rail code result) :=
  quiet_bind (quiet_answer _) fun _ => quiet_pure _

theorem quiet_deliver {code : ℤ} {result extra : Dict} :
    Quiet (deliver (timed clock answers) body code result extra) := by
  unfold deliver
  apply quiet_bind (quiet_answer _)
  intro _
  apply quiet_bind (quiet_answer _)
  intro attached
  have hchecked : ∀ proved : Bool,
      Quiet (if proved = true then (pure ⟨code, attached, nonEmpty extra⟩ : Timed Outcome)
        else pure (unprovable attached extra)) := by
    intro proved
    split <;> exact quiet_pure _
  have hproved : Quiet (MonadExcept.ofExcept (transparencyOk attached) : Timed Bool) := by
    cases transparencyOk attached with
    | error e => exact quiet_answer (.error e)
    | ok b => exact quiet_answer (.ok b)
  dsimp only
  split
  · exact quiet_bind hproved hchecked
  · exact quiet_bind (quiet_pure true) hchecked

/-- The gate and the binding of a winner are those of the answers. -/
theorem billableWinner_timed {code : ℤ} {result : Json} :
    billableWinner (timed clock answers) body code result =
      answer (billableWinner answers body code result) := by
  unfold billableWinner
  rw [answer_ite]
  rfl

theorem bindDecision_timed {result : Dict} :
    bindDecision (timed clock answers) body result =
      answer (bindDecision answers body result) := by
  unfold bindDecision
  rw [answer_ite]
  congr 1
  rw [answer_tryCatch]
  congr 1
  · rw [answer_bind]
    exact bind_congr fun binding => (answer_bind _ _).symm
  · funext e
    rw [answer_ite]
    rfl

/-- A slice for `settle` is never empty. -/
theorem settleTimeout_pos (now : ℚ) : 0 < settleTimeout deadline now := by
  unfold settleTimeout minSliceSeconds settleCapSeconds
  dsimp only
  split
  · norm_num
  · rename_i h
    exact lt_min (by norm_num) (not_le.mp h)

/-- A winner is settled, whatever the clock reads. -/
theorem settleWinner_starts {rail : PyStr} {code : ℤ} {result : Dict} (s : Trace) :
    startsOf (settleWinner (timed clock answers) body parsed accept resourceUrl bazaar deadline
        rail code result) s =
      (s.started clock (settleTimeout deadline (clock s.ticks))).starts := by
  unfold settleWinner
  change startsOf (reading clock >>= _) s = _
  rw [startsOf_reading]
  dsimp only
  rw [if_neg (not_le.mpr (settleTimeout_pos _))]
  change startsOf (facilitator clock _ (answers.settle parsed accept _) >>= _) s = _
  -- nothing starts after the settlement, whatever it answers
  apply startsOf_facilitator_quiet
  intro settle
  split
  · split
    · exact quiet_bind (quiet_answer _) fun _ => quiet_pure _
    · exact quiet_bind quiet_rejected fun _ => quiet_bind (quiet_answer _) fun _ => quiet_pure _
  · apply quiet_bind (quiet_answer _)
    intro receipt
    cases receipt with
    | none => exact quiet_bind (quiet_answer _) fun _ => quiet_pure _
    | some receipt =>
        exact quiet_bind (quiet_answer _) fun _ => quiet_bind (quiet_answer _) fun _ =>
          quiet_deliver

/-- What the answers after a verified payment come to when the request is settled. -/
def Wins (answers : Calls (Except PyError)) (body accept : Json) (deadline : ℚ) : Prop :=
  ∃ code result rail bound,
    answers.runProbe body (probeDeadline deadline) = .ok (code, result) ∧ code ≠ 400 ∧
      answers.railOfAccept accept = .ok rail ∧
      billableWinner answers body code result = .ok true ∧
      bindDecision answers body (result.asObj?.getD []) = .ok (some bound)

/-- The start of a settlement at some reading. -/
def settleStart (clock : ℕ → ℚ) (deadline : ℚ) (ticks : ℕ) : Start :=
  ⟨clock ticks, settleTimeout deadline (clock ticks)⟩

/-- After a verified payment a winner is settled. -/
theorem routeVerified_wins (h : Wins answers body accept deadline) (s : Trace) :
    startsOf (routeVerified (timed clock answers) body parsed accept resourceUrl bazaar deadline)
        s = s.starts ++ [settleStart clock deadline (s.ticks + 1)] := by
  obtain ⟨code, result, rail, bound, hprobe, hcode, hrail, hwinner, hbound⟩ := h
  unfold routeVerified
  change startsOf (slow (answers.runProbe body (probeDeadline deadline)) >>= _) s = _
  rw [hprobe, startsOf_slow_ok]
  dsimp only
  rw [if_neg hcode]
  change startsOf (answer (answers.railOfAccept accept) >>= _) _ = _
  rw [hrail, startsOf_answer_ok, billableWinner_timed, hwinner, startsOf_answer_ok,
    bindDecision_timed, hbound]
  exact settleWinner_starts _

/-- After a verified payment nothing is started without a winner. -/
theorem routeVerified_loses (h : ¬ Wins answers body accept deadline) (s : Trace) :
    startsOf (routeVerified (timed clock answers) body parsed accept resourceUrl bazaar deadline)
        s = s.starts := by
  unfold routeVerified
  change startsOf (slow (answers.runProbe body (probeDeadline deadline)) >>= _) s = _
  cases hprobe : answers.runProbe body (probeDeadline deadline) with
  | error e => exact startsOf_slow_error e
  | ok found =>
      obtain ⟨code, result⟩ := found
      rw [startsOf_slow_ok]
      dsimp only
      by_cases hcode : code = 400
      · rw [if_pos hcode]
        rfl
      rw [if_neg hcode]
      change startsOf (answer (answers.railOfAccept accept) >>= _) _ = _
      cases hrail : answers.railOfAccept accept with
      | error e => exact startsOf_answer_error e
      | ok rail =>
          rw [startsOf_answer_ok, billableWinner_timed]
          cases hwinner : billableWinner answers body code result with
          | error e => exact startsOf_answer_error e
          | ok winner =>
              rw [startsOf_answer_ok]
              cases winner with
              | false => exact quiet_skipped _
              | true =>
                  rw [bindDecision_timed]
                  cases hbound : bindDecision answers body (result.asObj?.getD []) with
                  | error e => exact startsOf_answer_error e
                  | ok bound =>
                      rw [if_neg (by simp), startsOf_answer_ok]
                      cases bound with
                      | none => exact quiet_skipped _
                      | some bound =>
                          exact absurd ⟨code, result, rail, bound, hprobe, hcode, hrail,
                            hwinner, hbound⟩ h

/-- What the answers come to when the request is settled. -/
structure Settles (clock : ℕ → ℚ) (answers : Calls (Except PyError)) (body parsed accept : Json)
    (deadline : ℚ) : Prop where
  time : 0 < remaining deadline (clock 0)
  verified : answers.verify parsed accept (verifyTimeout deadline (clock 0)) = .ok true
  wellFormed : badRequest (body.asObj?.getD []) = none
  wins : Wins answers body accept deadline

/-- The start of the verification. -/
def verifyStart (clock : ℕ → ℚ) (deadline : ℚ) : Start :=
  ⟨clock 0, verifyTimeout deadline (clock 0)⟩

theorem verifyTimeout_nonpos_iff {now : ℚ} :
    verifyTimeout deadline now ≤ 0 ↔ remaining deadline now ≤ 0 := by
  unfold verifyTimeout clampSlice verifyCapSeconds settleReserveSeconds minSliceSeconds
  dsimp only
  split
  · split
    · rename_i h
      exact ⟨fun _ => h, fun _ => le_refl 0⟩
    · split
      · rename_i h _
        exact ⟨fun habs => absurd habs (by norm_num), fun habs => absurd habs h⟩
      · rfl
  · rename_i h
    constructor
    · intro habs
      exact absurd habs (not_le.mpr (lt_min (by norm_num) (not_le.mp h)))
    · intro habs
      linarith

/-- What a paid request starts: the verification while there is time, and the settlement
of a winner. -/
theorem paidExecute_starts {P : Start → Prop} :
    (∀ x ∈ startsOf (paidExecute (timed clock answers) body parsed accept resourceUrl bazaar
        deadline) ⟨0, []⟩, P x) ↔
      (0 < remaining deadline (clock 0) → P (verifyStart clock deadline)) ∧
        (Settles clock answers body parsed accept deadline → P (settleStart clock deadline 2)) := by
  unfold paidExecute
  change (∀ x ∈ startsOf (reading clock >>= _) ⟨0, []⟩, P x) ↔ _
  rw [startsOf_reading]
  dsimp only
  by_cases htime : remaining deadline (clock 0) ≤ 0
  · rw [if_pos (verifyTimeout_nonpos_iff.mpr htime), quiet_rejected]
    have hsettles : ¬ Settles clock answers body parsed accept deadline :=
      fun h => absurd h.time (not_lt.mpr htime)
    simp [not_lt.mpr htime, hsettles]
  rw [if_neg (mt verifyTimeout_nonpos_iff.mp htime)]
  change (∀ x ∈ startsOf (facilitator clock _ (answers.verify parsed accept _) >>= _) _, P x) ↔ _
  have hleft : 0 < remaining deadline (clock 0) := not_le.mp htime
  -- without a settlement, the verification is all there is
  have hone : ∀ starts : List Start, starts = [verifyStart clock deadline] →
      ¬ Settles clock answers body parsed accept deadline →
      ((∀ x ∈ starts, P x) ↔ (0 < remaining deadline (clock 0) → P (verifyStart clock deadline)) ∧
        (Settles clock answers body parsed accept deadline →
          P (settleStart clock deadline 2))) := by
    rintro _ rfl hnot
    simp [hleft, hnot]
  cases hverify : answers.verify parsed accept (verifyTimeout deadline (clock 0)) with
  | error e =>
      apply hone _ (startsOf_facilitator_error e)
      intro h
      exact absurd (h.verified.symm.trans hverify) (by simp)
  | ok verified =>
      rw [startsOf_facilitator_ok]
      cases verified with
      | false =>
          apply hone _ (quiet_rejected _)
          intro h
          exact absurd (h.verified.symm.trans hverify) (by simp)
      | true =>
          rw [if_neg (by simp)]
          cases hbad : badRequest (body.asObj?.getD []) with
          | some bad =>
              apply hone _ rfl
              intro h
              exact absurd (h.wellFormed.symm.trans hbad) (by simp)
          | none =>
              by_cases hwins : Wins answers body accept deadline
              · have hsettles : Settles clock answers body parsed accept deadline :=
                  ⟨hleft, hverify, hbad, hwins⟩
                dsimp only
                rw [routeVerified_wins hwins]
                simp only [hleft, hsettles, forall_true_left]
                exact List.forall_mem_cons.trans (and_congr_right fun _ => List.forall_mem_singleton)
              · exact hone _ (routeVerified_loses hwins _) fun h => hwins h.wins

/-- The slice of the verification ends in time unless it was rounded up. -/
theorem verify_inTime_iff (hleft : 0 < remaining deadline (clock 0)) :
    (verifyStart clock deadline).InTime deadline ↔
      minSliceSeconds ≤ remaining deadline (clock 0) := by
  have hends : (verifyStart clock deadline).InTime deadline ↔
      verifyTimeout deadline (clock 0) ≤ remaining deadline (clock 0) := by
    unfold remaining at hleft ⊢
    constructor
    · intro h
      have := h.ends
      simp only [verifyStart] at this
      linarith
    · intro h
      exact ⟨by simp only [verifyStart]; linarith, by simp only [verifyStart]; linarith⟩
  rw [hends]
  unfold verifyTimeout clampSlice settleReserveSeconds
  dsimp only
  split
  · rw [if_neg (not_le.mpr hleft)]
    split
    · rfl
    · rename_i h
      exact ⟨fun _ => not_lt.mp h, fun _ => le_refl _⟩
  · -- the reserve leaves more than the rounding takes
    rename_i h
    unfold minSliceSeconds
    constructor
    · intro _
      linarith
    · intro _
      exact (min_le_right _ _).trans (by linarith)

/-- A settlement is in time exactly when there is some left. -/
theorem settle_inTime_iff {n : ℕ} :
    (settleStart clock deadline n).InTime deadline ↔ clock n < deadline := by
  constructor
  · intro h
    exact h.before
  · intro h
    refine ⟨h, ?_⟩
    have hleft : ¬ remaining deadline (clock n) ≤ 0 := by
      unfold remaining
      linarith
    have hslice : settleTimeout deadline (clock n) ≤ remaining deadline (clock n) := by
      unfold settleTimeout
      dsimp only
      rw [if_neg hleft]
      exact min_le_right _ _
    unfold remaining at hslice
    simp only [settleStart]
    linarith

/-- **The paid deadline on a clock**: the facilitator is called in time exactly when the
first reading does not fall in the last instants before the deadline, and the probe of a
request that is settled ended before it. -/
theorem paidExecute_inTime_iff :
    (∀ x ∈ startsOf (paidExecute (timed clock answers) body parsed accept resourceUrl bazaar
        deadline) ⟨0, []⟩, x.InTime deadline) ↔
      (0 < remaining deadline (clock 0) → minSliceSeconds ≤ remaining deadline (clock 0)) ∧
        (Settles clock answers body parsed accept deadline → clock 2 < deadline) := by
  rw [paidExecute_starts, settle_inTime_iff]
  exact and_congr_left fun _ => imp_congr_right verify_inTime_iff

end Starts

/-! ## A late settlement -/

/-- A verification of one second, and a probe of a minute. -/
def lateClock (n : ℕ) : ℚ := if n = 0 then 0 else if n = 1 then 1 else 61

/-- A live winner that can be paid. -/
def winning : Calls (Except PyError) where
  monotonic := .ok 0
  railOfAccept _ := .ok "base"
  requiredPair _ _ _ := .ok ([], [])
  verify _ _ _ := .ok true
  runProbe _ _ := .ok (200, .obj [("live", .bool true)])
  billableGate _ _ := .ok true
  buildBinding _ _ := .ok .null
  evidenceFromRoute _ _ := .ok ()
  settle _ _ _ := .ok ⟨true, .obj [], false⟩
  sanitizeSettlementReceipt _ _ := .ok none
  paymentResponseHeader _ := .ok .null
  markBatchSettled _ := .ok ()
  attachPqTrust _ result _ := .ok result
  logSettle _ _ := .ok ()
  logSettleSkipped _ := .ok ()

/-- On a clock that never goes back, a settlement is started after the deadline. -/
theorem late_settlement : Monotone lateClock ∧
    ¬ ∀ x ∈ startsOf (paidExecute (timed lateClock winning) (.obj [("need", .str "weather")])
      .null .null "https://402signal.com/route" none 60) ⟨0, []⟩, x.InTime 60 := by
  constructor
  · apply monotone_nat_of_le_succ
    intro n
    unfold lateClock
    split_ifs <;> simp_all
  · intro h
    have hlate := (paidExecute_starts.mp h).2
      { time := by norm_num [remaining, lateClock]
        verified := rfl
        wellFormed := by decide
        wins := ⟨200, _, "base", _, rfl, by decide, rfl, rfl, rfl⟩ }
    have hbefore := hlate.before
    norm_num [settleStart, lateClock] at hbefore

end Signal402.Route
