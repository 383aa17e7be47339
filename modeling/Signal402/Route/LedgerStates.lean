import Signal402.Route.StoredOutcome

/-!
# The states that the ledger records (`replay.py`)

`finish` names the state of a row after the billing of the outcome, where that is one of
the success-only model whose fields fit together, and else after the status code.

* `recordedState_eq_ok` — which state is recorded for which outcome;
* `saysSettled_sanitize` — the reduced outcome has the billing's `settled` of the outcome;
* `ledger_states` — over every interleaving, the memory and every row hold reduced outcomes, each
  row under its state, so that a replay reports what was stored.
-/

namespace Signal402.Replay

open Concurrent Route

/-! ## What a billing says -/

/-- The billing of an outcome, where it is a dictionary. -/
def billingOf (out : Outcome) : Option Dict :=
  out.body.asObj?.bind fun body => (body.get "billing").asObj?

/-- `billing.get("settled")`. -/
def saysSettled (out : Outcome) : Option Json := (billingOf out).map fun billing => billing.get "settled"

/-- The flags of a billing fit together, and to the rest of the outcome. -/
inductive Fits (code : ℤ) (body billing : Dict) : LedgerState → Prop
  | settled (hattempted : (billing.get "settlement_attempted").isTrue = true)
      (hsettled : (billing.get "settled").isTrue = true) : Fits code body billing .settled
  | notSettled (hattempted : (billing.get "settlement_attempted").isFalse = true)
      (hsettled : (billing.get "settled").isFalse = true) (hcode : code = 503)
      (hlive : (body.get "live").isFalse = true) : Fits code body billing .notSettled
  | unknown (hstate : (billing.get "settlement_state").eqStr "unknown" = true)
      (hattempted : trueOrNone (billing.get "settlement_attempted") = true)
      (hsettled : (billing.get "settled").isNull = true) (hcode : code = 503) :
      Fits code body billing .unknown

/-- An outcome of the success-only model, and the state that it names. -/
structure Recognised (out : Outcome) (body billing : Dict) (state : LedgerState) : Prop where
  code : out.code = 200 ∨ out.code = 503
  body_eq : out.body = .obj body
  billing_eq : body.get "billing" = .obj billing
  constants : successOnly billing = true
  rail : ∃ rail, supportedRail (billing.get "rail") = .ok (some rail)
  fits : Fits out.code body billing state

/-- The state that is recorded for want of a better one. -/
def stateOfCode (code : ℤ) : LedgerState :=
  if code = 200 ∨ code = 503 then .settled else .rejected

section Classified

variable {code : ℤ} {body billing : Dict} {state : LedgerState} {out : Outcome}

theorem eq_of_isTrue {v : Json} (h : v.isTrue = true) : v = .bool true := by
  cases v with
  | bool b => cases b <;> first | rfl | cases h
  | _ => cases h

theorem eq_of_isFalse {v : Json} (h : v.isFalse = true) : v = .bool false := by
  cases v with
  | bool b => cases b <;> first | rfl | cases h
  | _ => cases h

theorem eq_of_isNull {v : Json} (h : v.isNull = true) : v = .null := by
  cases v with
  | null => rfl
  | _ => cases h

theorem eq_of_asObj? {v : Json} {d : Dict} (h : v.asObj? = some d) : v = .obj d := by
  cases v with
  | obj members => rw [Option.some_inj.mp h]
  | _ => cases h

/-- A boolean that is not `True`. -/
theorem isFalse_of_isBool {v : Json} (h : v.isBool = true) (hnot : v.isTrue = false) :
    v.isFalse = true := by
  cases v with
  | bool b => cases b <;> first | rfl | cases hnot
  | _ => cases h

theorem Fits.flaggedState (h : Fits code body billing state) :
    flaggedState code body billing = some state := by
  cases h with
  | settled hattempted hsettled =>
      rw [Replay.flaggedState, eq_of_isTrue hattempted, eq_of_isTrue hsettled]
      simp [Json.isTrue, Json.isFalse, Json.isBool, Json.isNull]
  | notSettled hattempted hsettled hcode hlive =>
      rw [Replay.flaggedState, eq_of_isFalse hattempted, eq_of_isFalse hsettled, hlive, hcode]
      simp [Json.isTrue, Json.isFalse, Json.isBool, Json.isNull]
  | unknown hstate hattempted hsettled hcode =>
      rw [Replay.flaggedState, hattempted, eq_of_isNull hsettled, hcode, hstate]
      simp [Json.isTrue, Json.isFalse, Json.isBool, Json.isNull]

theorem Fits.of_flaggedState (hcode : code ≠ 402)
    (h : Replay.flaggedState code body billing = some state) : Fits code body billing state := by
  rw [Replay.flaggedState] at h
  split at h
  next hflags =>
    obtain rfl := Option.some_inj.mp h
    simp only [Bool.and_eq_true] at hflags
    exact .settled hflags.1.2 hflags.2
  split at h
  next hflags =>
    obtain rfl := Option.some_inj.mp h
    simp only [Bool.and_eq_true, beq_iff_eq] at hflags
    exact .notSettled hflags.1.1.1.2 hflags.1.1.2 hflags.1.2 hflags.2
  split at h
  next hflags =>
    simp only [Bool.and_eq_true, beq_iff_eq] at hflags
    exact absurd hflags.2 hcode
  split at h
  next hflags =>
    obtain rfl := Option.some_inj.mp h
    simp only [Bool.and_eq_true, beq_iff_eq] at hflags
    exact .unknown hflags.1.1.1 hflags.1.1.2 hflags.1.2 hflags.2
  -- the outcomes of the first success-only commit
  split at h
  next hbool =>
    rw [Bool.and_eq_true] at hbool
    split at h
    next hflags =>
      obtain rfl := Option.some_inj.mp h
      rw [Bool.and_eq_true] at hflags
      exact .settled hflags.2 hflags.1
    split at h
    next hflags =>
      obtain rfl := Option.some_inj.mp h
      simp only [Bool.and_eq_true, Bool.not_eq_true', beq_iff_eq] at hflags
      exact .notSettled (isFalse_of_isBool hbool.1 hflags.1.1.2)
        (isFalse_of_isBool hbool.2 hflags.1.1.1) hflags.1.2 hflags.2
    · cases h
  · cases h

theorem Recognised.explicit (h : Recognised out body billing state) :
    explicitOutcomeState out = .ok (some state) := by
  obtain ⟨rail, hrail⟩ := h.rail
  have hcode : ¬ (out.code ≠ 200 ∧ out.code ≠ 503) := fun hnot =>
    h.code.elim hnot.1 hnot.2
  rw [explicitOutcomeState, if_neg hcode, h.body_eq, Json.asObj?]
  dsimp only
  rw [h.billing_eq, Json.asObj?]
  dsimp only
  rw [h.constants, Bool.not_true, if_neg Bool.false_ne_true, hrail, Except.map, Option.bind_some,
    h.fits.flaggedState]

theorem Recognised.of_explicit (h : explicitOutcomeState out = .ok (some state)) :
    ∃ body billing, Recognised out body billing state := by
  rw [explicitOutcomeState] at h
  split at h
  · cases h
  next hcode =>
  have hknown : out.code = 200 ∨ out.code = 503 := by
    by_contra hnot
    rw [not_or] at hnot
    exact hcode hnot
  split at h
  · cases h
  next body hbody =>
  split at h
  · cases h
  next billing hbilling =>
  split at h
  · cases h
  next hconstants =>
  obtain ⟨rail, hrail, hflagged⟩ := map_eq_ok.mp h
  obtain ⟨rail, rfl, hflagged⟩ := Option.bind_eq_some_iff.mp hflagged
  refine ⟨body, billing, hknown, eq_of_asObj? hbody, eq_of_asObj? hbilling, ?_, ⟨rail, hrail⟩,
    .of_flaggedState ?_ hflagged⟩
  · simpa using hconstants
  · rcases hknown with hknown | hknown <;> rw [hknown] <;> decide

theorem Recognised.saysSettled (h : Recognised out body billing state) :
    saysSettled out = some (billing.get "settled") := by
  rw [Replay.saysSettled, billingOf, h.body_eq, Json.asObj?, Option.bind_some, h.billing_eq,
    Json.asObj?, Option.map_some]

/-- The state is the one that `settled` of the billing names. -/
structure Matches (out : Outcome) (state : LedgerState) : Prop where
  settled : state = .settled ↔ saysSettled out = some (.bool true)
  unsettled : state = .notSettled ∨ state = .rejected ↔ saysSettled out = some (.bool false)
  unknown : state = .unknown ↔ saysSettled out = some .null

theorem Recognised.matches (h : Recognised out body billing state) : Matches out state := by
  have hsaid := h.saysSettled
  cases h.fits with
  | settled hattempted hsettled =>
      rw [eq_of_isTrue hsettled] at hsaid
      constructor <;> simp [hsaid]
  | notSettled hattempted hsettled hcode hlive =>
      rw [eq_of_isFalse hsettled] at hsaid
      constructor <;> simp [hsaid]
  | unknown hstate hattempted hsettled hcode =>
      rw [eq_of_isNull hsettled] at hsaid
      constructor <;> simp [hsaid]

/-- The rail of a success-only billing is a list or a dictionary. -/
def RailUnreadable (out : Outcome) : Prop :=
  (out.code = 200 ∨ out.code = 503) ∧ ∃ billing, billingOf out = some billing ∧
    successOnly billing = true ∧ hashable (billing.get "rail") = false

theorem RailUnreadable.of_explicit {e : PyError} (h : explicitOutcomeState out = .error e) :
    RailUnreadable out := by
  rw [explicitOutcomeState] at h
  split at h
  · cases h
  next hcode =>
  have hknown : out.code = 200 ∨ out.code = 503 := by
    by_contra hnot
    rw [not_or] at hnot
    exact hcode hnot
  split at h
  · cases h
  next body hbody =>
  split at h
  · cases h
  next billing hbilling =>
  split at h
  · cases h
  next hconstants =>
  refine ⟨hknown, billing, ?_, by simpa using hconstants, ?_⟩
  · rw [billingOf, hbody, Option.bind_some, hbilling]
  · rw [← Bool.not_eq_true, ← supportedRail_ok]
    rintro ⟨known, hrail⟩
    rw [hrail] at h
    cases h

theorem RailUnreadable.explicit (h : RailUnreadable out) :
    ∃ e, explicitOutcomeState out = .error e := by
  obtain ⟨hcode, billing, hbilling, hconstants, hrail⟩ := h
  obtain ⟨body, hbody, hbilling⟩ := Option.bind_eq_some_iff.mp hbilling
  have hknown : ¬ (out.code ≠ 200 ∧ out.code ≠ 503) := fun hnot => hcode.elim hnot.1 hnot.2
  obtain ⟨e, he⟩ : ∃ e, supportedRail (billing.get "rail") = .error e := by
    cases hread : supportedRail (billing.get "rail") with
    | error e => exact ⟨e, rfl⟩
    | ok known =>
        rw [supportedRail_ok.mp ⟨known, hread⟩] at hrail
        cases hrail
  refine ⟨e, ?_⟩
  rw [explicitOutcomeState, if_neg hknown, hbody]
  dsimp only
  rw [hbilling]
  dsimp only
  rw [hconstants, Bool.not_true, if_neg Bool.false_ne_true, he, Except.map]

/-- What is recorded: the state that a recognised billing names, and else the one of the
status code. -/
theorem recordedState_eq_ok :
    recordedState out = .ok state ↔
      (∃ body billing, Recognised out body billing state) ∨
        (¬ RailUnreadable out ∧ (∀ s body billing, ¬ Recognised out body billing s) ∧
          state = stateOfCode out.code) := by
  rw [recordedState, map_eq_ok]
  constructor
  · rintro ⟨_ | named, hexplicit, rfl⟩
    · refine Or.inr ⟨fun hunreadable => ?_, fun s body billing hrecognised => ?_, rfl⟩
      · obtain ⟨e, he⟩ := hunreadable.explicit
        rw [he] at hexplicit
        cases hexplicit
      · rw [hrecognised.explicit] at hexplicit
        cases hexplicit
    · exact Or.inl (Recognised.of_explicit hexplicit)
  · rintro (⟨body, billing, hrecognised⟩ | ⟨hreadable, hnone, rfl⟩)
    · exact ⟨some state, hrecognised.explicit, rfl⟩
    · refine ⟨none, ?_, rfl⟩
      cases hexplicit : explicitOutcomeState out with
      | error e => exact absurd (.of_explicit hexplicit) hreadable
      | ok named =>
          cases named with
          | none => rfl
          | some s =>
              obtain ⟨body, billing, hrecognised⟩ := Recognised.of_explicit hexplicit
              exact absurd hrecognised (hnone s body billing)

theorem recordedState_eq_error :
    (∃ e, recordedState out = .error e) ↔ RailUnreadable out := by
  constructor
  · rintro ⟨e, h⟩
    cases hexplicit : explicitOutcomeState out with
    | error e => exact .of_explicit hexplicit
    | ok named =>
        rw [recordedState, hexplicit] at h
        cases h
  · intro h
    obtain ⟨e, he⟩ := h.explicit
    exact ⟨e, by rw [recordedState, he, Except.map]⟩

end Classified

section Reduced

variable {py : Interp} {keccak : Bytes → Option Bytes} {levels : ℕ}

theorem billingOf_safeBody (code : ℤ) (body : Json) (kept extra : Option Dict) :
    billingOf ⟨code, .obj (safeBody code body), kept⟩ =
      (billingOf ⟨code, body, extra⟩).map fun billing =>
        (cleanse 16 false (.obj billing)).dictOrEmpty := by
  show ((safeBody code body).get "billing").asObj? = _
  cases body with
  | obj body =>
      show _ = ((Dict.get body "billing").asObj?).map _
      rw [billing_safeBody]
      cases Dict.get body "billing" <;> rfl
  | _ =>
      -- a body that is no dictionary is reduced to an empty one
      show _ = none
      rw [safeBody, if_neg fun h => by cases h.2]
      rfl

/-- Reducing an outcome leaves what its billing says about the settlement. -/
theorem saysSettled_sanitize {result safe : Outcome}
    (h : sanitizeOutcome py keccak levels result = .ok safe) :
    saysSettled safe = (saysSettled result).map (cleanse 15 false) := by
  obtain ⟨kept, -, rfl⟩ := map_eq_ok.mp h
  rw [saysSettled, saysSettled, billingOf_safeBody _ _ _ result.extra, Option.map_map,
    Option.map_map]
  refine congrArg (fun f => Option.map f (billingOf result)) (funext fun billing => ?_)
  exact get_cleanse (by decide)

end Reduced

/-! ## Every run -/

section Runs

variable {Tid : Type} {α : Type} {oc : Outcomes}

/-- The outcome was reduced. -/
def Reduced (oc : Outcomes) (r : Outcome) : Prop := ∃ result, oc.sanitize result = .ok r

/-- What a row gets is the state and the text of a reduced outcome. -/
def Classed (oc : Outcomes) (state : LedgerState) (json : PyStr) : Prop :=
  ∃ r, Reduced oc r ∧ rowValues oc r = .ok (state, json)

/-- Operations that keep only reduced outcomes. -/
def Keeps (oc : Outcomes) : Op Tid → Prop
  | .completedPut _ _ r => Reduced oc r
  | .inflightPop _ r => Reduced oc r
  | .updateOutcome _ state json => Classed oc state json
  | _ => True

/-- Code all of whose operations keep only reduced outcomes. -/
abbrev Keeping (Tid : Type) (oc : Outcomes) (x : Code Tid α) : Prop := CallsOnly (Keeps oc) x

theorem keeping_perform {o : Op Tid} (h : Keeps oc o) : Keeping Tid oc (Replay.perform o) :=
  ⟨h, fun _ => trivial⟩

theorem keeping_invoke (c : Call) : Keeping Tid oc (invoke c) :=
  ⟨trivial, fun r => by cases r <;> trivial⟩

theorem keeping_withLock {body : Code Tid α} (h : Keeping Tid oc body) : Keeping Tid oc (withLock body) := by
  rw [Keeping, CallsOnly, wpe, withLock]
  change wp _ (_ >>= _) _ _
  rw [wp_bind]
  refine ⟨trivial, fun _ => ?_⟩
  change wp _ (_ >>= _) _ ()
  rw [wp_bind]
  refine wp_mono h ?_
  rintro _ (e | a) _
  · exact ⟨trivial, fun _ => trivial⟩
  · exact ⟨trivial, fun _ => trivial⟩

/-! ### Paid execution only calls -/

theorem rejected_keeping (accept : Json) (resourceUrl : PyStr) (bazaar : Option Json)
    (error : PyStr) (attempted : Bool) :
    Keeping Tid oc (rejected stepCalls accept resourceUrl bazaar error attempted) :=
  callsOnly_bind (keeping_invoke _) fun _ => callsOnly_bind (keeping_invoke _) fun _ => trivial

theorem skipped_keeping (rail : PyStr) (code : ℤ) (result : Dict) :
    Keeping Tid oc (skipped stepCalls rail code result) :=
  callsOnly_bind (keeping_invoke _) fun _ => trivial

theorem billableWinner_keeping (body : Json) (code : ℤ) (result : Json) :
    Keeping Tid oc (billableWinner stepCalls body code result) := by
  rw [billableWinner]
  split
  · trivial
  · exact keeping_invoke _

theorem bindDecision_keeping (body : Json) (result : Dict) :
    Keeping Tid oc (bindDecision stepCalls body result) := by
  rw [bindDecision]
  split
  · refine callsOnly_tryCatch (callsOnly_bind (keeping_invoke _) fun _ =>
      callsOnly_bind (keeping_invoke _) fun _ => trivial) fun e => ?_
    split <;> trivial
  · trivial

theorem deliver_keeping (body : Json) (code : ℤ) (result extra : Dict) :
    Keeping Tid oc (deliver stepCalls body code result extra) := by
  rw [deliver]
  refine callsOnly_bind (keeping_invoke _) fun _ => callsOnly_bind (keeping_invoke _) fun attached => ?_
  split
  · refine callsOnly_bind (callsOnly_ofExcept _) fun proved => ?_
    dsimp only
    split <;> trivial
  · trivial

theorem settleWinner_keeping (body parsed accept : Json) (resourceUrl : PyStr)
    (bazaar : Option Json) (paidDeadline : ℚ) (rail : PyStr) (code : ℤ) (result : Dict) :
    Keeping Tid oc (settleWinner stepCalls body parsed accept resourceUrl bazaar
      paidDeadline rail code result) := by
  rw [settleWinner]
  refine callsOnly_bind (keeping_invoke _) fun now => ?_
  dsimp only
  split
  · exact callsOnly_bind (rejected_keeping ..) fun _ =>
      callsOnly_bind (keeping_invoke _) fun _ => trivial
  refine callsOnly_bind (keeping_invoke _) fun settle => ?_
  split
  · split
    · exact callsOnly_bind (keeping_invoke _) fun _ => trivial
    · exact callsOnly_bind (rejected_keeping ..) fun _ =>
        callsOnly_bind (keeping_invoke _) fun _ => trivial
  refine callsOnly_bind (keeping_invoke _) fun receipt => ?_
  split
  · exact callsOnly_bind (keeping_invoke _) fun _ => trivial
  · exact callsOnly_bind (keeping_invoke _) fun _ =>
      callsOnly_bind (keeping_invoke _) fun _ => deliver_keeping ..

theorem routeVerified_keeping (body parsed accept : Json) (resourceUrl : PyStr)
    (bazaar : Option Json) (paidDeadline : ℚ) :
    Keeping Tid oc
      (routeVerified stepCalls body parsed accept resourceUrl bazaar paidDeadline) := by
  rw [routeVerified]
  refine callsOnly_bind (keeping_invoke _) fun answer => ?_
  dsimp only
  split
  · trivial
  refine callsOnly_bind (keeping_invoke _) fun rail => ?_
  refine callsOnly_bind (billableWinner_keeping ..) fun billable => ?_
  split
  · exact skipped_keeping ..
  refine callsOnly_bind (bindDecision_keeping ..) fun bound => ?_
  split
  · exact skipped_keeping ..
  · exact settleWinner_keeping ..

theorem paidExecute_keeping (body parsed accept : Json) (resourceUrl : PyStr)
    (bazaar : Option Json) (paidDeadline : ℚ) :
    Keeping Tid oc
      (paidExecute stepCalls body parsed accept resourceUrl bazaar paidDeadline) := by
  rw [paidExecute]
  refine callsOnly_bind (keeping_invoke _) fun now => ?_
  dsimp only
  split
  · exact rejected_keeping ..
  refine callsOnly_bind (keeping_invoke _) fun verified => ?_
  split
  · exact rejected_keeping ..
  split
  · trivial
  · exact routeVerified_keeping ..

/-! ### Claiming and finishing -/

theorem ledgerLookup_keeping (fpHash : Bytes) (scopeHash : Option Bytes) (enforceScope : Bool) :
    Keeping Tid oc (ledgerLookup oc fpHash scopeHash enforceScope) := by
  rw [ledgerLookup]
  refine callsOnly_bind (keeping_perform trivial) fun r => ?_
  split
  · trivial
  · trivial
  · exact callsOnly_ofExcept _

theorem legacyLookup_keeping (fp : PyStr) (legacyFp : Option PyStr) :
    Keeping Tid oc (legacyLookup oc fp legacyFp) := by
  rw [legacyLookup.eq_def]
  split
  · trivial
  split
  · trivial
  · exact callsOnly_bind (callsOnly_ofExcept _) fun _ => ledgerLookup_keeping ..

theorem identityCutoverReady_keeping : Keeping Tid oc identityCutoverReady := by
  rw [identityCutoverReady]
  refine callsOnly_bind (keeping_perform trivial) fun r => ?_
  split
  · trivial
  · trivial
  · exact keeping_perform trivial

theorem ledgerReserve_keeping (fpHash : Bytes) (scopeHash : Option Bytes) :
    Keeping Tid oc (ledgerReserve fpHash scopeHash) := by
  rw [ledgerReserve]
  refine callsOnly_bind identityCutoverReady_keeping fun ready => ?_
  split
  · trivial
  · trivial
  refine callsOnly_bind (keeping_perform trivial) fun w => ?_
  split
  · exact callsOnly_bind (keeping_perform trivial) fun _ => trivial
  · trivial
  · exact keeping_perform trivial

theorem claim_keeping (fp : PyStr) (legacyFp : Option PyStr) (fpHash : Bytes)
    (scopeHash : Option Bytes) :
    Keeping Tid oc (claim oc fp legacyFp fpHash scopeHash) := by
  rw [claim]
  refine callsOnly_bind (ledgerLookup_keeping ..) fun found => ?_
  split
  · trivial
  · trivial
  refine callsOnly_bind (legacyLookup_keeping ..) fun found => ?_
  split
  · trivial
  · trivial
  refine callsOnly_bind (ledgerReserve_keeping ..) fun reserved => ?_
  split
  · exact callsOnly_bind (keeping_perform trivial) fun _ => trivial
  · trivial

theorem begin_keeping (fp : PyStr) (legacyFp scope : Option PyStr) :
    Keeping Tid oc (begin oc fp legacyFp scope) := by
  rw [begin]
  refine callsOnly_bind (callsOnly_ofExcept _) fun fpHash =>
    callsOnly_bind (callsOnly_ofExcept _) fun scopeHash =>
    keeping_withLock (callsOnly_bind (keeping_perform trivial) fun completed => ?_)
  split
  · split <;> trivial
  refine callsOnly_bind (keeping_perform trivial) fun inflight => ?_
  split
  · split <;> trivial
  · exact claim_keeping ..

theorem commitWritten_keeping (w : Sqlite.Written) :
    Keeping Tid oc (commitWritten w) := by
  cases w with
  | done => exact callsOnly_bind (keeping_perform trivial) fun _ => trivial
  | constraint => trivial
  | failed => trivial

theorem ledgerFinish_keeping {result : Outcome} (h : Reduced oc result) (fpHash : Bytes)
    (cache : Bool) : Keeping Tid oc (ledgerFinish oc fpHash result cache) := by
  rw [ledgerFinish]
  split
  · split
    · split <;> trivial
    next hrow =>
      exact callsOnly_bind (keeping_perform ⟨result, h, hrow⟩) fun w => commitWritten_keeping w
  · exact callsOnly_bind (keeping_perform trivial) fun w => commitWritten_keeping w

/-- **`finish` keeps reduced outcomes only**, in the memory and in the ledger. -/
theorem finish_keeping (fp : PyStr) (result : Outcome) (cache : Bool) :
    Keeping Tid oc (finish oc fp result cache) := by
  rw [finish]
  refine callsOnly_bind (callsOnly_ofExcept _) fun fpHash => ?_
  refine callsOnly_ofExcept_bind fun safe hsafe => ?_
  have hreduced : Reduced oc safe := ⟨result, hsafe⟩
  refine keeping_withLock (callsOnly_bind (keeping_perform hreduced) fun scope => ?_)
  split
  · exact callsOnly_bind (keeping_perform hreduced) fun _ => ledgerFinish_keeping hreduced ..
  · exact ledgerFinish_keeping hreduced ..

/-! ### The route -/

theorem unknownFor_keeping (accept : Json) : Keeping Tid oc (unknownFor accept) :=
  callsOnly_bind (keeping_invoke _) fun _ => trivial

theorem paymentRequired_keeping (resourceUrl : PyStr) (error : Option PyStr) :
    Keeping Tid oc (paymentRequired resourceUrl error) :=
  callsOnly_bind (keeping_invoke _) fun _ => trivial

theorem executeClaimed_keeping (req : Request) (fp : PyStr) (parsed accept : Json)
    (paidDeadline : ℚ) :
    Keeping Tid oc (executeClaimed oc req fp parsed accept paidDeadline) :=
  callsOnly_tryCatch
    (callsOnly_bind (paidExecute_keeping ..) fun _ => callsOnly_bind (finish_keeping ..) fun _ =>
      trivial)
    fun _ => callsOnly_bind (unknownFor_keeping _) fun _ =>
      callsOnly_bind (finish_keeping ..) fun _ => trivial

/-- **Every program of the route keeps reduced outcomes only.** -/
theorem handleRoute_keeping (fps : Fingerprints) (req : Request) :
    Keeping Tid oc (handleRoute oc fps req) := by
  rw [handleRoute]
  refine callsOnly_bind (keeping_invoke _) fun parsed => callsOnly_bind (keeping_invoke _) fun _ => ?_
  split
  · exact paymentRequired_keeping ..
  refine callsOnly_bind (keeping_invoke _) fun accept => ?_
  split
  · exact callsOnly_bind (keeping_invoke _) fun _ => paymentRequired_keeping ..
  refine callsOnly_bind (keeping_invoke _) fun paidDeadline => ?_
  dsimp only
  split
  · split
    · exact paymentRequired_keeping ..
    · trivial
  rw [handleClaim]
  refine callsOnly_bind (begin_keeping ..) fun claimed => ?_
  split
  · trivial
  · exact unknownFor_keeping _
  · refine callsOnly_bind (keeping_perform trivial) fun waited => ?_
    split
    · trivial
    · exact unknownFor_keeping _
  · exact executeClaimed_keeping ..

/-! ### What is kept -/

/-- Every outcome in the rows is the one of a reduced outcome, under its state. -/
def Ledger.Classed (oc : Outcomes) (d : Ledger) : Prop :=
  ∀ row ∈ d.rows, ∀ json, row.outcomeJson = some json → Replay.Classed oc row.state json

variable {Pid : Type}

/-- The memory of the processes and the ledger hold reduced outcomes only. -/
structure Kept (oc : Outcomes) (w : World Tid Pid) : Prop where
  completed : ∀ q fp scope r, (w.memory q).completed fp = some (scope, r) → Reduced oc r
  entries : ∀ t r, (w.entries t).result = some r → Reduced oc r
  db : Sqlite.Throughout (Ledger.Classed oc) w.db

theorem classed_insertPending {fpHash : Bytes} {scope : Option Bytes} (d d' : Ledger)
    (hd : d.Classed oc) (h : insertPending fpHash scope d = some d') : d'.Classed oc := by
  rw [insertPending] at h
  split at h
  · cases h
  · obtain rfl := Option.some_inj.mp h
    intro row hrow json hjson
    rcases List.mem_append.mp hrow with hrow | hrow
    · exact hd row hrow json hjson
    · obtain rfl := List.mem_singleton.mp hrow
      cases hjson

theorem classed_updateOutcome {fpHash : Bytes} {state : LedgerState} {json : PyStr}
    (hnew : Classed oc state json) (d d' : Ledger) (hd : d.Classed oc)
    (h : updateOutcome fpHash state json d = some d') : d'.Classed oc := by
  obtain rfl := Option.some_inj.mp h
  intro row hrow json' hjson
  obtain ⟨old, hold, rfl⟩ := List.mem_map.mp hrow
  split at hjson
  next heq =>
    obtain rfl := Option.some_inj.mp hjson
    rw [if_pos heq]
    exact hnew
  next hne =>
    rw [if_neg hne]
    exact hd old hold json' hjson

theorem classed_deleteRow {fpHash : Bytes} (d d' : Ledger) (hd : d.Classed oc)
    (h : deleteRow fpHash d = some d') : d'.Classed oc := by
  obtain rfl := Option.some_inj.mp h
  exact fun row hrow => hd row (List.mem_of_mem_filter hrow)

variable [DecidableEq Tid] [DecidableEq Pid] {pid : Tid → Pid} {w w' : World Tid Pid} {t : Tid}

omit [DecidableEq Tid] in
theorem Kept.setMemory (h : Kept oc w) {q : Pid} {m : Memory Tid}
    (hm : ∀ fp scope r, m.completed fp = some (scope, r) → Reduced oc r) :
    Kept oc (w.setMemory q m) where
  completed q' fp scope r hr := by
    by_cases hq : q' = q
    · rw [hq, World.setMemory_self] at hr
      exact hm fp scope r hr
    · rw [World.setMemory_ne _ hq] at hr
      exact h.completed q' fp scope r hr
  entries := h.entries
  db := h.db

omit [DecidableEq Tid] [DecidableEq Pid] in
theorem Kept.setDb (h : Kept oc w) {db : Sqlite.Db Ledger Pid}
    (hdb : Sqlite.Throughout (Ledger.Classed oc) db) : Kept oc { w with db := db } :=
  ⟨h.completed, h.entries, hdb⟩

omit [DecidableEq Pid] in
/-- An entry gets a reduced outcome, or none. -/
theorem Kept.setEntry (h : Kept oc w) (t : Tid) {entry : Entry}
    (hentry : ∀ r, entry.result = some r → Reduced oc r) :
    Kept oc { w with entries := Function.update w.entries t entry } := by
  refine ⟨h.completed, fun t' r hr => ?_, h.db⟩
  dsimp only at hr
  by_cases ht : t' = t
  · rw [ht, Function.update_self] at hr
    exact hentry r hr
  · rw [Function.update_of_ne ht] at hr
    exact h.entries t' r hr

omit [DecidableEq Tid] in
theorem Kept.read (h : Kept oc w) {A : Type} {f : Ledger → A} {r : Except PyError A}
    (hselect : select pid w t f r w') : Kept oc w' := by
  rcases hselect with ⟨a, db, hread, -, rfl⟩ | ⟨-, rfl⟩
  · exact h.setDb (hread.throughout h.db)
  · exact h

/-- Every operation that keeps reduced outcomes only leaves the world so. -/
theorem Kept.op {o : Op Tid} {r : o.Res} (h : Kept oc w) (hkeeps : Keeps oc o)
    (hexec : exec pid w t o r w') : Kept oc w' := by
  have hown := h.completed (pid t)
  cases o with
  | acquire =>
      obtain ⟨-, rfl⟩ := hexec
      exact h.setMemory hown
  | release =>
      subst hexec
      exact h.setMemory hown
  | completedGet fp =>
      obtain ⟨rfl, -⟩ := hexec
      exact h
  | completedPut fp scopeHash result =>
      subst hexec
      refine h.setMemory fun fp' scope r hr => ?_
      dsimp only at hr
      by_cases hfp : fp' = fp
      · rw [hfp, Function.update_self] at hr
        cases hr
        exact hkeeps
      · rw [Function.update_of_ne hfp] at hr
        exact hown fp' scope r hr
  | inflightGet fp =>
      obtain ⟨rfl, -⟩ := hexec
      exact h
  | inflightPut fp scopeHash =>
      subst hexec
      have hput : Kept oc (w.setMemory (pid t) { w.memory (pid t) with
          inflight := Function.update (w.memory (pid t)).inflight fp (some (t, scopeHash)) }) :=
        h.setMemory hown
      exact hput.setEntry t fun r hr => by cases hr
  | inflightPop fp result =>
      obtain ⟨-, rfl⟩ := hexec
      have hpopped : Kept oc (w.setMemory (pid t) { w.memory (pid t) with
          inflight := Function.update (w.memory (pid t)).inflight fp none }) := h.setMemory hown
      cases (w.memory (pid t)).inflight fp with
      | none => exact hpopped
      | some entry =>
          refine hpopped.setEntry entry.1 fun r hr => ?_
          obtain rfl := Option.some_inj.mp hr
          exact hkeeps
  | wait entry =>
      obtain ⟨rfl, -⟩ := hexec
      exact h
  | selectRow fpHash => exact h.read hexec
  | selectLegacy => exact h.read hexec
  | selectCutoverAck => exact h.read hexec
  | insertPending fpHash scopeHash =>
      obtain ⟨db, hwrite, rfl⟩ := hexec
      exact h.setDb (hwrite.throughout h.db classed_insertPending)
  | updateOutcome fpHash state json =>
      obtain ⟨db, hwrite, rfl⟩ := hexec
      exact h.setDb (hwrite.throughout h.db (classed_updateOutcome hkeeps))
  | deleteRow fpHash =>
      obtain ⟨db, hwrite, rfl⟩ := hexec
      exact ⟨h.completed, h.entries, hwrite.throughout h.db classed_deleteRow⟩
  | commit =>
      obtain ⟨db, hcommit, rfl⟩ := hexec
      exact h.setDb (hcommit.throughout h.db)
  | rollback =>
      obtain ⟨db, hrollback, rfl⟩ := hexec
      exact h.setDb (hrollback.throughout h.db)
  | call c =>
      cases c with
      | settle parsed accept =>
          subst hexec
          exact ⟨h.completed, h.entries, h.db⟩
      | _ =>
          subst hexec
          exact h

/-- The ledger a system starts with has reduced outcomes only, each under its state. -/
theorem kept_invariant {ledger : Ledger} (hledger : ledger.Classed oc) :
    (system pid ledger).Invariant (Protocol.only (Keeps oc)) () fun w _ => Kept oc w where
  init := ⟨fun _ _ _ _ h => (by cases h), fun _ _ h => (by cases h), hledger, fun _ => hledger⟩
  op h _ hkeeps hexec := h.op hkeeps hexec
  spawn h _ := h
  crash := by
    rintro w ph q w' h rfl
    have hreset : Kept oc (w.setMemory q {}) := h.setMemory fun fp scope r hr => by cases hr
    exact hreset.setDb (h.db.setIdle q)
  env := by
    rintro w ph w' h ⟨q, fp, rfl⟩
    refine h.setMemory fun fp' scope r hr => ?_
    dsimp only at hr
    by_cases hfp : fp' = fp
    · rw [hfp, Function.update_self] at hr
      cases hr
    · rw [Function.update_of_ne hfp] at hr
      exact h.completed q fp' scope r hr

theorem Kept.reachable {fps : Fingerprints} {ledger : Ledger} (hledger : ledger.Classed oc)
    {c : (system pid ledger).Config (Except PyError Outcome)}
    (h : (system pid ledger).Reachable (fun p => ∃ req, p = (handleRoute oc fps req).run) c) :
    Kept oc c.world := by
  have hmain : ∀ p : Prog (sig Tid) (Except PyError Outcome),
      (∃ req, p = (handleRoute oc fps req).run) →
        wp (Protocol.only (Keeps oc)) p (fun _ _ => True) () := by
    rintro _ ⟨req, rfl⟩
    exact wp_mono (handleRoute_keeping fps req) fun _ _ _ => trivial
  obtain ⟨-, hkept, -⟩ := h.phases (kept_invariant hledger) hmain
  exact hkept

end Runs

/-! ## Replays -/

section Rows

variable {oc : Outcomes} {state : LedgerState} {outcome : PyStr} {r : Outcome}

theorem unknownReplay_eq_some (h : unknownReplay oc state outcome = .ok (some r)) :
    oc.decode outcome = .ok (some r) := by
  rw [unknownReplay] at h
  split at h
  · obtain ⟨decoded, hdecoded, h⟩ := bind_eq_ok.mp h
    cases decoded with
    | none => cases h
    | some result =>
        obtain ⟨explicit, -, h⟩ := map_eq_ok.mp h
        split at h
        · rw [hdecoded, ← h]
        · cases h
  · cases h

theorem terminalReplay_cached (h : terminalReplay oc state outcome = .ok (.cached r)) :
    oc.decode outcome = .ok (some r) := by
  rw [terminalReplay] at h
  split at h
  · cases h
  split at h
  · obtain ⟨decoded, hdecoded, h⟩ := map_eq_ok.mp h
    cases decoded with
    | none => cases h
    | some result =>
        obtain rfl := Lookup.cached.inj h
        exact hdecoded
  · cases h

/-- What a row replays is the outcome that its text is decoded to. -/
theorem readRow_cached {row : Row} {scopeHash : Option Bytes} {enforceScope : Bool}
    (h : readRow oc row scopeHash enforceScope = .ok (.cached r)) :
    oc.decode (row.outcomeJson.getD []) = .ok (some r) := by
  rw [readRow] at h
  generalize (if row.fingerprintVersion = 0 then 1 else row.fingerprintVersion) = version at h
  split at h
  · cases h
  obtain ⟨replayed, hreplayed, h⟩ := bind_eq_ok.mp h
  cases replayed with
  | some result =>
      obtain rfl := Lookup.cached.inj (Except.ok.inj h)
      exact unknownReplay_eq_some hreplayed
  | none => exact terminalReplay_cached h

end Rows

section Replays

variable {py : Interp} {keccak : Bytes → Option Bytes} {levels : ℕ}

/-- The text of a row is decoded as the outcome that it was written for. -/
theorem decode_rowValues (hlevels : 18 ≤ levels) {n : ℕ} {result safe : Outcome}
    {state : LedgerState} {json : PyStr}
    (hsafe : sanitizeOutcome py keccak levels result = .ok safe)
    (hrow : rowValues (outcomes py keccak levels) safe = .ok (state, json))
    (hbody : result.body.Readable py floatConstants n)
    (hextra : ∀ d ∈ result.extra, ∃ n, (Json.obj d).Readable py floatConstants n) :
    decodeOutcome py keccak levels json = .ok (some safe) := by
  have hone : 1 ≤ levels := by omega
  obtain ⟨state', -, hencoded⟩ := bind_eq_ok.mp hrow
  obtain ⟨json', hjson, hpair⟩ := map_eq_ok.mp hencoded
  obtain ⟨rfl, rfl⟩ := Prod.mk.inj hpair
  have hagain := sanitizeOutcome_again hone hsafe
  have hdumps : (storedForm safe).dumps py = .ok json' := by
    change encodeOutcome py keccak levels safe = .ok json' at hjson
    rwa [encodeOutcome, hagain] at hjson
  have hcode : safe.code = result.code := by
    obtain ⟨extra, -, rfl⟩ := map_eq_ok.mp hsafe
    rfl
  have hreplayable : Replayable levels result := by
    refine ⟨?_, (sanitizeOutcome_ok hone result).mp ⟨safe, hsafe⟩⟩
    rw [← hcode]
    exact dumps_storedForm_code hdumps
  obtain ⟨safe', raw, hsafe', -, hraw, hdecode⟩ := hreplayable.stored hlevels hbody hextra
  rw [hsafe] at hsafe'
  obtain rfl := Except.ok.inj hsafe'
  change encodeOutcome py keccak levels safe = .ok json' at hjson
  rw [hjson] at hraw
  obtain rfl := Except.ok.inj hraw
  exact hdecode

/-- A flag of JSON. -/
def IsFlag (v : Json) : Prop := v = .null ∨ ∃ b, v = .bool b

theorem cleanse_eq_flag {left : ℕ} {top : Bool} {v w : Json} (hw : IsFlag w) :
    cleanse (left + 1) top v = w ↔ v = w := by
  cases v with
  | obj | arr => rcases hw with rfl | ⟨b, rfl⟩ <;> simp [cleanse]
  | _ => exact Iff.rfl

/-- **The ledger's states and replays.**  The reduced outcome says of the settlement what
the outcome said; its recorded state is the one that a recognised billing names, which is
the one of `settled`, and else the one of the status code.  And in every state that some
interleaving of processes reaches, the memory holds reduced outcomes only, and every row
that is seen holds the text of a reduced outcome under its recorded state, which is what it
replays. -/
theorem ledger_states (hlevels : 18 ≤ levels) :
    (∀ result safe, sanitizeOutcome py keccak levels result = .ok safe →
      (∀ v, IsFlag v → (saysSettled safe = some v ↔ saysSettled result = some v)) ∧
      (∀ state, recordedState safe = .ok state ↔
        (∃ body billing, Recognised safe body billing state) ∨
          (¬ RailUnreadable safe ∧ (∀ s body billing, ¬ Recognised safe body billing s) ∧
            state = stateOfCode safe.code)) ∧
      ∀ body billing state, Recognised safe body billing state → Matches safe state) ∧
    ∀ (Tid Pid : Type) [DecidableEq Tid] [DecidableEq Pid] (pid : Tid → Pid)
      (fps : Fingerprints) (ledger : Ledger), ledger.Classed (outcomes py keccak levels) →
      ∀ c : (system pid ledger).Config (Except PyError Outcome),
        (system pid ledger).Reachable (fun p => ∃ req,
          p = (handleRoute (outcomes py keccak levels) fps req).run) c →
        (∀ q fp scope r, (c.world.memory q).completed fp = some (scope, r) →
          Reduced (outcomes py keccak levels) r) ∧
        (∀ t r, (c.world.entries t).result = some r → Reduced (outcomes py keccak levels) r) ∧
        ∀ q, ∀ row ∈ (c.world.db.view q).rows, ∀ json, row.outcomeJson = some json →
          ∃ safe, Reduced (outcomes py keccak levels) safe ∧
            rowValues (outcomes py keccak levels) safe = .ok (row.state, json) ∧
            ∀ result n, sanitizeOutcome py keccak levels result = .ok safe →
              result.body.Readable py floatConstants n →
              (∀ d ∈ result.extra, ∃ n, (Json.obj d).Readable py floatConstants n) →
              ∀ scopeHash enforceScope r,
                readRow (outcomes py keccak levels) row scopeHash enforceScope =
                  .ok (.cached r) → r = safe := by
  constructor
  · intro result safe hsafe
    refine ⟨fun v hv => ?_, fun state => recordedState_eq_ok, fun _ _ _ h => h.matches⟩
    rw [saysSettled_sanitize hsafe, Option.map_eq_some_iff]
    constructor
    · rintro ⟨said, hsaid, hclean⟩
      rw [hsaid, (cleanse_eq_flag hv).mp hclean]
    · intro hsaid
      exact ⟨v, hsaid, (cleanse_eq_flag hv).mpr rfl⟩
  · intro Tid Pid _ _ pid fps ledger hledger c hreach
    have hkept := Kept.reachable hledger hreach
    refine ⟨hkept.completed, hkept.entries, fun q row hrow json hjson => ?_⟩
    obtain ⟨safe, hreduced, hvalues⟩ := hkept.db.view q row hrow json hjson
    refine ⟨safe, hreduced, hvalues, ?_⟩
    intro result n hsafe hbody hextra scopeHash enforceScope r hr
    have hdecode := readRow_cached hr
    rw [hjson, Option.getD_some] at hdecode
    change decodeOutcome py keccak levels json = .ok (some r) at hdecode
    rw [decode_rowValues hlevels hsafe hvalues hbody hextra] at hdecode
    exact (Option.some_inj.mp (Except.ok.inj hdecode)).symm

end Replays

/-- A miss that is not paid for. -/
def freeMiss : Outcome :=
  ⟨503, .obj [("live", .bool false),
    ("billing", billing "base" (some false) (some false) "not_attempted")], none⟩

/-- A miss that is not paid for is recorded as not settled. -/
theorem ledger_states_miss : ∃ safe,
    sanitizeOutcome Interp.plain (fun _ => none) 18 freeMiss = .ok safe ∧
      saysSettled safe = some (.bool false) ∧ Matches safe .notSettled ∧
      recordedState safe = .ok .notSettled := by
  obtain ⟨safe, hsafe, hsaid, hrecorded⟩ : ∃ safe,
      sanitizeOutcome Interp.plain (fun _ => none) 18 freeMiss = .ok safe ∧
        saysSettled freeMiss = some (.bool false) ∧ recordedState safe = .ok .notSettled :=
    ⟨_, rfl, by with_unfolding_all rfl, by with_unfolding_all rfl⟩
  obtain ⟨hflags, hrecords, hmatches⟩ := (ledger_states le_rfl).1 freeMiss safe hsafe
  have hsafeSaid := (hflags (.bool false) (.inr ⟨false, rfl⟩)).mpr hsaid
  rcases (hrecords .notSettled).mp hrecorded with ⟨body, billing, hrecognised⟩ | ⟨-, -, hcode⟩
  · exact ⟨safe, hsafe, hsafeSaid, hmatches body billing .notSettled hrecognised, hrecorded⟩
  · rw [stateOfCode] at hcode
    split at hcode <;> cases hcode

/-- A miss that is not paid for, in which the field `live` is missing. -/
def unlivedMiss : Outcome :=
  ⟨503, .obj [("billing", billing "base" (some false) (some false) "not_attempted")], none⟩

/-- A miss is recorded as settled though its billing says that it is not. -/
theorem unlivedMiss_settled : ∃ safe,
    sanitizeOutcome Interp.plain (fun _ => none) 18 unlivedMiss = .ok safe ∧
      recordedState safe = .ok .settled ∧ saysSettled safe = some (.bool false) :=
  ⟨_, rfl, by with_unfolding_all rfl, by with_unfolding_all rfl⟩

end Signal402.Replay
