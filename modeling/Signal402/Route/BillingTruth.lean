import Signal402.Base.Interp
import Signal402.Route.SettleOnce

/-!
# What the billing of a response says (`route.py`, `facilitator.py`)

A run of `handle_route` that executes its request calls `settle` at most once, among calls
that may all raise.  `Attempt` is what its trace says about the money, and `Truthful` what
the billing of the response has to do with it.

* `billing_tells_truth` — the response of every such run is truthful.
* `attachPqTrust_billing` — attaching the log's receipt leaves the billing as it is.
-/

namespace Signal402.Billing

open Concurrent hiding perform
open Route Replay

/-! ## The facilitator -/

/-- `_AMBIGUOUS_SETTLE_REASONS`. -/
def ambiguousSettleReasons : List PyStr := ["pending", "settlement_pending", "submitted", "unknown"]

/-- The facilitator says that the settlement is not final. -/
def ambiguousReason (py : Interp) (reason : Json) : Bool :=
  match reason with
  | .str s => ambiguousSettleReasons.contains (py.uni.lower s.strip)
  | _ => false

/-- The POST may have had its effect. -/
def settlementOutcomeUnknown : Settlement := ⟨false, .obj [], true⟩

/-- `settle`, after its POST: `reply` is the body of a 2xx answer, and `safe` what the
receipt in it is reduced to. -/
def settle (py : Interp) (reply : Option Dict) (safe : Option Json) : Settlement :=
  match reply with
  | none => settlementOutcomeUnknown
  | some body =>
      if (body.get "success").isTrue then
        match safe with
        | some receipt => ⟨true, receipt, false⟩
        | none => settlementOutcomeUnknown
      else if (body.get "success").isFalse then
        if ambiguousReason py (body.get "errorReason") then settlementOutcomeUnknown
        else ⟨false, .obj [], false⟩
      else settlementOutcomeUnknown

/-! ## Routing -/

/-- What `run_probe` calls: the check of the explicit constraints with the text of its
error, and the two ways to route, each with the result and whether it is a winner. -/
structure Routing where
  constraintError : Dict → Option PyStr
  directUrlResult : Dict → PyStr → PyStr → Bool × Dict
  routeNeed : Dict → PyStr → Bool × Dict

/-- `200, result` for a winner, and `503, result` for a miss. -/
def routed (r : Bool × Dict) : ℤ × Json := (if r.1 then 200 else 503, .obj r.2)

def runProbe (routing : Routing) (body : Dict) : ℤ × Json :=
  let invalid (error : PyStr) : ℤ × Json := ((invalidNeed error).code, (invalidNeed error).body)
  match textField body "need", textField body "url" with
  | none, _ => invalid "need must be a string"
  | some _, none => invalid "url must be a string"
  | some need, some url =>
      if need.isEmpty && url.isEmpty then invalid "need or url is required"
      else
        match routing.constraintError body with
        | some error => invalid error
        | none =>
            if url.isEmpty then routed (routing.routeNeed body need)
            else if !url.lower.startsWith "https://" then invalid "url must be https"
            else routed (routing.directUrlResult body url need)

/-! ## The log's receipt -/

/-- How far attaching the receipt comes: the log cannot be loaded, its origin cannot be
read, or there is a transparency object under its origin. -/
inductive LogAnswer
  | notLoaded
  | noOrigin
  | transparency (object : Dict)

/-- `pay["pq_native"] = False` in the payment authorization. -/
def notNative (result : Dict) : Dict :=
  result.set "payment_authorization"
    (.obj ((((result.get "payment_authorization").asObj?).getD []).set "pq_native" (.bool false)))

/-- What `_attach_pq_trust` leaves when the log raised: a payment authorization that is no
dictionary stays. -/
def trustUnavailable (result : Dict) : Dict :=
  let authorized :=
    match result.get? "payment_authorization" with
    | none => notNative result
    | some (.obj _) => notNative result
    | some _ => result
  authorized.set "pq_trust" (.obj [("transparency", .obj [("status", .str "unavailable"),
    ("state", .str "unavailable"), ("log_origin", .str "402signal.com/pq/log")])])

/-- `_attach_pq_trust` with `attach_to_route`. -/
def attachPqTrust (log : LogAnswer) (code : ℤ) (result : Json) : Json :=
  match result with
  | .obj members =>
      if code ≠ 200 ∧ code ≠ 503 then .obj members
      else
        match log with
        | .notLoaded => .obj (trustUnavailable members)
        | .noOrigin => .obj (trustUnavailable ((notNative members).erase "pq_secure"))
        | .transparency object =>
            .obj (((notNative members).erase "pq_secure").set "pq_trust"
              (.obj [("transparency", .obj object)]))
  | other => other

/-! ## Runs -/

variable {Tid : Type}

/-- What the functions above can answer; a call may also raise. -/
def Possible (py : Interp) : (o : Op Tid) → o.Res → Prop
  | .call (.settle ..), .ok s => ∃ reply safe, s = settle py reply safe
  | .call (.runProbe body), .ok answer =>
      ∃ routing, answer = runProbe routing (body.asObj?.getD [])
  | .call (.attachPqTrust code result), .ok attached =>
      ∃ log, attached = attachPqTrust log code result
  | _, _ => True

/-- What a run says about the money: whether it executes its request, and what its calls of
`settle` and of `sanitize_settlement_receipt` came to. -/
structure Attempt where
  executed : Bool := false
  settle : Option (Except PyError Settlement) := none
  receipt : Option (Except PyError (Option Json)) := none

def Attempt.next (a : Attempt) : (o : Op Tid) → o.Res → Attempt
  | .inflightPut .., _ => { a with executed := true }
  | .call (.settle ..), r => { a with settle := some r }
  | .call (.sanitizeSettlementReceipt _), r => { a with receipt := some r }
  | _, _ => a

def attempt (t : Trace (sig Tid)) : Attempt :=
  t.foldl (fun a step => a.next step.1 step.2) {}

/-- `settle` returned success, with a receipt that is usable. -/
def Attempt.Paid (py : Interp) (a : Attempt) : Prop :=
  ∃ body safe receipt, (body.get "success").isTrue = true ∧
    a.settle = some (.ok (Billing.settle py (some body) (some safe))) ∧
    a.receipt = some (.ok (some receipt))

/-- `settle` returned a definitive rejection. -/
def Attempt.Refused (py : Interp) (a : Attempt) : Prop :=
  ∃ body safe, (body.get "success").isFalse = true ∧
    ambiguousReason py (body.get "errorReason") = false ∧
    a.settle = some (.ok (Billing.settle py (some body) safe))

/-! ## Responses -/

/-- A field of the billing of a response; `none` when there is no such field. -/
def billingField (key : PyStr) (out : Outcome) : Option Json :=
  (out.body.asObj?.bind fun body => body.get? "billing").bind fun billing =>
    billing.asObj?.bind fun fields => fields.get? key

/-- `billing.settled`. -/
def settledOf : Outcome → Option Json := billingField "settled"

/-- A routing miss: a response that was not paid for because nothing was found. -/
def RoutingMiss (out : Outcome) : Prop :=
  billingField "settlement_state" out = some (.str "not_attempted")

/-- Billing tells the truth about the attempt. -/
structure Truthful (py : Interp) (a : Attempt) (out : Outcome) : Prop where
  settled : settledOf out = some (.bool true) → a.Paid py
  unsettled : settledOf out = some (.bool false) → a.settle = none ∨ a.Refused py
  unknown : a.settle ≠ none → ¬a.Paid py → ¬a.Refused py → settledOf out = some .null
  not_invalid : a.settle ≠ none → out.code ≠ 400
  not_miss : a.settle ≠ none → ¬RoutingMiss out

/-- The response has a billing with these values. -/
def Says (out : Outcome) (settled : Option Bool) (state : PyStr) : Prop :=
  ∃ rail attempted, ∃ body : Dict, out.body = .obj body ∧
    body.get? "billing" = some (billing rail attempted settled state)

section Responses

variable {py : Interp} {a : Attempt} {out : Outcome} {settled : Option Bool} {state : PyStr}

theorem Says.settledOf (h : Says out settled state) : settledOf out = some (ofFlag settled) := by
  obtain ⟨rail, attempted, body, hbody, hbilling⟩ := h
  rw [Billing.settledOf, billingField, hbody]
  show (body.get? "billing").bind _ = _
  rw [hbilling]
  rfl

theorem Says.settlementState (h : Says out settled state) :
    billingField "settlement_state" out = some (.str state) := by
  obtain ⟨rail, attempted, body, hbody, hbilling⟩ := h
  rw [billingField, hbody]
  show (body.get? "billing").bind _ = _
  rw [hbilling]
  rfl

theorem Says.not_miss (h : Says out settled state) (hstate : state ≠ "not_attempted") :
    ¬RoutingMiss out := by
  intro hmiss
  rw [RoutingMiss, h.settlementState, Option.some_inj] at hmiss
  exact hstate (Json.str.inj hmiss)

/-- Before `settle` only a response that claims to be settled is untruthful. -/
theorem Truthful.of_untouched (hsettle : a.settle = none)
    (hout : Billing.settledOf out ≠ some (.bool true)) : Truthful py a out where
  settled h := absurd h hout
  unsettled _ := .inl hsettle
  unknown h := absurd hsettle h
  not_invalid h := absurd hsettle h
  not_miss h := absurd hsettle h

/-- An unknown outcome is truthful whatever happened. -/
theorem Truthful.of_unknown (h : Says out none "unknown") (hcode : out.code = 503) :
    Truthful py a out where
  settled hsettled := by
    rw [h.settledOf] at hsettled
    cases hsettled
  unsettled hsettled := by
    rw [h.settledOf] at hsettled
    cases hsettled
  unknown _ _ _ := h.settledOf
  not_invalid _ := by
    rw [hcode]
    decide
  not_miss _ := h.not_miss (by rw [Ne, PyStr.ofString_inj]; decide)

theorem Truthful.of_refused (hrefused : a.Refused py) (h : Says out (some false) "rejected")
    (hcode : out.code = 402) : Truthful py a out where
  settled hsettled := by
    rw [h.settledOf] at hsettled
    cases hsettled
  unsettled _ := .inr hrefused
  unknown _ _ hnot := absurd hrefused hnot
  not_invalid _ := by
    rw [hcode]
    decide
  not_miss _ := h.not_miss (by rw [Ne, PyStr.ofString_inj]; decide)

theorem Truthful.of_paid (hpaid : a.Paid py) (h : Says out (some true) "settled")
    (hcode : out.code ≠ 400) : Truthful py a out where
  settled _ := hpaid
  unsettled hsettled := by
    rw [h.settledOf] at hsettled
    cases hsettled
  unknown _ hnot _ := absurd hpaid hnot
  not_invalid _ := hcode
  not_miss _ := h.not_miss (by rw [Ne, PyStr.ofString_inj]; decide)

theorem unknownOutcome_billing (rail : PyStr) (attempted : Option Bool) :
    Says (unknownOutcome rail attempted) none "unknown" :=
  ⟨rail, attempted, _, rfl, by simp [Dict.get?]⟩

theorem Truthful.unknownOutcome (rail : PyStr) (attempted : Option Bool) :
    Truthful py a (unknownOutcome rail attempted) :=
  .of_unknown (unknownOutcome_billing rail attempted) rfl

end Responses

/-! ## The rules of a watched run -/

open Classical in
/-- The attempt so far; an answer that cannot be leads out of the runs that matter. -/
noncomputable def watch (py : Interp) (Tid : Type) : Protocol (sig Tid) (Option Attempt) where
  allowed _ _ := True
  next φ o r := φ.bind fun a => if Possible py o r then some (a.next o r) else none

section Rules

variable {py : Interp} {α β : Type} {Q : Attempt → α → Prop} {E : Attempt → PyError → Prop}
  {a : Attempt}

theorem watch_next {o : Op Tid} {r : o.Res} (h : Possible py o r) :
    (watch py Tid).next (some a) o r = some (a.next o r) := if_pos h

/-- The attempt of a trace of possible answers. -/
theorem watch_after {t : Trace (sig Tid)} (h : ∀ step ∈ t, Possible py step.1 step.2) :
    (watch py Tid).after (some a) t =
      some (t.foldl (fun a step => a.next step.1 step.2) a) := by
  induction t generalizing a with
  | nil => rfl
  | cons step t ih =>
      have hstep := h step List.mem_cons_self
      have hrest := ih (a := a.next step.1 step.2) fun s hs => h s (List.mem_cons_of_mem _ hs)
      rw [List.foldl_cons, ← hrest, Protocol.after, List.foldl_cons, watch_next hstep]
      rfl

/-- A statement about attempts, where there is one. -/
def expects {β : Type} (R : Attempt → β → Prop) (φ : Option Attempt) (b : β) : Prop :=
  ∀ a, φ = some a → R a b

/-- From attempt `a` the code returns as `Q` says and raises as `E` says. -/
def ensures (Tid : Type) (py : Interp) (x : Code Tid α) (Q : Attempt → α → Prop)
    (E : Attempt → PyError → Prop) (a : Attempt) : Prop :=
  wpe (watch py Tid) x (expects Q) (expects E) (some a)

theorem wpe_none (x : Code Tid α) : wpe (watch py Tid) x (expects Q) (expects E) none := by
  refine wp_of_absorbing (fun _ => trivial) (fun _ _ => rfl) _ _ ?_
  rintro (e | b) a ha <;> cases ha

theorem ensures_pure {b : α} (h : Q a b) : ensures Tid py (pure b) Q E a := by
  rintro _ ⟨⟩
  exact h

theorem ensures_throw {e : PyError} (h : E a e) :
    ensures Tid py (throw e) Q E a := by
  rintro _ ⟨⟩
  exact h

theorem ensures_ofExcept {x : Except PyError α} (hQ : ∀ b, x = .ok b → Q a b) (hE : ∀ e, E a e) :
    ensures Tid py (MonadExcept.ofExcept x) Q E a := by
  cases x with
  | ok b => exact ensures_pure (hQ b rfl)
  | error e => exact ensures_throw (hE e)

theorem ensures_bind {x : Code Tid α} {f : α → Code Tid β} {Q : Attempt → β → Prop}
    (h : ensures Tid py x (fun a b => ensures Tid py (f b) Q E a) E a) :
    ensures Tid py (x >>= f) Q E a := by
  rw [ensures, wpe_bind]
  refine wpe_mono h ?_ fun _ _ he => he
  rintro (_ | a') b hb
  · exact wpe_none _
  · exact hb a' rfl

theorem ensures_tryCatch {x : Code Tid α} {f : PyError → Code Tid α}
    (h : ensures Tid py x Q (fun a e => ensures Tid py (f e) Q E a) a) :
    ensures Tid py (tryCatch x f) Q E a := by
  rw [ensures, wpe_tryCatch]
  refine wpe_mono h (fun _ _ hb => hb) ?_
  rintro (_ | a') e he
  · exact wpe_none _
  · exact he a' rfl

theorem ensures_mono {x : Code Tid α} {R : Attempt → α → Prop} {F : Attempt → PyError → Prop}
    (h : ensures Tid py x Q E a) (hQR : ∀ a b, Q a b → R a b) (hEF : ∀ a e, E a e → F a e) :
    ensures Tid py x R F a :=
  wpe_mono h (fun _ _ hb a ha => hQR _ _ (hb a ha)) fun _ _ he a ha => hEF _ _ (he a ha)

theorem watch_eq_some {φ : Option Attempt} {o : Op Tid} {r : o.Res} {a' : Attempt} :
    (watch py Tid).next φ o r = some a' ↔
      ∃ a, φ = some a ∧ Possible py o r ∧ a.next o r = a' := by
  cases φ with
  | none => simp [watch]
  | some a => simp [watch, Option.ite_none_right_eq_some]

theorem expects_next {R : Attempt → β → Prop} {b : β} {o : Op Tid} {r : o.Res}
    (h : Possible py o r → R (a.next o r) b) : expects R ((watch py Tid).next (some a) o r) b := by
  intro a' ha'
  obtain ⟨_, ⟨⟩, hpossible, rfl⟩ := watch_eq_some.mp ha'
  exact h hpossible

theorem ensures_perform {o : Op Tid} {Q : Attempt → o.Res → Prop}
    (h : ∀ r, Q (a.next o r) r) : ensures Tid py (perform o) Q E a :=
  ⟨trivial, fun r => expects_next fun _ => h r⟩

theorem ensures_invoke {c : Call} {Q : Attempt → c.Res → Prop}
    (hQ : ∀ r, Possible py (.call c : Op Tid) (.ok r) → Q (a.next (.call c : Op Tid) (.ok r)) r)
    (hE : ∀ e, E (a.next (.call c : Op Tid) (.error e)) e) :
    ensures Tid py (invoke c) Q E a := by
  refine ⟨trivial, ?_⟩
  rintro (e | r)
  · exact expects_next fun _ => hE e
  · exact expects_next fun hr => hQ r hr

/-- Giving the lock back says nothing about the money. -/
theorem expects_release {R : Attempt → β → Prop} {φ : Option Attempt} {b : β}
    (h : expects R φ b) : expects R ((watch py Tid).next φ .release ()) b := by
  intro a' ha'
  obtain ⟨a, rfl, -, rfl⟩ := watch_eq_some.mp ha'
  exact h a rfl

theorem ensures_withLock {body : Code Tid α} (h : ensures Tid py body Q E a) :
    ensures Tid py (withLock body) Q E a := by
  rw [ensures, wpe, withLock]
  change wp _ (_ >>= _) _ _
  rw [wp_bind]
  have hacquire : Possible py (.acquire : Op Tid) () := trivial
  refine ⟨trivial, fun _ => ?_⟩
  change wp _ (_ >>= _) _ ((watch py Tid).next (some a) .acquire ())
  rw [wp_bind, watch_next hacquire]
  refine wp_mono h ?_
  rintro φ (e | b) hpost
  · exact ⟨trivial, fun _ => expects_release hpost⟩
  · exact ⟨trivial, fun _ => expects_release hpost⟩

end Rules

/-! ## The programs -/

/-- A response that is settled by a success of `settle`. -/
theorem settle_ok {py : Interp} {reply : Option Dict} {safe : Option Json}
    (h : (settle py reply safe).ok = true) :
    ∃ body receipt, reply = some body ∧ safe = some receipt ∧
      (body.get "success").isTrue = true := by
  rw [settle.eq_def] at h
  split at h
  · cases h
  next body =>
    split at h
    next hsuccess =>
      split at h
      next receipt => exact ⟨body, receipt, rfl, rfl, hsuccess⟩
      next => cases h
    next =>
      split at h
      · split at h <;> cases h
      · cases h

/-- What a definitive rejection is. -/
theorem settle_refused {py : Interp} {reply : Option Dict} {safe : Option Json}
    (hok : (settle py reply safe).ok = false) (hambiguous : (settle py reply safe).ambiguous = false) :
    ∃ body, reply = some body ∧ (body.get "success").isFalse = true ∧
      ambiguousReason py (body.get "errorReason") = false := by
  rw [settle.eq_def] at hok hambiguous
  split at hok
  · cases hambiguous
  next body =>
    dsimp only at hambiguous
    split at hok
    next hsuccess =>
      rw [if_pos hsuccess] at hambiguous
      split at hok
      next => cases hok
      next => cases hambiguous
    next hsuccess =>
      rw [if_neg hsuccess] at hambiguous
      split at hok
      next hfailed =>
        rw [if_pos hfailed] at hambiguous
        split at hok
        next hreason =>
          rw [if_pos hreason] at hambiguous
          cases hambiguous
        next hreason => exact ⟨body, rfl, hfailed, by simpa using hreason⟩
      next hfailed =>
        rw [if_neg hfailed] at hambiguous
        cases hambiguous

theorem get?_erase_of_ne (d : Dict) {key key' : PyStr} (h : key' ≠ key) :
    (d.erase key).get? key' = d.get? key' := by
  induction d with
  | nil => rfl
  | cons m rest ih =>
      obtain ⟨k, v⟩ := m
      rw [Dict.erase, List.filter_cons]
      by_cases hk : k = key
      · rw [if_neg (by simpa using hk), Dict.get?, if_neg (fun heq => h (heq.symm.trans hk))]
        exact ih
      · rw [if_pos (by simpa using hk), Dict.get?, Dict.get?]
        split
        · rfl
        · exact ih

theorem literal_ne {s t : String} (h : s ≠ t) : (PyStr.ofString s) ≠ PyStr.ofString t :=
  fun heq => h (PyStr.ofString_inj.mp heq)

theorem notNative_billing (result : Dict) :
    (notNative result).get? "billing" = result.get? "billing" := by
  rw [notNative, Dict.get?_set, if_neg (literal_ne (by decide))]

theorem trustUnavailable_billing (result : Dict) :
    (trustUnavailable result).get? "billing" = result.get? "billing" := by
  rw [trustUnavailable, Dict.get?_set, if_neg (literal_ne (by decide))]
  split
  · exact notNative_billing result
  · exact notNative_billing result
  · rfl

/-- **Attaching the log's receipt leaves the billing as it is**, however far it comes. -/
theorem attachPqTrust_billing (log : LogAnswer) (code : ℤ) (result : Dict) :
    ∃ attached : Dict, attachPqTrust log code (.obj result) = .obj attached ∧
      attached.get? "billing" = result.get? "billing" := by
  have herase : ((notNative result).erase "pq_secure").get? "billing" = result.get? "billing" := by
    rw [get?_erase_of_ne _ (literal_ne (by decide)), notNative_billing]
  rw [attachPqTrust.eq_def]
  dsimp only
  split
  · exact ⟨_, rfl, rfl⟩
  cases log with
  | notLoaded => exact ⟨_, rfl, trustUnavailable_billing result⟩
  | noOrigin => exact ⟨_, rfl, (trustUnavailable_billing _).trans herase⟩
  | transparency object =>
      refine ⟨_, rfl, ?_⟩
      rw [Dict.get?_set, if_neg (literal_ne (by decide))]
      exact herase

section Programs

variable {py : Interp} {α : Type} {Q : Attempt → α → Prop} {E : Attempt → PyError → Prop}
  {a : Attempt} {oc : Outcomes}

theorem rejected_ensures {accept : Json} {resourceUrl : PyStr} {bazaar : Option Json}
    {error : PyStr} {attempted : Bool} {Q : Attempt → Outcome → Prop}
    (hQ : ∀ out, out.code = 402 → Says out (some false) "rejected" → Q a out)
    (hE : ∀ e, E a e) :
    ensures Tid py
      (rejected stepCalls accept resourceUrl bazaar error attempted) Q E a := by
  rw [rejected]
  dsimp only [stepCalls]
  refine ensures_bind (ensures_invoke (fun required _ => ?_) hE)
  refine ensures_bind (ensures_invoke (fun rail _ => ?_) hE)
  refine ensures_pure (hQ _ rfl ⟨rail, some attempted, _, rfl, ?_⟩)
  rw [Dict.get?_set, if_pos rfl]

theorem skipped_ensures {rail : PyStr} {code : ℤ} {result : Dict} {Q : Attempt → Outcome → Prop}
    (hQ : ∀ out, Says out (some false) "not_attempted" → Q a out) (hE : ∀ e, E a e) :
    ensures Tid py (skipped stepCalls rail code result) Q E a := by
  rw [skipped]
  dsimp only [stepCalls]
  refine ensures_bind (ensures_invoke (fun _ _ => ?_) hE)
  refine ensures_pure (hQ _ ⟨rail, some false, _, rfl, ?_⟩)
  rw [Dict.get?_set, if_pos rfl]

theorem billableWinner_ensures {body : Json} {code : ℤ} {result : Json}
    {Q : Attempt → Bool → Prop} (hfalse : Q a false) (htrue : code = 200 → Q a true)
    (hE : ∀ e, E a e) :
    ensures Tid py (billableWinner stepCalls body code result) Q E a := by
  rw [billableWinner]
  split
  · exact ensures_pure hfalse
  next h =>
    refine ensures_invoke (fun billable _ => ?_) hE
    cases billable with
    | false => exact hfalse
    | true => exact htrue (by tauto)

theorem bindDecision_ensures {body : Json} {result : Dict} {Q : Attempt → Option Dict → Prop}
    (hQ : ∀ r, Q a r) (hE : ∀ e, E a e) :
    ensures Tid py (bindDecision stepCalls body result) Q E a := by
  have hcatch : ∀ e : PyError, ensures Tid py
      (if e.cls.isA .valueError || e.cls.isA .typeError || e.cls.isA .keyError then
        pure none else throw e) Q E a := by
    intro e
    split
    · exact ensures_pure (hQ none)
    · exact ensures_throw (hE e)
  rw [bindDecision]
  split
  · refine ensures_tryCatch (ensures_bind (ensures_invoke (fun binding _ => ?_) hcatch))
    refine ensures_bind (ensures_invoke (fun _ _ => ?_) hcatch)
    exact ensures_pure (hQ _)
  · exact ensures_pure (hQ _)

/-- What is delivered has the billing of the result. -/
theorem deliver_ensures {body : Json} {result extra : Dict} {rail : PyStr}
    {attempted settled : Option Bool} {state : PyStr} {Q : Attempt → Outcome → Prop}
    (hbilling : result.get? "billing" = some (billing rail attempted settled state))
    (hQ : ∀ out, out.code ≠ 400 → Says out settled state → Q a out) (hE : ∀ e, E a e) :
    ensures Tid py (deliver stepCalls body 200 result extra) Q E a := by
  rw [deliver]
  dsimp only [stepCalls]
  refine ensures_bind (ensures_invoke (fun _ _ => ?_) hE)
  refine ensures_bind (ensures_invoke (fun attached hattached => ?_) hE)
  obtain ⟨log, rfl⟩ := hattached
  obtain ⟨members, hmembers, hsame⟩ :=
    attachPqTrust_billing log 200 (result.erase "binding_observation")
  rw [get?_erase_of_ne _ (literal_ne (by decide)), hbilling] at hsame
  rw [hmembers]
  have hdelivered : (200 : ℤ) ≠ 400 := by decide
  have hrefused : (503 : ℤ) ≠ 400 := by decide
  have hgate : ∀ proved : Bool, ensures Tid py
      (if proved then pure ⟨200, .obj members, nonEmpty extra⟩
        else pure (unprovable (.obj members) extra)) Q E a := by
    intro proved
    cases proved with
    | true => exact ensures_pure (hQ _ hdelivered ⟨rail, attempted, members, rfl, hsame⟩)
    | false =>
        refine ensures_pure (hQ _ hrefused ⟨rail, attempted, _, rfl, ?_⟩)
        have hget : Dict.get members "billing" = billing rail attempted settled state := by
          rw [Dict.get, hsame]
          rfl
        simp [Dict.get?, Json.asObj?, hget]
  split
  · exact ensures_bind (ensures_ofExcept (fun proved _ => hgate proved) hE)
  · exact ensures_bind (ensures_pure (hgate true))

/-- After `settle` was called the outcome says what came of it. -/
theorem settleWinner_ensures {body parsed accept : Json} {resourceUrl : PyStr}
    {bazaar : Option Json} {paidDeadline : ℚ} {rail : PyStr} {result : Dict}
    (huntouched : a.settle = none) :
    ensures Tid py
      (settleWinner stepCalls body parsed accept resourceUrl bazaar paidDeadline rail 200 result)
      (Truthful py) (fun _ _ => True) a := by
  rw [settleWinner]
  dsimp only [stepCalls]
  refine ensures_bind (ensures_invoke (fun now _ => ?_) fun _ => trivial)
  split
  · refine ensures_bind (rejected_ensures (fun out _ hsaid => ?_) fun _ => trivial)
    refine ensures_bind (ensures_invoke (fun _ _ => ?_) fun _ => trivial)
    refine ensures_pure (.of_untouched huntouched ?_)
    rw [hsaid.settledOf]
    simp [ofFlag]
  refine ensures_bind (ensures_invoke (fun s hs => ?_) fun _ => trivial)
  obtain ⟨reply, safe, rfl⟩ := hs
  split
  next hfailed =>
    rw [Bool.not_eq_true'] at hfailed
    split
    · refine ensures_bind (ensures_invoke (fun _ _ => ?_) fun _ => trivial)
      exact ensures_pure (.unknownOutcome rail _)
    next hdefinitive =>
      rw [Bool.not_eq_true] at hdefinitive
      obtain ⟨reply, rfl, hreply⟩ := settle_refused hfailed hdefinitive
      refine ensures_bind (rejected_ensures (fun out hcode hsaid => ?_) fun _ => trivial)
      refine ensures_bind (ensures_invoke (fun _ _ => ?_) fun _ => trivial)
      exact ensures_pure (.of_refused ⟨reply, safe, hreply.1, hreply.2, rfl⟩ hsaid hcode)
  next hok =>
    rw [Bool.not_eq_true', Bool.not_eq_false] at hok
    obtain ⟨reply, receipt, rfl, rfl, hsuccess⟩ := settle_ok hok
    refine ensures_bind (ensures_invoke (fun usable _ => ?_) fun _ => trivial)
    cases usable with
    | none =>
        refine ensures_bind (ensures_invoke (fun _ _ => ?_) fun _ => trivial)
        exact ensures_pure (.unknownOutcome rail _)
    | some usable =>
        refine ensures_bind (ensures_invoke (fun header _ => ?_) fun _ => trivial)
        refine ensures_bind (ensures_invoke (fun _ _ => ?_) fun _ => trivial)
        have hbilling : (result.set "billing"
            (billing rail (some true) (some true) "settled")).get? "billing" =
              some (billing rail (some true) (some true) "settled") := by
          rw [Dict.get?_set, if_pos rfl]
        refine deliver_ensures hbilling (fun out hcode hsaid => ?_) fun _ => trivial
        exact .of_paid ⟨reply, receipt, usable, hsuccess, rfl, rfl⟩ hsaid hcode

theorem invalidNeed_settledOf (error : PyStr) (extra : Option Dict) :
    settledOf ⟨400, (invalidNeed error).body, extra⟩ ≠ some (.bool true) := by
  have hnone : settledOf ⟨400, (invalidNeed error).body, extra⟩ = none := by
    simp [settledOf, billingField, invalidNeed, Json.asObj?, Dict.get?]
  rw [hnone]
  simp

theorem badRequest_eq_some {body : Dict} {bad : Outcome} (h : badRequest body = some bad) :
    ∃ error, bad = invalidNeed error := by
  rw [badRequest] at h
  split at h
  · exact ⟨_, (Option.some_inj.mp h).symm⟩
  · exact ⟨_, (Option.some_inj.mp h).symm⟩
  split at h
  · exact ⟨_, (Option.some_inj.mp h).symm⟩
  split at h
  · exact ⟨_, (Option.some_inj.mp h).symm⟩
  · cases h

theorem routed_ne (r : Bool × Dict) : (routed r).1 ≠ 400 := by
  rw [routed]
  split <;> simp

/-- A 400 of `run_probe` is about the body. -/
theorem runProbe_invalid {routing : Routing} {body : Dict}
    (h : (runProbe routing body).1 = 400) :
    ∃ error, (runProbe routing body).2 = (invalidNeed error).body := by
  rw [runProbe] at h ⊢
  dsimp only at h ⊢
  split
  · exact ⟨_, rfl⟩
  · exact ⟨_, rfl⟩
  next hneed hurl =>
  rw [hneed, hurl] at h
  dsimp only at h
  split
  · exact ⟨_, rfl⟩
  next hsome =>
  rw [if_neg hsome] at h
  split
  · exact ⟨_, rfl⟩
  next hvalid =>
  rw [hvalid] at h
  dsimp only at h
  split
  next hempty =>
    rw [if_pos hempty] at h
    exact absurd h (routed_ne _)
  next hempty =>
    rw [if_neg hempty] at h
    split
    · exact ⟨_, rfl⟩
    next hhttps =>
      rw [if_neg hhttps] at h
      exact absurd h (routed_ne _)

theorem routeVerified_ensures {body parsed accept : Json} {resourceUrl : PyStr}
    {bazaar : Option Json} {paidDeadline : ℚ} (huntouched : a.settle = none) :
    ensures Tid py
      (routeVerified stepCalls body parsed accept resourceUrl bazaar paidDeadline)
      (Truthful py) (fun _ _ => True) a := by
  -- a miss comes before `settle`
  have hmiss : ∀ out, Says out (some false) "not_attempted" → Truthful py a out := by
    intro out hsaid
    refine .of_untouched huntouched ?_
    rw [hsaid.settledOf]
    simp [ofFlag]
  rw [routeVerified]
  dsimp only [stepCalls]
  refine ensures_bind (ensures_invoke (fun answer hanswer => ?_) fun _ => trivial)
  obtain ⟨routing, rfl⟩ := hanswer
  split
  next hcode =>
    obtain ⟨error, hbody⟩ := runProbe_invalid hcode
    rw [hbody]
    exact ensures_pure (.of_untouched huntouched (invalidNeed_settledOf error none))
  refine ensures_bind (ensures_invoke (fun rail _ => ?_) fun _ => trivial)
  refine ensures_bind (billableWinner_ensures ?_ (fun hcode => ?_) fun _ => trivial)
  · exact skipped_ensures hmiss fun _ => trivial
  rw [if_neg (by simp)]
  refine ensures_bind (bindDecision_ensures (fun bound => ?_) fun _ => trivial)
  cases bound with
  | none => exact skipped_ensures hmiss fun _ => trivial
  | some bound =>
      rw [hcode]
      exact settleWinner_ensures huntouched

theorem paidExecute_ensures {body parsed accept : Json} {resourceUrl : PyStr}
    {bazaar : Option Json} {paidDeadline : ℚ} (huntouched : a.settle = none) :
    ensures Tid py
      (paidExecute stepCalls body parsed accept resourceUrl bazaar paidDeadline)
      (Truthful py) (fun _ _ => True) a := by
  have hrejected : ensures Tid py
      (rejected stepCalls accept resourceUrl bazaar "Payment verification failed" false)
      (Truthful py) (fun _ _ => True) a := by
    refine rejected_ensures (fun out _ hsaid => .of_untouched huntouched ?_) fun _ => trivial
    rw [hsaid.settledOf]
    simp [ofFlag]
  rw [paidExecute]
  dsimp only [stepCalls]
  refine ensures_bind (ensures_invoke (fun now _ => ?_) fun _ => trivial)
  split
  · exact hrejected
  refine ensures_bind (ensures_invoke (fun verified _ => ?_) fun _ => trivial)
  split
  · exact hrejected
  split
  next bad hbad =>
    obtain ⟨error, rfl⟩ := badRequest_eq_some hbad
    exact ensures_pure (.of_untouched huntouched (invalidNeed_settledOf error none))
  · exact routeVerified_ensures huntouched

/-! ### The ledger says nothing about the money -/

theorem commitWritten_ensures {w : Sqlite.Written} {Q : Attempt → Unit → Prop} (hQ : Q a ()) :
    ensures Tid py (commitWritten w) Q E a := by
  cases w with
  | done => exact ensures_bind (ensures_perform fun _ => ensures_pure hQ)
  | constraint => exact ensures_pure hQ
  | failed => exact ensures_pure hQ

theorem ledgerFinish_ensures {fpHash : Bytes} {result : Outcome} {cache : Bool}
    {Q : Attempt → Unit → Prop} (hQ : Q a ()) (hE : ∀ e, E a e) :
    ensures Tid py (ledgerFinish oc fpHash result cache) Q E a := by
  rw [ledgerFinish]
  split
  · split
    · split
      · exact ensures_pure hQ
      · exact ensures_throw (hE _)
    · exact ensures_bind (ensures_perform fun _ => commitWritten_ensures hQ)
  · exact ensures_bind (ensures_perform fun _ => commitWritten_ensures hQ)

theorem finish_ensures {fp : PyStr} {result : Outcome} {cache : Bool}
    {Q : Attempt → Unit → Prop} (hQ : Q a ()) (hE : ∀ e, E a e) :
    ensures Tid py (finish oc fp result cache) Q E a := by
  rw [finish]
  refine ensures_bind (ensures_ofExcept (fun fpHash _ => ?_) hE)
  refine ensures_bind (ensures_ofExcept (fun safe _ => ?_) hE)
  refine ensures_withLock (ensures_bind (ensures_perform fun scope => ?_))
  split
  · exact ensures_bind (ensures_perform fun _ => ledgerFinish_ensures hQ hE)
  · exact ledgerFinish_ensures hQ hE

theorem ledgerLookup_ensures {fpHash : Bytes} {scopeHash : Option Bytes} {enforceScope : Bool}
    {Q : Attempt → Lookup → Prop} (hQ : ∀ r, Q a r) (hE : ∀ e, E a e) :
    ensures Tid py (ledgerLookup oc fpHash scopeHash enforceScope) Q E a := by
  rw [ledgerLookup]
  refine ensures_bind (ensures_perform fun r => ?_)
  split
  · exact ensures_pure (hQ _)
  · exact ensures_pure (hQ _)
  · exact ensures_ofExcept (fun r _ => hQ r) hE

theorem legacyLookup_ensures {fp : PyStr} {legacyFp : Option PyStr}
    {Q : Attempt → Lookup → Prop} (hQ : ∀ r, Q a r) (hE : ∀ e, E a e) :
    ensures Tid py (legacyLookup oc fp legacyFp) Q E a := by
  rw [legacyLookup.eq_def]
  split
  · exact ensures_pure (hQ _)
  split
  · exact ensures_pure (hQ _)
  · exact ensures_bind (ensures_ofExcept (fun _ _ => ledgerLookup_ensures hQ hE) hE)

theorem identityCutoverReady_ensures {Q : Attempt → Except PyError Bool → Prop}
    (hQ : ∀ r, Q a r) : ensures Tid py identityCutoverReady Q E a := by
  rw [identityCutoverReady]
  refine ensures_bind (ensures_perform fun r => ?_)
  split
  · exact ensures_pure (hQ _)
  · exact ensures_pure (hQ _)
  · exact ensures_perform fun r => hQ r

theorem ledgerReserve_ensures {fpHash : Bytes} {scopeHash : Option Bytes}
    {Q : Attempt → Bool → Prop} (hQ : ∀ r, Q a r) :
    ensures Tid py (ledgerReserve fpHash scopeHash) Q E a := by
  rw [ledgerReserve]
  refine ensures_bind (identityCutoverReady_ensures fun ready => ?_)
  split
  · exact ensures_pure (hQ _)
  · exact ensures_pure (hQ _)
  refine ensures_bind (ensures_perform fun w => ?_)
  split
  · exact ensures_bind (ensures_perform fun _ => ensures_pure (hQ _))
  · exact ensures_pure (hQ _)
  · exact ensures_perform fun r => hQ r

/-- Only the answer `run` makes the request one that is executed. -/
theorem claim_ensures {fp : PyStr} {legacyFp : Option PyStr} {fpHash : Bytes}
    {scopeHash : Option Bytes} {Q : Attempt → Begin Tid → Prop}
    (hrun : Q { a with executed := true } .run) (hother : ∀ r, r ≠ .run → Q a r)
    (hE : ∀ e, E a e) :
    ensures Tid py (claim oc fp legacyFp fpHash scopeHash) Q E a := by
  rw [claim]
  refine ensures_bind (ledgerLookup_ensures (fun found => ?_) hE)
  split
  · exact ensures_pure (hother _ (by simp))
  · exact ensures_pure (hother _ (by simp))
  refine ensures_bind (legacyLookup_ensures (fun found => ?_) hE)
  split
  · exact ensures_pure (hother _ (by simp))
  · exact ensures_pure (hother _ (by simp))
  refine ensures_bind (ledgerReserve_ensures fun reserved => ?_)
  split
  · exact ensures_bind (ensures_perform fun _ => ensures_pure hrun)
  · exact ensures_pure (hother _ (by simp))

theorem begin_ensures {fp : PyStr} {legacyFp scope : Option PyStr}
    {Q : Attempt → Begin Tid → Prop} (hrun : Q { a with executed := true } .run)
    (hother : ∀ r, r ≠ .run → Q a r) (hE : ∀ e, E a e) :
    ensures Tid py (begin oc fp legacyFp scope) Q E a := by
  rw [begin]
  refine ensures_bind (ensures_ofExcept (fun fpHash _ => ?_) hE)
  refine ensures_bind (ensures_ofExcept (fun scopeHash _ => ?_) hE)
  refine ensures_withLock (ensures_bind (ensures_perform fun completed => ?_))
  split
  · split <;> exact ensures_pure (hother _ (by simp))
  refine ensures_bind (ensures_perform fun inflight => ?_)
  split
  · split <;> exact ensures_pure (hother _ (by simp))
  · exact claim_ensures hrun hother hE

/-! ### The route -/

theorem unknownFor_ensures {accept : Json} {Q : Attempt → Outcome → Prop}
    (hQ : ∀ rail, Q a (unknownOutcome rail none)) (hE : ∀ e, E a e) :
    ensures Tid py (unknownFor accept) Q E a := by
  rw [unknownFor]
  exact ensures_bind (ensures_invoke (fun rail _ => ensures_pure (hQ rail)) hE)

theorem paymentRequired_ensures {resourceUrl : PyStr} {error : Option PyStr}
    {Q : Attempt → Outcome → Prop} (hQ : ∀ out, Q a out) (hE : ∀ e, E a e) :
    ensures Tid py (paymentRequired resourceUrl error) Q E a := by
  rw [paymentRequired]
  exact ensures_bind (ensures_invoke (fun _ _ => ensures_pure (hQ _)) hE)

/-- The `try` block of the execution. -/
def tryExecute (oc : Outcomes) (req : Request) (fp : PyStr) (parsed accept : Json)
    (paidDeadline : ℚ) : Code Tid Outcome := do
  let out ← paidExecute stepCalls req.body parsed accept req.resourceUrl req.bazaar paidDeadline
  finish oc fp out (out.code != 400)
  return out

/-- Its `except` block. -/
def exceptExecute (oc : Outcomes) (fp : PyStr) (accept : Json) : Code Tid Outcome := do
  let out ← unknownFor accept
  finish oc fp out true
  return out

theorem executeClaimed_eq (oc : Outcomes) (req : Request) (fp : PyStr) (parsed accept : Json)
    (paidDeadline : ℚ) :
    (executeClaimed oc req fp parsed accept paidDeadline : Code Tid Outcome) =
      tryCatch (tryExecute oc req fp parsed accept paidDeadline)
        fun _ => exceptExecute oc fp accept := rfl

theorem exceptExecute_ensures {fp : PyStr} {accept : Json} {Q : Attempt → Outcome → Prop}
    (hQ : ∀ rail, Q a (unknownOutcome rail none)) (hE : ∀ e, E a e) :
    ensures Tid py (exceptExecute oc fp accept) Q E a := by
  rw [exceptExecute]
  refine ensures_bind (unknownFor_ensures (fun rail => ?_) hE)
  exact ensures_bind (finish_ensures (ensures_pure (hQ rail)) hE)

theorem executeClaimed_ensures {req : Request} {fp : PyStr} {parsed accept : Json}
    {paidDeadline : ℚ} (huntouched : a.settle = none) :
    ensures Tid py (executeClaimed oc req fp parsed accept paidDeadline)
      (Truthful py) (fun _ _ => True) a := by
  rw [executeClaimed_eq]
  -- whatever raises, wherever it does: the outcome is then unknown
  have hraised : ∀ (a : Attempt) (_ : PyError), True → ensures Tid py (exceptExecute oc fp accept)
      (Truthful py) (fun _ (_ : PyError) => True) a := by
    intro a e _
    exact exceptExecute_ensures (fun rail => .unknownOutcome rail none) fun _ => trivial
  refine ensures_tryCatch (ensures_mono ?_ (fun _ _ h => h) hraised)
  rw [tryExecute]
  refine ensures_bind (ensures_mono (paidExecute_ensures huntouched) (fun a' out hout => ?_)
    fun _ _ h => h)
  exact ensures_bind (finish_ensures (ensures_pure hout) fun _ => trivial)

/-- **A request that is executed gets a truthful response.** -/
theorem handleRoute_ensures {fps : Fingerprints} (req : Request) :
    ensures Tid py (handleRoute oc fps req)
      (fun a out => a.executed = true → Truthful py a out) (fun _ _ => True) {} := by
  have hrequired : ∀ error, ensures Tid py (paymentRequired req.resourceUrl error)
      (fun a out => a.executed = true → Truthful py a out) (fun _ _ => True) {} := by
    intro error
    exact paymentRequired_ensures (fun out h => by cases h) fun _ => trivial
  have hunknown : ∀ accept, ensures Tid py (unknownFor accept)
      (fun a out => a.executed = true → Truthful py a out) (fun _ _ => True) {} := by
    intro accept
    exact unknownFor_ensures (fun rail _ => .unknownOutcome rail none) fun _ => trivial
  rw [handleRoute]
  refine ensures_bind (ensures_invoke (fun parsed _ => ?_) fun _ => trivial)
  refine ensures_bind (ensures_invoke (fun _ _ => ?_) fun _ => trivial)
  split
  · exact hrequired none
  refine ensures_bind (ensures_invoke (fun accept _ => ?_) fun _ => trivial)
  split
  · exact ensures_bind (ensures_invoke (fun error _ => hrequired _) fun _ => trivial)
  refine ensures_bind (ensures_invoke (fun paidDeadline _ => ?_) fun _ => trivial)
  dsimp only
  split
  · split
    · exact hrequired _
    · exact ensures_throw trivial
  rw [handleClaim]
  refine ensures_bind (begin_ensures ?_ (fun r hr => ?_) fun _ => trivial)
  · exact ensures_mono (executeClaimed_ensures rfl) (fun _ _ h _ => h) fun _ _ h => h
  · split
    · exact ensures_pure fun h => by cases h
    · exact hunknown _
    · refine ensures_bind (ensures_perform fun waited => ?_)
      split
      · exact ensures_pure fun h => by cases h
      · exact hunknown _
    · exact absurd rfl hr

end Programs

/-! ## Every run -/

/-- **Billing tells the truth.**  Whatever the calls of a run of `handle_route` return or
raise: when the run executes its request, the billing of the response says what became of
the money, and after an exception of the execution it says that this is unknown. -/
theorem billing_tells_truth {py : Interp} {oc : Outcomes} {fps : Fingerprints} {req : Request}
    {t : Trace (sig Tid)} {out : Outcome} (hrun : Runs (handleRoute oc fps req).run t (.ok out))
    (hpossible : ∀ step ∈ t, Possible py step.1 step.2)
    (hexecuted : (attempt t).executed = true) :
    Truthful py (attempt t) out ∧
      ∀ fp parsed accept paidDeadline before raised rest e, t = before ++ (raised ++ rest) →
        Reaches (handleRoute oc fps req).run before
          (executeClaimed oc req fp parsed accept paidDeadline).run →
        Runs (tryExecute oc req fp parsed accept paidDeadline).run raised (.error e) →
        settledOf out = some .null := by
  constructor
  · have hend := hrun.wp (@handleRoute_ensures Tid py oc fps req)
    rw [watch_after hpossible] at hend
    exact hend _ rfl hexecuted
  · rintro fp parsed accept paidDeadline before raised rest e rfl hreach hraised
    have hclaimed := hreach.runs hrun
    rw [executeClaimed_eq] at hclaimed
    have hrest := hclaimed.handler hraised
    have hnull : ensures Tid py (exceptExecute oc fp accept)
        (fun _ out => settledOf out = some .null) (fun _ _ => True) {} :=
      exceptExecute_ensures (fun rail => (unknownOutcome_billing rail none).settledOf) fun _ => trivial
    have hend := hrest.wp hnull
    rw [watch_after fun step hstep =>
      hpossible step (List.mem_append_right _ (List.mem_append_right _ hstep))] at hend
    exact hend _ rfl

section Paying

/-- Everything goes well: the answers of a request that is paid for. -/
def paying (py : Interp) : (o : Op Unit) → o.Res
  | .acquire => ()
  | .release => ()
  | .completedGet _ => none
  | .completedPut .. => ()
  | .inflightGet _ => none
  | .inflightPut .. => ()
  | .inflightPop .. => none
  | .wait _ => none
  | .selectRow _ => .ok none
  | .selectLegacy => .ok false
  | .selectCutoverAck => .ok true
  | .insertPending .. => .done
  | .updateOutcome .. => .done
  | .deleteRow _ => .done
  | .commit => true
  | .rollback => ()
  | .call c =>
      match c with
      | .extractPaymentPayload => .ok (some .null)
      | .algorandSender => .ok none
      | .matchAccept .. => .ok (some .null)
      | .inboundMatchError _ => .ok []
      | .paymentDeadline _ => .ok 60
      | .monotonic => .ok 0
      | .railOfAccept _ => .ok "base"
      | .requiredPair .. => .ok ([], [])
      | .verify .. => .ok true
      | .runProbe body =>
          .ok (runProbe ⟨fun _ => none, fun _ _ _ => (true, []), fun _ _ => (true, [])⟩
            (body.asObj?.getD []))
      | .billableGate .. => .ok true
      | .buildBinding .. => .ok .null
      | .evidenceFromRoute .. => .ok ()
      | .settle .. => .ok (settle py (some [("success", .bool true)]) (some .null))
      | .sanitizeSettlementReceipt receipt => .ok (some receipt)
      | .paymentResponseHeader _ => .ok .null
      | .markBatchSettled => .ok ()
      | .attachPqTrust code result => .ok (attachPqTrust .notLoaded code result)
      | .logSettle => .ok ()
      | .logSettleSkipped => .ok ()

theorem paying_possible (py : Interp) (o : Op Unit) : Possible py o (paying py o) := by
  cases o with
  | call c =>
      cases c with
      | settle => exact ⟨_, _, rfl⟩
      | runProbe => exact ⟨_, rfl⟩
      | attachPqTrust => exact ⟨_, rfl⟩
      | _ => trivial
  | _ => trivial

/-- The program of a request that is paid for, and how it ends. -/
def paidRun : Trace (sig Unit) × Except PyError Outcome :=
  (handleRoute keepAll oneName urlRequest).run.play (paying Interp.plain)

/-- A request that is paid for: its billing says that it is settled, and it is. -/
theorem billing_tells_truth_paid : ∃ out, paidRun.2 = .ok out ∧
    settledOf out = some (.bool true) ∧ (attempt paidRun.1).Paid Interp.plain := by
  have hpossible : ∀ step ∈ paidRun.1, Possible Interp.plain step.1 step.2 := by
    intro step hstep
    rw [Prog.eq_of_mem_play hstep]
    exact paying_possible Interp.plain step.1
  obtain ⟨out, hout, hsettled, hexecuted⟩ : ∃ out, paidRun.2 = .ok out ∧
      settledOf out = some (.bool true) ∧ (attempt paidRun.1).executed = true :=
    ⟨_, by with_unfolding_all rfl, by with_unfolding_all rfl, by with_unfolding_all rfl⟩
  have hrun := Prog.runs_play (paying Interp.plain) (handleRoute keepAll oneName urlRequest).run
  rw [show (Prog.play (paying Interp.plain) (handleRoute keepAll oneName urlRequest).run).2 =
    .ok out from hout] at hrun
  have htrue := billing_tells_truth hrun hpossible hexecuted
  exact ⟨out, hout, hsettled, htrue.1.settled hsettled⟩

end Paying

end Signal402.Billing
