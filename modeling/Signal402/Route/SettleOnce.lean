import Signal402.Route.Replay

/-!
# One settlement for each payment fingerprint

The programs of `Signal402.Route.Replay` keep to one protocol (`protocol`): a
row is inserted by a thread that holds the lock and claims nothing; a reported
commit makes the inserting thread the owner of the fingerprint hash; only the
owner may call `settle`, once, or ask for the row's deletion, and not both.  What
the rows of all processes have to do with it is the invariant `Ledgered`: as
long as a hash is owned or settled for, its row is in the file and in the
uncommitted contents of every writer, so that the `UNIQUE` constraint refuses
any other claim.
-/

namespace Signal402.Replay

open Concurrent Route Sqlite

/-- What a thread has of a fingerprint hash. -/
inductive Claim
  | free
  | inserted (fpHash : Bytes)
  | owns (fpHash : Bytes)
  | spent (fpHash : Bytes)
  | released
  deriving DecidableEq

/-- Where a thread is: whether it holds its process's lock, and its claim. -/
structure Phase where
  locked : Bool
  claim : Claim

/-- A claim that a commit does not change. -/
def Claim.Settled : Claim → Prop
  | .inserted _ => False
  | _ => True

variable (fps : Fingerprints)

/-- The ledger's name of a payment. -/
def paymentHash (parsed accept : Json) : Option Bytes :=
  match fps.canonical parsed accept with
  | .ok fp => (durableHash fp).toOption
  | .error _ => none

/-- What a reported or failed commit makes of a claim. -/
def Claim.commit (c : Claim) (reported : Bool) : Claim :=
  match c with
  | .inserted h => if reported then .owns h else .free
  | c => c

/-- What a call of `settle` makes of a claim. -/
def Claim.spend : Claim → Claim
  | .owns h => .spent h
  | c => c

variable (Tid : Type)

/-- The discipline of the ledger. -/
def protocol : Protocol (sig Tid) Phase where
  allowed φ o :=
    match o with
    | .acquire => φ.locked = false
    | .release => φ.locked = true ∧ φ.claim.Settled
    | .insertPending .. => φ.locked = true ∧ φ.claim = .free
    | .updateOutcome .. => φ.locked = true ∧ φ.claim.Settled
    | .deleteRow h => φ.locked = true ∧ φ.claim = .owns h
    | .commit => φ.locked = true
    | .rollback => φ.locked = true ∧ φ.claim.Settled
    | .call (.settle parsed accept) =>
        ∃ h, φ.claim = .owns h ∧ paymentHash fps parsed accept = some h
    | _ => True
  next φ o r :=
    match o, r with
    | .acquire, _ => { φ with locked := true }
    | .release, _ => { φ with locked := false }
    | .insertPending h _, .done => { φ with claim := .inserted h }
    | .deleteRow _, _ => { φ with claim := .released }
    | .commit, reported => { φ with claim := φ.claim.commit reported }
    | .call (.settle ..), _ => { φ with claim := φ.claim.spend }
    | _, _ => φ

variable {Tid}

/-! ## The programs keep to the protocol -/

section Programs

variable {fps} {α β : Type} {Q : Phase → α → Prop} {E : Phase → PyError → Prop} {φ : Phase}

theorem wpe_step (o : Op Tid) {Q : Phase → o.Res → Prop} :
    wpe (protocol fps Tid) (perform o) Q E φ ↔
      (protocol fps Tid).allowed φ o ∧ ∀ r, Q ((protocol fps Tid).next φ o r) r := Iff.rfl

theorem wpe_ofExcept (x : Except PyError α) :
    wpe (protocol fps Tid) (MonadExcept.ofExcept x) Q E φ ↔
      match x with
      | .ok a => Q φ a
      | .error e => E φ e := by
  cases x <;> rfl

theorem wpe_withLock {body : Code Tid α} (hlock : φ.locked = false) :
    wpe (protocol fps Tid) (withLock body) Q E φ ↔
      wpe (protocol fps Tid) body
        (fun φ' a => (φ'.locked = true ∧ φ'.claim.Settled) ∧ Q { φ' with locked := false } a)
        (fun φ' e => (φ'.locked = true ∧ φ'.claim.Settled) ∧ E { φ' with locked := false } e)
        { φ with locked := true } := by
  rw [wpe, withLock]
  change wp _ (_ >>= _) _ _ ↔ _
  rw [wp_bind]
  constructor
  · rintro ⟨-, h⟩
    replace h := h ()
    change wp _ (_ >>= _) _ _ at h
    rw [wp_bind] at h
    refine wp_mono h ?_
    rintro φ' (e | a) ⟨hrelease, hpost⟩ <;> exact ⟨hrelease, hpost ()⟩
  · intro h
    refine ⟨hlock, fun _ => ?_⟩
    change wp _ (_ >>= _) _ _
    rw [wp_bind]
    refine wp_mono h ?_
    rintro φ' (e | a) ⟨hrelease, hpost⟩ <;> exact ⟨hrelease, fun _ => hpost⟩

/-- The calls that leave the phase as it is. -/
def Call.isSettle : Call → Bool
  | .settle .. => true
  | _ => false

theorem wpe_invoke {c : Call} (hc : c.isSettle = false) {Q : Phase → c.Res → Prop} :
    wpe (protocol fps Tid) (invoke c) Q E φ ↔ (∀ a, Q φ a) ∧ ∀ e, E φ e := by
  have hsame : ∀ r : Except PyError c.Res, (protocol fps Tid).next φ (.call c) r = φ := by
    intro r
    cases c <;> first | rfl | cases hc
  have hallowed : (protocol fps Tid).allowed φ (.call c) := by
    cases c <;> first | cases hc; done | trivial
  constructor
  · rintro ⟨-, h⟩
    refine ⟨fun a => ?_, fun e => ?_⟩
    · have ha : Q ((protocol fps Tid).next φ (.call c) (.ok a)) a := h (.ok a)
      rwa [hsame] at ha
    · have he : E ((protocol fps Tid).next φ (.call c) (.error e)) e := h (.error e)
      rwa [hsame] at he
  · rintro ⟨hQ, hE⟩
    refine ⟨hallowed, ?_⟩
    rintro (e | a)
    · change E ((protocol fps Tid).next φ (.call c) (.error e)) e
      rw [hsame]
      exact hE e
    · change Q ((protocol fps Tid).next φ (.call c) (.ok a)) a
      rw [hsame]
      exact hQ a

variable {oc : Outcomes}

theorem ledgerLookup_wpe {fpHash : Bytes} {scopeHash : Option Bytes} {enforceScope : Bool}
    {Q : Phase → Lookup → Prop} (hQ : ∀ r, Q φ r) (hE : ∀ e, E φ e) :
    wpe (protocol fps Tid) (ledgerLookup oc fpHash scopeHash enforceScope) Q E φ := by
  rw [ledgerLookup, wpe_bind, wpe_step]
  refine ⟨trivial, ?_⟩
  rintro (e | row | row)
  · exact hQ _
  · exact hQ _
  · dsimp only
    rw [wpe_ofExcept]
    split
    · exact hQ _
    · exact hE _

theorem identityCutoverReady_wpe {Q : Phase → Except PyError Bool → Prop} (hQ : ∀ r, Q φ r) :
    wpe (protocol fps Tid) identityCutoverReady Q E φ := by
  rw [identityCutoverReady, wpe_bind, wpe_step]
  refine ⟨trivial, ?_⟩
  rintro (e | legacy | legacy)
  · exact hQ _
  · exact hQ _
  · exact ⟨trivial, fun r => hQ r⟩

/-- `_ledger_reserve` makes the thread the owner exactly when it answers `run`. -/
theorem ledgerReserve_wpe {fpHash : Bytes} {scopeHash : Option Bytes} {Q : Phase → Bool → Prop}
    (hrun : Q ⟨true, .owns fpHash⟩ true) (hreject : Q ⟨true, .free⟩ false) :
    wpe (protocol fps Tid) (ledgerReserve fpHash scopeHash) Q E ⟨true, .free⟩ := by
  rw [ledgerReserve, wpe_bind]
  refine identityCutoverReady_wpe ?_
  rintro (e | ready | ready)
  · exact hreject
  · exact hreject
  dsimp only
  rw [wpe_bind, wpe_step]
  refine ⟨⟨rfl, rfl⟩, ?_⟩
  rintro (_ | _ | _)
  · refine ⟨rfl, ?_⟩
    rintro (_ | _)
    · exact hreject
    · exact hrun
  · dsimp only
    rw [wpe_bind, wpe_step]
    exact ⟨⟨rfl, trivial⟩, fun _ => hreject⟩
  · exact hreject

theorem legacyLookup_wpe {fp : PyStr} {legacyFp : Option PyStr} {Q : Phase → Lookup → Prop}
    (hQ : ∀ r, Q φ r) (hE : ∀ e, E φ e) :
    wpe (protocol fps Tid) (legacyLookup oc fp legacyFp) Q E φ := by
  rw [legacyLookup.eq_def]
  split
  · exact hQ _
  split
  · exact hQ _
  rw [wpe_bind, wpe_ofExcept]
  split
  · exact ledgerLookup_wpe hQ hE
  · exact hE _

theorem claim_wpe {fp : PyStr} {legacyFp : Option PyStr} {fpHash : Bytes}
    {scopeHash : Option Bytes} {Q : Phase → Begin Tid → Prop}
    (hrun : Q ⟨true, .owns fpHash⟩ .run) (hother : ∀ r, r ≠ .run → Q ⟨true, .free⟩ r)
    (hE : ∀ e, E ⟨true, .free⟩ e) :
    wpe (protocol fps Tid) (claim oc fp legacyFp fpHash scopeHash) Q E ⟨true, .free⟩ := by
  rw [claim, wpe_bind]
  refine ledgerLookup_wpe ?_ hE
  rintro (_ | result | _)
  · dsimp only
    rw [wpe_bind]
    refine legacyLookup_wpe ?_ hE
    rintro (_ | result | _)
    · dsimp only
      rw [wpe_bind]
      refine ledgerReserve_wpe ?_ ?_
      · rw [if_pos rfl, wpe_bind, wpe_step]
        exact ⟨trivial, fun _ => hrun⟩
      · rw [if_neg (by decide)]
        exact hother _ (by simp)
    · exact hother _ (by simp)
    · exact hother _ (by simp)
  · exact hother _ (by simp)
  · exact hother _ (by simp)

/-- **`begin` answers `run` to the owner of the fingerprint's hash only.** -/
theorem begin_wpe {fp : PyStr} {legacyFp scope : Option PyStr} {Q : Phase → Begin Tid → Prop}
    (hrun : ∀ h, durableHash fp = .ok h → Q ⟨false, .owns h⟩ .run)
    (hother : ∀ r, r ≠ .run → Q ⟨false, .free⟩ r) (hE : ∀ e, E ⟨false, .free⟩ e) :
    wpe (protocol fps Tid) (begin oc fp legacyFp scope) Q E ⟨false, .free⟩ := by
  rw [begin, wpe_bind, wpe_ofExcept]
  split
  case h_2 => exact hE _
  case h_1 h hh =>
    rw [wpe_bind, wpe_ofExcept]
    split
    case h_2 => exact hE _
    case h_1 sh _ =>
      rw [wpe_withLock rfl, wpe_bind, wpe_step]
      refine ⟨trivial, ?_⟩
      rintro (_ | ⟨storedScope, result⟩)
      · dsimp only
        rw [wpe_bind, wpe_step]
        refine ⟨trivial, ?_⟩
        rintro (_ | ⟨entry, storedScope⟩)
        · exact claim_wpe ⟨⟨rfl, trivial⟩, hrun h hh⟩
            (fun r hr => ⟨⟨rfl, trivial⟩, hother r hr⟩) (fun e => ⟨⟨rfl, trivial⟩, hE e⟩)
        · dsimp only
          split <;> exact ⟨⟨rfl, trivial⟩, hother _ (by simp)⟩
      · dsimp only
        split <;> exact ⟨⟨rfl, trivial⟩, hother _ (by simp)⟩

theorem commitWritten_wpe {w : Written} {Q : Phase → Unit → Prop} (hlock : φ.locked = true)
    (hsettled : φ.claim.Settled) (hQ : Q φ ()) :
    wpe (protocol fps Tid) (commitWritten w) Q E φ := by
  cases w with
  | done =>
      rw [commitWritten, wpe_bind, wpe_step]
      refine ⟨hlock, fun r => ?_⟩
      have hcommit : φ.claim.commit r = φ.claim := by
        cases hc : φ.claim with
        | inserted h => rw [hc] at hsettled; exact hsettled.elim
        | _ => rfl
      change Q { φ with claim := φ.claim.commit r } ()
      rw [hcommit]
      exact hQ
  | constraint => exact hQ
  | failed => exact hQ

/-- `_ledger_finish` gives the claim up when it deletes, and keeps it otherwise. -/
theorem ledgerFinish_wpe {fpHash : Bytes} {result : Outcome} {cache : Bool}
    {Q : Phase → Unit → Prop} (hlock : φ.locked = true) (hsettled : φ.claim.Settled)
    (hdelete : cache = false → φ.claim = .owns fpHash ∧ Q { φ with claim := .released } ())
    (hkeep : cache = true → Q φ () ∧ ∀ e, E φ e) :
    wpe (protocol fps Tid) (ledgerFinish oc fpHash result cache) Q E φ := by
  rw [ledgerFinish]
  cases cache with
  | true =>
      obtain ⟨hQ, hE⟩ := hkeep rfl
      rw [if_pos rfl]
      split
      · split
        · exact hQ
        · exact hE _
      · rw [wpe_bind, wpe_step]
        exact ⟨⟨hlock, hsettled⟩, fun w => commitWritten_wpe hlock hsettled hQ⟩
  | false =>
      obtain ⟨howns, hQ⟩ := hdelete rfl
      rw [if_neg (by decide), wpe_bind, wpe_step]
      exact ⟨⟨hlock, howns⟩, fun w => commitWritten_wpe hlock trivial hQ⟩

/-- `finish` may be called with any settled claim, and without keeping the
outcome by the owner only. -/
theorem finish_wpe {fp : PyStr} {result : Outcome} {cache : Bool} {c : Claim}
    {Q : Phase → Unit → Prop} (hsettled : c.Settled)
    (hdelete : cache = false → ∀ h, durableHash fp = .ok h → c = .owns h)
    (hQ : ∀ c', Q ⟨false, c'⟩ ()) (hE : ∀ e, E ⟨false, c⟩ e) :
    wpe (protocol fps Tid) (finish oc fp result cache) Q E ⟨false, c⟩ := by
  rw [finish, wpe_bind, wpe_ofExcept]
  split
  case h_2 => exact hE _
  case h_1 h hh =>
    rw [wpe_bind, wpe_ofExcept]
    split
    case h_2 => exact hE _
    case h_1 safe _ =>
    rw [wpe_withLock rfl, wpe_bind, wpe_step]
    refine ⟨trivial, fun scope => ?_⟩
    have hfinish : wpe (protocol fps Tid) (ledgerFinish oc h safe cache)
        (fun φ' a => (φ'.locked = true ∧ φ'.claim.Settled) ∧ Q { φ' with locked := false } a)
        (fun φ' e => (φ'.locked = true ∧ φ'.claim.Settled) ∧ E { φ' with locked := false } e)
        ⟨true, c⟩ :=
      ledgerFinish_wpe rfl hsettled
        (fun hc => ⟨hdelete hc h hh, ⟨rfl, trivial⟩, hQ _⟩)
        (fun _ => ⟨⟨⟨rfl, hsettled⟩, hQ _⟩, fun e => ⟨⟨rfl, hsettled⟩, hE e⟩⟩)
    cases cache with
    | true =>
        rw [if_pos rfl, wpe_bind, wpe_step]
        exact ⟨trivial, fun _ => hfinish⟩
    | false =>
        rw [if_neg (by decide)]
        exact hfinish

/-! ### Paid execution -/

theorem rejected_wpe {accept : Json} {resourceUrl : PyStr} {bazaar : Option Json}
    {error : PyStr} {attempted : Bool} {Q : Phase → Outcome → Prop}
    (hQ : ∀ out, out.code ≠ 400 → Q φ out) (hE : ∀ e, E φ e) :
    wpe (protocol fps Tid)
      (rejected stepCalls accept resourceUrl bazaar error attempted) Q E φ := by
  rw [rejected, wpe_bind]
  dsimp only [stepCalls]
  rw [wpe_invoke rfl]
  refine ⟨fun required => ?_, hE⟩
  rw [wpe_bind, wpe_invoke rfl]
  exact ⟨fun rail => hQ _ (show (402 : ℤ) ≠ 400 by decide), hE⟩

theorem billableWinner_wpe {body : Json} {code : ℤ} {result : Json} {Q : Phase → Bool → Prop}
    (hfalse : Q φ false) (htrue : code = 200 → Q φ true) (hE : ∀ e, E φ e) :
    wpe (protocol fps Tid) (billableWinner stepCalls body code result) Q E φ := by
  rw [billableWinner]
  split
  · exact hfalse
  next h =>
    dsimp only [stepCalls]
    rw [wpe_invoke rfl]
    refine ⟨?_, hE⟩
    rintro (_ | _)
    · exact hfalse
    · exact htrue (by tauto)

theorem skipped_wpe {rail : PyStr} {code : ℤ} {result : Dict} {Q : Phase → Outcome → Prop}
    (hQ : ∀ out, Q φ out) (hE : ∀ e, E φ e) :
    wpe (protocol fps Tid) (skipped stepCalls rail code result) Q E φ := by
  rw [skipped, wpe_bind]
  dsimp only [stepCalls]
  rw [wpe_invoke rfl]
  exact ⟨fun _ => hQ _, hE⟩

theorem bindDecision_wpe {body : Json} {result : Dict} {Q : Phase → Option Dict → Prop}
    (hQ : ∀ r, Q φ r) (hE : ∀ e, E φ e) :
    wpe (protocol fps Tid) (bindDecision stepCalls body result) Q E φ := by
  have hcatch : ∀ e : PyError, wpe (protocol fps Tid)
      (if e.cls.isA .valueError || e.cls.isA .typeError || e.cls.isA .keyError then
        pure none else throw e) Q E φ := by
    intro e
    split
    · exact hQ _
    · exact hE _
  rw [bindDecision]
  split
  · rw [wpe_tryCatch, wpe_bind]
    dsimp only [stepCalls]
    rw [wpe_invoke rfl]
    refine ⟨fun binding => ?_, hcatch⟩
    rw [wpe_bind, wpe_invoke rfl]
    exact ⟨fun _ => hQ _, hcatch⟩
  · exact hQ _

theorem deliver_wpe {body : Json} {code : ℤ} {result extra : Dict}
    {Q : Phase → Outcome → Prop} (hcode : code ≠ 400) (hQ : ∀ out, out.code ≠ 400 → Q φ out)
    (hE : ∀ e, E φ e) :
    wpe (protocol fps Tid) (deliver stepCalls body code result extra) Q E φ := by
  rw [deliver, wpe_bind]
  dsimp only [stepCalls]
  rw [wpe_invoke rfl]
  refine ⟨fun _ => ?_, hE⟩
  rw [wpe_bind, wpe_invoke rfl]
  refine ⟨fun attached => ?_, hE⟩
  have hgate : ∀ proved : Bool, wpe (protocol fps Tid)
      (if proved then pure ⟨code, attached, nonEmpty extra⟩
        else pure (unprovable attached extra)) Q E φ := by
    rintro (_ | _)
    · exact hQ _ (show (503 : ℤ) ≠ 400 by decide)
    · exact hQ _ hcode
  split
  · rw [wpe_bind, wpe_ofExcept]
    split
    · exact hgate _
    · exact hE _
  · exact hgate true

/-- The owner settles at most once, and after that returns no 400. -/
theorem settleWinner_wpe {body parsed accept : Json} {resourceUrl : PyStr}
    {bazaar : Option Json} {paidDeadline : ℚ} {rail : PyStr} {code : ℤ} {result : Dict}
    {h : Bytes} {Q : Phase → Outcome → Prop} (hcode : code ≠ 400)
    (hpay : paymentHash fps parsed accept = some h)
    (howns : ∀ out, out.code ≠ 400 → Q ⟨false, .owns h⟩ out)
    (hspent : ∀ out, out.code ≠ 400 → Q ⟨false, .spent h⟩ out)
    (hE : ∀ e, E ⟨false, .owns h⟩ e) (hE' : ∀ e, E ⟨false, .spent h⟩ e) :
    wpe (protocol fps Tid)
      (settleWinner stepCalls body parsed accept resourceUrl bazaar paidDeadline rail code
        result) Q E ⟨false, .owns h⟩ := by
  have hunknown : Q ⟨false, .spent h⟩ (unknownOutcome rail (some true)) :=
    hspent _ (show (503 : ℤ) ≠ 400 by decide)
  rw [settleWinner, wpe_bind]
  dsimp only [stepCalls]
  rw [wpe_invoke rfl]
  refine ⟨fun now => ?_, hE⟩
  split
  · rw [wpe_bind]
    refine rejected_wpe (fun out hout => ?_) hE
    rw [wpe_bind, wpe_invoke rfl]
    exact ⟨fun _ => howns _ hout, hE⟩
  · rw [wpe_bind]
    -- the one call of `settle`: whatever it does, the claim is spent
    refine ⟨⟨h, rfl, hpay⟩, ?_⟩
    rintro (e | settle)
    · exact hE' e
    change wpe (protocol fps Tid) _ Q E ⟨false, .spent h⟩
    split
    · split
      · rw [wpe_bind, wpe_invoke rfl]
        exact ⟨fun _ => hunknown, hE'⟩
      · rw [wpe_bind]
        refine rejected_wpe (fun out hout => ?_) hE'
        rw [wpe_bind, wpe_invoke rfl]
        exact ⟨fun _ => hspent _ hout, hE'⟩
    · rw [wpe_bind, wpe_invoke rfl]
      refine ⟨?_, hE'⟩
      rintro (_ | receipt)
      · dsimp only
        rw [wpe_bind, wpe_invoke rfl]
        exact ⟨fun _ => hunknown, hE'⟩
      · dsimp only
        rw [wpe_bind, wpe_invoke rfl]
        refine ⟨fun header => ?_, hE'⟩
        rw [wpe_bind, wpe_invoke rfl]
        exact ⟨fun _ => deliver_wpe hcode hspent hE', hE'⟩

/-- **The protocol of a paid execution.**  It ends as the owner, or with the
payment spent and an outcome that is kept. -/
theorem paidExecute_wpe {body parsed accept : Json} {resourceUrl : PyStr}
    {bazaar : Option Json} {paidDeadline : ℚ} {h : Bytes} {Q : Phase → Outcome → Prop}
    (hpay : paymentHash fps parsed accept = some h)
    (howns : ∀ out, Q ⟨false, .owns h⟩ out)
    (hspent : ∀ out, out.code ≠ 400 → Q ⟨false, .spent h⟩ out)
    (hE : ∀ e, E ⟨false, .owns h⟩ e) (hE' : ∀ e, E ⟨false, .spent h⟩ e) :
    wpe (protocol fps Tid)
      (paidExecute stepCalls body parsed accept resourceUrl bazaar paidDeadline) Q E
      ⟨false, .owns h⟩ := by
  have hrejected : wpe (protocol fps Tid)
      (rejected stepCalls accept resourceUrl bazaar "Payment verification failed" false) Q E
      ⟨false, .owns h⟩ := rejected_wpe (fun out _ => howns out) hE
  rw [paidExecute, wpe_bind]
  dsimp only [stepCalls]
  rw [wpe_invoke rfl]
  refine ⟨fun now => ?_, hE⟩
  split
  · exact hrejected
  rw [wpe_bind, wpe_invoke rfl]
  refine ⟨fun verified => ?_, hE⟩
  split
  · exact hrejected
  split
  · exact howns _
  rw [routeVerified, wpe_bind]
  dsimp only [stepCalls]
  rw [wpe_invoke rfl]
  refine ⟨?_, hE⟩
  rintro ⟨code, result⟩
  dsimp only
  split
  · exact howns _
  rw [wpe_bind, wpe_invoke rfl]
  refine ⟨fun rail => ?_, hE⟩
  rw [wpe_bind]
  refine billableWinner_wpe ?_ (fun hcode => ?_) hE
  · exact skipped_wpe howns hE
  · rw [if_neg (by decide), wpe_bind]
    refine bindDecision_wpe ?_ hE
    rintro (_ | bound)
    · exact skipped_wpe howns hE
    · exact settleWinner_wpe (by rw [hcode]; decide) hpay (fun out _ => howns out) hspent hE hE'

/-! ### The route -/

theorem unknownFor_wpe {accept : Json} {Q : Phase → Outcome → Prop} (hQ : ∀ out, Q φ out)
    (hE : ∀ e, E φ e) : wpe (protocol fps Tid) (unknownFor accept) Q E φ := by
  rw [unknownFor, wpe_bind, wpe_invoke rfl]
  exact ⟨fun _ => hQ _, hE⟩

theorem paymentRequired_wpe {resourceUrl : PyStr} {error : Option PyStr}
    {Q : Phase → Outcome → Prop} (hQ : ∀ out, Q φ out) (hE : ∀ e, E φ e) :
    wpe (protocol fps Tid) (paymentRequired resourceUrl error) Q E φ := by
  rw [paymentRequired, wpe_bind, wpe_invoke rfl]
  exact ⟨fun _ => hQ _, hE⟩

/-- The owner of a payment keeps to the protocol, also when an exception is
raised anywhere on the way. -/
theorem executeClaimed_wpe {req : Request} {fp : PyStr} {parsed accept : Json}
    {paidDeadline : ℚ} {h : Bytes} (hfp : durableHash fp = .ok h)
    (hpay : paymentHash fps parsed accept = some h) :
    wpe (protocol fps Tid) (executeClaimed oc req fp parsed accept paidDeadline)
      (fun _ _ => True) (fun _ _ => True) ⟨false, .owns h⟩ := by
  have hrecover : ∀ c : Claim, c.Settled → wpe (protocol fps Tid)
      (do
        let out ← unknownFor accept
        finish oc fp out true
        return out) (fun _ _ => True) (fun _ _ => True) ⟨false, c⟩ := by
    intro c hc
    rw [wpe_bind]
    refine unknownFor_wpe (fun out => ?_) (fun _ => trivial)
    rw [wpe_bind]
    exact finish_wpe hc (fun hcache => by cases hcache) (fun _ => trivial) (fun _ => trivial)
  rw [executeClaimed, wpe_tryCatch, wpe_bind]
  refine paidExecute_wpe hpay (fun out => ?_) (fun out hout => ?_)
    (fun e => hrecover _ trivial) (fun e => hrecover _ trivial)
  · rw [wpe_bind]
    refine finish_wpe trivial (fun _ h' hh' => ?_) (fun _ => trivial)
      (fun e => hrecover _ trivial)
    rw [hfp] at hh'
    cases hh'
    rfl
  · rw [wpe_bind]
    refine finish_wpe trivial (fun hcache => ?_) (fun _ => trivial)
      (fun e => hrecover _ trivial)
    rw [bne_eq_false_iff_eq] at hcache
    exact absurd hcache hout

/-- **`handle_route` keeps to the protocol.** -/
theorem handleRoute_wpe (req : Request) :
    wpe (protocol fps Tid) (handleRoute oc fps req) (fun _ _ => True)
      (fun _ _ => True) ⟨false, .free⟩ := by
  have hrequired : ∀ error, wpe (protocol fps Tid)
      (paymentRequired req.resourceUrl error) (fun _ _ => True) (fun _ _ => True)
      ⟨false, .free⟩ := fun _ => paymentRequired_wpe (fun _ => trivial) (fun _ => trivial)
  rw [handleRoute, wpe_bind, wpe_invoke rfl]
  refine ⟨fun parsed => ?_, fun _ => trivial⟩
  rw [wpe_bind, wpe_invoke rfl]
  refine ⟨fun _ => ?_, fun _ => trivial⟩
  split
  · exact hrequired _
  next parsed =>
  rw [wpe_bind, wpe_invoke rfl]
  refine ⟨?_, fun _ => trivial⟩
  rintro (_ | accept)
  · dsimp only
    rw [wpe_bind, wpe_invoke rfl]
    exact ⟨fun _ => hrequired _, fun _ => trivial⟩
  dsimp only
  rw [wpe_bind, wpe_invoke rfl]
  refine ⟨fun paidDeadline => ?_, fun _ => trivial⟩
  cases hcanon : fps.canonical parsed accept with
  | error e =>
      dsimp only [bind, Except.bind]
      split
      · exact hrequired _
      · trivial
  | ok fp =>
      cases hlegacy : fps.legacy parsed accept with
      | error e =>
          dsimp only [bind, Except.bind]
          split
          · exact hrequired _
          · trivial
      | ok legacyFp =>
          dsimp only [bind, Except.bind, pure, Except.pure]
          rw [handleClaim, wpe_bind]
          refine begin_wpe (fun h hh => ?_) ?_ (fun _ => trivial)
          · refine executeClaimed_wpe hh ?_
            rw [paymentHash, hcanon]
            dsimp only
            rw [hh]
            rfl
          · rintro (_ | result | entry | _) hr
            · exact absurd rfl hr
            · trivial
            · dsimp only
              rw [wpe_bind, wpe_step]
              refine ⟨trivial, ?_⟩
              rintro (_ | result)
              · exact unknownFor_wpe (fun _ => trivial) (fun _ => trivial)
              · trivial
            · exact unknownFor_wpe (fun _ => trivial) (fun _ => trivial)

end Programs

/-! ## The ledger -/

theorem insertPending_has {fpHash h : Bytes} {scopeHash : Option Bytes} {d d' : Ledger}
    (hd : d.Has h) (hi : insertPending fpHash scopeHash d = some d') : d'.Has h := by
  rw [insertPending] at hi
  split at hi
  · cases hi
  · cases hi
    obtain ⟨row, hrow, hh⟩ := hd
    exact ⟨row, List.mem_append_left _ hrow, hh⟩

theorem insertPending_self {fpHash : Bytes} {scopeHash : Option Bytes} {d d' : Ledger}
    (hi : insertPending fpHash scopeHash d = some d') : ¬ d.Has fpHash ∧ d'.Has fpHash := by
  rw [insertPending] at hi
  split at hi
  · cases hi
  next hnot =>
    cases hi
    exact ⟨hnot, _, List.mem_append_right _ (List.mem_singleton.mpr rfl), rfl⟩

theorem updateOutcome_has {fpHash h : Bytes} {state : LedgerState} {json : PyStr}
    {d d' : Ledger} (hd : d.Has h) (hu : updateOutcome fpHash state json d = some d') :
    d'.Has h := by
  cases hu
  obtain ⟨row, hrow, hh⟩ := hd
  refine ⟨_, List.mem_map_of_mem hrow, ?_⟩
  split <;> exact hh

theorem deleteRow_has {fpHash h : Bytes} {d d' : Ledger} (hne : h ≠ fpHash) (hd : d.Has h)
    (hx : deleteRow fpHash d = some d') : d'.Has h := by
  cases hx
  obtain ⟨row, hrow, hh⟩ := hd
  exact ⟨row, List.mem_filter.mpr ⟨hrow, by simp [hh, hne]⟩, hh⟩

/-! ## The invariant -/

section Invariant

variable {Pid : Type} (pid : Tid → Pid)

/-- An event that calls for the settlement of a payment named `h`. -/
def settles (h : Bytes) : Event Tid → Bool
  | .settle _ parsed accept => paymentHash fps parsed accept == some h
  | .deleted .. => false

/-- How often `settle` was called for payments named `h`. -/
def settleCount (h : Bytes) (events : List (Event Tid)) : ℕ := events.countP (settles fps h)

/-- A living thread has the claim `c`. -/
def Claims (ph : Tid → Life Phase) (t : Tid) (c : Claim) : Prop :=
  ∃ φ, ph t = .alive φ ∧ φ.claim = c

/-- A thread has, or died with, the claim `c`. -/
def Ended (ph : Tid → Life Phase) (t : Tid) (c : Claim) : Prop :=
  ∃ φ, (ph t = .alive φ ∨ ph t = .dead φ) ∧ φ.claim = c

/-- The ledger protects every payment that is owned or settled for. -/
structure Ledgered (w : World Tid Pid) (ph : Tid → Life Phase) : Prop where
  oneWriter : OneWriter w.db
  locked : ∀ t φ, ph t = .alive φ → φ.locked = true → (w.memory (pid t)).lock = some t
  /-- Between the insertion of a row and its commit. -/
  inserted : ∀ t φ h, ph t = .alive φ → φ.claim = .inserted h →
    φ.locked = true ∧ settleCount fps h w.events = 0 ∧ (∀ t', ¬ Claims ph t' (.owns h)) ∧
      ∃ p, w.db.conn (pid t) = .writing p ∧ p.Has h
  owned : ∀ t h, Claims ph t (.owns h) →
    settleCount fps h w.events = 0 ∧ Everywhere (Ledger.Has h) w.db ∧
      ∀ t', Claims ph t' (.owns h) → t' = t
  settled : ∀ h, 0 < settleCount fps h w.events →
    settleCount fps h w.events = 1 ∧ Everywhere (Ledger.Has h) w.db ∧
      ∀ t, ¬ Claims ph t (.owns h)
  settler : ∀ t parsed accept, .settle t parsed accept ∈ w.events →
    ∃ h, paymentHash fps parsed accept = some h ∧ Ended ph t (.spent h)
  deleter : ∀ t h, .deleted t h ∈ w.events → Ended ph t .released
  /-- Nothing was settled for a row whose deletion was asked for. -/
  order : ∀ pre t h post, w.events = pre ++ .deleted t h :: post → settleCount fps h post = 0

variable {fps pid} {w w' : World Tid Pid} {ph : Tid → Life Phase} {t : Tid} {φ : Phase}

theorem Claims.unique {c c' : Claim} (h : Claims ph t c) (h' : Claims ph t c') : c = c' := by
  obtain ⟨φ, hφ, rfl⟩ := h
  obtain ⟨φ', hφ', rfl⟩ := h'
  rw [hφ] at hφ'
  cases hφ'
  rfl

/-- A step that touches neither the file, nor the locks, nor the events. -/
theorem Ledgered.congr (h : Ledgered fps pid w ph) (hdb : w'.db = w.db)
    (hlock : ∀ q, (w'.memory q).lock = (w.memory q).lock) (hevents : w'.events = w.events) :
    Ledgered fps pid w' ph where
  oneWriter := by rw [hdb]; exact h.oneWriter
  locked t φ hφ hl := by rw [hlock]; exact h.locked t φ hφ hl
  inserted := by rw [hdb, hevents]; exact h.inserted
  owned := by rw [hdb, hevents]; exact h.owned
  settled := by rw [hdb, hevents]; exact h.settled
  settler := by rw [hevents]; exact h.settler
  deleter := by rw [hevents]; exact h.deleter
  order := by rw [hevents]; exact h.order

/-- Threads of one process that both hold the lock are one thread. -/
theorem Ledgered.lock_unique (h : Ledgered fps pid w ph) {t' : Tid} {φ' : Phase}
    (ht : ph t = .alive φ) (hφ : φ.locked = true) (ht' : ph t' = .alive φ')
    (hφ' : φ'.locked = true) (hpid : pid t' = pid t) : t' = t := by
  have h₁ := h.locked t φ ht hφ
  have h₂ := h.locked t' φ' ht' hφ'
  rw [hpid, h₁] at h₂
  exact (Option.some_inj.mp h₂).symm

/-- A settled claim is not that of a thread between insertion and commit. -/
theorem Claim.Settled.ne_inserted {c : Claim} (h : c.Settled) {fpHash : Bytes} :
    c ≠ .inserted fpHash := by
  rintro rfl
  exact h

/-- A step of the file that keeps every row that is everywhere, and what the
inserting threads have pending. -/
theorem Ledgered.reconnect (h : Ledgered fps pid w ph) {db : Db Ledger Pid}
    (hone : OneWriter db)
    (heverywhere : ∀ fpHash, Everywhere (Ledger.Has fpHash) w.db →
      Everywhere (Ledger.Has fpHash) db)
    (hpending : ∀ t φ fpHash p, ph t = .alive φ → φ.claim = .inserted fpHash →
      w.db.conn (pid t) = .writing p → db.conn (pid t) = .writing p) :
    Ledgered fps pid { w with db := db } ph where
  oneWriter := hone
  locked := h.locked
  inserted t φ fpHash hφ hc := by
    obtain ⟨hl, hcount, hnot, p, hp, hhas⟩ := h.inserted t φ fpHash hφ hc
    exact ⟨hl, hcount, hnot, p, hpending t φ fpHash p hφ hc hp, hhas⟩
  owned t fpHash hc := by
    obtain ⟨hcount, hall, huniq⟩ := h.owned t fpHash hc
    exact ⟨hcount, heverywhere _ hall, huniq⟩
  settled fpHash hpos := by
    obtain ⟨hcount, hall, hnot⟩ := h.settled fpHash hpos
    exact ⟨hcount, heverywhere _ hall, hnot⟩
  settler := h.settler
  deleter := h.deleter
  order := h.order

/-- What inserting threads have pending survives a step on the connection of a
thread that holds the lock and is not inserting. -/
theorem Ledgered.pending_of_locked (h : Ledgered fps pid w ph) (ht : ph t = .alive φ)
    (hlock : φ.locked = true) (hsettled : φ.claim.Settled) {db : Db Ledger Pid}
    (hconn : ∀ q, q ≠ pid t → db.conn q = w.db.conn q) {t' : Tid} {φ' : Phase}
    {fpHash : Bytes} {p : Ledger} (ht' : ph t' = .alive φ')
    (hc : φ'.claim = .inserted fpHash) (hp : w.db.conn (pid t') = .writing p) :
    db.conn (pid t') = .writing p := by
  have hne : pid t' ≠ pid t := by
    intro hpid
    have hl' := (h.inserted t' φ' fpHash ht' hc).1
    have htt := h.lock_unique ht hlock ht' hl' hpid
    subst htt
    rw [ht] at ht'
    cases ht'
    exact hsettled.ne_inserted hc
  rw [hconn _ hne, hp]

variable [DecidableEq Tid]

theorem claims_update {φ' : Phase} {t' : Tid} {c : Claim} :
    Claims (Function.update ph t (.alive φ')) t' c ↔
      if t' = t then φ'.claim = c else Claims ph t' c := by
  unfold Claims
  by_cases ht : t' = t
  · subst ht
    rw [if_pos rfl, Function.update_self]
    constructor
    · rintro ⟨φ, hφ, hc⟩
      cases hφ
      exact hc
    · exact fun hc => ⟨φ', rfl, hc⟩
  · rw [if_neg ht, Function.update_of_ne ht]

theorem Ended.update {φ' : Phase} {t' : Tid} {c : Claim} (h : Ended ph t' c)
    (hself : t' = t → φ'.claim = c) :
    Ended (Function.update ph t (.alive φ')) t' c := by
  by_cases ht : t' = t
  · subst ht
    exact ⟨φ', Or.inl (Function.update_self ..), hself rfl⟩
  · obtain ⟨φ, hφ, hc⟩ := h
    exact ⟨φ, by rwa [Function.update_of_ne ht], hc⟩

/-- A thread that neither had nor gets the claim `c` changes nobody's `c`. -/
theorem claims_update_of_ne {φ' : Phase} {t' : Tid} {c : Claim} (ht : ph t = .alive φ)
    (hφ : φ.claim ≠ c) (hφ' : φ'.claim ≠ c) :
    Claims (Function.update ph t (.alive φ')) t' c ↔ Claims ph t' c := by
  rw [claims_update]
  split
  next htt =>
    subst htt
    refine iff_of_false hφ' ?_
    rintro ⟨φ'', hφ'', hc⟩
    rw [ht] at hφ''
    cases hφ''
    exact hφ hc
  next => rfl

theorem claims_update_same {φ' : Phase} {t' : Tid} {c : Claim} (ht : ph t = .alive φ)
    (hφ : φ'.claim = φ.claim) :
    Claims (Function.update ph t (.alive φ')) t' c ↔ Claims ph t' c := by
  rw [claims_update]
  split
  next htt =>
    subst htt
    rw [hφ]
    refine ⟨fun hc => ⟨φ, ht, hc⟩, ?_⟩
    rintro ⟨φ'', hφ'', hc⟩
    rw [ht] at hφ''
    cases hφ''
    exact hc
  next => rfl

/-- A claim that the stepping thread keeps, or did not have, stays with its thread. -/
theorem Ended.step {φ' : Phase} {t' : Tid} {c : Claim} (h : Ended ph t' c)
    (ht : ph t = .alive φ) (hkeep : φ.claim = c → φ'.claim = c) :
    Ended (Function.update ph t (.alive φ')) t' c := by
  refine h.update ?_
  rintro rfl
  obtain ⟨φ'', hφ'', hc⟩ := h
  rw [ht] at hφ''
  rcases hφ'' with hφ'' | hφ'' <;> cases hφ''
  exact hkeep hc

/-- A thread takes or returns the lock. -/
theorem Ledgered.relock (h : Ledgered fps pid w ph) (ht : ph t = .alive φ) {φ' : Phase}
    (hclaim : φ'.claim = φ.claim) (hnot : ∀ fpHash, φ.claim ≠ .inserted fpHash)
    (hdb : w'.db = w.db) (hevents : w'.events = w.events)
    (hlock : ∀ t' φ'', Function.update ph t (.alive φ') t' = .alive φ'' → φ''.locked = true →
      (w'.memory (pid t')).lock = some t') :
    Ledgered fps pid w' (Function.update ph t (.alive φ')) where
  oneWriter := by rw [hdb]; exact h.oneWriter
  locked := hlock
  inserted t' φ'' fpHash hφ'' hc := by
    simp only [claims_update_same ht hclaim, hdb, hevents]
    rcases Life.update_eq_alive.mp hφ'' with ⟨rfl, rfl⟩ | ⟨-, hφ''⟩
    · exact absurd (hclaim ▸ hc) (hnot fpHash)
    · exact h.inserted t' φ'' fpHash hφ'' hc
  owned t' fpHash hc := by
    simp only [claims_update_same ht hclaim, hdb, hevents] at hc ⊢
    exact h.owned t' fpHash hc
  settled fpHash hpos := by
    simp only [claims_update_same ht hclaim, hdb, hevents] at hpos ⊢
    exact h.settled fpHash hpos
  settler t' parsed accept hmem := by
    obtain ⟨fpHash, hpay, hended⟩ := h.settler t' parsed accept (hevents ▸ hmem)
    exact ⟨fpHash, hpay, hended.step ht fun hc => hclaim ▸ hc⟩
  deleter t' fpHash hmem :=
    (h.deleter t' fpHash (hevents ▸ hmem)).step ht fun hc => hclaim ▸ hc
  order := by rw [hevents]; exact h.order

variable [DecidableEq Pid]

theorem Ledgered.acquire (h : Ledgered fps pid w ph) (ht : ph t = .alive φ)
    (hunlocked : φ.locked = false) (hfree : (w.memory (pid t)).lock = none) :
    Ledgered fps pid (w.setMemory (pid t) { w.memory (pid t) with lock := some t })
      (Function.update ph t (.alive { φ with locked := true })) := by
  refine h.relock ht rfl (fun fpHash hc => ?_) rfl rfl fun t' φ'' hφ'' hl => ?_
  · have hl := (h.inserted t φ fpHash ht hc).1
    rw [hunlocked] at hl
    cases hl
  · rcases Life.update_eq_alive.mp hφ'' with ⟨rfl, rfl⟩ | ⟨-, hφ''⟩
    · rw [World.setMemory_self]
    · have hlock := h.locked t' φ'' hφ'' hl
      have hne : pid t' ≠ pid t := by
        intro hpid
        rw [hpid, hfree] at hlock
        cases hlock
      rw [World.setMemory_ne _ hne]
      exact hlock

theorem Ledgered.release (h : Ledgered fps pid w ph) (ht : ph t = .alive φ)
    (hlocked : φ.locked = true) (hsettled : φ.claim.Settled) :
    Ledgered fps pid (w.setMemory (pid t) { w.memory (pid t) with lock := none })
      (Function.update ph t (.alive { φ with locked := false })) := by
  refine h.relock ht rfl (fun fpHash => hsettled.ne_inserted) rfl rfl fun t' φ'' hφ'' hl => ?_
  rcases Life.update_eq_alive.mp hφ'' with ⟨rfl, rfl⟩ | ⟨htt, hφ''⟩
  · cases hl
  · have hne : pid t' ≠ pid t := fun hpid => htt (h.lock_unique ht hlocked hφ'' hl hpid)
    rw [World.setMemory_ne _ hne]
    exact h.locked t' φ'' hφ'' hl

/-- A row is inserted where nothing was owned or settled under its hash. -/
theorem Ledgered.insert (h : Ledgered fps pid w ph) (ht : ph t = .alive ⟨true, .free⟩)
    {fpHash : Bytes} {scopeHash : Option Bytes} {base d : Ledger}
    (hbase : w.db.Writable (pid t) base)
    (hstmt : insertPending fpHash scopeHash base = some d) :
    Ledgered fps pid { w with db := w.db.setConn (pid t) (.writing d) }
      (Function.update ph t (.alive ⟨true, .inserted fpHash⟩)) := by
  obtain ⟨habsent, hpresent⟩ := insertPending_self hstmt
  have howner : ∀ t' fpHash', Claims (Function.update ph t (.alive ⟨true, .inserted fpHash⟩)) t'
      (.owns fpHash') ↔ Claims ph t' (.owns fpHash') := fun t' fpHash' =>
    claims_update_of_ne ht (by simp) (by simp)
  have heverywhere : ∀ fpHash', Everywhere (Ledger.Has fpHash') w.db →
      Everywhere (Ledger.Has fpHash') (w.db.setConn (pid t) (.writing d)) := by
    intro fpHash' hall
    refine hall.setConn fun p hp => ?_
    cases hp
    exact insertPending_has (hall.writable hbase) hstmt
  refine ⟨h.oneWriter.setConn fun _ _ c' p' hne => hbase.alone c' p' hne, ?_, ?_, ?_, ?_, ?_,
    ?_, h.order⟩
  · intro t' φ'' hφ'' hl
    rcases Life.update_eq_alive.mp hφ'' with ⟨rfl, rfl⟩ | ⟨-, hφ''⟩
    · exact h.locked t' _ ht rfl
    · exact h.locked t' φ'' hφ'' hl
  · intro t' φ'' fpHash' hφ'' hc
    simp only [howner]
    rcases Life.update_eq_alive.mp hφ'' with ⟨rfl, rfl⟩ | ⟨htt, hφ''⟩
    · cases hc
      refine ⟨rfl, ?_, fun t'' hc => ?_, d, w.db.setConn_conn_self _ _, hpresent⟩
      · by_contra hcount
        exact habsent ((h.settled fpHash (Nat.pos_of_ne_zero hcount)).2.1.writable hbase)
      · exact habsent ((h.owned t'' fpHash hc).2.1.writable hbase)
    · obtain ⟨hl, hcount, hnot, p, hp, hhas⟩ := h.inserted t' φ'' fpHash' hφ'' hc
      have hne : pid t' ≠ pid t := fun hpid => htt (h.lock_unique ht rfl hφ'' hl hpid)
      exact ⟨hl, hcount, hnot, p, (w.db.setConn_conn_ne hne _).trans hp, hhas⟩
  · intro t' fpHash' hc
    simp only [howner] at hc ⊢
    obtain ⟨hcount, hall, huniq⟩ := h.owned t' fpHash' hc
    exact ⟨hcount, heverywhere _ hall, huniq⟩
  · intro fpHash' hpos
    simp only [howner]
    obtain ⟨hcount, hall, hnot⟩ := h.settled fpHash' hpos
    exact ⟨hcount, heverywhere _ hall, hnot⟩
  · intro t' parsed accept hmem
    obtain ⟨fpHash', hpay, hended⟩ := h.settler t' parsed accept hmem
    exact ⟨fpHash', hpay, hended.step ht (by simp)⟩
  · intro t' fpHash' hmem
    exact (h.deleter t' fpHash' hmem).step ht (by simp)

/-- The commit of an inserted row: reported, it makes the thread the owner. -/
theorem Ledgered.commitInserted (h : Ledgered fps pid w ph) {fpHash : Bytes}
    (ht : ph t = .alive φ) (hclaim : φ.claim = .inserted fpHash) {reported : Bool}
    {db : Db Ledger Pid} (hcommit : Commit (pid t) w.db reported db) :
    Ledgered fps pid { w with db := db }
      (Function.update ph t (.alive { φ with claim := φ.claim.commit reported })) := by
  obtain ⟨hlocked, hcount, hnot, p, hp, hhas⟩ := h.inserted t φ fpHash ht hclaim
  have hafter : ∀ c, φ.claim.commit reported = c → c = .free ∨
      c = .owns fpHash ∧ Everywhere (Ledger.Has fpHash) db := by
    rintro _ rfl
    rw [hclaim]
    cases reported with
    | false => exact Or.inl rfl
    | true => exact Or.inr ⟨rfl, hcommit.done_everywhere h.oneWriter hp hhas⟩
  have howner : ∀ {t' fpHash'}, Claims (Function.update ph t
      (.alive { φ with claim := φ.claim.commit reported })) t' (.owns fpHash') →
      Claims ph t' (.owns fpHash') ∨
        t' = t ∧ fpHash' = fpHash ∧ Everywhere (Ledger.Has fpHash) db := by
    intro t' fpHash' hc
    rw [claims_update] at hc
    split at hc
    next htt =>
      rcases hafter _ hc with hfree | ⟨howns, hall⟩
      · cases hfree
      · cases howns
        exact Or.inr ⟨htt, rfl, hall⟩
    next => exact Or.inl hc
  have hinserted : ∀ c fpHash', φ.claim = c → φ.claim.commit reported ≠ .inserted fpHash' := by
    rintro _ fpHash' rfl hc
    rcases hafter _ hc with hfree | ⟨howns, -⟩
    · cases hfree
    · cases howns
  refine ⟨hcommit.oneWriter h.oneWriter, ?_, ?_, ?_, ?_, ?_, ?_, h.order⟩
  · intro t' φ'' hφ'' hl
    rcases Life.update_eq_alive.mp hφ'' with ⟨rfl, rfl⟩ | ⟨-, hφ''⟩
    · exact h.locked t' φ ht hl
    · exact h.locked t' φ'' hφ'' hl
  · intro t' φ'' fpHash' hφ'' hc
    rcases Life.update_eq_alive.mp hφ'' with ⟨rfl, rfl⟩ | ⟨htt, hφ''⟩
    · exact absurd hc (hinserted _ _ rfl)
    · obtain ⟨hl, hcount', hnot', p', hp', hhas'⟩ := h.inserted t' φ'' fpHash' hφ'' hc
      have hne : pid t' ≠ pid t := fun hpid => htt (h.lock_unique ht hlocked hφ'' hl hpid)
      -- two writers at a time there are not
      exact absurd (h.oneWriter _ _ _ _ hp' hp) hne
  · intro t' fpHash' hc
    rcases howner hc with hold | ⟨rfl, rfl, hall⟩
    · obtain ⟨hcount', hall, huniq⟩ := h.owned t' fpHash' hold
      refine ⟨hcount', hcommit.everywhere hall, fun t'' hc'' => ?_⟩
      rcases howner hc'' with hold' | ⟨-, rfl, -⟩
      · exact huniq t'' hold'
      · exact absurd hold (hnot t')
    · refine ⟨hcount, hall, fun t'' hc'' => ?_⟩
      rcases howner hc'' with hold' | ⟨rfl, -, -⟩
      · exact absurd hold' (hnot t'')
      · rfl
  · intro fpHash' hpos
    obtain ⟨hcount', hall, hnone⟩ := h.settled fpHash' hpos
    refine ⟨hcount', hcommit.everywhere hall, fun t' hc => ?_⟩
    rcases howner hc with hold | ⟨-, rfl, -⟩
    · exact hnone t' hold
    · exact absurd hcount (Nat.ne_of_gt hpos)
  · intro t' parsed accept hmem
    obtain ⟨fpHash', hpay, hended⟩ := h.settler t' parsed accept hmem
    exact ⟨fpHash', hpay, hended.step ht fun hc => by rw [hclaim] at hc; cases hc⟩
  · intro t' fpHash' hmem
    exact (h.deleter t' fpHash' hmem).step ht fun hc => by rw [hclaim] at hc; cases hc

/-- The owner gives its claim up: what others own is untouched. -/
theorem Claims.of_resign {φ' : Phase} {t' : Tid} {fpHash : Bytes}
    (hφ' : ∀ fpHash, φ'.claim ≠ .owns fpHash)
    (hc : Claims (Function.update ph t (.alive φ')) t' (.owns fpHash)) :
    t' ≠ t ∧ Claims ph t' (.owns fpHash) := by
  rw [claims_update] at hc
  split at hc
  next => exact absurd hc (hφ' fpHash)
  next htt => exact ⟨htt, hc⟩

/-- The owner asks for the deletion of its row. -/
theorem Ledgered.delete (h : Ledgered fps pid w ph) {fpHash : Bytes}
    (ht : ph t = .alive ⟨true, .owns fpHash⟩) {r : Written} {db : Db Ledger Pid}
    (hwrite : Write (deleteRow fpHash) (pid t) w.db r db) :
    Ledgered fps pid { w with db := db, events := .deleted t fpHash :: w.events }
      (Function.update ph t (.alive ⟨true, .released⟩)) := by
  obtain ⟨hzero, -, hunique⟩ := h.owned t fpHash ⟨_, ht, rfl⟩
  have heverywhere : ∀ fpHash', fpHash' ≠ fpHash → Everywhere (Ledger.Has fpHash') w.db →
      Everywhere (Ledger.Has fpHash') db := fun fpHash' hne hall =>
    hwrite.everywhere hall fun _ _ => deleteRow_has hne
  refine ⟨hwrite.oneWriter h.oneWriter, ?_, ?_, ?_, ?_, ?_, ?_, ?_⟩
  · intro t' φ'' hφ'' hl
    rcases Life.update_eq_alive.mp hφ'' with ⟨rfl, rfl⟩ | ⟨-, hφ''⟩
    · exact h.locked t' _ ht rfl
    · exact h.locked t' φ'' hφ'' hl
  · intro t' φ'' fpHash' hφ'' hc
    rcases Life.update_eq_alive.mp hφ'' with ⟨rfl, rfl⟩ | ⟨-, hφ''⟩
    · cases hc
    · obtain ⟨hl, hcount, hnot, p, hp, hhas⟩ := h.inserted t' φ'' fpHash' hφ'' hc
      exact ⟨hl, hcount, fun t'' hc'' => hnot t'' (hc''.of_resign (by simp)).2, p,
        h.pending_of_locked ht rfl trivial (fun q => hwrite.conn_ne) hφ'' hc hp, hhas⟩
  · intro t' fpHash' hc
    obtain ⟨htt, hold⟩ := hc.of_resign (by simp)
    obtain ⟨hcount, hall, huniq⟩ := h.owned t' fpHash' hold
    have hne : fpHash' ≠ fpHash := by
      rintro rfl
      exact htt (hunique t' hold)
    exact ⟨hcount, heverywhere _ hne hall, fun t'' hc'' =>
      huniq t'' (hc''.of_resign (by simp)).2⟩
  · intro fpHash' hpos
    obtain ⟨hcount, hall, hnone⟩ := h.settled fpHash' hpos
    have hne : fpHash' ≠ fpHash := by
      rintro rfl
      exact Nat.ne_of_gt hpos hzero
    exact ⟨hcount, heverywhere _ hne hall, fun t' hc => hnone t' (hc.of_resign (by simp)).2⟩
  · intro t' parsed accept hmem
    obtain ⟨fpHash', hpay, hended⟩ := h.settler t' parsed accept (by simpa using hmem)
    exact ⟨fpHash', hpay, hended.step ht (by simp)⟩
  · intro t' fpHash' hmem
    rcases List.mem_cons.mp hmem with heq | hmem
    · cases heq
      exact ⟨_, Or.inl (Function.update_self ..), rfl⟩
    · exact (h.deleter t' fpHash' hmem).step ht (by simp)
  · intro pre t' fpHash' post heq
    cases pre with
    | nil =>
        cases heq
        exact hzero
    | cons e pre =>
        obtain ⟨-, heq⟩ := List.cons.inj heq
        exact h.order pre t' fpHash' post heq

omit [DecidableEq Tid] [DecidableEq Pid] in
theorem settleCount_settle {parsed accept : Json} {fpHash : Bytes} {events : List (Event Tid)}
    (hpay : paymentHash fps parsed accept = some fpHash) (fpHash' : Bytes) :
    settleCount fps fpHash' (.settle t parsed accept :: events) =
      settleCount fps fpHash' events + if fpHash' = fpHash then 1 else 0 := by
  rw [settleCount, settleCount, List.countP_cons, settles, hpay]
  by_cases heq : fpHash' = fpHash
  · simp [heq]
  · simp [heq, Ne.symm heq]

omit [DecidableEq Pid] in
/-- The owner calls `settle`. -/
theorem Ledgered.settle (h : Ledgered fps pid w ph) (ht : ph t = .alive φ) {fpHash : Bytes}
    (hclaim : φ.claim = .owns fpHash) {parsed accept : Json}
    (hpay : paymentHash fps parsed accept = some fpHash) :
    Ledgered fps pid { w with events := .settle t parsed accept :: w.events }
      (Function.update ph t (.alive { φ with claim := .spent fpHash })) := by
  obtain ⟨hzero, hhas, hunique⟩ := h.owned t fpHash ⟨_, ht, hclaim⟩
  have hother : ∀ {fpHash'}, fpHash' ≠ fpHash →
      settleCount fps fpHash' (.settle t parsed accept :: w.events) =
        settleCount fps fpHash' w.events := by
    intro fpHash' hne
    rw [settleCount_settle hpay, if_neg hne, Nat.add_zero]
  refine ⟨h.oneWriter, ?_, ?_, ?_, ?_, ?_, ?_, ?_⟩
  · intro t' φ'' hφ'' hl
    rcases Life.update_eq_alive.mp hφ'' with ⟨rfl, rfl⟩ | ⟨-, hφ''⟩
    · exact h.locked t' φ ht hl
    · exact h.locked t' φ'' hφ'' hl
  · intro t' φ'' fpHash' hφ'' hc
    rcases Life.update_eq_alive.mp hφ'' with ⟨rfl, rfl⟩ | ⟨-, hφ''⟩
    · cases hc
    · obtain ⟨hl, hcount, hnot, hpending⟩ := h.inserted t' φ'' fpHash' hφ'' hc
      have hne : fpHash' ≠ fpHash := by
        rintro rfl
        exact hnot t ⟨_, ht, hclaim⟩
      exact ⟨hl, (hother hne).trans hcount,
        fun t'' hc'' => hnot t'' (hc''.of_resign (by simp)).2, hpending⟩
  · intro t' fpHash' hc
    obtain ⟨htt, hold⟩ := hc.of_resign (by simp)
    obtain ⟨hcount, hall, huniq⟩ := h.owned t' fpHash' hold
    have hne : fpHash' ≠ fpHash := by
      rintro rfl
      exact htt (hunique t' hold)
    exact ⟨(hother hne).trans hcount, hall, fun t'' hc'' =>
      huniq t'' (hc''.of_resign (by simp)).2⟩
  · intro fpHash' hpos
    by_cases hne : fpHash' = fpHash
    · subst hne
      refine ⟨?_, hhas, fun t' hc => ?_⟩
      · rw [settleCount_settle hpay, if_pos rfl, hzero]
      · obtain ⟨htt, hold⟩ := hc.of_resign (by simp)
        exact htt (hunique t' hold)
    · dsimp only at hpos ⊢
      rw [hother hne] at hpos ⊢
      obtain ⟨hcount, hall, hnone⟩ := h.settled fpHash' hpos
      exact ⟨hcount, hall, fun t' hc => hnone t' (hc.of_resign (by simp)).2⟩
  · intro t' parsed' accept' hmem
    rcases List.mem_cons.mp hmem with heq | hmem
    · cases heq
      exact ⟨fpHash, hpay, _, Or.inl (Function.update_self ..), rfl⟩
    · obtain ⟨fpHash', hpay', hended⟩ := h.settler t' parsed' accept' hmem
      exact ⟨fpHash', hpay', hended.step ht fun hc => by rw [hclaim] at hc; cases hc⟩
  · intro t' fpHash' hmem
    exact (h.deleter t' fpHash' (by simpa using hmem)).step ht fun hc => by
      rw [hclaim] at hc; cases hc
  · intro pre t' fpHash' post heq
    cases pre with
    | nil => cases heq
    | cons e pre =>
        obtain ⟨-, heq⟩ := List.cons.inj heq
        exact h.order pre t' fpHash' post heq

omit [DecidableEq Pid] in
/-- A thread starts. -/
theorem Ledgered.spawn (h : Ledgered fps pid w ph) (ht : ph t = .unborn) :
    Ledgered fps pid w (Function.update ph t (.alive ⟨false, .free⟩)) := by
  have howner : ∀ {t' fpHash}, Claims (Function.update ph t (.alive ⟨false, .free⟩)) t'
      (.owns fpHash) → Claims ph t' (.owns fpHash) := fun hc => (hc.of_resign (by simp)).2
  have hended : ∀ {t' c}, Ended ph t' c →
      Ended (Function.update ph t (.alive ⟨false, .free⟩)) t' c := by
    intro t' c hc
    refine hc.update ?_
    rintro rfl
    obtain ⟨φ, hφ, -⟩ := hc
    rw [ht] at hφ
    rcases hφ with hφ | hφ <;> cases hφ
  refine ⟨h.oneWriter, ?_, ?_, ?_, ?_, ?_, ?_, h.order⟩
  · intro t' φ'' hφ'' hl
    rcases Life.update_eq_alive.mp hφ'' with ⟨rfl, rfl⟩ | ⟨-, hφ''⟩
    · cases hl
    · exact h.locked t' φ'' hφ'' hl
  · intro t' φ'' fpHash hφ'' hc
    rcases Life.update_eq_alive.mp hφ'' with ⟨rfl, rfl⟩ | ⟨-, hφ''⟩
    · cases hc
    · obtain ⟨hl, hcount, hnot, hpending⟩ := h.inserted t' φ'' fpHash hφ'' hc
      exact ⟨hl, hcount, fun t'' hc'' => hnot t'' (howner hc''), hpending⟩
  · intro t' fpHash hc
    obtain ⟨hcount, hall, huniq⟩ := h.owned t' fpHash (howner hc)
    exact ⟨hcount, hall, fun t'' hc'' => huniq t'' (howner hc'')⟩
  · intro fpHash hpos
    obtain ⟨hcount, hall, hnone⟩ := h.settled fpHash hpos
    exact ⟨hcount, hall, fun t' hc => hnone t' (howner hc)⟩
  · intro t' parsed accept hmem
    obtain ⟨fpHash, hpay, hc⟩ := h.settler t' parsed accept hmem
    exact ⟨fpHash, hpay, hended hc⟩
  · intro t' fpHash hmem
    exact hended (h.deleter t' fpHash hmem)

omit [DecidableEq Tid] in
/-- A process crashes. -/
theorem Ledgered.crash (h : Ledgered fps pid w ph) (q : Pid) :
    Ledgered fps pid { w.setMemory q {} with db := w.db.setConn q .idle }
      (fun t => if pid t = q then (ph t).kill else ph t) := by
  have halive : ∀ {t φ}, (if pid t = q then (ph t).kill else ph t) = .alive φ →
      pid t ≠ q ∧ ph t = .alive φ := by
    intro t φ hφ
    split at hφ
    · cases hph : ph t <;> rw [hph] at hφ <;> cases hφ
    next hne => exact ⟨hne, hφ⟩
  have howner : ∀ {t c}, Claims (fun t => if pid t = q then (ph t).kill else ph t) t c →
      Claims ph t c := by
    rintro t c ⟨φ, hφ, hc⟩
    exact ⟨φ, (halive hφ).2, hc⟩
  have hended : ∀ {t c}, Ended ph t c →
      Ended (fun t => if pid t = q then (ph t).kill else ph t) t c := by
    rintro t c ⟨φ, hφ, hc⟩
    refine ⟨φ, ?_, hc⟩
    dsimp only
    split
    · rcases hφ with hφ | hφ <;> rw [hφ] <;> exact Or.inr rfl
    · exact hφ
  refine ⟨h.oneWriter.setIdle q, ?_, ?_, ?_, ?_, ?_, ?_, h.order⟩
  · intro t φ hφ hl
    obtain ⟨hne, hφ⟩ := halive hφ
    change ((w.setMemory q {}).memory (pid t)).lock = some t
    rw [World.setMemory_ne _ hne]
    exact h.locked t φ hφ hl
  · intro t φ fpHash hφ hc
    obtain ⟨hne, hφ⟩ := halive hφ
    obtain ⟨hl, hcount, hnot, p, hp, hhas⟩ := h.inserted t φ fpHash hφ hc
    exact ⟨hl, hcount, fun t' hc' => hnot t' (howner hc'), p,
      (w.db.setConn_conn_ne hne _).trans hp, hhas⟩
  · intro t fpHash hc
    obtain ⟨hcount, hall, huniq⟩ := h.owned t fpHash (howner hc)
    exact ⟨hcount, hall.setIdle q, fun t' hc' => huniq t' (howner hc')⟩
  · intro fpHash hpos
    obtain ⟨hcount, hall, hnone⟩ := h.settled fpHash hpos
    exact ⟨hcount, hall.setIdle q, fun t hc => hnone t (howner hc)⟩
  · intro t parsed accept hmem
    obtain ⟨fpHash, hpay, hc⟩ := h.settler t parsed accept hmem
    exact ⟨fpHash, hpay, hended hc⟩
  · intro t fpHash hmem
    exact hended (h.deleter t fpHash hmem)

/-! ## Every run -/

omit [DecidableEq Tid] in
theorem Ledgered.read (h : Ledgered fps pid w ph) {A : Type} {f : Ledger → A}
    {r : Except PyError A} (hselect : select pid w t f r w') : Ledgered fps pid w' ph := by
  rcases hselect with ⟨a, db, hread, -, rfl⟩ | ⟨-, rfl⟩
  · exact h.reconnect (hread.oneWriter h.oneWriter) (fun _ => hread.everywhere)
      fun _ _ _ _ _ _ => hread.writing
  · exact h

omit [DecidableEq Pid] in
/-- A thread that holds the lock and is not inserting changes the file so that
every row stays. -/
theorem Ledgered.locked_db (h : Ledgered fps pid w ph) (ht : ph t = .alive φ)
    (hlocked : φ.locked = true) (hsettled : φ.claim.Settled) {db : Db Ledger Pid}
    (hone : OneWriter db)
    (heverywhere : ∀ fpHash, Everywhere (Ledger.Has fpHash) w.db →
      Everywhere (Ledger.Has fpHash) db)
    (hconn : ∀ q, q ≠ pid t → db.conn q = w.db.conn q) :
    Ledgered fps pid { w with db := db } (Function.update ph t (.alive φ)) := by
  rw [Life.update_same ht]
  exact h.reconnect hone heverywhere fun _ _ _ _ ht' hc hp =>
    h.pending_of_locked ht hlocked hsettled hconn ht' hc hp

/-- **Every allowed operation keeps the ledger's protection.** -/
theorem Ledgered.op {o : Op Tid} {r : o.Res} (h : Ledgered fps pid w ph)
    (ht : ph t = .alive φ) (hallowed : (protocol fps Tid).allowed φ o)
    (hexec : exec pid w t o r w') :
    Ledgered fps pid w' (Function.update ph t (.alive ((protocol fps Tid).next φ o r))) := by
  -- the operations after which the thread is where it was
  have stay : ∀ {w'}, Ledgered fps pid w' ph →
      Ledgered fps pid w' (Function.update ph t (.alive φ)) := by
    intro w' h'
    rwa [Life.update_same ht]
  cases o with
  | acquire =>
      obtain ⟨hfree, rfl⟩ := hexec
      exact h.acquire ht hallowed hfree
  | release =>
      subst hexec
      exact h.release ht hallowed.1 hallowed.2
  | completedGet fp =>
      obtain ⟨rfl, -⟩ := hexec
      exact stay h
  | completedPut fp scopeHash result =>
      subst hexec
      exact stay (h.congr rfl (w.setMemory_lock rfl) rfl)
  | inflightGet fp =>
      obtain ⟨rfl, -⟩ := hexec
      exact stay h
  | inflightPut fp scopeHash =>
      subst hexec
      exact stay (h.congr rfl (w.setMemory_lock rfl) rfl)
  | inflightPop fp result =>
      obtain ⟨-, rfl⟩ := hexec
      exact stay (h.congr rfl (w.setMemory_lock rfl) rfl)
  | wait entry =>
      obtain ⟨rfl, -⟩ := hexec
      exact stay h
  | selectRow fpHash => exact stay (h.read hexec)
  | selectLegacy => exact stay (h.read hexec)
  | selectCutoverAck => exact stay (h.read hexec)
  | insertPending fpHash scopeHash =>
      obtain ⟨locked, c⟩ := φ
      obtain ⟨db, hwrite, rfl⟩ := hexec
      obtain ⟨rfl, rfl⟩ : locked = true ∧ c = .free := hallowed
      cases r with
      | done =>
          obtain ⟨base, d, hbase, hstmt, rfl⟩ := hwrite.done_pending
          exact h.insert ht hbase hstmt
      | constraint =>
          exact h.locked_db ht rfl trivial (hwrite.oneWriter h.oneWriter)
            (fun _ hall => hwrite.everywhere hall fun _ _ => insertPending_has)
            fun _ => hwrite.conn_ne
      | failed =>
          exact h.locked_db ht rfl trivial (hwrite.oneWriter h.oneWriter)
            (fun _ hall => hwrite.everywhere hall fun _ _ => insertPending_has)
            fun _ => hwrite.conn_ne
  | updateOutcome fpHash state outcomeJson =>
      obtain ⟨db, hwrite, rfl⟩ := hexec
      exact h.locked_db ht hallowed.1 hallowed.2 (hwrite.oneWriter h.oneWriter)
        (fun _ hall => hwrite.everywhere hall fun _ _ => updateOutcome_has)
        fun _ => hwrite.conn_ne
  | deleteRow fpHash =>
      obtain ⟨locked, c⟩ := φ
      obtain ⟨db, hwrite, rfl⟩ := hexec
      obtain ⟨rfl, rfl⟩ : locked = true ∧ c = .owns fpHash := hallowed
      exact h.delete ht hwrite
  | commit =>
      obtain ⟨db, hcommit, rfl⟩ := hexec
      change Ledgered fps pid _
        (Function.update ph t (.alive { φ with claim := φ.claim.commit r }))
      by_cases hc : ∃ fpHash, φ.claim = .inserted fpHash
      · obtain ⟨fpHash, hc⟩ := hc
        exact h.commitInserted ht hc hcommit
      · have hsettled : φ.claim.Settled := by
          cases hφ : φ.claim with
          | inserted fpHash => exact absurd ⟨fpHash, hφ⟩ hc
          | _ => trivial
        have hsame : φ.claim.commit r = φ.claim := by
          cases hφ : φ.claim with
          | inserted fpHash => exact absurd ⟨fpHash, hφ⟩ hc
          | _ => rfl
        rw [hsame]
        exact h.locked_db ht hallowed hsettled (hcommit.oneWriter h.oneWriter)
          (fun _ => hcommit.everywhere) fun _ => hcommit.conn_ne
  | rollback =>
      obtain ⟨db, hrollback, rfl⟩ := hexec
      exact h.locked_db ht hallowed.1 hallowed.2 (hrollback.oneWriter h.oneWriter)
        (fun _ => hrollback.everywhere) fun _ => hrollback.conn_ne
  | call c =>
      cases c with
      | settle parsed accept =>
          subst hexec
          obtain ⟨fpHash, hclaim, hpay⟩ := hallowed
          change Ledgered fps pid _
            (Function.update ph t (.alive { φ with claim := φ.claim.spend }))
          rw [hclaim]
          exact h.settle ht hclaim hpay
      | _ =>
          subst hexec
          exact stay h

/-- The protection of the ledger is an invariant of the system. -/
theorem ledgered_invariant (ledger : Ledger) :
    (system pid ledger).Invariant (protocol fps Tid) ⟨false, .free⟩ (Ledgered fps pid) where
  init :=
    { oneWriter := fun _ _ _ _ h _ => by cases h
      locked := fun _ _ h _ => by cases h
      inserted := fun _ _ _ h _ => by cases h
      owned := by rintro t h ⟨φ, hφ, -⟩; cases hφ
      settled := fun h hpos => absurd hpos (Nat.lt_irrefl 0)
      settler := fun _ _ _ h => by cases h
      deleter := fun _ _ h => by cases h
      order := fun pre t h post heq => by cases pre <;> cases heq }
  op h ht hallowed hexec := h.op ht hallowed hexec
  spawn h ht := h.spawn ht
  crash := by
    rintro w ph q w' h rfl
    exact h.crash q
  env := by
    rintro w ph w' h ⟨q, fp, rfl⟩
    exact h.congr rfl (w.setMemory_lock rfl) rfl

/-- An event that calls for the settlement of a payment with fingerprint `fp`. -/
def settlesFor (fps : Fingerprints) (fp : PyStr) : Event Tid → Bool
  | .settle _ parsed accept =>
      match fps.canonical parsed accept with
      | .ok fp' => fp' == fp
      | .error _ => false
  | .deleted .. => false

/-- How often `settle` was called for a fingerprint. -/
def settlements (fps : Fingerprints) (fp : PyStr) (events : List (Event Tid)) : ℕ :=
  events.countP (settlesFor fps fp)

omit [DecidableEq Tid] [DecidableEq Pid] in
theorem Ledgered.settlements_le_one (h : Ledgered fps pid w ph) (fp : PyStr) :
    settlements fps fp w.events ≤ 1 := by
  cases hhash : durableHash fp with
  | error e =>
      have hnone : settlements fps fp w.events = 0 := by
        rw [settlements, List.countP_eq_zero]
        rintro (⟨t, parsed, accept⟩ | ⟨t, fpHash⟩) hmem hfor
        · obtain ⟨fpHash, hpay, -⟩ := h.settler t parsed accept hmem
          rw [settlesFor] at hfor
          rw [paymentHash] at hpay
          split at hfor
          next fp' hcanon =>
            rw [hcanon, eq_of_beq hfor] at hpay
            dsimp only at hpay
            rw [hhash] at hpay
            cases hpay
          next => cases hfor
        · cases hfor
      rw [hnone]
      exact Nat.zero_le 1
  | ok fpHash =>
      have hle : settlements fps fp w.events ≤ settleCount fps fpHash w.events := by
        refine List.countP_mono_left ?_
        rintro (⟨t, parsed, accept⟩ | ⟨t, fpHash⟩) - hfor
        · rw [settlesFor] at hfor
          rw [settles, paymentHash]
          split at hfor
          next fp' hcanon =>
            simp [eq_of_beq hfor, hhash, Except.toOption]
          next => cases hfor
        · cases hfor
      have hcount : settleCount fps fpHash w.events ≤ 1 := by
        by_cases hpos : 0 < settleCount fps fpHash w.events
        · exact (h.settled fpHash hpos).1.le
        · omega
      exact hle.trans hcount

omit [DecidableEq Tid] [DecidableEq Pid] in
/-- A thread that asked for a deletion did not settle. -/
theorem Ledgered.deleter_not_settler (h : Ledgered fps pid w ph) {fpHash : Bytes}
    (hdeleted : .deleted t fpHash ∈ w.events) (parsed accept : Json) :
    .settle t parsed accept ∉ w.events := by
  intro hsettle
  obtain ⟨φ, hφ, hc⟩ := h.deleter t fpHash hdeleted
  obtain ⟨fpHash', -, φ', hφ', hc'⟩ := h.settler t parsed accept hsettle
  have hsame : φ = φ' := by
    rcases hφ with hφ | hφ <;> rcases hφ' with hφ' | hφ' <;> rw [hφ] at hφ' <;> cases hφ' <;> rfl
  rw [hsame, hc'] at hc
  cases hc

/-- The requests that the threads serve. -/
def serves (oc : Outcomes) (fps : Fingerprints) (p : Prog (sig Tid) (Except PyError Outcome)) :
    Prop := ∃ req, p = (handleRoute oc fps req).run

/-- **One settlement for each payment.**  Whatever the threads and processes of
a ledger file are and however their steps, crashes, restarts and failures
interleave: `settle` is called at most once for a canonical fingerprint; a thread
that asks for a row's deletion never settles; and before such a deletion nothing
was settled under the row's hash. -/
theorem settle_at_most_once {oc : Outcomes} {ledger : Ledger}
    {c : (system pid ledger).Config (Except PyError Outcome)}
    (h : (system pid ledger).Reachable (serves oc fps) c) :
    (∀ fp, settlements fps fp c.world.events ≤ 1) ∧
      (∀ t fpHash, .deleted t fpHash ∈ c.world.events →
        ∀ parsed accept, .settle t parsed accept ∉ c.world.events) ∧
      ∀ later t fpHash earlier, c.world.events = later ++ .deleted t fpHash :: earlier →
        settleCount fps fpHash earlier = 0 := by
  have hserves : ∀ p : Prog (sig Tid) (Except PyError Outcome), serves oc fps p →
      wp (protocol fps Tid) p (fun _ _ => True) ⟨false, .free⟩ := by
    rintro _ ⟨req, rfl⟩
    exact wp_mono (handleRoute_wpe req) fun _ _ _ => trivial
  obtain ⟨ph, hw, -⟩ := h.phases (ledgered_invariant ledger) hserves
  exact ⟨hw.settlements_le_one, fun t fpHash hmem => hw.deleter_not_settler hmem, hw.order⟩

end Invariant

/-- Every payment has the empty fingerprint. -/
def oneName : Fingerprints := ⟨fun _ _ => .ok [], fun _ _ => .ok []⟩

def keepAll : Outcomes := ⟨.ok, fun _ => .ok [], fun _ => .ok none⟩

def urlRequest : Request := ⟨.obj [("url", .str "https://a")], [], none⟩

/-- One process with one thread on an empty ledger. -/
abbrev oneProcess : System (sig Unit) := system (id : Unit → Unit) ⟨[], false⟩

/-- The run of one request up to its settlement. -/
theorem settle_at_most_once_run : ∃ c : oneProcess.Config (Except PyError Outcome),
    oneProcess.Reachable (serves keepAll oneName) c ∧
      settlements oneName [] c.world.events = 1 ∧
      ∀ fp, settlements oneName fp c.world.events ≤ 1 := by
  have h : oneProcess.Reachable (serves keepAll oneName)
      ⟨oneProcess.init, fun _ => .unborn⟩ := .refl
  replace h := h.spawn () rfl ⟨urlRequest, rfl⟩
  replace h := h.op () (.call .extractPaymentPayload) (.ok (some .null)) rfl rfl
  replace h := h.op () (.call .algorandSender) (.ok none) rfl rfl
  replace h := h.op () (.call (.matchAccept .null [])) (.ok (some .null)) rfl rfl
  replace h := h.op () (.call (.paymentDeadline .null)) (.ok 60) rfl rfl
  replace h := h.op () .acquire () rfl ⟨rfl, rfl⟩
  replace h := h.op () (.completedGet []) none rfl ⟨rfl, rfl⟩
  replace h := h.op () (.inflightGet []) none rfl ⟨rfl, rfl⟩
  replace h := h.op () (.selectRow _) (.ok none) rfl (Or.inl ⟨_, _, .seen, rfl, rfl⟩)
  replace h := h.op () .selectLegacy (.ok false) rfl (Or.inl ⟨_, _, .seen, rfl, rfl⟩)
  replace h := h.op () (.insertPending _ _) .done rfl
    ⟨_, .done ⟨fun _ _ h => absurd rfl h, Or.inr ⟨Or.inl rfl, rfl⟩⟩ rfl, rfl⟩
  replace h := h.op () .commit true rfl ⟨_, .done, rfl⟩
  replace h := h.op () (.inflightPut [] _) () rfl rfl
  replace h := h.op () .release () rfl rfl
  replace h := h.op () (.call .monotonic) (.ok 0) rfl rfl
  replace h := h.op () (.call (.verify .null .null)) (.ok true) (by with_unfolding_all rfl) rfl
  replace h := h.op () (.call (.runProbe _)) (.ok (200, .obj [])) rfl rfl
  replace h := h.op () (.call (.railOfAccept .null)) (.ok []) rfl rfl
  replace h := h.op () (.call (.billableGate _ _)) (.ok true) rfl rfl
  replace h := h.op () (.call .monotonic) (.ok 0) rfl rfl
  replace h := h.op () (.call (.settle .null .null)) (.ok ⟨true, .null, false⟩)
    (by with_unfolding_all rfl) rfl
  exact ⟨_, h, rfl, (settle_at_most_once h).1⟩

end Signal402.Replay
