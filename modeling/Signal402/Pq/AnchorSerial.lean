import Signal402.Pq.AnchorSql
import Signal402.Pq.Latch

/-!
# Anchor writes of several processes (`store.py`)

Any number of processes call the four functions on one store, each on its own
connection, and their statements interleave.  Where no call is overtaken between a
read and the write that depends on it, nor between its commit and the row it reads
back, the calls serialize (`anchor_writes_serialize`).  Nothing in the code prevents
an overtaking but for `reserve_automatic_send`: `confirmation_overtaken` is a run in
which `last_confirmed_checkpoint` goes back.

* `Good` — a call keeps to the protocol of `Serial`, rule by rule.
* `Follows` — what a serial order keeps: latched rows, and the last confirmed size.
-/

namespace Signal402.AnchorSql

open AnchorStore Confirmed Concurrent Serial

/-! ## The programs keep to the protocol -/

section Protocol

/-- Where code may end, with a value and with an exception. -/
structure Ending where
  value : Phase → Prop
  error : Phase → Prop
  looking : error .looking
  never : error .never

/-- The end of a call. -/
def Ending.call : Ending where
  value φ := φ ≠ .writing
  error φ := φ ≠ .writing ∧ φ ≠ .committed
  looking := ⟨by decide, by decide⟩
  never := ⟨by decide, by decide⟩

theorem Ending.call_value {φ : Phase} (h : φ ≠ .writing) : Ending.call.value φ := h

/-- The end of code that a rollback follows when it raises. -/
def Ending.locked : Ending where
  value φ := φ = .committed
  error φ := φ ≠ .committed
  looking := by decide
  never := by decide

variable {A B : Type} {φ : Phase} {X : Ending}

/-- From the phase `φ` the code keeps to the protocol and ends as `X` says. -/
def Good (X : Ending) (x : Code A) (φ : Phase) : Prop :=
  wpe (protocol schema) x (fun φ _ => X.value φ) (fun φ _ => X.error φ) φ

theorem Good.disciplined {x : Code A} (h : Good .call x .fresh) : Disciplined x.run := by
  refine wp_mono h ?_
  rintro φ (e | a) hr
  · cases φ with
    | writing => exact absurd rfl hr.1
    | committed => exact absurd rfl hr.2
    | fresh => trivial
    | looking => trivial
    | never => trivial
  · cases φ with
    | writing => exact absurd rfl hr
    | fresh => trivial
    | looking => trivial
    | committed => trivial
    | never => trivial

theorem Good.map {x : Code A} (f : A → B) (h : Good X x φ) : Good X (f <$> x) φ := by
  rw [Good, map_eq_pure_bind, wpe_bind]
  exact h

theorem good_throw {e : PyError} (hφ : X.error φ) : Good X (throw e : Code A) φ := hφ

theorem good_return {a : A} (hφ : X.value φ) : Good X (pure a : Code A) φ := hφ

theorem good_ofExcept {x : Except PyError A} (f : A → Code B) (hφ : X.error φ)
    (h : ∀ a, x = .ok a → Good X (f a) φ) : Good X (MonadExcept.ofExcept x >>= f) φ := by
  cases x with
  | error e => exact hφ
  | ok a => exact h a rfl

theorem good_select {q : Query} {f : q.Row → Code B} (hφ : φ ≠ .fresh)
    (h : ∀ r, Good X (f r) φ) : Good X (select q >>= f) φ := by
  rw [Good, wpe_bind]
  refine (wpe_perform _ _ _ _).mpr ?_
  cases φ with
  | fresh => exact absurd rfl hφ
  | looking => exact ⟨trivial, h⟩
  | writing => exact ⟨trivial, h⟩
  | committed => exact ⟨trivial, h⟩
  | never => exact ⟨trivial, h⟩

/-- The first statement of a call, where it reads. -/
theorem good_select_fresh {q : Query} {f : q.Row → Code B} (h : ∀ r, Good X (f r) .looking) :
    Good X (select q >>= f) .fresh := by
  rw [Good, wpe_bind]
  exact (wpe_perform _ _ _ _).mpr ⟨trivial, h⟩

/-- A read that ends the code. -/
theorem good_last {q : Query} (hφ : φ ≠ .fresh) (h : X.value φ) : Good X (select q) φ := by
  rw [← bind_pure (select q)]
  exact good_select hφ fun _ => good_return h

/-- A write that is refused raises, and leaves nothing to roll back. -/
theorem good_write {w : Change} {f : Unit → Code B} (hφ : φ = .looking ∨ φ = .writing)
    (h : Good X (f ()) .writing) : Good X (write w >>= f) φ := by
  rw [Good, write, bind_assoc, wpe_bind]
  refine (wpe_perform _ _ _ _).mpr ?_
  rcases hφ with rfl | rfl
  · refine ⟨trivial, fun done => ?_⟩
    cases done with
    | true => exact h
    | false => exact X.looking
  · refine ⟨trivial, fun done => ?_⟩
    cases done with
    | true => exact h
    | false => exact X.never

theorem good_insert {i : Insert} {f : Unit → Code B}
    (hφ : φ = .looking ∨ φ = .writing ∧ X.error .writing) (h : Good X (f ()) .writing) :
    Good X (insert i >>= f) φ := by
  rw [Good, insert, bind_assoc, wpe_bind]
  refine (wpe_perform _ _ _ _).mpr ?_
  rcases hφ with rfl | ⟨rfl, herror⟩
  · refine ⟨trivial, fun r => ?_⟩
    cases r with
    | done => exact h
    | constraint => exact X.looking
    | failed => exact X.looking
  · refine ⟨trivial, fun r => ?_⟩
    cases r with
    | done => exact h
    | constraint => exact herror
    | failed => exact X.never

theorem good_beginImmediate {f : Unit → Code B} (h : Good X (f ()) .writing) :
    Good X (beginImmediate >>= f) .fresh := by
  rw [Good, beginImmediate, bind_assoc, wpe_bind]
  refine (wpe_perform _ _ _ _).mpr ⟨trivial, fun done => ?_⟩
  cases done with
  | true => exact h
  | false => exact X.looking

theorem good_commit (h : X.value .committed) : Good X commit .writing :=
  (wpe_perform _ _ _ _).mpr ⟨trivial, fun _ => h⟩

theorem good_commit_bind {f : Unit → Code B} (h : Good X (f ()) .committed) :
    Good X (commit >>= f) .writing := by
  rw [Good, wpe_bind]
  exact (wpe_perform _ _ _ _).mpr ⟨trivial, fun _ => h⟩

/-! ## The four functions -/

theorem good_saveAuthorizedCheckpoint (a : SaveArgs) : Good .call (saveAuthorizedCheckpoint a) .fresh := by
  refine good_ofExcept _ ⟨by decide, by decide⟩ fun _ _ => good_select_fresh fun row => ?_
  split
  next existing _ =>
    refine good_ofExcept _ Ending.call.looking fun check _ => ?_
    split
    · have hrest : ∀ φ, φ = .looking ∨ φ = .writing → Good .call (do
          write (.setLastAuthorized existing.treeSize)
          commit
          return (← select (.authorizedRow a.treeSize)).getD existing) φ := fun φ hφ =>
        good_write hφ (good_commit_bind (good_select (by decide) fun _ => good_return (Ending.call_value (by decide))))
      split
      · exact good_write (Or.inl rfl) (hrest _ (Or.inr rfl))
      · exact hrest _ (Or.inl rfl)
    · exact good_return (Ending.call_value (by decide))
  · exact good_write (Or.inl rfl) (good_write (Or.inr rfl)
      (good_commit_bind (good_select (by decide) fun _ => good_return (Ending.call_value (by decide)))))

theorem good_discardAuthorizedCheckpoint (n : ℤ) : Good .call (discardAuthorizedCheckpoint n) .fresh := by
  refine good_select_fresh fun row => ?_
  split
  · exact good_return (Ending.call_value (by decide))
  next existing =>
    refine good_ofExcept _ Ending.call.looking fun rank _ => ?_
    have hcommit : Good .call commit .writing := good_commit (Ending.call_value (by decide))
    split
    · exact good_throw Ending.call.looking
    · refine good_write (Or.inl rfl) (good_select (by decide) fun last => ?_)
      split
      · exact good_write (Or.inr rfl) hcommit
      · exact hcommit

theorem good_resaveLast (last : Checkpoint) (want : ConfirmedRow) :
    Good .call (resaveLast last want) .looking := by
  rw [resaveLast]
  split
  · exact good_return (Ending.call_value (by decide))
  · split
    · exact good_write (Or.inl rfl) (good_write (Or.inr rfl) (good_commit_bind (good_last (by decide) (Ending.call_value (by decide)))))
    · exact good_throw Ending.call.looking

theorem good_resaveRow (existing want : ConfirmedRow) :
    Good .call (resaveRow existing want) .looking := by
  rw [resaveRow]
  split
  · exact good_last (by decide) (Ending.call_value (by decide))
  · split
    · exact good_write (Or.inl rfl) (good_write (Or.inr rfl) (good_commit_bind (good_last (by decide) (Ending.call_value (by decide)))))
    · exact good_throw Ending.call.looking

theorem good_saveConfirmedCheckpoint (a : ConfirmArgs) :
    Good .call (saveConfirmedCheckpoint a) .fresh := by
  refine good_ofExcept _ ⟨by decide, by decide⟩ fun want _ => good_select_fresh fun last => ?_
  split
  · exact good_throw Ending.call.looking
  · split
    · exact good_resaveLast _ _
    · refine good_select (by decide) fun row => ?_
      split
      · exact good_resaveRow _ _
      · refine good_select (by decide) fun auth => good_ofExcept _ Ending.call.looking fun _ _ => ?_
        exact good_insert (Or.inl rfl) (good_write (Or.inr rfl) (good_commit_bind (good_last (by decide) (Ending.call_value (by decide)))))

/-- Under the lock a reservation commits, or raises before it does. -/
theorem good_reserveLocked (n fee now : ℤ) (expected : PyStr) (b : Budget) :
    Good .locked (reserveLocked n expected fee now b) .fresh := by
  have hraise : Ending.locked.error .writing := show Phase.writing ≠ .committed by decide
  refine good_beginImmediate (good_select (by decide) fun send => good_select (by decide) fun auth =>
    good_select (by decide) fun job => ?_)
  split
  · split
    · exact good_throw hraise
    · exact good_throw hraise
  · split
    next auth job _ _ =>
      dsimp only
      split
      · exact good_throw hraise
      · split
        · exact good_throw hraise
        · refine good_ofExcept _ hraise fun _ _ => good_select (by decide) fun hourly => ?_
          split
          · exact good_throw hraise
          · refine good_select (by decide) fun daily => good_select (by decide) fun monthly => ?_
            split
            · exact good_throw hraise
            · split
              · exact good_throw hraise
              · exact good_insert (Or.inr ⟨rfl, hraise⟩) (good_write (Or.inr rfl)
                  (good_write (Or.inr rfl) (good_commit rfl)))
    · exact good_throw hraise

theorem good_reserveAutomaticSend (n fee now : ℤ) (expected : PyStr) (b : Budget) :
    Good .call (reserveAutomaticSend n expected fee now b) .fresh := by
  rw [reserveAutomaticSend]
  dsimp only
  split
  · exact good_throw ⟨by decide, by decide⟩
  · rw [Good, wpe_bind, wpe_tryCatch]
    refine wpe_mono (good_reserveLocked n fee now expected.strip b) ?_ ?_
    · rintro φ - rfl
      exact good_last (by decide) (Ending.call_value (by decide))
    · intro φ e hφ
      rw [wpe_bind]
      refine (wpe_perform _ _ _ _).mpr ?_
      cases φ with
      | fresh => exact ⟨trivial, fun _ => Ending.call.looking⟩
      | looking => exact ⟨trivial, fun _ => Ending.call.looking⟩
      | writing => exact ⟨trivial, fun _ => Ending.call.looking⟩
      | committed => exact absurd rfl hφ
      | never => exact ⟨trivial, fun _ => Ending.call.never⟩

/-- Every call keeps to the protocol. -/
theorem disciplined_code (call : Call) : Disciplined call.code := by
  cases call with
  | saveAuthorizedCheckpoint a => exact ((good_saveAuthorizedCheckpoint a).map _).disciplined
  | discardAuthorizedCheckpoint n => exact ((good_discardAuthorizedCheckpoint n).map _).disciplined
  | reserveAutomaticSend n expected fee now b =>
      exact ((good_reserveAutomaticSend n fee now expected b).map _).disciplined
  | saveConfirmedCheckpoint a => exact ((good_saveConfirmedCheckpoint a).map _).disciplined

end Protocol

/-! ## What a serial order keeps -/

/-- The call alone returns `v`. -/
def Serially (call : Call) (d : Anchors) (v : Value) (d' : Anchors) : Prop :=
  exec call.serial d = (.ok v, d')

theorem ran_code {call : Call} {d d' : Anchors} {v : Value} (h : Ran Call.code call d v d') :
    Serially call d v d' := by
  rw [Ran, alone_code] at h
  obtain ⟨hresult, hafter⟩ := Prod.mk.inj h
  exact Prod.ext hresult (congrArg Solo.file hafter)

/-- The latched rows of the first store are kept in the second, and the size that is
confirmed last has not become smaller. -/
structure Follows (d d' : Anchors) : Prop where
  latched : StoreCalls.KeepsLatched d.store d'.store
  size : d.confirmed.lastConfirmedCheckpoint.size ≤ d'.confirmed.lastConfirmedCheckpoint.size

theorem Follows.refl (d : Anchors) : Follows d d := ⟨.refl _, Int.le_refl _⟩

theorem Follows.trans {d d' d'' : Anchors} (h : Follows d d') (h' : Follows d' d'') :
    Follows d d'' := ⟨h.latched.trans h'.latched, Int.le_trans h.size h'.size⟩

/-- The effect of a function on the authorized rows, whatever it returns. -/
theorem keepsLatched_code (call : StoreCalls.Call) (s : Store) :
    StoreCalls.KeepsLatched s (exec call.code s).2 := by
  have houtcome : StoreCalls.Outcome s call (exec call.code s).1 (exec call.code s).2 :=
    StoreCalls.outcome_code rfl
  rcases houtcome with ⟨-, hsame⟩ | ⟨-, heffect⟩
  · rw [hsame]
    exact .refl _
  · exact heffect.keepsLatched

theorem Serially.follows {call : Call} {d d' : Anchors} {v : Value} (h : Serially call d v d') :
    Follows d d' := by
  obtain rfl : (exec call.serial d).2 = d' := congrArg Prod.snd h
  cases call with
  | saveAuthorizedCheckpoint a =>
      have hcode : (exec (StoreCalls.Call.saveAuthorizedCheckpoint a).code d.store).2 =
          (exec (StoreCalls.saveAuthorizedCheckpoint a) d.store).2 := by
        rw [StoreCalls.Call.code, Eff.exec_bind]
        generalize exec (StoreCalls.saveAuthorizedCheckpoint a) d.store = run
        obtain ⟨e | row, s⟩ := run <;> rfl
      refine ⟨?_, Int.le_refl _⟩
      change StoreCalls.KeepsLatched d.store (exec (StoreCalls.saveAuthorizedCheckpoint a) d.store).2
      rw [← hcode]
      exact keepsLatched_code _ _
  | discardAuthorizedCheckpoint n =>
      exact ⟨keepsLatched_code (.discardAuthorizedCheckpoint n) _, Int.le_refl _⟩
  | reserveAutomaticSend n expected fee now b =>
      exact ⟨keepsLatched_code (.reserveAutomaticSend n expected fee now b) _, Int.le_refl _⟩
  | saveConfirmedCheckpoint a =>
      rcases last_saveConfirmedCheckpoint (c := d.confirmed) d.store a rfl with ⟨-, hsame⟩ | ⟨-, hsize⟩
      · exact ⟨.refl _, Int.le_of_eq (congrArg (·.lastConfirmedCheckpoint.size) hsame.symm)⟩
      · exact ⟨.refl _, hsize⟩

theorem map_eq_ok {A : Type} {f : A → Value} {x : Except PyError A} {v : Value}
    (h : x.map f = .ok v) : ∃ a, x = .ok a ∧ f a = v := by
  cases x with
  | error e => cases h
  | ok a => exact ⟨a, rfl, Except.ok.inj h⟩

/-- A confirmation returns what is confirmed last after it. -/
theorem Serially.confirmed {call : Call} {d d' : Anchors} {p : Checkpoint}
    (h : Serially call d (.confirmed p) d') : d'.confirmed.lastConfirmedCheckpoint = p := by
  obtain ⟨hresult, rfl⟩ := Prod.mk.inj h
  cases call with
  | saveAuthorizedCheckpoint a =>
      obtain ⟨_, -, hv⟩ := map_eq_ok hresult
      cases hv
  | discardAuthorizedCheckpoint n =>
      obtain ⟨_, -, hv⟩ := map_eq_ok hresult
      cases hv
  | reserveAutomaticSend n expected fee now b =>
      obtain ⟨_, -, hv⟩ := map_eq_ok hresult
      cases hv
  | saveConfirmedCheckpoint a =>
      obtain ⟨q, hq, hv⟩ := map_eq_ok hresult
      cases hv
      change (exec (Confirmed.saveConfirmedCheckpoint d.store a) d.confirmed).2.lastConfirmedCheckpoint
        = p
      obtain ⟨r, c', hrun⟩ : ∃ r c',
          exec (Confirmed.saveConfirmedCheckpoint d.store a) d.confirmed = (r, c') := ⟨_, _, rfl⟩
      rw [hrun] at hq ⊢
      rcases last_saveConfirmedCheckpoint d.store a hrun with ⟨⟨e, he⟩, -⟩ | ⟨hok, -⟩
      · rw [he] at hq
        cases hq
      · rw [hok] at hq
        exact Except.ok.inj hq

/-- Every row at `SEND_ATTEMPTED` or later is signed. -/
def LatchedSigned (s : Store) : Prop :=
  ∀ n row, s.authorizedRow n = some row → row.Latched → row.signed ≠ []

/-- A save that inserts a row at `SEND_ATTEMPTED` or later signs it. -/
def Call.Signs : Call → Prop
  | .saveAuthorizedCheckpoint a => (newRow a).Latched → a.signed ≠ []
  | _ => True

theorem latchedSigned_saveAuthorizedCheckpoint {a : SaveArgs} {s : Store}
    (ha : (newRow a).Latched → a.signed ≠ []) (hs : LatchedSigned s) :
    LatchedSigned (exec (StoreCalls.saveAuthorizedCheckpoint a) s).2 := by
  rw [StoreCalls.saveAuthorizedCheckpoint, Eff.exec_bind, Eff.exec_ofExcept]
  cases sendStateRank a.sendState with
  | error e => exact hs
  | ok rank =>
      dsimp only
      rw [Eff.exec_bind, Eff.exec_reads]
      dsimp only
      cases hfilter : (s.authorizedRow a.treeSize).filter fun row => row.signed ≠ [] with
      | none =>
          intro n row hrow hlatched
          change (insertAuthorized a s).authorizedRow n = some row at hrow
          rw [authorizedRow_insertAuthorized] at hrow
          split at hrow
          · cases hrow
            exact ha hlatched
          · exact hs n row hrow hlatched
      | some existing =>
          obtain ⟨hexisting, hsigned⟩ := Option.filter_eq_some_iff.mp hfilter
          dsimp only
          rw [Eff.exec_bind, Eff.exec_ofExcept]
          cases saveCheck existing a with
          | error e => exact hs
          | ok check =>
              cases check with
              | false => exact hs
              | true =>
                  intro n row hrow hlatched
                  change (updateAuthorized existing a s).authorizedRow n = some row at hrow
                  rw [authorizedRow_updateAuthorized] at hrow
                  split at hrow
                  · rw [hexisting] at hrow
                    cases hrow
                    exact of_decide_eq_true hsigned
                  · exact hs n row hrow hlatched

/-- Only a save can latch a row that is not signed. -/
theorem latchedSigned_code (call : StoreCalls.Call) {s : Store}
    (hcall : ∀ a, call ≠ .saveAuthorizedCheckpoint a) (hs : LatchedSigned s) :
    LatchedSigned (exec call.code s).2 := by
  have herase : ∀ {s' : Store} {n : ℤ},
      s'.authorized = Table.erase AuthorizedRow.treeSize n s.authorized → LatchedSigned s' := by
    intro s' n h m row hrow
    rw [Store.authorizedRow, h, Table.lookup_erase] at hrow
    split at hrow
    · cases hrow
    · exact hs m row hrow
  have hsame : ∀ {s' : Store}, s'.authorized = s.authorized → LatchedSigned s' := by
    intro s' h n row hrow
    rw [Store.authorizedRow, h] at hrow
    exact hs n row hrow
  have houtcome : StoreCalls.Outcome s call (exec call.code s).1 (exec call.code s).2 :=
    StoreCalls.outcome_code rfl
  rcases houtcome with ⟨-, hkept⟩ | ⟨-, heffect⟩
  · rw [hkept]
    exact hs
  · generalize (exec call.code s).2 = s' at heffect
    cases heffect with
    | agreed a => exact absurd rfl (hcall a)
    | updated => exact absurd rfl (hcall _)
    | inserted => exact absurd rfl (hcall _)
    | missing => exact hs
    | discarded => exact herase rfl
    | created h => exact hsame (authorized_createAutomationJob h)
    | jobStatusSet _ h => exact hsame (authorized_setAutomationJobStatus h)
    | signAttempted h => exact hsame (authorized_recordAutomationSignAttempt h)
    | resigned h => exact herase (authorized_beginAutomationResign h).2
    | @reserved n _ now expected _ _ h =>
        obtain ⟨⟨row, hrow, -, hsigned⟩, hauthorized⟩ := authorized_reserveAutomaticSend h
        intro m row' hrow' hlatched
        rw [Store.authorizedRow, hauthorized,
          Table.lookup_update (f := latchRow expected.strip now) (fun _ => rfl)] at hrow'
        split at hrow'
        · rw [show Table.lookup _ s.authorized n = some row from hrow] at hrow'
          cases hrow'
          exact hsigned
        · exact hs m row' hrow' hlatched
    | sendStatusSet _ h => exact hsame (authorized_setAutomaticSendStatus h)

theorem Serially.latchedSigned {call : Call} {d d' : Anchors} {v : Value}
    (h : Serially call d v d') (hcall : call.Signs) (hd : LatchedSigned d.store) :
    LatchedSigned d'.store := by
  obtain rfl : (exec call.serial d).2 = d' := congrArg Prod.snd h
  cases call with
  | saveAuthorizedCheckpoint a => exact latchedSigned_saveAuthorizedCheckpoint hcall hd
  | discardAuthorizedCheckpoint n => exact latchedSigned_code (.discardAuthorizedCheckpoint n) (fun a h => by cases h) hd
  | reserveAutomaticSend n expected fee now b =>
      exact latchedSigned_code (.reserveAutomaticSend n expected fee now b)
        (fun a h => by cases h) hd
  | saveConfirmedCheckpoint a => exact hd

/-! ## Runs -/

section Runs

variable {C : Type} [DecidableEq C] {d : Anchors} {c c' : Config schema C Call PyError Value}

/-- **Serial order.**  In every run whose statements are timely the tables are those of
a serial order of the calls that returned a value, with these values, and of the calls
that have committed and read their row back next.  From any state of the run on, latched
rows are kept and the size that is confirmed last does not become smaller. -/
theorem anchor_writes_serialize
    (h : Steps Call.code (Timely Call.code) (Config.start schema d) c)
    (h' : Steps Call.code (Timely Call.code) c c') :
    (∃ es, ∃ flight : List (C × Call × Value), History.Run Serially d es c.db.file ∧
      (es.map fun e => (e.call, e.result)).Perm (c.normal ++ flight.map Prod.snd) ∧
      (∀ e ∈ flight, ∃ x, c.calls e.1 = some x ∧ x.phase = .committed) ∧
      (LatchedSigned d.store → (∀ e ∈ es, e.call.Signs) → LatchedSigned c.db.file.store)) ∧
    Follows c.db.file c'.db.file := by
  obtain ⟨es, flight, hrun, hcalls, hinv⟩ := serializes disciplined_code h
  obtain ⟨es', -, -, hrun', -⟩ := hinv.steps disciplined_code h'
  refine ⟨⟨es, flight, hrun.mono ran_code, hcalls, hinv.flying, ?_⟩, ?_⟩
  · intro hd hsigns
    exact (hrun.mono ran_code).invariant (K := fun d => LatchedSigned d.store)
      (fun e hmem he => he.latchedSigned (hsigns e hmem)) hd
  · exact hrun'.relation (K := fun _ => True)
      (fun hstep _ => ⟨trivial, (ran_code hstep).follows⟩) .refl .trans trivial

end Runs

/-- A first save of a tree of one leaf. -/
def firstSave : SaveArgs where
  treeSize := 1
  origin := "402signal.com/pq/log/mainnet-v1"
  root := "6e340b9cffb37a989ca544e6bb780a2c78901d3fb33738768511a30617afa01d"
  checkpoint := "note"
  requestId := "request"
  signed := [1]
  at' := 1000

/-- A store without rows. -/
def emptyAnchors : Anchors := ⟨⟨[], [], [], 0⟩, emptyStore⟩

/-- The save has started on one connection. -/
def saveStarted : Config schema Unit Call PyError Value :=
  let c : Config schema Unit Call PyError Value := Config.start schema emptyAnchors
  c.advance c.db ()
    ⟨.saveAuthorizedCheckpoint firstSave, Call.code (.saveAuthorizedCheckpoint firstSave),
      .fresh, c.db.file⟩

theorem timely_turn {c : Config schema Unit Call PyError Value}
    {x : Running schema Call PyError Value} {o : Stmt schema}
    {k : o.Res → Prog schema.sig (Except PyError Value)}
    (h : Steps Call.code (Timely Call.code) (Config.start schema emptyAnchors) c)
    (hconn : ∀ p, c.db.conn () ≠ .reading p) (hx : c.calls () = some x) (hrest : x.rest = .call o k)
    (htimely : Timely Call.code () c.db x o k ((soloOf c.db ()).answer o)) :
    Steps Call.code (Timely Call.code) (Config.start schema emptyAnchors) (c.turn ()) := by
  refine h.turn hconn (fun _ _ hne => absurd rfl hne) fun x' o' k' hx' hrest' => ?_
  obtain rfl := Option.some.inj (hx.symm.trans hx')
  cases hrest.symm.trans hrest'
  exact htimely

theorem anchor_writes_serialize_save :
    let c := ((((saveStarted.turn ()).turn ()).turn ()).turn ()).turn ()
    c.normal = [(.saveAuthorizedCheckpoint firstSave, .authorized (newRow firstSave))] ∧
      ∃ es, History.Run Serially emptyAnchors es c.db.file ∧
        (es.map fun e => (e.call, e.result)).Perm c.normal := by
  have h₀ : Steps Call.code (Timely Call.code) (Config.start schema emptyAnchors) saveStarted :=
    .single (.start (t := ()) rfl (Call.saveAuthorizedCheckpoint firstSave))
  have h₁ := timely_turn h₀ (fun p h => by cases h) rfl rfl
    ⟨fun h => (by cases h), fun _ a h => (by cases h), fun h => (by cases h)⟩
  have h₂ := timely_turn h₁ (fun p h => by cases h) rfl rfl
    ⟨fun _ _ => rfl, fun _ a h => (by cases h), fun h => (by cases h)⟩
  have h₃ := timely_turn h₂ (fun p h => by cases h) rfl rfl
    ⟨fun h => (by cases h), fun _ a h => (by cases h), fun h => (by cases h)⟩
  have h₄ := timely_turn h₃ (fun p h => by cases h) rfl rfl
    ⟨fun h => (by cases h), fun _ a h => (by cases h), fun h => (by cases h)⟩
  have h₅ := timely_turn h₄ (fun p h => by cases h) rfl rfl
    ⟨fun h => (by cases h), fun h => (by rcases h with h | h <;> cases h), fun _ q hq => by
      cases hq
      rfl⟩
  refine ⟨rfl, ?_⟩
  obtain ⟨⟨es, flight, hrun, hcalls, hflying, -⟩, -⟩ := anchor_writes_serialize h₅ .refl
  have hnone : flight = [] := by
    refine List.eq_nil_iff_forall_not_mem.mpr fun e he => ?_
    obtain ⟨x, hx, -⟩ := hflying e he
    cases hx
  rw [hnone, List.map_nil, List.append_nil] at hcalls
  exact ⟨es, hrun, hcalls⟩

/-! ## A call that is overtaken -/

/-- Two processes on one store. -/
abbrev TwoProcesses := Config schema Bool Call PyError Value

/-- No other process writes, and this one has not only read in its transaction. -/
def free (c : TwoProcesses) (t : Bool) : Bool :=
  match c.db.conn t, c.db.conn (!t) with
  | .reading _, _ => false
  | _, .writing _ => false
  | _, _ => true

/-- The processes take turns. -/
def turns : List Bool → TwoProcesses → TwoProcesses
  | [], c => c
  | t :: ts, c => turns ts (c.turn t)

/-- Every turn finds the lock free. -/
def allFree : List Bool → TwoProcesses → Bool
  | [], _ => true
  | t :: ts, c => free c t && allFree ts (c.turn t)

theorem steps_turns {c c' : TwoProcesses} (h : Steps Call.code (fun _ _ _ _ _ _ => True) c c')
    {ts : List Bool} (hfree : allFree ts c' = true) :
    Steps Call.code (fun _ _ _ _ _ _ => True) c (turns ts c') := by
  induction ts generalizing c' with
  | nil => exact h
  | cons t ts ih =>
      obtain ⟨ht, hts⟩ := Bool.and_eq_true_iff.mp hfree
      refine ih (h.turn (t := t) (fun p hp => ?_) (fun t' p hne hp => ?_)
        fun _ _ _ _ _ => trivial) hts
      · rw [free, hp] at ht
        cases ht
      · obtain rfl : t' = !t := by
          revert hne
          cases t <;> cases t' <;> simp
        rw [free, hp] at ht
        cases hc : c'.db.conn t <;> rw [hc] at ht <;> cases ht

/-- A confirmation of a tree of two leaves. -/
def secondSave : ConfirmArgs := { legacySave with treeSize := 2 }

/-- A process starts to confirm. -/
def TwoProcesses.confirms (c : TwoProcesses) (t : Bool) (a : ConfirmArgs) : TwoProcesses :=
  c.advance c.db t
    ⟨.saveConfirmedCheckpoint a, Call.code (.saveConfirmedCheckpoint a), .fresh, c.db.file⟩

/-- Two processes start to confirm trees of one and of two leaves. -/
def bothStarted : TwoProcesses :=
  let c : TwoProcesses := Config.start schema emptyAnchors
  (c.confirms false legacySave).confirms true secondSave

/-- What the second process confirms. -/
def secondPointer : Checkpoint where
  size := 2
  at' := 1000
  txid := "AAAAAAAAAAAAAAAAAAAAAAAAAAAAAAAAAAAAAAAAAAAAAAAAAAAA"
  round := 7
  root := "6e340b9cffb37a989ca544e6bb780a2c78901d3fb33738768511a30617afa01d"
  origin := "402signal.com/pq/log/mainnet-v1"

/-- The second process confirms its tree between the read and the write of the first. -/
def overtaking : TwoProcesses := turns [false, true, true, true, true, true, true, true] bothStarted

def overtaken : TwoProcesses := turns [false, false, false, false, false, false] overtaking

/-- **A confirmation is overtaken.**  Both calls return, no serial order of them leaves
this store, and the size that is confirmed last goes from 2 to 1. -/
theorem confirmation_overtaken :
    Steps Call.code (fun _ _ _ _ _ _ => True) (Config.start schema emptyAnchors) overtaking ∧
      Steps Call.code (fun _ _ _ _ _ _ => True) overtaking overtaken ∧
      overtaking.db.file.confirmed.lastConfirmedCheckpoint.size = 2 ∧
      overtaken.db.file.confirmed.lastConfirmedCheckpoint.size = 1 ∧
      (∀ t, overtaken.calls t = none) ∧ overtaken.normal.length = 2 ∧
      ¬∃ es, History.Run Serially emptyAnchors es overtaken.db.file ∧
        (es.map fun e => (e.call, e.result)).Perm overtaken.normal := by
  have hstart : Steps Call.code (fun _ _ _ _ _ _ => True)
      (Config.start schema emptyAnchors) bothStarted :=
    (Relation.ReflTransGen.single
      (.start (t := false) rfl (Call.saveConfirmedCheckpoint legacySave))).tail
      (.start (t := true) rfl (Call.saveConfirmedCheckpoint secondSave))
  have hsize : overtaken.db.file.confirmed.lastConfirmedCheckpoint.size = 1 := by decide +kernel
  refine ⟨steps_turns hstart (by decide +kernel), steps_turns .refl (by decide +kernel),
    by decide +kernel, hsize, by decide +kernel, by decide +kernel, ?_⟩
  rintro ⟨es, hrun, hcalls⟩
  -- The confirmation of size 2 is one of the calls; what follows it keeps that size.
  have hvalue : Value.confirmed secondPointer ∈ overtaken.normal.map Prod.snd := by decide +kernel
  obtain ⟨reply, hmem, hreply⟩ := List.mem_map.mp hvalue
  obtain ⟨e, he, rfl⟩ := List.mem_map.mp (hcalls.mem_iff.mpr hmem)
  have hran := (hrun.forall_event (K := fun _ => True) (fun _ _ _ _ => trivial) trivial e he).1
  rw [show e.result = .confirmed secondPointer from hreply] at hran
  have hafter := hrun.relation_after (K := fun _ => True)
    (fun hstep _ => ⟨trivial, hstep.follows⟩) .refl .trans trivial e he
  have hle := hafter.size
  rw [hran.confirmed, hsize] at hle
  exact absurd hle (by decide)

end Signal402.AnchorSql
