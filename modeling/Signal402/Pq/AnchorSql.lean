import Signal402.Lib.Serial
import Signal402.Pq.Confirmed
import Signal402.Pq.StoreCalls

/-!
# The anchor functions, statement by statement (`store.py`)

`save_authorized_checkpoint`, `discard_authorized_checkpoint`,
`reserve_automatic_send` and `save_confirmed_checkpoint` as programs over the SQL
statements that they execute, in their order.  A transaction opens with the first
statement that writes; only `reserve_automatic_send` executes `BEGIN IMMEDIATE`
before it reads, and only it rolls back.

* `schema` — the queries and the writes on the anchor tables and on `meta`.
* `Call` / `Call.code` — a call and its program.
* `Call.serial` — the same call as one atomic function of the tables.
* `alone_code` — the program alone is the atomic function.
-/

namespace Signal402.AnchorSql

open AnchorStore Confirmed Concurrent Serial

/-! ## Statements -/

/-- The anchor tables. -/
structure Anchors where
  store : Store
  confirmed : ConfirmedStore

inductive Query
  | authorizedRow (n : ℤ)
  | automationJobRow (n : ℤ)
  | sendRow (n : ℤ)
  | sendCount (start : ℤ)
  | sendFees (start : ℤ)
  | lastAuthorized
  | lastConfirmedCheckpoint
  | confirmedRow (n : ℤ)

abbrev Query.Row : Query → Type
  | .authorizedRow _ => Option AuthorizedRow
  | .automationJobRow _ => Option Job
  | .sendRow _ => Option Send
  | .sendCount _ => ℤ
  | .sendFees _ => ℤ
  | .lastAuthorized => ℤ
  | .lastConfirmedCheckpoint => Checkpoint
  | .confirmedRow _ => Option ConfirmedRow

def Query.select : (q : Query) → Anchors → q.Row
  | .authorizedRow n, d => d.store.authorizedRow n
  | .automationJobRow n, d => d.store.automationJobRow n
  | .sendRow n, d => d.store.sendRow n
  | .sendCount start, d => d.store.sendCount start
  | .sendFees start, d => d.store.sendFees start
  | .lastAuthorized, d => d.store.lastAuthorized
  | .lastConfirmedCheckpoint, d => d.confirmed.lastConfirmedCheckpoint
  | .confirmedRow n, d => d.confirmed.row n

/-- An `UPDATE`, a `DELETE`, an `INSERT OR REPLACE`, or an `INSERT` into `meta` that
updates on conflict. -/
inductive Change
  | updateAuthorized (existing : AuthorizedRow) (a : SaveArgs)
  | replaceAuthorized (row : AuthorizedRow)
  | deleteAuthorized (n : ℤ)
  | latchAuthorized (n : ℤ) (expected : PyStr) (now : ℤ)
  | updateJobStatus (n : ℤ) (status : JobStatus) (now : ℤ)
  | setLastAuthorized (n : ℤ)
  | updateNetwork (want : ConfirmedRow)
  | setLastConfirmed (p : Checkpoint)

/-- What a statement does to the tables of the store. -/
def Change.onStore : Change → Store → Store
  | .updateAuthorized existing a, s =>
      { s with
        authorized :=
          Table.update AuthorizedRow.treeSize a.treeSize (saveSets existing a) s.authorized }
  | .replaceAuthorized row, s =>
      { s with authorized := Table.put AuthorizedRow.treeSize row s.authorized }
  | .deleteAuthorized n, s =>
      { s with authorized := Table.erase AuthorizedRow.treeSize n s.authorized }
  | .latchAuthorized n expected now, s =>
      { s with
        authorized := Table.update AuthorizedRow.treeSize n (latchRow expected now) s.authorized }
  | .updateJobStatus n status now, s => updateJob n (Job.withStatus status now) s
  | .setLastAuthorized n, s => { s with lastAuthorized := n }
  | .updateNetwork _, s => s
  | .setLastConfirmed _, s => s

def Change.onConfirmed : Change → ConfirmedStore → ConfirmedStore
  | .updateNetwork want, c => Confirmed.updateNetwork want c
  | .setLastConfirmed p, c => setPointer p c
  | _, c => c

/-- An `INSERT` that fails on a key that is there. -/
inductive Insert
  | send (row : Send)
  | confirmed (row : ConfirmedRow)

def Insert.run : Insert → Anchors → Option Anchors
  | .send row, d =>
      if (d.store.sendRow row.treeSize).isSome ∨
          (d.store.sends.any fun other => other.expectedTxid == row.expectedTxid) then none
      else some { d with store := { d.store with sends := d.store.sends ++ [row] } }
  | .confirmed row, d =>
      if (d.confirmed.row row.treeSize).isSome then none
      else some { d with confirmed := insertRow row d.confirmed }

def schema : Schema Anchors where
  Query := Query
  Row := Query.Row
  select := Query.select
  Change := Change
  change w d := ⟨w.onStore d.store, w.onConfirmed d.confirmed⟩
  Insert := Insert
  insert := Insert.run

/-- Code of the store. -/
abbrev Code := ExceptT PyError (Prog schema.sig)

def databaseError {A : Type} (msg : String) : Code A := throw ⟨.databaseError, msg⟩

def select (q : Query) : Code q.Row := perform (S := schema.sig) (.select q)

def write (w : Change) : Code Unit := do
  if !(← perform (S := schema.sig) (.change w)) then databaseError "database is locked"

def insert (i : Insert) : Code Unit := do
  match ← perform (S := schema.sig) (.insert i) with
  | .done => return ()
  | .constraint => databaseError "UNIQUE constraint failed"
  | .failed => databaseError "database is locked"

def beginImmediate : Code Unit := do
  if !(← perform (S := schema.sig) .beginImmediate) then databaseError "database is locked"

def commit : Code Unit := perform (S := schema.sig) .commit

def rollback : Code Unit := perform (S := schema.sig) .rollback

/-! ## The functions -/

/-- Some column is set by the save. -/
def SaveArgs.HasSets (existing : AuthorizedRow) (a : SaveArgs) : Prop :=
  (a.submitted ∧ a.txid ≠ []) ∨ a.sendState ≠ .empty ∨ a.expectedTxid ≠ [] ∨
    (a.feePolicy ≠ [] ∧ ¬existing.Latched) ∨ (a.fv ≠ 0 ∧ ¬existing.Latched) ∨
    (a.lv ≠ 0 ∧ ¬existing.Latched) ∨ a.sendAttemptedAt ≠ 0

instance (existing : AuthorizedRow) (a : SaveArgs) : Decidable (SaveArgs.HasSets existing a) :=
  inferInstanceAs (Decidable (_ ∨ _))

/-- `save_authorized_checkpoint`. -/
def saveAuthorizedCheckpoint (a : SaveArgs) : Code AuthorizedRow := do
  let _ ← MonadExcept.ofExcept (sendStateRank a.sendState)
  let row ← select (.authorizedRow a.treeSize)
  match row.filter fun row => row.signed ≠ [] with
  | some existing =>
      if ← MonadExcept.ofExcept (saveCheck existing a) then
        if SaveArgs.HasSets existing a then write (.updateAuthorized existing a)
        write (.setLastAuthorized existing.treeSize)
        commit
        return (← select (.authorizedRow a.treeSize)).getD existing
      else return existing
  | none =>
      write (.replaceAuthorized (newRow a))
      write (.setLastAuthorized a.treeSize)
      commit
      return (← select (.authorizedRow a.treeSize)).getD (newRow a)

/-- `discard_authorized_checkpoint`. -/
def discardAuthorizedCheckpoint (n : ℤ) : Code Unit := do
  match ← select (.authorizedRow n) with
  | none => return ()
  | some existing =>
      if latchedRank ≤ (← MonadExcept.ofExcept (sendStateRank existing.sendState)) then
        throw ⟨.storeError, "cannot discard after SEND_ATTEMPTED"⟩
      write (.deleteAuthorized n)
      if (← select .lastAuthorized) = n then write (.setLastAuthorized 0)
      commit

/-- What `reserve_automatic_send` checks and writes under the lock. -/
def reserveLocked (n : ℤ) (expected : PyStr) (fee now : ℤ) (b : Budget) : Code Unit := do
  beginImmediate
  let existingSend ← select (.sendRow n)
  let auth ← select (.authorizedRow n)
  let job ← select (.automationJobRow n)
  match existingSend with
  | some send =>
      if send.expectedTxid ≠ expected ∨ send.fee ≠ fee then
        throw ⟨.storeError, "automatic send conflict"⟩
      else throw ⟨.storeError, "automatic send already reserved"⟩
  | none =>
      match auth, job with
      | some auth, some job =>
          if auth.signed = [] then throw ⟨.storeError, "automatic authorization missing"⟩
          if job.status ≠ .authorized then throw ⟨.storeError, "automatic job not authorized"⟩
          MonadExcept.ofExcept (requireUnlatched (some auth) "automatic send already latched")
          if b.hourlyMax ≤ (← select (.sendCount b.hourStart)) then
            throw ⟨.storeError, "automatic hourly rate cap"⟩
          let daily ← select (.sendFees b.dayStart)
          let monthly ← select (.sendFees b.monthStart)
          if b.dailyMax < daily + fee then throw ⟨.storeError, "automatic daily fee cap"⟩
          if b.monthlyMax < monthly + fee then throw ⟨.storeError, "automatic monthly fee cap"⟩
          insert (.send ⟨n, expected, fee, now, .sendAttempted⟩)
          write (.latchAuthorized n expected now)
          write (.updateJobStatus n .sendAttempted now)
          commit
      | _, _ => throw ⟨.storeError, "automatic authorization missing"⟩

/-- `reserve_automatic_send`. -/
def reserveAutomaticSend (n : ℤ) (expected : PyStr) (fee now : ℤ) (b : Budget) :
    Code (Option AuthorizedRow) := do
  let expected := expected.strip
  if expected = [] ∨ fee < 1 then throw ⟨.storeError, "invalid automatic send reservation"⟩
  tryCatch (reserveLocked n expected fee now b) fun e => do
    rollback
    throw e
  select (.authorizedRow n)

/-- A save of the size that is confirmed last. -/
def resaveLast (last : Checkpoint) (want : ConfirmedRow) : Code Checkpoint := do
  let sameCore : Prop := last.origin = want.origin ∧ last.root = want.root ∧
    last.txid = want.txid ∧ last.round = want.confirmedRound
  if sameCore ∧ last.network = want.network ∧ last.genesisId = want.genesisId then return last
  else if sameCore ∧ (last.network = [] ∧ last.genesisId = []) ∧
      (want.network ≠ [] ∨ want.genesisId ≠ []) then
    write (.updateNetwork want)
    write (.setLastConfirmed { last with network := want.network, genesisId := want.genesisId })
    commit
    select .lastConfirmedCheckpoint
  else MonadExcept.ofExcept (conflict "confirmed checkpoint conflict")

/-- A save of a size that has a row but is not confirmed last. -/
def resaveRow (existing want : ConfirmedRow) : Code Checkpoint := do
  let sameCore : Prop := existing.origin = want.origin ∧ existing.root = want.root ∧
    existing.txid = want.txid ∧ existing.confirmedRound = want.confirmedRound
  if sameCore ∧ existing.network = want.network ∧ existing.genesisId = want.genesisId then
    select .lastConfirmedCheckpoint
  else if sameCore ∧ (existing.network = [] ∧ existing.genesisId = []) ∧
      (want.network ≠ [] ∨ want.genesisId ≠ []) then
    write (.updateNetwork want)
    write (.setLastConfirmed want.pointer)
    commit
    select .lastConfirmedCheckpoint
  else MonadExcept.ofExcept (conflict "confirmed checkpoint conflict")

/-- `save_confirmed_checkpoint`. -/
def saveConfirmedCheckpoint (a : ConfirmArgs) : Code Checkpoint := do
  let want ← MonadExcept.ofExcept (checkArgs a)
  let last ← select .lastConfirmedCheckpoint
  if last.size ≠ 0 ∧ want.treeSize < last.size then
    MonadExcept.ofExcept (conflict "size not monotonic")
  else if last.size ≠ 0 ∧ want.treeSize = last.size then resaveLast last want
  else
    match ← select (.confirmedRow want.treeSize) with
    | some existing => resaveRow existing want
    | none =>
        let auth ← select (.authorizedRow want.treeSize)
        MonadExcept.ofExcept (checkAuthorized auth want)
        insert (.confirmed want)
        write (.setLastConfirmed want.pointer)
        commit
        select .lastConfirmedCheckpoint

/-! ## Calls -/

inductive Call
  | saveAuthorizedCheckpoint (a : SaveArgs)
  | discardAuthorizedCheckpoint (n : ℤ)
  | reserveAutomaticSend (n : ℤ) (expected : PyStr) (fee now : ℤ) (b : Budget)
  | saveConfirmedCheckpoint (a : ConfirmArgs)

/-- What a call returns. -/
inductive Value
  | authorized (row : AuthorizedRow)
  | none
  | reserved (row : Option AuthorizedRow)
  | confirmed (p : Checkpoint)
  deriving DecidableEq

def Call.program : Call → Code Value
  | .saveAuthorizedCheckpoint a => .authorized <$> AnchorSql.saveAuthorizedCheckpoint a
  | .discardAuthorizedCheckpoint n =>
      (fun _ => .none) <$> AnchorSql.discardAuthorizedCheckpoint n
  | .reserveAutomaticSend n expected fee now b =>
      .reserved <$> AnchorSql.reserveAutomaticSend n expected fee now b
  | .saveConfirmedCheckpoint a => .confirmed <$> AnchorSql.saveConfirmedCheckpoint a

/-- The program with its exceptions as results. -/
def Call.code (call : Call) : Prog schema.sig (Except PyError Value) := call.program.run

/-- The call as one atomic function of the tables. -/
def Call.serial : Call → Eff Anchors Value
  | .saveAuthorizedCheckpoint a => fun d =>
      let run := exec (StoreCalls.saveAuthorizedCheckpoint a) d.store
      (run.1.map .authorized, { d with store := run.2 })
  | .discardAuthorizedCheckpoint n => fun d =>
      let run := exec (StoreCalls.discardAuthorizedCheckpoint n) d.store
      (run.1.map fun _ => .none, { d with store := run.2 })
  | .reserveAutomaticSend n expected fee now b => fun d =>
      let run := exec (StoreCalls.immediate
        (AnchorStore.reserveAutomaticSend n expected fee now b)) d.store
      (run.1.map fun _ => .reserved (run.2.authorizedRow n), { d with store := run.2 })
  | .saveConfirmedCheckpoint a => fun d =>
      let run := exec (Confirmed.saveConfirmedCheckpoint d.store a) d.confirmed
      (run.1.map .confirmed, { d with confirmed := run.2 })

/-! ## The program alone -/

section Solo

variable {d : Anchors}

@[simp] theorem solo_select (q : Query) (s : Solo Anchors) :
    solo (select q) s = (.ok (q.select s.view), s) := rfl

@[simp] theorem solo_write (w : Change) (s : Solo Anchors) :
    solo (write w) s = (.ok (), ⟨s.file, some (schema.change w s.view)⟩) := rfl

@[simp] theorem solo_commit (s : Solo Anchors) : solo commit s = (.ok (), ⟨s.view, none⟩) := rfl

@[simp] theorem solo_rollback (s : Solo Anchors) :
    solo rollback s = (.ok (), ⟨s.file, none⟩) := rfl

theorem solo_insert {i : Insert} {s : Solo Anchors} {d' : Anchors}
    (h : i.run s.view = some d') : solo (insert i) s = (.ok (), ⟨s.file, some d'⟩) := by
  exact alone_insert_some (S := schema) _ h

theorem solo_insert_none {i : Insert} {s : Solo Anchors} (h : i.run s.view = none) :
    solo (insert i) s =
      (.error ⟨.databaseError, "UNIQUE constraint failed"⟩, ⟨s.file, some s.view⟩) :=
  alone_insert_none (S := schema) _ h

/-! The four functions, each with the tables it reads and writes. -/

/-- A save that sets no column changes no row. -/
theorem saveSets_eq_self {existing : AuthorizedRow} {a : SaveArgs}
    (h : ¬SaveArgs.HasSets existing a) (row : AuthorizedRow) : saveSets existing a row = row := by
  simp only [SaveArgs.HasSets, not_or] at h
  obtain ⟨hsubmit, hstate, hexpected, hpolicy, hfv, hlv, hattempted⟩ := h
  simp [saveSets, hsubmit, hstate, hexpected, hpolicy, hfv, hlv, hattempted]

theorem updateAuthorized_of_not_hasSets {existing : AuthorizedRow} {a : SaveArgs}
    (h : ¬SaveArgs.HasSets existing a) (s : Store) :
    AnchorStore.updateAuthorized existing a s = { s with lastAuthorized := existing.treeSize } := by
  have hsame : (fun row : AuthorizedRow =>
      if row.treeSize = a.treeSize then saveSets existing a row else row) = id := by
    funext row
    rw [saveSets_eq_self h, ite_self, id]
  rw [AnchorStore.updateAuthorized, Table.update, hsame, List.map_id]

theorem solo_saveAuthorizedCheckpoint (a : SaveArgs) :
    solo (saveAuthorizedCheckpoint a) ⟨d, none⟩ =
      ((exec (StoreCalls.saveAuthorizedCheckpoint a) d.store).1,
        ⟨{ d with store := (exec (StoreCalls.saveAuthorizedCheckpoint a) d.store).2 }, none⟩) := by
  rw [saveAuthorizedCheckpoint, StoreCalls.saveAuthorizedCheckpoint, solo_bind, solo_ofExcept,
    Eff.exec_bind, Eff.exec_ofExcept]
  cases sendStateRank a.sendState with
  | error e => rfl
  | ok rank =>
      dsimp only
      rw [solo_bind, solo_select, Eff.exec_bind, Eff.exec_reads]
      dsimp only [Query.select, Solo.view, Option.getD]
      cases (d.store.authorizedRow a.treeSize).filter fun row => row.signed ≠ [] with
      | none => rfl
      | some existing =>
          dsimp only
          rw [solo_bind, solo_ofExcept, Eff.exec_bind, Eff.exec_ofExcept]
          cases saveCheck existing a with
          | error e => rfl
          | ok check =>
              cases check with
              | false => rfl
              | true =>
                  by_cases hsets : SaveArgs.HasSets existing a
                  · simp only [hsets, if_true]
                    rfl
                  · simp only [hsets, if_false, if_true]
                    rw [Eff.exec_bind, Eff.exec_modifies, updateAuthorized_of_not_hasSets hsets]
                    rfl

theorem solo_discardAuthorizedCheckpoint (n : ℤ) :
    solo (discardAuthorizedCheckpoint n) ⟨d, none⟩ =
      ((exec (StoreCalls.discardAuthorizedCheckpoint n) d.store).1,
        ⟨{ d with store := (exec (StoreCalls.discardAuthorizedCheckpoint n) d.store).2 }, none⟩) := by
  rw [discardAuthorizedCheckpoint, StoreCalls.discardAuthorizedCheckpoint, solo_bind, solo_select,
    Eff.exec_bind, Eff.exec_reads]
  dsimp only [Query.select, Solo.view, Option.getD]
  cases d.store.authorizedRow n with
  | none => rfl
  | some existing =>
      dsimp only
      rw [solo_bind, solo_ofExcept, Eff.exec_bind, Eff.exec_ofExcept]
      cases sendStateRank existing.sendState with
      | error e => rfl
      | ok rank =>
          dsimp only
          by_cases hlatched : latchedRank ≤ rank
          · rw [if_pos hlatched, if_pos hlatched]
            rfl
          · rw [if_neg hlatched, if_neg hlatched]
            rw [Eff.exec_modifies, StoreCalls.deleteAuthorized, solo_bind, solo_write]
            dsimp only
            rw [solo_bind, solo_select]
            dsimp only [Query.select, Solo.view, Option.getD, schema, Change.onStore]
            by_cases hlast : d.store.lastAuthorized = n
            · rw [if_pos hlast, if_pos hlast]
              rfl
            · rw [if_neg hlast, if_neg hlast]
              rfl

@[simp] theorem solo_beginImmediate : solo beginImmediate ⟨d, none⟩ = (.ok (), ⟨d, some d⟩) := rfl

/-- What the locked part of a reservation did: it committed what the atomic function
returns, or raised with nothing committed. -/
def Reserves (d : Anchors) (r : Except PyError (Unit × Store))
    (x : Except PyError Unit × Solo Anchors) : Prop :=
  match r with
  | .ok (_, s) => x = (.ok (), ⟨{ d with store := s }, none⟩)
  | .error e => ∃ p, x = (.error e, ⟨d, p⟩)

/-- The statements that write a reservation. -/
theorem reserves_insert {n fee now : ℤ} {expected : PyStr} (hsend : d.store.sendRow n = none) :
    Reserves d
      (if d.store.sends.any fun send => send.expectedTxid == expected then
        .error ⟨.databaseError, "UNIQUE constraint failed"⟩
      else
        return ((), updateJob n
          (fun job => { job with status := .sendAttempted, updatedAt := now })
          { d.store with
            sends := d.store.sends ++ [⟨n, expected, fee, now, .sendAttempted⟩]
            authorized :=
              Table.update AuthorizedRow.treeSize n (latchRow expected now)
                d.store.authorized }))
      (solo (do
        insert (.send ⟨n, expected, fee, now, .sendAttempted⟩)
        write (.latchAuthorized n expected now)
        write (.updateJobStatus n .sendAttempted now)
        commit) ⟨d, some d⟩) := by
  have hrow : (d.store.sendRow n).isSome ↔ False := by
    rw [hsend]
    simp
  by_cases hunique : (d.store.sends.any fun send => send.expectedTxid == expected) = true
  · have hinsert : (Insert.send ⟨n, expected, fee, now, .sendAttempted⟩).run d = none :=
      if_pos (Or.inr hunique)
    rw [if_pos hunique, solo_bind, solo_insert_none hinsert]
    exact ⟨_, rfl⟩
  · have hinsert : (Insert.send ⟨n, expected, fee, now, .sendAttempted⟩).run d =
        some { d with store := { d.store with
          sends := d.store.sends ++ [⟨n, expected, fee, now, .sendAttempted⟩] } } :=
      if_neg (not_or.mpr ⟨hrow.mp, hunique⟩)
    rw [if_neg hunique, solo_bind, solo_insert hinsert]
    rfl

theorem reserves_reserveLocked {n fee now : ℤ} {expected : PyStr} {b : Budget}
    (hargs : ¬(expected.strip = [] ∨ fee < 1)) :
    Reserves d (AnchorStore.reserveAutomaticSend n expected fee now b d.store)
      (solo (reserveLocked n expected.strip fee now b) ⟨d, none⟩) := by
  rw [reserveLocked, AnchorStore.reserveAutomaticSend, solo_bind, solo_beginImmediate]
  dsimp only
  rw [if_neg hargs, solo_bind, solo_select]
  dsimp only [Query.select, Solo.view, Option.getD]
  rw [solo_bind, solo_select]
  dsimp only [Query.select, Solo.view, Option.getD]
  rw [solo_bind, solo_select]
  dsimp only [Query.select, Solo.view, Option.getD]
  cases hsend : d.store.sendRow n with
  | some send =>
      dsimp only
      by_cases hconflict : send.expectedTxid ≠ expected.strip ∨ send.fee ≠ fee
      · rw [if_pos hconflict, if_pos hconflict]
        exact ⟨_, rfl⟩
      · rw [if_neg hconflict, if_neg hconflict]
        exact ⟨_, rfl⟩
  | none =>
      dsimp only
      cases d.store.authorizedRow n with
      | none => exact ⟨_, rfl⟩
      | some auth =>
          cases d.store.automationJobRow n with
          | none => exact ⟨_, rfl⟩
          | some job =>
              dsimp only
              by_cases hsigned : auth.signed = []
              · rw [if_pos hsigned, if_pos hsigned]
                exact ⟨_, rfl⟩
              · rw [if_neg hsigned, if_neg hsigned]
                by_cases hstatus : job.status ≠ .authorized
                · rw [if_pos hstatus, if_pos hstatus]
                  exact ⟨_, rfl⟩
                · rw [if_neg hstatus, if_neg hstatus]
                  rw [solo_bind, solo_ofExcept]
                  cases requireUnlatched (some auth) "automatic send already latched" with
                  | error e => exact ⟨_, rfl⟩
                  | ok u =>
                      dsimp only
                      rw [solo_bind, solo_select]
                      dsimp only [Query.select, Solo.view, Option.getD]
                      change Reserves d (if _ then _ else _) _
                      by_cases hhourly : b.hourlyMax ≤ d.store.sendCount b.hourStart
                      · rw [if_pos hhourly, if_pos hhourly]
                        exact ⟨_, rfl⟩
                      · rw [if_neg hhourly, if_neg hhourly, solo_bind, solo_select]
                        dsimp only [Query.select, Solo.view, Option.getD]
                        rw [solo_bind, solo_select]
                        dsimp only [Query.select, Solo.view, Option.getD]
                        by_cases hdaily : b.dailyMax < d.store.sendFees b.dayStart + fee
                        · rw [if_pos hdaily, if_pos hdaily]
                          exact ⟨_, rfl⟩
                        · rw [if_neg hdaily, if_neg hdaily]
                          by_cases hmonthly : b.monthlyMax < d.store.sendFees b.monthStart + fee
                          · rw [if_pos hmonthly, if_pos hmonthly]
                            exact ⟨_, rfl⟩
                          · rw [if_neg hmonthly, if_neg hmonthly]
                            exact reserves_insert hsend

theorem solo_reserveAutomaticSend (n fee now : ℤ) (expected : PyStr) (b : Budget) :
    solo (reserveAutomaticSend n expected fee now b) ⟨d, none⟩ =
      let run := exec (StoreCalls.immediate
        (AnchorStore.reserveAutomaticSend n expected fee now b)) d.store
      (run.1.map fun _ => run.2.authorizedRow n, ⟨{ d with store := run.2 }, none⟩) := by
  rw [reserveAutomaticSend]
  dsimp only
  by_cases hargs : expected.strip = [] ∨ fee < 1
  · have hraised : AnchorStore.reserveAutomaticSend n expected fee now b d.store =
        .error ⟨.storeError, "invalid automatic send reservation"⟩ := by
      rw [AnchorStore.reserveAutomaticSend]
      dsimp only
      rw [if_pos hargs]
      rfl
    rw [if_pos hargs, StoreCalls.exec_immediate, hraised]
    rfl
  · have hlocked : Reserves d _ (solo (reserveLocked n expected.strip fee now b) ⟨d, none⟩) :=
      reserves_reserveLocked hargs
    rw [if_neg hargs, solo_bind, solo_tryCatch, StoreCalls.exec_immediate]
    cases hresult : AnchorStore.reserveAutomaticSend n expected fee now b d.store with
    | ok p =>
        rw [hresult] at hlocked
        rw [show solo (reserveLocked n expected.strip fee now b) ⟨d, none⟩ = _ from hlocked]
        rfl
    | error e =>
        rw [hresult] at hlocked
        obtain ⟨p, hlocked⟩ := hlocked
        rw [hlocked]
        rfl

theorem solo_resaveLast (last : Checkpoint) (want : ConfirmedRow) :
    solo (resaveLast last want) ⟨d, none⟩ =
      ((exec (Confirmed.resaveLast last want) d.confirmed).1,
        ⟨{ d with confirmed := (exec (Confirmed.resaveLast last want) d.confirmed).2 }, none⟩) := by
  rw [resaveLast, Confirmed.resaveLast]
  split
  · rfl
  · split
    · rfl
    · rfl

theorem solo_resaveRow (existing want : ConfirmedRow) :
    solo (resaveRow existing want) ⟨d, none⟩ =
      ((exec (Confirmed.resaveRow existing want) d.confirmed).1,
        ⟨{ d with confirmed := (exec (Confirmed.resaveRow existing want) d.confirmed).2 },
          none⟩) := by
  rw [resaveRow, Confirmed.resaveRow]
  split
  · rfl
  · split
    · rfl
    · rfl

theorem solo_saveConfirmedCheckpoint (a : ConfirmArgs) :
    solo (saveConfirmedCheckpoint a) ⟨d, none⟩ =
      ((exec (Confirmed.saveConfirmedCheckpoint d.store a) d.confirmed).1,
        ⟨{ d with
            confirmed := (exec (Confirmed.saveConfirmedCheckpoint d.store a) d.confirmed).2 },
          none⟩) := by
  rw [saveConfirmedCheckpoint, Confirmed.saveConfirmedCheckpoint, solo_bind, solo_ofExcept,
    Eff.exec_bind, Eff.exec_ofExcept]
  cases checkArgs a with
  | error e => rfl
  | ok want =>
      dsimp only
      rw [solo_bind, solo_select, Eff.exec_bind, Eff.exec_reads]
      dsimp only [Query.select, Solo.view, Option.getD]
      split
      · rfl
      · split
        · exact solo_resaveLast _ want
        · rw [solo_bind, solo_select, Eff.exec_bind, Eff.exec_reads]
          dsimp only [Query.select, Solo.view, Option.getD]
          cases hrow : d.confirmed.row want.treeSize with
          | some existing => exact solo_resaveRow existing want
          | none =>
              dsimp only
              rw [solo_bind, solo_select]
              dsimp only [Query.select, Solo.view, Option.getD]
              rw [solo_bind, solo_ofExcept, Eff.exec_bind, Eff.exec_ofExcept]
              cases checkAuthorized (d.store.authorizedRow want.treeSize) want with
              | error e => rfl
              | ok u =>
                  have hinsert : (Insert.confirmed want).run d =
                      some { d with confirmed := insertRow want d.confirmed } := by
                    rw [Insert.run, hrow]
                    rfl
                  dsimp only
                  rw [solo_bind, solo_insert hinsert]
                  rfl

/-- **The program alone is the atomic call.** -/
theorem alone_code (call : Call) (d : Anchors) :
    alone call.code ⟨d, none⟩ = ((exec call.serial d).1, ⟨(exec call.serial d).2, none⟩) := by
  cases call with
  | saveAuthorizedCheckpoint a =>
      refine (solo_map _ _ _).trans ?_
      rw [solo_saveAuthorizedCheckpoint]
      rfl
  | discardAuthorizedCheckpoint n =>
      refine (solo_map _ _ _).trans ?_
      rw [solo_discardAuthorizedCheckpoint]
      rfl
  | reserveAutomaticSend n expected fee now b =>
      refine (solo_map _ _ _).trans ?_
      rw [solo_reserveAutomaticSend]
      refine Prod.ext ?_ rfl
      change Except.map _ (Except.map _ (exec _ d.store).1) = Except.map _ (exec _ d.store).1
      cases (exec (StoreCalls.immediate (AnchorStore.reserveAutomaticSend n expected fee now b))
        d.store).1 <;> rfl
  | saveConfirmedCheckpoint a =>
      refine (solo_map _ _ _).trans ?_
      rw [solo_saveConfirmedCheckpoint]
      rfl

end Solo

end Signal402.AnchorSql
