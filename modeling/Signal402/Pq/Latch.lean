import Signal402.Pq.StoreCalls

/-!
# The authorization latch

A row that is signed and at `SEND_ATTEMPTED` or later is never deleted, and what
it authorizes never changes, whatever calls follow (`authorization_latch`).

* `Kept` — what a latched row keeps: its signed bytes, its checkpoint, its
  policy, an expected txid once it has one, and the rank of its send state.
* `Effect.keepsLatched` — the step lemma, by cases on what the call did.
-/

namespace Signal402.StoreCalls

open AnchorStore

/-- The row is signed and at `SEND_ATTEMPTED` or later. -/
def SignedLatched (row : AuthorizedRow) : Prop := row.Latched ∧ row.signed ≠ []

/-- The rank of a row's send state; unknown states have none. -/
def RankLe (row row' : AuthorizedRow) : Prop :=
  ∀ rank, sendStateRank row.sendState = .ok rank →
    ∃ rank', sendStateRank row'.sendState = .ok rank' ∧ rank ≤ rank'

/-- What a latched row keeps. -/
structure Kept (row row' : AuthorizedRow) : Prop where
  signed : row'.signed = row.signed
  origin : row'.origin = row.origin
  root : row'.root = row.root
  checkpoint : row'.checkpoint = row.checkpoint
  feePolicy : row'.feePolicy = row.feePolicy
  fv : row'.fv = row.fv
  lv : row'.lv = row.lv
  expectedTxid : row.expectedTxid ≠ [] → row'.expectedTxid = row.expectedTxid
  rank : RankLe row row'

theorem Kept.refl (row : AuthorizedRow) : Kept row row where
  signed := rfl
  origin := rfl
  root := rfl
  checkpoint := rfl
  feePolicy := rfl
  fv := rfl
  lv := rfl
  expectedTxid _ := rfl
  rank rank h := ⟨rank, h, le_rfl⟩

theorem Kept.trans {row row' row'' : AuthorizedRow} (h : Kept row row') (h' : Kept row' row'') :
    Kept row row'' where
  signed := h'.signed.trans h.signed
  origin := h'.origin.trans h.origin
  root := h'.root.trans h.root
  checkpoint := h'.checkpoint.trans h.checkpoint
  feePolicy := h'.feePolicy.trans h.feePolicy
  fv := h'.fv.trans h.fv
  lv := h'.lv.trans h.lv
  expectedTxid hne := by
    have heq := h.expectedTxid hne
    exact (h'.expectedTxid (heq ▸ hne)).trans heq
  rank rank hrank := by
    obtain ⟨rank', hrank', hle⟩ := h.rank rank hrank
    obtain ⟨rank'', hrank'', hle'⟩ := h'.rank rank' hrank'
    exact ⟨rank'', hrank'', Nat.le_trans hle hle'⟩

theorem Kept.signedLatched {row row' : AuthorizedRow} (h : Kept row row')
    (hrow : SignedLatched row) : SignedLatched row' := by
  obtain ⟨rank, hrank, hle⟩ := row.latched_iff.mp hrow.1
  obtain ⟨rank', hrank', hle'⟩ := h.rank rank hrank
  exact ⟨row'.latched_iff.mpr ⟨rank', hrank', Nat.le_trans hle hle'⟩, h.signed ▸ hrow.2⟩

/-! ## The step lemma -/

/-- **A save on a latched row keeps what it authorizes.** -/
theorem kept_saveSets {existing : AuthorizedRow} {a : SaveArgs}
    (hcheck : saveCheck existing a = .ok true) (hlatched : existing.Latched) :
    Kept existing (saveSets existing a existing) where
  signed := rfl
  origin := rfl
  root := rfl
  checkpoint := rfl
  feePolicy := if_neg fun h => h.2 hlatched
  fv := if_neg fun h => h.2 hlatched
  lv := if_neg fun h => h.2 hlatched
  expectedTxid hne := by
    obtain ⟨rank, hrank, himmutable⟩ := saveCheck_ok hcheck
    obtain ⟨rank', hrank', hle⟩ := existing.latched_iff.mp hlatched
    rw [(checkRank_ok hrank).1] at hrank'
    cases hrank'
    rw [if_pos hle] at himmutable
    by_cases hwant : a.expectedTxid = []
    · exact if_neg (not_not.mpr hwant)
    · exact (if_pos hwant).trans (expectedTxid_of_checkImmutable himmutable.1 hwant hne)
  rank rank hrank := by
    obtain ⟨rank', hcheckRank, -⟩ := saveCheck_ok hcheck
    obtain ⟨hrank', hwant⟩ := checkRank_ok hcheckRank
    rw [hrank] at hrank'
    cases hrank'
    by_cases hempty : a.sendState = .empty
    · refine ⟨rank, ?_, le_rfl⟩
      rwa [saveSets, if_neg (not_not.mpr hempty)]
    · obtain ⟨want, hrank', hle⟩ := hwant hempty
      refine ⟨want, ?_, hle⟩
      rwa [saveSets, if_pos hempty]

/-- A store that keeps every signed and latched row of another. -/
def KeepsLatched (s s' : Store) : Prop :=
  ∀ n row, s.authorizedRow n = some row → SignedLatched row →
    ∃ row', s'.authorizedRow n = some row' ∧ Kept row row'

theorem KeepsLatched.of_authorized {s s' : Store} (h : s'.authorized = s.authorized) :
    KeepsLatched s s' := by
  intro n row hrow _
  refine ⟨row, ?_, Kept.refl row⟩
  rw [Store.authorizedRow, h]
  exact hrow

theorem KeepsLatched.refl (s : Store) : KeepsLatched s s := .of_authorized rfl

theorem KeepsLatched.trans {s s' s'' : Store} (h : KeepsLatched s s') (h' : KeepsLatched s' s'') :
    KeepsLatched s s'' := by
  intro n row hrow hlatched
  obtain ⟨row', hrow', hkept⟩ := h n row hrow hlatched
  obtain ⟨row'', hrow'', hkept'⟩ := h' n row' hrow' (hkept.signedLatched hlatched)
  exact ⟨row'', hrow'', hkept.trans hkept'⟩

/-- Deleting a row before `SEND_ATTEMPTED` keeps the latched ones. -/
theorem KeepsLatched.erase {s s' : Store} {n : ℤ}
    (hunlatched : ∀ row, s.authorizedRow n = some row → row.Unlatched)
    (h : s'.authorized = Table.erase AuthorizedRow.treeSize n s.authorized) :
    KeepsLatched s s' := by
  intro m row hrow hlatched
  refine ⟨row, ?_, Kept.refl row⟩
  rw [Store.authorizedRow, h, Table.lookup_erase, if_neg ?_]
  · exact hrow
  · rintro rfl
    exact (hunlatched row hrow).not_latched hlatched.1

/-- A reservation latches a row that was not latched. -/
theorem KeepsLatched.latch {s s' : Store} {n now : ℤ} {expected : PyStr}
    (hunlatched : ∀ row, s.authorizedRow n = some row → row.Unlatched)
    (h : s'.authorized = Table.update AuthorizedRow.treeSize n (latchRow expected now)
      s.authorized) : KeepsLatched s s' := by
  intro m row hrow hlatched
  refine ⟨row, ?_, Kept.refl row⟩
  rw [Store.authorizedRow, h,
    Table.lookup_update (f := latchRow expected now) (fun _ => rfl), if_neg ?_]
  · exact hrow
  · rintro rfl
    exact (hunlatched row hrow).not_latched hlatched.1

/-- **Every call keeps the signed and latched rows.** -/
theorem Effect.keepsLatched {s s' : Store} {call : Call} (h : Effect s call s') :
    KeepsLatched s s' := by
  cases h with
  | agreed a => exact .refl s
  | missing n => exact .refl s
  | updated hexisting hcheck =>
      intro n row hrow hlatched
      rw [authorizedRow_updateAuthorized]
      split
      next heq =>
        subst heq
        rw [hrow] at hexisting
        cases hexisting
        rw [hrow]
        exact ⟨_, rfl, kept_saveSets hcheck hlatched.1⟩
      next => exact ⟨row, hrow, Kept.refl row⟩
  | inserted hunsigned =>
      intro n row hrow hlatched
      rw [authorizedRow_insertAuthorized, if_neg ?_]
      · exact ⟨row, hrow, Kept.refl row⟩
      · rintro rfl
        exact hlatched.2 (hunsigned row hrow)
  | discarded hunlatched => exact .erase hunlatched rfl
  | created h => exact .of_authorized (authorized_createAutomationJob h)
  | jobStatusSet _ h => exact .of_authorized (authorized_setAutomationJobStatus h)
  | signAttempted h => exact .of_authorized (authorized_recordAutomationSignAttempt h)
  | resigned h =>
      obtain ⟨hunlatched, hauthorized⟩ := authorized_beginAutomationResign h
      exact .erase hunlatched hauthorized
  | reserved h =>
      obtain ⟨⟨row, hrow, hunlatched, -⟩, hauthorized⟩ := authorized_reserveAutomaticSend h
      refine .latch (fun row' hrow' => ?_) hauthorized
      rw [hrow] at hrow'
      cases hrow'
      exact hunlatched
  | sendStatusSet _ h => exact .of_authorized (authorized_setAutomaticSendStatus h)

theorem Transition.Valid.keepsLatched {t : Transition} (h : t.Valid) :
    KeepsLatched t.before t.after := by
  rcases h.outcome with ⟨-, hafter⟩ | ⟨-, heffect⟩
  · exact .of_authorized (congrArg Store.authorized hafter)
  · exact heffect.keepsLatched

/-- **The authorization latch.**  A row that is signed and latched is there after
any calls, with what it authorizes and at no lower rank; and a call that raises
leaves it exactly as it is. -/
theorem authorization_latch {s s' : Store} {ts : List Transition} (h : Run s ts s') (n : ℤ)
    (row : AuthorizedRow) (hrow : s.authorizedRow n = some row) (hlatched : SignedLatched row) :
    (∃ row', s'.authorizedRow n = some row' ∧ Kept row row') ∧
      ∀ t ∈ ts, (∃ e, t.result = .error e) →
        t.after.authorizedRow n = t.before.authorizedRow n := by
  constructor
  · refine h.preserves (K := fun s => ∃ row', s.authorizedRow n = some row' ∧ Kept row row')
      ?_ ⟨row, hrow, Kept.refl row⟩
    rintro t - ht ⟨row', hrow', hkept⟩
    obtain ⟨row'', hrow'', hkept'⟩ := ht.keepsLatched n row' hrow' (hkept.signedLatched hlatched)
    exact ⟨row'', hrow'', hkept.trans hkept'⟩
  · rintro t hmem ⟨e, hraised⟩
    rw [(h.valid t hmem).unchanged hraised]

/-- A row whose POST was attempted. -/
def attemptedRow : AuthorizedRow where
  treeSize := 1
  origin := "402signal.com/pq/log/mainnet-v1"
  root := "6e340b9cffb37a989ca544e6bb780a2c78901d3fb33738768511a30617afa01d"
  checkpoint := "note"
  requestId := "request"
  signed := [1]
  at' := 1000
  submitted := false
  txid := []
  sendState := .sendAttempted
  expectedTxid := "TXID"
  feePolicy := "policy"
  fv := 1
  lv := 1001
  sendAttemptedAt := 1000

/-- The row is marked submitted, and is then not discarded. -/
theorem authorization_latch_run :
    let s : Store := ⟨[attemptedRow], [], [], 1⟩
    let calls : List Call := [.saveAuthorizedCheckpoint
      { treeSize := 1, origin := [], root := [], checkpoint := "note", requestId := [],
        signed := [], at' := 2000, submitted := true, txid := "TXID",
        sendState := .submitted }, .discardAuthorizedCheckpoint 1]
    ∃ row, (after s calls).authorizedRow 1 = some row ∧ Kept attemptedRow row :=
  (authorization_latch (run_transitions _ _) 1 attemptedRow rfl ⟨Or.inl rfl, by decide⟩).1

end Signal402.StoreCalls
