import Signal402.Lib.OneShot
import Signal402.Pq.TickPrograms

/-!
# When automatic anchoring posts once

A reservation is a one-shot right: it needs an unlatched row and latches it in
the same transaction, a latched row stays latched with its signed bytes, and a
tick posts only what its own reservation returned.  `Reserved` is the invariant,
`reserveProtocol` the discipline, and both hold of every run in which the row
that `save_authorized_checkpoint` read is still there when it writes
(`Unraced`): the function reads outside its transaction, and another process
may reserve in between.
-/

namespace Signal402.AutoAnchor

open AnchorStore Canary Concurrent

/-- What a tick has of a reservation. -/
inductive ReservePhase
  | free
  | reserved (n : ℤ)
  | ready (n : ℤ) (signed : Bytes)
  deriving DecidableEq

/-- The discipline of a tick: it posts the bytes of the row that it reserved,
and saves a row only as the checks on the row it read allow. -/
def reserveProtocol : Protocol sig ReservePhase where
  allowed φ o :=
    match o with
    | .post n signed => φ = .ready n signed ∧ signed ≠ []
    | .updateAuthorized existing a => saveCheck existing a = .ok true
    | .insertAuthorized existing _ => ∀ row ∈ existing, row.signed = []
    | _ => True
  next φ o r :=
    match o, r with
    | .reserveAutomaticSend n .., .ok _ => .reserved n
    | .post .., _ => .free
    | .authorizedRow n, .ok (some row) =>
        if φ = .reserved n then .ready row.treeSize row.signed else φ
    | _, _ => φ

/-! ## The programs keep to the protocol -/

section Programs

variable {α : Type}

/-- A program that may run from every phase, whatever comes back. -/
def Safe (x : Code α) : Prop :=
  ∀ φ, wpe reserveProtocol x (fun _ _ => True) (fun _ _ => True) φ

theorem quiets_reserveProtocol : Quiets reserveProtocol where
  quiet := by
    intro φ o ho
    cases o <;> trivial
  update h := h
  insert h := h

/-- A POST of the reserved bytes. -/
theorem submitMainnet_wpe {n : ℤ} {signed : Bytes} {Q : ReservePhase → Option PyStr → Prop}
    {E : ReservePhase → PyError → Prop} (hsigned : signed ≠ []) (hQ : ∀ r, Q .free r)
    (hE : ∀ e, E .free e) :
    wpe reserveProtocol (submitMainnet n signed) Q E (.ready n signed) := by
  refine ⟨⟨rfl, hsigned⟩, ?_⟩
  rintro (e | txid)
  · exact hE e
  · exact hQ txid

/-- A reservation returns the row it reserved. -/
theorem reserveAutomaticSend_wpe {n fee now : ℤ} {expected : PyStr} {b : Budget}
    {φ : ReservePhase} {Q : ReservePhase → Option AuthorizedRow → Prop}
    (hnone : ∀ φ, Q φ none)
    (hQ : ∀ row : AuthorizedRow, Q (.ready row.treeSize row.signed) (some row)) :
    wpe reserveProtocol (Canary.reserveAutomaticSend n expected fee now b) Q
      (fun _ _ => True) φ := by
  rw [Canary.reserveAutomaticSend, wpe_bind]
  refine ⟨trivial, ?_⟩
  rintro (e | _)
  · trivial
  · refine ⟨trivial, ?_⟩
    rintro (e | _ | row)
    · trivial
    · exact hnone _
    · change Q (if (ReservePhase.reserved n) = .reserved n then _ else _) (some row)
      rw [if_pos rfl]
      exact hQ row

/-- **A send posts the bytes that its own reservation returned.** -/
theorem postReserved_wpe (row attempted : AuthorizedRow) (expected : PyStr) (now : ℤ) :
    wpe reserveProtocol (postReserved row attempted expected now) (fun _ _ => True)
      (fun _ _ => True) (.ready attempted.treeSize attempted.signed) := by
  have hrecord : Safe (recordSubmitted attempted expected now
      (setAutomaticSendStatus row.treeSize .submitted now)
      (setAutomaticSendStatus row.treeSize .confirmed now)) :=
    quiets_reserveProtocol.recordSubmitted (quiets_reserveProtocol.setAutomaticSendStatus _ _ _)
      (quiets_reserveProtocol.setAutomaticSendStatus _ _ _)
  rw [postReserved]
  split
  · trivial
  next hsigned =>
    rw [not_or] at hsigned
    rw [wpe_bind]
    refine ⟨trivial, ?_⟩
    rintro (e | _)
    · trivial
    change wpe reserveProtocol (tryCatch _ _ >>= _) _ _ (.ready attempted.treeSize attempted.signed)
    rw [wpe_bind, wpe_tryCatch]
    refine submitMainnet_wpe hsigned.1 (fun txid => ?_) fun _ => trivial
    split
    · trivial
    · exact hrecord _

theorem lenient_reserveProtocol : Lenient reserveProtocol where
  toQuiets := quiets_reserveProtocol
  authorizeJob := quiets_reserveProtocol.authorizeJob trivial
  reserveAndPost windows row fee now := by
    refine (quiets_reserveProtocol.invoke _).bind fun expected φ => ?_
    rw [wpe_bind]
    exact reserveAutomaticSend_wpe (fun _ => trivial) fun attempted =>
      postReserved_wpe row attempted expected now

/-- **A tick keeps to the protocol.** -/
theorem Safe.tick (windows : BudgetWindows) (now : ℤ) : Safe (AutoAnchor.tick windows now) :=
  lenient_reserveProtocol.tick windows now

end Programs

/-! ## Sealed rows -/

/-- The row of a tree size is latched and holds these signed bytes. -/
def Sealed (s : Store) (n : ℤ) (signed : Bytes) : Prop :=
  ∃ row, s.authorizedRow n = some row ∧ row.Latched ∧ row.signed = signed ∧ signed ≠ []

/-- A save writes on the row that it read. -/
def Unraced (s : Store) : Op → Prop
  | .updateAuthorized existing a => s.authorizedRow a.treeSize = some existing
  | .insertAuthorized existing a => s.authorizedRow a.treeSize = existing
  | _ => True

instance (s : Store) : (o : Op) → Decidable (Unraced s o)
  | .updateAuthorized existing a =>
      inferInstanceAs (Decidable (s.authorizedRow a.treeSize = some existing))
  | .insertAuthorized existing a =>
      inferInstanceAs (Decidable (s.authorizedRow a.treeSize = existing))
  | .authorizedRow _ | .lastAuthorizedRow | .automationJobRow _ | .lastAutomationJob
  | .budgetUsage _ | .createAutomationJob _ | .setAutomationJobStatus ..
  | .recordAutomationSignAttempt .. | .beginAutomationResign .. | .reserveAutomaticSend ..
  | .setAutomaticSendStatus .. | .post .. | .call _ => .isTrue trivial

/-- A store that keeps the sealed rows of another. -/
def KeepsSealed (s s' : Store) : Prop := ∀ {n signed}, Sealed s n signed → Sealed s' n signed

theorem KeepsSealed.refl (s : Store) : KeepsSealed s s := id

theorem KeepsSealed.of_authorized {s s' : Store} (h : s'.authorized = s.authorized) :
    KeepsSealed s s' := by
  rintro n signed ⟨row, hrow, hsealed⟩
  exact ⟨row, by rw [Store.authorizedRow, h]; exact hrow, hsealed⟩

/-- The checks of a save that read a latched row let no latched row fall back. -/
theorem latched_saveSets {existing row : AuthorizedRow} {a : SaveArgs}
    (hcheck : saveCheck existing a = .ok true) (hread : existing.Latched) (hrow : row.Latched) :
    (saveSets existing a row).Latched := by
  by_cases hempty : a.sendState = .empty
  · rw [AuthorizedRow.Latched, saveSets, if_neg (not_not.mpr hempty)]
    exact hrow
  · obtain ⟨rank, hrank, hle⟩ := existing.latched_iff.mp hread
    rw [AuthorizedRow.latched_iff, saveSets, if_pos hempty]
    obtain ⟨rank', hcheckRank, -⟩ := saveCheck_ok hcheck
    obtain ⟨hrank', hwant⟩ := checkRank_ok hcheckRank
    rw [hrank] at hrank'
    cases hrank'
    obtain ⟨want, hwant, hle'⟩ := hwant hempty
    exact ⟨want, hwant, Nat.le_trans hle hle'⟩

theorem keepsSealed_updateAuthorized {existing : AuthorizedRow} {a : SaveArgs} {s : Store}
    (hcheck : saveCheck existing a = .ok true)
    (hread : ∀ row ∈ s.authorizedRow a.treeSize, row.Latched → existing.Latched) :
    KeepsSealed s (updateAuthorized existing a s) := by
  rintro n signed ⟨row, hn, hlatched, hsigned, hne⟩
  rw [Sealed, authorizedRow_updateAuthorized]
  split
  next heq =>
    subst heq
    have hexisting := hread row hn hlatched
    rw [hn]
    exact ⟨_, rfl, latched_saveSets hcheck hexisting hlatched, hsigned, hne⟩
  next => exact ⟨row, hn, hlatched, hsigned, hne⟩

theorem keepsSealed_insertAuthorized {a : SaveArgs} {s : Store}
    (hfree : ∀ signed, ¬Sealed s a.treeSize signed) : KeepsSealed s (insertAuthorized a s) := by
  rintro n signed ⟨row, hn, hsealed⟩
  rw [Sealed, authorizedRow_insertAuthorized]
  split
  next heq =>
    subst heq
    exact absurd ⟨row, hn, hsealed⟩ (hfree signed)
  next => exact ⟨row, hn, hsealed⟩

theorem keepsSealed_beginAutomationResign {n authorizeAt : ℤ} {requestId params : PyStr}
    {s s' : Store} {u : Unit}
    (h : beginAutomationResign n requestId params authorizeAt s = .ok (u, s')) :
    KeepsSealed s s' := by
  obtain ⟨hunlatched, hauthorized⟩ := authorized_beginAutomationResign h
  rintro m signed ⟨row, hm, hlatched, hsigned, hne⟩
  refine ⟨row, ?_, hlatched, hsigned, hne⟩
  rw [Store.authorizedRow, hauthorized, Table.lookup_erase, if_neg ?_]
  · exact hm
  · rintro rfl
    exact (hunlatched row hm).not_latched hlatched

/-- A reservation seals the row of its tree size, which was not sealed. -/
theorem sealed_reserveAutomaticSend {n fee now : ℤ} {expected : PyStr} {b : Budget}
    {s s' : Store} {u : Unit}
    (h : reserveAutomaticSend n expected fee now b s = .ok (u, s')) :
    (∀ signed, ¬Sealed s n signed) ∧ (∃ signed, Sealed s' n signed) ∧ KeepsSealed s s' := by
  obtain ⟨⟨row, hrow, hunlatched, hsigned⟩, hauthorized⟩ := authorized_reserveAutomaticSend h
  have hnot : ∀ signed, ¬Sealed s n signed := by
    rintro signed ⟨row', hrow', hlatched, -⟩
    rw [hrow] at hrow'
    cases hrow'
    exact hunlatched.not_latched hlatched
  have hrows : ∀ m, s'.authorizedRow m = if m = n then
      (s.authorizedRow n).map (latchRow expected.strip now) else s.authorizedRow m := by
    intro m
    rw [Store.authorizedRow, hauthorized]
    exact Table.lookup_update (f := latchRow expected.strip now) (fun _ => rfl) _ _ _
  refine ⟨hnot, ⟨row.signed, latchRow expected.strip now row, ?_, Or.inl rfl, rfl, hsigned⟩, ?_⟩
  · rw [hrows, if_pos rfl, hrow]
    rfl
  · rintro m signed ⟨row', hm, hsealed⟩
    refine ⟨row', ?_, hsealed⟩
    rw [hrows, if_neg ?_]
    · exact hm
    · rintro rfl
      exact hnot signed ⟨row', hm, hsealed⟩

/-! ## The invariant -/

section Invariant

variable {Tid : Type} {w w' : World Tid} {ph : Tid → Life ReservePhase} {t : Tid}
  {φ : ReservePhase}

/-- The tree size a phase has a reservation for. -/
def ReservePhase.size : ReservePhase → Option ℤ
  | .free => none
  | .reserved n => some n
  | .ready n _ => some n

/-- A living tick has an unused reservation for a tree size. -/
def HasReservation (ph : Tid → Life ReservePhase) (t : Tid) (n : ℤ) : Prop :=
  ∃ φ, ph t = .alive φ ∧ φ.size = some n

/-- A reservation is a one-shot right to post the sealed bytes. -/
structure Reserved (w : World Tid) (ph : Tid → Life ReservePhase) : Prop where
  oneShot : OneShot (HasReservation ph) (fun n => postCount n w.events)
    fun n => ∃ signed, Sealed w.store n signed
  ready : ∀ {t n signed}, ph t = .alive (.ready n signed) → signed ≠ [] →
    Sealed w.store n signed
  posted : ∀ {t n signed}, .posted t n signed ∈ w.events → Sealed w.store n signed

/-- A step that keeps the phases, the posts and the sealed rows. -/
theorem Reserved.mono (h : Reserved w ph) (hstore : KeepsSealed w.store w'.store)
    (hcount : ∀ n, postCount n w'.events = postCount n w.events)
    (hposted : ∀ {t n signed}, .posted t n signed ∈ w'.events →
      .posted t n signed ∈ w.events) : Reserved w' ph where
  oneShot := by
    simp only [hcount]
    refine h.oneShot.mono id ?_
    rintro n ⟨signed, hsealed⟩
    exact ⟨signed, hstore hsealed⟩
  ready hph hne := hstore (h.ready hph hne)
  posted hmem := hstore (h.posted (hposted hmem))

/-- A transaction did what its function does, or raised and changed nothing. -/
theorem transact_cases {f : Store → Except PyError (Unit × Store)} {r : Except PyError Unit}
    (h : transact w f r w') :
    (∃ s, f w.store = .ok ((), s) ∧ w' = { w with store := s }) ∨
      (∃ e, r = .error e) ∧ w' = w := by
  obtain ⟨s, htransact, rfl⟩ := h
  cases htransact with
  | done hf => exact Or.inl ⟨_, hf, rfl⟩
  | refused hf => exact Or.inr ⟨⟨_, rfl⟩, rfl⟩
  | failed e => exact Or.inr ⟨⟨e, rfl⟩, rfl⟩
  | unreported hf e => exact Or.inl ⟨_, hf, rfl⟩

theorem Reserved.transact (h : Reserved w ph) {f : Store → Except PyError (Unit × Store)}
    {r : Except PyError Unit} (htransact : transact w f r w')
    (hf : ∀ {s}, f w.store = .ok ((), s) → KeepsSealed w.store s) : Reserved w' ph := by
  rcases transact_cases htransact with ⟨s, hs, rfl⟩ | ⟨-, rfl⟩
  · exact h.mono (hf hs) (fun _ => rfl) id
  · exact h

theorem Reserved.save (h : Reserved w ph) {n : ℤ} {f : Store → Store}
    {r : Except PyError Unit} (hsave : save w t n f r w')
    (hf : KeepsSealed w.store (f w.store)) : Reserved w' ph := by
  rcases save_cases hsave with ⟨s, rfl, rfl⟩ | ⟨-, rfl⟩
  · exact h.mono hf (fun _ => postCount_saved) (by simp)
  · exact h.mono (KeepsSealed.refl _) (fun _ => postCount_saved) (by simp)

variable [DecidableEq Tid]

theorem HasReservation.of_update {φ : ReservePhase} {t' : Tid} {n : ℤ}
    (h : HasReservation (Function.update ph t (.alive φ)) t' n) :
    t' = t ∧ φ.size = some n ∨ t' ≠ t ∧ HasReservation ph t' n := by
  obtain ⟨φ', hφ', hn⟩ := h
  rcases Life.update_eq_alive.mp hφ' with ⟨rfl, rfl⟩ | ⟨hne, hold⟩
  · exact Or.inl ⟨rfl, hn⟩
  · exact Or.inr ⟨hne, φ', hold, hn⟩

/-- A tick reserves. -/
theorem Reserved.reserve (h : Reserved w ph) {s : Store} {n fee now : ℤ} {expected : PyStr}
    {b : Budget} (hs : reserveAutomaticSend n expected fee now b w.store = .ok ((), s)) :
    Reserved { w with store := s } (Function.update ph t (.alive (.reserved n))) := by
  obtain ⟨hnot, hsealed, hkeeps⟩ := sealed_reserveAutomaticSend hs
  refine ⟨?_, fun hph hne => ?_, fun hmem => hkeeps (h.posted hmem)⟩
  · refine h.oneShot.take (t := t) (k := n) (fun ⟨signed, hold⟩ => hnot signed hold)
      (fun hhas => ?_) (fun ⟨signed, hold⟩ => ⟨signed, hkeeps hold⟩) hsealed
    rcases hhas.of_update with ⟨rfl, hn⟩ | ⟨-, hold⟩
    · exact Or.inr ⟨rfl, (Option.some_inj.mp hn).symm⟩
    · exact Or.inl hold
  · rcases Life.update_eq_alive.mp hph with ⟨-, heq⟩ | ⟨-, hold⟩
    · cases heq
    · exact hkeeps (h.ready hold hne)

/-- A tick reads the row that it reserved. -/
theorem Reserved.read (h : Reserved w ph) {row : AuthorizedRow}
    (ht : ph t = .alive (.reserved row.treeSize))
    (hrow : w.store.authorizedRow row.treeSize = some row) :
    Reserved w (Function.update ph t (.alive (.ready row.treeSize row.signed))) := by
  refine ⟨h.oneShot.mono (fun hhas => ?_) id, fun hph hne => ?_, h.posted⟩
  · rcases hhas.of_update with ⟨rfl, hn⟩ | ⟨-, hold⟩
    · exact ⟨_, ht, hn⟩
    · exact hold
  · rcases Life.update_eq_alive.mp hph with ⟨-, heq⟩ | ⟨-, hold⟩
    · cases heq
      obtain ⟨⟨signed, row', hrow', hlatched, hsigned, -⟩, -⟩ :=
        h.oneShot.held ⟨_, ht, rfl⟩
      rw [hrow] at hrow'
      cases hrow'
      exact ⟨row, hrow, hlatched, rfl, hne⟩
    · exact h.ready hold hne

/-- A tick posts. -/
theorem Reserved.post (h : Reserved w ph) {n : ℤ} {signed : Bytes}
    (ht : ph t = .alive (.ready n signed)) (hsigned : signed ≠ []) :
    Reserved { w with events := .posted t n signed :: w.events }
      (Function.update ph t (.alive .free)) := by
  refine ⟨?_, fun hph hne => ?_, fun hmem => ?_⟩
  · refine h.oneShot.spend (t := t) (k := n) ⟨_, ht, rfl⟩ (fun hhas => ?_) ?_ fun hn => ?_
    · rcases hhas.of_update with ⟨-, hn⟩ | ⟨hne, hold⟩
      · cases hn
      · exact ⟨hold, fun heq => hne heq.1⟩
    · rw [postCount_posted, if_pos rfl]
    · rw [postCount_posted, if_neg (Ne.symm hn), Nat.add_zero]
  · rcases Life.update_eq_alive.mp hph with ⟨-, heq⟩ | ⟨-, hold⟩
    · cases heq
    · exact h.ready hold hne
  · rcases List.mem_cons.mp hmem with heq | hmem
    · cases heq
      exact h.ready ht hsigned
    · exact h.posted hmem

/-- **Every operation of a tick keeps reservations one-shot.** -/
theorem Reserved.op {o : Op} {r : o.Res} (h : Reserved w ph) (ht : ph t = .alive φ)
    (hallowed : reserveProtocol.allowed φ o) (hguard : Unraced w.store o)
    (hexec : Canary.exec w t o r w') :
    Reserved w' (Function.update ph t (.alive (reserveProtocol.next φ o r))) := by
  have stay : ∀ {w'}, Reserved w' ph → Reserved w' (Function.update ph t (.alive φ)) := by
    intro w' h'
    rwa [Life.update_same ht]
  have quiet : ∀ {f : Store → Except PyError (Unit × Store)} {r : Except PyError Unit},
      Canary.transact w f r w' →
        (∀ {s}, f w.store = .ok ((), s) → s.authorized = w.store.authorized) →
        Reserved w' (Function.update ph t (.alive φ)) := fun htransact hf =>
    stay (h.transact htransact fun hs => KeepsSealed.of_authorized (hf hs))
  cases o with
  | authorizedRow n =>
      obtain ⟨hr, rfl⟩ := hexec
      rcases hr with rfl | ⟨e, rfl⟩
      · cases hfound : w'.store.authorizedRow n with
        | none => exact stay h
        | some row =>
            obtain rfl : row.treeSize = n := Table.lookup_key hfound
            change Reserved w' (Function.update ph t (.alive
              (if φ = .reserved row.treeSize then _ else _)))
            split
            next heq => exact h.read (heq ▸ ht) hfound
            next => exact stay h
      · exact stay h
  | lastAuthorizedRow =>
      obtain ⟨-, rfl⟩ := hexec
      exact stay h
  | automationJobRow n =>
      obtain ⟨-, rfl⟩ := hexec
      exact stay h
  | lastAutomationJob =>
      obtain ⟨-, rfl⟩ := hexec
      exact stay h
  | budgetUsage b =>
      obtain ⟨-, rfl⟩ := hexec
      exact stay h
  | updateAuthorized existing a =>
      refine stay (h.save hexec (keepsSealed_updateAuthorized hallowed fun row hrow => ?_))
      cases Option.some_inj.mp (hrow.symm.trans hguard)
      exact id
  | insertAuthorized existing a =>
      refine stay (h.save hexec (keepsSealed_insertAuthorized ?_))
      rintro signed ⟨row, hrow, -, hsigned, hne⟩
      exact hne (hsigned.symm.trans (hallowed row (hguard ▸ hrow)))
  | createAutomationJob job => exact quiet hexec authorized_createAutomationJob
  | setAutomationJobStatus n status now => exact quiet hexec authorized_setAutomationJobStatus
  | recordAutomationSignAttempt n now => exact quiet hexec authorized_recordAutomationSignAttempt
  | beginAutomationResign n requestId params authorizeAt =>
      exact stay (h.transact hexec keepsSealed_beginAutomationResign)
  | reserveAutomaticSend n expected fee now b =>
      rcases transact_cases hexec with ⟨s, hs, rfl⟩ | ⟨⟨e, rfl⟩, rfl⟩
      · cases r with
        | ok _ => exact h.reserve hs
        | error e => exact stay (h.mono (sealed_reserveAutomaticSend hs).2.2 (fun _ => rfl) id)
      · exact stay h
  | setAutomaticSendStatus n status now => exact quiet hexec authorized_setAutomaticSendStatus
  | post n signed =>
      obtain ⟨rfl, hsigned⟩ := hallowed
      obtain rfl := hexec
      exact h.post ht hsigned
  | call c =>
      obtain rfl := hexec
      exact stay h

/-- Ticks of the controller. -/
def ticks (windows : BudgetWindows) (p : Prog sig (Except PyError (Option TickStatus))) : Prop :=
  ∃ now, p = (tick windows now).run

theorem reserved_invariant (store : Store) :
    (system Unraced Tid store).Invariant reserveProtocol .free Reserved where
  init :=
    { oneShot :=
        { held := by rintro t n ⟨φ, hφ, -⟩; cases hφ
          spent := fun h => absurd rfl h }
      ready := fun h => by cases h
      posted := fun h => by cases h }
  op h ht hallowed hexec := h.op ht hallowed hexec.1 hexec.2
  spawn := by
    intro w ph t h ht
    refine ⟨h.oneShot.mono (fun hhas => ?_) id, fun hph hne => ?_, h.posted⟩
    · rcases hhas.of_update with ⟨-, hn⟩ | ⟨-, hold⟩
      · cases hn
      · exact hold
    · rcases Life.update_eq_alive.mp hph with ⟨-, heq⟩ | ⟨-, hold⟩
      · cases heq
      · exact h.ready hold hne
  crash := by
    rintro w ph q w' h rfl
    refine ⟨h.oneShot.mono ?_ id, fun hph hne => h.ready (Life.alive_of_kill hph) hne, h.posted⟩
    rintro t n ⟨φ, hφ, hn⟩
    exact ⟨φ, Life.alive_of_kill hφ, hn⟩
  env := by
    rintro w ph w' h rfl
    exact h

/-- **When automatic anchoring posts once.**  In a run whose saves all write on
the row they read, ticks post at most once for a tree size, and what they post
is what the latched row of that size holds. -/
theorem automatic_posts_once {windows : BudgetWindows} {store : Store}
    {c : (system Unraced Tid store).Config (Except PyError (Option TickStatus))}
    (h : (system Unraced Tid store).Reachable (ticks windows) c) :
    (∀ n, postCount n c.world.events ≤ 1) ∧
      ∀ t n signed, .posted t n signed ∈ c.world.events → Sealed c.world.store n signed := by
  have hticks : ∀ p, ticks windows p → wp reserveProtocol p (fun _ _ => True) .free := by
    rintro _ ⟨now, rfl⟩
    exact wp_mono (Safe.tick windows now .free) fun _ _ _ => trivial
  obtain ⟨ph, hw, -⟩ := h.phases (reserved_invariant store) hticks
  exact ⟨fun n => hw.oneShot.used_le_one n, fun t n signed hmem => hw.posted hmem⟩

end Invariant

/-! ## Two runs -/

/-- A store before the first anchor. -/
def emptyStore : Store := ⟨[], [], [], 0⟩

/-- The budget windows in January and February of 1970. -/
def winter : BudgetWindows where
  hour now := now / 3600 * 3600
  day now := now / 86400 * 86400
  month now := if now < 31 * 86400 then 0 else 31 * 86400

/-- A checkpoint of a log of 1000 leaves. -/
def thousand : Identity where
  treeSize := 1000
  origin := "402signal.com/pq/log/mainnet-v1"
  root := "6e340b9cffb37a989ca544e6bb780a2c78901d3fb33738768511a30617afa01d"
  checkpoint := "note of 1000"

/-- A later checkpoint. -/
def twoThousand : Identity where
  treeSize := 2000
  origin := "402signal.com/pq/log/mainnet-v1"
  root := "96a296d224f285c67bee93c30f8a309157f0daa35dc5b87e410b78630a09cfc7"
  checkpoint := "note of 2000"

/-- The calls of a tick whose log is at `ident`: nothing out of the modules fails,
and the signer returns `blob`, whose transaction is `txid`. -/
def calm (ident : Identity) (confirmed : Confirmed) (requestId : PyStr) (blob : UInt8) (txid : PyStr) :
    Outcomes where
  call
    | .accountBalance => .ok 5000000
    | .rejectUnsendablePolicy row now =>
        if now - row.at' ≤ snapshotMaxAgeS then .ok ()
        else .error ⟨.canaryError, "stale snapshot"⟩
    | .snapshotFresh .. | .policyParams _ | .humanGates | .automaticGates | .configurationGate
    | .automationCheckpointIdentity _ => .ok ()
    | .canonicalFee _ | .draftFee .. => .ok minFee
    | .signedTxnTxid _ => .ok txid
    | .fetchConfirmedTxn _ | .automaticEnabled | .tickLock | .retryReady ..
    | .confirmationPathVerified => .ok true
    | .verifyFetchedAnchor row => .ok row.expectedTxid
    | .lastConfirmedCheckpoint => .ok confirmed
    | .saveConfirmedCheckpoint row txid _ => .ok ⟨row.treeSize, row.root, txid⟩
    | .requestSigned .. => .ok ⟨[blob], "policy", 1, 1001⟩
    | .logSize => .ok ident.treeSize
    | .automationObserve .. => .ok 0
    | .currentCheckpointIdentity => .ok ident
    | .trustedParams => .ok "\x7b\x7d"
    | .freshRequestId => .ok requestId
  post := .ok (some txid)

/-- A tick with the store to itself posts once. -/
theorem automatic_posts_once_run :
    ∃ c : (system Unraced ℕ emptyStore).Config (Except PyError (Option TickStatus)),
      (system Unraced ℕ emptyStore).Reachable (ticks winter) c ∧
        postCount 1000 c.world.events = 1 ∧ ∀ n, postCount n c.world.events ≤ 1 := by
  have h : (system Unraced ℕ emptyStore).Reachable (ticks winter)
      ⟨(system Unraced ℕ emptyStore).init, fun _ => .unborn⟩ := .refl
  replace h := h.spawn (0 : ℕ) rfl ⟨1000000, rfl⟩
  replace h := turn h 0 (calm thousand ⟨0, [], []⟩ "r0" 0 "T0") 60 rfl
  exact ⟨_, h, by decide +kernel, (automatic_posts_once h).1⟩

/-- A tick that signs again for a stale row is held up between the read and the
write of its save.  Another tick signs and posts meanwhile, and the write then
takes the latch off its row.  When the reservation has been pruned and a third
tick, held up since before the first job, creates the job anew, both blobs have
been posted. -/
theorem automatic_posts_twice :
    ¬∀ c : (system (fun _ _ => True) ℕ emptyStore).Config (Except PyError (Option TickStatus)),
      (system (fun _ _ => True) ℕ emptyStore).Reachable (ticks winter) c →
        ∀ n, postCount n c.world.events ≤ 1 := by
  have h : (system (fun _ _ => True) ℕ emptyStore).Reachable (ticks winter)
      ⟨(system (fun _ _ => True) ℕ emptyStore).init, fun _ => .unborn⟩ := .refl
  -- tick 0 stops before it creates a job; tick 1 creates it, and stops once it is authorized
  replace h := h.spawn (0 : ℕ) rfl ⟨1000000, rfl⟩
  replace h := turn h 0 (calm thousand ⟨0, [], []⟩ "r0" 0 "T0") 17 rfl
  replace h := h.spawn (1 : ℕ) rfl ⟨1000000, rfl⟩
  replace h := turn h 1 (calm thousand ⟨0, [], []⟩ "r1" 1 "T1") 29 rfl
  -- tick 2 finds its row stale, signs again, and reads that there is no row
  replace h := h.spawn (2 : ℕ) rfl ⟨1000100, rfl⟩
  replace h := turn h 2 (calm thousand ⟨0, [], []⟩ "r2" 2 "T2") 26 rfl
  -- tick 3 signs, reserves, posts and confirms; tick 2 then replaces its row
  replace h := h.spawn (3 : ℕ) rfl ⟨1000150, rfl⟩
  replace h := turn h 3 (calm thousand ⟨0, [], []⟩ "r3" 3 "T3") 43 rfl
  replace h := turn h 2 (calm thousand ⟨0, [], []⟩ "r2" 2 "T2") 2 rfl
  -- 41 days later tick 4 anchors a larger tree, which prunes the job and its reservation
  replace h := h.spawn (4 : ℕ) rfl ⟨1000150 + 41 * 86400, rfl⟩
  replace h := turn h 4 (calm twoThousand ⟨1000, thousand.root, "T3"⟩ "r4" 4 "T4") 53 rfl
  -- tick 0 creates the job anew, and tick 2 goes on
  replace h := turn h 0 (calm thousand ⟨0, [], []⟩ "r0" 0 "T0") 1 rfl
  replace h := turn h 2 (calm thousand ⟨0, [], []⟩ "r2" 2 "T2") 11 rfl
  intro hone
  have htwice := hone _ h 1000
  revert htwice
  decide +kernel

end Signal402.AutoAnchor
