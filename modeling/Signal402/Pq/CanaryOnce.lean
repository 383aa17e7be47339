import Signal402.Lib.OneShot
import Signal402.Pq.Canary

/-!
# When the human canary posts once

`send_durable` marks the stored row before its POST, but the write of the mark
is also accepted on a row that is already marked, so two calls that hold the
same early row both POST (`canary_posts_twice`).

In runs where every mark is written on a row that is not latched yet
(`MarksUnlatched`), a mark is a one-shot right: `canarySend` keeps to the
protocol of `sendProtocol`, and the invariant `Marked` says that the rows of a
tree size never change their anchor, and that at most one call for it has
marked or posted.
-/

namespace Signal402.Canary

open AnchorStore Concurrent

/-- Two rows of one anchor: they differ in what the saves write only. -/
def SameAnchor (r r' : AuthorizedRow) : Prop :=
  r.treeSize = r'.treeSize ∧ r.checkpoint = r'.checkpoint ∧ r.root = r'.root ∧
    r.signed = r'.signed

instance (r r' : AuthorizedRow) : Decidable (SameAnchor r r') :=
  inferInstanceAs (Decidable (_ ∧ _ ∧ _ ∧ _))

theorem SameAnchor.refl (r : AuthorizedRow) : SameAnchor r r := ⟨rfl, rfl, rfl, rfl⟩

theorem SameAnchor.trans {r r' r'' : AuthorizedRow} (h : SameAnchor r r')
    (h' : SameAnchor r' r'') : SameAnchor r r'' :=
  ⟨h.1.trans h'.1, h.2.1.trans h'.2.1, h.2.2.1.trans h'.2.2.1, h.2.2.2.trans h'.2.2.2⟩

theorem SameAnchor.symm {r r' : AuthorizedRow} (h : SameAnchor r r') : SameAnchor r' r :=
  ⟨h.1.symm, h.2.1.symm, h.2.2.1.symm, h.2.2.2.symm⟩

/-- Arguments that save a row under its own anchor, with a latched state. -/
structure Resaves (a : SaveArgs) (row : AuthorizedRow) : Prop where
  anchor : SameAnchor (newRow a) row
  latched : (newRow a).Latched

/-- A call that read a row, and whether its mark is written and not used yet;
`broken` is where a read that no run gives leads. -/
inductive SendPhase
  | start
  | holding (row : AuthorizedRow) (marked : Bool)
  | broken

/-- The discipline of the sender: it marks under the anchor it read, and posts
with a mark of its own. -/
def sendProtocol : Protocol sig SendPhase where
  allowed φ o :=
    match φ, o with
    | .broken, _ => True
    | _, .authorizedRow _ => True
    | _, .call _ => True
    | .holding row _, .updateAuthorized _ a => Resaves a row
    | .holding row _, .insertAuthorized _ a => Resaves a row ∧ a.sendState ≠ .sendAttempted
    | .holding row marked, .post n _ => marked = true ∧ n = row.treeSize
    | _, _ => False
  next φ o r :=
    match φ, o, r with
    | .start, .authorizedRow n, .ok (some row) =>
        if row.treeSize = n then .holding row false else .broken
    | .holding row marked, .authorizedRow n, .ok none =>
        if n = row.treeSize then .broken else .holding row marked
    | .holding row marked, .authorizedRow n, .ok (some row') =>
        if n = row.treeSize ∧ ¬SameAnchor row' row then .broken else .holding row marked
    | .holding row marked, .updateAuthorized _ a, .ok _ =>
        .holding row (marked || a.sendState = .sendAttempted)
    | .holding row _, .post _ _, _ => .holding row false
    | φ, _, _ => φ

/-! ## The programs keep to the protocol -/

section Programs

variable {α : Type} {Q : SendPhase → α → Prop} {E : SendPhase → PyError → Prop}
  {row row' : AuthorizedRow} {m : Bool}

/-- `Q` holds wherever a broken read leads. -/
def Brittle (Q : SendPhase → α → Prop) : Prop := ∀ a, Q .broken a

theorem wpe_broken {x : Code α} (hQ : Brittle Q) (hE : Brittle E) :
    wpe sendProtocol x Q E .broken := by
  refine wp_of_absorbing (fun o => ?_) (fun o r => ?_) _ _ ?_
  · cases o <;> trivial
  · cases o <;> rfl
  · rintro (e | a)
    · exact hE e
    · exact hQ a

theorem brittle_wpe {β : Type} {f : β → Code α} (hQ : Brittle Q) (hE : Brittle E) :
    Brittle fun φ b => wpe sendProtocol (f b) Q E φ := fun _ => wpe_broken hQ hE

theorem authorizedAt_wpe {Q : SendPhase → Option AuthorizedRow → Prop} {n : ℤ}
    (hn : n = row.treeSize)
    (hQ : ∀ r, SameAnchor r row → Q (.holding row m) (some r)) (hE : ∀ e, E (.holding row m) e)
    (hQb : Brittle Q) : wpe sendProtocol (authorizedAt n) Q E (.holding row m) := by
  refine ⟨trivial, ?_⟩
  rintro (e | _ | r)
  · exact hE e
  · change Q (if n = row.treeSize then _ else _) none
    rw [if_pos hn]
    exact hQb none
  · change Q (if n = row.treeSize ∧ ¬SameAnchor r row then _ else _) (some r)
    split
    · exact hQb (some r)
    next hr => exact hQ r (by tauto)

theorem invoke_wpe {c : Call} {φ : SendPhase} {Q : SendPhase → c.Res → Prop} :
    wpe sendProtocol (invoke c) Q E φ ↔ (∀ a, Q φ a) ∧ ∀ e, E φ e := by
  have hnext : ∀ r : Except PyError c.Res, sendProtocol.next φ (.call c) r = φ := by
    intro r
    cases φ <;> rfl
  have hallowed : sendProtocol.allowed φ (.call c) := by
    cases φ <;> trivial
  constructor
  · rintro ⟨-, h⟩
    refine ⟨fun a => ?_, fun e => ?_⟩
    · have ha : Q (sendProtocol.next φ (.call c) (.ok a)) a := h (.ok a)
      rwa [hnext] at ha
    · have he : E (sendProtocol.next φ (.call c) (.error e)) e := h (.error e)
      rwa [hnext] at he
  · rintro ⟨hQ, hE⟩
    refine ⟨hallowed, ?_⟩
    rintro (e | a)
    · change E (sendProtocol.next φ (.call c) (.error e)) e
      rw [hnext]
      exact hE e
    · change Q (sendProtocol.next φ (.call c) (.ok a)) a
      rw [hnext]
      exact hQ a

theorem ofExcept_wpe {x : Except PyError α} {φ : SendPhase} :
    wpe sendProtocol (MonadExcept.ofExcept x) Q E φ ↔
      match x with
      | .ok a => Q φ a
      | .error e => E φ e := by
  cases x <;> rfl

/-- A row of the same anchor passes the comparison before the latch. -/
theorem saveCheck_ne_false {existing : AuthorizedRow} {a : SaveArgs}
    (h : SameAnchor existing (newRow a)) : saveCheck existing a ≠ .ok false := by
  intro hfalse
  obtain ⟨-, hcheckpoint, hroot, hsigned⟩ := h
  have hagrees : agrees existing a = true :=
    decide_eq_true ⟨hcheckpoint, Or.inr (Or.inr hroot), Or.inr (Or.inr hsigned)⟩
  rw [agrees_of_saveCheck_false hfalse] at hagrees
  cases hagrees

/-- A save under the anchor that was read, with a latched state, is written; a
mark is written on a signed row. -/
theorem saveAuthorizedCheckpoint_wpe {a : SaveArgs} {Q : SendPhase → AuthorizedRow → Prop}
    (ha : Resaves a row) (hsigned : a.sendState = .sendAttempted → row.signed ≠ [])
    (hQ : ∀ r, SameAnchor r row →
      Q (.holding row (m || a.sendState = .sendAttempted)) r)
    (hE : ∀ m e, E (.holding row m) e) (hQb : Brittle Q) (hEb : Brittle E) :
    wpe sendProtocol (saveAuthorizedCheckpoint a) Q E (.holding row m) := by
  have hsize : a.treeSize = row.treeSize := ha.anchor.1
  -- what is read back after the write
  have hback : ∀ m', (∀ r, SameAnchor r row → Q (.holding row m') r) → ∀ dflt,
      wpe sendProtocol (do return (← authorizedAt a.treeSize).getD dflt : Code AuthorizedRow) Q E
        (.holding row m') := by
    intro m' hQ' dflt
    rw [wpe_bind]
    exact authorizedAt_wpe hsize hQ' (hE m') fun _ => hQb _
  rw [saveAuthorizedCheckpoint, wpe_bind, ofExcept_wpe]
  split
  · rw [wpe_bind]
    refine authorizedAt_wpe hsize (fun existing hexisting => ?_) (hE m) (brittle_wpe hQb hEb)
    split
    next existing' hfilter =>
      obtain ⟨-, rfl⟩ : ¬existing.signed = [] ∧ existing = existing' := by
        simpa [Option.filter] using hfilter
      rw [wpe_bind, ofExcept_wpe]
      split
      next check hcheck =>
        have hne := saveCheck_ne_false (hexisting.trans ha.anchor.symm)
        cases check with
        | false => exact absurd hcheck hne
        | true =>
            rw [if_pos rfl, wpe_bind]
            refine ⟨ha, ?_⟩
            rintro (e | _)
            · exact hE m e
            · exact hback _ hQ existing
      next => exact hE m _
    next hfilter =>
      have hempty : row.signed = [] := by
        rw [← hexisting.2.2.2]
        simpa [Option.filter] using hfilter
      have hstate : a.sendState ≠ .sendAttempted := fun h => hsigned h hempty
      rw [wpe_bind]
      refine ⟨⟨ha, hstate⟩, ?_⟩
      rintro (e | _)
      · exact hE m e
      · refine hback m (fun r hr => ?_) (newRow a)
        simpa [hstate] using hQ r hr
  · exact hE m _

variable (hrow : SameAnchor row' row)

include hrow in
theorem markSendAttempted_wpe {now : ℤ} {Q : SendPhase → AuthorizedRow → Prop}
    (hQ : ∀ r, SameAnchor r row → Q (.holding row true) r) (hE : ∀ m e, E (.holding row m) e)
    (hQb : Brittle Q) (hEb : Brittle E) :
    wpe sendProtocol (markSendAttempted row' now) Q E (.holding row m) := by
  rw [markSendAttempted]
  split
  · exact hE m _
  next hsigned =>
    rw [hrow.2.2.2] at hsigned
    have hsave : ∀ expected : PyStr, wpe sendProtocol
        (saveAuthorizedCheckpoint { resave row' with
          at' := if row'.at' = 0 then now else row'.at'
          sendState := .sendAttempted
          expectedTxid := expected.strip
          sendAttemptedAt := now }) Q E (.holding row m) := fun expected =>
      saveAuthorizedCheckpoint_wpe ⟨hrow, Or.inl rfl⟩ (fun _ => hsigned)
        (fun r hr => by simpa using hQ r hr) hE hQb hEb
    dsimp only
    split
    · rw [wpe_bind, invoke_wpe]
      exact ⟨hsave, hE m⟩
    · exact hsave _

include hrow in
theorem markSubmitted_wpe {txid : PyStr} {Q : SendPhase → AuthorizedRow → Prop}
    (hQ : ∀ r, SameAnchor r row → Q (.holding row m) r) (hE : ∀ m e, E (.holding row m) e)
    (hQb : Brittle Q) (hEb : Brittle E) :
    wpe sendProtocol (markSubmitted row' txid) Q E (.holding row m) := by
  rw [markSubmitted]
  dsimp only
  split
  · exact hE m _
  · exact saveAuthorizedCheckpoint_wpe ⟨hrow, Or.inr (Or.inl rfl)⟩ (fun h => by cases h)
      (fun r hr => by simpa using hQ r hr) hE hQb hEb

include hrow in
theorem pollExpected_wpe {now : ℤ} {Q : SendPhase → Option Confirmed → Prop}
    (hQ : ∀ r, Q (.holding row m) r) (hE : ∀ m e, E (.holding row m) e) (hQb : Brittle Q)
    (hEb : Brittle E) : wpe sendProtocol (pollExpected row' now) Q E (.holding row m) := by
  rw [pollExpected]
  dsimp only
  split
  · exact hQ none
  rw [wpe_bind, invoke_wpe]
  refine ⟨fun fetched => ?_, hE m⟩
  split
  · split
    · exact hE m _
    · exact hQ none
  rw [wpe_bind, invoke_wpe]
  refine ⟨fun txid => ?_, hE m⟩
  split
  · exact hE m _
  rw [wpe_bind]
  refine saveAuthorizedCheckpoint_wpe ⟨hrow, Or.inr (Or.inr rfl)⟩ (fun h => by cases h)
    (fun r hr => ?_) hE (brittle_wpe hQb hEb) hEb
  rw [map_eq_pure_bind, wpe_bind, invoke_wpe]
  exact ⟨fun c => by simpa using hQ (some c), fun e => by simpa using hE m e⟩

/-! ### The sender -/

/-- The program may run from this phase, whatever comes back. -/
def Keeps (x : Code α) (φ : SendPhase) : Prop :=
  wpe sendProtocol x (fun _ _ => True) (fun _ _ => True) φ

theorem keeps_bind {β : Type} {x : Code β} {f : β → Code α} {φ : SendPhase} :
    Keeps (x >>= f) φ ↔ wpe sendProtocol x (fun φ' b => Keeps (f b) φ') (fun _ _ => True) φ :=
  wpe_bind ..

theorem brittle_keeps {β : Type} {f : β → Code α} : Brittle fun φ b => Keeps (f b) φ :=
  fun _ => wpe_broken (fun _ => trivial) fun _ => trivial

include hrow in
theorem pollLatched_keeps {now : ℤ} {waiting : String} :
    Keeps (pollLatched row' now waiting) (.holding row m) := by
  rw [pollLatched, keeps_bind]
  refine pollExpected_wpe hrow (fun r => ?_) (fun _ _ => trivial) brittle_keeps fun _ => trivial
  cases r <;> trivial

include hrow in
theorem recordSubmitted_keeps {txid : PyStr} {now : ℤ} :
    Keeps (recordSubmitted row' txid now (pure ()) (pure ())) (.holding row m) := by
  rw [recordSubmitted, keeps_bind]
  refine markSubmitted_wpe hrow (fun r hr => ?_) (fun _ _ => trivial) brittle_keeps
    fun _ => trivial
  rw [pure_bind, keeps_bind]
  refine pollExpected_wpe hr (fun c => ?_) (fun _ _ => trivial) brittle_keeps fun _ => trivial
  cases c <;> trivial

theorem submitMainnet_wpe {n : ℤ} {signed : Bytes} {Q : SendPhase → Option PyStr → Prop}
    (hn : n = row.treeSize) (hQ : ∀ r, Q (.holding row false) r)
    (hE : ∀ e, E (.holding row false) e) :
    wpe sendProtocol (submitMainnet n signed) Q E (.holding row true) := by
  refine ⟨⟨rfl, hn⟩, ?_⟩
  rintro (e | txid)
  · exact hE e
  · exact hQ txid

/-- **A send posts with a mark of its own.** -/
theorem sendUnlatched_keeps {authorizeHumanCanary : Bool} {now : ℤ} :
    Keeps (sendUnlatched row authorizeHumanCanary now) (.holding row false) := by
  rw [sendUnlatched]
  split
  · trivial
  rw [keeps_bind, invoke_wpe]
  refine ⟨fun _ => ?_, fun _ => trivial⟩
  rw [keeps_bind, invoke_wpe]
  refine ⟨fun _ => ?_, fun _ => trivial⟩
  rw [keeps_bind, invoke_wpe]
  refine ⟨fun _ => ?_, fun _ => trivial⟩
  rw [keeps_bind]
  refine markSendAttempted_wpe (SameAnchor.refl row) (fun attempted hattempted => ?_)
    (fun _ _ => trivial) brittle_keeps fun _ => trivial
  split
  · trivial
  rw [keeps_bind, wpe_tryCatch]
  refine submitMainnet_wpe rfl (fun txid => ?_) fun e => ?_
  · split
    · trivial
    · exact recordSubmitted_keeps hattempted
  · split <;> trivial

theorem sendDurable_keeps {authorizeHumanCanary : Bool} {now : ℤ} :
    Keeps (sendDurable row authorizeHumanCanary now) (.holding row false) := by
  rw [sendDurable]
  split
  · rw [keeps_bind, invoke_wpe]
    exact ⟨fun _ => trivial, fun _ => trivial⟩
  · exact pollLatched_keeps (SameAnchor.refl row)
  · exact pollLatched_keeps (SameAnchor.refl row)
  · trivial
  · exact sendUnlatched_keeps
  · exact sendUnlatched_keeps
  · exact sendUnlatched_keeps

/-- A call of the sender on a row it read at some time. -/
def canarySend (n : ℤ) (authorizeHumanCanary : Bool) (now : ℤ) : Code SendResult := do
  match ← authorizedAt n with
  | some row => sendDurable row authorizeHumanCanary now
  | none => canaryError "no authorized checkpoint"

theorem canarySend_keeps {n : ℤ} {authorizeHumanCanary : Bool} {now : ℤ} :
    Keeps (canarySend n authorizeHumanCanary now) .start := by
  rw [canarySend, keeps_bind]
  refine ⟨trivial, ?_⟩
  rintro (e | _ | row)
  · trivial
  · trivial
  · change Keeps (sendDurable row authorizeHumanCanary now) (if row.treeSize = n then _ else _)
    split
    · exact sendDurable_keeps
    · exact wpe_broken (fun _ => trivial) fun _ => trivial

end Programs

/-! ## The invariant -/

section Invariant

variable {Tid : Type} {w w' : World Tid} {ph : Tid → Life SendPhase} {t : Tid}
  {row : AuthorizedRow} {m m' : Bool}

/-- A save of thread `t` moved the row of `n` to `SEND_ATTEMPTED`. -/
def Moved (t : Tid) (n : ℤ) (events : List (Event Tid)) : Prop :=
  ∃ before after, .saved t n (some before) (some after) ∈ events ∧ before.Unlatched ∧
    after.sendState = .sendAttempted

/-- The stored row of a tree size is latched. -/
def LatchedAt (s : Store) (n : ℤ) : Prop := ∃ cur, s.authorizedRow n = some cur ∧ cur.Latched

/-- A living call has an unused mark for a tree size. -/
def HasMark (ph : Tid → Life SendPhase) (t : Tid) (n : ℤ) : Prop :=
  ∃ row, ph t = .alive (.holding row true) ∧ row.treeSize = n

/-- A mark is a one-shot right to post. -/
structure Marked (w : World Tid) (ph : Tid → Life SendPhase) : Prop where
  unbroken : ∀ {t}, ph t ≠ .alive .broken
  anchored : ∀ {t row m}, ph t = .alive (.holding row m) →
    ∃ cur, w.store.authorizedRow row.treeSize = some cur ∧ SameAnchor cur row
  oneShot : OneShot (HasMark ph) (fun n => postCount n w.events) (LatchedAt w.store)
  held : ∀ {t n}, HasMark ph t n → Moved t n w.events
  posted : ∀ {t n signed}, .posted t n signed ∈ w.events → Moved t n w.events

theorem Moved.cons {n : ℤ} {events : List (Event Tid)} (h : Moved t n events) (e : Event Tid) :
    Moved t n (e :: events) := by
  obtain ⟨before, after, hmem, h⟩ := h
  exact ⟨before, after, List.mem_cons_of_mem _ hmem, h⟩

/-- An attempt to save that changed nothing. -/
theorem Marked.unsaved (h : Marked w ph) {n : ℤ} {before after : Option AuthorizedRow} :
    Marked { w with events := .saved t n before after :: w.events } ph where
  unbroken := h.unbroken
  anchored := h.anchored
  oneShot := by simpa only [postCount_saved] using h.oneShot
  held hmark := (h.held hmark).cons _
  posted hmem := by
    rcases List.mem_cons.mp hmem with heq | hmem
    · cases heq
    · exact (h.posted hmem).cons _

variable [DecidableEq Tid]

theorem HasMark.of_update {φ : SendPhase} {t' : Tid} {n : ℤ}
    (h : HasMark (Function.update ph t (.alive φ)) t' n) :
    t' = t ∧ (∃ row, φ = .holding row true ∧ row.treeSize = n) ∨ t' ≠ t ∧ HasMark ph t' n := by
  obtain ⟨row, hrow, hn⟩ := h
  rcases Life.update_eq_alive.mp hrow with ⟨rfl, rfl⟩ | ⟨hne, hold⟩
  · exact Or.inl ⟨rfl, row, rfl, hn⟩
  · exact Or.inr ⟨hne, row, hold, hn⟩

/-- A call reads a row. -/
theorem Marked.read (h : Marked w ph) (hrow : w.store.authorizedRow row.treeSize = some row) :
    Marked w (Function.update ph t (.alive (.holding row false))) where
  unbroken hb := by
    rcases Life.update_eq_alive.mp hb with ⟨-, hb⟩ | ⟨-, hb⟩
    · cases hb
    · exact h.unbroken hb
  anchored hold := by
    rcases Life.update_eq_alive.mp hold with ⟨-, heq⟩ | ⟨-, hold⟩
    · cases heq
      exact ⟨row, hrow, SameAnchor.refl row⟩
    · exact h.anchored hold
  oneShot := by
    refine h.oneShot.mono (fun hmark => ?_) id
    rcases hmark.of_update with ⟨-, row', heq, -⟩ | ⟨-, hmark⟩
    · cases heq
    · exact hmark
  held hmark := by
    rcases hmark.of_update with ⟨-, row', heq, -⟩ | ⟨-, hmark⟩
    · cases heq
    · exact h.held hmark
  posted := h.posted

/-- A save under the anchor that was read: its row is latched then, and a mark
is a right that nobody had. -/
theorem Marked.saved (h : Marked w ph) (ht : ph t = .alive (.holding row m)) {store : Store}
    {new : AuthorizedRow} (hnew : store.authorizedRow row.treeSize = some new)
    (hsame : SameAnchor new row) (hlatched : new.Latched)
    (hother : ∀ n, n ≠ row.treeSize → store.authorizedRow n = w.store.authorizedRow n)
    (hm : m' = m ∨ (∃ before, w.store.authorizedRow row.treeSize = some before ∧
      before.Unlatched) ∧ new.sendState = .sendAttempted) :
    Marked ⟨store, .saved t row.treeSize (w.store.authorizedRow row.treeSize)
        (store.authorizedRow row.treeSize) :: w.events⟩
      (Function.update ph t (.alive (.holding row m'))) := by
  have hrows : ∀ {n cur}, w.store.authorizedRow n = some cur →
      ∃ cur', store.authorizedRow n = some cur' ∧ (n = row.treeSize → cur' = new) ∧
        (n ≠ row.treeSize → cur' = cur) := by
    intro n cur hcur
    by_cases hn : n = row.treeSize
    · exact ⟨new, hn ▸ hnew, fun _ => rfl, fun hne => absurd hn hne⟩
    · exact ⟨cur, (hother n hn).trans hcur, fun heq => absurd heq hn, fun _ => rfl⟩
  have hlatch : ∀ {n}, LatchedAt w.store n → LatchedAt store n := by
    rintro n ⟨cur, hcur, hl⟩
    obtain ⟨cur', hcur', heq, hne⟩ := hrows hcur
    by_cases hn : n = row.treeSize
    · exact ⟨cur', hcur', heq hn ▸ hlatched⟩
    · exact ⟨cur', hcur', hne hn ▸ hl⟩
  refine ⟨fun hb => ?_, fun {t' row' m''} hold => ?_, ?_, fun {t' n} hmark => ?_,
    fun {t' n signed} hmem => ?_⟩
  · rcases Life.update_eq_alive.mp hb with ⟨-, hb⟩ | ⟨-, hb⟩
    · cases hb
    · exact h.unbroken hb
  · rcases Life.update_eq_alive.mp hold with ⟨-, heq⟩ | ⟨-, hold⟩
    · cases heq
      exact ⟨new, hnew, hsame⟩
    · obtain ⟨cur, hcur, hanchor⟩ := h.anchored hold
      obtain ⟨cur', hcur', heq, hne⟩ := hrows hcur
      by_cases hn : row'.treeSize = row.treeSize
      · -- both rows have the anchor of the row that was there
        obtain ⟨cur₀, hcur₀, hanchor₀⟩ := h.anchored ht
        rw [hn, hcur₀] at hcur
        cases hcur
        exact ⟨cur', hcur', heq hn ▸ hsame.trans (hanchor₀.symm.trans hanchor)⟩
      · exact ⟨cur', hcur', hne hn ▸ hanchor⟩
  · simp only [postCount_saved]
    rcases hm with rfl | ⟨⟨before, hbefore, hunlatched⟩, -⟩
    · refine h.oneShot.mono (fun {t' n} hmark => ?_) hlatch
      rcases hmark.of_update with ⟨rfl, row', heq, hn⟩ | ⟨-, hmark⟩
      · cases heq
        exact ⟨row, ht, hn⟩
      · exact hmark
    · refine @OneShot.take _ _ _ _ _ _ _ h.oneShot t row.treeSize ?_ (fun {t' n} hmark => ?_)
        hlatch ⟨new, hnew, hlatched⟩
      · rintro ⟨cur, hcur, hl⟩
        rw [hbefore] at hcur
        cases hcur
        exact hunlatched.not_latched hl
      · rcases hmark.of_update with ⟨rfl, row', heq, rfl⟩ | ⟨-, hmark⟩
        · cases heq
          exact Or.inr ⟨rfl, rfl⟩
        · exact Or.inl hmark
  · rcases hmark.of_update with ⟨rfl, row', heq, rfl⟩ | ⟨-, hmark⟩
    · cases heq
      rcases hm with rfl | ⟨⟨before, hbefore, hunlatched⟩, hattempted⟩
      · exact (h.held ⟨row, ht, rfl⟩).cons _
      · exact ⟨before, new, List.mem_cons.mpr (Or.inl (by rw [hbefore, hnew])), hunlatched,
          hattempted⟩
    · exact (h.held hmark).cons _
  · rcases List.mem_cons.mp hmem with heq | hmem
    · cases heq
    · exact (h.posted hmem).cons _

/-- A call posts with its mark. -/
theorem Marked.post (h : Marked w ph) (ht : ph t = .alive (.holding row true)) {signed : Bytes} :
    Marked { w with events := .posted t row.treeSize signed :: w.events }
      (Function.update ph t (.alive (.holding row false))) where
  unbroken hb := by
    rcases Life.update_eq_alive.mp hb with ⟨-, hb⟩ | ⟨-, hb⟩
    · cases hb
    · exact h.unbroken hb
  anchored hold := by
    rcases Life.update_eq_alive.mp hold with ⟨-, heq⟩ | ⟨-, hold⟩
    · cases heq
      exact h.anchored ht
    · exact h.anchored hold
  oneShot := by
    refine h.oneShot.spend ⟨row, ht, rfl⟩ (fun {t' n} hmark => ?_) ?_ fun {n} hn => ?_
    · rcases hmark.of_update with ⟨-, row', heq, -⟩ | ⟨hne, hmark⟩
      · cases heq
      · exact ⟨hmark, fun h => hne h.1⟩
    · rw [postCount_posted, if_pos rfl]
    · rw [postCount_posted, if_neg (Ne.symm hn), Nat.add_zero]
  held hmark := by
    rcases hmark.of_update with ⟨-, row', heq, -⟩ | ⟨-, hmark⟩
    · cases heq
    · exact (h.held hmark).cons _
  posted hmem := by
    rcases List.mem_cons.mp hmem with heq | hmem
    · cases heq
      exact (h.held ⟨row, ht, rfl⟩).cons _
    · exact (h.posted hmem).cons _

/-! ### Every run -/

/-- Every mark is written on a stored row that is not latched. -/
def MarksUnlatched (s : Store) : Op → Prop
  | .updateAuthorized _ a =>
      a.sendState = .sendAttempted → ∀ cur, s.authorizedRow a.treeSize = some cur → cur.Unlatched
  | .insertAuthorized _ a =>
      a.sendState = .sendAttempted → ∀ cur, s.authorizedRow a.treeSize = some cur → cur.Unlatched
  | _ => True

instance (s : Store) : (o : Op) → Decidable (MarksUnlatched s o)
  | .updateAuthorized _ a => inferInstanceAs (Decidable (a.sendState = .sendAttempted →
      ∀ cur ∈ s.authorizedRow a.treeSize, cur.Unlatched))
  | .insertAuthorized _ a => inferInstanceAs (Decidable (a.sendState = .sendAttempted →
      ∀ cur ∈ s.authorizedRow a.treeSize, cur.Unlatched))
  | .authorizedRow _ | .lastAuthorizedRow | .automationJobRow _ | .lastAutomationJob
  | .budgetUsage _ | .createAutomationJob _ | .setAutomationJobStatus ..
  | .recordAutomationSignAttempt .. | .beginAutomationResign .. | .reserveAutomaticSend ..
  | .setAutomaticSendStatus .. | .post .. | .call _ => .isTrue trivial

theorem saveSets_anchor (existing : AuthorizedRow) (a : SaveArgs) (cur : AuthorizedRow) :
    SameAnchor (saveSets existing a cur) cur := ⟨rfl, rfl, rfl, rfl⟩

theorem saveSets_sendState (existing cur : AuthorizedRow) {a : SaveArgs} (h : Resaves a row) :
    (saveSets existing a cur).sendState = (newRow a).sendState := by
  have hstate : a.sendState ≠ .empty := by
    intro hempty
    have hlatched := h.latched
    rw [AuthorizedRow.Latched, newRow, hempty] at hlatched
    rcases hlatched with hl | hl | hl <;> cases hl
  rw [saveSets, newRow, if_pos hstate, if_neg hstate]

/-- The effect of an `UPDATE` on the row of the call. -/
theorem Marked.update (h : Marked w ph) (ht : ph t = .alive (.holding row m))
    {existing : AuthorizedRow} {a : SaveArgs} (ha : Resaves a row)
    (hguard : MarksUnlatched w.store (.updateAuthorized existing a)) {r : Except PyError Unit}
    (hsave : save w t a.treeSize (AnchorStore.updateAuthorized existing a) r w') :
    Marked w' (Function.update ph t (.alive
      (sendProtocol.next (.holding row m) (.updateAuthorized existing a) r))) := by
  have hsize : a.treeSize = row.treeSize := ha.anchor.1
  obtain ⟨cur, hcur, hanchor⟩ := h.anchored ht
  rcases save_cases hsave with ⟨store, rfl, rfl⟩ | ⟨⟨e, rfl⟩, rfl⟩
  · have hnew : (AnchorStore.updateAuthorized existing a w.store).authorizedRow row.treeSize =
        some (saveSets existing a cur) := by
      rw [authorizedRow_updateAuthorized, if_pos hsize.symm, hsize, hcur]
      rfl
    have hstate := saveSets_sendState existing cur ha
    have hlatched : (saveSets existing a cur).Latched := by
      rw [AuthorizedRow.Latched, hstate]
      exact ha.latched
    have hother : ∀ n, n ≠ row.treeSize →
        (AnchorStore.updateAuthorized existing a w.store).authorizedRow n =
          w.store.authorizedRow n := by
      intro n hn
      rw [authorizedRow_updateAuthorized, if_neg (hsize ▸ hn)]
    have hmark : a.sendState = .sendAttempted →
        (∃ before, w.store.authorizedRow row.treeSize = some before ∧ before.Unlatched) ∧
          (saveSets existing a cur).sendState = .sendAttempted := fun hs =>
      ⟨⟨cur, hcur, hguard hs cur (hsize ▸ hcur)⟩, by rw [hstate, newRow, hs]; rfl⟩
    rw [hsize]
    cases r with
    | error e =>
        exact h.saved ht hnew ((saveSets_anchor existing a cur).trans hanchor) hlatched hother
          (Or.inl rfl)
    | ok _ =>
        refine h.saved ht hnew ((saveSets_anchor existing a cur).trans hanchor) hlatched hother ?_
        by_cases hs : a.sendState = .sendAttempted
        · exact Or.inr (hmark hs)
        · exact Or.inl (by simp [hs])
  · exact (Life.update_same ht).symm ▸ h.unsaved

theorem Marked.insert (h : Marked w ph) (ht : ph t = .alive (.holding row m))
    {a : SaveArgs} (ha : Resaves a row) {r : Except PyError Unit}
    (hsave : save w t a.treeSize (AnchorStore.insertAuthorized a) r w') :
    Marked w' (Function.update ph t (.alive (.holding row m))) := by
  have hsize : a.treeSize = row.treeSize := ha.anchor.1
  rcases save_cases hsave with ⟨store, rfl, rfl⟩ | ⟨-, rfl⟩
  · rw [hsize]
    refine h.saved ht ?_ ha.anchor ha.latched (fun n hn => ?_) (Or.inl rfl)
    · rw [authorizedRow_insertAuthorized, if_pos hsize.symm]
    · rw [authorizedRow_insertAuthorized, if_neg (hsize ▸ hn)]
  · exact (Life.update_same ht).symm ▸ h.unsaved

/-- **Every operation of the protocol keeps the marks one-shot.** -/
theorem Marked.op {φ : SendPhase} {o : Op} {r : o.Res} (h : Marked w ph)
    (ht : ph t = .alive φ) (hallowed : sendProtocol.allowed φ o)
    (hguard : MarksUnlatched w.store o) (hexec : exec w t o r w') :
    Marked w' (Function.update ph t (.alive (sendProtocol.next φ o r))) := by
  have stay : ∀ {w'}, Marked w' ph → Marked w' (Function.update ph t (.alive φ)) := by
    intro w' h'
    rwa [Life.update_same ht]
  cases φ with
  | broken => exact absurd ht h.unbroken
  | start =>
      cases o with
      | authorizedRow n =>
          obtain ⟨hr, rfl⟩ := hexec
          rcases hr with rfl | ⟨e, rfl⟩
          · cases hfound : w'.store.authorizedRow n with
            | none => exact stay h
            | some found =>
                have hkey : found.treeSize = n := Table.lookup_key hfound
                change Marked w' (Function.update ph t (.alive (if found.treeSize = n then _
                  else _)))
                rw [if_pos hkey]
                exact h.read (hkey ▸ hfound)
          · exact stay h
      | call c =>
          obtain rfl := hexec
          exact stay h
      | _ => exact hallowed.elim
  | holding row m =>
      cases o with
      | authorizedRow n =>
          obtain ⟨hr, rfl⟩ := hexec
          rcases hr with rfl | ⟨e, rfl⟩
          · obtain ⟨cur, hcur, hanchor⟩ := h.anchored ht
            cases hfound : w'.store.authorizedRow n with
            | none =>
                change Marked w' (Function.update ph t (.alive (if n = row.treeSize then _
                  else _)))
                rw [if_neg fun hn => by rw [← hn, hfound] at hcur; cases hcur]
                exact stay h
            | some found =>
                change Marked w' (Function.update ph t (.alive
                  (if n = row.treeSize ∧ ¬SameAnchor found row then _ else _)))
                rw [if_neg ?_]
                · exact stay h
                · rintro ⟨rfl, hnot⟩
                  rw [hfound] at hcur
                  cases hcur
                  exact hnot hanchor
          · exact stay h
      | call c =>
          obtain rfl := hexec
          exact stay h
      | updateAuthorized existing a => exact h.update ht hallowed hguard hexec
      | insertAuthorized existing a => exact h.insert ht hallowed.1 hexec
      | post n signed =>
          obtain ⟨rfl, rfl⟩ := hallowed
          obtain rfl := hexec
          exact h.post ht
      | _ => exact hallowed.elim

/-- Calls of the sender, each on the row it reads. -/
def sends (p : Prog sig (Except PyError SendResult)) : Prop :=
  ∃ n authorizeHumanCanary now, p = (canarySend n authorizeHumanCanary now).run

theorem marked_invariant (store : Store) :
    (system MarksUnlatched Tid store).Invariant sendProtocol .start Marked where
  init :=
    { unbroken := fun h => by cases h
      anchored := fun h => by cases h
      oneShot :=
        { held := by rintro t n ⟨row, hrow, -⟩; cases hrow
          spent := fun h => absurd rfl h }
      held := by rintro t n ⟨row, hrow, -⟩; cases hrow
      posted := fun h => by cases h }
  op h ht hallowed hexec := h.op ht hallowed hexec.1 hexec.2
  spawn := by
    intro w ph t h ht
    have hmark : ∀ {t' n}, HasMark (Function.update ph t (.alive .start)) t' n →
        HasMark ph t' n := by
      intro t' n hmark
      rcases hmark.of_update with ⟨-, row, heq, -⟩ | ⟨-, hmark⟩
      · cases heq
      · exact hmark
    refine ⟨fun hb => ?_, fun hold => ?_, h.oneShot.mono hmark id, fun hm => h.held (hmark hm),
      h.posted⟩
    · rcases Life.update_eq_alive.mp hb with ⟨-, hb⟩ | ⟨-, hb⟩
      · cases hb
      · exact h.unbroken hb
    · rcases Life.update_eq_alive.mp hold with ⟨-, heq⟩ | ⟨-, hold⟩
      · cases heq
      · exact h.anchored hold
  crash := by
    rintro w ph q w' h rfl
    have hmark : ∀ {t n}, HasMark (fun t => if t = q then (ph t).kill else ph t) t n →
        HasMark ph t n := by
      rintro t n ⟨row, hrow, hn⟩
      exact ⟨row, Life.alive_of_kill hrow, hn⟩
    exact ⟨fun hb => h.unbroken (Life.alive_of_kill hb), fun hold => h.anchored (Life.alive_of_kill hold),
      h.oneShot.mono hmark id, fun hm => h.held (hmark hm), h.posted⟩
  env := by
    rintro w ph w' h rfl
    exact h

/-- **When the canary posts once.**  In a run whose marks are all written on rows
that are not latched, at most one call for a tree size posts, and every call
that posts moved the stored row to `SEND_ATTEMPTED` itself. -/
theorem canary_posts_once {store : Store}
    {c : (system MarksUnlatched Tid store).Config (Except PyError SendResult)}
    (h : (system MarksUnlatched Tid store).Reachable sends c) :
    (∀ n, postCount n c.world.events ≤ 1) ∧
      ∀ t n signed, .posted t n signed ∈ c.world.events → Moved t n c.world.events := by
  have hkeeps : ∀ p, sends p → wp sendProtocol p (fun _ _ => True) .start := by
    rintro _ ⟨n, authorizeHumanCanary, now, rfl⟩
    exact wp_mono canarySend_keeps fun _ _ _ => trivial
  obtain ⟨ph, hw, -⟩ := h.phases (marked_invariant store) hkeeps
  exact ⟨fun n => hw.oneShot.used_le_one n, fun t n signed hmem => hw.posted hmem⟩

end Invariant

/-- An authorized row of tree size 1. -/
def earlyRow : AuthorizedRow where
  treeSize := 1
  origin := "402signal.com/pq/log/mainnet-v1"
  root := "6e340b9cffb37a989ca544e6bb780a2c78901d3fb33738768511a30617afa01d"
  checkpoint := "note"
  requestId := "request"
  signed := [1]
  at' := 1000
  submitted := false
  txid := []
  sendState := .authorized
  expectedTxid := []
  feePolicy := []
  fv := 0
  lv := 0
  sendAttemptedAt := 0

/-- A store with that row only. -/
def earlyStore : Store := ⟨[earlyRow], [], [], 1⟩

/-- A signer that answers, and a POST that times out. -/
def earlyOutcomes : Outcomes where
  call
    | .humanGates => .ok ()
    | .rejectUnsendablePolicy .. => .ok ()
    | .policyParams _ => .ok ()
    | .signedTxnTxid _ => .ok "TXID"
    | _ => .error ⟨.osError, "not called"⟩
  post := .error ⟨.osError, "timed out"⟩

/-- One call with the row to itself posts once. -/
theorem canary_posts_once_run :
    ∃ c : (system MarksUnlatched Bool earlyStore).Config (Except PyError SendResult),
      (system MarksUnlatched Bool earlyStore).Reachable sends c ∧
        postCount 1 c.world.events = 1 ∧ ∀ n, postCount n c.world.events ≤ 1 := by
  have h : (system MarksUnlatched Bool earlyStore).Reachable sends
      ⟨(system MarksUnlatched Bool earlyStore).init, fun _ => .unborn⟩ := .refl
  replace h := h.spawn false rfl ⟨1, true, 1000, rfl⟩
  replace h := turn h false earlyOutcomes 9 rfl
  exact ⟨_, h, by decide, (canary_posts_once h).1⟩

/-- Two calls that read the row before either marked it both post. -/
theorem canary_posts_twice :
    ¬∀ c : (system (fun _ _ => True) Bool earlyStore).Config (Except PyError SendResult),
      (system (fun _ _ => True) Bool earlyStore).Reachable sends c →
        ∀ n, postCount n c.world.events ≤ 1 := by
  have h : (system (fun _ _ => True) Bool earlyStore).Reachable sends
      ⟨(system (fun _ _ => True) Bool earlyStore).init, fun _ => .unborn⟩ := .refl
  -- both calls read the row before either marks it
  replace h := h.spawn false rfl ⟨1, true, 1000, rfl⟩
  replace h := h.spawn true rfl ⟨1, true, 1000, rfl⟩
  replace h := turn h false earlyOutcomes 1 rfl
  replace h := turn h true earlyOutcomes 1 rfl
  -- the first call marks and posts, then the second does
  replace h := turn h false earlyOutcomes 8 rfl
  replace h := turn h true earlyOutcomes 8 rfl
  intro hone
  have htwice := hone _ h 1
  revert htwice
  decide

end Signal402.Canary
