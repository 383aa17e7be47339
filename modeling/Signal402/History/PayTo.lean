import Signal402.History.Store

/-!
# Changes of the trusted address

The calls that write the history, and the observations they apply to the states of
URLs.  Whatever the calls are, the states of URLs are those that the observations
leave one after another, so that what changes the trusted address of a URL is a
question about a list of observations.

* `Call.observed` — the observations that a call applies, in their order.
* `runCalls_urlStates` — the states of URLs after a run of calls.
* `pending_origin` — where the address that waits for a confirmation comes from.
* `payTo_rotation` — what a change of the trusted address takes.
-/

namespace Signal402.ProbeHistory

open Session (execute update select commit)

variable (env : Env)

/-! ## Observations and the states they leave -/

/-- An observation of a URL at a time. -/
structure Observed where
  url : PyStr
  snap : Snap
  ts : ℤ

namespace Observed

/-- The address that was observed. -/
def payTo (o : Observed) : Option PyStr := text o.snap.payTo

/-- The observation is trusted and not older than the state of its URL. -/
def Applied (rows : List UrlState) (o : Observed) : Prop :=
  o.snap.trustClass.trusted ∧ (loadUrlState rows o.url).newer o.ts = false

instance (rows : List UrlState) (o : Observed) : Decidable (o.Applied rows) :=
  inferInstanceAs (Decidable (_ ∧ _))

/-- The state that an applied observation leaves. -/
def leaves (rows : List UrlState) (o : Observed) : UrlState :=
  (UrlState.observe env o.url o.snap o.ts (loadUrlState rows o.url) .initial).1

/-- The states of URLs after an observation. -/
def apply (rows : List UrlState) (o : Observed) : List UrlState :=
  if o.Applied rows then putUrlState (o.leaves env rows) rows else rows

variable {env} {rows : List UrlState} {o : Observed}

theorem apply_pos (h : o.Applied rows) : o.apply env rows = putUrlState (o.leaves env rows) rows :=
  if_pos h

theorem apply_neg (h : ¬o.Applied rows) : o.apply env rows = rows := if_neg h

/-- An observation that is not trusted changes no state. -/
theorem apply_tentative (h : o.snap.trustClass.trusted = false) : o.apply env rows = rows :=
  apply_neg fun happlied => by
    rw [happlied.1] at h
    cases h

end Observed

/-- The states of URLs after a list of observations. -/
def observeAll (rows : List UrlState) (os : List Observed) : List UrlState :=
  os.foldl (Observed.apply env) rows

/-! ## What code observes -/

/-- Code whose observations are `os`, whatever the state. -/
def Observes {α : Type} (x : Code α) (os : List Observed) : Prop :=
  ∀ s, (x.run s).2.work.urlStates = observeAll env s.work.urlStates os

namespace Observes

variable {env} {α β : Type}

theorem bind {x : Code α} {k : α → Code β} {os os' : List Observed} (hx : Observes env x os)
    (hk : ∀ a, Observes env (k a) os') : Observes env (x >>= k) (os ++ os') := by
  intro s
  rw [Script.run_bind, hk, hx]
  unfold observeAll
  rw [List.foldl_append]

/-- Code that leaves the states of URLs alone observes nothing. -/
theorem aside {x : Code α} (hx : Script.Leaves (fun s : Session Db => s.work.urlStates) x) :
    Observes env x [] := hx.run

/-- What comes after code that observes nothing. -/
theorem after {x : Code α} {k : α → Code β} {os : List Observed}
    (hx : Script.Leaves (fun s : Session Db => s.work.urlStates) x)
    (hk : ∀ a, Observes env (k a) os) : Observes env (x >>= k) os := (aside hx).bind hk

/-- What comes before code that observes nothing. -/
theorem before {x : Code α} {k : α → Code β} {os : List Observed} (hx : Observes env x os)
    (hk : ∀ a, Script.Leaves (fun s : Session Db => s.work.urlStates) (k a)) :
    Observes env (x >>= k) os := by
  have h := hx.bind fun a => aside (hk a)
  rw [List.append_nil] at h
  exact h

end Observes

/-- Code that leaves the states of URLs alone. -/
abbrev Aside {α : Type} (x : Code α) : Prop :=
  Script.Leaves (fun s : Session Db => s.work.urlStates) x

theorem insertObservation_aside (probeId : Option ℕ) (batchId : Option PyStr) (st : SourceType)
    (source rail : Option PyStr) (url : PyStr) (ts : ℤ) (trustClass : Option TrustClass)
    (entry : Field × Option PyStr) :
    Aside (insertObservation probeId batchId st source rail url ts trustClass entry) := by
  unfold insertObservation
  split
  · exact .pure _
  · exact .execute fun _ => rfl

theorem writeClaimed_aside (probeId : Option ℕ) (batchId source rail : Option PyStr) (url : PyStr)
    (ts : ℤ) (claimed : Claimed) (trustClass : Option TrustClass) :
    Aside (writeClaimed probeId batchId source rail url ts claimed trustClass) :=
  .forM fun _ _ => insertObservation_aside _ _ _ _ _ _ _ _ _

theorem writeClaims_aside (dest : PyStr) (snap : Snap) (probeId : ℕ) (ts : ℤ) :
    Aside (writeClaims dest snap probeId ts) := by
  unfold writeClaims
  split
  · exact .pure _
  · exact writeClaimed_aside _ _ _ _ _ _ _ _

theorem capObservations_aside (url : PyStr) : Aside (capObservations url) := by
  unfold capObservations
  refine .bind (.look _) fun extra => ?_
  split
  · exact .pure _
  · exact .execute fun _ => rfl

theorem deleteProbesAndObs_aside (ids : List ℕ) : Aside (deleteProbesAndObs ids) := by
  unfold deleteProbesAndObs
  split
  · exact .pure _
  · exact .bind (.execute fun _ => rfl) fun _ => .execute fun _ => rfl

theorem capProbes_aside (url : PyStr) : Aside (capProbes url) := by
  unfold capProbes
  refine .bind (.look _) fun ids => .bind (deleteProbesAndObs_aside ids) fun _ =>
    .bind (.look _) fun n => ?_
  split
  · exact capObservations_aside url
  · exact .bind (.look _) fun drop =>
      .bind (deleteProbesAndObs_aside drop) fun _ => capObservations_aside url

/-- The state that an observation leaves depends on the report only by what is pending. -/
theorem observe_congr (dest : PyStr) (snap : Snap) (ts : ℤ) (state : UrlState) {m m' : Meta}
    (hm : m.payToPending = m'.payToPending) :
    (state.observe env dest snap ts m).1 = (state.observe env dest snap ts m').1 := by
  unfold UrlState.observe
  rw [hm]

/-- One trusted observation is applied unless a newer one was. -/
theorem applyTrustedUrlState_observes (dest : PyStr) (snap : Snap) (now : ℤ) {m : Meta}
    (htrusted : snap.trustClass.trusted = true) (hm : m.payToPending = false) :
    Observes env (applyTrustedUrlState env dest snap now m) [⟨dest, snap, snap.ts.getD now⟩] := by
  intro s
  unfold applyTrustedUrlState
  rw [Script.run_bind, Script.run_convert, Script.run_bind, Session.run_select]
  show _ = Observed.apply env s.work.urlStates ⟨dest, snap, snap.ts.getD now⟩
  dsimp only
  by_cases hnewer : (loadUrlState s.work.urlStates dest).newer (snap.ts.getD now) = true
  · rw [if_pos hnewer, Observed.apply_neg]
    · rfl
    · rintro ⟨-, hnew⟩
      exact absurd (hnewer.symm.trans hnew) (by decide)
  · rw [if_neg hnewer, Observed.apply_pos ⟨htrusted, Bool.eq_false_of_not_eq_true hnewer⟩]
    unfold Observed.leaves
    rw [observe_congr env dest snap _ _ (hm.symm : Meta.initial.payToPending = m.payToPending)]
    rfl

theorem applyWhenTrusted_observes (dest : PyStr) (snap : Snap) (now : ℤ) (m : Meta) :
    Observes env (applyWhenTrusted env dest snap now m)
      (if snap.trustClass.trusted then [⟨dest, snap, snap.ts.getD now⟩] else []) := by
  unfold applyWhenTrusted
  split
  next h =>
    refine Observes.before ?_ fun _ => .pure _
    exact applyTrustedUrlState_observes env dest snap now h rfl
  next => exact Observes.aside (.pure _)

/-- The observation of a probe row. -/
def rowObserved (dest : PyStr) (snap : Snap) (now : ℤ) : Observed :=
  ⟨dest, { snap with ts := some (snap.ts.getD now) }, snap.ts.getD now⟩

theorem insertProbeRow_observes (dest : PyStr) (snap : Snap) (now : ℤ) :
    Observes env (insertProbeRow env dest snap now) [rowObserved dest snap now] := by
  have hrest : ∀ (ts : ℤ) (m : Meta), Aside (do
      let probeId ← insertProbe dest snap ts
      snap.observedFields.forM (insertObservation (some probeId) (text snap.batchId) .observed
        (some ((text snap.source).getD "402signal")) (text snap.rail) dest ts
        (some snap.trustClass))
      writeClaims dest snap probeId ts
      pure m) := by
    intro ts m
    refine .bind (.stepLook fun _ => rfl) fun probeId => ?_
    refine .bind (.forM fun _ _ => insertObservation_aside _ _ _ _ _ _ _ _ _) fun _ => ?_
    exact .bind (writeClaims_aside _ _ _ _) fun _ => .pure m
  intro s
  have hrun : Observes env (do
      let state ← select fun db => loadUrlState db.urlStates dest
      let risk ← Script.convert (paytoRiskAgainstTrusted env state snap .initial)
      let m ← applyWhenTrusted env dest { snap with ts := some (snap.ts.getD now) } now risk
      let probeId ← insertProbe dest snap (snap.ts.getD now)
      snap.observedFields.forM (insertObservation (some probeId) (text snap.batchId) .observed
        (some ((text snap.source).getD "402signal")) (text snap.rail) dest (snap.ts.getD now)
        (some snap.trustClass))
      writeClaims dest snap probeId (snap.ts.getD now)
      pure m) (if snap.trustClass.trusted then [rowObserved dest snap now] else []) :=
    Observes.after (.look _) fun state => Observes.after (.convert _) fun risk =>
      Observes.before (applyWhenTrusted_observes env dest _ now risk) fun m => hrest _ m
  unfold insertProbeRow
  rw [Script.run_bind, Script.run_convert]
  refine (hrun s).trans ?_
  show _ = (rowObserved dest snap now).apply env s.work.urlStates
  cases htrusted : snap.trustClass.trusted with
  | false =>
      rw [Observed.apply_tentative htrusted]
      rfl
  | true => rfl

theorem writeProbeRow_observes (dest : PyStr) (snap : Snap) (now : ℤ) :
    Observes env (writeProbeRow env dest snap now) [rowObserved dest snap now] :=
  (insertProbeRow_observes env dest snap now).before fun m =>
    .bind (capProbes_aside _) fun _ => .pure m

/-! ## What a call observes -/

/-- The observations of a batch. -/
def batchObserved (batchId : PyStr) (now : ℤ) (rows : List (PyStr × Snap)) : List Observed :=
  rows.map fun r => rowObserved r.1 { r.2 with batchId := some batchId } now

theorem writeBatch_observes (batchId : PyStr) (now : ℤ) (rows : List (PyStr × Snap)) :
    Observes env (writeBatch env batchId now rows) (batchObserved batchId now rows) := by
  induction rows with
  | nil => exact Observes.aside (.pure _)
  | cons r rest ih =>
      obtain ⟨dest, snap⟩ := r
      unfold writeBatch
      exact (writeProbeRow_observes env dest _ now).bind fun m =>
        ih.before fun metas => .pure _

/-- The observation of a probe that is settled late. -/
def settledObserved (p : Probe) : Option Observed :=
  (text (some p.url)).map fun dest => ⟨dest, p.settledSnap, p.ts⟩

theorem applySettled_observes (now : ℤ) (rows : List Probe) :
    Observes env (applySettled env now rows) (rows.filterMap settledObserved) := by
  induction rows with
  | nil => exact Observes.aside (.pure _)
  | cons p rest ih =>
      have hone : Observes env (applySettledProbe env p now) (settledObserved p).toList := by
        unfold applySettledProbe settledObserved
        split
        next hurl =>
          rw [hurl]
          exact Observes.aside (.pure _)
        next dest hurl =>
          rw [hurl]
          exact (applyTrustedUrlState_observes env dest p.settledSnap now rfl rfl).before
            fun _ => .pure _
      have hlist : (p :: rest).filterMap settledObserved =
          (settledObserved p).toList ++ rest.filterMap settledObserved := by
        rw [List.filterMap_cons]
        cases settledObserved p <;> rfl
      unfold applySettled
      rw [hlist]
      exact hone.bind fun _ => ih

theorem sealBatch_urlStates (batchId : PyStr) (now : ℤ) (db : Db) :
    (db.sealBatch batchId now).urlStates = db.urlStates := by
  unfold Db.sealBatch
  split <;> rfl

/-- The observations that a call applies to the states of URLs. -/
def Call.observed (db : Db) : Call → List Observed
  | recordProbe url snap now =>
      match text url with
      | none => []
      | some dest =>
          if ((text snap.batchId).map db.isSealed).getD false then []
          else [rowObserved dest snap now]
  | persistRouteBatch batchId results now =>
      match okBatchId env batchId with
      | none => []
      | some bid => if db.isSealed bid then [] else batchObserved bid now (batchRows results)
  | markBatchSettled batchId _ =>
      match (okBatchId env batchId).or (text batchId) with
      | none => []
      | some bid => (db.tentativeProbes bid).filterMap settledObserved
  | recordClaim .. => []
  | attestationFor .. => []

/-- A call leaves the states of URLs that its observations leave. -/
theorem Call.after_urlStates (c : Call) (s : Session Db) :
    (c.after env s).work.urlStates = observeAll env s.work.urlStates (c.observed env s.work) := by
  cases c with
  | recordProbe url snap now =>
      unfold after observed ProbeHistory.recordProbe
      dsimp only
      cases text url with
      | none => rfl
      | some dest =>
          have hrow : Observes env (do
              let m ← writeProbeRow env dest snap now
              commit
              pure m) [rowObserved dest snap now] :=
            (writeProbeRow_observes env dest snap now).before fun m =>
              .bind .commit fun _ => .pure m
          cases text snap.batchId with
          | none => exact hrow s
          | some batchId =>
              dsimp only
              rw [Script.run_bind, Session.run_select]
              dsimp only [Option.map_some, Option.getD_some]
              split
              · rfl
              · exact hrow s
  | persistRouteBatch batchId results now =>
      unfold after observed ProbeHistory.persistRouteBatch
      dsimp only
      cases okBatchId env batchId with
      | none => rfl
      | some bid =>
          dsimp only
          rw [Script.run_bind, Session.run_select]
          dsimp only
          split
          · rfl
          · exact (writeBatch_observes env bid now (batchRows results)).before (fun metas =>
              .bind (.execute (sealBatch_urlStates _ now)) fun _ =>
                .bind .commit fun _ => .pure metas) s
  | markBatchSettled batchId now =>
      unfold after observed ProbeHistory.markBatchSettled
      dsimp only
      cases (okBatchId env batchId).or (text batchId) with
      | none => rfl
      | some bid =>
          dsimp only
          rw [Script.run_bind, Session.run_select]
          dsimp only
          split
          next hrows =>
            rw [hrows]
            rfl
          next =>
            exact (Observes.after (.execute (f := Db.settleProbes _) fun _ => rfl) fun _ =>
              Observes.after (.execute (f := Db.settleObservations _) fun _ => rfl) fun _ =>
                (applySettled_observes env now _).before fun _ => .commit) s
  | recordClaim url claimed source rail ts batchId now =>
      unfold after observed ProbeHistory.recordClaim
      dsimp only
      split
      · exact (show Observes env _ [] from Observes.aside
          (.bind (writeClaimed_aside _ _ _ _ _ _ _ _) fun _ =>
            .bind (capObservations_aside _) fun _ => .commit)) s
      · rfl
  | attestationFor batchId now =>
      have haside : Aside (ProbeHistory.attestationFor env batchId now) := by
        unfold ProbeHistory.attestationFor
        refine .bind ?_ fun bid => ?_
        · unfold attestedBatch
          split
          · exact .pure _
          · exact .look _
        · split
          · exact .pure _
          · refine .bind (.look _) fun rows => .bind (.convert _) fun digest => ?_
            split
            · exact .pure _
            · exact .bind (.convert _) fun created =>
                .bind (.execute (sealBatch_urlStates _ now)) fun _ =>
                  .bind .commit fun _ => .pure _
      exact haside.run s

/-- The observations of a run of calls. -/
def observedBy : List Call → Session Db → List Observed
  | [], _ => []
  | c :: rest, s => c.observed env s.work ++ observedBy rest (c.after env s)

/-- After any calls the states of URLs are those that the observations leave. -/
theorem runCalls_urlStates (calls : List Call) (s : Session Db) :
    (runCalls env calls s).work.urlStates =
      observeAll env s.work.urlStates (observedBy env calls s) := by
  induction calls generalizing s with
  | nil => rfl
  | cons c rest ih =>
      show (runCalls env rest (c.after env s)).work.urlStates =
        observeAll env s.work.urlStates
          (c.observed env s.work ++ observedBy env rest (c.after env s))
      rw [ih, Call.after_urlStates]
      unfold observeAll
      rw [List.foldl_append]

/-! ## One observation -/

theorem lookup_putUrlState (row : UrlState) (rows : List UrlState) (u : PyStr) :
    Table.lookup UrlState.url (putUrlState row rows) u =
      if u = row.url then some row else Table.lookup UrlState.url rows u := by
  unfold putUrlState
  split
  next hnone =>
    rw [Table.lookup_append]
    by_cases hu : u = row.url
    · rw [hu, hnone, if_pos rfl]
      simp [Table.lookup]
    · have hne : ¬row.url = u := fun h => hu h.symm
      rw [if_neg hu]
      simp [Table.lookup, hne]
  next old hold =>
    rw [Table.lookup_update (f := row.replace) fun _ => rfl]
    by_cases hu : u = row.url
    · rw [if_pos hu, if_pos hu, hold, Option.map_some]
      unfold UrlState.replace
      rw [Table.lookup_key hold]
    · rw [if_neg hu, if_neg hu]

section Reading

variable (rows : List UrlState) (u : PyStr)

/-- What is read is read again as it is. -/
theorem text_lastPayTo : text (loadUrlState rows u).lastPayTo = (loadUrlState rows u).lastPayTo := by
  unfold loadUrlState
  split
  · rfl
  · exact text_text _

theorem text_pendingPayTo :
    text (loadUrlState rows u).pendingPayTo = (loadUrlState rows u).pendingPayTo := by
  unfold loadUrlState
  split
  · rfl
  · exact text_text _

end Reading

section Apply

variable {rows : List UrlState} {o : Observed} {u : PyStr}

theorem Observed.leaves_url : (o.leaves env rows).url = o.url := rfl

/-- An observation changes the state of its own URL only. -/
theorem load_apply_other (hu : u ≠ o.url) :
    loadUrlState (o.apply env rows) u = loadUrlState rows u := by
  unfold Observed.apply
  split
  · unfold loadUrlState
    rw [lookup_putUrlState, Observed.leaves_url, if_neg hu]
  · rfl

theorem load_apply (h : o.Applied rows) :
    loadUrlState (o.apply env rows) o.url = (o.leaves env rows).read := by
  rw [Observed.apply_pos h]
  unfold loadUrlState
  rw [lookup_putUrlState, Observed.leaves_url, if_pos rfl]

/-- The address is another one than the trusted one. -/
def Observed.Other (rows : List UrlState) (o : Observed) : Prop :=
  (loadUrlState rows o.url).otherPayTo env o.snap = true

/-- The address is the one that waits for a confirmation. -/
def Observed.Confirms (rows : List UrlState) (o : Observed) : Prop :=
  (loadUrlState rows o.url).pendingPayToSeen env o.snap = true

instance (rows : List UrlState) (o : Observed) : Decidable (o.Other env rows) :=
  inferInstanceAs (Decidable (_ = true))

instance (rows : List UrlState) (o : Observed) : Decidable (o.Confirms env rows) :=
  inferInstanceAs (Decidable (_ = true))

/-- Another address is a known one. -/
theorem Observed.Other.isSome (h : o.Other env rows) : o.payTo.isSome := by
  unfold Observed.Other UrlState.otherPayTo at h
  simp only [Bool.and_eq_true] at h
  exact h.1.2

theorem text_or (x y : Option PyStr) : text ((text x).or (text y)) = (text x).or (text y) := by
  have hx := text_text x
  cases htext : text x with
  | none => rw [Option.none_or, text_text]
  | some s =>
      rw [htext] at hx
      exact hx

/-- The trusted address after an applied observation. -/
theorem load_apply_lastPayTo (h : o.Applied rows) :
    (loadUrlState (o.apply env rows) o.url).lastPayTo =
      if o.Other env rows ∧ ¬o.Confirms env rows then (loadUrlState rows o.url).lastPayTo
      else o.payTo.or (loadUrlState rows o.url).lastPayTo := by
  rw [load_apply env h]
  show text (o.leaves env rows).lastPayTo = _
  rw [← text_lastPayTo]
  unfold Observed.leaves UrlState.observe Observed.payTo
  dsimp only [Meta.initial]
  by_cases hother : o.Other env rows
  · have hknown := hother.isSome
    have hother' : (loadUrlState rows o.url).otherPayTo env o.snap = true := hother
    rw [hother']
    by_cases hconfirms : o.Confirms env rows
    · have hconfirms' : (loadUrlState rows o.url).pendingPayToSeen env o.snap = true := hconfirms
      rw [hconfirms', if_neg (show ¬(o.Other env rows ∧ ¬o.Confirms env rows) from
        fun h => h.2 hconfirms)]
      obtain ⟨s, hs⟩ := Option.isSome_iff_exists.mp hknown
      have hs' : text o.snap.payTo = some s := hs
      have htext := text_text o.snap.payTo
      rw [hs'] at htext ⊢
      exact htext
    · have hconfirms' : (loadUrlState rows o.url).pendingPayToSeen env o.snap = false :=
        Bool.eq_false_of_not_eq_true hconfirms
      rw [hconfirms', if_pos (show o.Other env rows ∧ ¬o.Confirms env rows from
        ⟨hother, hconfirms⟩)]
      exact text_text _
  · have hother' : (loadUrlState rows o.url).otherPayTo env o.snap = false :=
      Bool.eq_false_of_not_eq_true hother
    rw [hother', if_neg (show ¬(o.Other env rows ∧ ¬o.Confirms env rows) from fun h => hother h.1)]
    exact text_or _ _

/-- The address that waits after an applied observation. -/
theorem load_apply_pendingPayTo (h : o.Applied rows) :
    (loadUrlState (o.apply env rows) o.url).pendingPayTo =
      if o.Other env rows then (if o.Confirms env rows then none else o.payTo)
      else if o.payTo.isSome then none else (loadUrlState rows o.url).pendingPayTo := by
  rw [load_apply env h]
  show text (o.leaves env rows).pendingPayTo = _
  rw [← text_pendingPayTo]
  unfold Observed.leaves UrlState.observe Observed.payTo
  dsimp only [Meta.initial]
  by_cases hother : o.Other env rows
  · have hother' : (loadUrlState rows o.url).otherPayTo env o.snap = true := hother
    rw [hother', if_pos hother]
    by_cases hconfirms : o.Confirms env rows
    · have hconfirms' : (loadUrlState rows o.url).pendingPayToSeen env o.snap = true := hconfirms
      rw [hconfirms', if_pos hconfirms]
      rfl
    · have hconfirms' : (loadUrlState rows o.url).pendingPayToSeen env o.snap = false :=
        Bool.eq_false_of_not_eq_true hconfirms
      rw [hconfirms', if_neg hconfirms]
      exact text_text _
  · have hother' : (loadUrlState rows o.url).otherPayTo env o.snap = false :=
      Bool.eq_false_of_not_eq_true hother
    rw [hother', if_neg hother]
    cases (text o.snap.payTo).isSome with
    | true => rfl
    | false => exact text_text _

theorem load_apply_lastChecked (h : o.Applied rows) :
    (loadUrlState (o.apply env rows) o.url).lastChecked = some o.ts := by
  rw [load_apply env h]
  rfl

/-- The time of the last trusted observation does not go back, and an older
observation changes nothing. -/
theorem apply_older {t : ℤ} (ht : (loadUrlState rows o.url).lastChecked = some t)
    (hold : o.ts < t) : o.apply env rows = rows := by
  refine Observed.apply_neg fun h => ?_
  have hnew := h.2
  unfold UrlState.newer at hnew
  rw [ht] at hnew
  exact of_decide_eq_false hnew hold

theorem lastChecked_mono (o : Observed) {t : ℤ} (ht : (loadUrlState rows u).lastChecked = some t) :
    ∃ t', (loadUrlState (o.apply env rows) u).lastChecked = some t' ∧ t ≤ t' := by
  by_cases h : o.Applied rows ∧ u = o.url
  · obtain ⟨happlied, rfl⟩ := h
    refine ⟨o.ts, load_apply_lastChecked env happlied, ?_⟩
    by_contra hold
    rw [not_le] at hold
    have hnew := happlied.2
    unfold UrlState.newer at hnew
    rw [ht] at hnew
    exact of_decide_eq_false hnew hold
  · refine ⟨t, ?_, le_rfl⟩
    by_cases happlied : o.Applied rows
    · rw [load_apply_other env fun hu => h ⟨happlied, hu⟩]
      exact ht
    · rw [Observed.apply_neg happlied]
      exact ht

end Apply

/-! ## Lists of observations -/

theorem observeAll_append (rows : List UrlState) (os : List Observed) (o : Observed) :
    observeAll env rows (os ++ [o]) = o.apply env (observeAll env rows os) := by
  unfold observeAll
  rw [List.foldl_append]
  rfl

/-- In `os`, the last applied observation of `u` with a known address is of `p`. -/
def LastKnown (os : List Observed) (u p : PyStr) : Prop :=
  ∃ before o later, os = before ++ o :: later ∧ o.url = u ∧ o.payTo = some p ∧
    o.Applied (observeAll env [] before) ∧
    ∀ mid o' rest, later = mid ++ o' :: rest → o'.url = u →
      o'.Applied (observeAll env [] (before ++ o :: mid)) → o'.payTo = none

/-- What is no applied observation of `u` with a known address leaves the last one. -/
theorem LastKnown.snoc {os : List Observed} {u p : PyStr} (h : LastKnown env os u p) {o : Observed}
    (ho : o.url = u → o.Applied (observeAll env [] os) → o.payTo = none) :
    LastKnown env (os ++ [o]) u p := by
  obtain ⟨before, o', later, rfl, hu, hp, happlied, hlater⟩ := h
  refine ⟨before, o', later ++ [o], by rw [List.append_assoc]; rfl, hu, hp, happlied, ?_⟩
  intro mid o'' rest heq hu'' happlied''
  rcases List.eq_nil_or_concat rest with rfl | ⟨rest', last, rfl⟩
  · obtain ⟨hmid, hlast⟩ := List.append_inj' heq rfl
    rw [← hmid] at happlied''
    rw [← (List.cons.inj hlast).1] at hu'' happlied'' ⊢
    exact ho hu'' happlied''
  · rw [List.concat_eq_append, ← List.cons_append, ← List.append_assoc] at heq
    obtain ⟨rfl, -⟩ := List.append_inj' heq rfl
    exact hlater mid o'' rest' rfl hu'' happlied''

/-- The address that waits for a confirmation is that of the last applied observation
with a known address. -/
theorem pending_origin (os : List Observed) {u p : PyStr}
    (h : (loadUrlState (observeAll env [] os) u).pendingPayTo = some p) : LastKnown env os u p := by
  induction os using List.reverseRecOn with
  | nil => cases h
  | append_singleton os o ih =>
      rw [observeAll_append] at h
      by_cases hu : o.url = u
      · subst hu
        by_cases happlied : o.Applied (observeAll env [] os)
        · rw [load_apply_pendingPayTo env happlied] at h
          by_cases hother : o.Other env (observeAll env [] os)
          · rw [if_pos hother] at h
            split at h
            · cases h
            · -- the observation itself starts to wait
              refine ⟨os, o, [], rfl, rfl, h, happlied, fun mid o' rest heq => ?_⟩
              exact absurd heq (by simp)
          · rw [if_neg hother] at h
            split at h
            · cases h
            next hunknown =>
              exact (ih h).snoc env fun _ _ => Option.not_isSome_iff_eq_none.mp hunknown
        · rw [Observed.apply_neg happlied] at h
          exact (ih h).snoc env fun _ h => absurd h happlied
      · rw [load_apply_other env fun h => hu h.symm] at h
        exact (ih h).snoc env fun h => absurd h hu

/-- The trusted address of a URL changes to one that differs on the rail of the
observation only when the last applied observation with a known address, and the
applied one that changes it, are of the new address. -/
theorem rotation_confirmed (os : List Observed) (o : Observed) {u a b : PyStr}
    (ha : (loadUrlState (observeAll env [] os) u).lastPayTo = some a)
    (hb : (loadUrlState (observeAll env [] (os ++ [o])) u).lastPayTo = some b)
    (hdiffer : paytoEqual env.uni (some a) (some b) (text o.snap.rail) = false) :
    o.url = u ∧ o.Applied (observeAll env [] os) ∧ o.payTo = some b ∧
      ∃ p, LastKnown env os u p ∧
        paytoEqual env.uni (some p) (some b) (text o.snap.rail) = true := by
  have htext : text (some a) = some a := by
    rw [← ha]
    exact text_lastPayTo _ _
  have hne : a ≠ b := by
    rintro rfl
    rw [paytoEqual_self env.uni htext] at hdiffer
    cases hdiffer
  rw [observeAll_append] at hb
  have hu : o.url = u := by
    by_contra hu
    rw [load_apply_other env fun h => hu h.symm, ha] at hb
    exact hne (Option.some.inj hb)
  subst hu
  have happlied : o.Applied (observeAll env [] os) := by
    by_contra happlied
    rw [Observed.apply_neg happlied, ha] at hb
    exact hne (Option.some.inj hb)
  rw [load_apply_lastPayTo env happlied, ha] at hb
  have hconfirm : ¬(o.Other env (observeAll env [] os) ∧ ¬o.Confirms env (observeAll env [] os)) := by
    intro h
    rw [if_pos h] at hb
    exact hne (Option.some.inj hb)
  rw [if_neg hconfirm] at hb
  have hpayTo : o.payTo = some b := by
    cases hknown : o.payTo with
    | none =>
        rw [hknown, Option.none_or] at hb
        exact absurd (Option.some.inj hb) hne
    | some s =>
        rw [hknown, Option.some_or] at hb
        exact hb
  have hother : o.Other env (observeAll env [] os) := by
    unfold Observed.Other UrlState.otherPayTo
    rw [ha, htext, show text o.snap.payTo = some b from hpayTo, hdiffer]
    rfl
  have hseen : o.Confirms env (observeAll env [] os) := by
    by_contra h
    exact hconfirm ⟨hother, h⟩
  unfold Observed.Confirms UrlState.pendingPayToSeen at hseen
  rw [Bool.and_eq_true, text_pendingPayTo, show text o.snap.payTo = some b from hpayTo] at hseen
  obtain ⟨p, hp⟩ := Option.isSome_iff_exists.mp hseen.1
  rw [hp] at hseen
  exact ⟨rfl, happlied, hpayTo, p, pending_origin env os hp, hseen.2⟩

/-- Over any calls, the states of URLs are those that the observations leave one after
another.  A trusted address is replaced by one that differs from it on the rail of the
observation only by the second of two applied observations of the new one, between
which no applied observation of the URL has a known address; a tentative observation
changes nothing; the time of the last trusted observation does not go back, and an
older observation changes nothing. -/
theorem payTo_rotation (calls : List Call) :
    (runCalls env calls start).work.urlStates = observeAll env [] (observedBy env calls start) ∧
    ∀ before o later, observedBy env calls start = before ++ o :: later →
      (∀ u a b, (loadUrlState (observeAll env [] before) u).lastPayTo = some a →
        (loadUrlState (observeAll env [] (before ++ [o])) u).lastPayTo = some b →
        paytoEqual env.uni (some a) (some b) (text o.snap.rail) = false →
        o.url = u ∧ o.Applied (observeAll env [] before) ∧ o.payTo = some b ∧
          ∃ p, LastKnown env before u p ∧
            paytoEqual env.uni (some p) (some b) (text o.snap.rail) = true) ∧
      (o.snap.trustClass.trusted = false →
        observeAll env [] (before ++ [o]) = observeAll env [] before) ∧
      (∀ u t, (loadUrlState (observeAll env [] before) u).lastChecked = some t →
        (∃ t', (loadUrlState (observeAll env [] (before ++ [o])) u).lastChecked = some t' ∧ t ≤ t') ∧
        (o.url = u → o.ts < t → observeAll env [] (before ++ [o]) = observeAll env [] before)) := by
  refine ⟨runCalls_urlStates env calls start, fun before o later _ =>
    ⟨fun u a b ha hb hdiffer => rotation_confirmed env before o ha hb hdiffer, fun h => ?_,
      fun u t ht => ⟨?_, ?_⟩⟩⟩
  · rw [observeAll_append, Observed.apply_tentative h]
  · rw [observeAll_append]
    exact lastChecked_mono env o ht
  · rintro rfl hold
    rw [observeAll_append, apply_older env ht hold]

end Signal402.ProbeHistory
