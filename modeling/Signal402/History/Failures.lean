import Signal402.History.Store

/-!
# Failures of the calls that write the history

The calls swallow what is raised in them.  What they had written by then stays in
the transaction that is open on the connection, for the next call to commit.

* `NoTrace` — whatever is called later, the failure makes no difference to the file.
* `noTrace_iff` — that is so when the tables are as they were before the call.
* `persistRouteBatch_harmless`, `markBatchSettled_harmless` — the calls that any
  failure leaves without a trace, which are those that write nothing.
-/

namespace Signal402.ProbeHistory

open Session (execute update select commit)

variable (env : Env)

/-- A failure of `x` after `n` of its points makes no difference to the file, whatever
is called later. -/
def NoTrace {α : Type} (x : Code α) (n : ℕ) (s : Session Db) : Prop :=
  ∀ later : List Call, (runCalls env later (x.upTo n s)).file = (runCalls env later s).file

/-! ## A call that only commits -/

theorem tentativeProbes_nil {db : Db} {b : PyStr}
    (h : ∀ o ∈ db.observations, o.batchId ≠ some b) : db.tentativeProbes b = [] := by
  have hnone : (db.probes.filter fun p => p.trustClass = .routeTentative ∧
      db.observations.any fun o => o.probeId = some p.id && o.batchId = some b) = [] := by
    rw [List.filter_eq_nil_iff]
    intro p hp hmatch
    obtain ⟨o, ho, hbatch⟩ := List.any_eq_true.mp (of_decide_eq_true hmatch).2
    exact h o ho (of_decide_eq_true (Bool.and_eq_true_iff.mp hbatch).2)
  unfold Db.tentativeProbes
  rw [hnone]
  rfl

theorem settleBatchObservations_eq {db : Db} {b : PyStr}
    (h : ∀ o ∈ db.observations, o.batchId = some b →
      o.trustClass ≠ none ∧ o.trustClass ≠ some .routeTentative) :
    db.settleBatchObservations b = db := by
  have hmap : (db.observations.map fun o =>
      if o.batchId = some b ∧ (o.trustClass = none ∨ o.trustClass = some .routeTentative)
      then { o with trustClass := some .routeSettled } else o) = db.observations := by
    conv_rhs => rw [← List.map_id db.observations]
    refine List.map_congr_left fun o ho => if_neg fun hb => ?_
    obtain ⟨hnone, htentative⟩ := h o ho hb.1
    exact hb.2.elim hnone htentative
  unfold Db.settleBatchObservations
  rw [hmap]

theorem settleBatchObservations_self {db : Db} {b : PyStr}
    (h : db.settleBatchObservations b = db) :
    ∀ o ∈ db.observations, o.batchId = some b →
      o.trustClass ≠ none ∧ o.trustClass ≠ some .routeTentative := by
  intro o ho hbatch
  have hmap : db.observations.map _ = db.observations := congrArg Db.observations h
  have hself := List.map_eq_map_iff.mp (hmap.trans (List.map_id _).symm) o ho
  by_contra hopen
  have hcond : o.batchId = some b ∧ (o.trustClass = none ∨ o.trustClass = some .routeTentative) :=
    ⟨hbatch, by by_contra hc; exact hopen (not_or.mp hc)⟩
  rw [if_pos hcond] at hself
  have hclass := congrArg Observation.trustClass hself
  dsimp only [id] at hclass
  rcases hcond.2 with hnone | htentative
  · rw [hnone] at hclass
    cases hclass
  · rw [htentative] at hclass
    cases hclass

/-- The promotion of tentative probes changes them. -/
theorem settleProbes_ne {db : Db} {b : PyStr} (h : db.tentativeProbes b ≠ []) :
    db.settleProbes ((db.tentativeProbes b).map (·.id)) ≠ db := by
  intro hsame
  obtain ⟨p, hp⟩ := List.exists_mem_of_ne_nil _ h
  have hmem : p ∈ db.tentativeProbes b := hp
  unfold Db.tentativeProbes at hp
  rw [List.mem_insertionSort] at hp
  obtain ⟨hprobe, hmatch⟩ := List.mem_filter.mp hp
  have hmap : db.probes.map _ = db.probes := congrArg Db.probes hsame
  have hself := List.map_eq_map_iff.mp (hmap.trans (List.map_id _).symm) p hprobe
  rw [if_pos (List.mem_map_of_mem hmem)] at hself
  have hclass := congrArg Probe.trustClass hself
  dsimp only [id] at hclass
  rw [(of_decide_eq_true hmatch).1] at hclass
  cases hclass

theorem settleBatchProbes_eq {db : Db} {b : PyStr} (h : db.tentativeProbes b = []) :
    db.settleBatchProbes b = db := by
  have hfilter := h
  unfold Db.tentativeProbes at hfilter
  rw [← List.length_eq_zero_iff, List.length_insertionSort, List.length_eq_zero_iff,
    List.filter_eq_nil_iff] at hfilter
  have hmap : (db.probes.map fun p =>
      if p.id ∈ (db.observations.filter (·.batchId = some b)).filterMap (·.probeId) ∧
          p.trustClass = .routeTentative then
        { p with settledRouteObservation := true, trustClass := .routeSettled }
      else p) = db.probes := by
    conv_rhs => rw [← List.map_id db.probes]
    refine List.map_congr_left fun p hp => if_neg fun hb => hfilter p hp ?_
    obtain ⟨o, ho, hid⟩ := List.mem_filterMap.mp hb.1
    have hbatch := (List.mem_filter.mp ho)
    refine decide_eq_true ⟨hb.2, List.any_eq_true.mpr ⟨o, hbatch.1, ?_⟩⟩
    rw [Bool.and_eq_true]
    exact ⟨decide_eq_true hid, hbatch.2⟩
  unfold Db.settleBatchProbes
  dsimp only
  rw [hmap]

/-- The late settlement of a batch that no row belongs to only commits. -/
theorem markBatchSettled_commits {b : PyStr} {s : Session Db} (hb : text (some b) = some b)
    (h : ∀ o ∈ s.work.observations, o.batchId ≠ some b) :
    (runCalls env [.markBatchSettled (some b) 0] s).file = s.work := by
  have hbid : (okBatchId env (some b)).or (text (some b)) = some b := by
    unfold okBatchId
    rw [hb, Option.bind_some]
    split
    · rfl
    · split <;> rfl
  have hnone := tentativeProbes_nil h
  show ((markBatchSettled env (some b) 0).run s).2.file = s.work
  unfold markBatchSettled
  rw [hbid]
  dsimp only
  rw [Script.run_bind, Session.run_select]
  dsimp only
  rw [if_pos hnone]
  show Db.settleBatchObservations b (Db.settleBatchProbes b s.work) = s.work
  rw [settleBatchProbes_eq hnone]
  exact settleBatchObservations_eq fun o ho hbatch => absurd hbatch (h o ho)

/-- A failure before the commit leaves no trace when the tables are as they were. -/
theorem noTrace_iff {α : Type} {x : Code α} (hx : Session.CommitsLast x) {n : ℕ} {s : Session Db}
    (hn : n < x.points s) : NoTrace env x n s ↔ (x.upTo n s).work = s.work := by
  obtain ⟨b, hb, hfresh⟩ := exists_text_notMem
    ((s.work.observations ++ (x.upTo n s).work.observations).filterMap Observation.batchId)
  have hnot : ∀ o ∈ s.work.observations ++ (x.upTo n s).work.observations,
      o.batchId ≠ some b := fun o ho hbatch => hfresh (List.mem_filterMap.mpr ⟨o, ho, hbatch⟩)
  refine Session.file_eq_iff (hx s n hn) ⟨[.markBatchSettled (some b) 0], ?_, ?_⟩
  · exact markBatchSettled_commits env hb fun o ho => hnot o (List.mem_append_right _ ho)
  · exact markBatchSettled_commits env hb fun o ho => hnot o (List.mem_append_left _ ho)

/-! ## The calls commit last -/

/-- Code without a commit. -/
abbrev Uncommitted {α : Type} (x : Code α) : Prop := Script.Leaves Session.file x

theorem insertObservation_uncommitted (probeId : Option ℕ) (batchId : Option PyStr)
    (st : SourceType) (source rail : Option PyStr) (url : PyStr) (ts : ℤ)
    (trustClass : Option TrustClass) (entry : Field × Option PyStr) :
    Uncommitted (insertObservation probeId batchId st source rail url ts trustClass entry) := by
  unfold insertObservation
  split
  · exact .pure _
  · exact .execute_file _

theorem applyTrustedUrlState_uncommitted (dest : PyStr) (snap : Snap) (now : ℤ) (m : Meta) :
    Uncommitted (applyTrustedUrlState env dest snap now m) := by
  unfold applyTrustedUrlState
  refine .bind (.convert _) fun ts => .bind (.look _) fun state => ?_
  split
  · exact .pure _
  · exact .bind (.convert _) fun out => .bind (.execute_file _) fun _ => .pure _

theorem insertProbeRow_uncommitted (dest : PyStr) (snap : Snap) (now : ℤ) :
    Uncommitted (insertProbeRow env dest snap now) := by
  unfold insertProbeRow
  refine .bind (.convert _) fun ts => .bind (.look _) fun state => .bind (.convert _) fun risk => ?_
  refine .bind ?_ fun m => .bind (.update_file _ _) fun probeId => ?_
  · unfold applyWhenTrusted
    split
    · exact .bind (applyTrustedUrlState_uncommitted env _ _ _ _) fun out => .pure _
    · exact .pure _
  · refine .bind (.forM fun _ _ => insertObservation_uncommitted _ _ _ _ _ _ _ _ _) fun _ => ?_
    refine .bind ?_ fun _ => .pure m
    unfold writeClaims
    split
    · exact .pure _
    · exact .forM fun _ _ => insertObservation_uncommitted _ _ _ _ _ _ _ _ _

theorem deleteProbesAndObs_uncommitted (ids : List ℕ) : Uncommitted (deleteProbesAndObs ids) := by
  unfold deleteProbesAndObs
  split
  · exact .pure _
  · exact .bind (.execute_file _) fun _ => .execute_file _

theorem capObservations_uncommitted (url : PyStr) : Uncommitted (capObservations url) := by
  unfold capObservations
  refine .bind (.look _) fun extra => ?_
  split
  · exact .pure _
  · exact .execute_file _

theorem capProbes_uncommitted (url : PyStr) : Uncommitted (capProbes url) := by
  unfold capProbes
  refine .bind (.look _) fun ids => .bind (deleteProbesAndObs_uncommitted ids) fun _ =>
    .bind (.look _) fun n => ?_
  split
  · exact capObservations_uncommitted url
  · exact .bind (.look _) fun drop =>
      .bind (deleteProbesAndObs_uncommitted drop) fun _ => capObservations_uncommitted url

theorem writeBatch_uncommitted (batchId : PyStr) (now : ℤ) (rows : List (PyStr × Snap)) :
    Uncommitted (writeBatch env batchId now rows) := by
  induction rows with
  | nil => exact .pure _
  | cons r rest ih =>
      obtain ⟨dest, snap⟩ := r
      unfold writeBatch writeProbeRow
      refine .bind (.bind (insertProbeRow_uncommitted env _ _ _) fun m =>
        .bind (capProbes_uncommitted _) fun _ => .pure m) fun m => ?_
      exact .bind ih fun metas => .pure _

theorem applySettled_uncommitted (now : ℤ) (probes : List Probe) :
    Uncommitted (applySettled env now probes) := by
  induction probes with
  | nil => exact .pure _
  | cons p rest ih =>
      unfold applySettled applySettledProbe
      refine .bind ?_ fun _ => ih
      split
      · exact .pure _
      · exact .bind (applyTrustedUrlState_uncommitted env _ _ _ _) fun _ => .pure _

theorem persistRouteBatch_commitsLast (batchId : Option PyStr)
    (results : List (Option PyStr × Snap)) (now : ℤ) :
    Session.CommitsLast (persistRouteBatch env batchId results now) := by
  unfold persistRouteBatch
  split
  · exact .pure _
  · refine .bind (.look _) fun isSealed => ?_
    split
    · exact .pure _
    · exact .bind (writeBatch_uncommitted env _ _ _) fun metas =>
        .bind (.execute_file _) fun _ => .commit_pure _

theorem markBatchSettled_commitsLast (batchId : Option PyStr) (now : ℤ) :
    Session.CommitsLast (markBatchSettled env batchId now) := by
  unfold markBatchSettled
  split
  · exact .pure _
  · refine .bind (.look _) fun probes => ?_
    split
    · exact .bind (.execute_file _) fun _ => .bind (.execute_file _) fun _ => .commit
    · exact .bind (.execute_file _) fun _ => .bind (.execute_file _) fun _ =>
        .bind (applySettled_uncommitted env _ _) fun _ => .commit

/-! ## Calls that write nothing -/

section Harmless

variable {env} {s : Session Db}

/-- A failure of the batch is harmless only when the batch is refused. -/
theorem persistRouteBatch_harmless {batchId : Option PyStr}
    {results : List (Option PyStr × Snap)} {now : ℤ} :
    (persistRouteBatch env batchId results now).Harmless s ↔
      ∀ bid, okBatchId env batchId = some bid → s.work.isSealed bid = true := by
  unfold persistRouteBatch
  cases hbid : okBatchId env batchId with
  | none =>
      refine ⟨fun _ bid h => ?_, fun _ => Script.harmless_pure _⟩
      cases h
  | some bid =>
      dsimp only
      rw [Script.harmless_select]
      by_cases hsealed : s.work.isSealed bid = true
      · rw [if_pos hsealed]
        refine ⟨fun _ bid' h => ?_, fun _ => Script.harmless_pure _⟩
        rw [← Option.some.inj h]
        exact hsealed
      · rw [if_neg hsealed]
        refine iff_of_false (fun h => ?_) fun h => hsealed (h bid rfl)
        -- the seal changes the tables before the commit
        rw [Script.harmless_bind, Script.harmless_bind, Script.quiet_execute] at h
        have hseal := congrArg (fun db => db.isSealed bid) h.2.1
        unfold Db.sealBatch at hseal
        rw [if_neg hsealed] at hseal
        refine hsealed (hseal.symm.trans ?_)
        unfold Db.isSealed
        simp

/-- A failure of the late settlement is harmless only when there is nothing to settle. -/
theorem markBatchSettled_harmless {batchId : Option PyStr} {now : ℤ} :
    (markBatchSettled env batchId now).Harmless s ↔
      ∀ bid, (okBatchId env batchId).or (text batchId) = some bid →
        s.work.tentativeProbes bid = [] ∧
        ∀ o ∈ s.work.observations, o.batchId = some bid →
          o.trustClass ≠ none ∧ o.trustClass ≠ some .routeTentative := by
  unfold markBatchSettled
  cases hbid : (okBatchId env batchId).or (text batchId) with
  | none =>
      refine ⟨fun _ bid h => ?_, fun _ => Script.harmless_pure _⟩
      cases h
  | some bid =>
      dsimp only
      rw [Script.harmless_select]
      by_cases hrows : s.work.tentativeProbes bid = []
      · rw [if_pos hrows]
        rw [Script.harmless_bind, Script.harmless_bind, Script.quiet_execute, Script.quiet_execute, settleBatchProbes_eq hrows]
        refine ⟨fun h bid' hbid' => ?_, fun h => ⟨rfl, ?_, Script.harmless_commit⟩⟩
        · rw [← Option.some.inj hbid']
          exact ⟨hrows, settleBatchObservations_self h.2.1⟩
        · exact settleBatchObservations_eq (h bid rfl).2
      · rw [if_neg hrows]
        refine iff_of_false (fun h => ?_) fun h => hrows (h bid rfl).1
        rw [Script.harmless_bind, Script.quiet_execute] at h
        exact settleProbes_ne hrows h.1

end Harmless

theorem persistRouteBatch_noTrace_iff (batchId : Option PyStr)
    (results : List (Option PyStr × Snap)) (now : ℤ) (s : Session Db) :
    (∀ n < (persistRouteBatch env batchId results now).points s,
      NoTrace env (persistRouteBatch env batchId results now) n s) ↔
    ∀ bid, okBatchId env batchId = some bid → s.work.isSealed bid = true := by
  have hcommits := persistRouteBatch_commitsLast env batchId results now
  have hharmless : (persistRouteBatch env batchId results now).Harmless s ↔ _ :=
    persistRouteBatch_harmless
  rw [← hharmless, hcommits.harmless_iff]
  exact forall₂_congr fun n hn => noTrace_iff env hcommits hn

theorem markBatchSettled_noTrace_iff (batchId : Option PyStr) (now : ℤ) (s : Session Db) :
    (∀ n < (markBatchSettled env batchId now).points s,
      NoTrace env (markBatchSettled env batchId now) n s) ↔
    ∀ bid, (okBatchId env batchId).or (text batchId) = some bid →
      s.work.tentativeProbes bid = [] ∧
      ∀ o ∈ s.work.observations, o.batchId = some bid →
        o.trustClass ≠ none ∧ o.trustClass ≠ some .routeTentative := by
  have hcommits := markBatchSettled_commitsLast env batchId now
  have hharmless : (markBatchSettled env batchId now).Harmless s ↔ _ := markBatchSettled_harmless
  rw [← hharmless, hcommits.harmless_iff]
  exact forall₂_congr fun n hn => noTrace_iff env hcommits hn

end Signal402.ProbeHistory
