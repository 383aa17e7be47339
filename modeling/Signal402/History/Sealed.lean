import Signal402.History.Store

/-!
# Sealed batches

An attestation hashes the rows of a batch as they are, and seals the batch.  What is
sealed gets no new rows, but the caps of the tables go on deleting by URL and by age,
whatever batch a row belongs to.  A batch whose rows go one after another is attested
under another hash.

* `Db.Dropped` — the observations that the caps delete after a write.
* `Db.CapsSpare` — the caps delete all or none of the rows of every sealed batch.
* `sealed_attestation_stable` — while they do, a hash is the only one of its batch.
* `sealed_attestation_changes` — a run in which they do not.
-/

namespace Signal402.ProbeHistory

open Session (execute update select commit)

variable (env : Env)

/-! ## What the caps delete -/

namespace Db

variable (db : Db) (url : PyStr)

/-- Delete probes with their observations. -/
def dropProbes (ids : List ℕ) : Db := (db.deleteProbes ids).deleteObservationsOf ids

/-- The cap on the probes of a URL. -/
def capUrl : Db := db.dropProbes (db.beyondPerUrlCap url)

/-- The cap on all probes. -/
def capGlobal : Db := db.dropProbes db.beyondGlobalCap

/-- The cap on the observations of a URL. -/
def capObs : Db := db.deleteObservations (db.beyondObsCap url)

/-- The observation is of a probe that the caps delete, or beyond their own cap. -/
def Dropped (o : Observation) : Prop :=
  (∃ i ∈ o.probeId, i ∈ db.beyondPerUrlCap url) ∨
    (∃ i ∈ o.probeId, i ∈ (db.capUrl url).beyondGlobalCap) ∨
    o.id ∈ (db.capUrl url).capGlobal.beyondObsCap url

instance (o : Observation) : Decidable (db.Dropped url o) :=
  inferInstanceAs (Decidable (_ ∨ _ ∨ _))

/-- The observed rows of a batch. -/
def batch (b : PyStr) : List Observation :=
  db.observations.filter fun o => o.batchId = some b ∧ o.sourceType = .observed

/-- What an attestation of a batch depends on, with the seals. -/
def attested (b : PyStr) (db : Db) : List AttestedRow × List SealedBatch :=
  (db.batchRows b, db.sealedBatches)

/-- Of every sealed batch all rows are dropped, or none. -/
def SparesSealed (dropped : Observation → Prop) : Prop :=
  ∀ b, db.isSealed b = true →
    (∀ o ∈ db.batch b, dropped o) ∨ ∀ o ∈ db.batch b, ¬dropped o

/-- The caps after a probe of `url` delete all or none of the rows of a sealed batch. -/
def CapsSpare : Prop := db.SparesSealed (db.Dropped url)

/-- So does the cap on observations alone. -/
def ObsCapSpares : Prop := db.SparesSealed fun o => o.id ∈ db.beyondObsCap url

variable {db url}

theorem dropProbes_nil : db.dropProbes [] = db := by
  simp [dropProbes, deleteProbes, deleteObservationsOf]

theorem deleteObservations_nil : db.deleteObservations [] = db := by
  simp [deleteObservations]

theorem beyondGlobalCap_nil (h : db.probes.length ≤ globalCap) : db.beyondGlobalCap = [] := by
  unfold beyondGlobalCap
  rw [Nat.sub_eq_zero_of_le h, List.take_zero]

/-- The rows that are left are those that are not dropped. -/
theorem cap_observations :
    (((db.capUrl url).capGlobal).capObs url).observations =
      db.observations.filter fun o => ¬db.Dropped url o := by
  show (((db.observations.filter _).filter _).filter _) = _
  rw [List.filter_filter, List.filter_filter]
  refine List.filter_congr fun o _ => ?_
  unfold Dropped
  simp only [← Bool.decide_and]
  refine decide_eq_decide.mpr ?_
  constructor
  · rintro ⟨⟨hobs, hglobal⟩, hurl⟩ (⟨i, hi, h⟩ | ⟨i, hi, h⟩ | h)
    · exact hurl i hi h
    · exact hglobal i hi h
    · exact hobs h
  · intro h
    exact ⟨⟨fun hobs => h (.inr (.inr hobs)), fun i hi hglobal => h (.inr (.inl ⟨i, hi, hglobal⟩))⟩,
      fun i hi hurl => h (.inl ⟨i, hi, hurl⟩)⟩

theorem batchRows_eq (b : PyStr) (db : Db) :
    db.batchRows b = (db.batch b).map fun o => ⟨o.url, o.field, o.ts, o.value⟩ := rfl

end Db

theorem deleteProbesAndObs_run (ids : List ℕ) (s : Session Db) :
    (deleteProbesAndObs ids).run s = ((), { s with work := s.work.dropProbes ids }) := by
  unfold deleteProbesAndObs
  split
  next h =>
    rw [h, Db.dropProbes_nil]
    rfl
  next => rfl

theorem capObservations_run (url : PyStr) (s : Session Db) :
    (capObservations url).run s = ((), { s with work := s.work.capObs url }) := by
  unfold capObservations Db.capObs
  rw [Script.run_bind, Session.run_select]
  dsimp only
  split
  next h =>
    rw [h, Db.deleteObservations_nil]
    rfl
  next => rfl

theorem capProbes_run (url : PyStr) (s : Session Db) :
    (capProbes url).run s =
      ((), { s with work := ((s.work.capUrl url).capGlobal).capObs url }) := by
  unfold capProbes
  rw [Script.run_bind, Session.run_select]
  dsimp only
  rw [Script.run_bind, deleteProbesAndObs_run]
  dsimp only
  rw [Script.run_bind, Session.run_select]
  dsimp only
  split
  next h =>
    have hcount : (s.work.capUrl url).probes.length ≤ globalCap := h
    have hnone : (s.work.capUrl url).capGlobal = s.work.capUrl url := by
      unfold Db.capGlobal
      rw [Db.beyondGlobalCap_nil hcount, Db.dropProbes_nil]
    rw [capObservations_run, hnone]
    rfl
  next =>
    rw [Script.run_bind, Session.run_select]
    dsimp only
    rw [Script.run_bind, deleteProbesAndObs_run, capObservations_run]
    rfl

/-! ## The rows of a sealed batch -/

/-- The batch is sealed, and its rows are those that it was sealed with, or gone. -/
structure Frozen (b : PyStr) (rows : List AttestedRow) (db : Db) : Prop where
  isSealed : db.isSealed b = true
  rows : db.batchRows b = rows ∨ db.batchRows b = []

/-- Code that leaves the rows of a batch and the seals alone. -/
abbrev Untouched (b : PyStr) {α : Type} (x : Code α) : Prop :=
  Script.Leaves (fun s : Session Db => s.work.attested b) x

section Frozen

variable {b : PyStr} {rows : List AttestedRow} {db db' : Db}

theorem isSealed_congr (h : db'.sealedBatches = db.sealedBatches) (b : PyStr) :
    db'.isSealed b = db.isSealed b := by
  unfold Db.isSealed
  rw [h]

theorem Untouched.frozen {α : Type} {x : Code α} (h : Untouched b x) {s : Session Db}
    (hs : Frozen b rows s.work) : Frozen b rows (x.run s).2.work := by
  have hrows : (x.run s).2.work.batchRows b = s.work.batchRows b := congrArg Prod.fst (h.run s)
  have hseals : (x.run s).2.work.sealedBatches = s.work.sealedBatches := congrArg Prod.snd (h.run s)
  refine ⟨?_, ?_⟩
  · rw [isSealed_congr hseals]
    exact hs.isSealed
  · rw [hrows]
    exact hs.rows

/-- A deletion that spares sealed batches. -/
theorem Frozen.spared (h : Frozen b rows db) {dropped : Observation → Prop}
    [DecidablePred dropped] (hspare : db.SparesSealed dropped)
    (hseals : db'.sealedBatches = db.sealedBatches)
    (hobs : db'.observations = db.observations.filter fun o => ¬dropped o) : Frozen b rows db' := by
  have hbatch : db'.batch b = (db.batch b).filter fun o => ¬dropped o := by
    unfold Db.batch
    rw [hobs, List.filter_filter, List.filter_filter]
    simp only [Bool.and_comm]
  refine ⟨by rw [isSealed_congr hseals]; exact h.isSealed, ?_⟩
  rw [Db.batchRows_eq, hbatch]
  rcases hspare b h.isSealed with hall | hnone
  · right
    have hnil : (db.batch b).filter (fun o => ¬dropped o) = [] := by
      rw [List.filter_eq_nil_iff]
      intro o ho
      simpa using hall o ho
    rw [hnil]
    rfl
  · have hself : (db.batch b).filter (fun o => ¬dropped o) = db.batch b := by
      rw [List.filter_eq_self]
      intro o ho
      simpa using hnone o ho
    rw [hself]
    exact h.rows

theorem Frozen.sealBatch (h : Frozen b rows db) (b' : PyStr) (now : ℤ) :
    Frozen b rows (db.sealBatch b' now) := by
  unfold Db.sealBatch
  split
  · exact h
  · refine ⟨?_, h.rows⟩
    have hsealed := h.isSealed
    unfold Db.isSealed at hsealed ⊢
    rw [List.any_append, hsealed]
    rfl

theorem isSealed_sealBatch (b : PyStr) (now : ℤ) (db : Db) :
    (db.sealBatch b now).isSealed b = true := by
  unfold Db.sealBatch
  split
  next h => exact h
  next =>
    unfold Db.isSealed
    simp

end Frozen

/-! ## Writes beside a sealed batch -/

theorem insertObservation_untouched {b : PyStr} (probeId : Option ℕ) {batchId : Option PyStr}
    {st : SourceType} (source rail : Option PyStr) (url : PyStr) (ts : ℤ)
    (trustClass : Option TrustClass) (entry : Field × Option PyStr)
    (h : batchId ≠ some b ∨ st = .claimed) :
    Untouched b (insertObservation probeId batchId st source rail url ts trustClass entry) := by
  unfold insertObservation
  split
  · exact .pure _
  · refine .execute (g := Db.attested b) fun db => Prod.ext ?_ rfl
    have hout : ¬(batchId = some b ∧ st = .observed) := by
      rintro ⟨hb, hst⟩
      rcases h with h | h
      · exact h hb
      · rw [h] at hst
        cases hst
    show Db.batchRows b _ = Db.batchRows b _
    rw [Db.batchRows_eq, Db.batchRows_eq]
    unfold Db.batch
    rw [List.filter_append, List.filter_singleton]
    simp [hout]

theorem writeClaimed_untouched {b : PyStr} (probeId : Option ℕ) (batchId source rail : Option PyStr)
    (url : PyStr) (ts : ℤ) (claimed : Claimed) (trustClass : Option TrustClass) :
    Untouched b (writeClaimed probeId batchId source rail url ts claimed trustClass) :=
  .forM fun _ _ => insertObservation_untouched _ _ _ _ _ _ _ (.inr rfl)

theorem writeClaims_untouched {b : PyStr} (dest : PyStr) (snap : Snap) (probeId : ℕ) (ts : ℤ) :
    Untouched b (writeClaims dest snap probeId ts) := by
  unfold writeClaims
  split
  · exact .pure _
  · exact writeClaimed_untouched _ _ _ _ _ _ _ _

theorem applyTrustedUrlState_untouched {b : PyStr} (dest : PyStr) (snap : Snap) (now : ℤ)
    (m : Meta) : Untouched b (applyTrustedUrlState env dest snap now m) := by
  unfold applyTrustedUrlState
  refine .bind (.convert _) fun ts => .bind (.look _) fun state => ?_
  split
  · exact .pure _
  · exact .bind (.convert _) fun out => .bind (.execute fun _ => rfl) fun _ => .pure _

theorem insertProbeRow_untouched {b : PyStr} (dest : PyStr) {snap : Snap} (now : ℤ)
    (h : text snap.batchId ≠ some b) : Untouched b (insertProbeRow env dest snap now) := by
  unfold insertProbeRow
  refine .bind (.convert _) fun ts => .bind (.look _) fun state => .bind (.convert _) fun risk => ?_
  refine .bind ?_ fun m => .bind (.stepLook fun _ => rfl) fun probeId => ?_
  · unfold applyWhenTrusted
    split
    · exact .bind (applyTrustedUrlState_untouched env _ _ _ _) fun out => .pure _
    · exact .pure _
  · refine .bind (.forM fun _ _ => insertObservation_untouched _ _ _ _ _ _ _ (.inl h)) fun _ => ?_
    exact .bind (writeClaims_untouched _ _ _ _) fun _ => .pure m

theorem applySettled_untouched {b : PyStr} (now : ℤ) (probes : List Probe) :
    Untouched b (applySettled env now probes) := by
  induction probes with
  | nil => exact .pure _
  | cons p rest ih =>
      unfold applySettled
      refine .bind ?_ fun _ => ih
      unfold applySettledProbe
      split
      · exact .pure _
      · exact .bind (applyTrustedUrlState_untouched env _ _ _ _) fun _ => .pure _

/-- A promotion of observations leaves what is attested of them. -/
theorem settle_untouched {b : PyStr} {f : Db → Db} {g : Observation → Observation}
    (hobs : ∀ db, (f db).observations = db.observations.map g)
    (hseals : ∀ db, (f db).sealedBatches = db.sealedBatches)
    (hg : ∀ o, ∃ c, g o = { o with trustClass := c }) : Untouched b (execute f) := by
  refine .execute (g := Db.attested b) fun db => Prod.ext ?_ (hseals db)
  show Db.batchRows b _ = Db.batchRows b _
  rw [Db.batchRows_eq, Db.batchRows_eq]
  unfold Db.batch
  rw [hobs, List.filter_map, List.map_map]
  have hfilter : ((fun o : Observation => decide (o.batchId = some b ∧ o.sourceType = .observed)) ∘ g) =
      fun o => decide (o.batchId = some b ∧ o.sourceType = .observed) := by
    funext o
    obtain ⟨c, hc⟩ := hg o
    show decide ((g o).batchId = some b ∧ (g o).sourceType = .observed) = _
    rw [hc]
  rw [hfilter]
  refine List.map_congr_left fun o _ => ?_
  obtain ⟨c, hc⟩ := hg o
  show (⟨(g o).url, (g o).field, (g o).ts, (g o).value⟩ : AttestedRow) = _
  rw [hc]

theorem markBatchSettled_untouched {b : PyStr} (batchId : Option PyStr) (now : ℤ) :
    Untouched b (markBatchSettled env batchId now) := by
  unfold markBatchSettled
  split
  · exact .pure _
  · refine .bind (.look _) fun probes => ?_
    split
    · refine .bind (.execute fun _ => rfl) fun _ => .bind ?_ fun _ => .commit
      refine settle_untouched (fun _ => rfl) (fun _ => rfl) fun o => ?_
      split
      · exact ⟨_, rfl⟩
      · exact ⟨o.trustClass, rfl⟩
    · refine .bind (.execute fun _ => rfl) fun _ => .bind ?_ fun _ =>
        .bind (applySettled_untouched env now _) fun _ => .commit
      refine settle_untouched (fun _ => rfl) (fun _ => rfl) fun o => ?_
      split
      · exact ⟨_, rfl⟩
      · exact ⟨o.trustClass, rfl⟩

theorem markBatchSettled_batchRows (b : PyStr) (batchId : Option PyStr) (now : ℤ) (s : Session Db) :
    (runCalls env [.markBatchSettled batchId now] s).work.batchRows b = s.work.batchRows b :=
  congrArg Prod.fst ((markBatchSettled_untouched env (b := b) batchId now).run s)

/-! ## The condition on a call -/

/-- The caps after the insertion of a probe spare the sealed batches. -/
def RowSpares (dest : PyStr) (snap : Snap) (now : ℤ) (s : Session Db) : Prop :=
  ((insertProbeRow env dest snap now).run s).2.work.CapsSpare dest

/-- So they do after each row of a batch. -/
def BatchSpares (batchId : PyStr) (now : ℤ) : List (PyStr × Snap) → Session Db → Prop
  | [], _ => True
  | (dest, snap) :: rest, s =>
      RowSpares env dest { snap with batchId := some batchId } now s ∧
        BatchSpares batchId now rest
          ((writeProbeRow env dest { snap with batchId := some batchId } now).run s).2

/-- The caps that a call enforces spare the sealed batches. -/
def Call.Spares (s : Session Db) : Call → Prop
  | recordProbe url snap now =>
      match text url with
      | none => True
      | some dest =>
          ((text snap.batchId).map s.work.isSealed).getD false = true ∨
            RowSpares env dest snap now s
  | persistRouteBatch batchId results now =>
      match okBatchId env batchId with
      | none => True
      | some bid => s.work.isSealed bid = true ∨ BatchSpares env bid now (batchRows results) s
  | recordClaim url claimed source rail ts batchId now =>
      match text url, claimed with
      | some dest, some claimed =>
          ((writeClaimed none (text batchId) source rail dest (ts.getD now) claimed none).run
            s).2.work.ObsCapSpares dest
      | _, _ => True
  | markBatchSettled .. => True
  | attestationFor .. => True

/-- Every call of a run meets the condition where it is made. -/
def CallsSpare : List Call → Session Db → Prop
  | [], _ => True
  | c :: rest, s => c.Spares env s ∧ CallsSpare rest (c.after env s)

/-! ## Calls beside a sealed batch -/

section Steps

variable {env} {b : PyStr} {rows : List AttestedRow} {s : Session Db}

theorem writeProbeRow_frozen {dest : PyStr} {snap : Snap} {now : ℤ}
    (hs : Frozen b rows s.work) (hb : text snap.batchId ≠ some b)
    (hspare : RowSpares env dest snap now s) :
    Frozen b rows ((writeProbeRow env dest snap now).run s).2.work := by
  have hinsert := (insertProbeRow_untouched env dest now hb).frozen hs
  unfold writeProbeRow
  rw [Script.run_bind, Script.run_bind, capProbes_run]
  exact hinsert.spared hspare rfl Db.cap_observations

theorem writeProbeRow_seals (dest : PyStr) (snap : Snap) (now : ℤ) (s : Session Db) :
    ((writeProbeRow env dest snap now).run s).2.work.sealedBatches = s.work.sealedBatches := by
  -- a batch that no row can name
  obtain ⟨b, hb⟩ : ∃ b, text snap.batchId ≠ some b := by
    cases text snap.batchId with
    | none => exact ⟨[], by simp⟩
    | some c => exact ⟨CodePoint.ofChar 'x' :: c, by simp⟩
  have hinsert := congrArg Prod.snd ((insertProbeRow_untouched env dest now hb).run s)
  unfold writeProbeRow
  rw [Script.run_bind, Script.run_bind, capProbes_run]
  exact hinsert

theorem text_okBatchId {raw : Option PyStr} {bid : PyStr} (h : okBatchId env raw = some bid) :
    text (some bid) = some bid := by
  unfold okBatchId at h
  obtain ⟨t, ht, h⟩ := Option.bind_eq_some_iff.mp h
  split at h
  · cases h
  · split at h
    · rw [← Option.some.inj h, ← ht]
      exact text_text raw
    · cases h

theorem writeBatch_frozen {bid : PyStr} {now : ℤ} (hbid : text (some bid) = some bid)
    (hne : bid ≠ b) (batch : List (PyStr × Snap)) (hs : Frozen b rows s.work)
    (hspare : BatchSpares env bid now batch s) :
    Frozen b rows ((writeBatch env bid now batch).run s).2.work := by
  induction batch generalizing s with
  | nil => exact hs
  | cons r rest ih =>
      obtain ⟨dest, snap⟩ := r
      obtain ⟨hrow, hrest⟩ := hspare
      unfold writeBatch
      rw [Script.run_bind, Script.run_bind]
      refine ih (writeProbeRow_frozen hs ?_ hrow) hrest
      show text (some bid) ≠ some b
      rw [hbid]
      exact fun h => hne (Option.some.inj h)

/-- An attestation hashes the rows of its batch, and seals it. -/
theorem attestationFor_some {batchId : Option PyStr} {now : ℤ} {a : Attestation}
    (h : ((attestationFor env batchId now).run s).1 = some a) :
    hashRows (s.work.batchRows a.batchId) = some a.hash ∧
      ((attestationFor env batchId now).run s).2.work = s.work.sealBatch a.batchId now := by
  have hstate : ((attestedBatch env batchId).run s).2 = s := by
    unfold attestedBatch
    split <;> rfl
  unfold attestationFor at h ⊢
  rw [Script.run_bind, hstate] at h ⊢
  cases hbid : ((attestedBatch env batchId).run s).1 with
  | none =>
      rw [hbid] at h
      cases h
  | some bid =>
      rw [hbid] at h
      dsimp only at h ⊢
      rw [Script.run_bind, Session.run_select, Script.run_bind, Script.run_convert] at h ⊢
      dsimp only at h ⊢
      cases hdigest : hashRows (s.work.batchRows bid) with
      | none =>
          rw [hdigest] at h
          cases h
      | some digest =>
          rw [hdigest] at h
          obtain rfl := Option.some.inj h
          exact ⟨hdigest, rfl⟩

theorem attestationFor_frozen (hs : Frozen b rows s.work) (batchId : Option PyStr) (now : ℤ) :
    Frozen b rows ((attestationFor env batchId now).run s).2.work := by
  have hstate : ((attestedBatch env batchId).run s).2 = s := by
    unfold attestedBatch
    split <;> rfl
  unfold attestationFor
  rw [Script.run_bind, hstate]
  cases ((attestedBatch env batchId).run s).1 with
  | none => exact hs
  | some bid =>
      dsimp only
      rw [Script.run_bind, Session.run_select, Script.run_bind, Script.run_convert]
      dsimp only
      cases hashRows (s.work.batchRows bid) with
      | none => exact hs
      | some digest => exact hs.sealBatch bid now

theorem recordProbe_frozen {url : Option PyStr} {snap : Snap} {now : ℤ}
    (hs : Frozen b rows s.work) (hspare : (Call.recordProbe url snap now).Spares env s) :
    Frozen b rows ((recordProbe env url snap now).run s).2.work := by
  unfold Call.Spares at hspare
  dsimp only at hspare
  unfold recordProbe
  cases hurl : text url with
  | none => exact hs
  | some dest =>
      rw [hurl] at hspare
      dsimp only at hspare ⊢
      cases hbatch : text snap.batchId with
      | none =>
          rw [hbatch] at hspare
          have hrow := hspare.resolve_left fun h => by cases h
          have hne : text snap.batchId ≠ some b := by
            rw [hbatch]
            exact fun h => by cases h
          dsimp only
          rw [Script.run_bind]
          exact writeProbeRow_frozen hs hne hrow
      | some bid =>
          rw [hbatch] at hspare
          dsimp only [Option.map_some, Option.getD_some] at hspare ⊢
          rw [Script.run_bind, Session.run_select]
          dsimp only
          split
          next => exact hs
          next hopen =>
            have hne : text snap.batchId ≠ some b := by
              rw [hbatch]
              intro h
              rw [Option.some.inj h] at hopen
              exact hopen hs.isSealed
            rw [Script.run_bind]
            exact writeProbeRow_frozen hs hne (hspare.resolve_left hopen)

theorem persistRouteBatch_frozen {batchId : Option PyStr} {results : List (Option PyStr × Snap)}
    {now : ℤ} (hs : Frozen b rows s.work)
    (hspare : (Call.persistRouteBatch batchId results now).Spares env s) :
    Frozen b rows ((persistRouteBatch env batchId results now).run s).2.work := by
  unfold Call.Spares at hspare
  dsimp only at hspare
  unfold persistRouteBatch
  cases hbid : okBatchId env batchId with
  | none => exact hs
  | some bid =>
      rw [hbid] at hspare
      dsimp only at hspare ⊢
      rw [Script.run_bind, Session.run_select]
      dsimp only
      split
      next => exact hs
      next hopen =>
        have hne : bid ≠ b := by
          rintro rfl
          exact hopen hs.isSealed
        have hbatch := writeBatch_frozen (text_okBatchId hbid) hne (batchRows results) hs
          (hspare.resolve_left hopen)
        rw [Script.run_bind]
        exact hbatch.sealBatch bid now

theorem recordClaim_frozen {url : Option PyStr} {claimed : Option Claimed}
    {source rail : Option PyStr} {ts : Option ℤ} {batchId : Option PyStr} {now : ℤ}
    (hs : Frozen b rows s.work)
    (hspare : (Call.recordClaim url claimed source rail ts batchId now).Spares env s) :
    Frozen b rows ((recordClaim url claimed source rail ts batchId now).run s).2.work := by
  unfold Call.Spares at hspare
  unfold recordClaim
  cases hurl : text url with
  | none => exact hs
  | some dest =>
      cases claimed with
      | none => exact hs
      | some claimed =>
          dsimp only at hspare
          rw [hurl] at hspare
          dsimp only at hspare ⊢
          rw [Script.run_bind, Script.run_bind, capObservations_run]
          have hwrite := (writeClaimed_untouched none (text batchId) source rail dest
            (ts.getD now) claimed none).frozen hs
          exact hwrite.spared hspare rfl rfl

/-- A call that meets the condition leaves a sealed batch as it is, or empty. -/
theorem Call.after_frozen {c : Call} (hs : Frozen b rows s.work) (hspare : c.Spares env s) :
    Frozen b rows (c.after env s).work := by
  cases c with
  | recordProbe url snap now => exact recordProbe_frozen hs hspare
  | persistRouteBatch batchId results now => exact persistRouteBatch_frozen hs hspare
  | markBatchSettled batchId now => exact (markBatchSettled_untouched env batchId now).frozen hs
  | recordClaim url claimed source rail ts batchId now => exact recordClaim_frozen hs hspare
  | attestationFor batchId now => exact attestationFor_frozen hs batchId now

theorem runCalls_frozen {calls : List Call} (hs : Frozen b rows s.work)
    (hspare : CallsSpare env calls s) : Frozen b rows (runCalls env calls s).work := by
  induction calls generalizing s with
  | nil => exact hs
  | cons c rest ih => exact ih (Call.after_frozen hs hspare.1) hspare.2

end Steps

/-! ## A batch that goes row by row -/

/-- The tables of the interpreter, on ASCII texts. -/
def asciiUnicode : Unicode where
  lower := PyStr.lower
  upper := id
  isalnum s := s.all fun c => (48 ≤ c.val && c.val ≤ 57) || (97 ≤ c.val && c.val ≤ 122)
  isHexInt _ := true

/-- No price changes, and the time of the probes in the batch as it is written. -/
def asciiEnv : Env :=
  ⟨asciiUnicode, fun _ _ _ => false,
    fun ts => if ts = 1 then some (PyStr.ofString "1970-01-01T00:00:01Z") else none⟩

/-- A probe that found nothing. -/
def missed (ts : ℤ) : Snap :=
  ⟨some ts, false, none, none, none, false, none, none, none, none, none, none, none, .independent⟩

def urlA : PyStr := [CodePoint.ofChar 'a']

def urlB : PyStr := [CodePoint.ofChar 'b']

def batchR : PyStr := [CodePoint.ofChar 'r']

/-- A batch with a probe of each of the two URLs. -/
def probeBoth : Call :=
  .persistRouteBatch (some batchR) [(some urlA, missed 1), (some urlB, missed 1)] 0

/-- A later probe of the first URL. -/
def probeAgain : Call := .recordProbe (some urlA) (missed 2) 0

/-- The database with the batch. -/
def seeded : Session Db := runCalls asciiEnv [probeBoth] start

/-- The two probes of the batch with their rows, and later ones of the first URL. -/
structure Grown (k : ℕ) (db : Db) : Prop where
  probes : ∃ newer, db.probes = seeded.work.probes ++ newer ∧ newer.length = k ∧
    ∀ p ∈ newer, p.url = urlA ∧ p.ts = 2
  observations : ∃ newer, db.observations = seeded.work.observations ++ newer ∧
    newer.length = 3 * k ∧ ∀ o ∈ newer, o.batchId ≠ some batchR

/-- Code that leaves the probes alone. -/
abbrev ProbesKept {α : Type} (x : Code α) : Prop :=
  Script.Leaves (fun s : Session Db => s.work.probes) x

/-- Code that leaves the observations alone. -/
abbrev ObservationsKept {α : Type} (x : Code α) : Prop :=
  Script.Leaves (fun s : Session Db => s.work.observations) x

theorem insertObservation_probes (probeId : Option ℕ) (batchId : Option PyStr) (st : SourceType)
    (source rail : Option PyStr) (url : PyStr) (ts : ℤ) (trustClass : Option TrustClass)
    (entry : Field × Option PyStr) :
    ProbesKept (insertObservation probeId batchId st source rail url ts trustClass entry) := by
  unfold insertObservation
  split
  · exact .pure _
  · exact .execute fun _ => rfl

/-- The values that are known are written one after another. -/
theorem insertAll_observations {probeId : Option ℕ} {batchId : Option PyStr} {st : SourceType}
    {source rail : Option PyStr} {url : PyStr} {ts : ℤ} {trustClass : Option TrustClass}
    (entries : List (Field × Option PyStr)) (s : Session Db) :
    ∃ new, ((entries.forM (insertObservation probeId batchId st source rail url ts
        trustClass)).run s).2.work.observations = s.work.observations ++ new ∧
      new.length = (entries.filterMap Prod.snd).length ∧ ∀ o ∈ new, o.batchId = batchId := by
  induction entries generalizing s with
  | nil => exact ⟨[], by simp, rfl, by simp⟩
  | cons entry rest ih =>
      obtain ⟨field, value⟩ := entry
      rw [Script.run_forM_cons]
      cases value with
      | none => exact ih s
      | some value =>
          obtain ⟨new, hwork, hlen, hbatch⟩ := ih
            ((insertObservation probeId batchId st source rail url ts trustClass
              (field, some value)).run s).2
          refine ⟨⟨s.work.nextObservation, probeId, batchId, st, source, rail, url, field, value,
            ts, trustClass⟩ :: new, ?_, ?_, ?_⟩
          · rw [hwork]
            show (s.work.observations ++ [_]) ++ new = _
            rw [List.append_assoc]
            rfl
          · simp [hlen]
          · intro o ho
            rcases List.mem_cons.mp ho with rfl | ho
            · rfl
            · exact hbatch o ho

theorem applyTrustedUrlState_tables (dest : PyStr) (snap : Snap) (now : ℤ) (m : Meta) :
    Script.Leaves (fun s : Session Db => (s.work.probes, s.work.observations))
      (applyTrustedUrlState env dest snap now m) := by
  unfold applyTrustedUrlState
  refine .bind (.convert _) fun ts => .bind (.look _) fun state => ?_
  split
  · exact .pure _
  · exact .bind (.convert _) fun out => .bind (.step fun _ => rfl) fun _ => .pure _

theorem insertProbe_adds (dest : PyStr) (snap : Snap) (ts : ℤ) (s : Session Db) :
    ∃ p, ((insertProbe dest snap ts).run s).2.work.probes = s.work.probes ++ [p] ∧
      p.url = dest ∧ p.ts = ts := ⟨_, rfl, rfl, rfl⟩

/-- What a probe without claims writes when its URL's state is written. -/
theorem insertRows_adds (dest : PyStr) {snap : Snap} (ts : ℤ) (m : Meta) (s : Session Db)
    (hclaimed : snap.claimed = none) {x : Code Meta} (hx : x = (do
      let probeId ← insertProbe dest snap ts
      snap.observedFields.forM (insertObservation (some probeId) (text snap.batchId) .observed
        (some ((text snap.source).getD "402signal")) (text snap.rail) dest ts
        (some snap.trustClass))
      writeClaims dest snap probeId ts
      pure m)) :
    (∃ p, (x.run s).2.work.probes = s.work.probes ++ [p] ∧ p.url = dest ∧ p.ts = ts) ∧
    ∃ new, (x.run s).2.work.observations = s.work.observations ++ new ∧
      new.length = (snap.observedFields.filterMap Prod.snd).length ∧
      ∀ o ∈ new, o.batchId = text snap.batchId := by
  subst hx
  unfold writeClaims
  rw [hclaimed, Script.run_bind, Script.run_bind]
  dsimp only
  rw [Script.run_bind, Script.run_pure, Script.run_pure]
  dsimp only
  refine ⟨?_, ?_⟩
  · obtain ⟨p, hprobes, hp⟩ := insertProbe_adds dest snap ts s
    refine ⟨p, ?_, hp⟩
    rw [← hprobes]
    exact (Script.Leaves.forM (f := fun s : Session Db => s.work.probes)
      fun _ _ => insertObservation_probes _ _ _ _ _ _ _ _ _).run _
  · exact insertAll_observations snap.observedFields _

/-- A probe of a URL adds one row of its time, and its known values under its batch. -/
theorem insertProbeRow_adds (dest : PyStr) {snap : Snap} (now : ℤ) (s : Session Db)
    (hclaimed : snap.claimed = none) :
    (∃ p, ((insertProbeRow env dest snap now).run s).2.work.probes = s.work.probes ++ [p] ∧
      p.url = dest ∧ p.ts = snap.ts.getD now) ∧
    ∃ new, ((insertProbeRow env dest snap now).run s).2.work.observations =
        s.work.observations ++ new ∧
      new.length = (snap.observedFields.filterMap Prod.snd).length ∧
      ∀ o ∈ new, o.batchId = text snap.batchId := by
  unfold insertProbeRow
  rw [Script.run_bind, Script.run_convert, Script.run_bind, Session.run_select,
    Script.run_bind, Script.run_convert, Script.run_bind]
  dsimp only
  generalize ht : (applyWhenTrusted env dest _ now _).run s = t
  have htables : (t.2.work.probes, t.2.work.observations) =
      (s.work.probes, s.work.observations) := by
    rw [← ht]
    unfold applyWhenTrusted
    split
    · rw [Script.run_bind]
      exact (applyTrustedUrlState_tables env _ _ _ _).run s
    · rfl
  obtain ⟨hprobes, hobs⟩ := Prod.mk.inj htables
  rw [← hprobes, ← hobs]
  exact insertRows_adds dest _ t.1 t.2 hclaimed rfl

theorem Db.beyondPerUrlCap_nil {db : Db} {url : PyStr}
    (h : (db.probes.filter (·.url = url)).length ≤ perUrlCap) : db.beyondPerUrlCap url = [] := by
  unfold Db.beyondPerUrlCap sortedIds
  rw [List.drop_eq_nil_iff, List.length_map, List.length_insertionSort, List.length_map]
  exact h

theorem Db.beyondObsCap_nil {db : Db} {url : PyStr}
    (h : db.observations.length ≤ obsPerUrlCap) : db.beyondObsCap url = [] := by
  unfold Db.beyondObsCap sortedIds
  rw [List.drop_eq_nil_iff, List.length_map, List.length_insertionSort, List.length_map]
  exact (List.length_filter_le _ _).trans h

/-- A row that comes after all others in the order is the last one. -/
theorem sortedIds_last {order : ℤ × ℕ → ℤ × ℕ → Bool} {r : ℤ × ℕ} {rows : List (ℤ × ℕ)}
    (h : ∀ r' ∈ rows, order r r' = false) :
    sortedIds order (r :: rows) = sortedIds order rows ++ [r.2] := by
  have hlast : ∀ l : List (ℤ × ℕ), (∀ r' ∈ l, order r r' = false) →
      l.orderedInsert (fun a b => order a b) r = l ++ [r] := by
    intro l hl
    induction l with
    | nil => rfl
    | cons r' rest ih =>
        have hr' := hl r' List.mem_cons_self
        rw [List.orderedInsert_cons, if_neg (by rw [hr']; decide),
          ih fun x hx => hl x (List.mem_cons_of_mem _ hx)]
        rfl
  unfold sortedIds
  rw [List.insertionSort_cons, hlast, List.map_append]
  · rfl
  · intro r' hr'
    exact h r' ((List.mem_insertionSort _).mp hr')

section Grow

variable {k : ℕ} {db : Db} {s : Session Db}

/-- One more probe, before the caps. -/
theorem insert_grown (h : Grown k s.work) :
    Grown (k + 1) ((insertProbeRow asciiEnv urlA (missed 2) 0).run s).2.work := by
  obtain ⟨probes, hprobes, hplen, hp⟩ := h.probes
  obtain ⟨obs, hobs, holen, ho⟩ := h.observations
  obtain ⟨⟨p, hprobes', hurl, hts⟩, new, hobs', hnew, hbatch⟩ :=
    insertProbeRow_adds asciiEnv urlA 0 s (rfl : (missed 2).claimed = none)
  refine ⟨⟨probes ++ [p], ?_, ?_, ?_⟩, ⟨obs ++ new, ?_, ?_, ?_⟩⟩
  · rw [hprobes', hprobes, List.append_assoc]
  · simp [hplen]
  · intro q hq
    rcases List.mem_append.mp hq with hq | hq
    · exact hp q hq
    · rw [List.mem_singleton.mp hq]
      exact ⟨hurl, hts⟩
  · rw [hobs', hobs, List.append_assoc]
  · have hthree : new.length = 3 := hnew
    rw [List.length_append, holen, hthree]
    omega
  · intro o hmem
    rcases List.mem_append.mp hmem with hmem | hmem
    · exact ho o hmem
    · rw [hbatch o hmem]
      decide

/-- The probes of the first URL, by time and number. -/
theorem Grown.urlA_probes (h : Grown k db) :
    ∃ newer : List (ℤ × ℕ), (db.probes.filter (·.url = urlA)).map (fun p => (p.ts, p.id)) =
        (1, 1) :: newer ∧ newer.length = k ∧ ∀ r ∈ newer, r.1 = 2 := by
  obtain ⟨probes, hprobes, hplen, hp⟩ := h.probes
  refine ⟨probes.map fun p => (p.ts, p.id), ?_, by simp [hplen], ?_⟩
  · have hall : probes.filter (·.url = urlA) = probes := by
      rw [List.filter_eq_self]
      intro p hmem
      simpa using (hp p hmem).1
    rw [hprobes, List.filter_append, hall, List.map_append]
    rfl
  · intro r hr
    obtain ⟨p, hmem, rfl⟩ := List.mem_map.mp hr
    exact (hp p hmem).2

theorem Grown.length_probes (h : Grown k db) : db.probes.length = k + 2 := by
  obtain ⟨probes, hprobes, hplen, -⟩ := h.probes
  rw [hprobes, List.length_append, hplen, show seeded.work.probes.length = 2 from rfl]
  omega

theorem Grown.length_observations (h : Grown k db) : db.observations.length = 3 * k + 6 := by
  obtain ⟨obs, hobs, holen, -⟩ := h.observations
  rw [hobs, List.length_append, holen, show seeded.work.observations.length = 6 from rfl]
  omega

/-- Up to the cap nothing goes. -/
theorem Grown.caps (h : Grown k db) (hk : k + 1 ≤ perUrlCap) :
    ((db.capUrl urlA).capGlobal).capObs urlA = db := by
  obtain ⟨newer, hrows, hlen, -⟩ := h.urlA_probes
  have hcount : (db.probes.filter (·.url = urlA)).length = k + 1 := by
    rw [← List.length_map (f := fun p : Probe => (p.ts, p.id)), hrows, List.length_cons, hlen]
  have hurl : db.capUrl urlA = db := by
    unfold Db.capUrl
    rw [Db.beyondPerUrlCap_nil (by rw [hcount]; exact hk), Db.dropProbes_nil]
  have htotal := h.length_probes
  have hobs := h.length_observations
  unfold perUrlCap at hk
  rw [hurl]
  unfold Db.capGlobal Db.capObs
  rw [Db.beyondGlobalCap_nil (by rw [htotal]; unfold globalCap; omega), Db.dropProbes_nil,
    Db.beyondObsCap_nil (by rw [hobs]; unfold obsPerUrlCap; omega), Db.deleteObservations_nil]

theorem probeAgain_after (s : Session Db) :
    (probeAgain.after asciiEnv s).work =
      ((((insertProbeRow asciiEnv urlA (missed 2) 0).run s).2.work.capUrl urlA).capGlobal).capObs
        urlA := by
  show ((recordProbe asciiEnv (some urlA) (missed 2) 0).run s).2.work = _
  have hurl : text (some urlA) = some urlA := by decide
  unfold recordProbe
  rw [hurl, show text (missed 2).batchId = none from rfl]
  dsimp only
  rw [Script.run_bind]
  unfold writeProbeRow
  rw [Script.run_bind, Script.run_bind, Script.run_bind, capProbes_run]
  rfl

theorem attestationFor_tables (batchId : Option PyStr) (now : ℤ) :
    Script.Leaves (fun s : Session Db => (s.work.probes, s.work.observations))
      (attestationFor env batchId now) := by
  unfold attestationFor attestedBatch
  refine .bind ?_ fun bid => ?_
  · split
    · exact .pure _
    · exact .look _
  · split
    · exact .pure _
    · refine .bind (.look _) fun rows => .bind (.convert _) fun digest => ?_
      split
      · exact .pure _
      · refine .bind (.convert _) fun created => .bind (.step fun s => ?_) fun _ =>
          .bind (.step fun _ => rfl) fun _ => .pure _
        unfold Db.sealBatch
        dsimp only
        split <;> rfl

/-- The database when the batch has been attested. -/
def attestedBase : Session Db := ((attestationFor asciiEnv (some batchR) 0).run seeded).2

theorem attestedBase_grown : Grown 0 attestedBase.work := by
  obtain ⟨hprobes, hobs⟩ := Prod.mk.inj ((attestationFor_tables asciiEnv (some batchR) 0).run seeded)
  unfold attestedBase
  refine ⟨⟨[], ?_, rfl, fun p hp => absurd hp List.not_mem_nil⟩,
    ⟨[], ?_, rfl, fun o ho => absurd ho List.not_mem_nil⟩⟩
  · rw [hprobes, List.append_nil]
  · rw [hobs, List.append_nil]

/-- The probes of the first URL below its cap. -/
theorem runs_grown (h : Grown 0 s.work) (hk : k + 1 ≤ perUrlCap) :
    Grown k (runCalls asciiEnv (List.replicate k probeAgain) s).work := by
  induction k with
  | zero => exact h
  | succ k ih =>
      have hgrown := ih (by omega)
      rw [List.replicate_succ']
      unfold runCalls at hgrown ⊢
      rw [List.foldl_append]
      show Grown (k + 1) (probeAgain.after asciiEnv _).work
      rw [probeAgain_after, (insert_grown hgrown).caps hk]
      exact insert_grown hgrown

/-- One probe more than the cap, and the rows of the oldest go with it. -/
theorem Grown.beyond (h : Grown perUrlCap db) :
    (((db.capUrl urlA).capGlobal).capObs urlA).batchRows batchR =
      (seeded.work.dropProbes [1]).batchRows batchR := by
  obtain ⟨newer, hrows, hlen, hts⟩ := h.urlA_probes
  obtain ⟨obs, hobs, holen, ho⟩ := h.observations
  have hids : db.beyondPerUrlCap urlA = [1] := by
    have hsorted : (sortedIds newestFirst newer).length = perUrlCap := by
      unfold sortedIds
      rw [List.length_map, List.length_insertionSort, hlen]
    unfold Db.beyondPerUrlCap
    rw [hrows, sortedIds_last, ← hsorted, List.drop_left]
    intro r hr
    unfold newestFirst
    rw [hts r hr]
    rfl
  have hurl : db.capUrl urlA = db.dropProbes [1] := by
    unfold Db.capUrl
    rw [hids]
  have hprobes : (db.dropProbes [1]).probes.length ≤ globalCap := by
    refine (List.length_filter_le _ _).trans ?_
    rw [h.length_probes]
    decide
  have hobservations : (db.dropProbes [1]).observations.length ≤ obsPerUrlCap := by
    refine (List.length_filter_le _ _).trans ?_
    show db.observations.length ≤ _
    rw [h.length_observations]
    decide
  rw [hurl]
  unfold Db.capGlobal Db.capObs
  rw [Db.beyondGlobalCap_nil hprobes, Db.dropProbes_nil, Db.beyondObsCap_nil hobservations,
    Db.deleteObservations_nil, Db.batchRows_eq, Db.batchRows_eq]
  have hnew : (obs.filter fun o => ∀ i ∈ o.probeId, i ∉ [1]).filter
      (fun o => o.batchId = some batchR ∧ o.sourceType = .observed) = [] := by
    rw [List.filter_eq_nil_iff]
    intro o hmem
    have hne := ho o (List.mem_of_mem_filter hmem)
    simp [hne]
  unfold Db.batch Db.dropProbes Db.deleteObservationsOf Db.deleteProbes
  dsimp only
  rw [hobs, List.filter_append, List.filter_append, hnew, List.append_nil]

/-- The run of 500 later probes leaves the rows of the second URL. -/
theorem runs_beyond (h : Grown 0 s.work) :
    (runCalls asciiEnv (List.replicate 500 probeAgain) s).work.batchRows batchR =
      (seeded.work.dropProbes [1]).batchRows batchR := by
  have hgrown : Grown 499 (runCalls asciiEnv (List.replicate 499 probeAgain) s).work :=
    runs_grown h (by decide)
  have hsplit : List.replicate 500 probeAgain = List.replicate 499 probeAgain ++ [probeAgain] :=
    List.replicate_succ'
  rw [hsplit]
  unfold runCalls at hgrown ⊢
  rw [List.foldl_append, List.foldl_cons, List.foldl_nil, probeAgain_after]
  exact (insert_grown hgrown).beyond

end Grow

theorem attestationFor_isSome {b : PyStr} (now : ℤ) {s : Session Db} {digest : Bytes}
    (hb : okBatchId env (some b) = some b) (hne : b ≠ [])
    (hrows : hashRows (s.work.batchRows b) = some digest) :
    ∃ a, ((attestationFor env (some b) now).run s).1 = some a ∧ a.batchId = b ∧ a.hash = digest := by
  have hkeep : (some b).filter (· ≠ []) = some b := by simp [hne]
  unfold attestationFor attestedBatch
  rw [hkeep, Script.run_bind]
  dsimp only
  rw [hb, Script.run_pure]
  dsimp only
  rw [Script.run_bind, Session.run_select, Script.run_bind, Script.run_convert]
  dsimp only
  rw [hrows]
  exact ⟨_, rfl, rfl, rfl⟩

/-! ## Attestations of one batch -/

/-- After an attestation, while the caps delete all or none of the rows of every sealed
batch, a later attestation of the batch has the same hash. -/
theorem sealed_attestation_stable (calls later : List Call) (batchId batchId' : Option PyStr)
    (now now' : ℤ) (a a' : Attestation)
    (hfirst : ((attestationFor env batchId now).run (runCalls env calls start)).1 = some a)
    (hspare : CallsSpare env later
      ((attestationFor env batchId now).run (runCalls env calls start)).2)
    (hlater : ((attestationFor env batchId' now').run (runCalls env later
      ((attestationFor env batchId now).run (runCalls env calls start)).2)).1 = some a')
    (hbatch : a'.batchId = a.batchId) : a'.hash = a.hash := by
  obtain ⟨hhash, hwork⟩ := attestationFor_some hfirst
  have hfrozen : Frozen a.batchId ((runCalls env calls start).work.batchRows a.batchId)
      ((attestationFor env batchId now).run (runCalls env calls start)).2.work := by
    rw [hwork]
    refine ⟨isSealed_sealBatch _ _ _, Or.inl ?_⟩
    unfold Db.sealBatch
    split <;> rfl
  have hend := runCalls_frozen hfrozen hspare
  obtain ⟨hhash', -⟩ := attestationFor_some hlater
  rw [hbatch] at hhash'
  rcases hend.rows with hrows | hrows
  · rw [hrows, hhash] at hhash'
    exact (Option.some.inj hhash').symm
  · rw [hrows] at hhash'
    cases hhash'

/-- The condition is met by a late settlement of the batch. -/
theorem sealed_attestation_stable_settled :
    ∃ a a', ((attestationFor asciiEnv (some batchR) 0).run
        (runCalls asciiEnv [probeBoth] start)).1 = some a ∧
      ((attestationFor asciiEnv (some batchR) 0).run
        (runCalls asciiEnv [.markBatchSettled (some batchR) 0]
          ((attestationFor asciiEnv (some batchR) 0).run
            (runCalls asciiEnv [probeBoth] start)).2)).1 = some a' ∧ a'.hash = a.hash := by
  have hb : okBatchId asciiEnv (some batchR) = some batchR := by decide
  obtain ⟨d, hd⟩ : ∃ d, hashRows (seeded.work.batchRows batchR) = some d :=
    Option.isSome_iff_exists.mp (by decide +kernel)
  obtain ⟨a, ha, hbatch, -⟩ := attestationFor_isSome asciiEnv 0 hb (by decide) hd
  have hkeep := (attestationFor_tables asciiEnv (some batchR) 0).run seeded
  have hrows : attestedBase.work.batchRows batchR = seeded.work.batchRows batchR := by
    rw [Db.batchRows_eq, Db.batchRows_eq]
    unfold Db.batch attestedBase
    rw [(Prod.mk.inj hkeep).2]
  have hd' := hd
  rw [← hrows, ← markBatchSettled_batchRows asciiEnv batchR (some batchR) 0] at hd'
  obtain ⟨a', ha', hbatch', -⟩ := attestationFor_isSome asciiEnv 0 hb (by decide) hd'
  exact ⟨a, a', ha, ha', sealed_attestation_stable asciiEnv [probeBoth]
    [.markBatchSettled (some batchR) 0] (some batchR) (some batchR) 0 0 a a' ha
    ⟨trivial, trivial⟩ ha' (hbatch'.trans hbatch.symm)⟩

/-- After 500 later probes of the first URL the batch has another hash. -/
theorem sealed_attestation_changes :
    ∃ a a', ((attestationFor asciiEnv (some batchR) 0).run
        (runCalls asciiEnv [probeBoth] start)).1 = some a ∧
      ((attestationFor asciiEnv (some batchR) 0).run
        (runCalls asciiEnv (List.replicate 500 probeAgain)
          ((attestationFor asciiEnv (some batchR) 0).run
            (runCalls asciiEnv [probeBoth] start)).2)).1 = some a' ∧
      a'.batchId = a.batchId ∧ a'.hash ≠ a.hash := by
  have hb : okBatchId asciiEnv (some batchR) = some batchR := by decide
  have hdiffer : ∃ d d', hashRows (seeded.work.batchRows batchR) = some d ∧
      hashRows ((seeded.work.dropProbes [1]).batchRows batchR) = some d' ∧ d' ≠ d := by
    have hsome : ∀ x y : Option Bytes, x.isSome ∧ y.isSome ∧ y ≠ x →
        ∃ d d', x = some d ∧ y = some d' ∧ d' ≠ d := by
      rintro (_ | d) (_ | d') ⟨hx, hy, hne⟩
      · cases hx
      · cases hx
      · cases hy
      · exact ⟨d, d', rfl, rfl, fun h => hne (congrArg some h)⟩
    exact hsome _ _ (by decide +kernel)
  obtain ⟨d, d', hd, hd', hne⟩ := hdiffer
  obtain ⟨a, ha, hbatch, hhash⟩ := attestationFor_isSome asciiEnv 0 hb (by decide) hd
  rw [← runs_beyond attestedBase_grown] at hd'
  obtain ⟨a', ha', hbatch', hhash'⟩ := attestationFor_isSome asciiEnv 0 hb (by decide) hd'
  refine ⟨a, a', ha, ha', hbatch'.trans hbatch.symm, ?_⟩
  rw [hhash, hhash']
  exact hne

end Signal402.ProbeHistory
