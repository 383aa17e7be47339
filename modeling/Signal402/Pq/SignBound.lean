import Mathlib.Data.List.Perm.Subperm
import Signal402.Lib.Credit
import Signal402.Pq.AutoAnchorOnce

/-!
# How often a tick dials the signer

An attempt is counted in the job before the dial, and the counters of the job
bound the attempts: two in each generation, and one resign.  Neither counter nor
latch is looked at again when the tick dials, so a tick that is held up between
its count and its dial still dials after another has signed, latched and posted
(`dial_after_latch`).

* `SignWorld` — the store and what happened to it, as far as the signer goes.
* `Orderly` — a dial finds the row as its tick read it, a save leaves no latch
  that it has not read, and no job is created for a size whose job was pruned.
* `dialProtocol` — a tick dials with an attempt of its own that it has counted.
* `Counted`, `Credit`, `Sealed` — the parts of the invariant.
-/

namespace Signal402.AutoAnchor

open AnchorStore Canary Concurrent

/-! ## What is counted -/

/-- What happened around the signer. -/
inductive SignEvent (Tid : Type)
  | created (n : ℤ)
  | attempted (t : Tid) (n : ℤ) (generation : ℕ)
  | resigned (n : ℤ)
  | latched (n : ℤ)
  | dialled (t : Tid) (n : ℤ)
  deriving DecidableEq

variable {Tid : Type}

/-- The event of a transaction that takes effect; the generation of an attempt is the
number of resigns of its job. -/
def effectEvents (t : Tid) (s : Store) : Op → List (SignEvent Tid)
  | .createAutomationJob job => [.created job.treeSize]
  | .recordAutomationSignAttempt n _ =>
      [.attempted t n (((s.automationJobRow n).map Job.resignCount).getD 0)]
  | .beginAutomationResign n .. => [.resigned n]
  | .reserveAutomaticSend n .. => [.latched n]
  | _ => []

/-- The events of an operation that takes the store from `s` to `s'`: each of the
transactions above changes the jobs where it takes effect. -/
def signEvents (t : Tid) (s s' : Store) (o : Op) : List (SignEvent Tid) :=
  match o with
  | .call (.requestSigned ident ..) => [.dialled t ident.treeSize]
  | o => if s'.jobs = s.jobs then [] else effectEvents t s o

/-- The world with the events around the signer, the latest first. -/
structure SignWorld (Tid : Type) where
  world : World Tid
  signs : List (SignEvent Tid)

/-- What an operation of thread `t` does. -/
def SignWorld.exec (w : SignWorld Tid) (t : Tid) (o : Op) (r : o.Res) (w' : SignWorld Tid) :
    Prop :=
  Canary.exec w.world t o r w'.world ∧
    w'.signs = signEvents t w.world.store w'.world.store o ++ w.signs

/-- Threads on one store, whose steps all meet the condition `guard`. -/
def signSystem (Tid : Type) (guard : SignWorld Tid → Op → Prop) (store : Store) : System sig where
  World := SignWorld Tid
  Tid := Tid
  Pid := Tid
  pid := id
  init := ⟨⟨store, []⟩, []⟩
  exec w t o r w' := guard w o ∧ w.exec t o r w'
  crash w _ w' := w' = w
  env w w' := w' = w

section

variable {guard : SignWorld Tid → Op → Prop} {store : Store} [DecidableEq Tid]

instance : DecidableEq (signSystem Tid guard store).Tid := inferInstanceAs (DecidableEq Tid)

instance : DecidableEq (signSystem Tid guard store).Pid := inferInstanceAs (DecidableEq Tid)

end

/-- The attempts for a tree size in a generation. -/
def attemptCount (n : ℤ) (g : ℕ) (signs : List (SignEvent Tid)) : ℕ :=
  signs.countP fun
    | .attempted _ m h => m = n ∧ h = g
    | _ => false

def resignCount (n : ℤ) (signs : List (SignEvent Tid)) : ℕ :=
  signs.countP fun
    | .resigned m => m = n
    | _ => false

/-- The ticks that dialled for a tree size. -/
def dialers (n : ℤ) (signs : List (SignEvent Tid)) : List Tid :=
  signs.filterMap fun
    | .dialled t m => if m = n then some t else none
    | _ => none

/-- The ticks that counted an attempt for a tree size. -/
def attempters (n : ℤ) (signs : List (SignEvent Tid)) : List Tid :=
  signs.filterMap fun
    | .attempted t m _ => if m = n then some t else none
    | _ => none

/-- No dial is made for a tree size after its row was latched. -/
def NoLateDial (signs : List (SignEvent Tid)) : Prop :=
  signs.Pairwise fun later earlier => ∀ t n, later = .dialled t n → earlier ≠ .latched n

/-- The bounds for one tree size. -/
structure DialBound (n : ℤ) (signs : List (SignEvent Tid)) : Prop where
  attempts : ∀ g, attemptCount n g signs ≤ 2
  resigns : resignCount n signs ≤ 1
  dials : (dialers n signs).length ≤ 4

section Events

variable {s s' : Store} {t : Tid} {o : Op}

theorem signEvents_of_jobs (h : s'.jobs = s.jobs)
    (ho : ∀ c, o ≠ .call c) : signEvents t s s' o = [] := by
  cases o with
  | call c => exact absurd rfl (ho c)
  | _ => exact if_pos h

theorem signEvents_of_ne (h : s'.jobs ≠ s.jobs) (ho : ∀ c, o ≠ .call c) :
    signEvents t s s' o = effectEvents t s o := by
  cases o with
  | call c => exact absurd rfl (ho c)
  | _ => exact if_neg h

end Events

/-! ## The condition -/

/-- The tree size of a dial. -/
def dialSize : Call → Option ℤ
  | .requestSigned ident .. => some ident.treeSize
  | _ => none

/-- A dial finds the row without a signed blob, as its tick read it; a save on a
latched row has read it latched; and a job that is to be created was never there,
or still is. -/
def Orderly (w : SignWorld Tid) : Op → Prop
  | .call c => ∀ n ∈ dialSize c, ∀ row ∈ w.world.store.authorizedRow n, row.signed = []
  | .updateAuthorized existing a =>
      ∀ row ∈ w.world.store.authorizedRow a.treeSize, row.Latched → existing.Latched
  | .insertAuthorized _ a =>
      ∀ row ∈ w.world.store.authorizedRow a.treeSize, ¬row.Latched
  | .createAutomationJob job =>
      w.world.store.automationJobRow job.treeSize = none → .created job.treeSize ∉ w.signs
  | _ => True

/-! ## The protocol of a tick -/

/-- A tick that has counted an attempt for a tree size and not used it is `due`. -/
inductive DialPhase
  | idle
  | due (n : ℤ)
  deriving DecidableEq

/-- A tick dials for the job whose attempt it has counted. -/
def dialProtocol : Protocol sig DialPhase where
  allowed φ o :=
    match o with
    | .call (.requestSigned ident ..) => φ = .due ident.treeSize
    | .updateAuthorized existing a => saveCheck existing a = .ok true
    | .insertAuthorized existing _ => ∀ row ∈ existing, row.signed = []
    | _ => True
  next φ o r :=
    match o, r with
    | .recordAutomationSignAttempt n _, .ok _ => .due n
    | .automationJobRow n, .ok (some job) => if φ = .due n then .due job.treeSize else φ
    | .call (.requestSigned ..), _ => .idle
    | _, _ => φ

section Programs

theorem quiets_dialProtocol : Quiets dialProtocol where
  quiet := by
    intro φ o ho
    cases o with
    | call c => cases c <;> trivial
    | _ => trivial
  update h := h
  insert h := h

section Steps

variable {φ : DialPhase}

theorem quietCall_wpe {c : Call} {Q : DialPhase → c.Res → Prop} (hc : Quiet (.call c))
    (hQ : ∀ a, Q φ a) : wpe dialProtocol (invoke c) Q (fun _ _ => True) φ := by
  refine ⟨quiets_dialProtocol.quiet hc, ?_⟩
  rintro (e | a)
  · trivial
  · have hnext : dialProtocol.next φ (.call c) (.ok a) = φ := by
      cases c <;> first | rfl | exact hc.elim
    show Q (dialProtocol.next φ (.call c) (.ok a)) a
    rw [hnext]
    exact hQ a

theorem readRow_wpe {n : ℤ} {Q : DialPhase → Option AuthorizedRow → Prop}
    (hQ : ∀ row, Q φ row) : wpe dialProtocol (authorizedAt n) Q (fun _ _ => True) φ := by
  refine ⟨trivial, ?_⟩
  rintro (e | row)
  · trivial
  · exact hQ row

theorem dial_wpe {ident : Identity} {requestId params : PyStr} {now : ℤ}
    {Q : DialPhase → SignedReply → Prop} (hQ : ∀ reply, Q .idle reply) :
    wpe dialProtocol (invoke (.requestSigned ident requestId params now)) Q (fun _ _ => True)
      (.due ident.treeSize) := by
  refine ⟨rfl, ?_⟩
  rintro (e | reply)
  · trivial
  · exact hQ reply

/-- A job that is read back after its attempt is the one that is due. -/
theorem attempt_wpe {n now : ℤ} {Q : DialPhase → Option Job → Prop} (hnone : ∀ φ, Q φ none)
    (hQ : ∀ job : Job, Q (.due job.treeSize) (some job)) :
    wpe dialProtocol (Canary.recordAutomationSignAttempt n now) Q (fun _ _ => True) φ := by
  rw [Canary.recordAutomationSignAttempt, thenJob, wpe_bind]
  refine ⟨trivial, ?_⟩
  rintro (e | _)
  · trivial
  · refine ⟨trivial, ?_⟩
    rintro (e | _ | job)
    · trivial
    · exact hnone _
    · show Q (if DialPhase.due n = .due n then .due job.treeSize else _) (some job)
      rw [if_pos rfl]
      exact hQ job

end Steps

/-- The dial for a job uses its attempt. -/
theorem authorize_wpe (job : Job) (requestId params : PyStr) (now : ℤ) :
    wpe dialProtocol (authorize (identityFromJob job) requestId params now) (fun _ _ => True)
      (fun _ _ => True) (.due job.treeSize) := by
  rw [authorize, wpe_bind]
  refine quietCall_wpe trivial fun _ => ?_
  rw [wpe_bind]
  refine readRow_wpe fun row => ?_
  split
  · exact quiets_dialProtocol.existingAuthorizedUsable _ _ _ _
  · rw [wpe_bind]
    exact dial_wpe fun reply => quiets_dialProtocol.saveAuthorizedCheckpoint _ _

theorem lenient_dialProtocol : Lenient dialProtocol where
  toQuiets := quiets_dialProtocol
  reserveAndPost := quiets_dialProtocol.reserveAndPost trivial
  authorizeJob job now := by
    intro φ
    rw [authorizeJob, wpe_bind]
    refine attempt_wpe (fun _ => trivial) fun job => ?_
    show wpe dialProtocol (authorize (identityFromJob job) _ _ _ >>= _) _ _ (.due job.treeSize)
    rw [wpe_bind]
    refine wpe_mono (authorize_wpe job _ _ _) (fun φ' auth _ => ?_) fun _ _ _ => trivial
    exact Anywhere.unless (.securityError _)
      ((quiets_dialProtocol.setAutomationJobStatus _ _ _).bind fun _ => .pure _) φ'

end Programs

/-! ## The counters of the jobs -/

section Counts

variable {n m : ℤ} {g : ℕ} {t : Tid} {l : List (SignEvent Tid)}

theorem attemptCount_attempted {h : ℕ} : attemptCount n g (.attempted t m h :: l) =
    attemptCount n g l + if m = n ∧ h = g then 1 else 0 := by
  simp [attemptCount, List.countP_cons]

theorem resignCount_resigned :
    resignCount n (.resigned m :: l) = resignCount n l + if m = n then 1 else 0 := by
  simp [resignCount, List.countP_cons]

theorem attempters_attempted {h : ℕ} : attempters n (.attempted t m h :: l) =
    if m = n then t :: attempters n l else attempters n l := by
  by_cases hm : m = n <;> simp [attempters, hm]

theorem dialers_dialled : dialers n (.dialled t m :: l) =
    if m = n then t :: dialers n l else dialers n l := by
  by_cases hm : m = n <;> simp [dialers, hm]

/-- An event of another kind. -/
def Uncounted : SignEvent Tid → Prop
  | .latched _ => True
  | .dialled .. => True
  | _ => False

theorem Uncounted.attemptCount {e : SignEvent Tid} (he : Uncounted e) :
    attemptCount n g (e :: l) = attemptCount n g l := by
  cases e <;> first | exact he.elim | simp [AutoAnchor.attemptCount]

theorem Uncounted.resignCount {e : SignEvent Tid} (he : Uncounted e) :
    resignCount n (e :: l) = resignCount n l := by
  cases e <;> first | exact he.elim | simp [AutoAnchor.resignCount]

/-- The attempts of the two generations are all attempts. -/
theorem attempters_length (h : ∀ t g, .attempted t n g ∈ l → g ≤ 1) :
    (attempters n l).length = attemptCount n 0 l + attemptCount n 1 l := by
  induction l with
  | nil => rfl
  | cons e l ih =>
      have ih := ih fun t g hmem => h t g (List.mem_cons_of_mem _ hmem)
      cases e with
      | attempted t m g =>
          rw [attempters_attempted, attemptCount_attempted, attemptCount_attempted]
          by_cases hm : m = n
          · subst hm
            have hg := h t g List.mem_cons_self
            rw [if_pos rfl, List.length_cons, ih]
            rcases Nat.le_one_iff_eq_zero_or_eq_one.mp hg with rfl | rfl <;> simp <;> omega
          · simp [hm, ih]
      | _ => exact ih

end Counts

/-- The counters of a job count its attempts and resigns, and bound them. -/
structure Counted (s : Store) (l : List (SignEvent Tid)) : Prop where
  unique : Table.Unique Job.treeSize s.jobs
  uncreated : ∀ {n}, .created n ∉ l →
    s.automationJobRow n = none ∧ resignCount n l = 0 ∧ ∀ g, attemptCount n g l = 0
  attempts : ∀ n g, attemptCount n g l ≤ 2
  resigns : ∀ n, resignCount n l ≤ 1
  later : ∀ {n g}, resignCount n l < g → attemptCount n g l = 0
  job : ∀ {n job}, s.automationJobRow n = some job → job.resignCount = resignCount n l ∧
    job.signAttempts = attemptCount n job.resignCount l

namespace Counted

variable {s s' : Store} {l : List (SignEvent Tid)} {n : ℤ}

/-- Jobs may go, and change where nothing is counted. -/
theorem congr (h : Counted s l) (hunique : Table.Unique Job.treeSize s'.jobs)
    (hjobs : ∀ n job', s'.automationJobRow n = some job' → ∃ job,
      s.automationJobRow n = some job ∧ job'.resignCount = job.resignCount ∧
        job'.signAttempts = job.signAttempts) : Counted s' l :=
  { h with
    unique := hunique
    uncreated := by
      intro n hn
      obtain ⟨hnone, hcounts⟩ := h.uncreated hn
      refine ⟨Option.eq_none_iff_forall_ne_some.mpr fun job' hjob' => ?_, hcounts⟩
      obtain ⟨job, hjob, -⟩ := hjobs n job' hjob'
      rw [hnone] at hjob
      cases hjob
    job := by
      intro n job' hjob'
      obtain ⟨job, hjob, hresigns, hattempts⟩ := hjobs n job' hjob'
      rw [hresigns, hattempts]
      exact h.job hjob }

/-- The jobs are the same. -/
theorem of_jobs (h : Counted s l) (hjobs : s'.jobs = s.jobs) : Counted s' l := by
  refine h.congr (hjobs ▸ h.unique) fun n job' hjob' => ⟨job', ?_, rfl, rfl⟩
  rw [Store.automationJobRow, ← hjobs]
  exact hjob'

/-- The job of a tree size changes in what is not counted. -/
theorem update (h : Counted s l) {f : Job → Job}
    (hjobs : s'.jobs = Table.update Job.treeSize n f s.jobs)
    (hf : ∀ job, (f job).treeSize = job.treeSize ∧ (f job).resignCount = job.resignCount ∧
      (f job).signAttempts = job.signAttempts) : Counted s' l := by
  refine h.congr (hjobs ▸ h.unique.update fun job => (hf job).1) fun m job' hjob' => ?_
  rw [automationJobRow_update hjobs fun job => (hf job).1] at hjob'
  split at hjob'
  next heq =>
    subst heq
    obtain ⟨job, hjob, rfl⟩ := Option.map_eq_some_iff.mp hjob'
    exact ⟨job, hjob, (hf job).2⟩
  next => exact ⟨job', hjob', rfl, rfl⟩

/-- Jobs are deleted. -/
theorem filter (h : Counted s l) (p : Job → Bool) (hjobs : s'.jobs = s.jobs.filter p) :
    Counted s' l := by
  refine h.congr (hjobs ▸ h.unique.filter p) fun m job' hjob' => ⟨job', ?_, rfl, rfl⟩
  rw [Store.automationJobRow, hjobs, Table.lookup_filter h.unique] at hjob'
  exact (Option.filter_eq_some_iff.mp hjob').1

theorem cons (h : Counted s l) {e : SignEvent Tid} (he : Uncounted e) : Counted s (e :: l) where
  unique := h.unique
  uncreated := by
    intro n hn
    rw [he.resignCount]
    obtain ⟨hnone, hresigns, hattempts⟩ := h.uncreated fun hmem => hn (List.mem_cons_of_mem _ hmem)
    exact ⟨hnone, hresigns, fun g => he.attemptCount.trans (hattempts g)⟩
  attempts n g := Nat.le_trans (Nat.le_of_eq he.attemptCount) (h.attempts n g)
  resigns n := Nat.le_trans (Nat.le_of_eq he.resignCount) (h.resigns n)
  later hlt := he.attemptCount.trans (h.later (he.resignCount ▸ hlt))
  job hjob := by
    rw [he.resignCount, he.attemptCount]
    exact h.job hjob

/-- A job is created for a tree size that never had one. -/
theorem create (h : Counted s l) {job : Job} (hnew : .created job.treeSize ∉ l)
    (hresigns : job.resignCount = 0) (hattempts : job.signAttempts = 0)
    (hjobs : s'.jobs = s.jobs ++ [job]) : Counted s' (.created job.treeSize :: l) := by
  obtain ⟨hnone, hresigned, hattempted⟩ := h.uncreated hnew
  have hresignCount : ∀ n, resignCount n (.created job.treeSize :: l) = resignCount n l :=
    fun n => by simp [resignCount]
  have hattemptCount : ∀ n g,
      attemptCount n g (.created job.treeSize :: l) = attemptCount n g l :=
    fun n g => by simp [attemptCount]
  have hrow : ∀ n, s'.automationJobRow n =
      if n = job.treeSize then some job else s.automationJobRow n := by
    intro n
    rw [Store.automationJobRow, hjobs, Table.lookup_append]
    change (s.automationJobRow n).or _ = _
    by_cases hn : n = job.treeSize
    · rw [if_pos hn, hn, hnone]
      simp [Table.lookup]
    · rw [if_neg hn]
      simp [Table.lookup, Ne.symm hn]
  refine ⟨hjobs ▸ h.unique.append hnone, fun {n} hn => ?_, fun n g => ?_, fun n => ?_,
    fun {n g} hlt => ?_, fun {n job'} hjob' => ?_⟩
  · rw [List.mem_cons, not_or] at hn
    have hne : n ≠ job.treeSize := fun heq => hn.1 (heq ▸ rfl)
    obtain ⟨hrow', hresigns', hattempts'⟩ := h.uncreated hn.2
    rw [hrow, if_neg hne, hresignCount]
    exact ⟨hrow', hresigns', fun g => (hattemptCount n g).trans (hattempts' g)⟩
  · rw [hattemptCount]
    exact h.attempts n g
  · rw [hresignCount]
    exact h.resigns n
  · rw [hattemptCount]
    exact h.later (hresignCount n ▸ hlt)
  · rw [hresignCount, hattemptCount]
    rw [hrow] at hjob'
    split at hjob'
    next heq =>
      subst heq
      cases hjob'
      rw [hresigns, hattempts, hresigned, hattempted]
      exact ⟨rfl, rfl⟩
    next => exact h.job hjob'

/-- An attempt is counted. -/
theorem attempt (h : Counted s l) {t : Tid} {now : ℤ} {job : Job}
    (hjob : s.automationJobRow n = some job) (hcap : job.signAttempts < 2)
    (hjobs : s'.jobs = Table.update Job.treeSize n (Job.attempted now) s.jobs) :
    Counted s' (.attempted t n job.resignCount :: l) := by
  obtain ⟨hresigns, hattempts⟩ := h.job hjob
  have hresignCount : ∀ m, resignCount m (.attempted t n job.resignCount :: l) =
      resignCount m l := fun m => by simp [resignCount]
  refine ⟨hjobs ▸ h.unique.update fun _ => rfl, fun {m} hm => ?_, fun m g => ?_, fun m => ?_,
    fun {m g} hlt => ?_, fun {m job'} hjob' => ?_⟩
  · obtain ⟨hnone, hresigns', hattempts'⟩ := h.uncreated fun hmem => hm (List.mem_cons_of_mem _ hmem)
    have hne : m ≠ n := by
      rintro rfl
      rw [hnone] at hjob
      cases hjob
    refine ⟨?_, (hresignCount m).trans hresigns', fun g => ?_⟩
    · rw [automationJobRow_update hjobs fun _ => rfl, if_neg hne]
      exact hnone
    · rw [attemptCount_attempted, if_neg fun heq => hne heq.1.symm]
      exact hattempts' g
  · rw [attemptCount_attempted]
    split
    next heq =>
      obtain ⟨rfl, rfl⟩ := heq
      rw [← hattempts]
      exact hcap
    next => exact h.attempts m g
  · rw [hresignCount]
    exact h.resigns m
  · rw [hresignCount] at hlt
    rw [attemptCount_attempted, h.later hlt, if_neg ?_]
    rintro ⟨rfl, rfl⟩
    exact absurd hlt (hresigns ▸ Nat.lt_irrefl _)
  · rw [automationJobRow_update hjobs fun _ => rfl] at hjob'
    rw [hresignCount, attemptCount_attempted]
    split at hjob'
    next heq =>
      subst heq
      rw [hjob] at hjob'
      cases hjob'
      rw [if_pos ⟨rfl, rfl⟩]
      exact ⟨hresigns, congrArg (· + 1) hattempts⟩
    next hne =>
      rw [if_neg fun heq => hne heq.1.symm]
      exact h.job hjob'

/-- The one resign. -/
theorem resign (h : Counted s l) {job : Job} {requestId params : PyStr} {authorizeAt : ℤ}
    (hjob : s.automationJobRow n = some job) (hcap : job.resignCount = 0)
    (hjobs : s'.jobs = Table.update Job.treeSize n
      (Job.resigned requestId params authorizeAt) s.jobs) :
    Counted s' (.resigned n :: l) := by
  obtain ⟨hresigns, -⟩ := h.job hjob
  have hattemptCount : ∀ m g, attemptCount m g (.resigned n :: l) = attemptCount m g l :=
    fun m g => by simp [attemptCount]
  refine ⟨hjobs ▸ h.unique.update fun _ => rfl, fun {m} hm => ?_, fun m g => ?_, fun m => ?_,
    fun {m g} hlt => ?_, fun {m job'} hjob' => ?_⟩
  · obtain ⟨hnone, hresigns', hattempts'⟩ := h.uncreated fun hmem => hm (List.mem_cons_of_mem _ hmem)
    have hne : m ≠ n := by
      rintro rfl
      rw [hnone] at hjob
      cases hjob
    refine ⟨?_, ?_, fun g => (hattemptCount m g).trans (hattempts' g)⟩
    · rw [automationJobRow_update hjobs fun _ => rfl, if_neg hne]
      exact hnone
    · rw [resignCount_resigned, if_neg hne.symm]
      exact hresigns'
  · rw [hattemptCount]
    exact h.attempts m g
  · rw [resignCount_resigned]
    split
    next heq =>
      subst heq
      rw [← hresigns, hcap]
    next => exact h.resigns m
  · rw [hattemptCount]
    rw [resignCount_resigned] at hlt
    exact h.later (Nat.lt_of_le_of_lt (Nat.le_add_right _ _) hlt)
  · rw [automationJobRow_update hjobs fun _ => rfl] at hjob'
    rw [hattemptCount, resignCount_resigned]
    split at hjob'
    next heq =>
      subst heq
      rw [hjob] at hjob'
      cases hjob'
      rw [if_pos rfl, ← hresigns]
      refine ⟨rfl, (h.later ?_).symm⟩
      rw [← hresigns]
      exact Nat.lt_succ_self _
    next hne =>
      rw [if_neg (Ne.symm hne)]
      exact h.job hjob'

end Counted

/-! ## The invariant -/

section Invariant

variable {w w' : SignWorld Tid} {ph : Tid → Life DialPhase} {t : Tid} {φ : DialPhase}

/-- A living tick has an unused attempt for a tree size. -/
def Due (ph : Tid → Life DialPhase) (t : Tid) (n : ℤ) : Prop := ph t = .alive (.due n)

variable [DecidableEq Tid]

/-- The counters count, dials are covered by attempts, and what was latched is sealed. -/
structure Bounded (w : SignWorld Tid) (ph : Tid → Life DialPhase) : Prop where
  counted : Counted w.world.store w.signs
  credit : Credit (Due ph) (fun t n => (attempters n w.signs).count t)
    fun t n => (dialers n w.signs).count t
  latched : ∀ {n}, .latched n ∈ w.signs → ∃ signed, Sealed w.world.store n signed
  late : NoLateDial w.signs

namespace Bounded

/-- A step without an event. -/
theorem quiet (h : Bounded w ph) (hsigns : w'.signs = w.signs)
    (hcounted : Counted w'.world.store w.signs)
    (hkeeps : KeepsSealed w.world.store w'.world.store) : Bounded w' ph where
  counted := hsigns ▸ hcounted
  credit := hsigns ▸ h.credit
  latched hmem := by
    obtain ⟨signed, hsealed⟩ := h.latched (hsigns ▸ hmem)
    exact ⟨signed, hkeeps hsealed⟩
  late := hsigns ▸ h.late

/-- A step with an event that is neither an attempt nor a dial. -/
theorem event (h : Bounded w ph) {e : SignEvent Tid} (hsigns : w'.signs = e :: w.signs)
    (hcounted : Counted w'.world.store (e :: w.signs))
    (hkeeps : KeepsSealed w.world.store w'.world.store)
    (hattempt : ∀ t n g, e ≠ .attempted t n g) (hdial : ∀ t n, e ≠ .dialled t n)
    (hlatch : ∀ n, e = .latched n → ∃ signed, Sealed w'.world.store n signed) :
    Bounded w' ph where
  counted := hsigns ▸ hcounted
  credit := by
    have hattempters : ∀ n, attempters n w'.signs = attempters n w.signs := by
      intro n
      rw [hsigns]
      cases e with
      | attempted t m g => exact absurd rfl (hattempt t m g)
      | _ => rfl
    have hdialers : ∀ n, dialers n w'.signs = dialers n w.signs := by
      intro n
      rw [hsigns]
      cases e with
      | dialled t m => exact absurd rfl (hdial t m)
      | _ => rfl
    simp only [hattempters, hdialers]
    exact h.credit
  latched := by
    intro n hmem
    rw [hsigns] at hmem
    rcases List.mem_cons.mp hmem with heq | hmem
    · exact hlatch n heq.symm
    · obtain ⟨signed, hsealed⟩ := h.latched hmem
      exact ⟨signed, hkeeps hsealed⟩
  late := by
    rw [hsigns]
    exact List.pairwise_cons.mpr ⟨fun e' _ t n heq => absurd heq (hdial t n), h.late⟩

/-- A tick counts an attempt. -/
theorem attempt (h : Bounded w ph) {ph' : Tid → Life DialPhase} {n : ℤ} {g : ℕ}
    (hsigns : w'.signs = .attempted t n g :: w.signs)
    (hcounted : Counted w'.world.store (.attempted t n g :: w.signs))
    (hkeeps : KeepsSealed w.world.store w'.world.store)
    (hdue : ∀ {t' n'}, Due ph' t' n' → Due ph t' n' ∨ t' = t ∧ n' = n) : Bounded w' ph' where
  counted := hsigns ▸ hcounted
  credit := by
    rw [hsigns]
    have hdialers : ∀ n', dialers n' (.attempted t n g :: w.signs) = dialers n' w.signs :=
      fun _ => rfl
    simp only [hdialers]
    refine h.credit.grant (t := t) (k := n) hdue (fun t' n' => ?_) ?_
    · rw [attempters_attempted]
      split
      · exact List.count_le_count_cons
      · exact Nat.le_refl _
    · rw [attempters_attempted, if_pos rfl, List.count_cons_self]
      exact Nat.lt_succ_self _
  latched := by
    intro m hmem
    rw [hsigns] at hmem
    rcases List.mem_cons.mp hmem with heq | hmem
    · cases heq
    · obtain ⟨signed, hsealed⟩ := h.latched hmem
      exact ⟨signed, hkeeps hsealed⟩
  late := by
    rw [hsigns]
    exact List.pairwise_cons.mpr ⟨fun e' _ t n heq => (nomatch heq), h.late⟩

/-- A tick dials. -/
theorem dial (h : Bounded w ph) {n : ℤ} (hworld : w'.world = w.world)
    (hsigns : w'.signs = .dialled t n :: w.signs) (ht : ph t = .alive (.due n))
    (hunsigned : ∀ row ∈ w.world.store.authorizedRow n, row.signed = []) :
    Bounded w' (Function.update ph t (.alive .idle)) where
  counted := by
    rw [hsigns, hworld]
    exact h.counted.cons trivial
  credit := by
    rw [hsigns]
    have hattempters : ∀ n', attempters n' (.dialled t n :: w.signs) = attempters n' w.signs :=
      fun _ => rfl
    simp only [hattempters]
    refine h.credit.spend (t := t) (k := n) ht (fun {t' n'} hdue => ?_) ?_ fun {t' n'} hne => ?_
    · rcases Life.update_eq_alive.mp hdue with ⟨-, heq⟩ | ⟨hne, hold⟩
      · cases heq
      · exact ⟨hold, fun heq => hne heq.1⟩
    · rw [dialers_dialled, if_pos rfl, List.count_cons_self]
    · rw [dialers_dialled]
      split
      next hn =>
        subst hn
        exact List.count_cons_of_ne fun heq => hne ⟨heq.symm, rfl⟩
      next => rfl
  latched := by
    intro m hmem
    rw [hsigns] at hmem
    rw [hworld]
    rcases List.mem_cons.mp hmem with heq | hmem
    · cases heq
    · exact h.latched hmem
  late := by
    rw [hsigns]
    refine List.pairwise_cons.mpr ⟨fun e hmem t' m heq hlatched => ?_, h.late⟩
    cases heq
    subst hlatched
    obtain ⟨signed, row, hrow, -, hsigned, hne⟩ := h.latched hmem
    exact hne (hsigned.symm.trans (hunsigned row hrow))

end Bounded

namespace Bounded

/-- An operation that leaves the jobs as they are, and the sealed rows sealed. -/
theorem same {o : Op} (h : Bounded w ph)
    (hsigns : w'.signs = signEvents t w.world.store w'.world.store o ++ w.signs)
    (ho : ∀ c, o ≠ .call c) (hjobs : w'.world.store.jobs = w.world.store.jobs)
    (hkeeps : KeepsSealed w.world.store w'.world.store) : Bounded w' ph := by
  rw [signEvents_of_jobs hjobs ho] at hsigns
  exact h.quiet hsigns (h.counted.of_jobs hjobs) hkeeps

/-- A transaction, where it takes effect. -/
theorem transact {o : Op} (h : Bounded w ph) {f : Store → Except PyError (Unit × Store)}
    {r : Except PyError Unit} (htransact : Canary.transact w.world f r w'.world)
    (hsigns : w'.signs = signEvents t w.world.store w'.world.store o ++ w.signs)
    (ho : ∀ c, o ≠ .call c)
    (hkeeps : ∀ {s}, f w.world.store = .ok ((), s) → KeepsSealed w.world.store s)
    (heffect : ∀ {s}, f w.world.store = .ok ((), s) → s.jobs ≠ w.world.store.jobs →
      w'.world = { w.world with store := s } →
        w'.signs = effectEvents t w.world.store o ++ w.signs → Bounded w' ph) : Bounded w' ph := by
  rcases transact_cases htransact with ⟨s, hs, hworld⟩ | ⟨-, hworld⟩
  · by_cases hjobs : w'.world.store.jobs = w.world.store.jobs
    · refine h.same hsigns ho hjobs ?_
      rw [hworld]
      exact hkeeps hs
    · rw [signEvents_of_ne hjobs ho] at hsigns
      exact heffect hs (by rwa [hworld] at hjobs) hworld hsigns
  · exact h.same hsigns ho (by rw [hworld]) (by rw [hworld]; exact KeepsSealed.refl _)

/-- A save of a row. -/
theorem save {o : Op} (h : Bounded w ph) {n : ℤ} {f : Store → Store} {r : Except PyError Unit}
    (hsave : Canary.save w.world t n f r w'.world)
    (hsigns : w'.signs = signEvents t w.world.store w'.world.store o ++ w.signs)
    (ho : ∀ c, o ≠ .call c) (hjobs : (f w.world.store).jobs = w.world.store.jobs)
    (hkeeps : KeepsSealed w.world.store (f w.world.store)) : Bounded w' ph := by
  rcases save_cases hsave with ⟨s, rfl, hworld⟩ | ⟨-, hworld⟩
  · exact h.same hsigns ho (by rw [hworld]; exact hjobs) (by rw [hworld]; exact hkeeps)
  · exact h.same hsigns ho (by rw [hworld]) (by rw [hworld]; exact KeepsSealed.refl _)

/-- The attempt of a tick, counted whatever is reported of it. -/
theorem attemptOp {n now : ℤ} (h : Bounded w ph) (ht : ph t = .alive φ) {r : Except PyError Unit}
    (htransact : Canary.transact w.world (recordAutomationSignAttempt n now) r w'.world)
    (hsigns : w'.signs = signEvents t w.world.store w'.world.store
      (.recordAutomationSignAttempt n now) ++ w.signs) :
    Bounded w' (Function.update ph t
      (.alive (dialProtocol.next φ (.recordAutomationSignAttempt n now) r))) := by
  have hcall : ∀ c, Op.recordAutomationSignAttempt n now ≠ .call c := fun c => nofun
  rcases transact_cases htransact with ⟨s, hs, hworld⟩ | ⟨⟨e, rfl⟩, hworld⟩
  · obtain ⟨job, hjob, hcap, hjobs⟩ := attempt_of_ok hs
    have hstore : w'.world.store = s := by rw [hworld]
    have hne : w'.world.store.jobs ≠ w.world.store.jobs := by
      intro heq
      have hrow := automationJobRow_update hjobs (fun _ => rfl) n
      rw [if_pos rfl, Store.automationJobRow, ← hstore, heq] at hrow
      change w.world.store.automationJobRow n = _ at hrow
      rw [hjob] at hrow
      exact Nat.succ_ne_self _ (congrArg Job.signAttempts (Option.some_inj.mp hrow)).symm
    rw [signEvents_of_ne hne hcall, effectEvents, hjob] at hsigns
    refine h.attempt hsigns ?_ ?_ fun {t' n'} hdue => ?_
    · rw [hstore]
      exact h.counted.attempt hjob hcap hjobs
    · rw [hstore]
      exact KeepsSealed.of_authorized (authorized_recordAutomationSignAttempt hs)
    · rcases Life.update_eq_alive.mp hdue with ⟨rfl, heq⟩ | ⟨-, hold⟩
      · cases r with
        | ok _ =>
            cases heq
            exact Or.inr ⟨rfl, rfl⟩
        | error e =>
            cases heq
            exact Or.inl ht
      · exact Or.inl hold
  · have hstay := h.same hsigns hcall (by rw [hworld]) (by rw [hworld]; exact KeepsSealed.refl _)
    rwa [← Life.update_same ht] at hstay

/-- **Every operation of a tick keeps the bounds.** -/
theorem op {o : Op} {r : o.Res} (h : Bounded w ph) (ht : ph t = .alive φ)
    (hallowed : dialProtocol.allowed φ o) (hguard : Orderly w o) (hexec : w.exec t o r w') :
    Bounded w' (Function.update ph t (.alive (dialProtocol.next φ o r))) := by
  obtain ⟨hexec, hsigns⟩ := hexec
  have stay : Bounded w' ph → Bounded w' (Function.update ph t (.alive φ)) := by
    intro h'
    rwa [Life.update_same ht]
  have read : (∀ c, o ≠ .call c) → w'.world = w.world → Bounded w' ph := by
    intro ho hworld
    exact h.same hsigns ho (by rw [hworld]) (by rw [hworld]; exact KeepsSealed.refl _)
  cases o with
  | authorizedRow n => exact stay (read (fun c => nofun) hexec.2)
  | lastAuthorizedRow => exact stay (read (fun c => nofun) hexec.2)
  | lastAutomationJob => exact stay (read (fun c => nofun) hexec.2)
  | budgetUsage b => exact stay (read (fun c => nofun) hexec.2)
  | automationJobRow n =>
      have hbounded := read (fun c => nofun) hexec.2
      rcases hexec.1 with rfl | ⟨e, rfl⟩
      · cases hfound : w.world.store.automationJobRow n with
        | none => exact stay hbounded
        | some job =>
            obtain rfl : job.treeSize = n := Table.lookup_key hfound
            show Bounded w' (Function.update ph t (.alive
              (if φ = .due job.treeSize then .due job.treeSize else φ)))
            split
            next heq => exact heq ▸ stay hbounded
            next => exact stay hbounded
      · exact stay hbounded
  | updateAuthorized existing a =>
      exact stay (h.save hexec hsigns (fun c => nofun) rfl
        (keepsSealed_updateAuthorized hallowed hguard))
  | insertAuthorized existing a =>
      refine stay (h.save hexec hsigns (fun c => nofun) rfl (keepsSealed_insertAuthorized ?_))
      rintro signed ⟨row, hrow, hlatched, -⟩
      exact hguard row hrow hlatched
  | createAutomationJob job =>
      refine stay (h.transact hexec hsigns (fun c => nofun)
        (fun hs => KeepsSealed.of_authorized (authorized_createAutomationJob hs)) ?_)
      intro s hs hne hworld hsigns
      rcases create_of_ok hs with rfl | ⟨hnone, job', hsize, hresigns, hattempts, hjobs⟩
      · exact absurd rfl hne
      · refine h.event hsigns ?_ ?_ (fun _ _ _ => nofun) (fun _ _ => nofun) fun _ => nofun
        · rw [hworld, ← hsize]
          exact h.counted.create (hsize ▸ hguard hnone) hresigns hattempts hjobs
        · rw [hworld]
          exact KeepsSealed.of_authorized (authorized_createAutomationJob hs)
  | setAutomationJobStatus n status now =>
      have hkeeps : ∀ {s}, setAutomationJobStatus n status now w.world.store = .ok ((), s) →
          KeepsSealed w.world.store s := fun hs =>
        KeepsSealed.of_authorized (authorized_setAutomationJobStatus hs)
      refine stay (h.transact hexec hsigns (fun c => nofun) hkeeps ?_)
      intro s hs _ hworld hsigns
      refine h.quiet hsigns ?_ ?_
      · rw [hworld]
        exact h.counted.update (jobStatus_of_ok hs) fun _ => ⟨rfl, rfl, rfl⟩
      · rw [hworld]
        exact hkeeps hs
  | recordAutomationSignAttempt n now => exact h.attemptOp ht hexec hsigns
  | beginAutomationResign n requestId params authorizeAt =>
      refine stay (h.transact hexec hsigns (fun c => nofun) keepsSealed_beginAutomationResign ?_)
      intro s hs _ hworld hsigns
      obtain ⟨job, hjob, -, hcap⟩ := (resign_of_ok hs).job
      refine h.event hsigns ?_ ?_ (fun _ _ _ => nofun) (fun _ _ => nofun) fun _ => nofun
      · rw [hworld]
        exact h.counted.resign hjob hcap (resign_of_ok hs).jobs
      · rw [hworld]
        exact keepsSealed_beginAutomationResign hs
  | reserveAutomaticSend n expected fee now b =>
      have hkeeps : ∀ {s}, reserveAutomaticSend n expected fee now b w.world.store = .ok ((), s) →
          KeepsSealed w.world.store s := fun hs => (sealed_reserveAutomaticSend hs).2.2
      refine stay (h.transact hexec hsigns (fun c => nofun) hkeeps ?_)
      intro s hs _ hworld hsigns
      refine h.event hsigns ?_ ?_ (fun _ _ _ => nofun) (fun _ _ => nofun) fun m heq => ?_
      · rw [hworld]
        exact (h.counted.update (reservation_of_ok hs).jobs fun _ => ⟨rfl, rfl, rfl⟩).cons trivial
      · rw [hworld]
        exact hkeeps hs
      · cases heq
        rw [hworld]
        exact (sealed_reserveAutomaticSend hs).2.1
  | setAutomaticSendStatus n status now =>
      have hkeeps : ∀ {s}, setAutomaticSendStatus n status now w.world.store = .ok ((), s) →
          KeepsSealed w.world.store s := fun hs =>
        KeepsSealed.of_authorized (authorized_setAutomaticSendStatus hs)
      refine stay (h.transact hexec hsigns (fun c => nofun) hkeeps ?_)
      intro s hs _ hworld hsigns
      refine h.quiet hsigns ?_ ?_
      · rw [hworld]
        -- the status is written, then old jobs are pruned
        have hupdated : Counted (updateJob n (Job.withStatus status.toJob now) w.world.store)
            w.signs := h.counted.update (f := Job.withStatus status.toJob now) rfl
              fun _ => ⟨rfl, rfl, rfl⟩
        exact hupdated.filter _ (sendStatusSet_of_ok hs).jobs
      · rw [hworld]
        exact hkeeps hs
  | post n signed =>
      have hstore : w'.world.store = w.world.store := by rw [hexec]
      exact stay (h.same hsigns (fun c => nofun) (by rw [hstore])
        (by rw [hstore]; exact KeepsSealed.refl _))
  | call c =>
      have hworld : w'.world = w.world := hexec
      by_cases hquiet : Quiet (.call c)
      · have hnext : dialProtocol.next φ (.call c) r = φ := by
          cases c <;> first | rfl | exact hquiet.elim
        have hnone : signEvents t w.world.store w'.world.store (.call c) = [] := by
          cases c <;> first | exact ite_self _ | exact hquiet.elim
        rw [hnone] at hsigns
        rw [hnext]
        refine stay (h.quiet hsigns ?_ ?_)
        · rw [hworld]
          exact h.counted
        · rw [hworld]
          exact KeepsSealed.refl _
      · cases c with
        | requestSigned ident requestId params now =>
            cases hallowed
            exact h.dial hworld hsigns ht (hguard _ rfl)
        | _ => exact absurd trivial hquiet

theorem spawn (h : Bounded w ph) :
    Bounded w (Function.update ph t (.alive .idle)) :=
  { h with
    credit := h.credit.mono (fun hdue => by
      rcases Life.update_eq_alive.mp hdue with ⟨-, heq⟩ | ⟨-, hold⟩
      · cases heq
      · exact hold) fun _ _ => Nat.le_refl _ }

end Bounded

theorem bounded_invariant {store : Store} (hstore : store.jobs = []) :
    (signSystem Tid Orderly store).Invariant dialProtocol .idle Bounded where
  init := by
    refine ⟨⟨?_, fun _ => ⟨?_, rfl, fun _ => rfl⟩, fun _ _ => Nat.zero_le 2,
      fun _ => Nat.zero_le 1, fun _ => rfl, fun hjob => ?_⟩, ⟨fun hdue => (nomatch hdue),
      fun _ _ => Nat.zero_le _⟩, fun hmem => (nomatch hmem), .nil⟩
    · show Table.Unique Job.treeSize store.jobs
      rw [hstore]
      exact List.nodup_nil
    · show Table.lookup Job.treeSize store.jobs _ = none
      rw [hstore]
      rfl
    · change Table.lookup Job.treeSize store.jobs _ = _ at hjob
      rw [hstore] at hjob
      cases hjob
  op h ht hallowed hexec := h.op ht hallowed hexec.1 hexec.2
  spawn h _ := h.spawn
  crash := by
    rintro w ph q w' h rfl
    exact { h with
      credit := h.credit.mono (fun hdue => Life.alive_of_kill hdue) fun _ _ => Nat.le_refl _ }
  env := by
    rintro w ph w' h rfl
    exact h

/-- Dials are covered by attempts, and these by the counters of two generations. -/
theorem Bounded.dialBound (h : Bounded w ph) (n : ℤ) : DialBound n w.signs where
  attempts := h.counted.attempts n
  resigns := h.counted.resigns n
  dials := by
    have hgenerations : ∀ t g, .attempted t n g ∈ w.signs → g ≤ 1 := by
      intro t g hmem
      by_contra hlater
      have hnone := h.counted.later
        (Nat.lt_of_le_of_lt (h.counted.resigns n) (Nat.not_le.mp hlater))
      rw [attemptCount, List.countP_eq_zero] at hnone
      exact hnone _ hmem (decide_eq_true ⟨rfl, rfl⟩)
    have hcovered : (dialers n w.signs).length ≤ (attempters n w.signs).length :=
      (List.subperm_ext_iff.mpr fun t _ => h.credit.covered t n).length_le
    rw [attempters_length hgenerations] at hcovered
    have hfirst := h.counted.attempts n 0
    have hsecond := h.counted.attempts n 1
    omega

/-- **When the signer is dialled at most four times, and not after the latch.**  In an
orderly run on a store without jobs, each generation of a tree size has at most two
attempts, there is at most one resign and there are at most four dials for it, and
none after its row was latched. -/
theorem signer_dials {windows : BudgetWindows} {store : Store} (hstore : store.jobs = [])
    {c : (signSystem Tid Orderly store).Config (Except PyError (Option TickStatus))}
    (h : (signSystem Tid Orderly store).Reachable (ticks windows) c) :
    (∀ n, DialBound n c.world.signs) ∧ NoLateDial c.world.signs := by
  have hticks : ∀ p, ticks windows p → wp dialProtocol p (fun _ _ => True) .idle := by
    rintro _ ⟨now, rfl⟩
    exact wp_mono (lenient_dialProtocol.tick windows now .idle) fun _ _ _ => trivial
  obtain ⟨ph, hw, -⟩ := h.phases (bounded_invariant hstore) hticks
  exact ⟨hw.dialBound, hw.late⟩

end Invariant

/-! ## Two runs -/

instance (w : SignWorld Tid) [DecidableEq Tid] : (o : Op) → Decidable (Orderly w o)
  | .call c =>
      inferInstanceAs (Decidable
        (∀ n ∈ dialSize c, ∀ row ∈ w.world.store.authorizedRow n, row.signed = []))
  | .updateAuthorized existing a =>
      inferInstanceAs (Decidable
        (∀ row ∈ w.world.store.authorizedRow a.treeSize, row.Latched → existing.Latched))
  | .insertAuthorized _ a =>
      inferInstanceAs (Decidable
        (∀ row ∈ w.world.store.authorizedRow a.treeSize, ¬row.Latched))
  | .createAutomationJob job =>
      inferInstanceAs (Decidable (w.world.store.automationJobRow job.treeSize = none →
        .created job.treeSize ∉ w.signs))
  | .authorizedRow _ | .lastAuthorizedRow | .automationJobRow _ | .lastAutomationJob
  | .budgetUsage _ | .setAutomationJobStatus .. | .recordAutomationSignAttempt ..
  | .beginAutomationResign .. | .reserveAutomaticSend .. | .setAutomaticSendStatus ..
  | .post .. => .isTrue trivial

/-- The outcome of an operation, where the condition allows it. -/
def signAnswer [DecidableEq Tid] (guard : SignWorld Tid → Op → Prop)
    [∀ w o, Decidable (guard w o)] (x : Outcomes) (t : Tid) (w : SignWorld Tid) (o : Op) :
    Option (o.Res × SignWorld Tid) :=
  if guard w o then
    let (r, world) := outcome x w.world t o
    some (r, ⟨world, signEvents t w.world.store world.store o ++ w.signs⟩)
  else none

/-- A thread takes up to `k` operations in a row, and no read or write fails. -/
theorem signTurn {α : Type} [DecidableEq Tid] {guard : SignWorld Tid → Op → Prop}
    [∀ w o, Decidable (guard w o)] {store : Store} {main : Prog sig α → Prop}
    {c : (signSystem Tid guard store).Config α}
    (h : (signSystem Tid guard store).Reachable main c) (t : Tid) (x : Outcomes) (k : ℕ)
    {p : Prog sig α} (hthread : c.threads t = .alive p) :
    (signSystem Tid guard store).Reachable main
      ⟨(p.drive (signAnswer guard x t) k c.world).1,
        Function.update c.threads t (.alive (p.drive (signAnswer guard x t) k c.world).2)⟩ := by
  refine h.drive t (fun {w o r w'} hanswer => ?_) k hthread
  unfold signAnswer at hanswer
  split at hanswer
  next hguard =>
    cases hanswer
    exact ⟨hguard, exec_outcome x w.world t o, rfl⟩
  next => cases hanswer

/-- A tick with the store to itself dials once. -/
theorem signer_dials_run :
    ∃ c : (signSystem ℕ Orderly emptyStore).Config (Except PyError (Option TickStatus)),
      (signSystem ℕ Orderly emptyStore).Reachable (ticks winter) c ∧
        dialers 1000 c.world.signs = [0] ∧ (∀ n, DialBound n c.world.signs) ∧
          NoLateDial c.world.signs := by
  have h : (signSystem ℕ Orderly emptyStore).Reachable (ticks winter)
      ⟨(signSystem ℕ Orderly emptyStore).init, fun _ => .unborn⟩ := .refl
  replace h := h.spawn (0 : ℕ) rfl ⟨1000000, rfl⟩
  replace h := signTurn h 0 (calm thousand ⟨0, [], []⟩ "r0" 0 "T0") 60 rfl
  exact ⟨_, h, by decide +kernel, signer_dials rfl h⟩

/-- A tick is held up between its read of the row and its dial.  Another tick takes the
job over, signs, reserves and posts, and then the first tick dials. -/
theorem dial_after_latch :
    ¬∀ c : (signSystem ℕ (fun _ _ => True) emptyStore).Config
        (Except PyError (Option TickStatus)),
      (signSystem ℕ (fun _ _ => True) emptyStore).Reachable (ticks winter) c →
        (∀ n, DialBound n c.world.signs) ∧ NoLateDial c.world.signs := by
  have h : (signSystem ℕ (fun _ _ => True) emptyStore).Reachable (ticks winter)
      ⟨(signSystem ℕ (fun _ _ => True) emptyStore).init, fun _ => .unborn⟩ := .refl
  replace h := h.spawn (0 : ℕ) rfl ⟨1000000, rfl⟩
  replace h := signTurn h 0 (calm thousand ⟨0, [], []⟩ "r0" 0 "T0") 24 rfl
  replace h := h.spawn (1 : ℕ) rfl ⟨1000000, rfl⟩
  replace h := signTurn h 1 (calm thousand ⟨0, [], []⟩ "r1" 1 "T1") 32 rfl
  replace h := signTurn h 0 (calm thousand ⟨0, [], []⟩ "r0" 0 "T0") 1 rfl
  intro hbounds
  have hpair : NoLateDial [SignEvent.dialled 0 1000, .latched 1000] :=
    List.Pairwise.sublist (by decide +kernel) (hbounds _ h).2
  exact (List.pairwise_cons.mp hpair).1 _ List.mem_cons_self 0 1000 rfl rfl

end Signal402.AutoAnchor
