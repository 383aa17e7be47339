import Signal402.Pq.IssueOrder

/-!
# What `issue` signs

Calls of `issue` interleave, others append, and processes die between any two steps.

* `RootOf` — a root is that of the first entries of the log.
* `Stage` — what a call has got from the store so far; `Stage.Holds` says that it is true of
  the log, and stays so when the log grows.
* `issued_receipts` — only roots of the log are signed and written, a receipt that is returned
  is one of an entry of the log, and checkpoints of two times are consistent.
-/

namespace Signal402.Issue

open LogStore Merkle Concurrent Eff

/-! ## Facts about a log -/

/-- The root of the first `n` entries. -/
structure RootOf (s : Log) (n : ℕ) (root : Bytes) : Prop where
  size : n ≤ s.leaves.length
  root : root = mthFromLeafHashes (s.leafHashes.take n)

/-- What an append returned is true of the log. -/
structure Logged (s : Log) (rec_ : Appended) : Prop where
  index : rec_.idx < rec_.size
  size : rec_.size ≤ s.leaves.length
  leaf : s.leafHashes[rec_.idx]? = some rec_.leafHash

/-- The path from an entry to the root of the first `n`. -/
def PathOf (s : Log) (idx n : ℕ) (path : List Bytes) : Prop :=
  Merkle.inclusionPath idx (s.leafHashes.take n) = .ok path

@[simp] theorem length_leafHashes (s : Log) : s.leafHashes.length = s.leaves.length :=
  List.length_map _

theorem length_take_leafHashes {s : Log} {n : ℕ} (hn : n ≤ s.leaves.length) :
    (s.leafHashes.take n).length = n := by
  rw [List.length_take, length_leafHashes, min_eq_left hn]

theorem digests_take {bodies : List Bytes} {s : Log} (hs : Published bodies s) (n : ℕ) :
    AllDigests (s.leafHashes.take n) := by
  rw [hs.holds.leafHashes]
  exact (allDigests_leafHash _).take _

section Grown

variable {s s' : Log} {n idx : ℕ} {root : Bytes} {rec_ : Appended} {path : List Bytes}

theorem Grows.leafHashes (h : Grows s s') : s.leafHashes <+: s'.leafHashes :=
  h.leaves.map _

theorem Grows.take (h : Grows s s') (hn : n ≤ s.leaves.length) :
    s'.leafHashes.take n = s.leafHashes.take n := by
  obtain ⟨more, hmore⟩ := Grows.leafHashes h
  rw [← hmore, List.take_append_of_le_length]
  rwa [length_leafHashes]

theorem RootOf.grows (h : RootOf s n root) (hgrows : Grows s s') : RootOf s' n root where
  size := h.size.trans hgrows.leaves.length_le
  root := by rw [Grows.take hgrows h.size, ← h.root]

theorem Logged.grows (h : Logged s rec_) (hgrows : Grows s s') : Logged s' rec_ where
  index := h.index
  size := h.size.trans hgrows.leaves.length_le
  leaf := by
    obtain ⟨hlt, -⟩ := List.getElem?_eq_some_iff.mp h.leaf
    obtain ⟨more, hmore⟩ := Grows.leafHashes hgrows
    rw [← hmore, List.getElem?_append_left hlt, h.leaf]

theorem PathOf.grows (h : PathOf s idx n path) (hn : n ≤ s.leaves.length) (hgrows : Grows s s') :
    PathOf s' idx n path := by
  rw [PathOf, Grows.take hgrows hn]
  exact h

end Grown

/-! ## Stages of a call -/

/-- How far a call is, with what the store gave it. -/
inductive Stage
  | start
  | appended (rec_ : Appended)
  | rooted (rec_ : Appended) (root : Bytes)
  | proved (rec_ : Appended) (root : Bytes) (path : List Bytes)

/-- A call asks for the root and the path of its own append, and signs and writes that root. -/
def stages : Protocol sig Stage where
  allowed σ o :=
    match σ, o with
    | .start, .logEnabled => True
    | .start, .append _ => True
    | .appended _, .log (.leafAt _) => True
    | .appended _, .log (.publishUpTo _) => True
    | .appended _, .log (.readyToCheckpoint _) => True
    | .appended rec_, .log (.root m) => m = rec_.size
    | .appended _, .signer => True
    | .rooted _ _, .origin => True
    | .rooted _ _, .log (.readyToCheckpoint _) => True
    | .rooted rec_ _, .log (.inclusionPath i m) => i = rec_.idx ∧ m = rec_.size
    | .rooted rec_ root, .sign _ m root' => m = rec_.size ∧ root' = root
    | .rooted rec_ root, .writeCheckpoint m note =>
        m = rec_.size ∧ note.treeSize = rec_.size ∧ note.root = root
    | _, _ => False
  next σ o r :=
    match σ, o, r with
    | .start, .append _, .ok rec_ => .appended rec_
    | .appended rec_, .log (.root _), .ok root => .rooted rec_ root
    | .rooted rec_ root, .log (.inclusionPath _ _), .ok path => .proved rec_ root path
    | σ, _, _ => σ

/-- What the call got is true of the log. -/
def Stage.Holds (s : Log) : Stage → Prop
  | .start => True
  | .appended rec_ => Logged s rec_
  | .rooted rec_ root => Logged s rec_ ∧ RootOf s rec_.size root
  | .proved rec_ root path =>
      Logged s rec_ ∧ RootOf s rec_.size root ∧ PathOf s rec_.idx rec_.size path

theorem Stage.Holds.grows {s s' : Log} {σ : Stage} (h : σ.Holds s) (hgrows : Grows s s') :
    σ.Holds s' := by
  cases σ with
  | start => trivial
  | appended rec_ => exact Logged.grows h hgrows
  | rooted rec_ root => exact ⟨h.1.grows hgrows, h.2.grows hgrows⟩
  | proved rec_ root path =>
      exact ⟨h.1.grows hgrows, h.2.1.grows hgrows, h.2.2.grows h.1.size hgrows⟩

/-! ## The programs -/

/-- A receipt is made of what the call got. -/
def Made : Stage → Except PyError Receipt → Prop
  | .proved rec_ root path, .ok receipt =>
      receipt.index = rec_.idx ∧ receipt.inclusionPath = path ∧
        receipt.checkpoint.treeSize = rec_.size ∧ receipt.checkpoint.root = root ∧
        receipt.checkpointSize = rec_.size ∧ receipt.leafHash = rec_.leafHash
  | _, .ok _ => False
  | _, .error _ => True

section Programs

variable {rec_ : Appended} {root : Bytes}

theorem call_stages {σ : Stage} {o : Op} {Q : Stage → o.Val → Prop} (hallowed : stages.allowed σ o)
    (hQ : ∀ a, Q (stages.next σ o (.ok a)) a) :
    wpe stages (call o) Q (fun _ _ => True) σ :=
  (wpe_attempt ..).mpr ⟨hallowed, hQ, fun _ => trivial⟩

theorem appendEvent_stages (raw : Bytes) :
    wpe stages (appendEvent raw) (fun σ rec_ => σ = .appended rec_) (fun _ _ => True) .start := by
  rw [appendEvent, wpe_bind]
  refine call_stages trivial fun enabled => ?_
  split
  · trivial
  rw [wpe_bind]
  refine call_stages trivial fun rec_ => ?_
  rw [wpe_bind]
  refine call_stages trivial fun row => ?_
  cases row with
  | none => trivial
  | some row =>
      rw [wpe_bind]
      exact call_stages trivial fun _ => rfl

theorem signCheckpoint_stages (origin : PyStr) :
    wpe stages (signCheckpoint origin rec_.size root)
      (fun σ note => σ = .rooted rec_ root ∧ note.treeSize = rec_.size ∧ note.root = root)
      (fun _ _ => True) (.rooted rec_ root) := by
  rw [signCheckpoint, wpe_bind]
  cases checkpointBody (if origin = [] then defaultOrigin else origin) root with
  | error e => trivial
  | ok _ =>
      show wpe stages (call _ >>= _) _ _ (.rooted rec_ root)
      rw [wpe_bind]
      exact call_stages ⟨rfl, rfl⟩ fun signature => ⟨rfl, rfl, rfl⟩

theorem saveCheckpoint_stages {note : Note} (hsize : note.treeSize = rec_.size)
    (hroot : note.root = root) :
    wpe stages (saveCheckpoint rec_.size note) (fun σ _ => σ = .rooted rec_ root)
      (fun _ _ => True) (.rooted rec_ root) := by
  rw [saveCheckpoint, wpe_bind]
  refine call_stages trivial fun ready => ?_
  split
  · trivial
  · exact call_stages ⟨rfl, hsize, hroot⟩ fun _ => rfl

/-- **A call goes through the stages**, and its receipt is made of what it got. -/
theorem issue_stages (raw : Bytes) : wp stages (issue raw).run Made .start := by
  have hend : wpe stages (issue raw) (fun σ receipt => Made σ (.ok receipt)) (fun _ _ => True)
      .start := by
    rw [issue, wpe_bind]
    refine wpe_mono (appendEvent_stages raw) ?_ fun _ _ _ => trivial
    rintro σ rec_ rfl
    rw [wpe_bind]
    refine call_stages trivial fun ready => ?_
    split
    · trivial
    rw [wpe_bind]
    refine call_stages trivial fun loaded => ?_
    split
    · trivial
    rw [wpe_bind]
    refine call_stages rfl fun root => ?_
    rw [wpe_bind]
    refine call_stages trivial fun origin => ?_
    rw [wpe_bind]
    refine wpe_mono (signCheckpoint_stages origin) ?_ fun _ _ _ => trivial
    rintro σ note ⟨rfl, hsize, hroot⟩
    rw [wpe_bind]
    refine wpe_mono (saveCheckpoint_stages hsize hroot) ?_ fun _ _ _ => trivial
    rintro σ _ rfl
    rw [wpe_bind]
    refine call_stages ⟨rfl, rfl⟩ fun path => ?_
    split
    · trivial
    · exact ⟨rfl, rfl, hsize, hroot, rfl, rfl⟩
  refine wp_mono hend ?_
  rintro σ (e | receipt) h
  · cases σ <;> trivial
  · exact h

end Programs

/-! ## Operations on the log -/

section Log

variable {bodies : List Bytes} {s s' : Log}

/-- What an append returns is true of the log that it leaves. -/
theorem append_logged (h : Published bodies s) {raw : Bytes} {rec_ : Appended}
    (hrun : exec (LogStore.append raw) s = (.ok rec_, s')) : Logged s' rec_ := by
  by_cases hdup : leafHash raw ∈ bodies.map leafHash
  · obtain ⟨i, hi⟩ := Option.ne_none_iff_exists'.mp (findIdx?_leafRow.not_left.mpr hdup)
    rw [append_found h.holds hi] at hrun
    cases hrun
    obtain ⟨hlt, hfound, -⟩ := List.findIdx?_eq_some_iff_getElem.mp hi
    have hlen : i < bodies.length := by rwa [List.length_map] at hlt
    refine ⟨hlen, h.length.ge, ?_⟩
    rw [Log.leafHashes, h.holds.leaves, List.getElem?_map, List.getElem?_eq_getElem hlt]
    exact congrArg some (eq_of_beq hfound)
  · obtain ⟨t, ht, -, -, happend⟩ := append_commits h hdup
    rw [happend, exec_bind] at hrun
    cases hpublish : exec (publishUnlocked (bodies.length + 1 : ℕ)) t with
    | mk r t' =>
        have hpublished := (exec_publishUnlocked ht _ hpublish).1.published
        rw [hpublish] at hrun
        cases r with
        | error e => cases hrun
        | ok _ =>
            cases hrun
            refine ⟨Nat.lt_succ_self _, ?_, ?_⟩
            · rw [hpublished.length, List.length_append, List.length_singleton]
            · rw [hpublished.holds.leafHashes, List.map_append,
                List.getElem?_append_right (List.length_map _).le]
              simp

theorem root_of_log (h : Published bodies s) {n : ℕ} (hn : n ≤ s.leaves.length) {root : Bytes}
    (hrun : exec (LogOp.root n).code s = (.ok root, s')) : RootOf s n root := by
  have hroot : exec (LogOp.root n).code s = (.ok (mthFromLeafHashes (s.leafHashes.take n)), s) :=
    rootWith_hit hits_cachedRange h.holds.coherent (by rwa [length_leafHashes])
  rw [hroot] at hrun
  cases hrun
  exact ⟨hn, rfl⟩

theorem path_of_log (h : Published bodies s) {idx n : ℕ} (hn : n ≤ s.leaves.length)
    {path : List Bytes} (hrun : exec (LogOp.inclusionPath idx n).code s = (.ok path, s')) :
    PathOf s idx n path := by
  have hpath : exec (LogOp.inclusionPath idx n).code s =
      (Merkle.inclusionPath idx (s.leafHashes.take n), s) :=
    inclusionPathWith_hit hits_cachedRange h.holds.coherent idx
      (by rwa [length_leafHashes])
  rw [hpath] at hrun
  exact congrArg Prod.fst hrun

end Log

/-! ## The store -/

section Store

variable {Tid : Type} {st : Store} {w w' : World Tid} {ph : Tid → Life Stage} {t : Tid}

/-- Each call's stage is true of the log, and what was written are roots of the log. -/
structure Truth (st : Store) (ph : Tid → Life Stage) : Prop where
  log : ∃ bodies, Published bodies st.log
  stage : ∀ {t σ}, ph t = .alive σ → σ.Holds st.log
  checkpoints : ∀ {n note}, st.checkpoints n = some note →
    note.treeSize = n ∧ RootOf st.log n note.root
  latest : ∀ {note}, st.latest = some note → RootOf st.log note.treeSize note.root

namespace Truth

/-- The log grows. -/
theorem setLog (h : Truth st ph) {s : Log} (hs : Grown st.log s) :
    Truth { st with log := s } ph where
  log := hs.2
  stage hph := (h.stage hph).grows hs.1
  checkpoints hnote := ⟨(h.checkpoints hnote).1, (h.checkpoints hnote).2.grows hs.1⟩
  latest hnote := (h.latest hnote).grows hs.1

/-- A call gets to a stage that is true of the log. -/
theorem reach [DecidableEq Tid] (h : Truth st ph) {σ : Stage} (hσ : σ.Holds st.log) :
    Truth st (Function.update ph t (.alive σ)) :=
  { h with
    stage := by
      intro t' σ' hph
      rcases Life.update_eq_alive.mp hph with ⟨-, rfl⟩ | ⟨-, hph⟩
      · exact hσ
      · exact h.stage hph }

/-- A call writes a root of the log. -/
theorem save (h : Truth st ph) {n : ℕ} {note : Note} (hsize : note.treeSize = n)
    (hroot : RootOf st.log n note.root) : Truth (st.saveCheckpoint n note) ph :=
  { h with
    checkpoints := by
      intro m note' hnote
      by_cases hm : m = n
      · subst hm
        rw [show (st.saveCheckpoint m note).checkpoints m = some note from if_pos rfl] at hnote
        cases hnote
        exact ⟨hsize, hroot⟩
      · rw [show (st.saveCheckpoint n note).checkpoints m = st.checkpoints m from
          if_neg hm] at hnote
        exact h.checkpoints hnote
    latest := by
      intro note' hnote
      cases hnote
      exact hsize ▸ hroot }

/-- A call asks the log. -/
theorem ask [DecidableEq Tid] (h : Truth w.store ph) {σ : Stage} {o : LogOp}
    {r : Except PyError o.Res} (ht : ph t = .alive σ) (hallowed : stages.allowed σ (.log o))
    (hdoes : Does w t (.log o) r w') :
    Truth w'.store (Function.update ph t (.alive (stages.next σ (.log o) r))) ∧
      Grows w.store.log w'.store.log := by
  obtain ⟨bodies, hbodies⟩ := h.log
  have hσ := h.stage ht
  have stay : ∀ {s : Log}, Grown w.store.log s →
      Truth { w.store with log := s } (Function.update ph t (.alive σ)) ∧
        Grows w.store.log s := by
    intro s hs
    rw [Life.update_same ht]
    exact ⟨h.setLog hs, hs.1⟩
  rcases hdoes with ⟨s, hrun, rfl⟩ | ⟨e, s, rfl, hs, rfl⟩
  · cases σ with
    | start => exact hallowed.elim
    | appended rec_ =>
        have hsize : rec_.size ≤ bodies.length := hbodies.length ▸ hσ.size
        cases o with
        | root m =>
            obtain rfl := hallowed
            have hs := LogOp.grown hbodies (o := .root rec_.size) hsize hrun
            cases r with
            | error e => exact stay hs
            | ok root =>
                have hroot := root_of_log hbodies hσ.size hrun
                exact ⟨(h.setLog hs).reach ⟨hσ.grows hs.1, hroot.grows hs.1⟩, hs.1⟩
        | inclusionPath i m => exact hallowed.elim
        | _ => exact stay (LogOp.grown hbodies (by trivial) hrun)
    | rooted rec_ root =>
        have hsize : rec_.size ≤ bodies.length := hbodies.length ▸ hσ.1.size
        cases o with
        | inclusionPath i m =>
            obtain ⟨rfl, rfl⟩ := hallowed
            have hs := LogOp.grown hbodies (o := .inclusionPath rec_.idx rec_.size) hsize hrun
            cases r with
            | error e => exact stay hs
            | ok path =>
                have hpath := path_of_log hbodies hσ.1.size hrun
                exact ⟨(h.setLog hs).reach ⟨hσ.1.grows hs.1, hσ.2.grows hs.1,
                  hpath.grows hσ.1.size hs.1⟩, hs.1⟩
        | readyToCheckpoint n => exact stay (LogOp.grown hbodies (by trivial) hrun)
        | _ => exact hallowed.elim
    | proved rec_ root path => exact hallowed.elim
  · have hstay := stay hs
    cases σ <;> cases o <;> exact hstay

/-- **Every operation of a call keeps the truth, and the log grows.** -/
theorem op [DecidableEq Tid] (h : Truth w.store ph) {σ : Stage} {o : Op} {r : Except PyError o.Val}
    (ht : ph t = .alive σ) (hallowed : stages.allowed σ o) (hdoes : Does w t o r w') :
    Truth w'.store (Function.update ph t (.alive (stages.next σ o r))) ∧
      Grows w.store.log w'.store.log := by
  obtain ⟨bodies, hbodies⟩ := h.log
  have hσ := h.stage ht
  have stay : ∀ {st : Store}, Truth st ph → Truth st (Function.update ph t (.alive σ)) := by
    intro st hst
    rwa [Life.update_same ht]
  cases o with
  | log o => exact h.ask ht hallowed hdoes
  | append raw =>
      cases σ with
      | start =>
          rcases hdoes with ⟨rec_, s, hrun, rfl, rfl⟩ | ⟨e, s, rfl, hs, rfl⟩
          · have hs := (append_grown hbodies hrun).1
            exact ⟨(h.setLog hs).reach (append_logged hbodies hrun), hs.1⟩
          · exact ⟨stay (h.setLog hs), hs.1⟩
      | _ => exact hallowed.elim
  | writeCheckpoint n note =>
      cases σ with
      | rooted rec_ root =>
          obtain ⟨rfl, hsize, hroot⟩ := hallowed
          have hsaved : Truth (w.store.saveCheckpoint rec_.size note) ph :=
            h.save hsize (hroot ▸ hσ.2)
          cases hdoes with
          | done hwrite =>
              cases hwrite
              exact ⟨stay hsaved, Grows.refl _⟩
          | refused hwrite => cases hwrite
          | failed e => exact ⟨stay h, Grows.refl _⟩
          | unreported hwrite e =>
              cases hwrite
              exact ⟨stay hsaved, Grows.refl _⟩
      | _ => exact hallowed.elim
  | _ =>
      obtain rfl := hdoes
      cases σ <;> exact ⟨stay h, Grows.refl _⟩

end Truth

/-! ## Runs -/

variable [DecidableEq Tid] {guard : World Tid → Tid → Op → Prop}

theorem truth_invariant :
    (system Tid guard).Invariant stages .start fun w ph => Truth w.store ph where
  init :=
    { log := ⟨[], published_empty⟩
      stage := fun hph => by cases hph
      checkpoints := fun hnote => by cases hnote
      latest := fun hnote => by cases hnote }
  op h ht hallowed hexec := (h.op ht hallowed hexec.2).1
  spawn h _ := h.reach trivial
  crash := by
    rintro w ph q w' h rfl
    exact { h with stage := fun hph => h.stage (Life.alive_of_kill hph) }
  env := by
    rintro w ph w' h ⟨s, hs, rfl⟩
    exact h.setLog hs

variable {c : (system Tid guard).Config (Except PyError Receipt)}

/-- The stages of the calls of a run. -/
theorem reachable_truth (h : (system Tid guard).Reachable issues c) :
    ∃ ph, Truth c.world.store ph ∧
      ∀ t, Life.Rel (fun p σ => wp stages p Made σ) (c.threads t) (ph t) := by
  refine h.phasesTo truth_invariant ?_
  rintro _ ⟨raw, rfl⟩
  exact issue_stages raw

/-- A log only grows. -/
theorem log_grows {c' : (system Tid guard).Config (Except PyError Receipt)}
    (h : (system Tid guard).Reachable issues c)
    (hrun : Relation.ReflTransGen ((system Tid guard).Step issues) c c') :
    Grows c.world.store.log c'.world.store.log := by
  induction hrun with
  | refl => exact Grows.refl _
  | @tail b d hbefore hstep ih =>
      refine ih.trans ?_
      obtain ⟨ph, htruth, hrel⟩ := reachable_truth (Relation.ReflTransGen.trans h hbefore)
      cases hstep with
      | op hthread hexec =>
          obtain ⟨σ, hph, hallowed, -⟩ := (hthread ▸ hrel _).alive
          exact (htruth.op hph hallowed hexec.2).2
      | spawn hthread hmain => exact Grows.refl _
      | crash hcrash =>
          obtain rfl := hcrash
          exact Grows.refl _
      | env henv =>
          obtain ⟨s, hs, rfl⟩ := henv
          exact hs.1

/-- A receipt is that of an entry of the log, under the checkpoint of a size it had. -/
structure Receipt.Holds (s : Log) (r : Receipt) : Prop where
  size : r.checkpoint.treeSize = r.checkpointSize
  root : RootOf s r.checkpointSize r.checkpoint.root
  entry : s.leafHashes[r.index]? = some r.leafHash
  path : PathOf s r.index r.checkpointSize r.inclusionPath
  accepted : verifyInclusion r.index r.leafHash r.inclusionPath r.checkpoint.root
    r.checkpointSize = true

theorem Made.holds {s : Log} {bodies : List Bytes} (hs : Published bodies s) {σ : Stage}
    {r : Receipt} (hσ : σ.Holds s) (h : Made σ (.ok r)) : r.Holds s := by
  cases σ with
  | proved rec_ root path =>
      obtain ⟨hlogged, hroot, hpath⟩ := hσ
      obtain ⟨hindex, hinclusion, htree, hnote, hsize, hleaf⟩ := h
      have hlen := length_take_leafHashes hlogged.size
      have hlt : rec_.idx < (s.leafHashes.take rec_.size).length := hlen.symm ▸ hlogged.index
      obtain ⟨path', hpath', haccepted⟩ := inclusionPath_accepted (digests_take hs _) hlt
      cases hpath'.symm.trans hpath
      have hentry : (s.leafHashes.take rec_.size)[rec_.idx] = rec_.leafHash := by
        refine Option.some.inj ?_
        rw [← List.getElem?_eq_getElem hlt, List.getElem?_take_of_lt hlogged.index, hlogged.leaf]
      rw [hlen, hentry, ← hroot.root] at haccepted
      refine ⟨htree.trans hsize.symm, ?_, ?_, ?_, ?_⟩
      · rw [hsize, hnote]
        exact hroot
      · rw [hindex, hleaf]
        exact hlogged.leaf
      · rw [hindex, hsize, hinclusion]
        exact hpath
      · rw [hindex, hleaf, hinclusion, hnote, hsize]
        exact haccepted
  | _ => exact h.elim

/-- Roots of two times of the log have a consistency proof, which is accepted. -/
theorem consistent {s s' : Log} {bodies : List Bytes} (hs : Published bodies s') (h : Grows s s')
    {n m : ℕ} {root root' : Bytes} (hn : RootOf s n root) (hm : RootOf s' m root') (hle : n ≤ m) :
    ∃ path, exec (LogStore.consistencyPath n (some m)) s' = (.ok path, s') ∧
      verifyConsistency n m root root' path = true := by
  have hlen := length_take_leafHashes hm.size
  obtain ⟨path, hpath, haccepted⟩ :=
    consistencyPath_accepted (s'.leafHashes.take m) (digests_take hs m) n (hlen.symm ▸ hle)
  refine ⟨path, ?_, ?_⟩
  · rw [LogStore.consistencyPath, consistencyPathWith_hit hits_cachedRange hs.holds.coherent n
      (by rw [length_leafHashes]; exact hm.size), hpath]
  · rwa [hlen, List.take_take, min_eq_left hle, ← (hn.grows h).root, ← hm.root] at haccepted

/-- **What `issue` signs, writes and returns is true of the log**, however calls interleave,
whoever else appends, and whichever processes die.  A root that is signed is the root of the
first entries of the log; so is that of every checkpoint that was written; a receipt that is
returned is one of an entry of the log, and is accepted; and whoever holds a checkpoint of one
time is shown that the log of a later time extends it. -/
theorem issued_receipts (h : (system Tid guard).Reachable issues c) :
    (∀ t origin n root k, c.threads t = .alive (.call (.sign origin n root) k) →
      RootOf c.world.store.log n root) ∧
    (∀ n note, c.world.store.checkpoints n = some note →
      note.treeSize = n ∧ RootOf c.world.store.log n note.root) ∧
    (∀ note, c.world.store.latest = some note →
      RootOf c.world.store.log note.treeSize note.root) ∧
    (∀ t r, c.threads t = .alive (.ret (.ok r)) → r.Holds c.world.store.log) ∧
    ∀ c', Relation.ReflTransGen ((system Tid guard).Step issues) c c' →
      c.world.store.log.leaves <+: c'.world.store.log.leaves ∧
      ∀ n root m root', RootOf c.world.store.log n root → RootOf c'.world.store.log m root' →
        n ≤ m → ∃ path, exec (LogStore.consistencyPath n (some m)) c'.world.store.log =
            (.ok path, c'.world.store.log) ∧
          verifyConsistency n m root root' path = true := by
  obtain ⟨ph, htruth, hrel⟩ := reachable_truth h
  obtain ⟨bodies, hbodies⟩ := htruth.log
  refine ⟨?_, fun n note => htruth.checkpoints, fun note => htruth.latest, ?_, ?_⟩
  · intro t origin n root k hthread
    obtain ⟨σ, hph, hallowed, -⟩ := (hthread ▸ hrel t).alive
    have hσ := htruth.stage hph
    cases σ with
    | rooted rec_ root' =>
        obtain ⟨rfl, rfl⟩ := hallowed
        exact hσ.2
    | _ => exact hallowed.elim
  · intro t r hthread
    obtain ⟨σ, hph, hmade⟩ := (hthread ▸ hrel t).alive
    exact Made.holds hbodies (htruth.stage hph) hmade
  · intro c' hrun
    have hgrows := log_grows h hrun
    obtain ⟨ph', htruth', -⟩ := reachable_truth (Relation.ReflTransGen.trans h hrun)
    obtain ⟨bodies', hbodies'⟩ := htruth'.log
    exact ⟨hgrows.leaves, fun n root m root' => consistent hbodies' hgrows⟩

end Store

/-- Two calls append and write, one after the other. -/
theorem issued_receipts_run :
    ∃ (c c' : (system Bool fun _ _ _ => True).Config (Except PyError Receipt))
      (note note' : Note) (path : List Bytes),
      c.world.store.latest = some note ∧ note.treeSize = 1 ∧
      c'.world.store.latest = some note' ∧ note'.treeSize = 2 ∧
      c.world.store.log.leaves <+: c'.world.store.log.leaves ∧
      verifyConsistency 1 2 note.root note'.root path = true := by
  have hguard : OnWrites fun (_ : World Bool) _ _ => True := fun _ _ _ _ => trivial
  have h : (system Bool fun _ _ _ => True).Reachable issues
      ⟨(system Bool _).init, fun _ => .unborn⟩ := .refl
  obtain ⟨s, p, hs, hsmall, hfirst⟩ := reach_write hguard h (t := false) rfl published_empty
    (List.forall_mem_nil _) small_first List.not_mem_nil
  obtain ⟨s', p', -, -, hsecond⟩ := reach_write hguard hfirst.reachable (t := true) rfl hs hsmall
    small_second leafHash_second
  obtain ⟨note, q, hnote, hstep⟩ := (hfirst.stays hsecond.reachable rfl).step fun _ => trivial
  have hlatest := Relation.ReflTransGen.tail hsecond.reachable hstep
  obtain ⟨note', q', hnote', hstep'⟩ := (hsecond.stays hlatest rfl).step fun _ => trivial
  obtain ⟨-, -, hwritten, -, hlater⟩ := issued_receipts hlatest
  obtain ⟨hleaves, hconsistent⟩ := hlater _ (.single hstep')
  obtain ⟨-, -, hwritten', -, -⟩ := issued_receipts (hlatest.tail hstep')
  have hroot := hwritten note rfl
  have hroot' := hwritten' note' rfl
  rw [hnote] at hroot
  rw [hnote'] at hroot'
  obtain ⟨path, -, haccepted⟩ := hconsistent 1 note.root 2 note'.root hroot hroot' (by decide)
  exact ⟨_, _, note, note', path, rfl, hnote, rfl, hnote', hleaves, haccepted⟩

end Signal402.Issue
