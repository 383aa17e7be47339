import Signal402.Pq.Issue

/-!
# When the latest checkpoint moves forward

`issue` appends and writes its checkpoint in separate steps, and the write moves
the latest checkpoint to the size of its own append, whatever it is already at.
So a call that is overtaken between the two takes the latest checkpoint back
(`latest_goes_back`).

* `InTurn` — no call that appended later, to a log that had grown, has written.
* `Ordered` — the invariant of the runs whose writes are all in turn: the sizes
  of the appends never decrease, and the latest checkpoint is that of a call
  which has written and is of the largest size that was written.
-/

namespace Signal402.Issue

open LogStore Merkle Concurrent Eff

/-! ## What the functions do to the log -/

section Log

variable {bodies : List Bytes} {s s' : Log}

/-- An append finds the log of the size that it returns. -/
theorem append_grown (h : Published bodies s) {raw : Bytes} {rec_ : Appended}
    (hrun : exec (LogStore.append raw) s = (.ok rec_, s')) :
    Grown s s' ∧ rec_.size = s'.leaves.length := by
  by_cases hdup : leafHash raw ∈ bodies.map leafHash
  · obtain ⟨i, happend⟩ := append_duplicate h.holds hdup
    rw [happend] at hrun
    cases hrun
    exact ⟨⟨Grows.refl s, bodies, h⟩, h.length.symm⟩
  · obtain ⟨t, ht, hgrows, -, happend⟩ := append_commits h hdup
    rw [happend, exec_bind] at hrun
    cases hpublish : exec (publishUnlocked (bodies.length + 1 : ℕ)) t with
    | mk r t' =>
        have hpublishing := (exec_publishUnlocked ht _ hpublish).1
        rw [hpublish] at hrun
        cases r with
        | error e => cases hrun
        | ok _ =>
            cases hrun
            refine ⟨⟨hgrows.trans hpublishing.grows, _, hpublishing.published⟩, ?_⟩
            rw [hpublishing.published.length, List.length_append, List.length_singleton]

/-- A check for missing blobs changes nothing. -/
theorem readyToCheckpoint_leaves (n : ℤ) :
    Leaves id (LogStore.readyToCheckpoint (some n)) := by
  refine Leaves.bind (Leaves.pure n) fun m => Leaves.bind (Leaves.reads _) fun size => ?_
  split
  · exact Leaves.pure false
  split
  · exact Leaves.pure true
  · exact Leaves.reads _

/-- The sizes that a function on the log may be called with. -/
def LogOp.Within (n : ℕ) : LogOp → Prop
  | .root m => m ≤ n
  | .inclusionPath _ m => m ≤ n
  | _ => True

theorem LogOp.Within.mono {o : LogOp} {m n : ℕ} (h : o.Within m) (hmn : m ≤ n) : o.Within n := by
  cases o with
  | root k => exact Nat.le_trans h hmn
  | inclusionPath idx k => exact Nat.le_trans h hmn
  | _ => trivial

theorem LogOp.grown (h : Published bodies s) {o : LogOp} (ho : o.Within bodies.length)
    {r : Except PyError o.Res} (hrun : exec o.code s = (r, s')) : Grown s s' := by
  have hsame : s' = s → Grown s s' := by
    rintro rfl
    exact ⟨Grows.refl _, bodies, h⟩
  have hlen : s.leafHashes.length = bodies.length := by
    rw [h.holds.leafHashes, List.length_map]
  cases o with
  | leafAt idx =>
      cases hrun
      exact hsame rfl
  | publishUpTo n =>
      have hpublishing := (exec_publishUnlocked h _ hrun).1
      exact ⟨hpublishing.grows, bodies, hpublishing.published⟩
  | readyToCheckpoint n =>
      refine hsame ?_
      have hready := readyToCheckpoint_leaves (n : ℤ) s
      rw [show exec (LogStore.readyToCheckpoint (some (n : ℤ))) s = (r, s') from hrun] at hready
      exact hready
  | root n =>
      have hroot := rootWith_hit hits_cachedRange h.holds.coherent (m := n) (hlen ▸ ho)
      exact hsame (congrArg Prod.snd (hrun.symm.trans hroot))
  | inclusionPath idx n =>
      have hpath := inclusionPathWith_hit hits_cachedRange h.holds.coherent idx (m := n)
        (hlen ▸ ho)
      exact hsame (congrArg Prod.snd (hrun.symm.trans hpath))

end Log

/-! ## The protocol of a call -/

/-- A call that has not appended, and one that has, to a log of size `n`. -/
inductive Phase
  | start
  | appended (n : ℕ)

/-- A call signs and writes the size of its own append. -/
def issueProtocol : Protocol sig Phase where
  allowed φ o :=
    match φ, o with
    | .start, .logEnabled => True
    | .start, .append _ => True
    | .appended n, .log o => o.Within n
    | .appended n, .writeCheckpoint m note => m = n ∧ note.treeSize = n
    | .appended _, .signer => True
    | .appended _, .origin => True
    | .appended _, .sign .. => True
    | _, _ => False
  next φ o r :=
    match φ, o, r with
    | .start, .append _, .ok rec_ => .appended rec_.size
    | φ, _, _ => φ

section Programs

variable {n : ℕ}

theorem call_wpe {φ : Phase} {o : Op} {Q : Phase → o.Val → Prop}
    (hallowed : issueProtocol.allowed φ o) (hQ : ∀ a, Q (issueProtocol.next φ o (.ok a)) a) :
    wpe issueProtocol (call o) Q (fun _ _ => True) φ :=
  (wpe_attempt ..).mpr ⟨hallowed, hQ, fun _ => trivial⟩

theorem appendEvent_wpe (raw : Bytes) :
    wpe issueProtocol (appendEvent raw) (fun φ rec_ => φ = .appended rec_.size)
      (fun _ _ => True) .start := by
  rw [appendEvent, wpe_bind]
  refine call_wpe trivial fun enabled => ?_
  split
  · trivial
  rw [wpe_bind]
  refine call_wpe trivial fun rec_ => ?_
  rw [wpe_bind]
  refine call_wpe trivial fun row => ?_
  cases row with
  | none => trivial
  | some row =>
      rw [wpe_bind]
      exact call_wpe trivial fun _ => rfl

theorem signCheckpoint_wpe (origin : PyStr) (root : Bytes) :
    wpe issueProtocol (signCheckpoint origin n root)
      (fun φ note => φ = .appended n ∧ note.treeSize = n) (fun _ _ => True) (.appended n) := by
  rw [signCheckpoint, wpe_bind]
  cases checkpointBody (if origin = [] then defaultOrigin else origin) root with
  | error e => trivial
  | ok _ =>
      show wpe issueProtocol (call _ >>= _) _ _ (.appended n)
      rw [wpe_bind]
      exact call_wpe trivial fun signature => ⟨rfl, rfl⟩

theorem saveCheckpoint_wpe {note : Note} (hnote : note.treeSize = n) :
    wpe issueProtocol (saveCheckpoint n note) (fun φ _ => φ = .appended n) (fun _ _ => True)
      (.appended n) := by
  rw [saveCheckpoint, wpe_bind]
  refine call_wpe trivial fun ready => ?_
  split
  · trivial
  · exact call_wpe ⟨rfl, hnote⟩ fun _ => rfl

/-- **A call keeps to the protocol.** -/
theorem issue_wpe (raw : Bytes) :
    wpe issueProtocol (issue raw) (fun _ _ => True) (fun _ _ => True) .start := by
  rw [issue, wpe_bind]
  refine wpe_mono (appendEvent_wpe raw) ?_ fun _ _ _ => trivial
  rintro φ rec_ rfl
  rw [wpe_bind]
  refine call_wpe trivial fun ready => ?_
  split
  · trivial
  rw [wpe_bind]
  refine call_wpe trivial fun loaded => ?_
  split
  · trivial
  rw [wpe_bind]
  refine call_wpe (Nat.le_refl rec_.size) fun root => ?_
  rw [wpe_bind]
  refine call_wpe trivial fun origin => ?_
  rw [wpe_bind]
  refine wpe_mono (signCheckpoint_wpe origin root) ?_ fun _ _ _ => trivial
  rintro φ note ⟨rfl, hnote⟩
  rw [wpe_bind]
  refine wpe_mono (saveCheckpoint_wpe hnote) ?_ fun _ _ _ => trivial
  rintro φ _ rfl
  rw [wpe_bind]
  refine call_wpe (Nat.le_refl rec_.size) fun path => ?_
  split <;> trivial

end Programs

/-! ## The order of the writes -/

section Order

variable {Tid : Type} {w w' : World Tid} {ph : Tid → Life Phase} {t t' : Tid}
  {n n' : ℕ}

/-- `t'` appended after `t`, to a log that had grown in between. -/
def World.Later (w : World Tid) (t' t : Tid) : Prop :=
  ∃ later earlier n n', w.appends = later ++ (t, n) :: earlier ∧ (t', n') ∈ later ∧ n' ≠ n

/-- A write comes before those of the calls that appended later. -/
def InTurn (w : World Tid) (t : Tid) : Op → Prop
  | .writeCheckpoint .. => ∀ t' ∈ w.saves, ¬w.Later t' t
  | _ => True

/-- The latest checkpoint did not move to a smaller size, and is still there. -/
def Forward (s s' : Store) : Prop :=
  ∀ note, s.latest = some note → ∃ note', s'.latest = some note' ∧ note.treeSize ≤ note'.treeSize

theorem Forward.refl (s : Store) : Forward s s := fun note h => ⟨note, h, Nat.le_refl _⟩

theorem Forward.trans {s s' s'' : Store} (h : Forward s s') (h' : Forward s' s'') :
    Forward s s'' := by
  intro note hnote
  obtain ⟨note', hnote', hle⟩ := h note hnote
  obtain ⟨note'', hnote'', hle'⟩ := h' note' hnote'
  exact ⟨note'', hnote'', hle.trans hle'⟩

/-- The sizes of the appends never decrease, each call appends once, and the latest
checkpoint is the largest that was written. -/
structure Ordered (w : World Tid) (ph : Tid → Life Phase) : Prop where
  log : ∃ bodies, Published bodies w.store.log
  appends : w.appends.Pairwise fun a b => b.2 ≤ a.2 ∧ b.1 ≠ a.1
  within : ∀ {t n}, (t, n) ∈ w.appends → n ≤ w.store.log.leaves.length
  fresh : ∀ {t n}, ph t = .unborn ∨ ph t = .alive .start → (t, n) ∉ w.appends
  appended : ∀ {t n}, ph t = .alive (.appended n) → (t, n) ∈ w.appends
  saved : ∀ {t}, t ∈ w.saves → ∃ n, (t, n) ∈ w.appends
  latest : ∀ {note}, w.store.latest = some note →
    ∃ t ∈ w.saves, (t, note.treeSize) ∈ w.appends
  highest : ∀ {t n}, t ∈ w.saves → (t, n) ∈ w.appends →
    ∃ note, w.store.latest = some note ∧ n ≤ note.treeSize

namespace Ordered

/-- A call has one append. -/
theorem unique (h : Ordered w ph) {m : ℕ} (hn : (t, n) ∈ w.appends) (hm : (t, m) ∈ w.appends) :
    m = n := by
  obtain ⟨later, earlier, hsplit⟩ := List.append_of_mem hn
  have hpairs := h.appends
  rw [hsplit, List.pairwise_append] at hpairs
  obtain ⟨-, hearlier, hlater⟩ := hpairs
  rw [hsplit] at hm
  rcases List.mem_append.mp hm with hm | hm
  · exact absurd rfl (hlater _ hm _ List.mem_cons_self).2
  rcases List.mem_cons.mp hm with heq | hm
  · exact congrArg Prod.snd heq
  · exact absurd rfl ((List.pairwise_cons.mp hearlier).1 _ hm).2

/-- The later of two appends found the larger log. -/
theorem later_iff (h : Ordered w ph) (hn : (t, n) ∈ w.appends) (hn' : (t', n') ∈ w.appends) :
    w.Later t' t ↔ n < n' := by
  constructor
  · rintro ⟨later, earlier, m, m', hsplit, hlater, hne⟩
    have hpairs := h.appends
    rw [hsplit, List.pairwise_append] at hpairs
    have hle := (hpairs.2.2 _ hlater _ List.mem_cons_self).1
    have hm : (t, m) ∈ w.appends :=
      hsplit ▸ List.mem_append_right later (List.mem_cons_self (a := (t, m)))
    have hm' : (t', m') ∈ w.appends := hsplit ▸ List.mem_append_left _ hlater
    rw [h.unique hm hn, h.unique hm' hn']
    exact Nat.lt_of_le_of_ne hle hne.symm
  · intro hlt
    obtain ⟨later, earlier, hsplit⟩ := List.append_of_mem hn
    have hpairs := h.appends
    rw [hsplit, List.pairwise_append] at hpairs
    refine ⟨later, earlier, n, n', hsplit, ?_, Nat.ne_of_gt hlt⟩
    rw [hsplit] at hn'
    rcases List.mem_append.mp hn' with hn' | hn'
    · exact hn'
    rcases List.mem_cons.mp hn' with heq | hn'
    · cases heq
      exact absurd hlt (Nat.lt_irrefl _)
    · exact absurd hlt (Nat.not_lt.mpr ((List.pairwise_cons.mp hpairs.2.1).1 _ hn').1)

/-- The log grows. -/
theorem setLog (h : Ordered w ph) {s : Log} (hs : Grown w.store.log s) :
    Ordered (w.setLog s) ph :=
  { h with
    log := hs.2
    within := fun hmem => (h.within hmem).trans hs.1.leaves.length_le }

/-- A call starts. -/
theorem spawn [DecidableEq Tid] (h : Ordered w ph) (ht : ph t = .unborn) :
    Ordered w (Function.update ph t (.alive .start)) := by
  refine { h with fresh := ?_, appended := ?_ }
  · intro t' n hph
    by_cases htt : t' = t
    · subst htt
      exact h.fresh (Or.inl ht)
    · rw [Function.update_of_ne htt] at hph
      exact h.fresh hph
  · intro t' n hph
    rcases Life.update_eq_alive.mp hph with ⟨-, heq⟩ | ⟨-, hph⟩
    · cases heq
    · exact h.appended hph

/-- A call that has not appended does. -/
theorem append [DecidableEq Tid] (h : Ordered w ph) (ht : ph t = .alive .start) {s : Log}
    (hs : Grown w.store.log s) (hn : n = s.leaves.length) :
    Ordered (w.appended t n s) (Function.update ph t (.alive (.appended n))) where
  log := hs.2
  appends := by
    refine List.pairwise_cons.mpr ⟨?_, h.appends⟩
    rintro ⟨t', n'⟩ hmem
    refine ⟨?_, ?_⟩
    · rw [hn]
      exact (h.within hmem).trans hs.1.leaves.length_le
    · rintro rfl
      exact h.fresh (Or.inr ht) hmem
  within := by
    intro t' n' hmem
    rcases List.mem_cons.mp hmem with heq | hmem
    · cases heq
      exact Nat.le_of_eq hn
    · exact (h.within hmem).trans hs.1.leaves.length_le
  fresh := by
    intro t' n' hph hmem
    by_cases htt : t' = t
    · subst htt
      rw [Function.update_self] at hph
      rcases hph with hph | hph <;> cases hph
    · rw [Function.update_of_ne htt] at hph
      rcases List.mem_cons.mp hmem with heq | hmem
      · exact htt (congrArg Prod.fst heq)
      · exact h.fresh hph hmem
  appended := by
    intro t' n' hph
    rcases Life.update_eq_alive.mp hph with ⟨rfl, heq⟩ | ⟨-, hph⟩
    · cases heq
      exact List.mem_cons_self
    · exact List.mem_cons_of_mem _ (h.appended hph)
  saved := by
    intro t' hsave
    obtain ⟨n', hmem⟩ := h.saved hsave
    exact ⟨n', List.mem_cons_of_mem _ hmem⟩
  latest := by
    intro note hnote
    obtain ⟨t', hsave, hmem⟩ := h.latest hnote
    exact ⟨t', hsave, List.mem_cons_of_mem _ hmem⟩
  highest := by
    intro t' n' hsave hmem
    rcases List.mem_cons.mp hmem with heq | hmem
    · cases heq
      obtain ⟨m, hm⟩ := h.saved hsave
      exact absurd hm (h.fresh (Or.inr ht))
    · exact h.highest hsave hmem

/-- A call writes its checkpoint in turn. -/
theorem save (h : Ordered w ph) (ht : ph t = .alive (.appended n)) {note : Note}
    (hnote : note.treeSize = n) (hturn : ∀ t' ∈ w.saves, ¬w.Later t' t) :
    Ordered (w.saved t n note) ph :=
  { h with
    saved := by
      intro t' hsave
      rcases List.mem_cons.mp hsave with rfl | hsave
      · exact ⟨n, h.appended ht⟩
      · exact h.saved hsave
    latest := by
      intro note' hnote'
      cases hnote'
      refine ⟨t, List.mem_cons_self, ?_⟩
      rw [hnote]
      exact h.appended ht
    highest := by
      intro t' n' hsave hmem
      refine ⟨note, rfl, ?_⟩
      rw [hnote]
      rcases List.mem_cons.mp hsave with rfl | hsave
      · exact Nat.le_of_eq (h.unique (h.appended ht) hmem)
      · exact Nat.not_lt.mp fun hlt =>
          hturn t' hsave ((h.later_iff (h.appended ht) hmem).mpr hlt) }

/-- **Every operation of the protocol that is in turn keeps the order.** -/
theorem op [DecidableEq Tid] (h : Ordered w ph) {φ : Phase} {o : Op} {r : Except PyError o.Val}
    (ht : ph t = .alive φ) (hallowed : issueProtocol.allowed φ o) (hturn : InTurn w t o)
    (hdoes : Does w t o r w') :
    Ordered w' (Function.update ph t (.alive (issueProtocol.next φ o r))) := by
  have stay : Ordered w' ph → Ordered w' (Function.update ph t (.alive φ)) := by
    intro h'
    rwa [Life.update_same ht]
  obtain ⟨bodies, hbodies⟩ := h.log
  cases φ with
  | start =>
      cases o with
      | logEnabled =>
          obtain rfl := hdoes
          exact stay h
      | append raw =>
          rcases hdoes with ⟨rec_, s, hrun, rfl, rfl⟩ | ⟨e, s, rfl, hs, rfl⟩
          · obtain ⟨hs, hsize⟩ := append_grown hbodies hrun
            exact h.append ht hs hsize
          · exact stay (h.setLog hs)
      | _ => exact hallowed.elim
  | appended n =>
      cases o with
      | logEnabled => exact hallowed.elim
      | append raw => exact hallowed.elim
      | log o =>
          have hn := h.within (h.appended ht)
          rw [hbodies.length] at hn
          rcases hdoes with ⟨s, hrun, rfl⟩ | ⟨e, s, rfl, hs, rfl⟩
          · exact stay (h.setLog (LogOp.grown hbodies (hallowed.mono hn) hrun))
          · exact stay (h.setLog hs)
      | writeCheckpoint m note =>
          obtain ⟨rfl, hnote⟩ := hallowed
          refine stay ?_
          cases hdoes with
          | done hwrite =>
              cases hwrite
              exact h.save ht hnote hturn
          | refused hwrite => cases hwrite
          | failed e => exact h
          | unreported hwrite e =>
              cases hwrite
              exact h.save ht hnote hturn
      | _ =>
          obtain rfl := hdoes
          exact stay h

/-- A write that takes effect moves the latest checkpoint forward exactly in turn. -/
theorem save_forward_iff (h : Ordered w ph) (ht : ph t = .alive (.appended n)) {note : Note}
    (hnote : note.treeSize = n) :
    Forward w.store (w.saved t n note).store ↔ ∀ t' ∈ w.saves, ¬w.Later t' t := by
  constructor
  · intro hforward t' hsave hlater
    obtain ⟨n', hmem⟩ := h.saved hsave
    have hlt := (h.later_iff (h.appended ht) hmem).mp hlater
    obtain ⟨old, hold, hle⟩ := h.highest hsave hmem
    obtain ⟨new, hnew, hle'⟩ := hforward old hold
    cases hnew
    rw [hnote] at hle'
    exact Nat.lt_irrefl n (hlt.trans_le (hle.trans hle'))
  · intro hturn old hold
    refine ⟨note, rfl, ?_⟩
    obtain ⟨t', hsave, hmem⟩ := h.latest hold
    rw [hnote]
    exact Nat.not_lt.mp fun hlt => hturn t' hsave ((h.later_iff (h.appended ht) hmem).mpr hlt)

/-- An operation moves the latest checkpoint back only by a write out of turn. -/
theorem forward_iff (h : Ordered w ph) {φ : Phase} {o : Op} {r : Except PyError o.Val}
    (ht : ph t = .alive φ) (hallowed : issueProtocol.allowed φ o) (hdoes : Does w t o r w') :
    Forward w.store w'.store ↔ InTurn w t o ∨ w' = w := by
  cases o with
  | writeCheckpoint m note =>
      cases φ with
      | start => exact hallowed.elim
      | appended n =>
          obtain ⟨rfl, hnote⟩ := hallowed
          have heffect : (w.saved t m note = w → False) := by
            intro heq
            have hlen := congrArg (fun w => w.saves.length) heq
            exact Nat.succ_ne_self _ hlen
          have hsaved := h.save_forward_iff ht hnote
          cases hdoes with
          | done hwrite =>
              cases hwrite
              exact hsaved.trans (or_iff_left heffect).symm
          | refused hwrite => cases hwrite
          | failed e => exact iff_of_true (Forward.refl _) (Or.inr rfl)
          | unreported hwrite e =>
              cases hwrite
              exact hsaved.trans (or_iff_left heffect).symm
  | append raw =>
      refine iff_of_true ?_ (Or.inl trivial)
      rcases hdoes with ⟨rec_, s, -, -, rfl⟩ | ⟨e, s, -, -, rfl⟩ <;> exact Forward.refl w.store
  | log o =>
      refine iff_of_true ?_ (Or.inl trivial)
      rcases hdoes with ⟨s, -, rfl⟩ | ⟨e, s, -, -, rfl⟩ <;> exact Forward.refl w.store
  | _ =>
      obtain rfl := hdoes
      exact iff_of_true (Forward.refl _) (Or.inr rfl)

end Ordered

/-- Calls of `issue`. -/
def issues (p : Prog sig (Except PyError Receipt)) : Prop := ∃ raw, p = (issue raw).run

variable [DecidableEq Tid]

theorem ordered_invariant :
    (system Tid InTurn).Invariant issueProtocol .start Ordered where
  init :=
    { log := ⟨[], published_empty⟩
      appends := .nil
      within := fun h => nomatch h
      fresh := fun _ => List.not_mem_nil
      appended := fun h => nomatch h
      saved := fun h => nomatch h
      latest := fun h => nomatch h
      highest := fun h => nomatch h }
  op h ht hallowed hexec := h.op ht hallowed hexec.1 hexec.2
  spawn h ht := h.spawn ht
  crash := by
    rintro w ph q w' h rfl
    refine { h with fresh := ?_, appended := fun hph => h.appended (Life.alive_of_kill hph) }
    intro t n hph
    exact h.fresh (hph.imp Life.unborn_of_kill Life.alive_of_kill)
  env := by
    rintro w ph w' h ⟨s, hs, rfl⟩
    exact h.setLog hs

/-- The phases of the calls of a run whose writes are in turn. -/
theorem reachable_ordered {c : (system Tid InTurn).Config (Except PyError Receipt)}
    (h : (system Tid InTurn).Reachable issues c) :
    ∃ ph, Ordered c.world ph ∧ ∀ t,
      Life.Rel (fun p φ => wp issueProtocol p (fun _ _ => True) φ) (c.threads t) (ph t) := by
  refine h.phases ordered_invariant ?_
  rintro _ ⟨raw, rfl⟩
  refine wp_mono (issue_wpe raw) fun _ _ _ => trivial

/-- A step of such a run. -/
theorem forward_step {c c' : (system Tid InTurn).Config (Except PyError Receipt)}
    (h : (system Tid InTurn).Reachable issues c) (hstep : (system Tid InTurn).Step issues c c') :
    Forward c.world.store c'.world.store := by
  obtain ⟨ph, hordered, hrel⟩ := reachable_ordered h
  cases hstep with
  | op hthread hexec =>
      obtain ⟨φ, hph, hallowed, -⟩ := (hthread ▸ hrel _).alive
      exact (hordered.forward_iff hph hallowed hexec.2).mpr (Or.inl hexec.1)
  | spawn hthread hmain => exact Forward.refl _
  | crash hcrash =>
      obtain rfl := hcrash
      exact Forward.refl _
  | env henv =>
      obtain ⟨s, -, rfl⟩ := henv
      exact Forward.refl c.world.store

/-- **The latest checkpoint moves forward exactly when every write is in turn.**  In a
run whose writes are all in turn it never moves to a smaller size; and a step after
such a run, whether in turn or not, keeps it from moving back only if it is in turn
or does nothing. -/
theorem latest_forward {c : (system Tid InTurn).Config (Except PyError Receipt)}
    (h : (system Tid InTurn).Reachable issues c) :
    (∀ c', Relation.ReflTransGen ((system Tid InTurn).Step issues) c c' →
      Forward c.world.store c'.world.store) ∧
    ∀ (t : Tid) (o : Op) (k : Except PyError o.Val → Prog sig (Except PyError Receipt))
      (r : Except PyError o.Val) (w' : World Tid),
      c.threads t = .alive (.call o k) → Does c.world t o r w' →
        (Forward c.world.store w'.store ↔ InTurn c.world t o ∨ w' = c.world) := by
  constructor
  · intro c' hrun
    induction hrun with
    | refl => exact Forward.refl _
    | tail hrun hstep ih => exact ih.trans (forward_step (Relation.ReflTransGen.trans h hrun) hstep)
  · intro t o k r w' hthread hdoes
    obtain ⟨ph, hordered, hrel⟩ := reachable_ordered h
    obtain ⟨φ, hph, hallowed, -⟩ := (hthread ▸ hrel t).alive
    exact hordered.forward_iff hph hallowed hdoes

end Order

/-! ## Runs of two calls -/

section Runs

variable {Tid : Type} [DecidableEq Tid] {guard : World Tid → Tid → Op → Prop}
  {c : (system Tid guard).Config (Except PyError Receipt)}

def Op.writes : Op → Bool
  | .writeCheckpoint .. => true
  | _ => false

/-- A condition on the writes only. -/
def OnWrites (guard : World Tid → Tid → Op → Prop) : Prop :=
  ∀ w t o, o.writes = false → guard w t o

/-- A call is about to write its checkpoint. -/
structure Writing (c : (system Tid guard).Config (Except PyError Receipt)) (t : Tid) (n : ℕ) :
    Prop where
  reachable : (system Tid guard).Reachable issues c
  thread : ∃ note k, note.treeSize = n ∧ c.threads t = .alive (.call (.writeCheckpoint n note) k)

/-- A call takes an operation that is no write. -/
theorem advance (hguard : OnWrites guard) {w w' : World Tid} {t : Tid}
    {th : Tid → Life (Prog sig (Except PyError Receipt))} {o : Op}
    {k : Except PyError o.Val → Prog sig (Except PyError Receipt)} (r : Except PyError o.Val)
    (h : (system Tid guard).Reachable issues ⟨w, Function.update th t (.alive (.call o k))⟩)
    (ho : o.writes = false) (hdoes : Does w t o r w') :
    (system Tid guard).Reachable issues ⟨w', Function.update th t (.alive (k r))⟩ :=
  h.advance (S := sig) r ⟨hguard w t o ho, hdoes⟩

/-- With a root of the right length, the signer is asked. -/
theorem signCheckpoint_digest {n : ℕ} {root : Bytes} (hroot : root.length = hashSize) :
    signCheckpoint [] n root = do
      let signature ← call (.sign defaultOrigin n root)
      return ⟨defaultOrigin, n, root, signature⟩ := by
  have hbody : checkpointBody defaultOrigin root = .ok () := by
    rw [checkpointBody, if_neg (by decide), if_neg (by rw [hroot]; exact fun h => h rfl)]
    rfl
  rw [signCheckpoint, if_pos rfl, hbody]
  rfl

/-- A call with a new body that fits gets to its write, if the signer answers. -/
theorem reach_write (hguard : OnWrites guard) (h : (system Tid guard).Reachable issues c) {t : Tid}
    (ht : c.threads t = .unborn) {bodies : List Bytes} (hlog : Published bodies c.world.store.log)
    (hsmall : Small bodies) {raw : Bytes} (hraw : raw.length ≤ Tiles.maxEntryBytes)
    (hnew : leafHash raw ∉ bodies.map leafHash) :
    ∃ s p, Published (bodies ++ [raw]) s ∧ Small (bodies ++ [raw]) ∧
      Writing ⟨c.world.appended t (bodies.length + 1) s,
        Function.update c.threads t (.alive p)⟩ t (bodies.length + 1) := by
  obtain ⟨s, happend, hs, -, hsmall'⟩ := append_small hlog hsmall hnew hraw
  have hlen : (bodies ++ [raw]).length = bodies.length + 1 := List.length_append
  obtain ⟨s', hpublish, hto⟩ := publishUnlocked_small (m := bodies.length + 1) hs.holds.leaves
    hlen.ge (by rwa [← hlen, List.take_length])
  have hs' := (exec_publishUnlocked hs _ hpublish).1.published
  have hlen' : bodies.length + 1 ≤ s'.leaves.length := by rw [hs'.length, hlen]
  have hready : exec (LogOp.readyToCheckpoint (bodies.length + 1)).code s' = (.ok true, s') :=
    hto.complete.readyUnlocked hlen'
  have hleaf : s.leaves[bodies.length]? = some (leafRow raw) := by
    rw [hs.holds.leaves, List.map_append, List.getElem?_append_right (by simp)]
    simp
  have hroot : exec (LogOp.root (bodies.length + 1)).code s' =
      (.ok (mthFromLeafHashes (s'.leafHashes.take (bodies.length + 1))), s') :=
    rootWith_hit hits_cachedRange hs'.holds.coherent (by rwa [Log.leafHashes, List.length_map])
  have hdigest : (mthFromLeafHashes (s'.leafHashes.take (bodies.length + 1))).length =
      hashSize := by
    rw [mthFromLeafHashes_eq, hs'.holds.leafHashes]
    exact root_length ((allDigests_leafHash _).take _)
  have h₀ := h.spawn t ht ⟨raw, rfl⟩
  have h₁ := advance hguard (o := .logEnabled) (.ok true) h₀ rfl rfl
  have h₂ := advance hguard (o := .append raw) (.ok _) h₁ rfl
    (Or.inl ⟨_, s, happend, rfl, rfl⟩)
  have h₃ := advance hguard (o := .log (.leafAt bodies.length)) (.ok (some (leafRow raw))) h₂ rfl
    (Or.inl ⟨s, congrArg (fun row => (Except.ok row, s)) hleaf, rfl⟩)
  have h₄ := advance hguard (o := .log (.publishUpTo (bodies.length + 1))) (.ok ()) h₃ rfl
    (Or.inl ⟨s', hpublish, rfl⟩)
  have h₅ := advance hguard (o := .log (.readyToCheckpoint (bodies.length + 1))) (.ok true) h₄ rfl
    (Or.inl ⟨s', hready, rfl⟩)
  have h₆ := advance hguard (o := .signer) (.ok true) h₅ rfl rfl
  have h₇ := advance hguard (o := .log (.root (bodies.length + 1))) (.ok _) h₆ rfl
    (Or.inl ⟨s', hroot, rfl⟩)
  have h₈ := advance hguard (o := .origin) (.ok []) h₇ rfl rfl
  change (system Tid guard).Reachable issues ⟨_, Function.update _ t
    (.alive (ExceptT.run (signCheckpoint [] (bodies.length + 1) _ >>= _)))⟩ at h₈
  rw [signCheckpoint_digest hdigest] at h₈
  have h₉ := advance hguard (o := .sign defaultOrigin (bodies.length + 1) _) (.ok []) h₈ rfl rfl
  have h₁₀ := advance hguard (o := .log (.readyToCheckpoint (bodies.length + 1))) (.ok true) h₉ rfl
    (Or.inl ⟨s', hready, rfl⟩)
  exact ⟨s', _, hs', hsmall', h₁₀, _, _, rfl, Function.update_self ..⟩

/-- It stays there while others take steps. -/
theorem Writing.stays {c' : (system Tid guard).Config (Except PyError Receipt)} {t : Tid} {n : ℕ}
    (h : Writing c t n) (hreachable : (system Tid guard).Reachable issues c')
    (hthread : c'.threads t = c.threads t) : Writing c' t n :=
  ⟨hreachable, hthread ▸ h.thread⟩

/-- It writes. -/
theorem Writing.step {t : Tid} {n : ℕ} (h : Writing c t n)
    (hguard : ∀ note, guard c.world t (.writeCheckpoint n note)) :
    ∃ note p, note.treeSize = n ∧ (system Tid guard).Step issues c
      ⟨c.world.saved t n note, Function.update c.threads t (.alive p)⟩ := by
  obtain ⟨note, k, hnote, hthread⟩ := h.thread
  refine ⟨note, _, hnote, System.Step.op (S := sig) (o := .writeCheckpoint n note)
    (r := Except.ok ()) hthread ⟨hguard note, ?_⟩⟩
  exact Sqlite.Transact.done rfl

end Runs

/-! The bodies of two calls. -/

theorem small_first : ([7] : Bytes).length ≤ Tiles.maxEntryBytes := by
  decide

theorem small_second : ([8] : Bytes).length ≤ Tiles.maxEntryBytes := by
  decide

theorem leafHash_second : leafHash [8] ∉ [[7]].map leafHash := by
  decide +kernel

/-- Two calls append, and the one that waits between its append and its write takes
the latest checkpoint from size 2 to size 1. -/
theorem latest_goes_back :
    ¬∀ c c' : (system Bool fun _ _ _ => True).Config (Except PyError Receipt),
      (system Bool fun _ _ _ => True).Reachable issues c →
        Relation.ReflTransGen ((system Bool fun _ _ _ => True).Step issues) c c' →
          Forward c.world.store c'.world.store := by
  intro hforward
  have hguard : OnWrites fun (_ : World Bool) _ _ => True := fun _ _ _ _ => trivial
  have h : (system Bool fun _ _ _ => True).Reachable issues
      ⟨(system Bool _).init, fun _ => .unborn⟩ := .refl
  obtain ⟨s, p, hs, hsmall, hfirst⟩ := reach_write hguard h (t := false) rfl published_empty
    (List.forall_mem_nil _) small_first List.not_mem_nil
  obtain ⟨s', p', -, -, hsecond⟩ := reach_write hguard hfirst.reachable (t := true) rfl hs hsmall
    small_second leafHash_second
  obtain ⟨note, q, hnote, hstep⟩ := hsecond.step fun _ => trivial
  have hlatest := Relation.ReflTransGen.tail hsecond.reachable hstep
  obtain ⟨note', q', hnote', hstep'⟩ := (hfirst.stays hlatest rfl).step fun _ => trivial
  obtain ⟨new, hnew, hle⟩ := hforward _ _ hlatest (.single hstep') note rfl
  cases hnew
  rw [hnote, hnote'] at hle
  exact absurd hle (by decide)

/-- Two calls append, and write in that order. -/
theorem latest_forward_run :
    ∃ c c' : (system Bool InTurn).Config (Except PyError Receipt),
      (∃ note, c.world.store.latest = some note ∧ note.treeSize = 1) ∧
      (∃ note, c'.world.store.latest = some note ∧ note.treeSize = 2) ∧
      Forward c.world.store c'.world.store := by
  have hguard : OnWrites fun (w : World Bool) => InTurn w := by
    intro w t o ho
    cases o with
    | writeCheckpoint n note => cases ho
    | _ => trivial
  have h : (system Bool InTurn).Reachable issues ⟨(system Bool _).init, fun _ => .unborn⟩ :=
    .refl
  obtain ⟨s, p, hs, hsmall, hfirst⟩ := reach_write hguard h (t := false) rfl published_empty
    (List.forall_mem_nil _) small_first List.not_mem_nil
  obtain ⟨s', p', -, -, hsecond⟩ := reach_write hguard hfirst.reachable (t := true) rfl hs hsmall
    small_second leafHash_second
  obtain ⟨note, q, hnote, hstep⟩ := (hfirst.stays hsecond.reachable rfl).step
    fun _ t' hsave => nomatch hsave
  have hlatest := Relation.ReflTransGen.tail hsecond.reachable hstep
  obtain ⟨note', q', hnote', hstep'⟩ := (hsecond.stays hlatest rfl).step (by
    intro _ t' hsave
    obtain rfl := List.mem_singleton.mp hsave
    obtain ⟨ph, hordered, -⟩ := reachable_ordered hlatest
    have hfound : (true, 2) ∈ [(true, 2), (false, 1)] := List.mem_cons_self
    rw [hordered.later_iff hfound (List.mem_cons_of_mem (true, 2) List.mem_cons_self)]
    decide)
  exact ⟨_, _, ⟨note, rfl, hnote⟩, ⟨note', rfl, hnote'⟩,
    (latest_forward hlatest).1 _ (.single hstep')⟩

end Signal402.Issue
