import Mathlib.Logic.Function.Basic
import Mathlib.Tactic.Common

/-!
# One database file and its connections

The transactions of SQLite in WAL mode, as far as several connections of one
file see each other, over an arbitrary type `D` of database contents.

A connection is idle, reads the state it started its transaction from, or
writes: then it holds the write lock and sees its own uncommitted contents.  A
statement that writes needs the lock, and a connection that reads an older
state cannot get it.  Any statement may fail; a failed one changes no contents,
but may leave a transaction open, and a commit may fail before or after it took
effect.  Transactions are atomic and durable: only a commit changes the file,
and a crash drops what is uncommitted.

* `Read` / `Write` / `Commit` / `Rollback` — one statement on a connection.
* `Transact` — a transaction that starts with `BEGIN IMMEDIATE`, as one step.
* `Everywhere K` — `K` holds of the file and of all uncommitted contents, which
  is what every later writer starts from.
-/

namespace Sqlite

variable {D C : Type}

/-- The state of one connection. -/
inductive Conn (D : Type)
  | idle
  | reading (snapshot : D)
  | writing (pending : D)

/-- The file and all connections to it. -/
structure Db (D C : Type) where
  file : D
  conn : C → Conn D

namespace Db

/-- What a read on connection `c` sees. -/
def view (db : Db D C) (c : C) : D :=
  match db.conn c with
  | .idle => db.file
  | .reading snapshot => snapshot
  | .writing pending => pending

/-- The contents a commit on `c` leaves in the file. -/
def committed (db : Db D C) (c : C) : D :=
  match db.conn c with
  | .writing pending => pending
  | _ => db.file

variable [DecidableEq C]

/-- Change the state of one connection. -/
def setConn (db : Db D C) (c : C) (x : Conn D) : Db D C :=
  { db with conn := Function.update db.conn c x }

@[simp] theorem setConn_file (db : Db D C) (c : C) (x : Conn D) :
    (db.setConn c x).file = db.file := rfl

@[simp] theorem setConn_conn_self (db : Db D C) (c : C) (x : Conn D) :
    (db.setConn c x).conn c = x := Function.update_self ..

theorem setConn_conn_ne (db : Db D C) {c c' : C} (h : c' ≠ c) (x : Conn D) :
    (db.setConn c x).conn c' = db.conn c' := Function.update_of_ne h ..

theorem setConn_same {db : Db D C} {c : C} {x : Conn D} (h : db.conn c = x) :
    db.setConn c x = db := by
  rw [setConn, ← h, Function.update_eq_self]

/-- Connection `c` holds or can get the write lock, and writes on `base`. -/
structure Writable (db : Db D C) (c : C) (base : D) : Prop where
  alone : ∀ c' p, c' ≠ c → db.conn c' ≠ .writing p
  base_eq : db.conn c = .writing base ∨
    ((db.conn c = .idle ∨ db.conn c = .reading db.file) ∧ base = db.file)

/-- What an error on connection `c` may leave of it. -/
inductive Disturbed (db : Db D C) (c : C) : Conn D → Prop
  | same : Disturbed db c (db.conn c)
  | aborted : Disturbed db c .idle
  | begun (h : db.conn c = .idle) : Disturbed db c (.reading db.file)
  | locked {base : D} (h : db.Writable c base) : Disturbed db c (.writing base)

end Db

variable [DecidableEq C]

/-- A read on connection `c`, of what `f` selects.  On an open transaction the
first read fixes the state it sees. -/
inductive Read {A : Type} (f : D → A) (c : C) : Db D C → A → Db D C → Prop
  | seen {db : Db D C} : Read f c db (f (db.view c)) db
  | fixed {db : Db D C} (h : db.conn c = .idle) :
      Read f c db (f db.file) (db.setConn c (.reading db.file))

/-- The result of a statement that writes. -/
inductive Written
  | done
  | constraint
  | failed
  deriving DecidableEq, Repr

/-- `stmt` on connection `c`; `none` is a violated constraint. -/
inductive Write (stmt : D → Option D) (c : C) : Db D C → Written → Db D C → Prop
  | done {db : Db D C} {base d : D} (h : db.Writable c base) (hstmt : stmt base = some d) :
      Write stmt c db .done (db.setConn c (.writing d))
  | constraint {db : Db D C} {base : D} (h : db.Writable c base) (hstmt : stmt base = none) :
      Write stmt c db .constraint (db.setConn c (.writing base))
  | failed {db : Db D C} {x : Conn D} (h : db.Disturbed c x) :
      Write stmt c db .failed (db.setConn c x)

/-- A commit on connection `c`, and whether it is reported as done. -/
inductive Commit (c : C) : Db D C → Bool → Db D C → Prop
  | done {db : Db D C} : Commit c db true { db.setConn c .idle with file := db.committed c }
  | unreported {db : Db D C} :
      Commit c db false { db.setConn c .idle with file := db.committed c }
  | failed {db : Db D C} : Commit c db false db
  | aborted {db : Db D C} : Commit c db false (db.setConn c .idle)

/-- A rollback on connection `c`; an error of it may leave the transaction open. -/
inductive Rollback (c : C) : Db D C → Db D C → Prop
  | done {db : Db D C} : Rollback c db (db.setConn c .idle)
  | failed {db : Db D C} : Rollback c db db

/-- A whole transaction under the write lock, of a check and the writes that
follow it: it commits, is refused by its own check and rolled back, fails, or
commits though an error is reported. -/
inductive Transact {A E : Type} (f : D → Except E (A × D)) : D → Except E A → D → Prop
  | done {d d' : D} {a : A} (h : f d = .ok (a, d')) : Transact f d (.ok a) d'
  | refused {d : D} {e : E} (h : f d = .error e) : Transact f d (.error e) d
  | failed {d : D} (e : E) : Transact f d (.error e) d
  | unreported {d d' : D} {a : A} (h : f d = .ok (a, d')) (e : E) :
      Transact f d (.error e) d'

/-! ## One writer -/

/-- At most one connection holds the write lock. -/
def OneWriter (db : Db D C) : Prop :=
  ∀ c c' p p', db.conn c = .writing p → db.conn c' = .writing p' → c = c'

theorem OneWriter.setConn {db : Db D C} (h : OneWriter db) {c : C} {x : Conn D}
    (hx : ∀ p, x = .writing p → ∀ c' p', c' ≠ c → db.conn c' ≠ .writing p') :
    OneWriter (db.setConn c x) := by
  intro c₁ c₂ p₁ p₂ h₁ h₂
  by_cases hc₁ : c₁ = c <;> by_cases hc₂ : c₂ = c
  · rw [hc₁, hc₂]
  · subst hc₁
    rw [Db.setConn_conn_self] at h₁
    rw [Db.setConn_conn_ne _ hc₂] at h₂
    exact absurd h₂ (hx p₁ h₁ c₂ p₂ hc₂)
  · subst hc₂
    rw [Db.setConn_conn_self] at h₂
    rw [Db.setConn_conn_ne _ hc₁] at h₁
    exact absurd h₁ (hx p₂ h₂ c₁ p₁ hc₁)
  · rw [Db.setConn_conn_ne _ hc₁] at h₁
    rw [Db.setConn_conn_ne _ hc₂] at h₂
    exact h c₁ c₂ p₁ p₂ h₁ h₂

theorem OneWriter.setIdle {db : Db D C} (h : OneWriter db) (c : C) :
    OneWriter (db.setConn c .idle) :=
  h.setConn fun p hp => by cases hp

theorem OneWriter.disturbed {db : Db D C} (h : OneWriter db) {c : C} {x : Conn D}
    (hx : db.Disturbed c x) : OneWriter (db.setConn c x) := by
  refine h.setConn fun p hp c' p' hne hc' => ?_
  cases hx with
  | same => exact hne (h c' c p' p hc' hp)
  | aborted => cases hp
  | begun => cases hp
  | locked hw => exact hw.alone c' p' hne hc'

theorem Read.oneWriter {A : Type} {f : D → A} {c : C} {db db' : Db D C} {a : A}
    (hr : Read f c db a db') (h : OneWriter db) : OneWriter db' := by
  cases hr with
  | seen => exact h
  | fixed hc => exact h.disturbed (.begun hc)

theorem Write.oneWriter {stmt : D → Option D} {c : C} {db db' : Db D C} {r : Written}
    (hw : Write stmt c db r db') (h : OneWriter db) : OneWriter db' := by
  cases hw with
  | done hb _ => exact h.setConn fun _ _ c' p' hne => hb.alone c' p' hne
  | constraint hb _ => exact h.setConn fun _ _ c' p' hne => hb.alone c' p' hne
  | failed hx => exact h.disturbed hx

theorem Commit.oneWriter {c : C} {db db' : Db D C} {r : Bool} (hc : Commit c db r db')
    (h : OneWriter db) : OneWriter db' := by
  cases hc with
  | done => exact h.setIdle c
  | unreported => exact h.setIdle c
  | failed => exact h
  | aborted => exact h.setIdle c

/-! ## Contents that hold everywhere -/

/-- `K` holds of the file and of the uncommitted contents of every writer. -/
structure Everywhere (K : D → Prop) (db : Db D C) : Prop where
  file : K db.file
  pending : ∀ c p, db.conn c = .writing p → K p

variable {K : D → Prop}

theorem Everywhere.setConn {db : Db D C} (h : Everywhere K db) {c : C} {x : Conn D}
    (hx : ∀ p, x = .writing p → K p) : Everywhere K (db.setConn c x) := by
  refine ⟨h.file, fun c' p hp => ?_⟩
  by_cases hc : c' = c
  · subst hc
    rw [Db.setConn_conn_self] at hp
    exact hx p hp
  · rw [Db.setConn_conn_ne _ hc] at hp
    exact h.pending c' p hp

theorem Everywhere.setIdle {db : Db D C} (h : Everywhere K db) (c : C) :
    Everywhere K (db.setConn c .idle) := h.setConn fun p hp => by cases hp

omit [DecidableEq C] in
/-- A writer starts from contents of which `K` holds. -/
theorem Everywhere.writable {db : Db D C} (h : Everywhere K db) {c : C} {base : D}
    (hb : db.Writable c base) : K base := by
  rcases hb.base_eq with hc | ⟨-, rfl⟩
  · exact h.pending c base hc
  · exact h.file

omit [DecidableEq C] in
theorem Everywhere.committed {db : Db D C} (h : Everywhere K db) (c : C) :
    K (db.committed c) := by
  rw [Db.committed]
  split
  next p hp => exact h.pending c p hp
  next => exact h.file

theorem Everywhere.disturbed {db : Db D C} (h : Everywhere K db) {c : C} {x : Conn D}
    (hx : db.Disturbed c x) : Everywhere K (db.setConn c x) := by
  refine h.setConn fun p hp => ?_
  cases hx with
  | same => exact h.pending c p hp
  | aborted => cases hp
  | begun => cases hp
  | locked hb => cases hp; exact h.writable hb

theorem Read.everywhere {A : Type} {f : D → A} {c : C} {db db' : Db D C} {a : A}
    (hr : Read f c db a db') (h : Everywhere K db) : Everywhere K db' := by
  cases hr with
  | seen => exact h
  | fixed hc => exact h.disturbed (.begun hc)

/-- A read keeps what a writer has pending. -/
theorem Read.writing {A : Type} {f : D → A} {c c' : C} {db db' : Db D C} {a : A} {p : D}
    (hr : Read f c db a db') (h : db.conn c' = .writing p) : db'.conn c' = .writing p := by
  cases hr with
  | seen => exact h
  | fixed hc =>
      have hne : c' ≠ c := by
        rintro rfl
        rw [hc] at h
        cases h
      rwa [Db.setConn_conn_ne _ hne]

/-- A statement that preserves `K` preserves it everywhere. -/
theorem Write.everywhere {stmt : D → Option D} {c : C} {db db' : Db D C} {r : Written}
    (hw : Write stmt c db r db') (h : Everywhere K db)
    (hstmt : ∀ d d', K d → stmt d = some d' → K d') : Everywhere K db' := by
  cases hw with
  | done hb hs => exact h.setConn fun p hp => by cases hp; exact hstmt _ _ (h.writable hb) hs
  | constraint hb _ => exact h.setConn fun p hp => by cases hp; exact h.writable hb
  | failed hx => exact h.disturbed hx

theorem Commit.everywhere {c : C} {db db' : Db D C} {r : Bool} (hc : Commit c db r db')
    (h : Everywhere K db) : Everywhere K db' := by
  cases hc with
  | done => exact ⟨h.committed c, (h.setIdle c).pending⟩
  | unreported => exact ⟨h.committed c, (h.setIdle c).pending⟩
  | failed => exact h
  | aborted => exact h.setIdle c

theorem Rollback.everywhere {c : C} {db db' : Db D C} (hr : Rollback c db db')
    (h : Everywhere K db) : Everywhere K db' := by
  cases hr with
  | done => exact h.setIdle c
  | failed => exact h

theorem Rollback.oneWriter {c : C} {db db' : Db D C} (hr : Rollback c db db')
    (h : OneWriter db) : OneWriter db' := by
  cases hr with
  | done => exact h.setIdle c
  | failed => exact h

/-! ## Contents that hold of whatever is seen -/

/-- `K` holds of the file and of what every connection sees, older states included. -/
structure Throughout (K : D → Prop) (db : Db D C) : Prop where
  file : K db.file
  view : ∀ c, K (db.view c)

theorem Throughout.setConn {db : Db D C} (h : Throughout K db) {c : C} {x : Conn D}
    (hx : K ((db.setConn c x).view c)) : Throughout K (db.setConn c x) := by
  refine ⟨h.file, fun c' => ?_⟩
  by_cases hc : c' = c
  · subst hc
    exact hx
  · have hview := h.view c'
    rw [Db.view] at hview ⊢
    rw [Db.setConn_conn_ne _ hc]
    exact hview

theorem Db.view_setConn (db : Db D C) (c : C) (x : Conn D) :
    (db.setConn c x).view c =
      match x with
      | .idle => db.file
      | .reading snapshot => snapshot
      | .writing pending => pending := by
  rw [view, setConn_conn_self, setConn_file]

theorem Throughout.setIdle {db : Db D C} (h : Throughout K db) (c : C) :
    Throughout K (db.setConn c .idle) := by
  apply h.setConn
  rw [Db.view_setConn]
  exact h.file

omit [DecidableEq C] in
theorem Throughout.writable {db : Db D C} (h : Throughout K db) {c : C} {base : D}
    (hb : db.Writable c base) : K base := by
  rcases hb.base_eq with hc | ⟨-, rfl⟩
  · have hview := h.view c
    rw [Db.view, hc] at hview
    exact hview
  · exact h.file

theorem Throughout.writing {db : Db D C} (h : Throughout K db) {c : C} {d : D} (hd : K d) :
    Throughout K (db.setConn c (.writing d)) := by
  apply h.setConn
  rw [Db.view_setConn]
  exact hd

theorem Throughout.disturbed {db : Db D C} (h : Throughout K db) {c : C} {x : Conn D}
    (hx : db.Disturbed c x) : Throughout K (db.setConn c x) := by
  cases hx with
  | same =>
      rw [Db.setConn_same rfl]
      exact h
  | aborted => exact h.setIdle c
  | begun =>
      apply h.setConn
      rw [Db.view_setConn]
      exact h.file
  | locked hb => exact h.writing (h.writable hb)

theorem Read.throughout {A : Type} {f : D → A} {c : C} {db db' : Db D C} {a : A}
    (hr : Read f c db a db') (h : Throughout K db) : Throughout K db' := by
  cases hr with
  | seen => exact h
  | fixed hc => exact h.disturbed (.begun hc)

theorem Write.throughout {stmt : D → Option D} {c : C} {db db' : Db D C} {r : Written}
    (hw : Write stmt c db r db') (h : Throughout K db)
    (hstmt : ∀ d d', K d → stmt d = some d' → K d') : Throughout K db' := by
  cases hw with
  | done hb hs => exact h.writing (hstmt _ _ (h.writable hb) hs)
  | constraint hb _ => exact h.writing (h.writable hb)
  | failed hx => exact h.disturbed hx

/-- After a commit the idle connections see what was committed. -/
theorem Throughout.committed {db : Db D C} (h : Throughout K db) (c : C) :
    Throughout K { db.setConn c .idle with file := db.committed c } := by
  have hfile : K (db.committed c) := by
    have hview := h.view c
    rw [Db.view] at hview
    rw [Db.committed]
    split
    next p hp =>
      rw [hp] at hview
      exact hview
    next => exact h.file
  refine ⟨hfile, fun c' => ?_⟩
  have hview := (h.setIdle c).view c'
  rw [Db.view] at hview ⊢
  dsimp only at hview ⊢
  split
  · exact hfile
  next s hs =>
    rw [hs] at hview
    exact hview
  next p hp =>
    rw [hp] at hview
    exact hview

theorem Commit.throughout {c : C} {db db' : Db D C} {r : Bool} (hc : Commit c db r db')
    (h : Throughout K db) : Throughout K db' := by
  cases hc with
  | done => exact h.committed c
  | unreported => exact h.committed c
  | failed => exact h
  | aborted => exact h.setIdle c

theorem Rollback.throughout {c : C} {db db' : Db D C} (hr : Rollback c db db')
    (h : Throughout K db) : Throughout K db' := by
  cases hr with
  | done => exact h.setIdle c
  | failed => exact h

/-! ## What a writer sees -/

/-- A statement changes its own connection only. -/
theorem Write.conn_ne {stmt : D → Option D} {c c' : C} {db db' : Db D C} {r : Written}
    (hw : Write stmt c db r db') (hne : c' ≠ c) : db'.conn c' = db.conn c' := by
  cases hw <;> exact Db.setConn_conn_ne _ hne _

theorem Read.conn_ne {A : Type} {f : D → A} {c c' : C} {db db' : Db D C} {a : A}
    (hr : Read f c db a db') (hne : c' ≠ c) : db'.conn c' = db.conn c' := by
  cases hr
  · rfl
  · exact Db.setConn_conn_ne _ hne _

/-- A read leaves the file as it is. -/
theorem Read.file_eq {A : Type} {f : D → A} {c : C} {db db' : Db D C} {a : A}
    (hr : Read f c db a db') : db'.file = db.file := by
  cases hr <;> rfl

/-- A read returns what its connection sees. -/
theorem Read.result {A : Type} {f : D → A} {c : C} {db db' : Db D C} {a : A}
    (hr : Read f c db a db') : a = f (db.view c) := by
  cases hr with
  | seen => rfl
  | fixed h => rw [Db.view, h]

/-- A statement writes to its connection; the file waits for the commit. -/
theorem Write.file_eq {stmt : D → Option D} {c : C} {db db' : Db D C} {r : Written}
    (hw : Write stmt c db r db') : db'.file = db.file := by
  cases hw <;> rfl

theorem Commit.conn_ne {c c' : C} {db db' : Db D C} {r : Bool} (hc : Commit c db r db')
    (hne : c' ≠ c) : db'.conn c' = db.conn c' := by
  cases hc
  · exact Db.setConn_conn_ne _ hne _
  · exact Db.setConn_conn_ne _ hne _
  · rfl
  · exact Db.setConn_conn_ne _ hne _

theorem Rollback.conn_ne {c c' : C} {db db' : Db D C} (hr : Rollback c db db')
    (hne : c' ≠ c) : db'.conn c' = db.conn c' := by
  cases hr
  · exact Db.setConn_conn_ne _ hne _
  · rfl

/-- The contents a successful statement leaves on its connection. -/
theorem Write.done_pending {stmt : D → Option D} {c : C} {db db' : Db D C}
    (hw : Write stmt c db .done db') :
    ∃ base d, db.Writable c base ∧ stmt base = some d ∧ db' = db.setConn c (.writing d) := by
  cases hw with
  | done hb hs => exact ⟨_, _, hb, hs, rfl⟩

/-- After a reported commit of a writer, what it wrote holds everywhere. -/
theorem Commit.done_everywhere {c : C} {db db' : Db D C} (hc : Commit c db true db')
    (h1 : OneWriter db) {p : D} (hp : db.conn c = .writing p) (hK : K p) :
    Everywhere K db' := by
  cases hc with
  | done =>
      have hfile : db.committed c = p := by rw [Db.committed, hp]
      refine ⟨?_, fun c' p' hp' => ?_⟩
      · change K (db.committed c)
        rwa [hfile]
      · by_cases hcc : c' = c
        · subst hcc
          change (db.setConn c' .idle).conn c' = _ at hp'
          rw [Db.setConn_conn_self] at hp'
          cases hp'
        · change (db.setConn c .idle).conn c' = _ at hp'
          rw [Db.setConn_conn_ne _ hcc] at hp'
          exact absurd (h1 c' c p' p hp' hp) hcc

end Sqlite
