import Signal402.Lib.Concurrent
import Signal402.Lib.History
import Signal402.Lib.Sqlite
import Mathlib.Data.List.Perm.Basic

/-!
# Calls on one database file, and serial orders of them

Calls are programs over SQL statements.  Each process has one connection and runs
one call at a time on it; the statements of different processes interleave under
the locking of SQLite.

* `Schema` — the queries and the statements that write, over contents `D`.
* `alone` — a call that no other process interrupts.
* `protocol` — how a call uses its transaction: it returns nothing while it writes,
  and after its commit it only reads.
* `Step` — the interleaving.  A statement may be refused for the lock, and an
  `INSERT` for a constraint; a refused statement may leave its transaction open.
* `look` — the reads and checks of a call on given contents, up to the statement
  that follows them.
* `Timely` — the call takes the lock where its reads and checks, made then, would
  have led; and what it reads back is what it committed.
* `Reachable.serializes` — in an interleaving of timely statements the file is that
  of a serial order of the calls that returned a value.
-/

namespace Serial

open Concurrent Sqlite

/-! ## Statements -/

/-- The queries of a store, and the statements that write to it; only an `INSERT` may
violate a constraint. -/
structure Schema (D : Type) where
  Query : Type
  Row : Query → Type
  select : (q : Query) → D → Row q
  Change : Type
  change : Change → D → D
  Insert : Type
  insert : Insert → D → Option D

variable {D C Call E A α : Type}

inductive Stmt (S : Schema D)
  | select (q : S.Query)
  | change (w : S.Change)
  | insert (i : S.Insert)
  | beginImmediate
  | commit
  | rollback

/-- What a statement returns: rows, or whether it was done. -/
abbrev Stmt.Res {S : Schema D} : Stmt S → Type
  | .select q => S.Row q
  | .change _ => Bool
  | .insert _ => Written
  | .beginImmediate => Bool
  | .commit => Unit
  | .rollback => Unit

abbrev Schema.sig (S : Schema D) : Sig := ⟨Stmt S, Stmt.Res⟩

variable {S : Schema D}

/-! ## A call alone -/

/-- The file and the uncommitted contents of the one connection. -/
structure Solo (D : Type) where
  file : D
  pending : Option D

namespace Solo

def view (s : Solo D) : D := s.pending.getD s.file

/-- What a statement returns where no other process is. -/
def answer (s : Solo D) : (o : Stmt S) → o.Res
  | .select q => S.select q s.view
  | .change _ => true
  | .insert i =>
      match S.insert i s.view with
      | some _ => .done
      | none => .constraint
  | .beginImmediate => s.pending.isNone
  | .commit => ()
  | .rollback => ()

def after (s : Solo D) : Stmt S → Solo D
  | .select _ => s
  | .change w => { s with pending := some (S.change w s.view) }
  | .insert i => { s with pending := some ((S.insert i s.view).getD s.view) }
  | .beginImmediate => { s with pending := some s.view }
  | .commit => ⟨s.view, none⟩
  | .rollback => { s with pending := none }

end Solo

/-- The program, uninterrupted. -/
def alone : Prog S.sig α → Solo D → α × Solo D
  | .ret a, s => (a, s)
  | .call o k, s => alone (k (s.answer o)) (s.after o)

/-- The program after its leading reads, made on the contents `d`. -/
def look (d : D) : Prog S.sig α → Prog S.sig α
  | .ret a => .ret a
  | .call (.select q) k => look d (k (S.select q d))
  | .call o k => .call o k

theorem alone_insert_some {i : S.Insert} (k : Written → Prog S.sig α) {s : Solo D} {d : D}
    (h : S.insert i s.view = some d) :
    alone (.call (.insert i) k) s = alone (k .done) ⟨s.file, some d⟩ := by
  have hanswer : s.answer (.insert i) = .done := by
    rw [Solo.answer, h]
  have hafter : s.after (.insert i) = ⟨s.file, some d⟩ := by
    rw [Solo.after, h]
    rfl
  rw [alone, hanswer, hafter]

theorem alone_insert_none {i : S.Insert} (k : Written → Prog S.sig α) {s : Solo D}
    (h : S.insert i s.view = none) :
    alone (.call (.insert i) k) s = alone (k .constraint) ⟨s.file, some s.view⟩ := by
  have hanswer : s.answer (.insert i) = .constraint := by
    rw [Solo.answer, h]
  have hafter : s.after (.insert i) = ⟨s.file, some s.view⟩ := by
    rw [Solo.after, h]
    rfl
  rw [alone, hanswer, hafter]

/-- Leading reads change nothing. -/
theorem alone_look (p : Prog S.sig α) (d : D) :
    alone (look d p) ⟨d, none⟩ = alone p ⟨d, none⟩ := by
  induction p with
  | ret a => rfl
  | call o k ih =>
      cases o with
      | select q => exact ih (S.select q d)
      | change w => rfl
      | insert i => rfl
      | beginImmediate => rfl
      | commit => rfl
      | rollback => rfl

/-- A run alone of two parts in a row. -/
theorem alone_bind {β : Type} (x : Prog S.sig α) (f : α → Prog S.sig β) (s : Solo D) :
    alone (x >>= f) s = alone (f (alone x s).1) (alone x s).2 := by
  change alone (x.bind f) s = _
  induction x generalizing s with
  | ret a => rfl
  | call o k ih => exact ih _ _

section Exceptions

variable {β : Type}

/-- A program that may raise, uninterrupted. -/
def solo (x : ExceptT E (Prog S.sig) α) (s : Solo D) : Except E α × Solo D := alone x.run s

@[simp] theorem solo_pure (a : α) (s : Solo D) :
    solo (pure a : ExceptT E (Prog S.sig) α) s = (.ok a, s) := rfl

@[simp] theorem solo_throw (e : E) (s : Solo D) :
    solo (throw e : ExceptT E (Prog S.sig) α) s = (.error e, s) := rfl

@[simp] theorem solo_ofExcept (x : Except E α) (s : Solo D) :
    solo (MonadExcept.ofExcept x : ExceptT E (Prog S.sig) α) s = (x, s) := by
  cases x <;> rfl

@[simp] theorem solo_perform (o : Stmt S) (s : Solo D) :
    solo (perform (S := S.sig) o : ExceptT E (Prog S.sig) _) s = (.ok (s.answer o), s.after o) :=
  rfl

theorem solo_bind (x : ExceptT E (Prog S.sig) α) (f : α → ExceptT E (Prog S.sig) β) (s : Solo D) :
    solo (x >>= f) s =
      match solo x s with
      | (.ok a, s') => solo (f a) s'
      | (.error e, s') => (.error e, s') := by
  rw [solo, solo]
  change alone (x.run >>= ExceptT.bindCont f) s = _
  rw [alone_bind]
  generalize alone x.run s = r
  obtain ⟨e | a, s'⟩ := r <;> rfl

theorem solo_map (x : ExceptT E (Prog S.sig) α) (f : α → β) (s : Solo D) :
    solo (f <$> x) s = ((solo x s).1.map f, (solo x s).2) := by
  rw [map_eq_pure_bind, solo_bind]
  generalize solo x s = r
  obtain ⟨e | a, s'⟩ := r <;> rfl

/-- `try x except e: f e`. -/
theorem solo_tryCatch (x : ExceptT E (Prog S.sig) α) (f : E → ExceptT E (Prog S.sig) α)
    (s : Solo D) :
    solo (tryCatch x f) s =
      match solo x s with
      | (.ok a, s') => (.ok a, s')
      | (.error e, s') => solo (f e) s' := by
  rw [solo, solo, ExceptT.run_tryCatch, alone_bind]
  generalize alone x.run s = r
  obtain ⟨e | a, s'⟩ := r <;> rfl

end Exceptions

/-- What a call that returned `a` did when it ran alone. -/
def Ran (code : Call → Prog S.sig (Except E A)) (call : Call) (d : D) (a : A) (d' : D) : Prop :=
  alone (code call) ⟨d, none⟩ = (.ok a, ⟨d', none⟩)

/-! ## How a call uses its transaction -/

/-- Where a call stands.  It is `fresh` before its first statement, and `looking` while
it holds no lock of its own; no call comes to `never`. -/
inductive Phase
  | fresh
  | looking
  | writing
  | committed
  | never
  deriving DecidableEq

/-- The call has not taken the lock. -/
def Phase.Outside (φ : Phase) : Prop := φ = .fresh ∨ φ = .looking

/-- `BEGIN IMMEDIATE` is the first statement or none; a commit ends the transaction, and
only reads follow it. -/
def protocol (S : Schema D) : Protocol S.sig Phase where
  allowed
    | .fresh, .commit => False
    | .fresh, _ => True
    | .looking, .beginImmediate => False
    | .looking, .commit => False
    | .looking, _ => True
    | .writing, .beginImmediate => False
    | .writing, _ => True
    | .committed, .select _ => True
    | .committed, _ => False
    | .never, _ => True
  next
    | .never, _, _ => .never
    | .committed, _, _ => .committed
    | .writing, .change _, false => .never
    | .writing, .insert _, .failed => .never
    | .writing, .commit, _ => .committed
    | .writing, .rollback, _ => .looking
    | .writing, _, _ => .writing
    | _, .change _, true => .writing
    | _, .insert _, .done => .writing
    | _, .beginImmediate, true => .writing
    | _, _, _ => .looking

/-- A call returns with no transaction of its own open; after its commit it returns a
value. -/
def Ends : Phase → Except E A → Prop
  | .fresh, _ => True
  | .looking, _ => True
  | .writing, _ => False
  | .committed, .ok _ => True
  | .committed, .error _ => False
  | .never, _ => True

/-- The program of a call keeps to the protocol. -/
def Disciplined (p : Prog S.sig (Except E A)) : Prop := wp (protocol S) p Ends .fresh

/-- After its commit a call reads and returns a value. -/
theorem alone_committed {p : Prog S.sig (Except E A)} (h : wp (protocol S) p Ends .committed)
    (d : D) : ∃ a, alone p ⟨d, none⟩ = (.ok a, ⟨d, none⟩) := by
  induction p with
  | ret r =>
      cases r with
      | ok a => exact ⟨a, rfl⟩
      | error e => exact h.elim
  | call o k ih =>
      cases o with
      | select q => exact ih _ (h.2 _)
      | change w => exact h.1.elim
      | insert i => exact h.1.elim
      | beginImmediate => exact h.1.elim
      | commit => exact h.1.elim
      | rollback => exact h.1.elim

/-! ## Interleaving -/

variable [DecidableEq C]

/-- A statement on connection `t`.  Once the connection writes, no statement of it is
refused. -/
inductive Exec (t : C) : Db D C → (o : Stmt S) → o.Res → Db D C → Prop
  | select {db db' : Db D C} {q : S.Query} {a : S.Row q} (h : Read (S.select q) t db a db') :
      Exec t db (.select q) a db'
  | changed {db db' : Db D C} {w : S.Change}
      (h : Write (fun d => some (S.change w d)) t db .done db') : Exec t db (.change w) true db'
  | unchanged {db db' : Db D C} {w : S.Change}
      (h : Write (fun d => some (S.change w d)) t db .failed db')
      (hlock : ∀ p, db.conn t ≠ .writing p) : Exec t db (.change w) false db'
  | insert {db db' : Db D C} {i : S.Insert} {r : Written} (h : Write (S.insert i) t db r db')
      (hlock : r = .failed → ∀ p, db.conn t ≠ .writing p) : Exec t db (.insert i) r db'
  | begun {db : Db D C} (hidle : db.conn t = .idle)
      (halone : ∀ t' p, t' ≠ t → db.conn t' ≠ .writing p) :
      Exec t db .beginImmediate true (db.setConn t (.writing db.file))
  | refused {db : Db D C} : Exec t db .beginImmediate false db
  | commit {db db' : Db D C} (h : Commit t db true db') : Exec t db .commit () db'
  | rollback {db : Db D C} : Exec t db .rollback () (db.setConn t .idle)

/-- A call in progress: the rest of its program, and what the file held when it
committed, or at its start. -/
structure Running (S : Schema D) (Call E A : Type) where
  call : Call
  rest : Prog S.sig (Except E A)
  phase : Phase
  left : D

/-- The database, the calls in progress, and those that returned with their results. -/
structure Config (S : Schema D) (C Call E A : Type) where
  db : Db D C
  calls : C → Option (Running S Call E A)
  returned : List (Call × Except E A)

namespace Config

/-- No call is in progress, and no connection has a transaction. -/
def start (S : Schema D) (d : D) : Config S C Call E A := ⟨⟨d, fun _ => .idle⟩, fun _ => none, []⟩

/-- The call of `t` returns. -/
def finish (c : Config S C Call E A) (t : C) (call : Call) (r : Except E A) :
    Config S C Call E A :=
  ⟨c.db, Function.update c.calls t none, c.returned ++ [(call, r)]⟩

/-- The call of `t` comes to `x`; after its last statement it returns. -/
def advance (c : Config S C Call E A) (db : Db D C) (t : C) (x : Running S Call E A) :
    Config S C Call E A :=
  let c' : Config S C Call E A := ⟨db, Function.update c.calls t (some x), c.returned⟩
  match x.rest with
  | .ret r => c'.finish t x.call r
  | .call .. => c'

/-- The calls that returned a value, with it. -/
def normal (c : Config S C Call E A) : List (Call × A) :=
  c.returned.filterMap fun reply => reply.2.toOption.map (reply.1, ·)

end Config

theorem normal_finish_ok (c : Config S C Call E A) (t : C) (call : Call) (a : A) :
    (c.finish t call (.ok a)).normal = c.normal ++ [(call, a)] :=
  List.filterMap_append

theorem normal_finish_error (c : Config S C Call E A) (t : C) (call : Call) (e : E) :
    (c.finish t call (.error e)).normal = c.normal :=
  List.filterMap_append.trans (List.append_nil _)

/-- The call after a statement that returned `r` and left `d` in the file. -/
def Running.next (x : Running S Call E A) (o : Stmt S) (k : o.Res → Prog S.sig (Except E A))
    (r : o.Res) (d : D) : Running S Call E A where
  call := x.call
  rest := k r
  phase := (protocol S).next x.phase o r
  left := match o with
    | .commit => d
    | _ => x.left

theorem next_phase {x : Running S Call E A} {φ : Phase} {o : Stmt S}
    {k : o.Res → Prog S.sig (Except E A)} {r : o.Res} {d : D} (h : x.phase = φ) :
    (x.next o k r d).phase = (protocol S).next φ o r :=
  congrArg (fun φ => (protocol S).next φ o r) h

/-- What a run asks of a statement with its result: of the database before it, the call
and the rest of its program. -/
abbrev Condition (S : Schema D) (C Call E A : Type) :=
  C → Db D C → Running S Call E A → (o : Stmt S) → (o.Res → Prog S.sig (Except E A)) → o.Res → Prop

/-- A call starts, or takes its next statement. -/
inductive Step (code : Call → Prog S.sig (Except E A)) (cond : Condition S C Call E A) :
    Config S C Call E A → Config S C Call E A → Prop
  | start {c : Config S C Call E A} {t : C} (h : c.calls t = none) (call : Call) :
      Step code cond c (c.advance c.db t ⟨call, code call, .fresh, c.db.file⟩)
  | statement {c : Config S C Call E A} {t : C} {x : Running S Call E A} {o : Stmt S}
      {k : o.Res → Prog S.sig (Except E A)} {r : o.Res} {db : Db D C} (h : c.calls t = some x)
      (hrest : x.rest = .call o k) (hexec : Exec t c.db o r db) (hcond : cond t c.db x o k r) :
      Step code cond c (c.advance db t (x.next o k r db.file))

/-- The configurations that an interleaving leads to. -/
abbrev Steps (code : Call → Prog S.sig (Except E A)) (cond : Condition S C Call E A) :
    Config S C Call E A → Config S C Call E A → Prop :=
  Relation.ReflTransGen (Step code cond)

/-- The condition of a serial order.  `lock`: the statement with which the call takes
the lock is the one that its reads and checks would lead to on the file as it is then.
`last`: so is the value of a call that returns without a commit.  `back`: a read after
the commit sees what the call committed. -/
structure Timely (code : Call → Prog S.sig (Except E A)) (t : C) (db : Db D C)
    (x : Running S Call E A) (o : Stmt S) (k : o.Res → Prog S.sig (Except E A)) (r : o.Res) :
    Prop where
  lock : x.phase = .looking → (protocol S).next .looking o r = .writing →
    look db.file (code x.call) = x.rest
  last : ((protocol S).next x.phase o r).Outside → ∀ a, k r = .ret (.ok a) →
    look db.file (code x.call) = .ret (.ok a)
  back : x.phase = .committed → ∀ q, o = .select q →
    S.select q (db.view t) = S.select q x.left

/-! ## What one statement does to its connection -/

section Statements

variable {t t' : C} {db db' : Db D C} {o : Stmt S} {r : o.Res}

theorem Exec.oneWriter (h : Exec t db o r db') (h1 : OneWriter db) : OneWriter db' := by
  cases h with
  | select h => exact h.oneWriter h1
  | changed h => exact h.oneWriter h1
  | unchanged h => exact h.oneWriter h1
  | insert h => exact h.oneWriter h1
  | begun _ halone => exact h1.setConn fun _ _ t' p hne => halone t' p hne
  | refused => exact h1
  | commit h => exact h.oneWriter h1
  | rollback => exact h1.setIdle t

/-- A statement changes its own connection only. -/
theorem Exec.conn_ne (h : Exec t db o r db') (hne : t' ≠ t) : db'.conn t' = db.conn t' := by
  cases h with
  | select h => exact h.conn_ne hne
  | changed h => exact h.conn_ne hne
  | unchanged h => exact h.conn_ne hne
  | insert h => exact h.conn_ne hne
  | begun => exact Db.setConn_conn_ne _ hne _
  | refused => rfl
  | commit h => exact h.conn_ne hne
  | rollback => exact Db.setConn_conn_ne _ hne _

/-- Only a commit changes the file. -/
theorem Exec.file_eq (h : Exec t db o r db') : db'.file = db.file ∨ o = .commit := by
  cases h with
  | select h => exact Or.inl h.file_eq
  | changed h => exact Or.inl h.file_eq
  | unchanged h => exact Or.inl h.file_eq
  | insert h => exact Or.inl h.file_eq
  | begun => exact Or.inl rfl
  | refused => exact Or.inl rfl
  | commit => exact Or.inr rfl
  | rollback => exact Or.inl rfl

/-- The connection has nothing uncommitted. -/
def Clean (db : Db D C) (t : C) : Prop := ∀ p, db.conn t = .writing p → p = db.file

theorem Clean.of_ne {x : Conn D} (h : ∀ p, x ≠ .writing p) : Clean (db.setConn t x) t := by
  intro p hp
  rw [Db.setConn_conn_self] at hp
  exact absurd hp (h p)

omit [DecidableEq C] in
/-- A writer without uncommitted contents starts from the file. -/
theorem Clean.base (h : Clean db t) {base : D} (hw : db.Writable t base) : base = db.file := by
  rcases hw.base_eq with hconn | ⟨-, hbase⟩
  · exact h base hconn
  · exact hbase

theorem Clean.disturbed (h : Clean db t) {x : Conn D} (hx : db.Disturbed t x) :
    Clean (db.setConn t x) t := by
  intro p hp
  rw [Db.setConn_conn_self] at hp
  cases hx with
  | same => exact h p hp
  | aborted => cases hp
  | begun => cases hp
  | locked hw =>
      cases hp
      exact h.base hw

omit [DecidableEq C] in
/-- A writer starts from its uncommitted contents. -/
theorem base_of_writing {p base : D} (h : db.conn t = .writing p) (hw : db.Writable t base) :
    base = p := by
  rcases hw.base_eq with hconn | ⟨hconn | hconn, -⟩
  · rw [h] at hconn
    cases hconn
    rfl
  · rw [h] at hconn
    cases hconn
  · rw [h] at hconn
    cases hconn

end Statements

/-! ## Runs on fixed inputs -/

section Turns

/-- A connection with these uncommitted contents. -/
def connOf : Option D → Conn D
  | none => .idle
  | some p => .writing p

/-- The state that a connection which does not only read sees. -/
def soloOf (db : Db D C) (t : C) : Solo D :=
  match db.conn t with
  | .writing p => ⟨db.file, some p⟩
  | _ => ⟨db.file, none⟩

/-- The database after a statement of `t` that no other process interrupts. -/
def turned (db : Db D C) (t : C) (o : Stmt S) : Db D C :=
  let s := (soloOf db t).after o
  { db.setConn t (connOf s.pending) with file := s.file }

/-- A statement on a connection that can have the lock may do what it does alone. -/
theorem exec_turned {db : Db D C} {t : C} (hconn : ∀ p, db.conn t ≠ .reading p)
    (halone : ∀ t' p, t' ≠ t → db.conn t' ≠ .writing p) (o : Stmt S) :
    Exec t db o ((soloOf db t).answer o) (turned db t o) := by
  have hsame : { db.setConn t (connOf (soloOf db t).pending) with file := (soloOf db t).file } = db ∧
      (soloOf db t).file = db.file ∧ (soloOf db t).view = db.view t ∧
      (soloOf db t).view = db.committed t ∧ db.Writable t (soloOf db t).view := by
    rw [soloOf, Db.view, Db.committed]
    cases hc : db.conn t with
    | idle =>
        refine ⟨?_, rfl, rfl, rfl, halone, Or.inr ⟨Or.inl hc, rfl⟩⟩
        rw [connOf, Db.setConn_same hc]
    | reading p => exact absurd hc (hconn p)
    | writing p =>
        refine ⟨?_, rfl, rfl, rfl, halone, Or.inl hc⟩
        rw [connOf, Db.setConn_same hc]
  obtain ⟨hsame, hfile, hview, hcommitted, hwritable⟩ := hsame
  cases o with
  | select q =>
      rw [turned, Solo.after, hsame, Solo.answer, hview]
      exact .select .seen
  | change w =>
      rw [turned, Solo.after]
      dsimp only
      rw [hfile]
      exact .changed (.done hwritable rfl)
  | insert i =>
      rw [turned, Solo.after, Solo.answer]
      dsimp only
      rw [hfile]
      cases hi : S.insert i (soloOf db t).view with
      | some d => exact .insert (.done hwritable hi) fun h => by cases h
      | none => exact .insert (.constraint hwritable hi) fun h => by cases h
  | beginImmediate =>
      rw [turned, Solo.after, Solo.answer]
      dsimp only
      rw [hfile, hview, soloOf, Db.view]
      cases hc : db.conn t with
      | idle => exact .begun hc halone
      | reading p => exact absurd hc (hconn p)
      | writing p =>
          change Exec t db .beginImmediate false { db.setConn t (.writing p) with file := db.file }
          rw [Db.setConn_same hc]
          exact .refused
  | commit =>
      rw [turned, Solo.after, hcommitted]
      exact .commit .done
  | rollback =>
      rw [turned, Solo.after]
      dsimp only
      rw [hfile]
      exact .rollback

/-- The call of `t` takes its next statement, where no other process interrupts it. -/
def Config.turn (c : Config S C Call E A) (t : C) : Config S C Call E A :=
  match c.calls t with
  | some x =>
      match x.rest with
      | .call o k =>
          c.advance (turned c.db t o) t
            (x.next o k ((soloOf c.db t).answer o) (turned c.db t o).file)
      | .ret _ => c
  | none => c

/-- A turn is a step where the connection can have the lock. -/
theorem Steps.turn {code : Call → Prog S.sig (Except E A)} {cond : Condition S C Call E A}
    {c c' : Config S C Call E A} {t : C} (h : Steps code cond c c')
    (hconn : ∀ p, c'.db.conn t ≠ .reading p)
    (halone : ∀ t' p, t' ≠ t → c'.db.conn t' ≠ .writing p)
    (hcond : ∀ x o k, c'.calls t = some x → x.rest = .call o k →
      cond t c'.db x o k ((soloOf c'.db t).answer o)) : Steps code cond c (c'.turn t) := by
  rw [Config.turn]
  cases hx : c'.calls t with
  | none => exact h
  | some x =>
      dsimp only
      cases hrest : x.rest with
      | ret r => exact h
      | call o k =>
          exact h.tail (.statement hx hrest (exec_turned hconn halone o) (hcond x o k hx hrest))

end Turns

/-! ## The invariant -/

section Invariant

variable {code : Call → Prog S.sig (Except E A)}

/-- What holds of a call in progress.  While it writes, its rest alone would end as the
whole call alone on the file; once it has committed, its rest alone would return what
the list `flight` of the committed calls says. -/
def Holds (code : Call → Prog S.sig (Except E A)) (db : Db D C) (flight : List (C × Call × A))
    (t : C) (x : Running S Call E A) : Prop :=
  match x.phase with
  | .fresh => Clean db t ∧ x.rest = code x.call
  | .looking => Clean db t
  | .writing => ∃ p, db.conn t = .writing p ∧
      alone x.rest ⟨db.file, some p⟩ = alone (code x.call) ⟨db.file, none⟩
  | .committed => (∀ p, db.conn t ≠ .writing p) ∧
      ∃ a, alone x.rest ⟨x.left, none⟩ = (.ok a, ⟨x.left, none⟩) ∧ (t, x.call, a) ∈ flight
  | .never => False

/-- The invariant of an interleaving; `flight` lists the calls that have committed and
not returned. -/
structure Inv (code : Call → Prog S.sig (Except E A)) (c : Config S C Call E A)
    (flight : List (C × Call × A)) : Prop where
  writer : OneWriter c.db
  idle : ∀ t, c.calls t = none → Clean c.db t
  rest : ∀ t x, c.calls t = some x → wp (protocol S) x.rest Ends x.phase
  call : ∀ t x, c.calls t = some x → Holds code c.db flight t x
  flying : ∀ e ∈ flight, ∃ x, c.calls e.1 = some x ∧ x.phase = .committed
  single : (flight.map Prod.fst).Nodup

/-- What one step does to the file and to the calls that returned or will return: they
are the calls of the run `es` that it makes of the file. -/
structure Advance (code : Call → Prog S.sig (Except E A)) (c c' : Config S C Call E A)
    (flight flight' : List (C × Call × A)) (es : List (History.Event D Call A)) : Prop where
  run : History.Run (Ran code) c.db.file es c'.db.file
  calls : ((es.map fun e => (e.call, e.result)) ++ (c.normal ++ flight.map Prod.snd)).Perm
    (c'.normal ++ flight'.map Prod.snd)

omit [DecidableEq C] in
theorem Advance.refl (c : Config S C Call E A) (flight : List (C × Call × A)) :
    Advance code c c flight flight [] := ⟨.nil _, List.Perm.refl _⟩

omit [DecidableEq C] in
/-- A step that adds one call to the serial order. -/
theorem Advance.of_ran {c c' : Config S C Call E A} {flight flight' : List (C × Call × A)}
    {call : Call} {a : A} (hran : Ran code call c.db.file a c'.db.file)
    (hcalls : ((call, a) :: (c.normal ++ flight.map Prod.snd)).Perm
      (c'.normal ++ flight'.map Prod.snd)) :
    Advance code c c' flight flight' ([] ++ [⟨c.db.file, call, a, c'.db.file⟩]) where
  run := .snoc (e := ⟨c.db.file, call, a, c'.db.file⟩) (.nil _) hran
  calls := hcalls

omit [DecidableEq C] in
theorem Advance.trans {c c' c'' : Config S C Call E A} {flight flight' flight'' : List (C × Call × A)}
    {es es' : List (History.Event D Call A)} (h : Advance code c c' flight flight' es)
    (h' : Advance code c' c'' flight' flight'' es') :
    Advance code c c'' flight flight'' (es ++ es') where
  run := h.run.append h'.run
  calls := by
    rw [List.map_append]
    refine (List.perm_append_comm.append_right _).trans ?_
    rw [List.append_assoc]
    exact (h.calls.append_left _).trans h'.calls

/-! ## The steps -/

variable {c c' : Config S C Call E A} {flight : List (C × Call × A)} {t : C}
  {x : Running S Call E A}

omit [DecidableEq C] in
/-- What holds of a call holds after a step of another connection, which leaves the
file as it is unless this call does not write. -/
theorem Holds.frame {db db' : Db D C} {flight' : List (C × Call × A)}
    (h : Holds code db flight t x) (hconn : db'.conn t = db.conn t)
    (hfile : db'.file = db.file ∨ ∀ p, db.conn t ≠ .writing p)
    (hflight : ∀ e ∈ flight, e.1 = t → e ∈ flight') : Holds code db' flight' t x := by
  have hclean : Clean db t → Clean db' t := by
    intro hclean p hp
    rw [hconn] at hp
    rcases hfile with hfile | hnot
    · rw [hfile]
      exact hclean p hp
    · exact absurd hp (hnot p)
  rw [Holds] at h ⊢
  cases hphase : x.phase with
  | fresh =>
      rw [hphase] at h
      exact ⟨hclean h.1, h.2⟩
  | looking =>
      rw [hphase] at h
      exact hclean h
  | writing =>
      rw [hphase] at h
      obtain ⟨p, hp, halone⟩ := h
      rcases hfile with hfile | hnot
      · refine ⟨p, hconn.trans hp, ?_⟩
        rwa [hfile]
      · exact absurd hp (hnot p)
  | committed =>
      rw [hphase] at h
      obtain ⟨hnot, a, halone, hmem⟩ := h
      refine ⟨fun p hp => hnot p (hconn ▸ hp), a, halone, hflight _ hmem rfl⟩
  | never =>
      rw [hphase] at h
      exact h

/-- The calls after the call of `t` has moved. -/
theorem update_some {X : Type} {calls : C → Option X} {t t' : C} {x x' : X}
    (h : Function.update calls t (some x) t' = some x') :
    t' = t ∧ x' = x ∨ t' ≠ t ∧ calls t' = some x' := by
  by_cases hne : t' = t
  · subst hne
    rw [Function.update_self] at h
    cases h
    exact Or.inl ⟨rfl, rfl⟩
  · rw [Function.update_of_ne hne] at h
    exact Or.inr ⟨hne, h⟩

theorem update_none {X : Type} {calls : C → Option X} {t t' : C} {x' : X}
    (h : Function.update calls t none t' = some x') : t' ≠ t ∧ calls t' = some x' := by
  have hne : t' ≠ t := by
    rintro rfl
    rw [Function.update_self] at h
    cases h
  exact ⟨hne, (Function.update_of_ne hne none calls).symm.trans h⟩

/-- The invariant after a step of `t`, whose call comes to `x`. -/
theorem Inv.update {db : Db D C} {flight' : List (C × Call × A)} (h : Inv code c flight)
    (hwriter : OneWriter db) (hconn : ∀ t', t' ≠ t → db.conn t' = c.db.conn t')
    (hfile : db.file = c.db.file ∨ ∀ t' p, t' ≠ t → c.db.conn t' ≠ .writing p)
    (hrest : wp (protocol S) x.rest Ends x.phase) (hcall : Holds code db flight' t x)
    (hkeeps : ∀ e ∈ flight, e ∈ flight')
    (hflying : ∀ e ∈ flight', e ∈ flight ∧ e.1 ≠ t ∨ e.1 = t ∧ x.phase = .committed)
    (hsingle : (flight'.map Prod.fst).Nodup) :
    Inv code ⟨db, Function.update c.calls t (some x), c.returned⟩ flight' where
  writer := hwriter
  idle t' hnone := by
    have hne : t' ≠ t := by
      rintro rfl
      exact Option.some_ne_none x ((Function.update_self t' (some x) c.calls).symm.trans hnone)
    replace hnone := (Function.update_of_ne hne (some x) c.calls).symm.trans hnone
    intro p hp
    change db.conn t' = _ at hp
    rw [hconn t' hne] at hp
    rcases hfile with hfile | hnot
    · exact (h.idle t' hnone p hp).trans hfile.symm
    · exact absurd hp (hnot t' p hne)
  rest t' x' hx := by
    rcases update_some hx with ⟨rfl, rfl⟩ | ⟨-, hx⟩
    · exact hrest
    · exact h.rest t' x' hx
  call t' x' hx := by
    rcases update_some hx with ⟨rfl, rfl⟩ | ⟨hne, hx⟩
    · exact hcall
    · refine (h.call t' x' hx).frame (hconn t' hne) ?_ fun e hmem _ => hkeeps e hmem
      exact hfile.imp_right fun hnot p => hnot t' p hne
  flying e hmem := by
    rcases hflying e hmem with ⟨hmem, hne⟩ | ⟨rfl, hphase⟩
    · obtain ⟨x', hx, hphase⟩ := h.flying e hmem
      exact ⟨x', (Function.update_of_ne hne (some x) c.calls).trans hx, hphase⟩
    · exact ⟨x, Function.update_self .., hphase⟩
  single := hsingle

omit [DecidableEq C] in
/-- A connection whose call has not committed is not in the list. -/
theorem Inv.not_flying (h : Inv code c flight) (hx : c.calls t = some x)
    (hphase : x.phase ≠ .committed) : ∀ e ∈ flight, e.1 ≠ t := by
  rintro e hmem rfl
  obtain ⟨x', hx', hcommitted⟩ := h.flying e hmem
  rw [hx] at hx'
  cases hx'
  exact hphase hcommitted

omit [DecidableEq C] in
theorem Holds.of_looking {db : Db D C} (hphase : x.phase = .looking) (h : Clean db t) :
    Holds code db flight t x := by
  rw [Holds, hphase]
  exact h

omit [DecidableEq C] in
theorem Holds.of_writing {db : Db D C} {p : D} (hphase : x.phase = .writing)
    (hp : db.conn t = .writing p)
    (halone : alone x.rest ⟨db.file, some p⟩ = alone (code x.call) ⟨db.file, none⟩) :
    Holds code db flight t x := by
  rw [Holds, hphase]
  exact ⟨p, hp, halone⟩

/-- Before the lock is taken a fresh call moves as one that has looked. -/
theorem next_of_outside {φ : Phase} (hφ : φ.Outside) (o : Stmt S) (r : o.Res) :
    (protocol S).next φ o r = (protocol S).next .looking o r := by
  rcases hφ with rfl | rfl
  · cases o with
    | select q => rfl
    | change w => cases r <;> rfl
    | insert i => cases r <;> rfl
    | beginImmediate => cases r <;> rfl
    | commit => rfl
    | rollback => rfl
  · rfl

/-- A call outside takes a statement. -/
theorem holds_outside {db db' : Db D C} {o : Stmt S} {k : o.Res → Prog S.sig (Except E A)}
    {r : o.Res} (hphase : x.phase.Outside) (hclean : Clean db t) (hrest : x.rest = .call o k)
    (hexec : Exec t db o r db') (hnot : o ≠ .commit)
    (hlock : (protocol S).next .looking o r = .writing →
      alone x.rest ⟨db.file, none⟩ = alone (code x.call) ⟨db.file, none⟩) :
    Holds code db' flight t (x.next o k r db'.file) := by
  have hnext := next_of_outside hphase o r
  rw [hrest] at hlock
  cases hexec with
  | select hread =>
      refine .of_looking hnext ?_
      cases hread with
      | seen => exact hclean
      | fixed hidle => exact hclean.disturbed (.begun hidle)
  | changed hwrite =>
      obtain ⟨base, d, hw, hd, rfl⟩ := hwrite.done_pending
      obtain rfl := hclean.base hw
      cases hd
      exact .of_writing hnext (Db.setConn_conn_self ..) (hlock rfl)
  | unchanged hwrite =>
      cases hwrite with
      | failed hx => exact .of_looking hnext (hclean.disturbed hx)
  | @insert _ i r hwrite =>
      cases hwrite with
      | @done base d hw hd =>
          obtain rfl := hclean.base hw
          refine .of_writing hnext (Db.setConn_conn_self ..) (Eq.trans ?_ (hlock rfl))
          exact (alone_insert_some k (s := ⟨db.file, none⟩) hd).symm
      | constraint hw => exact .of_looking hnext (hclean.disturbed (.locked hw))
      | failed hx => exact .of_looking hnext (hclean.disturbed hx)
  | begun => exact .of_writing hnext (Db.setConn_conn_self ..) (hlock rfl)
  | refused => exact .of_looking hnext hclean
  | commit => exact absurd rfl hnot
  | rollback => exact .of_looking hnext (.of_ne fun p h => by cases h)

/-- A call that writes takes a statement other than its commit. -/
theorem holds_writing {db db' : Db D C} {o : Stmt S} {k : o.Res → Prog S.sig (Except E A)}
    {r : o.Res} {p : D} (hphase : x.phase = .writing) (hp : db.conn t = .writing p)
    (halone : alone (.call o k) ⟨db.file, some p⟩ = alone (code x.call) ⟨db.file, none⟩)
    (hexec : Exec t db o r db') (hnot : o ≠ .commit) :
    Holds code db' flight t (x.next o k r db'.file) := by
  have hnext : (x.next o k r db'.file).phase = (protocol S).next .writing o r :=
    next_phase hphase
  cases hexec with
  | select hread =>
      cases hread with
      | seen =>
          refine .of_writing hnext hp ?_
          rw [Db.view, hp]
          exact halone
      | fixed hidle =>
          rw [hidle] at hp
          cases hp
  | changed hwrite =>
      obtain ⟨base, d, hw, hd, rfl⟩ := hwrite.done_pending
      obtain rfl := base_of_writing hp hw
      cases hd
      exact .of_writing hnext (Db.setConn_conn_self ..) halone
  | unchanged _ hlock => exact absurd hp (hlock p)
  | @insert _ i r hwrite hlock =>
      cases hwrite with
      | done hw hd =>
          obtain rfl := base_of_writing hp hw
          refine .of_writing hnext (Db.setConn_conn_self ..) (Eq.trans ?_ halone)
          exact (alone_insert_some k (s := ⟨db.file, some _⟩) hd).symm
      | constraint hw hd =>
          obtain rfl := base_of_writing hp hw
          refine .of_writing hnext (Db.setConn_conn_self ..) (Eq.trans ?_ halone)
          exact (alone_insert_none k (s := ⟨db.file, some _⟩) hd).symm
      | failed => exact absurd hp (hlock rfl p)
  | begun hidle =>
      rw [hidle] at hp
      cases hp
  | refused => exact .of_writing hnext hp halone
  | commit => exact absurd rfl hnot
  | rollback => exact .of_looking hnext (.of_ne fun p h => by cases h)

/-- A committed call reads what it committed. -/
theorem holds_committed {db db' : Db D C} {q : S.Query} {k : S.Row q → Prog S.sig (Except E A)}
    {a : S.Row q} (hphase : x.phase = .committed) (h : Holds code db flight t x)
    (hrest : x.rest = .call (.select q) k) (hexec : Exec t db (.select q) a db')
    (hback : S.select q (db.view t) = S.select q x.left) :
    Holds code db' flight t (x.next (.select q) k a db'.file) := by
  have hnext : (x.next (.select q) k a db'.file).phase = .committed :=
    next_phase hphase
  rw [Holds, hphase] at h
  obtain ⟨hnot, b, halone, hmem⟩ := h
  rw [hrest] at halone
  rw [Holds, hnext]
  cases hexec with
  | select hread =>
      refine ⟨?_, b, ?_, hmem⟩
      · cases hread with
        | seen => exact hnot
        | fixed =>
            intro p hp
            rw [Db.setConn_conn_self] at hp
            cases hp
      · rw [hread.result]
        change alone (k (S.select q (db.view t))) ⟨x.left, none⟩ = _
        rw [hback]
        exact halone

/-- A statement other than a commit keeps the invariant and the file. -/
theorem Inv.next {o : Stmt S} {k : o.Res → Prog S.sig (Except E A)} {r : o.Res} {db : Db D C}
    (h : Inv code c flight) (hx : c.calls t = some x) (hrest : x.rest = .call o k)
    (hexec : Exec t c.db o r db) (htimely : Timely code t c.db x o k r) (hnot : o ≠ .commit) :
    Inv code ⟨db, Function.update c.calls t (some (x.next o k r db.file)), c.returned⟩ flight := by
  have hwp := h.rest t x hx
  have hcall := h.call t x hx
  have hfile := hexec.file_eq.resolve_right hnot
  rw [hrest] at hwp
  have hholds : Holds code db flight t (x.next o k r db.file) := by
    cases hphase : x.phase with
    | fresh =>
        rw [Holds, hphase] at hcall
        refine holds_outside (Or.inl hphase) hcall.1 hrest hexec hnot fun _ => ?_
        rw [hcall.2]
    | looking =>
        rw [Holds, hphase] at hcall
        refine holds_outside (Or.inr hphase) hcall hrest hexec hnot fun htakes => ?_
        rw [← htimely.lock hphase htakes]
        exact alone_look _ _
    | writing =>
        rw [Holds, hphase] at hcall
        obtain ⟨p, hp, halone⟩ := hcall
        rw [hrest] at halone
        exact holds_writing hphase hp halone hexec hnot
    | committed =>
        rw [hphase] at hwp
        cases o with
        | select q => exact holds_committed hphase hcall hrest hexec (htimely.back hphase q rfl)
        | change w => exact hwp.1.elim
        | insert i => exact hwp.1.elim
        | beginImmediate => exact hwp.1.elim
        | commit => exact hwp.1.elim
        | rollback => exact hwp.1.elim
    | never =>
        rw [Holds, hphase] at hcall
        exact hcall.elim
  refine h.update (hexec.oneWriter h.writer) (fun t' hne => hexec.conn_ne hne) (Or.inl hfile)
    (hwp.2 r) hholds (fun e hmem => hmem) (fun e hmem => ?_) h.single
  by_cases hphase : x.phase = .committed
  · by_cases he : e.1 = t
    · exact Or.inr ⟨he, next_phase hphase⟩
    · exact Or.inl ⟨hmem, he⟩
  · exact Or.inl ⟨hmem, h.not_flying hx hphase e hmem⟩

omit [DecidableEq C] in
/-- Only a call that writes commits. -/
theorem Inv.phase_commit {k : Unit → Prog S.sig (Except E A)} (h : Inv code c flight)
    (hx : c.calls t = some x) (hrest : x.rest = .call .commit k) : x.phase = .writing := by
  have hwp := h.rest t x hx
  have hcall := h.call t x hx
  rw [hrest] at hwp
  cases hphase : x.phase with
  | fresh =>
      rw [hphase] at hwp
      exact hwp.1.elim
  | looking =>
      rw [hphase] at hwp
      exact hwp.1.elim
  | writing => rfl
  | committed =>
      rw [hphase] at hwp
      exact hwp.1.elim
  | never =>
      rw [Holds, hphase] at hcall
      exact hcall.elim

/-- A commit is the point of its call in the serial order. -/
theorem Inv.commit {k : Unit → Prog S.sig (Except E A)} {db : Db D C} (h : Inv code c flight)
    (hx : c.calls t = some x) (hrest : x.rest = .call .commit k)
    (hcommit : Commit t c.db true db) :
    ∃ a, Ran code x.call c.db.file a db.file ∧
      Inv code ⟨db, Function.update c.calls t (some (x.next .commit k () db.file)), c.returned⟩
        ((t, x.call, a) :: flight) := by
  have hwp := h.rest t x hx
  have hcall := h.call t x hx
  have hphase := h.phase_commit hx hrest
  rw [hrest] at hwp
  rw [Holds, hphase] at hcall
  obtain ⟨p, hp, halone⟩ := hcall
  rw [hphase] at hwp
  have hnew : ∀ e ∈ flight, e.1 ≠ t := h.not_flying hx (by rw [hphase]; decide)
  have hexec : Exec (S := S) t c.db .commit () db := .commit hcommit
  obtain ⟨hfile, hidle⟩ : db.file = p ∧ db.conn t = .idle := by
    cases hcommit with
    | done => exact ⟨by rw [Db.committed, hp], Db.setConn_conn_self ..⟩
  obtain ⟨a, ha⟩ := alone_committed (hwp.2 ()) p
  refine ⟨a, ?_, ?_⟩
  · rw [Ran, ← halone, hrest, hfile]
    exact ha
  · refine h.update (hexec.oneWriter h.writer) (fun t' hne => hexec.conn_ne hne)
      (Or.inr fun t' p' hne hp' => hne (h.writer t' t p' p hp' hp)) ?_ ?_
      (fun e hmem => List.mem_cons_of_mem _ hmem) (fun e hmem => ?_) ?_
    · rw [Running.next, hphase]
      exact hwp.2 ()
    · rw [Holds, Running.next, hphase]
      refine ⟨fun p' hp' => ?_, a, ?_, List.mem_cons_self⟩
      · rw [hidle] at hp'
        cases hp'
      · rw [hfile]
        exact ha
    · rcases List.mem_cons.mp hmem with rfl | hmem
      · exact Or.inr ⟨rfl, next_phase hphase⟩
      · exact Or.inl ⟨hmem, hnew e hmem⟩
    · rw [List.map_cons]
      refine List.nodup_cons.mpr ⟨fun hmem => ?_, h.single⟩
      obtain ⟨e, hmem, he⟩ := List.mem_map.mp hmem
      exact hnew e hmem he

/-- The invariant after the call of `t` has returned. -/
theorem Inv.drop {flight' : List (C × Call × A)} (h : Inv code c flight) (call : Call)
    (r : Except E A) (hclean : Clean c.db t) (hsub : ∀ e ∈ flight', e ∈ flight ∧ e.1 ≠ t)
    (hkeeps : ∀ e ∈ flight, e.1 ≠ t → e ∈ flight') (hsingle : (flight'.map Prod.fst).Nodup) :
    Inv code (c.finish t call r) flight' where
  writer := h.writer
  idle t' hnone := by
    by_cases hne : t' = t
    · rw [hne]
      exact hclean
    · exact h.idle t' ((Function.update_of_ne hne (β := fun _ => _) none c.calls).symm.trans hnone)
  rest t' x' hx := h.rest t' x' (update_none hx).2
  call t' x' hx := by
    obtain ⟨hne, hx⟩ := update_none hx
    exact (h.call t' x' hx).frame rfl (Or.inl rfl) fun e hmem he => hkeeps e hmem (he ▸ hne)
  flying e hmem := by
    obtain ⟨hmem, hne⟩ := hsub e hmem
    obtain ⟨x', hx, hphase⟩ := h.flying e hmem
    exact ⟨x', (Function.update_of_ne hne _ c.calls).trans hx, hphase⟩
  single := hsingle

/-- A call without a transaction raises, or has looked at the file and returns a value
as if it ran now. -/
theorem Inv.finish_outside {r : Except E A} (h : Inv code c flight) (hx : c.calls t = some x)
    (hphase : x.phase.Outside)
    (hlast : ∀ a, r = .ok a → look c.db.file (code x.call) = .ret (.ok a)) :
    ∃ es, Inv code (c.finish t x.call r) flight ∧
      Advance code c (c.finish t x.call r) flight flight es := by
  have hcall := h.call t x hx
  have hclean : Clean c.db t := by
    rw [Holds] at hcall
    rcases hphase with hphase | hphase <;> rw [hphase] at hcall
    · exact hcall.1
    · exact hcall
  have hnew : ∀ e ∈ flight, e.1 ≠ t := by
    refine h.not_flying hx ?_
    rcases hphase with hphase | hphase <;> rw [hphase] <;> decide
  have hinv := h.drop x.call r hclean (fun e hmem => ⟨hmem, hnew e hmem⟩)
    (fun e hmem _ => hmem) h.single
  cases r with
  | error e =>
      refine ⟨[], hinv, .nil _, ?_⟩
      rw [normal_finish_error]
      exact List.Perm.refl _
  | ok a =>
      have hran : Ran code x.call c.db.file a c.db.file := by
        rw [Ran, ← alone_look, hlast a rfl]
        rfl
      refine ⟨_, hinv, .of_ran hran ?_⟩
      rw [normal_finish_ok, List.append_assoc]
      exact List.perm_middle.symm

/-- A call that has committed returns the value it committed with. -/
theorem Inv.finish_committed {r : Except E A} (h : Inv code c flight) (hx : c.calls t = some x)
    (hrest : x.rest = .ret r) (hphase : x.phase = .committed) :
    ∃ flight', Inv code (c.finish t x.call r) flight' ∧
      Advance code c (c.finish t x.call r) flight flight' [] := by
  have hcall := h.call t x hx
  rw [Holds, hphase] at hcall
  obtain ⟨hnot, a, halone, hmem⟩ := hcall
  rw [hrest] at halone
  cases halone
  obtain ⟨front, back, rfl⟩ := List.append_of_mem hmem
  have hperm : (front ++ (t, x.call, a) :: back).Perm ((t, x.call, a) :: (front ++ back)) :=
    List.perm_middle
  obtain ⟨hne, hsingle⟩ := List.nodup_cons.mp ((hperm.map Prod.fst).nodup_iff.mp h.single)
  have hother : ∀ e ∈ front ++ back, e.1 ≠ t := by
    rintro e he rfl
    exact hne (show e.1 ∈ _ from List.mem_map_of_mem he)
  refine ⟨front ++ back, h.drop x.call (.ok a) (fun p hp => absurd hp (hnot p))
    (fun e hmem => ⟨hperm.mem_iff.mpr (List.mem_cons_of_mem _ hmem), hother e hmem⟩)
    (fun e hmem he => ?_) hsingle, .nil _, ?_⟩
  · rcases List.mem_cons.mp (hperm.mem_iff.mp hmem) with rfl | hmem
    · exact absurd rfl he
    · exact hmem
  · rw [normal_finish_ok, List.append_assoc]
    exact (hperm.map Prod.snd).append_left _

/-- **The step.**  A timely step keeps the invariant. -/
theorem Inv.step (hcode : ∀ call, Disciplined (code call)) (h : Inv code c flight)
    (hstep : Step code (Timely code) c c') :
    ∃ es flight', Inv code c' flight' ∧ Advance code c c' flight flight' es := by
  -- A call that has come to `x` goes on, or returns at once.
  have hadvance : ∀ {db : Db D C} {t : C} {x : Running S Call E A} {flight₁ es₁},
      let c₁ : Config S C Call E A := ⟨db, Function.update c.calls t (some x), c.returned⟩
      Inv code c₁ flight₁ → Advance code c c₁ flight flight₁ es₁ →
      (x.phase.Outside → ∀ a, x.rest = .ret (.ok a) →
        look db.file (code x.call) = .ret (.ok a)) →
      ∃ es flight', Inv code (c.advance db t x) flight' ∧
        Advance code c (c.advance db t x) flight flight' es := by
    intro db t x flight₁ es₁ c₁ hinv hfirst hlast
    have hx : c₁.calls t = some x := Function.update_self ..
    cases hrest : x.rest with
    | call o k =>
        have hsame : c.advance db t x = c₁ := by
          rw [Config.advance, hrest]
        rw [hsame]
        exact ⟨es₁, flight₁, hinv, hfirst⟩
    | ret r =>
        have hsame : c.advance db t x = c₁.finish t x.call r := by
          rw [Config.advance, hrest]
        rw [hsame]
        have hwp := hinv.rest t x hx
        rw [hrest] at hwp hlast
        by_cases hout : x.phase.Outside
        · obtain ⟨es₂, hinv', hlast'⟩ := hinv.finish_outside (r := r) hx hout fun a hr =>
            hlast hout a (hr ▸ rfl)
          exact ⟨_, _, hinv', hfirst.trans hlast'⟩
        · obtain ⟨flight', hinv', hlast'⟩ := hinv.finish_committed (r := r) hx hrest (by
            have hcall := hinv.call t x hx
            cases hphase : x.phase with
            | fresh => exact absurd (Or.inl hphase) hout
            | looking => exact absurd (Or.inr hphase) hout
            | writing => rw [hphase] at hwp; exact hwp.elim
            | committed => rfl
            | never => rw [Holds, hphase] at hcall; exact hcall.elim)
          exact ⟨_, _, hinv', hfirst.trans hlast'⟩
  cases hstep with
  | @start t hnone call =>
      have hfree : ∀ e ∈ flight, e.1 ≠ t := by
        rintro e hmem rfl
        obtain ⟨x, hx, -⟩ := h.flying e hmem
        rw [hnone] at hx
        cases hx
      refine hadvance (h.update h.writer (fun _ _ => rfl) (Or.inl rfl) (hcode call)
        ⟨h.idle t hnone, rfl⟩ (fun e hmem => hmem) (fun e hmem => Or.inl ⟨hmem, hfree e hmem⟩)
        h.single) ⟨.nil _, List.Perm.refl _⟩ fun _ a hret => ?_
      rw [show code call = .ret (.ok a) from hret]
      rfl
  | @statement t x o k r db hx hrest hexec htimely =>
      by_cases hcommit : o = .commit
      · subst hcommit
        have hphase := h.phase_commit hx hrest
        cases hexec with
        | commit hcommit =>
            obtain ⟨a, hran, hinv⟩ := h.commit hx hrest hcommit
            refine hadvance hinv (.of_ran hran List.perm_middle.symm) fun hout _ _ => ?_
            rw [next_phase hphase] at hout
            rcases hout with hout | hout <;> cases hout
      · have hfile := hexec.file_eq.resolve_right hcommit
        have hrun : History.Run (Ran code) c.db.file [] db.file := by
          rw [hfile]
          exact .nil _
        refine hadvance (h.next hx hrest hexec htimely hcommit) ⟨hrun, List.Perm.refl _⟩
          fun hout a hret => ?_
        rw [hfile]
        exact htimely.last hout a hret

/-- **Serial order.**  Timely steps keep the invariant, and what they do to the file is a
run of whole calls, each alone: those that returned a value or have committed. -/
theorem Inv.steps (hcode : ∀ call, Disciplined (code call)) (h : Inv code c flight)
    (hsteps : Steps code (Timely code) c c') :
    ∃ es flight', Inv code c' flight' ∧ Advance code c c' flight flight' es := by
  induction hsteps with
  | refl => exact ⟨[], flight, h, .refl _ _⟩
  | tail _ hstep ih =>
      obtain ⟨es, flight₁, hinv, hadvance⟩ := ih
      obtain ⟨es', flight', hinv', hadvance'⟩ := hinv.step hcode hstep
      exact ⟨es ++ es', flight', hinv', hadvance.trans hadvance'⟩

omit [DecidableEq C] in
theorem Inv.start (d : D) : Inv code (Config.start S d : Config S C Call E A) [] where
  writer c c' p p' h := by cases h
  idle t _ p h := by cases h
  rest t x h := by cases h
  call t x h := by cases h
  flying e h := by cases h
  single := List.nodup_nil

/-- **Serializability.**  In every run of timely steps the file is that of a serial
order of the calls that returned a value, and of those that have committed and are
about to return theirs. -/
theorem serializes (hcode : ∀ call, Disciplined (code call)) {d : D} {c : Config S C Call E A}
    (hsteps : Steps code (Timely code) (Config.start S d) c) :
    ∃ es flight, History.Run (Ran code) d es c.db.file ∧
      (es.map fun e => (e.call, e.result)).Perm (c.normal ++ flight.map Prod.snd) ∧
      Inv code c flight := by
  obtain ⟨es, flight, hinv, hrun, hcalls⟩ := (Inv.start d).steps hcode hsteps
  refine ⟨es, flight, hrun, ?_, hinv⟩
  simpa [Config.start, Config.normal] using hcalls

end Invariant

end Serial
