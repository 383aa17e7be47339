import Signal402.Lib.Concurrent
import Signal402.Lib.Sqlite
import Signal402.Base.Text
import Signal402.Pq.LogRuns

/-!
# Issuing receipts (`pq/receipt.py`, `save_checkpoint` of `pq/store.py`)

`issue` as a program over atomic operations: one for each function of the store
that it calls, and one for the signer.  Each of these holds the store's lock
from its first statement to its last, and `issue` itself holds no lock, so any
number of calls interleave between them.

* `LogOp` — the functions on the log, which run on the one connection.
* `Grown` — what other callers do to the log, and what a function of the log
  leaves when it raises or its process dies.
* `system` — any number of calls on one store, whose steps meet a condition.
-/

namespace Signal402.Issue

open LogStore Merkle Concurrent

/-! ## Operations -/

/-- A function of the store on the log. -/
inductive LogOp
  | leafAt (idx : ℕ)
  | publishUpTo (treeSize : ℕ)
  | readyToCheckpoint (treeSize : ℕ)
  | root (treeSize : ℕ)
  | inclusionPath (idx treeSize : ℕ)

abbrev LogOp.Res : LogOp → Type
  | .leafAt _ => Option LeafRow
  | .publishUpTo _ => Unit
  | .readyToCheckpoint _ => Bool
  | .root _ => Bytes
  | .inclusionPath .. => List Bytes

/-- What the function runs. -/
def LogOp.code : (o : LogOp) → Eff Log o.Res
  | .leafAt idx => .reads fun s => s.leaves[idx]?
  | .publishUpTo treeSize => LogStore.publishUpTo treeSize
  | .readyToCheckpoint treeSize => LogStore.readyToCheckpoint (some (treeSize : ℤ))
  | .root treeSize => LogStore.root (some (treeSize : ℤ))
  | .inclusionPath idx treeSize => LogStore.inclusionPath idx (some (treeSize : ℤ))

/-- A signed checkpoint.  Its text is the three lines of the body and the line of
the signature. -/
structure Note where
  origin : PyStr
  treeSize : ℕ
  root : Bytes
  signature : Bytes

inductive Op
  | logEnabled
  | append (raw : Bytes)
  | log (o : LogOp)
  | signer
  | origin
  | sign (origin : PyStr) (treeSize : ℕ) (root : Bytes)
  | writeCheckpoint (treeSize : ℕ) (note : Note)

/-- What an operation returns. -/
abbrev Op.Val : Op → Type
  | .logEnabled => Bool
  | .append _ => Appended
  | .log o => o.Res
  | .signer => Bool
  | .origin => PyStr
  | .sign .. => Bytes
  | .writeCheckpoint .. => Unit

abbrev sig : Sig := Sig.raising PyError Op.Val

/-- Code of the modules: it may raise. -/
abbrev Code := ExceptT PyError (Prog sig)

/-- An operation of the code. -/
def call (o : Op) : Code o.Val := attempt o

def receiptError {A : Type} (msg : String) : Code A := throw ⟨.receiptError, msg⟩

/-! ## The functions -/

/-- Durable append only.  The body is the leaf that `events.leaf_bytes` made. -/
def appendEvent (raw : Bytes) : Code Appended := do
  if !(← call .logEnabled) then receiptError "pq log unavailable"
  let rec_ ← call (.append raw)
  match ← call (.log (.leafAt rec_.idx)) with
  | none => receiptError "leaf not durable"
  | some _ =>
      call (.log (.publishUpTo rec_.size))
      return rec_

/-- `ORIGIN`, which stands for an empty origin. -/
def defaultOrigin : PyStr := "402signal.com/pq/log"

/-- The checks of `checkpoint_body`; the decimal text of a size has no leading zeroes. -/
def checkpointBody (origin : PyStr) (root : Bytes) : Except PyError Unit := do
  if origin = [] ∨ CodePoint.ofChar '\n' ∈ origin then throw (PyError.valueError "invalid origin")
  if root.length ≠ hashSize then throw (PyError.valueError "root must be 32 bytes")

def signCheckpoint (origin : PyStr) (treeSize : ℕ) (root : Bytes) : Code Note := do
  let name := if origin = [] then defaultOrigin else origin
  MonadExcept.ofExcept (checkpointBody name root)
  let signature ← call (.sign name treeSize root)
  return ⟨name, treeSize, root, signature⟩

def saveCheckpoint (treeSize : ℕ) (note : Note) : Code Unit := do
  if !(← call (.log (.readyToCheckpoint treeSize))) then
    throw (PyError.valueError "refusing to checkpoint a size with missing tiles/bundles")
  call (.writeCheckpoint treeSize note)

/-- A receipt. -/
structure Receipt where
  index : ℕ
  inclusionPath : List Bytes
  checkpoint : Note
  checkpointSize : ℕ
  leafHash : Bytes

/-- Durable append, then sign. -/
def issue (raw : Bytes) : Code Receipt := do
  let rec_ ← appendEvent raw
  if !(← call (.log (.readyToCheckpoint rec_.size))) then
    receiptError "tiles/bundles missing; refusing to sign"
  if !(← call .signer) then receiptError "pq log unavailable"
  let root ← call (.log (.root rec_.size))
  let origin ← call .origin
  let note ← signCheckpoint origin rec_.size root
  saveCheckpoint rec_.size note
  let path ← call (.log (.inclusionPath rec_.idx rec_.size))
  if !verifyInclusion rec_.idx rec_.leafHash path root rec_.size then
    receiptError "inclusion proof failed"
  return ⟨rec_.idx, path, note, rec_.size, rec_.leafHash⟩

/-! ## The store -/

structure Store where
  log : Log
  /-- The rows of `checkpoints`. -/
  checkpoints : ℕ → Option Note
  /-- The row `checkpoint` of `meta`, which readers are served as the latest. -/
  latest : Option Note

def Store.saveCheckpoint (n : ℕ) (note : Note) (s : Store) : Store :=
  { s with
    checkpoints := fun m => if m = n then some note else s.checkpoints m
    latest := some note }

/-- The store, with the appends of the calls in the order of their commits, the
last one first, and the calls whose checkpoint was written. -/
structure World (Tid : Type) where
  store : Store
  appends : List (Tid × ℕ)
  saves : List Tid

section World

variable {Tid : Type}

def World.setLog (w : World Tid) (s : Log) : World Tid :=
  { w with store := { w.store with log := s } }

/-- A call has appended, and found the log of size `n`. -/
def World.appended (w : World Tid) (t : Tid) (n : ℕ) (s : Log) : World Tid :=
  { w.setLog s with appends := (t, n) :: w.appends }

/-- A call has written its checkpoint. -/
def World.saved (t : Tid) (n : ℕ) (note : Note) (w : World Tid) : World Tid :=
  { w with store := w.store.saveCheckpoint n note, saves := t :: w.saves }

/-- Leaves were added and tiles published. -/
def Grown (s s' : Log) : Prop := Grows s s' ∧ ∃ bodies, Published bodies s'

/-- What an operation of thread `t` does. -/
def Does (w : World Tid) (t : Tid) : (o : Op) → Except PyError o.Val → World Tid → Prop
  | .append raw, r, w' =>
      (∃ rec_ s, exec (LogStore.append raw) w.store.log = (.ok rec_, s) ∧
        r = .ok rec_ ∧ w' = w.appended t rec_.size s) ∨
      ∃ e s, r = .error e ∧ Grown w.store.log s ∧ w' = w.setLog s
  | .log o, r, w' =>
      (∃ s, exec o.code w.store.log = (r, s) ∧ w' = w.setLog s) ∨
      ∃ e s, r = .error e ∧ Grown w.store.log s ∧ w' = w.setLog s
  | .writeCheckpoint n note, r, w' =>
      Sqlite.Transact (fun w => .ok ((), w.saved t n note)) w r w'
  | _, _, w' => w' = w

/-- Any number of calls on a new store, whose steps all meet the condition `guard`.
Other callers append and publish at any time, and so may a call whose process dies. -/
def system (Tid : Type) (guard : World Tid → Tid → Op → Prop) : System sig where
  World := World Tid
  Tid := Tid
  Pid := Tid
  pid := id
  init := ⟨⟨Log.empty, fun _ => none, none⟩, [], []⟩
  exec w t o r w' := guard w t o ∧ Does w t o r w'
  crash w _ w' := w' = w
  env w w' := ∃ s, Grown w.store.log s ∧ w' = w.setLog s

instance {guard : World Tid → Tid → Op → Prop} [DecidableEq Tid] :
    DecidableEq (system Tid guard).Tid := inferInstanceAs (DecidableEq Tid)

instance {guard : World Tid → Tid → Op → Prop} [DecidableEq Tid] :
    DecidableEq (system Tid guard).Pid := inferInstanceAs (DecidableEq Tid)

end World

end Signal402.Issue
