import Mathlib.Logic.Function.Basic
import Mathlib.Logic.Relation
import Mathlib.Tactic.Common

/-!
# Interleaved programs and the protocols they obey

Programs over atomic operations, run by threads of several processes on one
shared world, with processes that crash and restart.

* `Prog` — a program: it returns, or calls an operation and continues with the
  operation's result.
* `Protocol` — which operations a thread may call in a phase, and the phase each
  result leads to; `wp` says that a program keeps to the protocol.
* `System` / `Step` — what an operation does to the world, and the interleaving:
  threads start, take one operation at a time, and die with their process.
* `System.Reachable.phases`, `System.Reachable.phasesTo` — the rule of the library.  A relation between the
  world and the threads' phases that every *allowed* operation preserves holds
  in every reachable configuration of threads whose programs keep to the
  protocol.  The programs themselves are looked at once, in their `wp`.
* `CallsOnly` — the special case of a program whose operations are of one kind.
* `Runs` — a finished run of one program, with its trace; it ends as `wp` says
  (`Runs.wp`).
-/

namespace Concurrent

/-- Atomic operations with the types of their results. -/
structure Sig where
  Op : Type
  Res : Op → Type

variable {S : Sig} {α β Φ : Type}

/-- A program over the operations of `S`. -/
inductive Prog (S : Sig) (α : Type) : Type
  | ret (a : α)
  | call (op : S.Op) (k : S.Res op → Prog S α)

namespace Prog

/-- Run `f` on what the program returns. -/
def bind : Prog S α → (α → Prog S β) → Prog S β
  | ret a, f => f a
  | call op k, f => call op fun r => (k r).bind f

instance : Monad (Prog S) where
  pure := ret
  bind := bind

theorem bind_assoc {γ : Type} (x : Prog S α) (f : α → Prog S β) (g : β → Prog S γ) :
    (x.bind f).bind g = x.bind fun a => (f a).bind g := by
  induction x with
  | ret a => rfl
  | call o k ih => exact congrArg (call o) (funext ih)

theorem bind_ret (x : Prog S α) : x.bind ret = x := by
  induction x with
  | ret a => rfl
  | call o k ih => exact congrArg (call o) (funext ih)

instance : LawfulMonad (Prog S) :=
  LawfulMonad.mk' _ bind_ret (fun _ _ => rfl) bind_assoc

/-- The program that calls one operation. -/
def op (o : S.Op) : Prog S (S.Res o) := call o ret

/-- A program takes up to `k` operations, which `f` answers. -/
def drive {W : Type} (f : W → (o : S.Op) → Option (S.Res o × W)) :
    ℕ → W → Prog S α → W × Prog S α
  | 0, w, p => (w, p)
  | _ + 1, w, .ret a => (w, .ret a)
  | k + 1, w, .call o g =>
      match f w o with
      | some (r, w') => drive f k w' (g r)
      | none => (w, .call o g)

end Prog

/-! ## Protocols -/

/-- The operations allowed in each phase, and the phase after each result. -/
structure Protocol (S : Sig) (Φ : Type) where
  allowed : Φ → S.Op → Prop
  next : Φ → (o : S.Op) → S.Res o → Φ

variable (P : Protocol S Φ)

/-- From phase `φ` the program calls allowed operations only, whatever they
return, and ends in a phase and with a value that satisfy `Q`. -/
def wp : Prog S α → (Φ → α → Prop) → Φ → Prop
  | .ret a, Q, φ => Q φ a
  | .call o k, Q, φ => P.allowed φ o ∧ ∀ r, wp (k r) Q (P.next φ o r)

variable {P}

@[simp] theorem wp_pure (a : α) (Q : Φ → α → Prop) (φ : Φ) :
    wp P (pure a : Prog S α) Q φ ↔ Q φ a := Iff.rfl

theorem wp_op (o : S.Op) (Q : Φ → S.Res o → Prop) (φ : Φ) :
    wp P (Prog.op o) Q φ ↔ P.allowed φ o ∧ ∀ r, Q (P.next φ o r) r := Iff.rfl

/-- The rule of sequencing. -/
theorem wp_bind (x : Prog S α) (f : α → Prog S β) (Q : Φ → β → Prop) (φ : Φ) :
    wp P (x >>= f) Q φ ↔ wp P x (fun φ' a => wp P (f a) Q φ') φ := by
  change wp P (x.bind f) Q φ ↔ _
  induction x generalizing φ with
  | ret a => rfl
  | call o k ih =>
      rw [Prog.bind, wp, wp]
      exact and_congr_right fun _ => forall_congr' fun r => ih r _

/-- The rule of consequence. -/
theorem wp_mono {x : Prog S α} {Q R : Φ → α → Prop} {φ : Φ} (h : wp P x Q φ)
    (hQR : ∀ φ' a, Q φ' a → R φ' a) : wp P x R φ := by
  induction x generalizing φ with
  | ret a => exact hQR φ a h
  | call o k ih => exact ⟨h.1, fun r => ih r (h.2 r)⟩

/-- A phase that allows everything and is never left imposes nothing. -/
theorem wp_of_absorbing {φ : Φ} (hallowed : ∀ o, P.allowed φ o) (hnext : ∀ o r, P.next φ o r = φ)
    (x : Prog S α) (Q : Φ → α → Prop) (hQ : ∀ a, Q φ a) : wp P x Q φ := by
  induction x with
  | ret a => exact hQ a
  | call o k ih =>
      refine ⟨hallowed o, fun r => ?_⟩
      rw [hnext]
      exact ih r

section Exceptions

variable {ε : Type}

/-- `wp` of a program that may raise: `Q` for a return, `E` for an exception. -/
def wpe (P : Protocol S Φ) (x : ExceptT ε (Prog S) α) (Q : Φ → α → Prop) (E : Φ → ε → Prop)
    (φ : Φ) : Prop :=
  wp P x.run (fun φ' r => match r with | .ok a => Q φ' a | .error e => E φ' e) φ

@[simp] theorem wpe_pure (a : α) (Q : Φ → α → Prop) (E : Φ → ε → Prop) (φ : Φ) :
    wpe P (pure a : ExceptT ε (Prog S) α) Q E φ ↔ Q φ a := Iff.rfl

@[simp] theorem wpe_throw (e : ε) (Q : Φ → α → Prop) (E : Φ → ε → Prop) (φ : Φ) :
    wpe P (throw e : ExceptT ε (Prog S) α) Q E φ ↔ E φ e := Iff.rfl

theorem wpe_bind (x : ExceptT ε (Prog S) α) (f : α → ExceptT ε (Prog S) β)
    (Q : Φ → β → Prop) (E : Φ → ε → Prop) (φ : Φ) :
    wpe P (x >>= f) Q E φ ↔ wpe P x (fun φ' a => wpe P (f a) Q E φ') E φ := by
  rw [wpe, wpe]
  change wp P (x.run >>= ExceptT.bindCont f) _ φ ↔ _
  rw [wp_bind]
  refine ⟨fun h => wp_mono h ?_, fun h => wp_mono h ?_⟩ <;>
    rintro φ' (e | a) ha <;> exact ha

theorem wpe_mono {x : ExceptT ε (Prog S) α} {Q R : Φ → α → Prop} {E F : Φ → ε → Prop} {φ : Φ}
    (h : wpe P x Q E φ) (hQR : ∀ φ' a, Q φ' a → R φ' a) (hEF : ∀ φ' e, E φ' e → F φ' e) :
    wpe P x R F φ := by
  refine wp_mono h ?_
  rintro φ' (e | a) ha
  · exact hEF φ' e ha
  · exact hQR φ' a ha

/-- `try x except e: f e`. -/
theorem wpe_tryCatch (x : ExceptT ε (Prog S) α) (f : ε → ExceptT ε (Prog S) α)
    (Q : Φ → α → Prop) (E : Φ → ε → Prop) (φ : Φ) :
    wpe P (tryCatch x f) Q E φ ↔ wpe P x Q (fun φ' e => wpe P (f e) Q E φ') φ := by
  rw [wpe, wpe, ExceptT.run_tryCatch, wp_bind]
  refine ⟨fun h => wp_mono h ?_, fun h => wp_mono h ?_⟩ <;>
    rintro φ' (e | a) ha <;> exact ha

/-- An operation that does not raise. -/
def perform (o : S.Op) : ExceptT ε (Prog S) (S.Res o) := ExceptT.lift (Prog.op o)

@[simp] theorem wpe_perform (o : S.Op) (Q : Φ → S.Res o → Prop) (E : Φ → ε → Prop) (φ : Φ) :
    wpe P (perform o : ExceptT ε (Prog S) _) Q E φ ↔
      P.allowed φ o ∧ ∀ r, Q (P.next φ o r) r := Iff.rfl

/-- Operations that return a value of `Val` or raise. -/
abbrev Sig.raising {O : Type} (ε : Type) (Val : O → Type) : Sig := ⟨O, fun o => Except ε (Val o)⟩

/-- An operation that may raise. -/
def attempt {O : Type} {Val : O → Type} (o : O) : ExceptT ε (Prog (Sig.raising ε Val)) (Val o) :=
  ExceptT.mk (Prog.op (S := Sig.raising ε Val) o)

theorem wpe_attempt {O : Type} {Val : O → Type} {P : Protocol (Sig.raising ε Val) Φ} (o : O)
    (Q : Φ → Val o → Prop) (E : Φ → ε → Prop) (φ : Φ) :
    wpe P (attempt o) Q E φ ↔
      P.allowed φ o ∧ (∀ a, Q (P.next φ o (.ok a)) a) ∧ ∀ e, E (P.next φ o (.error e)) e := by
  refine and_congr_right fun _ => ⟨fun h => ⟨fun a => h (.ok a), fun e => h (.error e)⟩, ?_⟩
  rintro ⟨hQ, hE⟩ (e | a)
  · exact hE e
  · exact hQ a

/-! ### Programs that call operations of a kind only -/

/-- The protocol that allows the operations of a kind, in one phase. -/
def Protocol.only (ok : S.Op → Prop) : Protocol S Unit where
  allowed _ o := ok o
  next _ _ _ := ()

/-- The operations that the code calls are of a kind, whatever they return. -/
def CallsOnly (ok : S.Op → Prop) (x : ExceptT ε (Prog S) α) : Prop :=
  wpe (Protocol.only ok) x (fun _ _ => True) (fun _ _ => True) ()

section CallsOnly

variable {ok : S.Op → Prop}

theorem callsOnly_pure (a : α) : CallsOnly ok (pure a : ExceptT ε (Prog S) α) := trivial

theorem callsOnly_throw (e : ε) : CallsOnly ok (throw e : ExceptT ε (Prog S) α) := trivial

theorem callsOnly_ofExcept (x : Except ε α) :
    CallsOnly ok (MonadExcept.ofExcept x : ExceptT ε (Prog S) α) := by
  cases x <;> trivial

theorem callsOnly_bind {x : ExceptT ε (Prog S) α} {f : α → ExceptT ε (Prog S) β}
    (hx : CallsOnly ok x) (hf : ∀ a, CallsOnly ok (f a)) : CallsOnly ok (x >>= f) := by
  rw [CallsOnly, wpe_bind]
  exact wpe_mono hx (fun _ a _ => hf a) fun _ _ h => h

theorem callsOnly_ofExcept_bind {x : Except ε α} {f : α → ExceptT ε (Prog S) β}
    (h : ∀ a, x = .ok a → CallsOnly ok (f a)) :
    CallsOnly ok ((MonadExcept.ofExcept x : ExceptT ε (Prog S) α) >>= f) := by
  cases x with
  | error e => trivial
  | ok a => exact h a rfl

theorem callsOnly_tryCatch {x : ExceptT ε (Prog S) α} {f : ε → ExceptT ε (Prog S) α}
    (hx : CallsOnly ok x) (hf : ∀ e, CallsOnly ok (f e)) : CallsOnly ok (tryCatch x f) := by
  rw [CallsOnly, wpe_tryCatch]
  exact wpe_mono hx (fun _ _ h => h) fun _ e _ => hf e

end CallsOnly

end Exceptions

/-! ## Finished runs -/

/-- The operations of a run with their results, the first one first. -/
abbrev Trace (S : Sig) := List ((o : S.Op) × S.Res o)

/-- The program returns `a` when its operations are answered as in the trace. -/
inductive Runs : Prog S α → Trace S → α → Prop
  | ret (a : α) : Runs (.ret a) [] a
  | call {o : S.Op} {k : S.Res o → Prog S α} (r : S.Res o) {t : Trace S} {a : α}
      (h : Runs (k r) t a) : Runs (.call o k) (⟨o, r⟩ :: t) a

/-- After the operations of the trace, the rest of the program is `q`. -/
inductive Reaches : Prog S α → Trace S → Prog S α → Prop
  | refl (p : Prog S α) : Reaches p [] p
  | call {o : S.Op} {k : S.Res o → Prog S α} (r : S.Res o) {t : Trace S} {q : Prog S α}
      (h : Reaches (k r) t q) : Reaches (.call o k) (⟨o, r⟩ :: t) q

/-- The phase after the operations of a trace. -/
def Protocol.after (P : Protocol S Φ) (φ : Φ) (t : Trace S) : Φ :=
  t.foldl (fun φ step => P.next φ step.1 step.2) φ

section Runs

variable {p q : Prog S α} {t u v : Trace S} {a a' : α}

/-- A finished run ends as `wp` says. -/
theorem Runs.wp {Q : Φ → α → Prop} {φ : Φ} (hrun : Runs p t a) (h : wp P p Q φ) :
    Q (P.after φ t) a := by
  induction hrun generalizing φ with
  | ret a => exact h
  | call r hrest ih => exact ih (h.2 r)

/-- The rest of a run is a run of the rest. -/
theorem Reaches.runs (h : Reaches p t q) (hrun : Runs p (t ++ u) a) : Runs q u a := by
  induction h with
  | refl p => exact hrun
  | call r hrest ih =>
      cases hrun with
      | call _ hrun => exact ih hrun

/-- What a run of `x` and then of `f` is made of. -/
theorem Runs.bind_inv {x : Prog S α} {f : α → Prog S β} {b : β} (h : Runs (x >>= f) t b) :
    ∃ u v a, t = u ++ v ∧ Runs x u a ∧ Runs (f a) v b := by
  change Runs (x.bind f) t b at h
  induction x generalizing t with
  | ret a => exact ⟨[], t, a, rfl, .ret a, h⟩
  | call o k ih =>
      cases h with
      | call r hrest =>
          obtain ⟨u, v, a, rfl, hx, hf⟩ := ih r hrest
          exact ⟨⟨o, r⟩ :: u, v, a, rfl, .call r hx, hf⟩

/-- Of two runs whose traces begin in the same way, neither goes on where the other one ends. -/
theorem Runs.unique (h : Runs p t a) (h' : Runs p u a') {w : Trace S} (heq : t ++ v = u ++ w) :
    t = u ∧ a = a' ∧ v = w := by
  induction h generalizing u with
  | ret a =>
      cases h' with
      | ret _ => exact ⟨rfl, rfl, heq⟩
  | call r hrest ih =>
      cases h' with
      | @call _ _ r' _ _ hrest' =>
          obtain ⟨hstep, htail⟩ := List.cons.inj heq
          cases hstep
          obtain ⟨rfl, rfl, rfl⟩ := ih hrest' htail
          exact ⟨rfl, rfl, rfl⟩

/-- Once `x` has raised, the handler runs. -/
theorem Runs.handler {ε : Type} {x : ExceptT ε (Prog S) α} {f : ε → ExceptT ε (Prog S) α} {e : ε}
    {r : Except ε α} (h : Runs (tryCatch x f).run (u ++ v) r) (hraised : Runs x.run u (.error e)) :
    Runs (f e).run v r := by
  rw [ExceptT.run_tryCatch] at h
  obtain ⟨u', v', r', heq, hx, hf⟩ := h.bind_inv
  obtain ⟨rfl, rfl, rfl⟩ := hraised.unique hx heq
  exact hf

/-- Every program finishes under any answers. -/
def Prog.play (f : (o : S.Op) → S.Res o) : Prog S α → Trace S × α
  | .ret a => ([], a)
  | .call o k => (⟨o, f o⟩ :: ((k (f o)).play f).1, ((k (f o)).play f).2)

theorem Prog.runs_play (f : (o : S.Op) → S.Res o) (p : Prog S α) :
    Runs p (p.play f).1 (p.play f).2 := by
  induction p with
  | ret a => exact .ret a
  | call o k ih => exact .call (f o) (ih (f o))

theorem Prog.eq_of_mem_play {f : (o : S.Op) → S.Res o} {step : (o : S.Op) × S.Res o}
    (h : step ∈ (p.play f).1) : step.2 = f step.1 := by
  induction p with
  | ret a => cases h
  | call o k ih =>
      rcases List.mem_cons.mp h with rfl | h
      · rfl
      · exact ih (f o) h

end Runs

/-! ## Threads -/

/-- A thread that has not started, one that runs, and one whose process died. -/
inductive Life (α : Type)
  | unborn
  | alive (a : α)
  | dead (a : α)

namespace Life

/-- What a crash of its process does to a thread. -/
def kill : Life α → Life α
  | unborn => unborn
  | alive a => dead a
  | dead a => dead a

/-- Two lives at the same point, with related contents while alive. -/
def Rel (R : α → β → Prop) : Life α → Life β → Prop
  | unborn, unborn => True
  | alive a, alive b => R a b
  | dead _, dead _ => True
  | _, _ => False

theorem Rel.kill {R : α → β → Prop} {x : Life α} {y : Life β} (h : Rel R x y) :
    Rel R x.kill y.kill := by
  cases x <;> cases y <;> trivial

theorem Rel.alive {R : α → β → Prop} {a : α} {y : Life β} (h : Rel R (.alive a) y) :
    ∃ b, y = .alive b ∧ R a b := by
  cases y with
  | unborn => exact h.elim
  | dead b => exact h.elim
  | alive b => exact ⟨b, rfl, h⟩

theorem Rel.unborn {R : α → β → Prop} {y : Life β} (h : Rel R .unborn y) : y = .unborn := by
  cases y with
  | unborn => rfl
  | dead b => exact h.elim
  | alive b => exact h.elim

/-- A thread that is alive after a crash was not in the process. -/
theorem alive_of_kill {T : Type} {ph : T → Life α} {t : T} {p : Prop} [Decidable p] {a : α}
    (h : (if p then (ph t).kill else ph t) = .alive a) : ph t = .alive a := by
  split at h
  · cases hph : ph t <;> rw [hph] at h <;> cases h
  · exact h

theorem unborn_of_kill {T : Type} {ph : T → Life α} {t : T} {p : Prop} [Decidable p]
    (h : (if p then (ph t).kill else ph t) = .unborn) : ph t = .unborn := by
  split at h
  · cases hph : ph t with
    | unborn => rfl
    | alive a => rw [hph] at h; cases h
    | dead a => rw [hph] at h; cases h
  · exact h

theorem update_eq_alive {T : Type} [DecidableEq T] {ph : T → Life α} {t t' : T} {a a' : α} :
    Function.update ph t (.alive a') t' = .alive a ↔
      t' = t ∧ a' = a ∨ t' ≠ t ∧ ph t' = .alive a := by
  by_cases ht : t' = t
  · subst ht
    simp
  · simp [ht]

/-- The update of a living thread to where it is. -/
theorem update_same {T : Type} [DecidableEq T] {ph : T → Life α} {t : T} {a : α}
    (h : ph t = .alive a) : Function.update ph t (.alive a) = ph := by
  rw [← h, Function.update_eq_self]

end Life

/-- What the operations, a crash and the environment do to the world. -/
structure System (S : Sig) where
  World : Type
  Tid : Type
  Pid : Type
  pid : Tid → Pid
  init : World
  exec : World → Tid → (o : S.Op) → S.Res o → World → Prop
  crash : World → Pid → World → Prop
  env : World → World → Prop

namespace System

variable (sys : System S)

/-- The world and the state of every thread. -/
structure Config (α : Type) where
  world : sys.World
  threads : sys.Tid → Life (Prog S α)

/-- One step of the interleaving, for threads that run programs of `main`. -/
inductive Step [DecidableEq sys.Tid] [DecidableEq sys.Pid] (main : Prog S α → Prop) :
    sys.Config α → sys.Config α → Prop
  | op {c : sys.Config α} {t : sys.Tid} {o : S.Op} {k : S.Res o → Prog S α} {r : S.Res o}
      {w : sys.World} (hthread : c.threads t = .alive (.call o k))
      (hexec : sys.exec c.world t o r w) :
      Step main c ⟨w, Function.update c.threads t (.alive (k r))⟩
  | spawn {c : sys.Config α} {t : sys.Tid} {p : Prog S α} (hthread : c.threads t = .unborn)
      (hmain : main p) : Step main c ⟨c.world, Function.update c.threads t (.alive p)⟩
  | crash {c : sys.Config α} {q : sys.Pid} {w : sys.World} (hcrash : sys.crash c.world q w) :
      Step main c ⟨w, fun t => if sys.pid t = q then (c.threads t).kill else c.threads t⟩
  | env {c : sys.Config α} {w : sys.World} (henv : sys.env c.world w) :
      Step main c ⟨w, c.threads⟩

variable [DecidableEq sys.Tid] [DecidableEq sys.Pid]

/-- The configurations that some interleaving leads to. -/
def Reachable (main : Prog S α → Prop) (c : sys.Config α) : Prop :=
  Relation.ReflTransGen (sys.Step main) ⟨sys.init, fun _ => .unborn⟩ c

/-- A relation between the world and the threads' phases that holds at the start
and that every step of threads keeping to the protocol preserves. -/
structure Invariant (P : Protocol S Φ) (φ₀ : Φ)
    (inv : sys.World → (sys.Tid → Life Φ) → Prop) : Prop where
  init : inv sys.init fun _ => .unborn
  op : ∀ {w ph t φ o r w'}, inv w ph → ph t = .alive φ → P.allowed φ o →
    sys.exec w t o r w' → inv w' (Function.update ph t (.alive (P.next φ o r)))
  spawn : ∀ {w ph t}, inv w ph → ph t = .unborn →
    inv w (Function.update ph t (.alive φ₀))
  crash : ∀ {w ph q w'}, inv w ph → sys.crash w q w' →
    inv w' fun t => if sys.pid t = q then (ph t).kill else ph t
  env : ∀ {w ph w'}, inv w ph → sys.env w w' → inv w' ph

variable {sys}

/-- A thread of a reachable configuration takes its next operation. -/
theorem Reachable.op {main : Prog S α → Prop} {c : sys.Config α} (h : sys.Reachable main c)
    (t : sys.Tid) (o : S.Op) (r : S.Res o) {k : S.Res o → Prog S α} {w : sys.World}
    (hthread : c.threads t = .alive (.call o k)) (hexec : sys.exec c.world t o r w) :
    sys.Reachable main ⟨w, Function.update c.threads t (.alive (k r))⟩ :=
  Relation.ReflTransGen.tail h (.op hthread hexec)

/-- A thread that stands before an operation takes it. -/
theorem Reachable.advance {main : Prog S α → Prop} {w w' : sys.World}
    {th : sys.Tid → Life (Prog S α)} {t : sys.Tid} {o : S.Op} {k : S.Res o → Prog S α}
    (h : sys.Reachable main ⟨w, Function.update th t (.alive (.call o k))⟩) (r : S.Res o)
    (hexec : sys.exec w t o r w') :
    sys.Reachable main ⟨w', Function.update th t (.alive (k r))⟩ := by
  have hnext := h.op t o r (Function.update_self t _ th) hexec
  rwa [Function.update_idem] at hnext

/-- A thread starts in a reachable configuration. -/
theorem Reachable.spawn {main : Prog S α → Prop} {c : sys.Config α} (h : sys.Reachable main c)
    (t : sys.Tid) {p : Prog S α} (hthread : c.threads t = .unborn) (hmain : main p) :
    sys.Reachable main ⟨c.world, Function.update c.threads t (.alive p)⟩ :=
  Relation.ReflTransGen.tail h (.spawn hthread hmain)

/-- A thread of a reachable configuration takes up to `k` operations in a row. -/
theorem Reachable.drive {main : Prog S α → Prop} (t : sys.Tid)
    {f : sys.World → (o : S.Op) → Option (S.Res o × sys.World)}
    (hf : ∀ {w o r w'}, f w o = some (r, w') → sys.exec w t o r w') (k : ℕ)
    {c : sys.Config α} {p : Prog S α} (h : sys.Reachable main c)
    (hthread : c.threads t = .alive p) :
    sys.Reachable main ⟨(p.drive f k c.world).1,
      Function.update c.threads t (.alive (p.drive f k c.world).2)⟩ := by
  induction k generalizing c p with
  | zero =>
      rw [Prog.drive, Life.update_same hthread]
      exact h
  | succ k ih =>
      cases p with
      | ret a =>
          rw [Prog.drive, Life.update_same hthread]
          exact h
      | call o g =>
          rw [Prog.drive.eq_def]
          dsimp only
          cases hr : f c.world o with
          | none =>
              rw [Life.update_same hthread]
              exact h
          | some rw' =>
              obtain ⟨r, w'⟩ := rw'
              have hnext := ih (h.op t o r hthread (hf hr)) (Function.update_self t _ _)
              rwa [Function.update_idem] at hnext

/-- The phases of a reachable configuration, of threads that end as `Q` says. -/
theorem Reachable.phasesTo {P : Protocol S Φ} {φ₀ : Φ} {Q : Φ → α → Prop}
    {inv : sys.World → (sys.Tid → Life Φ) → Prop} {main : Prog S α → Prop}
    (hinv : sys.Invariant P φ₀ inv) (hmain : ∀ p, main p → wp P p Q φ₀)
    {c : sys.Config α} (h : sys.Reachable main c) :
    ∃ ph, inv c.world ph ∧ ∀ t, Life.Rel (fun p φ => wp P p Q φ) (c.threads t) (ph t) := by
  induction h with
  | refl => exact ⟨_, hinv.init, fun _ => trivial⟩
  | tail _ hstep ih =>
      obtain ⟨ph, hw, hrel⟩ := ih
      cases hstep with
      | @op t o k r w hthread hexec =>
          obtain ⟨φ, hph, hallowed, hrest⟩ := (hthread ▸ hrel t).alive
          refine ⟨_, hinv.op hw hph hallowed hexec, fun t' => ?_⟩
          by_cases htt : t' = t
          · subst htt
            simp only [Function.update_self]
            exact hrest r
          · simp only [Function.update_of_ne htt]
            exact hrel t'
      | @spawn t p hthread hp =>
          refine ⟨_, hinv.spawn hw (hthread ▸ hrel t).unborn, fun t' => ?_⟩
          by_cases htt : t' = t
          · subst htt
            simp only [Function.update_self]
            exact hmain p hp
          · simp only [Function.update_of_ne htt]
            exact hrel t'
      | crash hcrash =>
          refine ⟨_, hinv.crash hw hcrash, fun t => ?_⟩
          dsimp only
          split
          · exact (hrel t).kill
          · exact hrel t
      | env henv => exact ⟨ph, hinv.env hw henv, hrel⟩

/-- **Every reachable configuration has phases.**  The threads' remaining
programs keep to the protocol from them, and the world is related to them. -/
theorem Reachable.phases {P : Protocol S Φ} {φ₀ : Φ}
    {inv : sys.World → (sys.Tid → Life Φ) → Prop} {main : Prog S α → Prop}
    (hinv : sys.Invariant P φ₀ inv) (hmain : ∀ p, main p → wp P p (fun _ _ => True) φ₀)
    {c : sys.Config α} (h : sys.Reachable main c) :
    ∃ ph, inv c.world ph ∧
      ∀ t, Life.Rel (fun p φ => wp P p (fun _ _ => True) φ) (c.threads t) (ph t) :=
  h.phasesTo hinv hmain

end System

end Concurrent
