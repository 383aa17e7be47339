import Mathlib.Data.List.Basic
import Mathlib.Tactic.Common

/-!
# Dialogues

Code that asks its environment questions and goes on with the answers, over
arbitrary questions.  The environment is anything: what it answers to one question
binds it to nothing for the next.

## Main definitions

* `Dialogue` — code, as the questions it asks.
* `Reaches x t y` — after the exchanges `t`, the latest first, what is left of `x` is `y`.
* `Holds ok post t x` — from `t` on, `x` asks only what `ok` admits after what was
  exchanged before, and ends only with what `post` admits.
* `Under good post x` — in an environment whose answers are good, `x` ends only with what
  `post` admits.

`Holds` has one rule for each way to build a dialogue; `Holds.asked` and `Holds.ended` say
what it means for every environment.
-/

/-- Code with questions in `Q`, answers to `q` in `A q`, and a result in `α`. -/
inductive Dialogue (Q : Type) (A : Q → Type) (α : Type)
  | done (a : α)
  | ask (q : Q) (next : A q → Dialogue Q A α)

namespace Dialogue

variable {Q : Type} {A : Q → Type} {α β : Type}

/-- Continue with the result. -/
def bind : Dialogue Q A α → (α → Dialogue Q A β) → Dialogue Q A β
  | done a, k => k a
  | ask q next, k => ask q fun r => (next r).bind k

instance : Monad (Dialogue Q A) where
  pure := done
  bind := bind

/-- One question. -/
def query (q : Q) : Dialogue Q A (A q) := ask q done

/-- A question and its answer. -/
abbrev Exchange (Q : Type) (A : Q → Type) := (q : Q) × A q

/-- The first dialogue goes on as the second one after the exchanges, the latest first. -/
inductive Reaches : Dialogue Q A α → List (Exchange Q A) → Dialogue Q A α → Prop
  | refl (x : Dialogue Q A α) : Reaches x [] x
  | answer {x : Dialogue Q A α} {t : List (Exchange Q A)} {q : Q} {next : A q → Dialogue Q A α}
      (h : Reaches x t (ask q next)) (r : A q) : Reaches x (⟨q, r⟩ :: t) (next r)

/-- After the exchanges `t` the code asks only what `ok` admits, and what it ends with is
as `post` says. -/
def Holds (ok : List (Exchange Q A) → Q → Prop) (post : List (Exchange Q A) → α → Prop) :
    List (Exchange Q A) → Dialogue Q A α → Prop
  | t, done a => post t a
  | t, ask q next => ok t q ∧ ∀ r, Holds ok post (⟨q, r⟩ :: t) (next r)

variable {ok : List (Exchange Q A) → Q → Prop} {post post' : List (Exchange Q A) → α → Prop}
  {t : List (Exchange Q A)}

/-! ## Rules -/

@[simp] theorem holds_pure {a : α} : (pure a : Dialogue Q A α).Holds ok post t ↔ post t a := Iff.rfl

theorem holds_query_bind {q : Q} {k : A q → Dialogue Q A α} :
    (query q >>= k).Holds ok post t ↔ ok t q ∧ ∀ r, (k r).Holds ok post (⟨q, r⟩ :: t) := Iff.rfl

theorem holds_bind {x : Dialogue Q A β} {k : β → Dialogue Q A α} :
    (x >>= k).Holds ok post t ↔ x.Holds ok (fun t' b => (k b).Holds ok post t') t := by
  change (x.bind k).Holds ok post t ↔ _
  induction x generalizing t with
  | done b => rfl
  | ask q next ih => exact and_congr_right fun _ => forall_congr' fun r => ih r

/-- What a dialogue ends with is among what a weaker postcondition admits. -/
theorem Holds.mono {x : Dialogue Q A α} (h : x.Holds ok post t)
    (hpost : ∀ t a, post t a → post' t a) : x.Holds ok post' t := by
  induction x generalizing t with
  | done a => exact hpost t a h
  | ask q next ih => exact ⟨h.1, fun r => ih r (h.2 r)⟩

/-- A fact of the exchanges that later exchanges keep is there at the end. -/
theorem Holds.keep {x : Dialogue Q A α} (h : x.Holds ok post t)
    (P : List (Exchange Q A) → Prop) (hP : P t) (hkeep : ∀ e t, P t → P (e :: t)) :
    x.Holds ok (fun t a => P t ∧ post t a) t := by
  induction x generalizing t with
  | done a => exact ⟨hP, h⟩
  | ask q next ih => exact ⟨h.1, fun r => ih r (h.2 r) (hkeep _ t hP)⟩

theorem holds_trivial (x : Dialogue Q A α) : x.Holds (fun _ _ => True) (fun _ _ => True) t := by
  induction x generalizing t with
  | done a => trivial
  | ask q next ih => exact ⟨trivial, fun r => ih r⟩

/-- Continuations that agree on what a dialogue may end with make the same dialogue. -/
theorem bind_congr {x : Dialogue Q A β} {k k' : β → Dialogue Q A α}
    (h : x.Holds ok (fun _ b => k b = k' b) t) : (x >>= k) = (x >>= k') := by
  change x.bind k = x.bind k'
  induction x generalizing t with
  | done b => exact h
  | ask q next ih =>
      rw [bind, bind]
      congr 1
      funext r
      exact ih r (h.2 r)

/-! ## Every environment -/

theorem Holds.reaches {x y : Dialogue Q A α} (h : x.Holds ok post []) (hxy : Reaches x t y) :
    y.Holds ok post t := by
  induction hxy with
  | refl => exact h
  | answer _ r ih => exact ih.2 r

/-- Every question is one the specification admits, whatever was answered before it. -/
theorem Holds.asked {x : Dialogue Q A α} {q : Q} {next : A q → Dialogue Q A α}
    (h : x.Holds ok post []) (hxy : Reaches x t (ask q next)) : ok t q := (h.reaches hxy).1

/-- Every result is one the specification admits. -/
theorem Holds.ended {x : Dialogue Q A α} {a : α} (h : x.Holds ok post [])
    (hxy : Reaches x t (done a)) : post t a := h.reaches hxy

/-! ## Good environments -/

/-- In an environment whose every exchange is good, what the code ends with is as `post`
says. -/
def Under (good : Exchange Q A → Prop) (post : α → Prop) : Dialogue Q A α → Prop
  | done a => post a
  | ask q next => ∀ r, good ⟨q, r⟩ → Under good post (next r)

variable {good : Exchange Q A → Prop} {post₁ post₂ : α → Prop}

theorem under_query_bind {q : Q} {k : A q → Dialogue Q A α} :
    (query q >>= k).Under good post₁ ↔ ∀ r, good ⟨q, r⟩ → (k r).Under good post₁ := Iff.rfl

theorem under_bind {x : Dialogue Q A β} {k : β → Dialogue Q A α} :
    (x >>= k).Under good post₁ ↔ x.Under good fun b => (k b).Under good post₁ := by
  change (x.bind k).Under good post₁ ↔ _
  induction x with
  | done b => rfl
  | ask q next ih => exact forall_congr' fun r => imp_congr_right fun _ => ih r

theorem Under.mono {x : Dialogue Q A α} (h : x.Under good post₁) (hpost : ∀ a, post₁ a → post₂ a) :
    x.Under good post₂ := by
  induction x with
  | done a => exact hpost a h
  | ask q next ih => exact fun r hr => ih r (h r hr)

theorem Under.reaches {x y : Dialogue Q A α} (h : x.Under good post₁) (hxy : Reaches x t y)
    (ht : ∀ e ∈ t, good e) : y.Under good post₁ := by
  induction hxy with
  | refl => exact h
  | answer _ r ih =>
      obtain ⟨hlast, hbefore⟩ := List.forall_mem_cons.mp ht
      exact ih hbefore r hlast

/-! ## One environment -/

/-- One more exchange with an environment that answers each question its own way. -/
def advance (answer : (q : Q) → A q) :
    List (Exchange Q A) × Dialogue Q A α → List (Exchange Q A) × Dialogue Q A α
  | (t, done a) => (t, done a)
  | (t, ask q next) => (⟨q, answer q⟩ :: t, next (answer q))

/-- So many exchanges with it, and what is left. -/
def play (answer : (q : Q) → A q) :
    ℕ → Dialogue Q A α → List (Exchange Q A) × Dialogue Q A α
  | 0, x => ([], x)
  | n + 1, x => advance answer (play answer n x)

theorem Reaches.advance {x : Dialogue Q A α} {p : List (Exchange Q A) × Dialogue Q A α}
    (h : Reaches x p.1 p.2) (answer : (q : Q) → A q) :
    Reaches x (advance answer p).1 (advance answer p).2 := by
  obtain ⟨t, y⟩ := p
  cases y with
  | done a => exact h
  | ask q next => exact h.answer (answer q)

/-- The exchanges are with it. -/
theorem answer_of_mem_play {answer : (q : Q) → A q} {n : ℕ} {x : Dialogue Q A α} {e : Exchange Q A}
    (h : e ∈ (play answer n x).1) : e.2 = answer e.1 := by
  induction n generalizing e with
  | zero => cases h
  | succ n ih =>
      rw [play] at h
      generalize play answer n x = p at h ih
      obtain ⟨t, y⟩ := p
      cases y with
      | done a => exact ih h
      | ask q next =>
          rcases List.mem_cons.mp h with rfl | h
          · rfl
          · exact ih h

theorem reaches_play (answer : (q : Q) → A q) (n : ℕ) (x : Dialogue Q A α) :
    Reaches x (play answer n x).1 (play answer n x).2 := by
  induction n with
  | zero => exact .refl x
  | succ n ih => exact ih.advance answer

end Dialogue
