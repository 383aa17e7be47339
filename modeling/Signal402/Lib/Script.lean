import Mathlib.Data.List.Basic
import Mathlib.Tactic.Common

/-!
# Scripts

Code that works on a state one point at a time, over arbitrary types.  A point is
a statement sent to a database, or a conversion between two of them; what follows
it depends on the state it found, and it may raise instead of taking effect.

## Main definitions

* `Script` — code, as the points it passes.
* `run` — the result and the state of a run in which nothing raises.
* `upTo` — the state in which a run leaves off when the point after `n` raises.
* `Session` — the contents of a database file, and the contents its one connection
  works on, which differ from the file while a transaction is open.

`Leaves` says that a run leaves a part of the state as it is, with one rule for each
way to build a script.
-/

/-- Code on a state `σ` with the result `α`. -/
inductive Script (σ α : Type)
  | done (a : α)
  | point (f : σ → σ) (next : σ → Script σ α)

namespace Script

variable {σ α β γ : Type}

/-- Continue with the result. -/
def bind : Script σ α → (α → Script σ β) → Script σ β
  | done a, k => k a
  | point f next, k => point f fun s => (next s).bind k

instance : Monad (Script σ) where
  pure := done
  bind := bind

@[simp] theorem pure_bind (a : α) (k : α → Script σ β) : (Pure.pure a >>= k) = k a := rfl

/-- One point that changes the state. -/
def step (f : σ → σ) : Script σ Unit := point f fun _ => done ()

/-- One point that reads the state. -/
def look (f : σ → α) : Script σ α := point id fun s => done (f s)

/-- One point that only computes. -/
def convert (a : α) : Script σ α := point id fun _ => done a

/-- One point that changes the state and reports on it. -/
def stepLook (f : σ → σ) (g : σ → α) : Script σ α := point f fun s => done (g s)

/-- The result and the state when nothing raises. -/
def run : Script σ α → σ → α × σ
  | done a, s => (a, s)
  | point f next, s => (next s).run (f s)

/-- The state when the point that follows the first `n` raises. -/
def upTo : ℕ → Script σ α → σ → σ
  | 0, _, s => s
  | _ + 1, done _, s => s
  | n + 1, point f next, s => upTo n (next s) (f s)

/-- The number of points of a run. -/
def points : Script σ α → σ → ℕ
  | done _, _ => 0
  | point f next, s => (next s).points (f s) + 1

@[simp] theorem run_pure (a : α) (s : σ) : (pure a : Script σ α).run s = (a, s) := rfl

@[simp] theorem run_step (f : σ → σ) (s : σ) : (step f).run s = ((), f s) := rfl

@[simp] theorem run_look (f : σ → α) (s : σ) : (look f).run s = (f s, s) := rfl

@[simp] theorem run_convert (a : α) (s : σ) : (convert a : Script σ α).run s = (a, s) := rfl

@[simp] theorem run_stepLook (f : σ → σ) (g : σ → α) (s : σ) :
    (stepLook f g).run s = (g s, f s) := rfl

@[simp] theorem run_bind (x : Script σ α) (k : α → Script σ β) (s : σ) :
    (x >>= k).run s = (k (x.run s).1).run (x.run s).2 := by
  change (x.bind k).run s = _
  induction x generalizing s with
  | done a => rfl
  | point f next ih => exact ih s (f s)

/-! ## Loops -/

@[simp] theorem run_forM_nil (k : α → Script σ PUnit) (s : σ) :
    (([] : List α).forM k).run s = (⟨⟩, s) := rfl

@[simp] theorem run_forM_cons (x : α) (xs : List α) (k : α → Script σ PUnit) (s : σ) :
    ((x :: xs).forM k).run s = (xs.forM k).run ((k x).run s).2 := by
  change (k x >>= fun _ => xs.forM k).run s = _
  rw [run_bind]

/-- A loop runs its body on the elements in their order. -/
theorem run_forM (xs : List α) (k : α → Script σ PUnit) (s : σ) :
    (xs.forM k).run s = (⟨⟩, xs.foldl (fun s x => ((k x).run s).2) s) := by
  induction xs generalizing s with
  | nil => rfl
  | cons x rest ih => rw [run_forM_cons, ih, List.foldl_cons]

/-! ## Leaving off -/

@[simp] theorem upTo_zero (x : Script σ α) (s : σ) : upTo 0 x s = s := by
  cases x <;> rfl

/-- A run that passes all its points ends where it ends. -/
theorem upTo_points (x : Script σ α) (s : σ) : upTo (x.points s) x s = (x.run s).2 := by
  induction x generalizing s with
  | done a => rfl
  | point f next ih => exact ih s (f s)

/-- A sequence leaves off in its first part or in what follows it. -/
theorem upTo_bind (n : ℕ) (x : Script σ α) (k : α → Script σ β) (s : σ) :
    upTo n (x >>= k) s =
      if n ≤ x.points s then upTo n x s
      else upTo (n - x.points s) (k (x.run s).1) (x.run s).2 := by
  change upTo n (x.bind k) s = _
  induction x generalizing n s with
  | done a =>
      cases n with
      | zero => simp [points]
      | succ n => rfl
  | point f next ih =>
      cases n with
      | zero => simp
      | succ n =>
          rw [bind, upTo, ih, points, run]
          simp only [Nat.add_le_add_iff_right, Nat.add_sub_add_right]
          rfl

/-! ## Failures

What a point leaves to a run that it ends. -/

@[simp] theorem points_pure (a : α) (s : σ) : (pure a : Script σ α).points s = 0 := rfl

theorem points_bind (x : Script σ α) (k : α → Script σ β) (s : σ) :
    (x >>= k).points s = x.points s + (k (x.run s).1).points (x.run s).2 := by
  change (x.bind k).points s = _
  induction x generalizing s with
  | done a => exact (Nat.zero_add _).symm
  | point f next ih =>
      show ((next s).bind k).points (f s) + 1 = (next s).points (f s) + 1 + _
      rw [ih, Nat.add_right_comm]
      rfl

theorem points_bind_pos {x : Script σ α} {k : α → Script σ β} (hk : ∀ a s, 0 < (k a).points s)
    (s : σ) : 0 < (x >>= k).points s := by
  rw [points_bind]
  exact Nat.add_pos_right _ (hk _ _)

/-- No point of the run changes the state. -/
def Quiet : Script σ α → σ → Prop
  | done _, _ => True
  | point f next, s => f s = s ∧ (next s).Quiet s

section Quiet

variable {s : σ}

@[simp] theorem quiet_pure (a : α) : (pure a : Script σ α).Quiet s := trivial

@[simp] theorem quiet_step {f : σ → σ} : (step f).Quiet s ↔ f s = s :=
  iff_of_eq (and_true _)

@[simp] theorem quiet_stepLook {f : σ → σ} {g : σ → α} : (stepLook f g).Quiet s ↔ f s = s :=
  iff_of_eq (and_true _)

@[simp] theorem quiet_look (g : σ → α) : (look g).Quiet s := ⟨rfl, trivial⟩

@[simp] theorem quiet_convert (a : α) : (convert a : Script σ α).Quiet s := ⟨rfl, trivial⟩

theorem Quiet.run {x : Script σ α} (h : x.Quiet s) : (x.run s).2 = s := by
  induction x generalizing s with
  | done a => rfl
  | point f next ih =>
      obtain ⟨hf, hnext⟩ := h
      show ((next s).run (f s)).2 = s
      rw [hf]
      exact ih s hnext

theorem quiet_bind {x : Script σ α} {k : α → Script σ β} :
    (x >>= k).Quiet s ↔ x.Quiet s ∧ (k (x.run s).1).Quiet s := by
  change (x.bind k).Quiet s ↔ _
  induction x generalizing s with
  | done a => exact (iff_of_eq (true_and _)).symm
  | point f next ih =>
      show f s = s ∧ ((next s).bind k).Quiet s ↔
        (f s = s ∧ (next s).Quiet s) ∧ (k ((next s).run (f s)).1).Quiet s
      rw [ih, and_assoc]
      refine and_congr_right fun hf => ?_
      rw [hf]

theorem quiet_forM {xs : List α} {k : α → Script σ PUnit} :
    (xs.forM k).Quiet s ↔ ∀ a ∈ xs, (k a).Quiet s := by
  induction xs with
  | nil => exact ⟨fun _ a ha => absurd ha List.not_mem_nil, fun _ => trivial⟩
  | cons a rest ih =>
      show (k a >>= fun _ => rest.forM k).Quiet s ↔ _
      rw [quiet_bind, ih, List.forall_mem_cons]

/-- A run is quiet when it leaves the state as it is wherever it leaves off. -/
theorem quiet_iff_upTo {x : Script σ α} : x.Quiet s ↔ ∀ n ≤ x.points s, upTo n x s = s := by
  induction x generalizing s with
  | done a => exact ⟨fun _ n hn => by rw [Nat.le_zero.mp hn]; rfl, fun _ => trivial⟩
  | point f next ih =>
      constructor
      · rintro ⟨hf, hnext⟩ n hn
        cases n with
        | zero => rfl
        | succ n =>
            have hn' : n ≤ (next s).points s := by
              have hle := Nat.le_of_succ_le_succ hn
              rwa [hf] at hle
            show upTo n (next s) (f s) = s
            rw [hf]
            exact (ih s).mp hnext n hn'
      · intro h
        have hf : f s = s := by
          have hone := h 1 (Nat.succ_le_succ (Nat.zero_le _))
          rwa [upTo, upTo_zero] at hone
        refine ⟨hf, (ih s).mpr fun n hn => ?_⟩
        have hsucc := h (n + 1) (Nat.succ_le_succ (by rwa [hf]))
        rwa [upTo, hf] at hsucc

end Quiet

/-- A failure of any point finds the state as it was before the run. -/
def Harmless (x : Script σ α) (s : σ) : Prop := ∀ n < x.points s, upTo n x s = s

section Harmless

variable {s : σ}

@[simp] theorem harmless_pure (a : α) : (pure a : Script σ α).Harmless s :=
  fun n hn => absurd hn (Nat.not_lt_zero n)

/-- The effect of the last point does not count. -/
theorem harmless_step_pure {f : σ → σ} (a : Unit → Script σ α) (ha : ∀ s', (a ()).points s' = 0) :
    (step f >>= a).Harmless s := by
  intro n hn
  rw [points_bind, ha] at hn
  rw [Nat.lt_one_iff.mp hn, upTo_zero]

theorem harmless_bind {x : Script σ α} {k : α → Script σ β}
    (hk : ∀ a s, 0 < (k a).points s := by
      repeat (first
        | exact fun _ _ => Nat.succ_pos _
        | refine fun _ _ => Script.points_bind_pos ?_ _)) :
    (x >>= k).Harmless s ↔ x.Quiet s ∧ (k (x.run s).1).Harmless s := by
  unfold Harmless
  rw [points_bind]
  constructor
  · intro h
    have hquiet : x.Quiet s := quiet_iff_upTo.mpr fun n hn => by
      have hlow := h n (Nat.lt_of_le_of_lt hn (Nat.lt_add_of_pos_right (hk _ _)))
      rwa [upTo_bind, if_pos hn] at hlow
    have hs := hquiet.run
    rw [hs] at h
    refine ⟨hquiet, fun n hn => ?_⟩
    cases n with
    | zero => exact upTo_zero _ _
    | succ n =>
        have hhigh := h (x.points s + (n + 1)) (Nat.add_lt_add_left hn _)
        rwa [upTo_bind, if_neg (by omega), Nat.add_sub_cancel_left, hs] at hhigh
  · rintro ⟨hquiet, hrest⟩ n hn
    rw [upTo_bind]
    rw [hquiet.run] at hn ⊢
    split
    next hle => exact quiet_iff_upTo.mp hquiet n hle
    next hlt => exact hrest _ (by omega)

theorem harmless_look {g : σ → α} {k : α → Script σ β} :
    (look g >>= k).Harmless s ↔ (k (g s)).Harmless s := by
  constructor
  · intro h n hn
    exact h (n + 1) (Nat.succ_lt_succ hn)
  · intro h n hn
    cases n with
    | zero => rfl
    | succ n => exact h n (Nat.lt_of_succ_lt_succ hn)

end Harmless

/-! ## Frames -/

/-- The points of `x` leave the part `f` of the state as it is, wherever a run ends. -/
def Leaves {γ : Type} (f : σ → γ) : Script σ α → Prop
  | done _ => True
  | point g next => (∀ s, f (g s) = f s) ∧ ∀ s, (next s).Leaves f

namespace Leaves

variable {f : σ → γ}

theorem upTo {x : Script σ α} (h : x.Leaves f) (n : ℕ) (s : σ) : f (x.upTo n s) = f s := by
  induction x generalizing n s with
  | done a => cases n <;> rfl
  | point g next ih =>
      cases n with
      | zero => rfl
      | succ n => exact (ih s (h.2 s) n (g s)).trans (h.1 s)

theorem run {x : Script σ α} (h : x.Leaves f) (s : σ) : f (x.run s).2 = f s := by
  rw [← upTo_points]
  exact h.upTo _ s

theorem pure (a : α) : (pure a : Script σ α).Leaves f := trivial

theorem step {g : σ → σ} (h : ∀ s, f (g s) = f s) : (Script.step g).Leaves f := ⟨h, fun _ => trivial⟩

theorem stepLook {g : σ → σ} {k : σ → α} (h : ∀ s, f (g s) = f s) :
    (Script.stepLook g k).Leaves f := ⟨h, fun _ => trivial⟩

theorem look (g : σ → α) : (Script.look g).Leaves f := ⟨fun _ => rfl, fun _ => trivial⟩

theorem convert (a : α) : (Script.convert a : Script σ α).Leaves f :=
  ⟨fun _ => rfl, fun _ => trivial⟩

theorem bind {x : Script σ α} {k : α → Script σ β} (hx : x.Leaves f) (hk : ∀ a, (k a).Leaves f) :
    (x >>= k).Leaves f := by
  change (x.bind k).Leaves f
  induction x with
  | done a => exact hk a
  | point g next ih => exact ⟨hx.1, fun s => ih s (hx.2 s)⟩

theorem forM {xs : List α} {k : α → Script σ PUnit} (hk : ∀ a ∈ xs, (k a).Leaves f) :
    (xs.forM k).Leaves f := by
  induction xs with
  | nil => exact pure _
  | cons a rest ih =>
      exact bind (hk a List.mem_cons_self) fun _ => ih fun b hb => hk b (List.mem_cons_of_mem _ hb)

end Leaves

end Script

/-- The contents of a file, and those its one connection works on. -/
structure Session (D : Type) where
  file : D
  work : D

namespace Session

variable {D α : Type}

/-- A statement that writes, in the transaction that is open or that it opens. -/
def execute (f : D → D) : Script (Session D) Unit := Script.step fun s => { s with work := f s.work }

/-- A statement that writes, and what the cursor reports of it, which `g` reads off
the contents before it. -/
def update (f : D → D) (g : D → α) : Script (Session D) α :=
  Script.stepLook (fun s => { s with work := f s.work }) fun s => g s.work

/-- A statement that reads. -/
def select (f : D → α) : Script (Session D) α := Script.look fun s => f s.work

def commit : Script (Session D) Unit := Script.step fun s => { s with file := s.work }

@[simp] theorem run_execute (f : D → D) (s : Session D) :
    (execute f).run s = ((), { s with work := f s.work }) := rfl

@[simp] theorem run_update (f : D → D) (g : D → α) (s : Session D) :
    (update f g).run s = (g s.work, { s with work := f s.work }) := rfl

@[simp] theorem run_select (f : D → α) (s : Session D) :
    (select f).run s = (f s.work, s) := rfl

@[simp] theorem run_commit (s : Session D) : commit.run s = ((), { s with file := s.work }) := rfl

/-- Nothing before the last point of a run changes the file. -/
def CommitsLast (x : Script (Session D) α) : Prop :=
  ∀ s, ∀ n < x.points s, (x.upTo n s).file = s.file

namespace CommitsLast

variable {β : Type}

theorem pure (a : α) : CommitsLast (pure a : Script (Session D) α) :=
  fun _ n hn => absurd hn (Nat.not_lt_zero n)

theorem commit_pure (a : α) : CommitsLast (commit >>= fun _ => Pure.pure a : Script (Session D) α) := by
  intro s n hn
  rw [Nat.lt_one_iff.mp hn, Script.upTo_zero]

theorem commit : CommitsLast (commit : Script (Session D) Unit) := by
  intro s n hn
  rw [Nat.lt_one_iff.mp hn, Script.upTo_zero]

theorem bind {x : Script (Session D) α} {k : α → Script (Session D) β}
    (hx : x.Leaves Session.file) (hk : ∀ a, CommitsLast (k a)) : CommitsLast (x >>= k) := by
  intro s n hn
  rw [Script.points_bind] at hn
  rw [Script.upTo_bind]
  split
  next => exact hx.upTo n s
  next hlt => exact (hk _ _ _ (by omega)).trans (hx.run s)

/-- A failure before the commit is harmless when the connection works on what it did
before. -/
theorem harmless_iff {x : Script (Session D) α} (hx : CommitsLast x) {s : Session D} :
    x.Harmless s ↔ ∀ n < x.points s, (x.upTo n s).work = s.work := by
  refine forall₂_congr fun n hn => ⟨congrArg Session.work, fun h => ?_⟩
  have hfile := hx s n hn
  cases hs : x.upTo n s
  cases s
  rw [hs] at h hfile
  subst h hfile
  rfl

end CommitsLast

/-- A failure of a call after `n` points makes no difference to the file after any
later calls, of which one commits what the connection works on. -/
theorem file_eq_iff {C : Type} {run : C → Session D → Session D} {s s' : Session D}
    (hfile : s'.file = s.file)
    (hcommit : ∃ c, (run c s').file = s'.work ∧ (run c s).file = s.work) :
    (∀ c, (run c s').file = (run c s).file) ↔ s'.work = s.work := by
  constructor
  · intro h
    obtain ⟨c, h', hs⟩ := hcommit
    rw [← h', ← hs]
    exact h c
  · intro hwork c
    have heq : s' = s := by
      cases s
      cases s'
      subst hfile hwork
      rfl
    rw [heq]

end Session

namespace Script.Leaves

variable {D γ : Type} {g : D → γ}

theorem execute {f : D → D} (h : ∀ d, g (f d) = g d) :
    Leaves (fun s : Session D => g s.work) (Session.execute f) := step fun s => h s.work

theorem commit : Leaves (fun s : Session D => g s.work) Session.commit := step fun _ => rfl

theorem execute_file (f : D → D) : Leaves Session.file (Session.execute f) := step fun _ => rfl

theorem update_file {α : Type} (f : D → D) (k : D → α) : Leaves Session.file (Session.update f k) :=
  stepLook fun _ => rfl

end Script.Leaves

namespace Script

variable {D α β : Type} {s : Session D}

/-- A statement is quiet when it leaves what the connection works on. -/
@[simp] theorem quiet_execute {f : D → D} : (Session.execute f).Quiet s ↔ f s.work = s.work := by
  show (step _).Quiet s ↔ _
  rw [quiet_step]
  constructor
  · exact congrArg Session.work
  · intro h
    rw [h]

@[simp] theorem quiet_update {f : D → D} {k : D → α} :
    (Session.update f k).Quiet s ↔ f s.work = s.work := by
  show (stepLook _ _).Quiet s ↔ _
  rw [quiet_stepLook]
  constructor
  · exact congrArg Session.work
  · intro h
    rw [h]

@[simp] theorem quiet_select (f : D → α) : (Session.select f).Quiet s := quiet_look _

theorem harmless_select {f : D → α} {k : α → Script (Session D) β} :
    (Session.select f >>= k).Harmless s ↔ (k (f s.work)).Harmless s := harmless_look

@[simp] theorem harmless_commit_pure (a : α) :
    (Session.commit >>= fun _ => pure a : Script (Session D) α).Harmless s :=
  harmless_step_pure _ fun _ => rfl

@[simp] theorem harmless_commit : (Session.commit : Script (Session D) Unit).Harmless s := by
  intro n hn
  rw [Nat.lt_one_iff.mp hn, upTo_zero]

end Script
