import Mathlib.Data.List.Nodup
import Mathlib.Data.List.Perm.Subperm
import Mathlib.Logic.Relation
import Mathlib.Tactic.Common

/-!
# Threads that are counted

Any number of threads, each at some point of its code, take turns on a shared state; a
turn is one step of one thread.  Semaphores are accounted for by counting the threads
that hold a unit.

* `Step.count` — a turn changes a count by the thread that took it, and by nothing else.
* `length_le_count` — where every key has a thread of its own, there are no more keys
  than such threads.
* `Run.invariant` — what every turn preserves holds at the end of a run.
-/

namespace Threads

variable {σ π κ : Type}

/-- A shared state and the points at which the threads are. -/
structure State (σ π : Type) where
  shared : σ
  threads : List π

/-- One thread takes a step of its own. -/
inductive Step (act : σ → π → σ → π → Prop) : State σ π → State σ π → Prop
  | turn {s s' : σ} {p p' : π} (pre post : List π) (h : act s p s' p') :
      Step act ⟨s, pre ++ p :: post⟩ ⟨s', pre ++ p' :: post⟩

/-- Turns that meet a condition, one after another. -/
def Run (act : σ → π → σ → π → Prop) (cond : State σ π → State σ π → Prop) :
    State σ π → State σ π → Prop :=
  Relation.ReflTransGen fun s s' => Step act s s' ∧ cond s s'

/-- What every turn of a run preserves holds at its end. -/
theorem Run.invariant {act : σ → π → σ → π → Prop} {cond : State σ π → State σ π → Prop}
    {K : State σ π → Prop} {s s' : State σ π} (h : Run act cond s s') (hs : K s)
    (hstep : ∀ s s', Step act s s' → cond s s' → K s → K s') : K s' := by
  induction h with
  | refl => exact hs
  | tail _ he ih => exact hstep _ _ he.1 he.2 ih

/-- A run goes on by a turn. -/
theorem Run.turn {act : σ → π → σ → π → Prop} {cond : State σ π → State σ π → Prop}
    {s : State σ π} {a b : σ} {pre post : List π} {p p' : π}
    (h : Run act cond s ⟨a, pre ++ p :: post⟩) (hact : act a p b p')
    (hcond : cond ⟨a, pre ++ p :: post⟩ ⟨b, pre ++ p' :: post⟩) :
    Run act cond s ⟨b, pre ++ p' :: post⟩ :=
  Relation.ReflTransGen.tail h ⟨.turn pre post hact, hcond⟩

/-- The threads at a point of some kind. -/
def count (f : π → Bool) (threads : List π) : ℕ := threads.countP f

variable {f g : π → Bool} {pre post : List π} {p p' x : π}

/-- A turn changes a count by the thread that took it. -/
theorem count_turn (f : π → Bool) (pre post : List π) (p p' : π) :
    count f (pre ++ p' :: post) + (f p).toNat = count f (pre ++ p :: post) + (f p').toNat := by
  unfold count
  rw [List.countP_append, List.countP_append, List.countP_cons, List.countP_cons]
  cases f p <;> cases f p' <;> simp <;> omega

theorem mem_turn (h : x ∈ pre ++ p' :: post) : x = p' ∨ x ∈ pre ++ p :: post := by
  simp only [List.mem_append, List.mem_cons] at h ⊢
  tauto

theorem mem_self : p ∈ pre ++ p :: post := List.mem_append_right _ List.mem_cons_self

theorem count_mono {threads : List π} (h : ∀ x, f x = true → g x = true) :
    count f threads ≤ count g threads := List.countP_mono_left fun x _ => h x

theorem count_pos {threads : List π} : 0 < count f threads ↔ ∃ x ∈ threads, f x = true :=
  List.countP_pos_iff

theorem count_eq_zero {threads : List π} :
    count f threads = 0 ↔ ∀ x ∈ threads, f x = false := by
  unfold count
  rw [List.countP_eq_zero]
  simp

/-- Where every key has a thread of its own, there are no more keys than such threads. -/
theorem length_le_count {key : π → Option κ} {keys : List κ} {threads : List π}
    (hnodup : keys.Nodup) (h : ∀ k ∈ keys, ∃ x ∈ threads, key x = some k) :
    keys.length ≤ count (fun x => (key x).isSome) threads := by
  have hsub : keys ⊆ threads.filterMap key := by
    intro k hk
    obtain ⟨x, hx, hkey⟩ := h k hk
    exact List.mem_filterMap.mpr ⟨x, hx, hkey⟩
  have hlen := (hnodup.subperm hsub).length_le
  rwa [List.length_filterMap_eq_countP] at hlen

end Threads
