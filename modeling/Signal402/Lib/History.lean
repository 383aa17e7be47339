import Mathlib.Data.List.Basic
import Mathlib.Tactic.Common

/-!
# Histories of calls

A history is a list of calls, each with the state before and after it and its
result, in which every call starts where the one before it ended.

* `Run.invariant` — what every call preserves holds at the end.
* `Run.forall_event` — every call starts from a state with the invariant.
* `Run.relation`, `Run.relation_after` — what every call keeps, from states with an
  invariant, is kept from the start, or from any event, to the end.
-/

namespace History

variable {S C R : Type}

/-- A call with its result and the states before and after it. -/
structure Event (S C R : Type) where
  before : S
  call : C
  result : R
  after : S

/-- The events in their order lead from one state to another; `step` says which
results and states a call may have. -/
inductive Run (step : C → S → R → S → Prop) : S → List (Event S C R) → S → Prop
  | nil (s : S) : Run step s [] s
  | snoc {s : S} {es : List (Event S C R)} {e : Event S C R} (h : Run step s es e.before)
      (he : step e.call e.before e.result e.after) : Run step s (es ++ [e]) e.after

namespace Run

variable {step : C → S → R → S → Prop} {s s' s'' : S} {es es' : List (Event S C R)}

theorem invariant {K : S → Prop} (h : Run step s es s')
    (hstep : ∀ e ∈ es, step e.call e.before e.result e.after → K e.before → K e.after)
    (hs : K s) : K s' := by
  induction h with
  | nil => exact hs
  | snoc _ he ih =>
      refine hstep _ (List.mem_append_right _ List.mem_cons_self) he (ih fun e hmem => ?_)
      exact hstep e (List.mem_append_left _ hmem)

/-- A run of calls is a run of any wider `step`. -/
theorem mono {step' : C → S → R → S → Prop} (h : Run step s es s')
    (hstep : ∀ {c s r s'}, step c s r s' → step' c s r s') : Run step' s es s' := by
  induction h with
  | nil => exact .nil _
  | snoc _ he ih => exact ih.snoc (hstep he)

/-- Every event of a run did what its call does, from a state with the invariant. -/
theorem forall_event {K : S → Prop} (h : Run step s es s')
    (hstep : ∀ e ∈ es, step e.call e.before e.result e.after → K e.before → K e.after)
    (hs : K s) : ∀ e ∈ es, step e.call e.before e.result e.after ∧ K e.before := by
  induction h with
  | nil => exact List.forall_mem_nil _
  | snoc h he ih =>
      have hold := fun e hmem => hstep e (List.mem_append_left _ hmem)
      refine List.forall_mem_append.mpr ⟨ih hold, List.forall_mem_singleton.mpr ⟨he, ?_⟩⟩
      exact h.invariant hold hs

section Relations

variable {K : S → Prop} {rel : S → S → Prop}

theorem relation (h : Run step s es s')
    (hstep : ∀ {c s r s'}, step c s r s' → K s → K s' ∧ rel s s') (hrefl : ∀ s, rel s s)
    (htrans : ∀ {s s' s''}, rel s s' → rel s' s'' → rel s s'') (hs : K s) : rel s s' := by
  suffices h' : K s' ∧ rel s s' from h'.2
  induction h with
  | nil => exact ⟨hs, hrefl s⟩
  | snoc _ he ih => exact ⟨(hstep he ih.1).1, htrans ih.2 (hstep he ih.1).2⟩

/-- What every call keeps is kept from the end of any event on. -/
theorem relation_after (h : Run step s es s')
    (hstep : ∀ {c s r s'}, step c s r s' → K s → K s' ∧ rel s s') (hrefl : ∀ s, rel s s)
    (htrans : ∀ {s s' s''}, rel s s' → rel s' s'' → rel s s'') (hs : K s) :
    ∀ e ∈ es, rel e.after s' := by
  induction h with
  | nil => exact List.forall_mem_nil _
  | @snoc es e h he ih =>
      have hbefore := h.invariant (fun _ _ he hs => (hstep he hs).1) hs
      refine List.forall_mem_append.mpr ⟨fun e' hmem => ?_, List.forall_mem_singleton.mpr ?_⟩
      · exact htrans (ih e' hmem) (hstep he hbefore).2
      · exact hrefl _

end Relations

theorem append (h : Run step s es s') (h' : Run step s' es' s'') :
    Run step s (es ++ es') s'' := by
  induction h' with
  | nil =>
      rw [List.append_nil]
      exact h
  | snoc _ he ih =>
      rw [← List.append_assoc]
      exact ih.snoc he

end Run

end History
