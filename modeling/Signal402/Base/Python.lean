import Mathlib.Algebra.Ring.Nat
import Mathlib.Data.List.Basic
import Mathlib.Tactic.Common

/-!
# The Python the model is translated from

Byte strings, exceptions and slices, as the modelled modules use them.  An
exception is its class and its message; `except` clauses catch by class along
`ExcClass.parent`, which records the hierarchy of the source.
-/

namespace Signal402

/-- Python `bytes`. -/
abbrev Bytes := List UInt8

/-- The exception classes the modelled code raises or catches. -/
inductive ExcClass
  | exception
  | valueError
  | typeError
  | keyError
  | indexError
  | recursionError
  | unicodeError
  | runtimeError
  | attributeError
  | osError
  | databaseError
  | anchorError
  | autoAnchorError
  | canaryError
  | canarySecurityError
  | storeError
  | conflictError
  | receiptError
  | overflowError
  | constraintError
  | bindingError
  | jcsError
  | jsonDecodeError
  deriving DecidableEq, Repr

/-- The direct base class; `Exception` is its own. -/
def ExcClass.parent : ExcClass → ExcClass
  | .exception => .exception
  | .valueError => .exception
  | .typeError => .exception
  | .keyError => .exception
  | .indexError => .exception
  | .recursionError => .runtimeError
  | .unicodeError => .valueError
  | .runtimeError => .exception
  | .attributeError => .exception
  | .osError => .exception
  | .databaseError => .exception
  | .anchorError => .valueError
  | .autoAnchorError => .runtimeError
  | .canaryError => .runtimeError
  | .canarySecurityError => .canaryError
  | .storeError => .runtimeError
  | .conflictError => .valueError
  | .receiptError => .runtimeError
  | .overflowError => .exception
  | .constraintError => .valueError
  | .bindingError => .valueError
  | .jcsError => .valueError
  | .jsonDecodeError => .valueError

/-- `issubclass(c, d)`. -/
def ExcClass.isA (c d : ExcClass) : Bool :=
  c == d || c.parent == d || c.parent.parent == d || c.parent.parent.parent == d

/-- A raised exception. -/
structure PyError where
  cls : ExcClass
  msg : String
  deriving DecidableEq, Repr

namespace PyError

def valueError (msg : String) : PyError := ⟨.valueError, msg⟩

/-- What `json.loads` raises on a text that is no JSON. -/
def jsonDecode (msg : String) : PyError := ⟨.jsonDecodeError, msg⟩

/-- `text in str(exc)`. -/
def mentions (e : PyError) (text : String) : Bool :=
  e.msg.toList.tails.any fun rest => text.toList.isPrefixOf rest

end PyError

/-- A result mapped under no error is a result of the map. -/
theorem map_eq_ok {α β : Type*} {x : Except PyError α} {f : α → β} {b : β} :
    x.map f = .ok b ↔ ∃ a, x = .ok a ∧ f a = b := by
  cases x with
  | error e => simp [Except.map]
  | ok a => simp [Except.map]

theorem map_eq_error {α β : Type*} {x : Except PyError α} {f : α → β} {e : PyError} :
    x.map f = .error e ↔ x = .error e := by
  cases x with
  | error e => simp [Except.map]
  | ok a => simp [Except.map]

/-- A sequence that raises nothing: both of its parts raise nothing. -/
theorem bind_eq_ok {α β : Type*} {x : Except PyError α} {f : α → Except PyError β} {b : β} :
    x.bind f = .ok b ↔ ∃ a, x = .ok a ∧ f a = .ok b := by
  cases x with
  | error e => simp [Except.bind]
  | ok a => simp [Except.bind]

/-- An exception of a comprehension is that of one of its elements. -/
theorem exists_of_mapM_eq_error {α β : Type} {f : α → Except PyError β} {xs : List α}
    {e : PyError} (h : xs.mapM f = .error e) : ∃ x ∈ xs, f x = .error e := by
  induction xs with
  | nil => exact absurd h (by simp [pure, Except.pure])
  | cons x rest ih =>
      rw [List.mapM_cons] at h
      cases hx : f x with
      | error e' =>
          rw [hx] at h
          cases h
          exact ⟨x, List.mem_cons_self, hx⟩
      | ok b =>
          rw [hx] at h
          cases hrest : rest.mapM f with
          | error e' =>
              rw [hrest] at h
              cases h
              obtain ⟨y, hy, hfy⟩ := ih hrest
              exact ⟨y, List.mem_cons_of_mem _ hy, hfy⟩
          | ok bs =>
              rw [hrest] at h
              cases h

/-- A result of a comprehension is that of one of its elements. -/
theorem exists_of_mem_mapM {α β : Type} {f : α → Except PyError β} {xs : List α}
    {ys : List β} (h : xs.mapM f = .ok ys) {y : β} (hy : y ∈ ys) : ∃ x ∈ xs, f x = .ok y := by
  induction xs generalizing ys with
  | nil =>
      cases h
      exact absurd hy List.not_mem_nil
  | cons x rest ih =>
      rw [List.mapM_cons] at h
      obtain ⟨b, hb, h⟩ := bind_eq_ok.mp h
      obtain ⟨bs, hbs, h⟩ := bind_eq_ok.mp h
      cases h
      rcases List.mem_cons.mp hy with rfl | hy
      · exact ⟨x, List.mem_cons_self, hb⟩
      · obtain ⟨z, hz, hfz⟩ := ih hbs hy
        exact ⟨z, List.mem_cons_of_mem x hz, hfz⟩

/-- A comprehension that raises nothing, element by element. -/
theorem forall₂_of_mapM_eq_ok {α β : Type} {f : α → Except PyError β} {xs : List α}
    {ys : List β} (h : xs.mapM f = .ok ys) : List.Forall₂ (fun x y => f x = .ok y) xs ys := by
  induction xs generalizing ys with
  | nil =>
      cases h
      exact .nil
  | cons x rest ih =>
      rw [List.mapM_cons] at h
      obtain ⟨b, hb, h⟩ := bind_eq_ok.mp h
      obtain ⟨bs, hbs, h⟩ := bind_eq_ok.mp h
      cases h
      exact .cons hb (ih hbs)

/-- A comprehension whose elements raise nothing. -/
theorem mapM_eq_ok {α β : Type} {f : α → Except PyError β} {g : α → β} {xs : List α}
    (h : ∀ x ∈ xs, f x = .ok (g x)) : xs.mapM f = .ok (xs.map g) := by
  induction xs with
  | nil => rfl
  | cons x rest ih =>
      rw [List.mapM_cons, h x List.mem_cons_self,
        ih fun y hy => h y (List.mem_cons_of_mem _ hy)]
      rfl

/-- One for each. -/
theorem exists_forall₂ {α β : Type} {R : α → β → Prop} {xs : List α}
    (h : ∀ x ∈ xs, ∃ y, R x y) : ∃ ys, List.Forall₂ R xs ys := by
  induction xs with
  | nil => exact ⟨[], .nil⟩
  | cons x xs ih =>
      obtain ⟨y, hy⟩ := h x List.mem_cons_self
      obtain ⟨ys, hys⟩ := ih fun x hx => h x (List.mem_cons_of_mem _ hx)
      exact ⟨y :: ys, .cons hy hys⟩

/-- A comprehension whose elements raise nothing, with what each result is made from. -/
theorem mapM_eq_ok_zipWith {α β γ : Type} {f : α → Except PyError γ} {g : α → β → γ}
    {xs : List α} {ys : List β} (h : List.Forall₂ (fun x y => f x = .ok (g x y)) xs ys) :
    xs.mapM f = .ok (List.zipWith g xs ys) := by
  induction h with
  | nil => rfl
  | cons hxy _ ih =>
      rw [List.mapM_cons, hxy, ih]
      rfl

theorem exists_of_mapM_mem {α β : Type} {f : α → Except PyError β} {xs : List α} {ys : List β}
    (h : xs.mapM f = .ok ys) {x : α} (hx : x ∈ xs) : ∃ y ∈ ys, f x = .ok y := by
  have hall := forall₂_of_mapM_eq_ok h
  clear h
  induction hall with
  | nil => exact absurd hx List.not_mem_nil
  | cons hxy _ ih =>
      rcases List.mem_cons.mp hx with rfl | hx
      · exact ⟨_, List.mem_cons_self, hxy⟩
      · obtain ⟨y, hy, hxy'⟩ := ih hx
        exact ⟨y, List.mem_cons_of_mem _ hy, hxy'⟩

/-- A comprehension over the same elements in another order. -/
theorem mapM_perm {α β : Type} {f : α → Except PyError β} {xs ys : List α} (h : xs.Perm ys)
    {us : List β} (hus : xs.mapM f = .ok us) : ∃ vs, ys.mapM f = .ok vs ∧ us.Perm vs := by
  induction h generalizing us with
  | nil => exact ⟨us, hus, .refl us⟩
  | cons x _ ih =>
      rw [List.mapM_cons] at hus
      obtain ⟨b, hb, hus⟩ := bind_eq_ok.mp hus
      obtain ⟨bs, hbs, hus⟩ := bind_eq_ok.mp hus
      cases hus
      obtain ⟨vs, hvs, hperm⟩ := ih hbs
      refine ⟨b :: vs, ?_, hperm.cons b⟩
      rw [List.mapM_cons, hb, hvs]
      rfl
  | swap x y rest =>
      rw [List.mapM_cons, List.mapM_cons] at hus
      obtain ⟨b, hb, hus⟩ := bind_eq_ok.mp hus
      obtain ⟨bs, hbs, hus⟩ := bind_eq_ok.mp hus
      obtain ⟨c, hc, hbs⟩ := bind_eq_ok.mp hbs
      obtain ⟨cs, hcs, hbs⟩ := bind_eq_ok.mp hbs
      cases hbs
      cases hus
      refine ⟨c :: b :: cs, ?_, .swap c b cs⟩
      rw [List.mapM_cons, List.mapM_cons, hb, hc, hcs]
      rfl
  | trans _ _ ih ih' =>
      obtain ⟨vs, hvs, hperm⟩ := ih hus
      obtain ⟨ws, hws, hperm'⟩ := ih' hvs
      exact ⟨ws, hws, hperm.trans hperm'⟩

/-- `xs[start:stop]` for `0 ≤ start ≤ stop`. -/
def slice {α : Type*} (xs : List α) (start stop : ℕ) : List α :=
  (xs.take stop).drop start

theorem slice_length {α : Type*} (xs : List α) (start stop : ℕ) :
    (slice xs start stop).length = min stop xs.length - start := by
  simp [slice]

theorem slice_add {α : Type*} (xs : List α) (start n : ℕ) :
    slice xs start (start + n) = (xs.drop start).take n := by
  rw [slice, List.drop_take, Nat.add_sub_cancel_left]

/-- The part of a sequence between two others. -/
theorem slice_between {α : Type*} {front middle back : List α} {start stop : ℕ}
    (hstart : front.length = start) (hstop : start + middle.length = stop) :
    slice (front ++ middle ++ back) start stop = middle := by
  subst hstart hstop
  rw [slice_add, List.append_assoc, List.drop_left, List.take_left]

theorem slice_all {α : Type*} (xs : List α) : slice xs 0 xs.length = xs := by
  simp [slice]

theorem slice_take_zero {α : Type*} (xs : List α) (stop : ℕ) :
    slice (xs.take stop) 0 stop = slice xs 0 stop := by
  simp [slice, List.take_take]

/-- The left part of a slice that is cut at `k`. -/
theorem take_slice {α : Type*} (xs : List α) (start stop k : ℕ) (h : start + k ≤ stop) :
    (slice xs start stop).take k = slice xs start (start + k) := by
  simp only [slice, List.take_drop, List.take_take]
  congr 2
  omega

/-- The right part of a slice that is cut at `k`. -/
theorem drop_slice {α : Type*} (xs : List α) (start stop k : ℕ) :
    (slice xs start stop).drop k = slice xs (start + k) stop := by
  simp [slice, List.drop_drop]

end Signal402
