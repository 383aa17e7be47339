import Signal402.Base.Python

/-!
# Code that raises and changes a state

`Eff σ` is the monad of the stateful functions of the model.  An exception does
not undo the changes made before it was raised, as in the source, so the state
stands outside the result.

* `exec` — the result of a run and the state it ends in.
* `Eff.Leaves` — a run does not change a part of the state.
* `Eff.Keeps` — a run keeps an invariant of the state.
* `Eff.RaisesOnly` — every exception of a run satisfies a predicate.
* `exec_forM_put`, `exec_forM_error` — loops that write a row for each element.
-/

namespace Signal402

/-- Code on a state `σ` that may raise. -/
abbrev Eff (σ : Type) := ExceptT PyError (StateM σ)

/-- The result of running `x` from `s`, and the state afterwards. -/
def exec {σ α : Type} (x : Eff σ α) (s : σ) : Except PyError α × σ := (ExceptT.run x).run s

namespace Eff

variable {σ α β γ : Type}

/-- A part of the code that does not touch the state. -/
def ofExcept (x : Except PyError α) : Eff σ α := fun s => (x, s)

/-- Read a part of the state. -/
def reads (f : σ → α) : Eff σ α := fun s => (.ok (f s), s)

/-- Change the state. -/
def modifies (f : σ → σ) : Eff σ Unit := fun s => (.ok (), f s)

@[simp] theorem exec_pure (a : α) (s : σ) : exec (pure a) s = (.ok a, s) := rfl

@[simp] theorem exec_throw (e : PyError) (s : σ) :
    exec (throw e : Eff σ α) s = (.error e, s) := rfl

@[simp] theorem exec_ofExcept (x : Except PyError α) (s : σ) :
    exec (ofExcept x) s = (x, s) := rfl

@[simp] theorem exec_reads (f : σ → α) (s : σ) : exec (reads f) s = (.ok (f s), s) := rfl

@[simp] theorem exec_modifies (f : σ → σ) (s : σ) : exec (modifies f) s = (.ok (), f s) := rfl

theorem exec_bind (x : Eff σ α) (f : α → Eff σ β) (s : σ) :
    exec (x >>= f) s =
      match exec x s with
      | (.ok a, s') => exec (f a) s'
      | (.error e, s') => (.error e, s') := by
  simp only [exec, ExceptT.run_bind, StateT.run_bind]
  generalize (ExceptT.run x).run s = r
  obtain ⟨r, s'⟩ := r
  cases r <;> rfl

/-- A run continues from the state and with the value of its first part. -/
theorem exec_bind_ok {x : Eff σ α} {f : α → Eff σ β} {s s' : σ} {a : α}
    (h : exec x s = (.ok a, s')) : exec (x >>= f) s = exec (f a) s' := by
  rw [exec_bind, h]

theorem exec_bind_error {x : Eff σ α} {f : α → Eff σ β} {s s' : σ} {e : PyError}
    (h : exec x s = (.error e, s')) : exec (x >>= f) s = (.error e, s') := by
  rw [exec_bind, h]

/-! ## Frames -/

/-- `x` leaves the part `f` of the state as it is, whether or not it raises. -/
def Leaves (f : σ → γ) (x : Eff σ α) : Prop := ∀ s, f (exec x s).2 = f s

namespace Leaves

variable {f : σ → γ}

theorem pure (a : α) : Leaves f (pure a : Eff σ α) := fun _ => rfl

theorem throw (e : PyError) : Leaves f (throw e : Eff σ α) := fun _ => rfl

theorem ofExcept (x : Except PyError α) : Leaves f (ofExcept x) := fun _ => rfl

theorem reads (g : σ → α) : Leaves f (reads g) := fun _ => rfl

theorem modifies {g : σ → σ} (h : ∀ s, f (g s) = f s) : Leaves f (modifies g) := h

theorem bind {x : Eff σ α} {k : α → Eff σ β} (hx : Leaves f x) (hk : ∀ a, Leaves f (k a)) :
    Leaves f (x >>= k) := by
  intro s
  rw [exec_bind]
  have := hx s
  generalize exec x s = r at this
  obtain ⟨_ | a, s'⟩ := r
  · exact this
  · exact (hk a s').trans this

theorem forM {xs : List α} {k : α → Eff σ PUnit} (hk : ∀ a, Leaves f (k a)) :
    Leaves f (xs.forM k) := by
  induction xs with
  | nil => exact pure _
  | cons a rest ih => exact bind (hk a) fun _ => ih

end Leaves

/-! ## Invariants -/

/-- `x` keeps `K`, whether or not it raises. -/
def Keeps (K : σ → Prop) (x : Eff σ α) : Prop := ∀ s, K s → K (exec x s).2

namespace Keeps

variable {K : σ → Prop}

theorem throw (e : PyError) : Keeps K (throw e : Eff σ α) := fun _ hs => hs

theorem reads (g : σ → α) : Keeps K (reads g) := fun _ hs => hs

theorem modifies {g : σ → σ} (h : ∀ s, K s → K (g s)) : Keeps K (modifies g) := h

theorem bind {x : Eff σ α} {k : α → Eff σ β} (hx : Keeps K x) (hk : ∀ a, Keeps K (k a)) :
    Keeps K (x >>= k) := by
  intro s hs
  rw [exec_bind]
  have hfirst := hx s hs
  generalize exec x s = r at hfirst
  obtain ⟨_ | a, s'⟩ := r
  · exact hfirst
  · exact hk a s' hfirst

theorem forM {xs : List α} {k : α → Eff σ PUnit} (hk : ∀ a ∈ xs, Keeps K (k a)) :
    Keeps K (xs.forM k) := by
  induction xs with
  | nil => exact fun _ hs => hs
  | cons a rest ih =>
      exact bind (hk a List.mem_cons_self) fun _ => ih fun b hb => hk b (List.mem_cons_of_mem _ hb)

end Keeps

/-! ## Loops -/

theorem exec_forM_cons {x : α} {xs : List α} {k : α → Eff σ PUnit} {s s' : σ}
    (h : exec (k x) s = (.ok ⟨⟩, s')) : exec ((x :: xs).forM k) s = exec (xs.forM k) s' := by
  change exec (k x >>= fun _ => xs.forM k) s = _
  rw [exec_bind_ok h]

/-- A loop that writes the row `v x` for each `x` has written the rows of its list. -/
theorem exec_forM_put {K : σ → Prop} {xs : List α} {k : α → Eff σ PUnit} {v : α → β}
    {g : σ → α → Option β}
    (h : ∀ x ∈ xs, ∀ s, K s → ∃ s', exec (k x) s = (.ok ⟨⟩, s') ∧ K s' ∧
      g s' x = some (v x) ∧ ∀ y, y ≠ x → g s' y = g s y) {s : σ} (hs : K s) :
    ∃ s', exec (xs.forM k) s = (.ok ⟨⟩, s') ∧ K s' ∧
      ∀ y, (y ∈ xs → g s' y = some (v y)) ∧ (y ∉ xs → g s' y = g s y) := by
  induction xs generalizing s with
  | nil => exact ⟨s, rfl, hs, fun y => ⟨fun hy => absurd hy List.not_mem_nil, fun _ => rfl⟩⟩
  | cons x rest ih =>
      obtain ⟨s', hfirst, hs', hput, hkept⟩ := h x List.mem_cons_self s hs
      obtain ⟨s'', hrest, hs'', hrows⟩ := ih (fun y hy => h y (List.mem_cons_of_mem _ hy)) hs'
      refine ⟨s'', (exec_forM_cons hfirst).trans hrest, hs'', fun y => ⟨fun hy => ?_, fun hy => ?_⟩⟩
      · by_cases hyrest : y ∈ rest
        · exact (hrows y).1 hyrest
        · obtain rfl := (List.mem_cons.mp hy).resolve_right hyrest
          exact ((hrows y).2 hyrest).trans hput
      · rw [List.mem_cons, not_or] at hy
        exact ((hrows y).2 hy.2).trans (hkept y hy.1)

/-- A loop raises what its first bad element raises. -/
theorem exec_forM_error {K : σ → Prop} {good : α → Prop} {e : PyError} {xs : List α}
    {k : α → Eff σ PUnit}
    (hgood : ∀ x ∈ xs, good x → ∀ s, K s → ∃ s', exec (k x) s = (.ok ⟨⟩, s') ∧ K s')
    (hbad : ∀ x ∈ xs, ¬good x → ∀ s, K s → ∃ s', exec (k x) s = (.error e, s'))
    (hx : ∃ x ∈ xs, ¬good x) {s : σ} (hs : K s) :
    ∃ s', exec (xs.forM k) s = (.error e, s') := by
  induction xs generalizing s with
  | nil =>
      obtain ⟨x, hmem, -⟩ := hx
      exact absurd hmem List.not_mem_nil
  | cons x rest ih =>
      by_cases hgx : good x
      · obtain ⟨s', hfirst, hs'⟩ := hgood x List.mem_cons_self hgx s hs
        obtain ⟨s'', hrest⟩ := ih (fun y hy => hgood y (List.mem_cons_of_mem _ hy))
          (fun y hy => hbad y (List.mem_cons_of_mem _ hy)) (by
            obtain ⟨y, hy, hby⟩ := hx
            rcases List.mem_cons.mp hy with rfl | hy
            · exact absurd hgx hby
            · exact ⟨y, hy, hby⟩) hs'
        exact ⟨s'', (exec_forM_cons hfirst).trans hrest⟩
      · obtain ⟨s', hfirst⟩ := hbad x List.mem_cons_self hgx s hs
        refine ⟨s', ?_⟩
        change exec (k x >>= fun _ => rest.forM k) s = _
        rw [exec_bind_error hfirst]

/-! ## Exceptions -/

/-- Every exception that `x` raises satisfies `P`. -/
def RaisesOnly (P : PyError → Prop) (x : Eff σ α) : Prop :=
  ∀ s e, (exec x s).1 = .error e → P e

namespace RaisesOnly

variable {P : PyError → Prop}

theorem pure (a : α) : RaisesOnly P (pure a : Eff σ α) := by
  intro s e h
  simp at h

theorem throw {e : PyError} (he : P e) : RaisesOnly P (throw e : Eff σ α) := by
  intro s e' h
  rw [exec_throw] at h
  cases h
  exact he

theorem ofExcept {x : Except PyError α} (hx : ∀ e, x = .error e → P e) :
    RaisesOnly P (Eff.ofExcept x : Eff σ α) := fun _ e h => hx e h

theorem reads (g : σ → α) : RaisesOnly P (Eff.reads g) := by
  intro s e h
  simp at h

theorem modifies (g : σ → σ) : RaisesOnly P (Eff.modifies g) := by
  intro s e h
  simp at h

theorem bind {x : Eff σ α} {k : α → Eff σ β} (hx : RaisesOnly P x)
    (hk : ∀ a, RaisesOnly P (k a)) : RaisesOnly P (x >>= k) := by
  intro s e h
  rw [exec_bind] at h
  have := hx s
  generalize exec x s = r at h this
  obtain ⟨_ | a, s'⟩ := r
  · cases h
    exact this e rfl
  · exact hk a s' e h

theorem forM {xs : List α} {k : α → Eff σ PUnit} (hk : ∀ a, RaisesOnly P (k a)) :
    RaisesOnly P (xs.forM k) := by
  induction xs with
  | nil => exact pure _
  | cons a rest ih => exact bind (hk a) fun _ => ih

end RaisesOnly

end Eff

end Signal402
