import Mathlib.Data.List.Forall2
import Signal402.Base.Json

/-!
# The parts of a JSON value

What holds of every part of a value (`Everywhere`), how deep its lists and dictionaries
stand in one another (`fits`), and `==` of two values (`Same`): dictionaries are equal when
they hold equal values under the same keys, in whatever order.
-/

namespace Signal402.Json

/-- The values that a value holds. -/
def children : Json → List Json
  | arr items => items
  | obj members => members.map Prod.snd
  | _ => []

/-- Whether a value may hold others. -/
def isContainer : Json → Bool
  | arr _ => true
  | obj _ => true
  | _ => false

/-- A property of a value, of the values it holds, and so on. -/
inductive Everywhere (p : Json → Prop) : Json → Prop
  | mk {v : Json} (here : p v) (held : ∀ u ∈ v.children, Everywhere p u) : Everywhere p v

/-- Lists and dictionaries stand in one another at most so deep. -/
def fits : ℕ → Json → Bool
  | 0, v => !v.isContainer
  | n + 1, v => v.children.all (fits n)

section Everywhere

variable {p q : Json → Prop} {v : Json}

theorem Everywhere.here (h : Everywhere p v) : p v := by
  cases h with
  | mk here held => exact here

theorem Everywhere.held (h : Everywhere p v) {u : Json} (hu : u ∈ v.children) :
    Everywhere p u := by
  cases h with
  | mk here held => exact held u hu

theorem Everywhere.imp (h : Everywhere p v) (hpq : ∀ u, p u → q u) : Everywhere q v := by
  induction h with
  | mk here held ih => exact .mk (hpq _ here) ih

theorem Everywhere.and (hp : Everywhere p v) (hq : Everywhere q v) :
    Everywhere (fun u => p u ∧ q u) v := by
  induction hp with
  | mk here held ih => exact .mk ⟨here, hq.here⟩ fun u hu => ih u hu (hq.held hu)

/-- A value that holds no others. -/
theorem Everywhere.scalar (h : p v) (hv : v.isContainer = false) : Everywhere p v := by
  refine .mk h ?_
  intro u hu
  cases v with
  | arr items => cases hv
  | obj d => cases hv
  | _ => cases hu

theorem Everywhere.item {items : List Json} (h : Everywhere p (.arr items)) {u : Json}
    (hu : u ∈ items) : Everywhere p u :=
  h.held hu

theorem Everywhere.member {d : Dict} (h : Everywhere p (.obj d)) {m : PyStr × Json} (hm : m ∈ d) :
    Everywhere p m.2 :=
  h.held (List.mem_map_of_mem hm)

end Everywhere

section Fits

variable {n : ℕ}

theorem fits_of_scalar {v : Json} (h : v.isContainer = false) : v.fits n = true := by
  cases n with
  | zero => simp [fits, h]
  | succ n => cases v <;> first | rfl | cases h

theorem fits_arr {items : List Json} :
    (arr items).fits (n + 1) = true ↔ ∀ v ∈ items, v.fits n = true := by
  simp [fits, children]

theorem fits_obj {d : Dict} : (obj d).fits (n + 1) = true ↔ ∀ m ∈ d, m.2.fits n = true := by
  simp [fits, children]

end Fits

/-! ## Equality -/

/-- `v == w`, of values of the same types. -/
inductive Same : Json → Json → Prop
  | refl (v : Json) : Same v v
  | arr {xs ys : List Json} (hlength : xs.length = ys.length)
      (h : ∀ (i : ℕ) (v w : Json), xs[i]? = some v → ys[i]? = some w → Same v w) : Same (.arr xs) (.arr ys)
  | obj {d e : Dict} (hkeys : ∀ k, d.get? k = none ↔ e.get? k = none)
      (h : ∀ k v w, d.get? k = some v → e.get? k = some w → Same v w) : Same (.obj d) (.obj e)

namespace Same

variable {u v w : Json}

theorem symm (h : Same v w) : Same w v := by
  induction h with
  | refl v => exact .refl v
  | arr hlength _ ih => exact .arr hlength.symm fun i v w hv hw => ih i w v hw hv
  | obj hkeys _ ih => exact .obj (fun k => (hkeys k).symm) fun k v w hv hw => ih k w v hw hv

theorem trans (huv : Same u v) (hvw : Same v w) : Same u w := by
  induction huv generalizing w with
  | refl v => exact hvw
  | @arr xs ys hlength h ih =>
      cases hvw with
      | refl => exact .arr hlength h
      | @arr _ zs hlength' h' =>
          refine .arr (hlength.trans hlength') ?_
          intro i a c ha hc
          obtain ⟨b, hb⟩ : ∃ b, ys[i]? = some b := by
            have hi : i < ys.length := by
              have := (List.getElem?_eq_some_iff.mp ha).1
              omega
            exact ⟨ys[i], List.getElem?_eq_getElem hi⟩
          exact ih i a b ha hb (h' i b c hb hc)
  | @obj d e hkeys h ih =>
      cases hvw with
      | refl => exact .obj hkeys h
      | @obj _ f hkeys' h' =>
          refine .obj (fun k => (hkeys k).trans (hkeys' k)) ?_
          intro k a c ha hc
          cases hb : e.get? k with
          | none =>
              have := (hkeys k).mpr hb
              rw [ha] at this
              cases this
          | some b => exact ih k a b ha hb (h' k b c hb hc)

/-- Equal values that hold no others are one value. -/
theorem eq_of_scalar (h : Same v w) (hv : v.isContainer = false) : v = w := by
  cases h with
  | refl => rfl
  | arr => cases hv
  | obj => cases hv

/-- Equal dictionaries hold equal values under a key. -/
theorem get? {d e : Dict} (h : Same (.obj d) (.obj e)) {k : PyStr} (hd : d.get? k = some v)
    (he : e.get? k = some w) : Same v w := by
  cases h with
  | refl =>
      cases hd.symm.trans he
      exact .refl v
  | obj _ hmember => exact hmember k v w hd he

/-- Equal lists hold equal values. -/
theorem forall₂ {xs ys : List Json} (h : Same (.arr xs) (.arr ys)) : List.Forall₂ Same xs ys := by
  cases h with
  | refl => exact List.forall₂_same.mpr fun v _ => .refl v
  | arr hlength hitem =>
      rw [List.forall₂_iff_get]
      refine ⟨hlength, ?_⟩
      intro i hx hy
      exact hitem i _ _ (List.getElem?_eq_getElem hx) (List.getElem?_eq_getElem hy)

/-- Lists of equal values are equal. -/
theorem ofItems {xs : List Json} {f : Json → Json} (h : ∀ v ∈ xs, Same v (f v)) :
    Same (.arr xs) (.arr (xs.map f)) := by
  refine .arr (List.length_map f).symm ?_
  intro i v w hv hw
  rw [List.getElem?_map, hv] at hw
  cases hw
  exact h v (List.mem_of_getElem? hv)

end Same

end Signal402.Json

namespace Signal402.Dict

/-- A value that is looked up stands in the dictionary. -/
theorem mem_of_get? {d : Dict} {k : PyStr} {v : Json} (h : d.get? k = some v) : (k, v) ∈ d := by
  induction d with
  | nil => cases h
  | cons m d ih =>
      obtain ⟨k', v'⟩ := m
      rw [get?] at h
      split_ifs at h with hk
      · cases h
        subst hk
        exact List.mem_cons_self
      · exact List.mem_cons_of_mem _ (ih h)

/-- With each key once, a member is what is looked up under its key. -/
theorem get?_of_mem {d : Dict} (hkeys : (d.map Prod.fst).Nodup) {m : PyStr × Json} (h : m ∈ d) :
    d.get? m.1 = some m.2 := by
  induction d with
  | nil => cases h
  | cons m' d ih =>
      obtain ⟨k', v'⟩ := m'
      rw [List.map_cons, List.nodup_cons] at hkeys
      rcases List.mem_cons.mp h with rfl | hm
      · rw [get?, if_pos rfl]
      · have hne : k' ≠ m.1 := by
          intro he
          apply hkeys.1
          rw [show (k', v').1 = m.1 from he]
          exact List.mem_map_of_mem hm
        rw [get?, if_neg hne, ih hkeys.2 hm]

theorem get?_eq_none {d : Dict} {k : PyStr} : d.get? k = none ↔ k ∉ d.map Prod.fst := by
  induction d with
  | nil => simp [get?]
  | cons m d ih =>
      obtain ⟨k', v'⟩ := m
      rw [get?]
      split_ifs with hk
      · simp [hk]
      · simp only [List.map_cons, List.mem_cons, not_or, ih]
        exact ⟨fun h => ⟨fun he => hk he.symm, h⟩, fun h => h.2⟩

/-- Dictionaries of the same members, in whatever order, look up the same. -/
theorem get?_perm {d e : Dict} (hkeys : (d.map Prod.fst).Nodup) (h : d.Perm e) (k : PyStr) :
    d.get? k = e.get? k := by
  have hkeys' : (e.map Prod.fst).Nodup := (h.map Prod.fst).nodup_iff.mp hkeys
  cases hd : d.get? k with
  | none =>
      symm
      rw [get?_eq_none] at hd ⊢
      exact fun hk => hd ((h.map Prod.fst).mem_iff.mpr hk)
  | some v => exact (get?_of_mem hkeys' (h.mem_iff.mp (mem_of_get? hd))).symm

theorem get?_mapValues (f : Json → Json) (d : Dict) (k : PyStr) :
    Dict.get? (d.map fun m => (m.1, f m.2)) k = (d.get? k).map f := by
  induction d with
  | nil => rfl
  | cons m d ih =>
      obtain ⟨k', v'⟩ := m
      rw [List.map_cons, get?, get?]
      split_ifs with hk
      · rfl
      · exact ih

end Signal402.Dict

namespace Signal402.Json

/-- Dictionaries of equal values under the same keys are equal, in whatever order. -/
theorem Same.ofMembers {d e : Dict} {f : Json → Json} (hkeys : (d.map Prod.fst).Nodup)
    (hperm : (d.map fun m => (m.1, f m.2)).Perm e) (h : ∀ m ∈ d, Same m.2 (f m.2)) :
    Same (.obj d) (.obj e) := by
  have hget : ∀ k, e.get? k = (d.get? k).map f := by
    intro k
    have hkeys' : ((d.map fun m => (m.1, f m.2)).map Prod.fst).Nodup := by
      simpa [List.map_map, Function.comp_def] using hkeys
    rw [← Dict.get?_perm hkeys' hperm, Dict.get?_mapValues]
  refine .obj ?_ ?_
  · intro k
    rw [hget k, Option.map_eq_none_iff]
  · intro k v w hv hw
    rw [hget k, hv] at hw
    cases hw
    exact h (k, v) (Dict.mem_of_get? hv)

end Signal402.Json
