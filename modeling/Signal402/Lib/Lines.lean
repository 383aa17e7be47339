import Mathlib.Data.List.Basic
import Mathlib.Data.List.Induction
import Mathlib.Tactic.Common

/-!
# Texts that can be taken apart

A text that is put together from rows can be taken apart again when no row hides a
separator.  Rows of the form `key sep value end` are recovered from the end of the text,
one after the other, when the value of each is free of the one or of the other mark; the
parts of a joined list are recovered when they are free of the separator; and fields with
their lengths in front are recovered from the start, whatever is in them.
-/

namespace Lines

variable {α : Type*}

/-- The first mark of a text splits it. -/
theorem split_first {mark : α} {a b a' b' : List α} (ha : mark ∉ a) (ha' : mark ∉ a')
    (h : a ++ mark :: b = a' ++ mark :: b') : a = a' ∧ b = b' := by
  induction a generalizing a' with
  | nil =>
      cases a' with
      | nil => exact ⟨rfl, (List.cons.inj h).2⟩
      | cons c rest => exact absurd ((List.cons.inj h).1 ▸ List.mem_cons_self) ha'
  | cons c rest ih =>
      cases a' with
      | nil => exact absurd ((List.cons.inj h).1 ▸ List.mem_cons_self) ha
      | cons c' rest' =>
          obtain ⟨rfl, hrest⟩ := List.cons.inj h
          obtain ⟨rfl, hb⟩ := ih (fun hmem => ha (List.mem_cons_of_mem _ hmem))
            (fun hmem => ha' (List.mem_cons_of_mem _ hmem)) hrest
          exact ⟨rfl, hb⟩

/-- The last mark of a text splits it. -/
theorem split_last {mark : α} {a b a' b' : List α} (hb : mark ∉ b) (hb' : mark ∉ b')
    (h : a ++ mark :: b = a' ++ mark :: b') : a = a' ∧ b = b' := by
  have hreverse := congrArg List.reverse h
  simp only [List.reverse_append, List.reverse_cons, List.append_assoc, List.singleton_append]
    at hreverse
  obtain ⟨hback, hfront⟩ := split_first (fun hmem => hb (List.mem_reverse.mp hmem))
    (fun hmem => hb' (List.mem_reverse.mp hmem)) hreverse
  exact ⟨List.reverse_injective hfront, List.reverse_injective hback⟩

/-- A row: a key, the mark, a value and the end of the line. -/
def row (sep eol : α) (key value : List α) : List α := key ++ sep :: value ++ [eol]

/-- Two values of a key that their row does not hide: both are free of line ends, or both
are free of the mark. -/
def Apart (sep eol : α) (key value value' : List α) : Prop :=
  (eol ∉ key ∧ eol ∉ value ∧ eol ∉ value') ∨ (sep ∉ value ∧ sep ∉ value')

theorem row_injective {sep eol : α} {key value value' front front' : List α} (hne : sep ≠ eol)
    (hapart : Apart sep eol key value value') (hfront : front.getLast? = some eol)
    (hfront' : front'.getLast? = some eol)
    (h : front ++ row sep eol key value = front' ++ row sep eol key value') :
    front = front' ∧ value = value' := by
  simp only [row, ← List.append_assoc] at h
  have h := List.append_cancel_right h
  rcases hapart with ⟨hkey, hvalue, hvalue'⟩ | ⟨hvalue, hvalue'⟩
  · obtain ⟨a, rfl⟩ := List.getLast?_eq_some_iff.mp hfront
    obtain ⟨a', rfl⟩ := List.getLast?_eq_some_iff.mp hfront'
    simp only [List.append_assoc, List.singleton_append] at h
    have hnot : ∀ v : List α, eol ∉ v → eol ∉ key ++ sep :: v := by
      intro v hv hmem
      rcases List.mem_append.mp hmem with hmem | hmem
      · exact hkey hmem
      · rcases List.mem_cons.mp hmem with heq | hmem
        · exact hne heq.symm
        · exact hv hmem
    obtain ⟨rfl, hrow⟩ := split_last (hnot value hvalue) (hnot value' hvalue') h
    exact ⟨rfl, (List.cons.inj (List.append_cancel_left hrow)).2⟩
  · obtain ⟨hkey, rfl⟩ := split_last hvalue hvalue' h
    exact ⟨List.append_cancel_right hkey, rfl⟩

theorem getLast?_row {sep eol : α} (key value : List α) :
    (row sep eol key value).getLast? = some eol := by
  rw [row, List.getLast?_concat]

/-- Rows behind a line: the line and the values are those that were written. -/
theorem rows_injective {sep eol : α} (hne : sep ≠ eol)
    {rows : List (List α × List α × List α)}
    (hapart : ∀ r ∈ rows, Apart sep eol r.1 r.2.1 r.2.2) {front front' : List α}
    (hfront : front.getLast? = some eol) (hfront' : front'.getLast? = some eol)
    (h : front ++ rows.flatMap (fun r => row sep eol r.1 r.2.1) =
      front' ++ rows.flatMap (fun r => row sep eol r.1 r.2.2)) :
    front = front' ∧ ∀ r ∈ rows, r.2.1 = r.2.2 := by
  have hlast : ∀ (texts : List (List α)) {a : List α}, a.getLast? = some eol →
      (∀ t ∈ texts, t.getLast? = some eol) → (a ++ texts.flatten).getLast? = some eol := by
    intro texts
    induction texts with
    | nil =>
        intro a ha _
        simpa using ha
    | cons t texts ih =>
        intro a _ htexts
        rw [List.flatten_cons, ← List.append_assoc]
        apply ih
        · have ht := htexts t List.mem_cons_self
          have hne : t ≠ [] := by
            rintro rfl
            cases ht
          rwa [List.getLast?_append_of_ne_nil _ hne]
        · exact fun u hu => htexts u (List.mem_cons_of_mem _ hu)
  induction rows using List.reverseRecOn with
  | nil => exact ⟨by simpa using h, by simp⟩
  | append_singleton rows r ih =>
      simp only [List.flatMap_append, List.flatMap_singleton, ← List.append_assoc] at h
      have hends : ∀ (f : List α × List α × List α → List α) {a : List α}, a.getLast? = some eol →
          (a ++ rows.flatMap fun r => row sep eol r.1 (f r)).getLast? = some eol := by
        intro f a ha
        rw [List.flatMap_def]
        apply hlast _ ha
        intro t ht
        obtain ⟨q, -, rfl⟩ := List.mem_map.mp ht
        exact getLast?_row q.1 (f q)
      obtain ⟨hrest, hvalue⟩ := row_injective hne (hapart r (by simp))
        (hends (fun r => r.2.1) hfront) (hends (fun r => r.2.2) hfront') h
      obtain ⟨hsame, hvalues⟩ := ih (fun q hq => hapart q (List.mem_append_left _ hq)) hrest
      refine ⟨hsame, fun q hq => ?_⟩
      rcases List.mem_append.mp hq with hq | hq
      · exact hvalues q hq
      · rw [List.mem_singleton.mp hq]
        exact hvalue

theorem mem_intercalate {sep c : α} {parts : List (List α)}
    (h : c ∈ [sep].intercalate parts) : c = sep ∨ ∃ part ∈ parts, c ∈ part := by
  induction parts with
  | nil => cases h
  | cons part rest ih =>
      cases rest with
      | nil =>
          rw [List.intercalate_singleton] at h
          exact .inr ⟨part, List.mem_cons_self, h⟩
      | cons q rest =>
          rw [List.intercalate_cons_cons] at h
          rcases List.mem_append.mp h with h | h
          · rcases List.mem_append.mp h with h | h
            · exact .inr ⟨part, List.mem_cons_self, h⟩
            · exact .inl (List.mem_singleton.mp h)
          · rcases ih h with h | ⟨r, hr, h⟩
            · exact .inl h
            · exact .inr ⟨r, List.mem_cons_of_mem _ hr, h⟩

/-- A joined list determines its parts, but for the list of nothing and the list of one
empty part. -/
theorem intercalate_injective [DecidableEq α] {sep : α} {parts parts' : List (List α)}
    (h : ∀ part ∈ parts, sep ∉ part) (h' : ∀ part ∈ parts', sep ∉ part)
    (hjoin : [sep].intercalate parts = [sep].intercalate parts') :
    parts = parts' ∨
      ((parts = [] ∨ parts = [[]]) ∧ (parts' = [] ∨ parts' = [[]])) := by
  by_cases hnil : parts = []
  · by_cases hnil' : parts' = []
    · exact .inl (hnil.trans hnil'.symm)
    · have hsplit := List.splitOn_intercalate sep h' hnil'
      rw [← hjoin, hnil, List.intercalate_nil, List.splitOn_nil] at hsplit
      exact .inr ⟨.inl hnil, .inr hsplit.symm⟩
  · have hsplit := List.splitOn_intercalate sep h hnil
    by_cases hnil' : parts' = []
    · rw [hjoin, hnil', List.intercalate_nil, List.splitOn_nil] at hsplit
      exact .inr ⟨.inr hsplit.symm, .inl hnil'⟩
    · rw [hjoin, List.splitOn_intercalate sep h' hnil'] at hsplit
      exact .inl hsplit.symm

/-- A field with its length in front. -/
def field (len : ℕ → List α) (sep mark eol : α) (key value : List α) : List α :=
  key ++ sep :: len value.length ++ mark :: value ++ [eol]

/-- Fields with their lengths in front: the values are those that were written. -/
theorem fields_injective {len : ℕ → List α} {sep mark eol : α} (hlen : Function.Injective len)
    (hmark : ∀ n, mark ∉ len n) {fields : List (List α × List α × List α)} {back back' : List α}
    (h : fields.flatMap (fun f => field len sep mark eol f.1 f.2.1) ++ back =
      fields.flatMap (fun f => field len sep mark eol f.1 f.2.2) ++ back') :
    back = back' ∧ ∀ f ∈ fields, f.2.1 = f.2.2 := by
  induction fields with
  | nil => exact ⟨h, by simp⟩
  | cons f fields ih =>
      simp only [List.flatMap_cons, field, List.append_assoc, List.cons_append] at h
      have h := (List.cons.inj (List.append_cancel_left h)).2
      obtain ⟨hsize, hrest⟩ := split_first (hmark _) (hmark _) h
      obtain ⟨hvalue, hrest⟩ := List.append_inj hrest (hlen hsize)
      obtain ⟨hback, hvalues⟩ := ih (by simpa [field] using (List.cons.inj hrest).2)
      exact ⟨hback, List.forall_mem_cons.mpr ⟨hvalue, hvalues⟩⟩

end Lines
