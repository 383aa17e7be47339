import Mathlib.Data.List.Basic

/-!
# Patterns that backtrack

The patterns of a backtracking matcher over an arbitrary alphabet, and the ways in which
one matches at a place of a text, in the order in which the matcher tries them: the left
alternative first, and a repetition as long as it can be.  A search takes the first way
at the first place that has one.

A repetition repeats a class of symbols, never a pattern.
-/

namespace Regex

universe u

variable {α : Type u}

inductive Pattern (α : Type u)
  | empty
  | one (p : α → Bool)
  | seq (r s : Pattern α)
  | alt (r s : Pattern α)
  | opt (r : Pattern α)
  | many (p : α → Bool) (least : ℕ) (most : Option ℕ)
  | group (n : ℕ) (r : Pattern α)
  | boundary (word : α → Bool)

/-- A place in a text: what was read, the last symbol first, what is left, and the groups
that were matched, the last one first. -/
structure Place (α : Type u) where
  read : List α
  rest : List α
  groups : List (ℕ × List α)

namespace Place

/-- The place after `k` more symbols. -/
def advance (s : Place α) (k : ℕ) : Place α :=
  { s with read := (s.rest.take k).reverse ++ s.read, rest := s.rest.drop k }

/-- What was read between two places. -/
def between (s t : Place α) : List α := (t.read.take (t.read.length - s.read.length)).reverse

/-- The symbols before and after a place are of different kinds. -/
def atBoundary (word : α → Bool) (s : Place α) : Bool :=
  s.read.head?.any word != s.rest.head?.any word

end Place

namespace Pattern

/-- How many symbols a repetition may take, the most first. -/
def counts (p : α → Bool) (least : ℕ) (most : Option ℕ) (rest : List α) : List ℕ :=
  let run := (rest.takeWhile p).length
  let longest := most.elim run (min run)
  (List.range' least (longest + 1 - least)).reverse

/-- The ways in which a pattern matches at a place. -/
def ways : Pattern α → Place α → List (Place α)
  | empty, s => [s]
  | one p, s => if s.rest.head?.any p then [s.advance 1] else []
  | seq r t, s => (r.ways s).flatMap t.ways
  | alt r t, s => r.ways s ++ t.ways s
  | opt r, s => r.ways s ++ [s]
  | many p least most, s => (counts p least most s.rest).map s.advance
  | group n r, s => (r.ways s).map fun t => { t with groups := (n, s.between t) :: t.groups }
  | boundary word, s => if s.atBoundary word then [s] else []

/-- One of several patterns. -/
def oneOf : List (Pattern α) → Pattern α
  | [] => one fun _ => false
  | [r] => r
  | r :: rest => alt r (oneOf rest)

/-- Patterns in a row. -/
def inRow : List (Pattern α) → Pattern α
  | [] => empty
  | [r] => r
  | r :: rest => seq r (inRow rest)

end Pattern

/-- A match: the places before and after it. -/
structure Match (α : Type u) where
  before : Place α
  after : Place α

namespace Match

/-- The index of the first symbol. -/
def start (m : Match α) : ℕ := m.before.read.length

/-- The index after the last symbol. -/
def stop (m : Match α) : ℕ := m.after.read.length

/-- The text that was matched. -/
def text (m : Match α) : List α := m.before.between m.after

/-- The text of a group, if it took part. -/
def group? (m : Match α) (n : ℕ) : Option (List α) :=
  (m.after.groups.find? fun g => g.1 == n).map Prod.snd

end Match

namespace Pattern

/-- The match at a place. -/
def matchAt (r : Pattern α) (read rest : List α) : Option (Match α) :=
  (r.ways ⟨read, rest, []⟩).head?.map (Match.mk ⟨read, rest, []⟩)

/-- The first match at a place or after it. -/
def searchFrom (r : Pattern α) (read : List α) : List α → Option (Match α)
  | [] => r.matchAt read []
  | c :: rest => (r.matchAt read (c :: rest)).or (r.searchFrom (c :: read) rest)

/-- The first match in a text. -/
def search (r : Pattern α) (text : List α) : Option (Match α) := r.searchFrom [] text

/-- The matches one after another, those that start among the next `skip` symbols left
out.  The pattern matches no empty text. -/
def findFrom (r : Pattern α) (skip : ℕ) (read : List α) : List α → List (Match α)
  | [] => []
  | c :: rest =>
      match skip with
      | k + 1 => r.findFrom k (c :: read) rest
      | 0 =>
          match r.matchAt read (c :: rest) with
          | none => r.findFrom 0 (c :: read) rest
          | some m => m :: r.findFrom (m.text.length - 1) (c :: read) rest

/-- The matches in a text. -/
def findAll (r : Pattern α) (text : List α) : List (Match α) := r.findFrom 0 [] text

end Pattern

end Regex
