import Signal402.Base.Text
import Mathlib.Data.List.DropRight

/-!
# Rails and addresses

The payment rails, their network names, and the equality of payment addresses,
which ignores case on the rails where case does not matter.

What the Unicode tables of the interpreter decide is a parameter.
-/

namespace Signal402

/-- The methods of `str` that read the Unicode tables, and whether `int(s, 16)`
reads a number. -/
structure Unicode where
  lower : PyStr → PyStr
  upper : PyStr → PyStr
  isalnum : PyStr → Bool
  isHexInt : PyStr → Bool

inductive Rail
  | base
  | solana
  | algorand
  deriving DecidableEq, Repr

/-- `str(x).strip()`, and `None` for a missing or blank text. -/
def text (x : Option PyStr) : Option PyStr :=
  x.bind fun s => if s.strip = [] then none else some s.strip

namespace PyStr

theorem strip_eq_nil_or (s : PyStr) :
    s.strip = [] ∨ ∃ c t, s.strip = c :: t ∧ isSpace c = false := by
  unfold strip
  cases hrev : ((s.dropWhile isSpace).reverse.dropWhile isSpace).reverse with
  | nil => exact Or.inl rfl
  | cons c t =>
      refine Or.inr ⟨c, t, rfl, ?_⟩
      -- the first code point of what is left is the first one that is no space
      have hprefix : (c :: t) <+: s.dropWhile isSpace := by
        rw [← hrev, ← List.reverse_suffix, List.reverse_reverse]
        exact List.dropWhile_suffix isSpace
      obtain ⟨rest, hrest⟩ := hprefix
      have hhead := List.head?_dropWhile_not isSpace s
      rw [← hrest] at hhead
      simpa using hhead

/-- Stripping twice is stripping once. -/
@[simp] theorem strip_strip (s : PyStr) : s.strip.strip = s.strip := by
  rcases strip_eq_nil_or s with hnil | ⟨c, t, hcons, hc⟩
  · rw [hnil]
    rfl
  · have hfront : (s.strip).dropWhile isSpace = s.strip := by
      rw [hcons, List.dropWhile_cons_of_neg (by simp [hc])]
    have hback : (s.strip.reverse).dropWhile isSpace = s.strip.reverse := by
      unfold strip
      rw [List.reverse_reverse]
      exact List.dropWhile_idempotent ..
    show ((s.strip.dropWhile isSpace).reverse.dropWhile isSpace).reverse = s.strip
    rw [hfront, hback, List.reverse_reverse]

theorem strip_eq_self {s : PyStr} (h : ∀ c ∈ s, isSpace c = false) : s.strip = s := by
  have hdrop : ∀ t : PyStr, (∀ c ∈ t, isSpace c = false) → t.dropWhile isSpace = t := by
    intro t ht
    cases t with
    | nil => rfl
    | cons c rest => rw [List.dropWhile_cons_of_neg (by simp [ht c List.mem_cons_self])]
  unfold strip
  rw [hdrop s h, hdrop s.reverse fun c hc => h c (List.mem_reverse.mp hc), List.reverse_reverse]

end PyStr

@[simp] theorem text_none : text none = none := rfl

/-- A text that was read once is read again as it is. -/
@[simp] theorem text_text (x : Option PyStr) : text (text x) = text x := by
  cases x with
  | none => rfl
  | some s =>
      by_cases hs : s.strip = []
      · simp [text, hs]
      · simp [text, hs]

/-- Finitely many texts are bounded in length. -/
theorem exists_length_le (used : List PyStr) : ∃ n, ∀ u ∈ used, u.length ≤ n := by
  induction used with
  | nil => exact ⟨0, fun u hu => absurd hu List.not_mem_nil⟩
  | cons u rest ih =>
      obtain ⟨n, hn⟩ := ih
      refine ⟨u.length + n, fun v hv => ?_⟩
      rcases List.mem_cons.mp hv with rfl | hv
      · exact Nat.le_add_right _ _
      · exact (hn v hv).trans (Nat.le_add_left _ _)

/-- Some text is read as it is and is none of finitely many others. -/
theorem exists_text_notMem (used : List PyStr) : ∃ b, text (some b) = some b ∧ b ∉ used := by
  obtain ⟨n, hn⟩ := exists_length_le used
  refine ⟨List.replicate (n + 1) (CodePoint.ofChar 'x'), ?_, fun hmem => ?_⟩
  · have hstrip : PyStr.strip (List.replicate (n + 1) (CodePoint.ofChar 'x')) =
        List.replicate (n + 1) (CodePoint.ofChar 'x') := by
      refine PyStr.strip_eq_self fun c hc => ?_
      rw [List.eq_of_mem_replicate hc]
      decide
    unfold text
    rw [Option.bind_some, hstrip, List.replicate_succ, if_neg (List.cons_ne_nil _ _)]
  · have hle := hn _ hmem
    rw [List.length_replicate] at hle
    exact absurd hle (Nat.not_succ_le_self n)

def baseCaip2 : PyStr := "eip155:8453"

def solanaMainnet : PyStr := "solana:5eykt4UsFv8P8NJdTREpY1vzqKqZKvdp"

def algorandMainnet : PyStr := "algorand:wGHE2Pwdvd7S12BL5FaOP20EGYesN73ktiC1qzkkit8="

section Addresses

variable (uni : Unicode)

/-- `_norm`. -/
def norm (s : PyStr) : PyStr := uni.lower s.strip

/-- `rail_of_network`. -/
def railOfNetwork (network : PyStr) : Option Rail :=
  let n := norm uni network
  if n = [] then none
  else if n = "base" ∨ n = norm uni baseCaip2 then some .base
  else if n = "solana" ∨ n = norm uni solanaMainnet then some .solana
  else if n = "algorand" ∨ n = norm uni algorandMainnet then some .algorand
  else none

/-- `_rail_name`. -/
def railName (rail : Option PyStr) : Option Rail :=
  (text rail).bind fun t =>
    let low := uni.lower t
    if low = "base" ∨ low = "evm" then some .base
    else if low = "solana" then some .solana
    else if low = "algorand" then some .algorand
    else railOfNetwork uni t

/-- `infer_rail_from_payto`. -/
def inferRailFromPayto (addr : Option PyStr) : Option Rail :=
  (text addr).bind fun t =>
    if PyStr.startsWith t "0x" ∧ t.length = 42 then
      if uni.isHexInt (t.drop 2) then some .base else none
    else if t.length = 58 ∧ uni.isalnum t then some .algorand
    else if uni.isalnum t ∧ 32 ≤ t.length ∧ t.length ≤ 44 then some .solana
    else none

/-- Equality of addresses on a rail. -/
def addressEqual (rail : Option Rail) (left right : PyStr) : Bool :=
  match rail with
  | some .algorand => uni.upper left == uni.upper right
  | some .base => uni.lower left == uni.lower right
  | some .solana | none => left == right

/-- `payto_equal`. -/
def paytoEqual (a b rail : Option PyStr) : Bool :=
  match text a, text b with
  | some left, some right =>
      match railName uni rail with
      | some r => addressEqual uni (some r) left right
      | none =>
          let ra := inferRailFromPayto uni (some left)
          let rb := inferRailFromPayto uni (some right)
          if ra.isSome ∧ ra = rb then addressEqual uni ra left right
          else addressEqual uni none left right
  | _, _ => false

/-- Every known address is equal to itself. -/
theorem addressEqual_self (rail : Option Rail) (s : PyStr) : addressEqual uni rail s s = true := by
  unfold addressEqual
  split <;> exact beq_self_eq_true _

theorem paytoEqual_self {a : Option PyStr} {s : PyStr} (h : text a = some s) (rail : Option PyStr) :
    paytoEqual uni a a rail = true := by
  unfold paytoEqual
  rw [h]
  dsimp only
  split
  · exact addressEqual_self uni _ s
  · split <;> exact addressEqual_self uni _ s

end Addresses

end Signal402
