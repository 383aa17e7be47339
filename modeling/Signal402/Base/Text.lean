import Signal402.Base.Json

/-!
# Strings and their encodings

The string methods the modelled code calls, and the encodings of text to bytes.
-/

namespace Signal402

namespace PyStr

/-- The code points `str.strip` removes. -/
def isSpace (c : CodePoint) : Bool :=
  let n := c.val
  (9 ≤ n && n ≤ 13) || (28 ≤ n && n ≤ 32) || n == 0x85 || n == 0xA0 || n == 0x1680 ||
    (0x2000 ≤ n && n ≤ 0x200A) || n == 0x2028 || n == 0x2029 || n == 0x202F || n == 0x205F ||
    n == 0x3000

/-- `s.strip()`. -/
def strip (s : PyStr) : PyStr := ((s.dropWhile isSpace).reverse.dropWhile isSpace).reverse

/-- Lower case of the ASCII letters. -/
def lowerCodePoint (c : CodePoint) : CodePoint :=
  if h : 65 ≤ c.val ∧ c.val ≤ 90 then ⟨c.val + 32, by omega⟩ else c

/-- `s.lower()`, for comparison with ASCII text: outside ASCII only the Kelvin
sign lowers to an ASCII letter, and none of the modelled tests looks for a `k`. -/
def lower (s : PyStr) : PyStr := s.map lowerCodePoint

/-- `s <= t`: the order by code points. -/
def le : PyStr → PyStr → Bool
  | [], _ => true
  | _ :: _, [] => false
  | a :: s, b :: t => decide (a.val < b.val) || (a.val == b.val && le s t)

/-- `s < t`. -/
def lt (s t : PyStr) : Bool := !le t s

theorem le_refl (s : PyStr) : le s s = true := by
  induction s with
  | nil => rfl
  | cons c s ih => simp [le, ih]

theorem le_total (s t : PyStr) : le s t = true ∨ le t s = true := by
  induction s generalizing t with
  | nil => exact .inl rfl
  | cons c s ih =>
      cases t with
      | nil => exact .inr rfl
      | cons d t =>
          rcases lt_trichotomy c.val d.val with h | h | h
          · exact .inl (by simp [le, h])
          · rcases ih t with ht | ht
            · exact .inl (by simp [le, h, ht])
            · exact .inr (by simp [le, h, ht])
          · exact .inr (by simp [le, h])

theorem le_trans {s t u : PyStr} (hst : le s t = true) (htu : le t u = true) : le s u = true := by
  induction s generalizing t u with
  | nil => rfl
  | cons c s ih =>
      cases t with
      | nil => cases hst
      | cons d t =>
          cases u with
          | nil => cases htu
          | cons e u =>
              simp only [le, Bool.or_eq_true, Bool.and_eq_true, decide_eq_true_eq, beq_iff_eq]
                at hst htu ⊢
              rcases hst with hcd | ⟨hcd, hst⟩
              · exact .inl (by omega)
              · rcases htu with hde | ⟨hde, htu⟩
                · exact .inl (by omega)
                · exact .inr ⟨by omega, ih hst htu⟩

theorem le_antisymm {s t : PyStr} (hst : le s t = true) (hts : le t s = true) : s = t := by
  induction s generalizing t with
  | nil =>
      cases t with
      | nil => rfl
      | cons d t => cases hts
  | cons c s ih =>
      cases t with
      | nil => cases hst
      | cons d t =>
          simp only [le, Bool.or_eq_true, Bool.and_eq_true, decide_eq_true_eq, beq_iff_eq]
            at hst hts
          have hcd : c.val = d.val := by omega
          have hst' : le s t = true := by
            rcases hst with h | h
            · omega
            · exact h.2
          have hts' : le t s = true := by
            rcases hts with h | h
            · omega
            · exact h.2
          rw [Fin.ext hcd, ih hst' hts']

theorem lt_iff {s t : PyStr} : lt s t = true ↔ le s t = true ∧ s ≠ t := by
  unfold lt
  rw [Bool.not_eq_true', Bool.eq_false_iff]
  constructor
  · intro h
    refine ⟨(le_total s t).resolve_right h, ?_⟩
    rintro rfl
    exact h (le_refl s)
  · rintro ⟨hle, hne⟩ h
    exact hne (le_antisymm hle h)

theorem lt_trans {s t u : PyStr} (hst : lt s t = true) (htu : lt t u = true) : lt s u = true := by
  rw [lt_iff] at hst htu ⊢
  refine ⟨le_trans hst.1 htu.1, ?_⟩
  rintro rfl
  exact hst.2 (le_antisymm hst.1 htu.1)

/-- `s.startswith(t)`. -/
def startsWith (s t : PyStr) : Bool := t.isPrefixOf s

/-- `t in s`. -/
def hasInfix (s t : PyStr) : Bool := s.tails.any fun rest => t.isPrefixOf rest

end PyStr

/-- `s.encode("ascii")`. -/
def asciiEncode (s : PyStr) : Except PyError Bytes :=
  if s.all fun c => c.val < 128 then .ok (s.map fun c => UInt8.ofNat c.val)
  else .error ⟨.unicodeError, "ordinal not in range(128)"⟩

/-- The UTF-8 bytes of a code point that is no surrogate. -/
def utf8CodePoint (c : CodePoint) : Bytes :=
  let n := c.val
  if n < 0x80 then [UInt8.ofNat n]
  else if n < 0x800 then [UInt8.ofNat (0xC0 + n / 64), UInt8.ofNat (0x80 + n % 64)]
  else if n < 0x10000 then
    [UInt8.ofNat (0xE0 + n / 4096), UInt8.ofNat (0x80 + n / 64 % 64),
      UInt8.ofNat (0x80 + n % 64)]
  else
    [UInt8.ofNat (0xF0 + n / 262144), UInt8.ofNat (0x80 + n / 4096 % 64),
      UInt8.ofNat (0x80 + n / 64 % 64), UInt8.ofNat (0x80 + n % 64)]

/-- Whether a code point is a surrogate. -/
def CodePoint.isSurrogate (c : CodePoint) : Bool := 0xD800 ≤ c.val && c.val ≤ 0xDFFF

/-- `s.encode("utf-8")`. -/
def utf8Encode (s : PyStr) : Except PyError Bytes :=
  if s.any CodePoint.isSurrogate then .error ⟨.unicodeError, "surrogates not allowed"⟩
  else .ok (s.flatMap utf8CodePoint)

/-- The lower-case hexadecimal digit of a number below sixteen. -/
def hexDigit (n : ℕ) : UInt8 := UInt8.ofNat (if n < 10 then 48 + n else 87 + n)

/-- `digest.hex()`, as ASCII bytes. -/
def hex (b : Bytes) : Bytes := b.flatMap fun x => [hexDigit (x.toNat / 16), hexDigit (x.toNat % 16)]

namespace Json

/-- `bool(x)`. -/
def truthy : Json → Bool
  | null => false
  | bool b => b
  | int n => n ≠ 0
  | float x => !(x.bits == 0 || x.bits == 0x8000000000000000)
  | str s => !s.isEmpty
  | arr items => !items.isEmpty
  | obj members => !members.isEmpty

/-- `x or y`. -/
def or (x y : Json) : Json := if x.truthy then x else y

end Json

end Signal402
