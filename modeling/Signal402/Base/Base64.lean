import Signal402.Base.Interp

/-!
# Base64

`b64encode`, the lenient `b64decode`, which skips what is no digit and stops at the
padding that closes a group of four, and the strict one, which takes whole groups only.
What was encoded is decoded by both.
-/

namespace Signal402

/-- The digit of a number below 64. -/
def b64Digit (n : ℕ) : CodePoint :=
  CodePoint.ofChar (if n < 26 then Char.ofNat (65 + n) else if n < 52 then Char.ofNat (71 + n)
    else if n < 62 then Char.ofNat (n - 4) else if n = 62 then '+' else '/')

/-- The value of a digit. -/
def b64Value (c : CodePoint) : Option ℕ :=
  if PyStr.isUpperChar c then some (c.val - 65)
  else if PyStr.isLowerChar c then some (c.val - 71)
  else if PyStr.isDigitChar c then some (c.val + 4)
  else if c.val = 43 then some 62
  else if c.val = 47 then some 63
  else none

/-- `base64.b64encode(raw).decode("ascii")`. -/
def b64encode : Bytes → PyStr
  | [] => []
  | [a] => [b64Digit (a.toNat / 4), b64Digit (a.toNat % 4 * 16), CodePoint.ofChar '=',
      CodePoint.ofChar '=']
  | [a, b] => [b64Digit (a.toNat / 4), b64Digit (a.toNat % 4 * 16 + b.toNat / 16),
      b64Digit (b.toNat % 16 * 4), CodePoint.ofChar '=']
  | a :: b :: c :: rest =>
      b64Digit (a.toNat / 4) :: b64Digit (a.toNat % 4 * 16 + b.toNat / 16) ::
        b64Digit (b.toNat % 16 * 4 + c.toNat / 64) :: b64Digit (c.toNat % 64) :: b64encode rest

/-- The loop of `a2b_base64` without strict mode: the place in the group of four, the bits
that are left over, and the padding read since the last digit. -/
def a2bBase64 (quad left pads : ℕ) : PyStr → Option Bytes
  | [] => if quad = 0 then some [] else none
  | c :: rest =>
      if c = CodePoint.ofChar '=' then
        if quad < 2 then a2bBase64 quad left pads rest
        else if 4 ≤ quad + (pads + 1) then some []
        else a2bBase64 quad left (pads + 1) rest
      else
        match b64Value c with
        | none => a2bBase64 quad left pads rest
        | some v =>
            if quad = 0 then a2bBase64 1 v 0 rest
            else if quad = 1 then
              (a2bBase64 2 (v % 16) 0 rest).map fun bs => UInt8.ofNat (left * 4 + v / 16) :: bs
            else if quad = 2 then
              (a2bBase64 3 (v % 4) 0 rest).map fun bs => UInt8.ofNat (left * 16 + v / 4) :: bs
            else (a2bBase64 0 0 0 rest).map fun bs => UInt8.ofNat (left * 64 + v) :: bs

/-- `base64.b64decode(text, validate=False)`, and nothing for a `ValueError`. -/
def b64decode (text : PyStr) : Option Bytes :=
  if text.isAscii then a2bBase64 0 0 0 text else none

/-- `base64.b64decode(text, validate=True)`, and nothing for a `ValueError`: the text is
whole groups of four, digits up to at most two pads at the end. -/
def b64decodeStrict (text : PyStr) : Option Bytes :=
  let padding := text.dropWhile fun c => (b64Value c).isSome
  if padding.all (· = CodePoint.ofChar '=') ∧ padding.length ≤ 2 ∧ text.length % 4 = 0 then
    b64decode text
  else none

theorem b64Value_digit {n : ℕ} (h : n < 64) : b64Value (b64Digit n) = some n := by
  revert n
  decide

theorem b64Digit_ne {n : ℕ} (h : n < 64) : b64Digit n ≠ CodePoint.ofChar '=' := by
  revert n
  decide

/-- What is no white space in a text. -/
theorem b64Digit_plain {n : ℕ} (h : n < 64) :
    (b64Digit n).val < 128 ∧ PyStr.isSpace (b64Digit n) = false := by
  revert n
  decide

section Steps

variable {left pads v : ℕ} {rest : PyStr}

theorem a2bBase64_first (h : v < 64) :
    a2bBase64 0 left pads (b64Digit v :: rest) = a2bBase64 1 v 0 rest := by
  rw [a2bBase64.eq_def]
  simp only [b64Digit_ne h, b64Value_digit h, ↓reduceIte]

theorem a2bBase64_second (h : v < 64) :
    a2bBase64 1 left pads (b64Digit v :: rest) =
      (a2bBase64 2 (v % 16) 0 rest).map fun bs => UInt8.ofNat (left * 4 + v / 16) :: bs := by
  rw [a2bBase64.eq_def]
  simp only [b64Digit_ne h, b64Value_digit h, ↓reduceIte, Nat.reduceEqDiff]

theorem a2bBase64_third (h : v < 64) :
    a2bBase64 2 left pads (b64Digit v :: rest) =
      (a2bBase64 3 (v % 4) 0 rest).map fun bs => UInt8.ofNat (left * 16 + v / 4) :: bs := by
  rw [a2bBase64.eq_def]
  simp only [b64Digit_ne h, b64Value_digit h, ↓reduceIte, Nat.reduceEqDiff]

theorem a2bBase64_fourth (h : v < 64) :
    a2bBase64 3 left pads (b64Digit v :: rest) =
      (a2bBase64 0 0 0 rest).map fun bs => UInt8.ofNat (left * 64 + v) :: bs := by
  rw [a2bBase64.eq_def]
  simp only [b64Digit_ne h, b64Value_digit h, ↓reduceIte, Nat.reduceEqDiff]

end Steps

theorem ofNat_eq {a : UInt8} {n : ℕ} (h : n = a.toNat) : UInt8.ofNat n = a := by
  subst h
  exact UInt8.ofNat_toNat

/-- What was encoded is decoded: group by group. -/
theorem a2bBase64_b64encode (raw : Bytes) (left pads : ℕ) :
    a2bBase64 0 left pads (b64encode raw) = some raw := by
  induction raw using b64encode.induct generalizing left pads with
  | case1 => rfl
  | case2 a =>
      have ha := UInt8.toNat_lt a
      rw [b64encode, a2bBase64_first (by omega), a2bBase64_second (by omega)]
      have hbyte : UInt8.ofNat (a.toNat / 4 * 4 + a.toNat % 4 * 16 / 16) = a := ofNat_eq (by omega)
      rw [hbyte]
      rfl
  | case3 a b =>
      have ha := UInt8.toNat_lt a
      have hb := UInt8.toNat_lt b
      rw [b64encode, a2bBase64_first (by omega), a2bBase64_second (by omega),
        a2bBase64_third (by omega)]
      have hfirst : UInt8.ofNat (a.toNat / 4 * 4 + (a.toNat % 4 * 16 + b.toNat / 16) / 16) = a :=
        ofNat_eq (by omega)
      have hsecond : UInt8.ofNat ((a.toNat % 4 * 16 + b.toNat / 16) % 16 * 16 +
          b.toNat % 16 * 4 / 4) = b := ofNat_eq (by omega)
      rw [hfirst, hsecond]
      rfl
  | case4 a b c rest ih =>
      have ha := UInt8.toNat_lt a
      have hb := UInt8.toNat_lt b
      have hc := UInt8.toNat_lt c
      rw [b64encode, a2bBase64_first (by omega), a2bBase64_second (by omega),
        a2bBase64_third (by omega), a2bBase64_fourth (by omega), ih]
      have hfirst : UInt8.ofNat (a.toNat / 4 * 4 + (a.toNat % 4 * 16 + b.toNat / 16) / 16) = a :=
        ofNat_eq (by omega)
      have hsecond : UInt8.ofNat ((a.toNat % 4 * 16 + b.toNat / 16) % 16 * 16 +
          (b.toNat % 16 * 4 + c.toNat / 64) / 4) = b := ofNat_eq (by omega)
      have hthird : UInt8.ofNat ((b.toNat % 16 * 4 + c.toNat / 64) % 4 * 64 + c.toNat % 64) = c :=
        ofNat_eq (by omega)
      rw [Option.map_some, Option.map_some, Option.map_some, hfirst, hsecond, hthird]

/-- The text has no white space and nothing beyond ASCII. -/
theorem b64encode_plain (raw : Bytes) :
    ∀ c ∈ b64encode raw, c.val < 128 ∧ PyStr.isSpace c = false := by
  induction raw using b64encode.induct with
  | case1 => simp [b64encode]
  | case2 a =>
      have ha := UInt8.toNat_lt a
      simp only [b64encode, List.forall_mem_cons]
      exact ⟨b64Digit_plain (by omega), b64Digit_plain (by omega), by decide, by decide, by simp⟩
  | case3 a b =>
      have ha := UInt8.toNat_lt a
      have hb := UInt8.toNat_lt b
      simp only [b64encode, List.forall_mem_cons]
      exact ⟨b64Digit_plain (by omega), b64Digit_plain (by omega), b64Digit_plain (by omega),
        by decide, by simp⟩
  | case4 a b c rest ih =>
      have ha := UInt8.toNat_lt a
      have hb := UInt8.toNat_lt b
      have hc := UInt8.toNat_lt c
      simp only [b64encode, List.forall_mem_cons]
      exact ⟨b64Digit_plain (by omega), b64Digit_plain (by omega), b64Digit_plain (by omega),
        b64Digit_plain (by omega), ih⟩

/-- The text comes in groups of four. -/
theorem length_b64encode_mod (raw : Bytes) : (b64encode raw).length % 4 = 0 := by
  induction raw using b64encode.induct with
  | case1 => rfl
  | case2 a => simp [b64encode]
  | case3 a b => simp [b64encode]
  | case4 a b c rest ih =>
      rw [b64encode]
      simp only [List.length_cons]
      omega

theorem b64encode_ne_nil {raw : Bytes} (h : raw ≠ []) : b64encode raw ≠ [] := by
  cases raw using b64encode.induct with
  | case1 => exact absurd rfl h
  | case2 a => simp [b64encode]
  | case3 a b => simp [b64encode]
  | case4 a b c rest => simp [b64encode]

theorem b64decode_b64encode (raw : Bytes) : b64decode (b64encode raw) = some raw := by
  have hascii : (b64encode raw).isAscii = true := by
    rw [PyStr.isAscii, List.all_eq_true]
    exact fun c hc => decide_eq_true (b64encode_plain raw c hc).1
  rw [b64decode, if_pos hascii]
  exact a2bBase64_b64encode raw 0 0

/-- The text is digits and at most two pads behind them. -/
theorem b64encode_digits (raw : Bytes) : ∃ digits padding : PyStr,
    b64encode raw = digits ++ padding ∧ (∀ c ∈ digits, (b64Value c).isSome = true) ∧
      padding.all (· = CodePoint.ofChar '=') = true ∧ padding.length ≤ 2 := by
  have hdigit : ∀ {n : ℕ}, n < 64 → (b64Value (b64Digit n)).isSome = true := by
    intro n hn
    rw [b64Value_digit hn]
    rfl
  induction raw using b64encode.induct with
  | case1 => exact ⟨[], [], rfl, by simp, rfl, by decide⟩
  | case2 a =>
      have ha := UInt8.toNat_lt a
      refine ⟨[b64Digit (a.toNat / 4), b64Digit (a.toNat % 4 * 16)],
        [CodePoint.ofChar '=', CodePoint.ofChar '='], rfl, ?_, by decide, by decide⟩
      simp only [List.forall_mem_cons]
      exact ⟨hdigit (by omega), hdigit (by omega), by simp⟩
  | case3 a b =>
      have ha := UInt8.toNat_lt a
      have hb := UInt8.toNat_lt b
      refine ⟨[b64Digit (a.toNat / 4), b64Digit (a.toNat % 4 * 16 + b.toNat / 16),
        b64Digit (b.toNat % 16 * 4)], [CodePoint.ofChar '='], rfl, ?_, by decide, by decide⟩
      simp only [List.forall_mem_cons]
      exact ⟨hdigit (by omega), hdigit (by omega), hdigit (by omega), by simp⟩
  | case4 a b c rest ih =>
      have ha := UInt8.toNat_lt a
      have hb := UInt8.toNat_lt b
      have hc := UInt8.toNat_lt c
      obtain ⟨digits, padding, hrest, hdigits, hpads, hlength⟩ := ih
      refine ⟨b64Digit (a.toNat / 4) :: b64Digit (a.toNat % 4 * 16 + b.toNat / 16) ::
        b64Digit (b.toNat % 16 * 4 + c.toNat / 64) :: b64Digit (c.toNat % 64) :: digits, padding,
        by rw [b64encode, hrest]; rfl, ?_, hpads, hlength⟩
      simp only [List.forall_mem_cons]
      exact ⟨hdigit (by omega), hdigit (by omega), hdigit (by omega), hdigit (by omega), hdigits⟩

/-- No NUL is in the text. -/
theorem b64encode_ne_nul {raw : Bytes} {c : CodePoint} (hc : c ∈ b64encode raw) : c.val ≠ 0 := by
  obtain ⟨digits, padding, htext, hdigits, hpads, -⟩ := b64encode_digits raw
  rw [htext, List.mem_append] at hc
  intro hzero
  rcases hc with hc | hc
  · have hsome := hdigits c hc
    rw [show c = ⟨0, by decide⟩ from Fin.ext hzero] at hsome
    exact absurd hsome (by decide)
  · have hpad := of_decide_eq_true (List.all_eq_true.mp hpads c hc)
    rw [hpad] at hzero
    exact absurd hzero (by decide)

theorem b64decodeStrict_b64encode (raw : Bytes) :
    b64decodeStrict (b64encode raw) = some raw := by
  obtain ⟨digits, padding, htext, hdigits, hpads, hlength⟩ := b64encode_digits raw
  have hdrop : (b64encode raw).dropWhile (fun c => (b64Value c).isSome) = padding := by
    rw [htext, List.dropWhile_append_of_pos hdigits]
    cases padding with
    | nil => rfl
    | cons c rest =>
        rw [List.all_cons, Bool.and_eq_true, decide_eq_true_eq] at hpads
        rw [hpads.1, List.dropWhile_cons_of_neg (by decide)]
  rw [b64decodeStrict, hdrop, if_pos ⟨hpads, hlength, length_b64encode_mod raw⟩,
    b64decode_b64encode]

end Signal402
