import Mathlib.Data.List.Forall2
import Signal402.Base.Decimal
import Signal402.Base.JsonText
import Signal402.Base.Utf8

/-!
# What is written as JSON is read back

`Json.Readable levels v` says that the reader can take `v`: at most `levels` lists and
dictionaries are open at a time, integers have the digits that `int` takes, floats are
numbers or infinite, keys are distinct, and no text has a high surrogate before a low one,
which two the reader would join.  On such values `loads` undoes `dumps`.
-/

namespace Signal402

/-! ## Texts -/

/-- No high surrogate stands right before a low one. -/
def Unsplit : PyStr → Prop
  | [] => True
  | [_] => True
  | c :: d :: rest => ¬ (c.isHigh = true ∧ d.isLow = true) ∧ Unsplit (d :: rest)

theorem Unsplit.tail {c : CodePoint} {s : PyStr} (h : Unsplit (c :: s)) : Unsplit s := by
  cases s with
  | nil => trivial
  | cons d s => exact h.2

theorem hexValue_digitChar {d : ℕ} (h : d < 16) :
    hexValue (CodePoint.ofChar (Nat.digitChar d)) = some d := by
  revert d
  decide

theorem hexUnit_hex4 {n : ℕ} (h : n < 65536) (c : CodePoint) (hc : c.val = n) :
    hexUnit (CodePoint.ofChar (Nat.digitChar (n / 4096)))
      (CodePoint.ofChar (Nat.digitChar (n / 256 % 16)))
      (CodePoint.ofChar (Nat.digitChar (n / 16 % 16)))
      (CodePoint.ofChar (Nat.digitChar (n % 16))) = some c := by
  unfold hexUnit
  rw [hexValue_digitChar (by omega), hexValue_digitChar (by omega),
    hexValue_digitChar (by omega), hexValue_digitChar (by omega)]
  simp only [Option.bind_some]
  have hn : ((n / 4096 * 16 + n / 256 % 16) * 16 + n / 16 % 16) * 16 + n % 16 = n := by omega
  rw [dif_pos (by omega)]
  congr 1
  apply Fin.ext
  simp only [hn, hc]

/-- The code units in which a code point may be written. -/
def Units (c : CodePoint) (us : List (Bool × CodePoint)) : Prop :=
  (c.val < 0x10000 ∧ ∃ b, us = [(b, c)]) ∨
    (0x10000 ≤ c.val ∧ ∃ high low : CodePoint, us = [(true, high), (true, low)] ∧
      high.val = 0xD800 + (c.val - 0x10000) / 1024 ∧
      low.val = 0xDC00 + (c.val - 0x10000) % 1024)

/-- A unit that is written as digits. -/
theorem scanUnits_hex {n : ℕ} (h : n < 65536) (c : CodePoint) (hc : c.val = n) (rest : PyStr) :
    scanUnits (PyStr.ofString "\\u" ++ hex4 n ++ rest) =
      (scanUnits rest).map fun r => ((true, c) :: r.1, r.2) := by
  have hu : PyStr.ofString "\\u" = [⟨0x5C, by decide⟩, ⟨0x75, by decide⟩] := by decide
  rw [hu, hex4]
  simp only [List.map_cons, List.map_nil, List.cons_append, List.nil_append]
  rw [scanUnits.eq_def]
  simp only [Nat.reduceEqDiff, ↓reduceIte, hexUnit_hex4 h c hc]

/-- A unit that is written as a letter behind a backslash. -/
theorem scanUnits_letter {e c : CodePoint} (he : e.val ≠ 0x75) (h : simpleEscape e = some c)
    (rest : PyStr) :
    scanUnits (⟨0x5C, by decide⟩ :: e :: rest) =
      (scanUnits rest).map fun r => ((false, c) :: r.1, r.2) := by
  rw [scanUnits.eq_def]
  simp only [Nat.reduceEqDiff, ↓reduceIte, he, h]

/-- A unit that is written as it is. -/
theorem scanUnits_plain {c : CodePoint} (h1 : c.val ≠ 0x22) (h2 : c.val ≠ 0x5C)
    (h3 : 0x20 ≤ c.val) (rest : PyStr) :
    scanUnits (c :: rest) = (scanUnits rest).map fun r => ((false, c) :: r.1, r.2) := by
  rw [scanUnits.eq_def]
  simp only [h1, h2, ↓reduceIte, Nat.not_lt.mpr h3]

/-- The units of a code point are read from the text it is written in. -/
theorem scanUnits_codePoint (c : CodePoint) (rest : PyStr) :
    ∃ us, Units c us ∧ scanUnits (jsonCodePoint c ++ rest) =
      (scanUnits rest).map fun r => (us ++ r.1, r.2) := by
  have hmax := c.isLt
  -- a code point behind a backslash
  have hletter : ∀ (t : PyStr) (e : CodePoint), t = [⟨0x5C, by decide⟩, e] → e.val ≠ 0x75 →
      simpleEscape e = some c → c.val < 0x10000 →
      ∃ us, Units c us ∧ scanUnits (t ++ rest) =
        (scanUnits rest).map fun r => (us ++ r.1, r.2) := by
    rintro t e rfl he hsimple hc
    exact ⟨[(false, c)], .inl ⟨hc, false, rfl⟩, scanUnits_letter he hsimple rest⟩
  unfold jsonCodePoint
  dsimp only
  split_ifs with h1 h2 h3 h4 h5 h6 h7 h8 h9
  · obtain rfl : c = ⟨0x22, by decide⟩ := Fin.ext h1
    exact hletter _ ⟨0x22, by decide⟩ (by decide) (by decide) (by decide) (by decide)
  · obtain rfl : c = ⟨0x5C, by decide⟩ := Fin.ext h2
    exact hletter _ ⟨0x5C, by decide⟩ (by decide) (by decide) (by decide) (by decide)
  · obtain rfl : c = ⟨0x0A, by decide⟩ := Fin.ext h3
    exact hletter _ ⟨0x6E, by decide⟩ (by decide) (by decide) (by decide) (by decide)
  · obtain rfl : c = ⟨0x0D, by decide⟩ := Fin.ext h4
    exact hletter _ ⟨0x72, by decide⟩ (by decide) (by decide) (by decide) (by decide)
  · obtain rfl : c = ⟨0x09, by decide⟩ := Fin.ext h5
    exact hletter _ ⟨0x74, by decide⟩ (by decide) (by decide) (by decide) (by decide)
  · obtain rfl : c = ⟨0x0C, by decide⟩ := Fin.ext h6
    exact hletter _ ⟨0x66, by decide⟩ (by decide) (by decide) (by decide) (by decide)
  · obtain rfl : c = ⟨0x08, by decide⟩ := Fin.ext h7
    exact hletter _ ⟨0x62, by decide⟩ (by decide) (by decide) (by decide) (by decide)
  · refine ⟨[(false, c)], .inl ⟨by omega, false, rfl⟩, ?_⟩
    exact scanUnits_plain h1 h2 h8.1 rest
  · exact ⟨[(true, c)], .inl ⟨h9, true, rfl⟩, scanUnits_hex h9 c rfl rest⟩
  · refine ⟨[(true, ⟨0xD800 + (c.val - 0x10000) / 1024, by omega⟩),
      (true, ⟨0xDC00 + (c.val - 0x10000) % 1024, by omega⟩)], ?_, ?_⟩
    · exact .inr ⟨by omega, _, _, rfl, rfl, rfl⟩
    · have hassoc : ∀ t u v w x : PyStr, t ++ u ++ v ++ w ++ x = t ++ u ++ (v ++ w ++ x) := by
        intro t u v w x
        simp only [List.append_assoc]
      have hhigh : 0xD800 + (c.val - 0x10000) / 1024 < 65536 := by omega
      have hlow : 0xDC00 + (c.val - 0x10000) % 1024 < 65536 := by omega
      rw [hassoc, scanUnits_hex hhigh ⟨_, hhigh.trans (by decide)⟩ rfl,
        scanUnits_hex hlow ⟨_, hlow.trans (by decide)⟩ rfl]
      cases scanUnits rest with
      | error e => rfl
      | ok r => rfl

theorem isHigh_iff {c : CodePoint} : c.isHigh = true ↔ 0xD800 ≤ c.val ∧ c.val ≤ 0xDBFF := by
  simp [CodePoint.isHigh]

theorem isLow_iff {c : CodePoint} : c.isLow = true ↔ 0xDC00 ≤ c.val ∧ c.val ≤ 0xDFFF := by
  simp [CodePoint.isLow]

/-- The two surrogates of a code point are joined. -/
theorem joinUnits_pair {c high low : CodePoint} (hc : 0x10000 ≤ c.val)
    (hhigh : high.val = 0xD800 + (c.val - 0x10000) / 1024)
    (hlow : low.val = 0xDC00 + (c.val - 0x10000) % 1024) (us : List (Bool × CodePoint)) :
    joinUnits ((true, high) :: (true, low) :: us) = c :: joinUnits us := by
  have hmax := c.isLt
  have h1 : high.isHigh = true := isHigh_iff.mpr (by omega)
  have h2 : low.isLow = true := isLow_iff.mpr (by omega)
  have hsum : 0x10000 + (high.val - 0xD800) * 1024 + (low.val - 0xDC00) = c.val := by omega
  have hjoin : joinSurrogates high low = some c := by
    unfold joinSurrogates
    rw [dif_pos (hsum.trans_lt hmax)]
    exact congrArg some (Fin.ext hsum)
  rw [joinUnits, h1, h2, hjoin]
  rfl

/-- A unit that does not begin a pair stays as it is. -/
theorem joinUnits_single {b : Bool} {c : CodePoint} {us : List (Bool × CodePoint)}
    (h : ∀ u ∈ us.head?, ¬ (c.isHigh = true ∧ u.2.isLow = true)) :
    joinUnits ((b, c) :: us) = c :: joinUnits us := by
  cases us with
  | nil => rfl
  | cons u us =>
      rw [joinUnits, if_neg]
      simp only [Bool.and_eq_true]
      rintro ⟨⟨-, hhigh⟩, hlow⟩
      exact h u rfl ⟨hhigh, hlow⟩

/-- A string is read up to its closing quote, in the code points it was written from. -/
theorem scanUnits_text {q : CodePoint} (hq : q.val = 0x22) {s : PyStr} (hs : Unsplit s)
    (rest : PyStr) :
    ∃ us, scanUnits (s.flatMap jsonCodePoint ++ q :: rest) = .ok (us, rest) ∧ joinUnits us = s ∧
      ∀ u ∈ us.head?, u.2.isLow = true → ∃ c ∈ s.head?, c.isLow = true := by
  induction s with
  | nil =>
      refine ⟨[], ?_, rfl, by simp⟩
      rw [List.flatMap_nil, List.nil_append, scanUnits.eq_def]
      simp only [hq, ↓reduceIte]
  | cons c s ih =>
      obtain ⟨us, hscan, hjoin, hhead⟩ := ih hs.tail
      obtain ⟨vs, hvs, hcode⟩ := scanUnits_codePoint c (s.flatMap jsonCodePoint ++ q :: rest)
      refine ⟨vs ++ us, ?_, ?_, ?_⟩
      · rw [List.flatMap_cons, List.append_assoc, hcode, hscan]
        rfl
      · rcases hvs with ⟨-, b, rfl⟩ | ⟨hc, high, low, rfl, hhigh, hlow⟩
        · rw [List.singleton_append, joinUnits_single, hjoin]
          -- a low surrogate after a high one would be the next code point
          rintro u hu ⟨hhigh, hlow⟩
          obtain ⟨d, hd, hdlow⟩ := hhead u hu hlow
          cases s with
          | nil => cases hd
          | cons d' s =>
              cases hd
              exact hs.1 ⟨hhigh, hdlow⟩
        · exact (joinUnits_pair hc hhigh hlow us).trans (by rw [hjoin])
      · rcases hvs with ⟨-, b, rfl⟩ | ⟨hc, high, low, rfl, hhigh, -⟩
        · rintro u hu hlow
          cases hu
          exact ⟨c, rfl, hlow⟩
        · rintro u hu hlow
          cases hu
          have hmax := c.isLt
          have h := isLow_iff.mp hlow
          dsimp only at h
          omega

/-- What stands between the quotes is read as the string it was written for. -/
def Spelled (escape : CodePoint → PyStr) (s : PyStr) : Prop :=
  ∀ rest, scanString ((quoted escape s ++ rest).drop 1) = .ok (s, rest)

/-- A string is read behind its opening quote. -/
theorem spelled_jsonString {s : PyStr} (hs : Unsplit s) : Spelled jsonCodePoint s := by
  intro rest
  have hquote : PyStr.ofString "\"" = [⟨0x22, by decide⟩] := by decide
  obtain ⟨us, hscan, hjoin, -⟩ := scanUnits_text (q := ⟨0x22, by decide⟩) rfl hs rest
  rw [quoted, hquote, List.append_assoc, List.append_assoc, List.singleton_append,
    List.drop_one, List.tail_cons, List.singleton_append, scanString, hscan]
  rw [← hjoin]
  rfl

/-! ## Texts without surrogates -/

/-- No code point is a surrogate. -/
def NoSurrogate (s : PyStr) : Prop := ∀ c ∈ s, c.isSurrogate = false

theorem NoSurrogate.unsplit {s : PyStr} (h : NoSurrogate s) : Unsplit s := by
  induction s with
  | nil => trivial
  | cons c s ih =>
      cases s with
      | nil => trivial
      | cons d s =>
          refine ⟨?_, ih fun a ha => h a (List.mem_cons_of_mem c ha)⟩
          rintro ⟨hhigh, -⟩
          have hc := isSurrogate_eq_false.mp (h c List.mem_cons_self)
          have := isHigh_iff.mp hhigh
          omega

theorem isSurrogate_of_lt {c : CodePoint} (h : c.val < 0xD800) : c.isSurrogate = false := by
  rw [isSurrogate_eq_false]
  omega

theorem noSurrogate_of_isAscii {s : PyStr} (h : s.isAscii = true) : NoSurrogate s := by
  intro c hc
  have hascii := of_decide_eq_true (List.all_eq_true.mp h c hc)
  exact isSurrogate_of_lt (by omega)

/-! ## Numbers -/

/-- Decimal digits, at least one. -/
def DigitRun (s : PyStr) : Prop := s ≠ [] ∧ ∀ c ∈ s, PyStr.isDigitChar c = true

/-- The text of an integer: no zero stands before other digits. -/
def IntPart (i : PyStr) : Prop :=
  ∃ sign ds, i = sign ++ ds ∧ (sign = [] ∨ sign = [CodePoint.ofChar '-']) ∧ DigitRun ds ∧
    ∀ c ∈ ds.head?, c.val = 48 → ds = [c]

/-- The text of a fraction, or nothing. -/
def FracPart (f : PyStr) : Prop :=
  f = [] ∨ ∃ ds, f = CodePoint.ofChar '.' :: ds ∧ DigitRun ds

/-- The text of an exponent, or nothing. -/
def ExpPart (e : PyStr) : Prop :=
  e = [] ∨ ∃ sign ds, e = CodePoint.ofChar 'e' :: (sign ++ ds) ∧
    (sign = [] ∨ sign = [CodePoint.ofChar '-'] ∨ sign = [CodePoint.ofChar '+']) ∧ DigitRun ds

/-- What may stand behind a value that is a part of another: nothing, a comma or a
closing bracket. -/
def Follow (rest : PyStr) : Prop := ∀ c ∈ rest.head?, c.val = 0x2C ∨ c.val = 0x5D ∨ c.val = 0x7D

/-- A text that no digit begins. -/
def NoDigit (rest : PyStr) : Prop := ∀ c ∈ rest.head?, PyStr.isDigitChar c = false

theorem Follow.noDigit {rest : PyStr} (h : Follow rest) : NoDigit rest := by
  intro c hc
  rw [Bool.eq_false_iff, Ne, isDigitChar_iff]
  have := h c hc
  omega

theorem takeWhile_digits {ds rest : PyStr} (hds : DigitRun ds) (hrest : NoDigit rest) :
    (ds ++ rest).takeWhile PyStr.isDigitChar = ds := by
  rw [List.takeWhile_append_of_pos hds.2]
  cases rest with
  | nil => simp
  | cons c rest => simp [hrest c rfl]

theorem dropWhile_digits {ds rest : PyStr} (hds : DigitRun ds) (hrest : NoDigit rest) :
    (ds ++ rest).dropWhile PyStr.isDigitChar = rest := by
  rw [List.dropWhile_append_of_pos hds.2]
  cases rest with
  | nil => rfl
  | cons c rest => rw [List.dropWhile_cons_of_neg (by simp [hrest c rfl])]

theorem scanInt_eq {i : PyStr} (hi : IntPart i) {rest : PyStr} (hrest : NoDigit rest) :
    scanInt (i ++ rest) = some (i, rest) := by
  obtain ⟨sign, ds, rfl, hsign, hds, hzero⟩ := hi
  cases ds with
  | nil => exact absurd rfl hds.1
  | cons d ds =>
      have hd := isDigitChar_iff.mp (hds.2 d List.mem_cons_self)
      have hminus : (d.val == 0x2D) = false := by
        rw [beq_eq_false_iff_ne]
        omega
      have htake : (sign ++ d :: ds ++ rest).takeWhile (fun c => c.val == 0x2D) = sign := by
        rcases hsign with rfl | rfl
        · simp [hminus]
        · rw [List.singleton_append, List.cons_append, List.cons_append, List.takeWhile_cons_of_pos
            (by decide), List.takeWhile_cons_of_neg (by simp [hminus])]
      have hdrop : (sign ++ d :: ds ++ rest).drop sign.length = d :: ds ++ rest := by
        rw [List.append_assoc, List.drop_left]
      have hlength : ¬ 1 < sign.length := by
        rcases hsign with rfl | rfl <;> simp
      rw [scanInt]
      simp only [htake, hdrop, hlength, ↓reduceIte]
      by_cases hd0 : d.val = 48
      · obtain rfl : ds = [] := by
          have := hzero d rfl hd0
          simpa using this
        simp [hd0]
      · have hdigit := hds.2 d List.mem_cons_self
        have htake := takeWhile_digits hds hrest
        have hdrop := dropWhile_digits hds hrest
        rw [List.cons_append] at htake hdrop ⊢
        simp only [hd0, hdigit, htake, hdrop, ↓reduceIte]

theorem scanFrac_eq {f : PyStr} (hf : FracPart f) {rest : PyStr} (hrest : NoDigit rest)
    (hpoint : f = [] → ∀ c ∈ rest.head?, c.val ≠ 0x2E) : scanFrac (f ++ rest) = (f, rest) := by
  rcases hf with rfl | ⟨ds, rfl, hds⟩
  · cases rest with
    | nil => rfl
    | cons c rest =>
        rw [List.nil_append, scanFrac]
        simp [hpoint rfl c rfl]
  · rw [List.cons_append, scanFrac]
    have hpoint : (CodePoint.ofChar '.').val = 0x2E := by decide
    simp only [takeWhile_digits hds hrest, dropWhile_digits hds hrest, hpoint, true_and,
      if_pos hds.1]

theorem scanExp_eq {e : PyStr} (he : ExpPart e) {rest : PyStr} (hrest : Follow rest) :
    scanExp (e ++ rest) = (e, rest) := by
  rcases he with rfl | ⟨sign, ds, rfl, hsign, hds⟩
  · cases rest with
    | nil => rfl
    | cons c rest =>
        have hc := hrest c rfl
        have hletter : ¬ (c.val = 0x65 ∨ c.val = 0x45) := by omega
        rw [List.nil_append, scanExp]
        simp [hletter]
  · cases ds with
    | nil => exact absurd rfl hds.1
    | cons d ds =>
        have hd := isDigitChar_iff.mp (hds.2 d List.mem_cons_self)
        have htake : ((sign ++ d :: ds ++ rest).take 1).filter
            (fun c => c.val == 0x2B || c.val == 0x2D) = sign := by
          rcases hsign with rfl | rfl | rfl
          · have hplus : ¬ (d.val = 0x2B ∨ d.val = 0x2D) := by omega
            simp only [List.nil_append, List.cons_append, List.take_succ_cons, List.take_zero,
              List.filter_cons, List.filter_nil]
            simpa using hplus
          · rfl
          · rfl
        have hdrop : (sign ++ d :: ds ++ rest).drop sign.length = d :: ds ++ rest := by
          rw [List.append_assoc, List.drop_left]
        have hletter : (CodePoint.ofChar 'e').val = 0x65 := by decide
        rw [List.cons_append, scanExp]
        simp only [htake, hdrop, takeWhile_digits hds hrest.noDigit,
          dropWhile_digits hds hrest.noDigit, hletter, true_or, true_and, if_pos hds.1]
        rfl

theorem digitRun_natText (n : ℕ) : DigitRun (natText n) := by
  refine ⟨?_, fun c hc => isDigitChar_of_mem_natText hc⟩
  simp [natText, Nat.toDigits_ne_nil]

theorem intPart_intText (n : ℤ) : IntPart (intText n) := by
  have hzero : ∀ c ∈ (natText n.natAbs).head?, c.val = 48 → natText n.natAbs = [c] := by
    intro c hc hval
    rw [natText, List.head?_map] at hc
    obtain ⟨a, ha, rfl⟩ := Option.map_eq_some_iff.mp hc
    rcases Nat.eq_zero_or_pos n.natAbs with h | h
    · rw [h, Nat.toDigits_zero] at ha
      rw [natText, h, Nat.toDigits_zero]
      cases ha
      rfl
    · have hne := head_toDigits h a ha
      refine absurd ?_ hne
      exact CodePoint.ofChar_injective (Fin.ext hval)
  unfold intText
  split_ifs with h
  · exact ⟨[CodePoint.ofChar '-'], _, rfl, .inr rfl, digitRun_natText _, hzero⟩
  · exact ⟨[], _, rfl, .inl rfl, digitRun_natText _, hzero⟩

theorem digitsOf_intText (n : ℤ) : digitsOf (intText n) = natText n.natAbs := by
  have hdigits : digitsOf (natText n.natAbs) = natText n.natAbs := by
    unfold digitsOf
    rw [List.filter_eq_self]
    exact fun c hc => isDigitChar_of_mem_natText hc
  unfold intText
  split_ifs
  · rw [digitsOf, List.filter_cons_of_neg (by decide)]
    exact hdigits
  · exact hdigits

theorem isNegative_intText (n : ℤ) : isNegative (intText n) = decide (n < 0) := by
  unfold intText
  split_ifs with h
  · simp only [h, decide_true]
    rfl
  · have hrun := digitRun_natText n.natAbs
    cases hds : natText n.natAbs with
    | nil => exact absurd hds hrun.1
    | cons d ds =>
        have hd := isDigitChar_iff.mp (hrun.2 d (by simp [hds]))
        simp only [isNegative, List.head?_cons, Option.any_some, h, decide_false,
          beq_eq_false_iff_ne]
        omega

/-- An integer is read from its text. -/
theorem numberOfParts_intText {hooks : Hooks} {n : ℤ}
    (h : (natText n.natAbs).length ≤ PyStr.maxIntDigits) :
    numberOfParts hooks (intText n) [] [] = .ok (.int n) := by
  rw [numberOfParts, if_pos ⟨rfl, rfl⟩, digitsOf_intText, if_pos h, isNegative_intText,
    decimalValue_natText]
  congr 2
  by_cases hn : n < 0
  · rw [if_pos (decide_eq_true hn)]
    omega
  · rw [if_neg (by simpa using hn)]
    omega

/-! ## Values -/

theorem startsWith_ne {s t : PyStr} {c d : CodePoint} (hs : s.head? = some c)
    (ht : t.head? = some d) (h : d ≠ c) : PyStr.startsWith s t = false := by
  cases s with
  | nil => cases hs
  | cons a s =>
      cases t with
      | nil => cases ht
      | cons b t =>
          cases hs
          cases ht
          simp [PyStr.startsWith, List.isPrefixOf, h]

theorem startsWith_append (t rest : PyStr) : PyStr.startsWith (t ++ rest) t = true := by
  rw [PyStr.startsWith, List.isPrefixOf_iff_prefix]
  exact List.prefix_append t rest

/-- How the text of a value begins: with no white space, no byte order mark and no bracket
that closes a list. -/
def Lead (t : PyStr) : Prop :=
  ∃ c, t.head? = some c ∧ isJsonSpace c = false ∧ c.val ≠ 0x5D ∧ c.val ≠ 0xFEFF

/-- A text is read back as a value, by a reader with so many levels. -/
structure ReadBack (hooks : Hooks) (levels : ℕ) (t : PyStr) (v : Json) : Prop where
  lead : Lead t
  scan : ∀ rest, Follow rest → scanOnce hooks levels (t ++ rest) = .ok (v, rest)

section Scalars

variable {hooks : Hooks} {levels : ℕ}

/-- A text that begins no list and no dictionary is read as a scalar. -/
theorem scanOnce_scalar {s : PyStr} {c : CodePoint} (hs : s.head? = some c)
    (hc : c.val ≠ 0x5B ∧ c.val ≠ 0x7B) : scanOnce hooks levels s = scanScalar hooks s := by
  have h1 : PyStr.startsWith s "[" = false := by
    refine startsWith_ne (d := CodePoint.ofChar '[') hs (by decide) ?_
    rintro rfl
    exact hc.1 (by decide)
  have h2 : PyStr.startsWith s "\x7b" = false := by
    refine startsWith_ne (d := CodePoint.ofChar '\x7b') hs (by decide) ?_
    rintro rfl
    exact hc.2 (by decide)
  cases levels <;> simp [scanOnce, h1, h2]

theorem readBack_scalar {t : PyStr} {v : Json} {c : CodePoint} (ht : t.head? = some c)
    (hlead : isJsonSpace c = false ∧ c.val ≠ 0x5D ∧ c.val ≠ 0xFEFF)
    (hc : c.val ≠ 0x5B ∧ c.val ≠ 0x7B)
    (hscan : ∀ rest, Follow rest → scanScalar hooks (t ++ rest) = .ok (v, rest)) :
    ReadBack hooks levels t v where
  lead := ⟨c, ht, hlead⟩
  scan rest hrest := by
    rw [scanOnce_scalar (by simp [ht]) hc]
    exact hscan rest hrest

/-- The literals other than `name` that may begin a scalar do not begin its text. -/
theorem startsWith_literal {t rest : PyStr} {c : CodePoint} (ht : t.head? = some c) (lit : String)
    {d : CodePoint} (hlit : (PyStr.ofString lit).head? = some d) (h : d ≠ c) :
    PyStr.startsWith (t ++ rest) lit = false :=
  startsWith_ne (by simp [ht]) hlit h

theorem readBack_null : ReadBack hooks levels "null" .null := by
  refine readBack_scalar (c := CodePoint.ofChar 'n') (by decide) (by decide) (by decide) ?_
  intro rest _
  have h1 : PyStr.startsWith (PyStr.ofString "null" ++ rest) "\"" = false :=
    startsWith_literal (c := CodePoint.ofChar 'n') (by decide) _ (d := CodePoint.ofChar '"')
      (by decide) (by decide)
  rw [scanScalar, h1, if_neg (by decide), startsWith_append, if_pos rfl]
  rfl

theorem readBack_bool (b : Bool) :
    ReadBack hooks levels (PyStr.ofString (if b then "true" else "false")) (.bool b) := by
  cases b with
  | true =>
      refine readBack_scalar (c := CodePoint.ofChar 't') (by decide) (by decide) (by decide) ?_
      intro rest _
      have hne : ∀ (lit : String) (d : CodePoint), (PyStr.ofString lit).head? = some d →
          d ≠ CodePoint.ofChar 't' → PyStr.startsWith (PyStr.ofString "true" ++ rest) lit = false :=
        fun lit d => startsWith_literal (by decide) lit
      have h1 := hne "\"" (CodePoint.ofChar '"') (by decide) (by decide)
      have h2 := hne "null" (CodePoint.ofChar 'n') (by decide) (by decide)
      rw [if_pos rfl, scanScalar, h1, if_neg (by decide), h2, if_neg (by decide),
        startsWith_append, if_pos rfl]
      rfl
  | false =>
      refine readBack_scalar (c := CodePoint.ofChar 'f') (by decide) (by decide) (by decide) ?_
      intro rest _
      have hne : ∀ (lit : String) (d : CodePoint), (PyStr.ofString lit).head? = some d →
          d ≠ CodePoint.ofChar 'f' → PyStr.startsWith (PyStr.ofString "false" ++ rest) lit = false :=
        fun lit d => startsWith_literal (by decide) lit
      have h1 := hne "\"" (CodePoint.ofChar '"') (by decide) (by decide)
      have h2 := hne "null" (CodePoint.ofChar 'n') (by decide) (by decide)
      have h3 := hne "true" (CodePoint.ofChar 't') (by decide) (by decide)
      rw [if_neg (by decide), scanScalar, h1, if_neg (by decide), h2, if_neg (by decide), h3,
        if_neg (by decide), startsWith_append, if_pos rfl]
      rfl

/-- The infinities, where the reader takes JavaScript's names for them. -/
theorem readBack_infinity {x : PyFloat} (hname : hooks.constant "Infinity" = .ok (.float x)) :
    ReadBack hooks levels "Infinity" (.float x) := by
  refine readBack_scalar (c := CodePoint.ofChar 'I') (by decide) (by decide) (by decide) ?_
  intro rest _
  have hne : ∀ (lit : String) (d : CodePoint), (PyStr.ofString lit).head? = some d →
      d ≠ CodePoint.ofChar 'I' →
      PyStr.startsWith (PyStr.ofString "Infinity" ++ rest) lit = false :=
    fun lit d => startsWith_literal (by decide) lit
  have h1 := hne "\"" (CodePoint.ofChar '"') (by decide) (by decide)
  have h2 := hne "null" (CodePoint.ofChar 'n') (by decide) (by decide)
  have h3 := hne "true" (CodePoint.ofChar 't') (by decide) (by decide)
  have h4 := hne "false" (CodePoint.ofChar 'f') (by decide) (by decide)
  have h5 := hne "NaN" (CodePoint.ofChar 'N') (by decide) (by decide)
  rw [scanScalar, h1, if_neg (by decide), h2, if_neg (by decide), h3, if_neg (by decide), h4,
    if_neg (by decide), h5, if_neg (by decide), startsWith_append, if_pos rfl, hname]
  rfl

theorem readBack_negInfinity {x : PyFloat} (hname : hooks.constant "-Infinity" = .ok (.float x)) :
    ReadBack hooks levels "-Infinity" (.float x) := by
  refine readBack_scalar (c := CodePoint.ofChar '-') (by decide) (by decide) (by decide) ?_
  intro rest _
  have hne : ∀ (lit : String) (d : CodePoint), (PyStr.ofString lit).head? = some d →
      d ≠ CodePoint.ofChar '-' →
      PyStr.startsWith (PyStr.ofString "-Infinity" ++ rest) lit = false :=
    fun lit d => startsWith_literal (by decide) lit
  have h1 := hne "\"" (CodePoint.ofChar '"') (by decide) (by decide)
  have h2 := hne "null" (CodePoint.ofChar 'n') (by decide) (by decide)
  have h3 := hne "true" (CodePoint.ofChar 't') (by decide) (by decide)
  have h4 := hne "false" (CodePoint.ofChar 'f') (by decide) (by decide)
  have h5 := hne "NaN" (CodePoint.ofChar 'N') (by decide) (by decide)
  have h6 := hne "Infinity" (CodePoint.ofChar 'I') (by decide) (by decide)
  rw [scanScalar, h1, if_neg (by decide), h2, if_neg (by decide), h3, if_neg (by decide), h4,
    if_neg (by decide), h5, if_neg (by decide), h6, if_neg (by decide), startsWith_append,
    if_pos rfl, hname]
  rfl

theorem readBack_quoted {escape : CodePoint → PyStr} {s : PyStr} (hs : Spelled escape s) :
    ReadBack hooks levels (quoted escape s) (.str s) := by
  have hhead : (quoted escape s).head? = some (CodePoint.ofChar '"') := rfl
  refine readBack_scalar hhead (by decide) (by decide) ?_
  intro rest _
  have hquote : PyStr.startsWith (quoted escape s ++ rest) "\"" = true := by
    rw [quoted, List.append_assoc, List.append_assoc]
    exact startsWith_append _ _
  rw [scanScalar, hquote, if_pos rfl, hs rest]
  rfl

/-- A number is read up to what stands behind it. -/
theorem scanScalar_number {i f e rest : PyStr} (hi : IntPart i) (hf : FracPart f)
    (he : ExpPart e) (hrest : Follow rest) :
    scanScalar hooks (i ++ f ++ e ++ rest) =
      (numberOfParts hooks i f e).map fun v => (v, rest) := by
  have hexp : NoDigit (e ++ rest) := by
    rcases he with rfl | ⟨sign, ds, rfl, -, -⟩
    · exact hrest.noDigit
    · rintro c hc
      cases hc
      decide
  have hfrac : NoDigit (f ++ (e ++ rest)) := by
    rcases hf with rfl | ⟨ds, rfl, -⟩
    · exact hexp
    · rintro c hc
      cases hc
      decide
  have hpoint : f = [] → ∀ c ∈ (e ++ rest).head?, c.val ≠ 0x2E := by
    rintro - c hc
    rcases he with rfl | ⟨sign, ds, rfl, -, -⟩
    · have := hrest c hc
      omega
    · cases hc
      decide
  have hscan : scanInt (i ++ f ++ e ++ rest) = some (i, f ++ (e ++ rest)) := by
    rw [List.append_assoc, List.append_assoc]
    exact scanInt_eq hi hfrac
  -- the first code point is a minus sign or a digit, which begins no literal but `-Infinity`
  obtain ⟨sign, ds, rfl, hsign, hds, -⟩ := hi
  cases ds with
  | nil => exact absurd rfl hds.1
  | cons d ds =>
      have hd := isDigitChar_iff.mp (hds.2 d List.mem_cons_self)
      have hdigit : ∀ a : CodePoint, ¬ (48 ≤ a.val ∧ a.val ≤ 57) → a ≠ d := by
        rintro a ha rfl
        exact ha hd
      obtain ⟨c, s, hs, hc⟩ : ∃ c s, sign ++ d :: ds ++ f ++ e ++ rest = c :: s ∧
          ∀ a : CodePoint, ¬ (48 ≤ a.val ∧ a.val ≤ 57) → a.val ≠ 0x2D → a ≠ c := by
        rcases hsign with rfl | rfl
        · exact ⟨d, _, rfl, fun a ha _ => hdigit a ha⟩
        · refine ⟨CodePoint.ofChar '-', _, rfl, ?_⟩
          rintro a - ha rfl
          exact ha (by decide)
      have hinf : PyStr.startsWith (sign ++ d :: ds ++ f ++ e ++ rest) "-Infinity" = false := by
        have hlit : PyStr.ofString "-Infinity" = CodePoint.ofChar '-' :: "Infinity" := by decide
        rcases hsign with rfl | rfl
        · exact startsWith_ne rfl (congrArg List.head? hlit) (hdigit _ (by decide))
        · rw [hlit, PyStr.startsWith, List.singleton_append, List.cons_append, List.cons_append,
            List.cons_append, List.isPrefixOf_cons_cons]
          have := startsWith_ne (s := d :: ds ++ f ++ e ++ rest) (t := "Infinity") rfl rfl
            (hdigit (CodePoint.ofChar 'I') (by decide))
          simpa [PyStr.startsWith] using this
      have hne : ∀ (lit : String) (a : CodePoint), (PyStr.ofString lit).head? = some a →
          ¬ (48 ≤ a.val ∧ a.val ≤ 57) → a.val ≠ 0x2D →
          PyStr.startsWith (sign ++ d :: ds ++ f ++ e ++ rest) lit = false := by
        intro lit a hlit ha ha'
        rw [hs]
        exact startsWith_ne rfl hlit (hc a ha ha')
      have h1 := hne "\"" (CodePoint.ofChar '"') (by decide) (by decide) (by decide)
      have h2 := hne "null" (CodePoint.ofChar 'n') (by decide) (by decide) (by decide)
      have h3 := hne "true" (CodePoint.ofChar 't') (by decide) (by decide) (by decide)
      have h4 := hne "false" (CodePoint.ofChar 'f') (by decide) (by decide) (by decide)
      have h5 := hne "NaN" (CodePoint.ofChar 'N') (by decide) (by decide) (by decide)
      have h6 := hne "Infinity" (CodePoint.ofChar 'I') (by decide) (by decide) (by decide)
      rw [scanScalar, h1, if_neg (by decide), h2, if_neg (by decide), h3, if_neg (by decide), h4,
        if_neg (by decide), h5, if_neg (by decide), h6, if_neg (by decide), hinf,
        if_neg (by decide), hscan]
      simp only [scanFrac_eq hf hexp hpoint, scanExp_eq he hrest]

/-- How the text of a number begins. -/
theorem head_number {i f e : PyStr} (hi : IntPart i) : ∃ c, (i ++ f ++ e).head? = some c ∧
    (isJsonSpace c = false ∧ c.val ≠ 0x5D ∧ c.val ≠ 0xFEFF) ∧ c.val ≠ 0x5B ∧ c.val ≠ 0x7B := by
  obtain ⟨sign, ds, rfl, hsign, hds, -⟩ := hi
  rcases hsign with rfl | rfl
  · cases ds with
    | nil => exact absurd rfl hds.1
    | cons d ds =>
        have hd := isDigitChar_iff.mp (hds.2 d List.mem_cons_self)
        refine ⟨d, rfl, ⟨?_, by omega, by omega⟩, by omega, by omega⟩
        simp only [isJsonSpace, Bool.or_eq_false_iff, beq_eq_false_iff_ne]
        omega
  · exact ⟨CodePoint.ofChar '-', rfl, by decide, by decide⟩

theorem readBack_number {i f e : PyStr} (hi : IntPart i) (hf : FracPart f) (he : ExpPart e)
    {v : Json} (h : numberOfParts hooks i f e = .ok v) :
    ReadBack hooks levels (i ++ f ++ e) v := by
  obtain ⟨c, hhead, hlead, hc⟩ := head_number (f := f) (e := e) hi
  refine readBack_scalar hhead hlead hc ?_
  intro rest hrest
  rw [scanScalar_number hi hf he hrest, h]
  rfl

theorem readBack_int {n : ℤ} (h : (natText n.natAbs).length ≤ PyStr.maxIntDigits) :
    ReadBack hooks levels (intText n) (.int n) := by
  have hread : ReadBack hooks levels (intText n ++ [] ++ []) (.int n) :=
    readBack_number (intPart_intText n) (.inl rfl) (.inl rfl) (numberOfParts_intText h)
  simpa using hread

end Scalars

/-! ## Lists and dictionaries -/

section Containers

variable {scan : PyStr → Except PyError (Json × PyStr)}

theorem skipSpace_lead {t rest : PyStr} (h : Lead t) : skipSpace (t ++ rest) = t ++ rest := by
  obtain ⟨c, hc, hspace, -⟩ := h
  cases t with
  | nil => cases hc
  | cons a t =>
      cases hc
      rw [List.cons_append, skipSpace, List.dropWhile_cons_of_neg (by simp [hspace])]

theorem skipSpace_follow {rest : PyStr} (h : Follow rest) : skipSpace rest = rest := by
  cases rest with
  | nil => rfl
  | cons c rest =>
      have hc := h c rfl
      have hspace : isJsonSpace c = false := by
        simp only [isJsonSpace, Bool.or_eq_false_iff, beq_eq_false_iff_ne]
        omega
      rw [skipSpace, List.dropWhile_cons_of_neg (by simp [hspace])]

theorem joinComma_cons (t t' : PyStr) (ts : List PyStr) :
    joinComma (t :: t' :: ts) = t ++ (CodePoint.ofChar ',' :: joinComma (t' :: ts)) := by
  rw [joinComma, joinComma, List.intersperse_cons_cons]
  rfl

/-- So many texts have at least so many code points. -/
theorem length_le_joinComma {ts : List PyStr} (h : ∀ t ∈ ts, Lead t) (rest : PyStr) :
    ts.length ≤ (joinComma ts ++ rest).length := by
  induction ts with
  | nil => exact Nat.zero_le _
  | cons t ts ih =>
      obtain ⟨c, hc, -⟩ := h t List.mem_cons_self
      have hpos : 1 ≤ t.length := by
        cases t with
        | nil => cases hc
        | cons a t => simp
      cases ts with
      | nil => simpa [joinComma] using Nat.le_add_right_of_le hpos
      | cons t' ts =>
          have := ih fun u hu => h u (List.mem_cons_of_mem t hu)
          rw [joinComma_cons]
          simp only [List.length_append, List.length_cons] at this ⊢
          omega

/-- The comma or the bracket behind a value. -/
theorem follow_cons {c : CodePoint} {rest : PyStr}
    (h : c.val = 0x2C ∨ c.val = 0x5D ∨ c.val = 0x7D) : Follow (c :: rest) := by
  rintro d hd
  cases hd
  exact h

/-- The values of a list are read up to its closing bracket. -/
theorem scanItems_eq {ts : List PyStr} {vs : List Json}
    (h : List.Forall₂ (fun t v => Lead t ∧ ∀ rest, Follow rest → scan (t ++ rest) = .ok (v, rest))
      ts vs) (hne : ts ≠ []) {fuel : ℕ} (hfuel : ts.length ≤ fuel) (rest : PyStr) :
    scanItems scan fuel (joinComma ts ++ (CodePoint.ofChar ']' :: rest)) = .ok (vs, rest) := by
  induction h generalizing fuel with
  | nil => exact absurd rfl hne
  | @cons t v ts vs hv hrest ih =>
      cases fuel with
      | zero => cases hfuel
      | succ fuel =>
          cases hrest with
          | nil =>
              have hfollow : Follow (CodePoint.ofChar ']' :: rest) := follow_cons (by decide)
              have hcomma : PyStr.startsWith (CodePoint.ofChar ']' :: rest) "," = false :=
                startsWith_ne rfl (d := CodePoint.ofChar ',') (by decide) (by decide)
              have hclose : PyStr.startsWith (CodePoint.ofChar ']' :: rest) "]" = true :=
                startsWith_append "]" rest
              have hjoin : joinComma [t] = t := by simp [joinComma]
              rw [hjoin, scanItems, hv.2 _ hfollow]
              simp only [Except.bind, skipSpace_follow hfollow, hcomma, hclose, ↓reduceIte,
                Bool.false_eq_true]
              rfl
          | @cons t' v' ts vs hv' hrest =>
              have hfollow : ∀ s, Follow (CodePoint.ofChar ',' :: s) :=
                fun s => follow_cons (by decide)
              have hcomma : ∀ s, PyStr.startsWith (CodePoint.ofChar ',' :: s) "," = true :=
                fun s => startsWith_append "," s
              have hlead : Lead (joinComma (t' :: ts)) := by
                obtain ⟨c, hc, hlead⟩ := hv'.1
                refine ⟨c, ?_, hlead⟩
                cases ts with
                | nil => simpa [joinComma] using hc
                | cons u ts => simp [joinComma_cons, hc]
              have ih := ih (by simp) (Nat.le_of_succ_le_succ hfuel)
              rw [joinComma_cons, List.append_assoc, List.cons_append, scanItems,
                hv.2 _ (hfollow _)]
              simp only [Except.bind, skipSpace_follow (hfollow _), hcomma,
                ↓reduceIte, List.drop_one, List.tail_cons, skipSpace_lead hlead, ih]
              rfl

section Members

variable {escape : CodePoint → PyStr}

/-- The text of a member of a dictionary. -/
def memberText (escape : CodePoint → PyStr) (k t : PyStr) : PyStr :=
  quoted escape k ++ PyStr.ofString ":" ++ t

theorem memberText_lead (k t : PyStr) : Lead (memberText escape k t) :=
  ⟨CodePoint.ofChar '"', rfl, by decide⟩

/-- The texts of members begin with a quote. -/
theorem head_members (m : PyStr × Json) (t : PyStr) (d : Dict) (ts : List PyStr) :
    (joinComma (List.zipWith (fun m t => memberText escape m.1 t) (m :: d) (t :: ts))).head? =
      some (CodePoint.ofChar '"') := by
  rw [List.zipWith_cons_cons]
  cases List.zipWith (fun m t => memberText escape m.1 t) d ts with
  | nil => rfl
  | cons u us =>
      rw [joinComma_cons]
      rfl

/-- A member is read up to what stands behind it. -/
theorem scanMembers_step {k t s : PyStr} {v : Json} (hk : Spelled escape k) (ht : Lead t)
    (hv : scan (t ++ s) = .ok (v, s)) (fuel : ℕ) :
    scanMembers scan (fuel + 1) (memberText escape k t ++ s) =
      (if PyStr.startsWith (skipSpace s) "," then
        (scanMembers scan fuel (skipSpace ((skipSpace s).drop 1))).map fun q =>
          ((k, v) :: q.1, q.2)
      else if PyStr.startsWith (skipSpace s) "\x7d" then .ok ([(k, v)], (skipSpace s).drop 1)
      else .error (.jsonDecode "Expecting ',' delimiter")) := by
  have hassoc : memberText escape k t ++ s = quoted escape k ++ (CodePoint.ofChar ':' :: (t ++ s)) := by
    rw [memberText, List.append_assoc, List.append_assoc]
    rfl
  have hquote : PyStr.startsWith (quoted escape k ++ (CodePoint.ofChar ':' :: (t ++ s))) "\"" =
      true := by
    rw [quoted, List.append_assoc, List.append_assoc]
    exact startsWith_append _ _
  have hcolon : ∀ r, skipSpace (CodePoint.ofChar ':' :: r) = CodePoint.ofChar ':' :: r := by
    intro r
    rw [skipSpace, List.dropWhile_cons_of_neg (by decide)]
  have hstarts : PyStr.startsWith (CodePoint.ofChar ':' :: (t ++ s)) ":" = true :=
    startsWith_append ":" _
  rw [hassoc, scanMembers, hquote, hk _]
  simp only [Bool.not_true, Bool.false_eq_true, ↓reduceIte, Except.bind, hcolon, hstarts,
    List.drop_one, List.tail_cons, skipSpace_lead ht, hv]

/-- The members of a dictionary are read up to its closing brace. -/
theorem scanMembers_eq {d : Dict} {ts : List PyStr}
    (h : List.Forall₂ (fun (m : PyStr × Json) t => Spelled escape m.1 ∧ Lead t ∧
      ∀ rest, Follow rest → scan (t ++ rest) = .ok (m.2, rest)) d ts)
    (hne : d ≠ []) {fuel : ℕ} (hfuel : d.length ≤ fuel) (rest : PyStr) :
    scanMembers scan fuel (joinComma (List.zipWith (fun m t => memberText escape m.1 t) d ts) ++
      (CodePoint.ofChar '\x7d' :: rest)) = .ok (d, rest) := by
  induction h generalizing fuel with
  | nil => exact absurd rfl hne
  | @cons m t d ts hm hrest ih =>
      obtain ⟨hk, ht, hv⟩ := hm
      cases fuel with
      | zero => cases hfuel
      | succ fuel =>
          cases hrest with
          | nil =>
              have hfollow : Follow (CodePoint.ofChar '\x7d' :: rest) := follow_cons (by decide)
              have hcomma : PyStr.startsWith (CodePoint.ofChar '\x7d' :: rest) "," = false :=
                startsWith_ne rfl (d := CodePoint.ofChar ',') (by decide) (by decide)
              have hclose : PyStr.startsWith (CodePoint.ofChar '\x7d' :: rest) "\x7d" = true :=
                startsWith_append "\x7d" rest
              have hjoin : joinComma [memberText escape m.1 t] = memberText escape m.1 t := by simp [joinComma]
              rw [List.zipWith_cons_cons, List.zipWith_nil_left, hjoin,
                scanMembers_step hk ht (hv _ hfollow)]
              simp only [skipSpace_follow hfollow, hcomma, hclose, ↓reduceIte,
                Bool.false_eq_true]
              rfl
          | @cons m' t' d ts hm' hrest =>
              have hfollow : ∀ s, Follow (CodePoint.ofChar ',' :: s) :=
                fun s => follow_cons (by decide)
              have hcomma : ∀ s, PyStr.startsWith (CodePoint.ofChar ',' :: s) "," = true :=
                fun s => startsWith_append "," s
              have hlead : Lead (joinComma
                  (List.zipWith (fun m t => memberText escape m.1 t) (m' :: d) (t' :: ts))) :=
                ⟨CodePoint.ofChar '"', head_members m' t' d ts, by decide⟩
              have ih := ih (by simp) (Nat.le_of_succ_le_succ hfuel)
              rw [List.zipWith_cons_cons, List.zipWith_cons_cons, joinComma_cons,
                List.append_assoc, List.cons_append, scanMembers_step hk ht (hv _ (hfollow _)),
                ← List.zipWith_cons_cons (f := fun (m : PyStr × Json) t => memberText escape m.1 t)]
              simp only [skipSpace_follow (hfollow _), hcomma, ↓reduceIte, List.drop_one,
                List.tail_cons, skipSpace_lead hlead, ih]
              rfl

end Members

end Containers

/-- A pair of a new key goes to the end of a dictionary. -/
theorem Dict.set_new {d : Dict} {k : PyStr} (h : k ∉ d.map Prod.fst) (v : Json) :
    d.set k v = d ++ [(k, v)] := by
  induction d with
  | nil => rfl
  | cons m d ih =>
      obtain ⟨k', v'⟩ := m
      simp only [List.map_cons, List.mem_cons, not_or] at h
      rw [Dict.set, if_neg (Ne.symm h.1), ih h.2]
      rfl

/-- Pairs of distinct keys are the dictionary they are put in. -/
theorem dictOfPairs_eq {d : Dict} (h : (d.map Prod.fst).Nodup) : dictOfPairs d = d := by
  have hfold : ∀ (d acc : Dict), ((acc ++ d).map Prod.fst).Nodup →
      d.foldl (fun a m => a.set m.1 m.2) acc = acc ++ d := by
    intro d
    induction d with
    | nil => simp
    | cons m d ih =>
        intro acc hnodup
        have hnew : m.1 ∉ acc.map Prod.fst := by
          rw [List.map_append, List.nodup_append] at hnodup
          exact fun hm => hnodup.2.2 m.1 hm m.1 List.mem_cons_self rfl
        rw [List.foldl_cons, Dict.set_new hnew, ih]
        · simp
        · simpa using hnodup
  exact hfold d [] h

/-! ## The round trip -/

/-- The text that `repr` gives a float is a number that `float` reads back as that float. -/
def Interp.ReadsBack (py : Interp) (x : PyFloat) : Prop :=
  ∃ i f e, IntPart i ∧ FracPart f ∧ ExpPart e ∧ ¬ (f = [] ∧ e = []) ∧
    py.repr (.float x) = i ++ f ++ e ∧ floatOfParts i f e = x

/-- A value that can be read with so many levels of lists and dictionaries, by a reader
that takes the names of the infinities where they stand. -/
inductive Json.Readable (py : Interp) (constant : Constants) : ℕ → Json → Prop
  | null {n} : Readable py constant n .null
  | bool {n} (b : Bool) : Readable py constant n (.bool b)
  | int {n k} (h : (natText k.natAbs).length ≤ PyStr.maxIntDigits) :
      Readable py constant n (.int k)
  | float {n x} (hfinite : x.isFinite = true) (h : py.ReadsBack x) :
      Readable py constant n (.float x)
  | infinity {n} (h : constant "Infinity" = .ok (.float PyFloat.infinity)) :
      Readable py constant n (.float PyFloat.infinity)
  | negInfinity {n} (h : constant "-Infinity" = .ok (.float PyFloat.negInfinity)) :
      Readable py constant n (.float PyFloat.negInfinity)
  | str {n s} (h : Unsplit s) : Readable py constant n (.str s)
  | arr {n items} (h : ∀ v ∈ items, Readable py constant n v) :
      Readable py constant (n + 1) (.arr items)
  | obj {n d} (hkeys : (d.map Prod.fst).Nodup) (htext : ∀ m ∈ d, Unsplit m.1)
      (h : ∀ m ∈ d, Readable py constant n m.2) : Readable py constant (n + 1) (.obj d)

variable {py : Interp} {hooks : Hooks}

/-- A finite float is written as its `repr`: the three other texts stand for floats that are
not finite. -/
theorem jsonFloat_of_isFinite {x : PyFloat} (h : x.isFinite = true) :
    jsonFloat py x = py.repr (.float x) := by
  rw [PyFloat.isFinite] at h
  rw [jsonFloat]
  cases hx : x.unpack with
  | zero sign => rfl
  | finite sign m e hm => rfl
  | infinity sign =>
      rw [hx] at h
      cases h
  | notANumber =>
      rw [hx] at h
      cases h

theorem readBack_float {levels : ℕ} {x : PyFloat} (hfinite : x.isFinite = true)
    (h : py.ReadsBack x) (hfloat : hooks.float x = .ok (.float x)) :
    ReadBack hooks levels (jsonFloat py x) (.float x) := by
  obtain ⟨i, f, e, hi, hf, he, hparts, hrepr, hvalue⟩ := h
  rw [jsonFloat_of_isFinite hfinite, hrepr]
  apply readBack_number hi hf he
  rw [numberOfParts, if_neg hparts, hvalue, hfloat]

section Texts

variable {R : PyStr → Json → Prop}

/-- The texts of the values of a list, in order. -/
theorem Json.dumpsAll_eq_ok {items : List Json}
    (h : ∀ v ∈ items, ∃ t, v.dumps py = .ok t ∧ R t v) :
    ∃ ts, Json.dumpsAll py items = .ok ts ∧ List.Forall₂ R ts items := by
  induction items with
  | nil => exact ⟨[], rfl, .nil⟩
  | cons v items ih =>
      obtain ⟨t, ht, hR⟩ := h v List.mem_cons_self
      obtain ⟨ts, hts, hRs⟩ := ih fun u hu => h u (List.mem_cons_of_mem v hu)
      refine ⟨t :: ts, ?_, .cons hR hRs⟩
      rw [Json.dumpsAll, ht, hts]
      rfl

/-- The texts of the members of a dictionary, in order. -/
theorem Json.dumpsMembers_eq_ok {d : Dict}
    (h : ∀ m ∈ d, ∃ t, m.2.dumps py = .ok t ∧ R t m.2) :
    ∃ ts, Json.dumpsMembers py d = .ok (List.zipWith (fun m t => memberText jsonCodePoint m.1 t) d ts) ∧
      List.Forall₂ (fun (m : PyStr × Json) t => R t m.2) d ts := by
  induction d with
  | nil => exact ⟨[], rfl, .nil⟩
  | cons m d ih =>
      obtain ⟨t, ht, hR⟩ := h m List.mem_cons_self
      obtain ⟨ts, hts, hRs⟩ := ih fun u hu => h u (List.mem_cons_of_mem m hu)
      refine ⟨t :: ts, ?_, .cons hR hRs⟩
      rw [Json.dumpsMembers, ht, hts]
      rfl

end Texts

theorem readBack_arr {levels : ℕ} {ts : List PyStr} {items : List Json}
    (h : List.Forall₂ (fun t v => ReadBack hooks levels t v) ts items) :
    ReadBack hooks (levels + 1) (PyStr.ofString "[" ++ joinComma ts ++ PyStr.ofString "]")
      (.arr items) := by
  refine ⟨⟨CodePoint.ofChar '[', rfl, by decide⟩, ?_⟩
  intro rest _
  have hassoc : PyStr.ofString "[" ++ joinComma ts ++ PyStr.ofString "]" ++ rest =
      CodePoint.ofChar '[' :: (joinComma ts ++ (CodePoint.ofChar ']' :: rest)) := by
    simp only [List.append_assoc]
    rfl
  have hopen : ∀ s, PyStr.startsWith (CodePoint.ofChar '[' :: s) "[" = true :=
    fun s => startsWith_append "[" s
  have hbacks : List.Forall₂ (fun t v => Lead t ∧ ∀ rest, Follow rest →
      scanOnce hooks levels (t ++ rest) = .ok (v, rest)) ts items :=
    h.imp fun t v h => ⟨h.lead, h.scan⟩
  have hleads := ((List.forall₂_and_left ts items).mp hbacks).1
  rw [hassoc, scanOnce, if_pos (hopen _), List.drop_one, List.tail_cons, scanArray]
  cases h with
  | nil => rfl
  | @cons t v ts items hv hvs =>
      have hlead : Lead (joinComma (t :: ts)) := by
        obtain ⟨c, hc, hlead⟩ := hv.lead
        refine ⟨c, ?_, hlead⟩
        cases ts with
        | nil => simpa [joinComma] using hc
        | cons u ts => simp [joinComma_cons, hc]
      have hclose : PyStr.startsWith (joinComma (t :: ts) ++ (CodePoint.ofChar ']' :: rest)) "]" =
          false := by
        obtain ⟨c, hc, -, hbracket, -⟩ := hlead
        refine startsWith_ne (c := c) (d := CodePoint.ofChar ']') (by simp [hc]) (by decide) ?_
        rintro rfl
        exact hbracket (by decide)
      have hfuel := length_le_joinComma hleads (CodePoint.ofChar ']' :: rest)
      simp only [skipSpace_lead hlead, hclose, Bool.false_eq_true, ↓reduceIte,
        scanItems_eq hbacks (by simp) hfuel rest]
      rfl

theorem readBack_obj {escape : CodePoint → PyStr} {levels : ℕ} {ts : List PyStr} {d : Dict}
    (hpairs : hooks.pairs d = .ok (.obj d)) (htext : ∀ m ∈ d, Spelled escape m.1)
    (h : List.Forall₂ (fun (m : PyStr × Json) t => ReadBack hooks levels t m.2) d ts) :
    ReadBack hooks (levels + 1)
      (PyStr.ofString "\x7b" ++ joinComma (List.zipWith (fun m t => memberText escape m.1 t) d ts) ++
        PyStr.ofString "\x7d") (.obj d) := by
  refine ⟨⟨CodePoint.ofChar '\x7b', rfl, by decide⟩, ?_⟩
  intro rest _
  have hassoc : ∀ t : PyStr, PyStr.ofString "\x7b" ++ t ++ PyStr.ofString "\x7d" ++ rest =
      CodePoint.ofChar '\x7b' :: (t ++ (CodePoint.ofChar '\x7d' :: rest)) := by
    intro t
    simp only [List.append_assoc]
    rfl
  have hlist : ∀ s, PyStr.startsWith (CodePoint.ofChar '\x7b' :: s) "[" = false :=
    fun s => startsWith_ne rfl (d := CodePoint.ofChar '[') (by decide) (by decide)
  have hopen : ∀ s, PyStr.startsWith (CodePoint.ofChar '\x7b' :: s) "\x7b" = true :=
    fun s => startsWith_append "\x7b" s
  have hbacks : List.Forall₂ (fun (m : PyStr × Json) t => Spelled escape m.1 ∧ Lead t ∧
      ∀ rest, Follow rest → scanOnce hooks levels (t ++ rest) = .ok (m.2, rest)) d ts := by
    refine (List.forall₂_and_left d ts).mpr ⟨htext, ?_⟩
    exact h.imp fun m t h => ⟨h.lead, h.scan⟩
  have hlength : d.length =
      (List.zipWith (fun (m : PyStr × Json) t => memberText escape m.1 t) d ts).length := by
    rw [List.length_zipWith, h.length_eq, min_self]
  have hleads : ∀ t ∈ List.zipWith (fun (m : PyStr × Json) t => memberText escape m.1 t) d ts, Lead t := by
    intro t ht
    rw [← List.map_uncurry_zip_eq_zipWith] at ht
    obtain ⟨p, -, rfl⟩ := List.mem_map.mp ht
    exact memberText_lead p.1.1 p.2
  have hfuel := length_le_joinComma hleads (CodePoint.ofChar '\x7d' :: rest)
  rw [hassoc, scanOnce, hlist, if_neg (by decide), if_pos (hopen _), List.drop_one, List.tail_cons,
    scanObject]
  cases h with
  | nil =>
      have hclose : PyStr.startsWith (CodePoint.ofChar '\x7d' :: rest) "\x7d" = true :=
        startsWith_append "\x7d" rest
      have hspace : skipSpace (CodePoint.ofChar '\x7d' :: rest) = CodePoint.ofChar '\x7d' :: rest :=
        skipSpace_follow (follow_cons (by decide))
      rw [List.zipWith_nil_left]
      simp only [joinComma, List.intersperse_nil, List.flatten_nil, List.nil_append, hspace, hclose,
        ↓reduceIte, hpairs, Except.map, List.drop_one, List.tail_cons]
  | @cons m t d ts hv hvs =>
      have hhead : (joinComma (List.zipWith (fun m t => memberText escape m.1 t)
          (m :: d) (t :: ts))).head? = some (CodePoint.ofChar '"') := head_members m t d ts
      have hlead : Lead (joinComma
          (List.zipWith (fun m t => memberText escape m.1 t) (m :: d) (t :: ts))) :=
        ⟨CodePoint.ofChar '"', hhead, by decide⟩
      have hclose : PyStr.startsWith (joinComma
          (List.zipWith (fun m t => memberText escape m.1 t) (m :: d) (t :: ts)) ++
            (CodePoint.ofChar '\x7d' :: rest)) "\x7d" = false :=
        startsWith_ne (c := CodePoint.ofChar '"') (d := CodePoint.ofChar '\x7d')
          (by rw [List.head?_append, hhead]; rfl) (by decide) (by decide)
      simp only [skipSpace_lead hlead, hclose, Bool.false_eq_true, ↓reduceIte,
        scanMembers_eq hbacks (by simp) (hlength.trans_le hfuel) rest, Except.bind, Except.map,
        hpairs]

/-- The whole text is read. -/
theorem ReadBack.loadsWith_eq {levels : ℕ} {t : PyStr} {v : Json}
    (h : ReadBack hooks levels t v) : loadsWith hooks levels t = .ok v := by
  have hscan := h.scan [] (by simp [Follow])
  have hspace : skipSpace (t ++ []) = t ++ [] := skipSpace_lead h.lead
  rw [List.append_nil] at hscan hspace
  obtain ⟨c, hc, -, -, hbom⟩ := h.lead
  have hmark : (t.head?.any fun c => c.val == 0xFEFF) = false := by
    rw [hc]
    simpa using hbom
  rw [loadsWith, hmark, if_neg (by decide), hspace, hscan]
  rfl

variable {constant : Constants}

/-- What is written as JSON is read back, whatever stands behind it. -/
theorem Json.Readable.readBack {levels : ℕ} {v : Json} (h : v.Readable py constant levels) :
    ∃ t, v.dumps py = .ok t ∧ ReadBack constant.hooks levels t v := by
  induction h with
  | null => exact ⟨_, rfl, readBack_null⟩
  | bool b =>
      refine ⟨PyStr.ofString (if b then "true" else "false"), ?_, readBack_bool b⟩
      cases b <;> rfl
  | @int n k h => exact ⟨intText k, by rw [Json.dumps, jsonInt, if_pos h], readBack_int h⟩
  | float hfinite h => exact ⟨_, rfl, readBack_float hfinite h rfl⟩
  | infinity h => exact ⟨_, rfl, readBack_infinity h⟩
  | negInfinity h => exact ⟨_, rfl, readBack_negInfinity h⟩
  | str h => exact ⟨_, rfl, readBack_quoted (spelled_jsonString h)⟩
  | @arr n items _ ih =>
      obtain ⟨ts, hts, hbacks⟩ := Json.dumpsAll_eq_ok ih
      exact ⟨_, by rw [Json.dumps, hts]; rfl, readBack_arr hbacks⟩
  | @obj n d hkeys htext _ ih =>
      obtain ⟨ts, hts, hbacks⟩ := Json.dumpsMembers_eq_ok ih
      have hpairs : constant.hooks.pairs d = .ok (.obj d) := by
        change Except.ok (Json.obj (dictOfPairs d)) = _
        rw [dictOfPairs_eq hkeys]
      exact ⟨_, by rw [Json.dumps, hts]; rfl,
        readBack_obj hpairs (fun m hm => spelled_jsonString (htext m hm)) hbacks⟩

/-- A value that can be read is written as a text, and the text is read as that value. -/
theorem Json.Readable.loads_dumps {levels : ℕ} {v : Json} (h : v.Readable py constant levels) :
    ∃ t, v.dumps py = .ok t ∧ loads constant levels t = .ok v := by
  obtain ⟨t, ht, hback⟩ := h.readBack
  exact ⟨t, ht, hback.loadsWith_eq⟩

/-- A dictionary with keys of ASCII can be read when its values can. -/
theorem Json.Readable.obj_ascii {n : ℕ} {d : Dict} (hkeys : (d.map Prod.fst).Nodup)
    (hascii : (d.all fun m => PyStr.isAscii m.1) = true)
    (h : ∀ m ∈ d, m.2.Readable py constant n) : (Json.obj d).Readable py constant (n + 1) :=
  .obj hkeys
    (fun m hm => (noSurrogate_of_isAscii (List.all_eq_true.mp hascii m hm)).unsplit) h

/-- More levels read more. -/
theorem Json.Readable.mono {n m : ℕ} {v : Json} (h : v.Readable py constant n) (hle : n ≤ m) :
    v.Readable py constant m := by
  induction h generalizing m with
  | null => exact .null
  | bool b => exact .bool b
  | int h => exact .int h
  | float hfinite h => exact .float hfinite h
  | infinity h => exact .infinity h
  | negInfinity h => exact .negInfinity h
  | str h => exact .str h
  | arr _ ih =>
      cases m with
      | zero => cases hle
      | succ m => exact .arr fun v hv => ih v hv (Nat.le_of_succ_le_succ hle)
  | obj hkeys htext _ ih =>
      cases m with
      | zero => cases hle
      | succ m => exact .obj hkeys htext fun a ha => ih a ha (Nat.le_of_succ_le_succ hle)

/-! ## ASCII -/

theorem digitChar_ascii (d : ℕ) : (CodePoint.ofChar (Nat.digitChar d)).val < 128 := by
  rcases Nat.lt_or_ge d 16 with h | h
  · revert d
    decide
  · rw [Nat.digitChar_eq_star.mpr h]
    decide

theorem isAscii_append {s t : PyStr} :
    (s ++ t).isAscii = true ↔ s.isAscii = true ∧ t.isAscii = true := by
  simp [PyStr.isAscii]

theorem hex4_isAscii (n : ℕ) : (hex4 n).isAscii = true := by
  simp [hex4, PyStr.isAscii, digitChar_ascii]

theorem jsonCodePoint_isAscii (c : CodePoint) : (jsonCodePoint c).isAscii = true := by
  have hescape : (PyStr.ofString "\\u").isAscii = true := by decide
  unfold jsonCodePoint
  dsimp only
  split_ifs with h1 h2 h3 h4 h5 h6 h7 h8 h9
  · decide
  · decide
  · decide
  · decide
  · decide
  · decide
  · decide
  · have hc : c.val < 128 := by omega
    simpa [PyStr.isAscii] using hc
  · exact isAscii_append.mpr ⟨hescape, hex4_isAscii _⟩
  · rw [isAscii_append, isAscii_append, isAscii_append]
    exact ⟨⟨⟨hescape, hex4_isAscii _⟩, hescape⟩, hex4_isAscii _⟩

/-- The text of a string is ASCII, whatever the string is. -/
theorem jsonString_isAscii (s : PyStr) : (jsonString s).isAscii = true := by
  have hquote : (PyStr.ofString "\"").isAscii = true := by decide
  rw [jsonString, quoted, isAscii_append, isAscii_append]
  refine ⟨⟨hquote, ?_⟩, hquote⟩
  induction s with
  | nil => rfl
  | cons c s ih => exact isAscii_append.mpr ⟨jsonCodePoint_isAscii c, ih⟩

theorem joinComma_isAscii {ts : List PyStr} (h : ∀ t ∈ ts, PyStr.isAscii t = true) :
    (joinComma ts).isAscii = true := by
  induction ts with
  | nil => rfl
  | cons t ts ih =>
      have ht := h t List.mem_cons_self
      cases ts with
      | nil => simpa [joinComma] using ht
      | cons t' ts =>
          rw [joinComma_cons, ← List.singleton_append, isAscii_append, isAscii_append]
          exact ⟨ht, by decide, ih fun u hu => h u (List.mem_cons_of_mem t hu)⟩

/-- The text of a dictionary is ASCII when the texts of its values are. -/
theorem Json.dumps_obj_isAscii {d : Dict} {raw : PyStr}
    (h : ∀ m ∈ d, ∃ t, m.2.dumps py = .ok t ∧ t.isAscii = true)
    (hraw : (Json.obj d).dumps py = .ok raw) : raw.isAscii = true := by
  obtain ⟨ts, hts, hascii⟩ :=
    Json.dumpsMembers_eq_ok (R := fun t _ => PyStr.isAscii t = true) h
  rw [Json.dumps, hts] at hraw
  cases hraw
  rw [isAscii_append, isAscii_append]
  refine ⟨⟨by decide, joinComma_isAscii ?_⟩, by decide⟩
  intro t ht
  rw [← List.map_uncurry_zip_eq_zipWith] at ht
  obtain ⟨p, hp, rfl⟩ := List.mem_map.mp ht
  have hvalue := List.forall₂_zip hascii hp
  exact isAscii_append.mpr ⟨isAscii_append.mpr ⟨jsonString_isAscii _, by decide⟩, hvalue⟩

end Signal402
