import Signal402.Base.Interp
import Signal402.Base.Utf8

/-!
# Decimal numerals and plain text

`str(n)` writes the decimal digits of a number without a leading zero, and these
texts are the ones that the modelled parsers take as numerals.  Stripping leaves a
text without white space as it is.
-/

namespace Signal402

theorem isDigitChar_iff {c : CodePoint} :
    PyStr.isDigitChar c = true ↔ 48 ≤ c.val ∧ c.val ≤ 57 := by
  simp [PyStr.isDigitChar]

theorem isDigitChar_of_mem_natText {n : ℕ} {c : CodePoint} (h : c ∈ natText n) :
    PyStr.isDigitChar c = true := by
  obtain ⟨a, ha, rfl⟩ := List.mem_map.mp h
  have hdigit := Nat.isDigit_of_mem_toDigits (by decide) (by decide) ha
  rw [isDigitChar_iff]
  simpa [Char.isDigit, UInt32.le_iff_toNat_le, CodePoint.ofChar] using hdigit

theorem decimalValue_natText (n : ℕ) : PyStr.decimalValue (natText n) = n := by
  rw [PyStr.decimalValue, natText, List.foldl_map]
  exact Nat.ofDigitChars_ten_toDigits

theorem natText_injective : Function.Injective natText := by
  intro m n h
  rw [← decimalValue_natText m, h, decimalValue_natText]

/-- A positive number does not start with a zero. -/
theorem intText_injective : Function.Injective intText := by
  have hsign : ∀ {m n : ℕ}, CodePoint.ofChar '-' :: natText m ≠ natText n := by
    intro m n h
    have hmem : CodePoint.ofChar '-' ∈ natText n := h ▸ List.mem_cons_self
    exact absurd (isDigitChar_of_mem_natText hmem) (by decide)
  intro m n h
  rw [intText, intText] at h
  split at h
  · split at h
    · have habs := natText_injective (List.cons.inj h).2
      omega
    · exact absurd h hsign
  · split at h
    · exact absurd h.symm hsign
    · have habs := natText_injective h
      omega

theorem head_toDigits {n : ℕ} (h : 0 < n) : ∀ c ∈ (Nat.toDigits 10 n).head?, c ≠ '0' := by
  induction n using Nat.strong_induction_on with
  | _ n ih =>
      rw [Nat.toDigits_eq_if (by decide)]
      split_ifs with hn
      · rintro c hc rfl
        have : n.digitChar = '0' := by simpa using hc
        rw [Nat.digitChar_eq_zero] at this
        omega
      · intro c hc
        rw [List.head?_append_of_ne_nil _ Nat.toDigits_ne_nil] at hc
        exact ih (n / 10) (by omega) (by omega) c hc

theorem natText_ne_nil (n : ℕ) : natText n ≠ [] := by
  simp [natText, Nat.toDigits_ne_nil]

theorem isDecimal_natText (n : ℕ) : (natText n).isDecimal = true := by
  rw [PyStr.isDecimal, Bool.and_eq_true, List.all_eq_true]
  exact ⟨by simp [natText_ne_nil], fun c hc => isDigitChar_of_mem_natText hc⟩

theorem isAscii_of_isDecimal {t : PyStr} (h : t.isDecimal = true) : t.isAscii = true := by
  rw [PyStr.isDecimal, Bool.and_eq_true, List.all_eq_true] at h
  rw [PyStr.isAscii, List.all_eq_true]
  intro c hc
  have hdigit := isDigitChar_iff.mp (h.2 c hc)
  exact decide_eq_true (by omega)

/-- Only zero is written with a zero in front. -/
theorem head_natText {n : ℕ} (h : (natText n).head? = some (CodePoint.ofChar '0')) : n = 0 := by
  rcases Nat.eq_zero_or_pos n with hn | hn
  · exact hn
  · rw [natText, List.head?_map, Option.map_eq_some_iff] at h
    obtain ⟨c, hc, hzero⟩ := h
    exact absurd (CodePoint.ofChar_injective hzero) (head_toDigits hn c hc)

theorem natText_length_le_iff {n k : ℕ} (hk : 0 < k) : (natText n).length ≤ k ↔ n < 10 ^ k := by
  rw [natText, List.length_map, Nat.length_toDigits_le_iff (by decide) hk]

theorem decimalValue_append (s : PyStr) (c : CodePoint) :
    PyStr.decimalValue (s ++ [c]) = 10 * PyStr.decimalValue s + (c.val - 48) := by
  simp [PyStr.decimalValue]

theorem natText_fin : ∀ d : Fin 10, natText d = [⟨d + 48, by omega⟩] := by decide

theorem natText_digit {c : CodePoint} (h : PyStr.isDigitChar c = true) :
    natText (c.val - 48) = [c] := by
  obtain ⟨hlow, hhigh⟩ := isDigitChar_iff.mp h
  have hself := natText_fin ⟨c.val - 48, by omega⟩
  rw [hself]
  congr 1
  apply Fin.ext
  simp only
  omega

/-- The digits of a numeral without a leading zero are those that its value is written with. -/
theorem natText_decimalValue {t : PyStr} (hdigits : t.isDecimal = true)
    (hhead : 1 < t.length → t.head? ≠ some (CodePoint.ofChar '0')) :
    natText (PyStr.decimalValue t) = t := by
  induction t using List.reverseRecOn with
  | nil => cases hdigits
  | append_singleton s c ih =>
      rw [PyStr.isDecimal, Bool.and_eq_true, List.all_eq_true] at hdigits
      have hc := hdigits.2 c (by simp)
      cases hs : s with
      | nil =>
          simpa [PyStr.decimalValue] using natText_digit hc
      | cons d rest =>
          have hne : s ≠ [] := by simp [hs]
          have hfirst : s.head? ≠ some (CodePoint.ofChar '0') := by
            have h := hhead (by simp [hs])
            rwa [List.head?_append_of_ne_nil _ hne] at h
          have hself := ih
            (by
              rw [PyStr.isDecimal, Bool.and_eq_true, List.all_eq_true]
              exact ⟨by simp [hne], fun e he => hdigits.2 e (List.mem_append_left _ he)⟩)
            fun _ => hfirst
          -- a value of zero would be written with a zero in front
          have hpos : 0 < PyStr.decimalValue s := by
            rcases Nat.eq_zero_or_pos (PyStr.decimalValue s) with hzero | hpos
            · rw [hzero] at hself
              exact absurd (by rw [← hself]; rfl) hfirst
            · exact hpos
          have hdigit := isDigitChar_iff.mp hc
          rw [← hs, decimalValue_append, natText, Nat.toDigits_eq_if (by decide),
            if_neg (by omega), List.map_append]
          congr 1
          · rw [show (10 * PyStr.decimalValue s + (c.val - 48)) / 10 = PyStr.decimalValue s by omega]
            exact hself
          · have hlow : (10 * PyStr.decimalValue s + (c.val - 48)) % 10 = c.val - 48 := by omega
            rw [hlow, ← natText_digit hc, natText, Nat.toDigits_of_lt_base (by omega)]

/-- The numerals are the texts of digits without a leading zero. -/
theorem isNumeral_iff {t : PyStr} :
    (t.isDecimal = true ∧ (1 < t.length → t.head? ≠ some (CodePoint.ofChar '0'))) ↔
      ∃ n, t = natText n := by
  constructor
  · rintro ⟨hdigits, hhead⟩
    exact ⟨_, (natText_decimalValue hdigits hhead).symm⟩
  · rintro ⟨n, rfl⟩
    refine ⟨isDecimal_natText n, fun hlength hhead => ?_⟩
    rw [head_natText hhead] at hlength
    exact absurd hlength (by decide)

theorem int?_natText (py : Interp) {n : ℕ} (h : n < 10 ^ PyStr.maxIntDigits) :
    py.int? (natText n) = some (n : ℤ) := by
  rw [Interp.int?, if_pos (isDecimal_natText n),
    if_pos ((natText_length_le_iff (by decide)).mpr h), decimalValue_natText]

/-- A power of ten has one digit more than its exponent. -/
theorem length_natText_pow {k : ℕ} (hk : 0 < k) : ¬ (natText ((10 : ℤ) ^ k).natAbs).length ≤ k := by
  have hpow : ((10 : ℤ) ^ k).natAbs = 10 ^ k := Int.natAbs_pow 10 k
  rw [hpow, natText_length_le_iff hk]
  exact lt_irrefl _

theorem int_natText (py : Interp) {n : ℕ} (h : n < 10 ^ PyStr.maxIntDigits) :
    py.int (natText n) = .ok (n : ℤ) := by
  rw [Interp.int, int?_natText py h]

theorem int_natText_eq_ok (py : Interp) {n : ℕ} {k : ℤ} (h : py.int (natText n) = .ok k) : k = n := by
  rw [Interp.int, Interp.int?, if_pos (isDecimal_natText n), decimalValue_natText] at h
  split at h
  · rename_i m hm
    obtain rfl := Except.ok.inj h
    split at hm
    · exact (Option.some.inj hm).symm
    · cases hm
  · cases h

/-! ## Plain text -/

theorem isAscii_iff {s : PyStr} : s.isAscii = true ↔ ∀ c ∈ s, c.val < 128 := by
  simp [PyStr.isAscii, List.all_eq_true]

/-- The ASCII bytes of a text without other characters. -/
def asciiBytes (s : PyStr) : Bytes := s.map fun c => UInt8.ofNat c.val

theorem asciiEncode_eq_ok {s : PyStr} {raw : Bytes} :
    asciiEncode s = .ok raw ↔ s.isAscii = true ∧ raw = asciiBytes s := by
  rw [asciiEncode]
  split
  · rename_i hall
    rw [Except.ok.injEq, eq_comm]
    exact (and_iff_right (isAscii_iff.mpr (by simpa using hall))).symm
  · rename_i hall
    simp only [reduceCtorEq, false_iff, not_and]
    intro hascii
    exact absurd (by simpa using isAscii_iff.mp hascii) hall

theorem asciiBytes_injective {s t : PyStr} (hs : s.isAscii = true) (ht : t.isAscii = true)
    (h : asciiBytes s = asciiBytes t) : s = t := by
  have hback : ∀ {s : PyStr}, s.isAscii = true →
      (asciiBytes s).map CodePoint.ofByte = s := by
    intro s hs
    rw [asciiBytes, List.map_map]
    conv_rhs => rw [← List.map_id s]
    apply List.map_congr_left
    intro c hc
    have hsmall := isAscii_iff.mp hs c hc
    apply Fin.ext
    exact toNat_ofNat (by omega)
  rw [← hback hs, h, hback ht]

theorem asciiEncode_injective {s t : PyStr} {raw : Bytes} (hs : asciiEncode s = .ok raw)
    (ht : asciiEncode t = .ok raw) : s = t := by
  obtain ⟨hascii, hraw⟩ := asciiEncode_eq_ok.mp hs
  obtain ⟨hascii', hraw'⟩ := asciiEncode_eq_ok.mp ht
  exact asciiBytes_injective hascii hascii' (hraw.symm.trans hraw')

theorem startsWith_iff {s t : PyStr} : PyStr.startsWith s t = true ↔ ∃ rest, s = t ++ rest := by
  rw [PyStr.startsWith, List.isPrefixOf_iff_prefix]
  exact ⟨fun ⟨rest, h⟩ => ⟨rest, h.symm⟩, fun ⟨rest, h⟩ => ⟨rest, h.symm⟩⟩

theorem startsWith_singleton {s : PyStr} {c : CodePoint} :
    PyStr.startsWith s [c] = true ↔ s.head? = some c := by
  cases s with
  | nil => simp [PyStr.startsWith]
  | cons d rest =>
      rw [PyStr.startsWith, List.isPrefixOf_iff_prefix, List.head?_cons, Option.some.injEq]
      exact ⟨fun hp => (List.cons_prefix_cons.mp hp).1.symm,
        fun hc => List.cons_prefix_cons.mpr ⟨hc.symm, List.nil_prefix⟩⟩

theorem mem_dropWhile_or {p : CodePoint → Bool} {s : PyStr} {c : CodePoint} (h : c ∈ s) :
    p c = true ∨ c ∈ s.dropWhile p := by
  rw [← List.takeWhile_append_dropWhile (p := p) (l := s)] at h
  rcases List.mem_append.mp h with h | h
  · exact .inl (List.mem_takeWhile_imp h)
  · exact .inr h

theorem mem_of_mem_strip {s : PyStr} {c : CodePoint} (h : c ∈ s.strip) : c ∈ s := by
  have hback := List.mem_reverse.mp h
  have hfront := List.mem_reverse.mp ((List.dropWhile_sublist _).subset hback)
  exact (List.dropWhile_sublist _).subset hfront

/-- ASCII without white space. -/
def isPlain (c : CodePoint) : Bool := decide (c.val < 128) && !PyStr.isSpace c

theorem isPlain_digit {c : CodePoint} (h : PyStr.isDigitChar c = true) : isPlain c = true := by
  obtain ⟨hlow, hhigh⟩ := isDigitChar_iff.mp h
  have hspace : PyStr.isSpace c = false := by
    simp only [PyStr.isSpace, Bool.or_eq_false_iff, Bool.and_eq_false_iff,
      decide_eq_false_iff_not, beq_eq_false_iff_ne]
    omega
  rw [isPlain, hspace, decide_eq_true (show c.val < 128 by omega)]
  rfl

theorem natText_plain (n : ℕ) : (natText n).all isPlain = true :=
  List.all_eq_true.mpr fun _ hc => isPlain_digit (isDigitChar_of_mem_natText hc)

theorem strip_of_plain {s : PyStr} (h : s.all isPlain = true) : s.strip = s := by
  apply PyStr.strip_eq_self
  intro c hc
  have hplain := List.all_eq_true.mp h c hc
  rw [isPlain, Bool.and_eq_true, Bool.not_eq_true'] at hplain
  exact hplain.2

end Signal402
