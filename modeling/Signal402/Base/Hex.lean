import Signal402.Base.Interp

/-!
# Hexadecimal texts

`bytes.hex` and `bytes.fromhex`, which skips white space between the bytes and takes both
letter cases.
-/

namespace Signal402

/-- White space that `bytes.fromhex` skips. -/
def isHexSpace (c : CodePoint) : Bool := (9 ≤ c.val && c.val ≤ 13) || c.val == 32

/-- The value of a hexadecimal digit. -/
def hexDigitValue (c : CodePoint) : ℕ :=
  if PyStr.isDigitChar c then c.val - 48
  else if PyStr.isLowerChar c then c.val - 87
  else c.val - 55

/-- `bytes.fromhex(text)`, and nothing for a `ValueError`. -/
def fromHex : PyStr → Option Bytes
  | [] => some []
  | [c] => if isHexSpace c then some [] else none
  | c :: d :: rest =>
      if isHexSpace c then fromHex (d :: rest)
      else if PyStr.isHexChar c && PyStr.isHexChar d then
        (fromHex rest).map fun raw =>
          UInt8.ofNat (16 * hexDigitValue c + hexDigitValue d) :: raw
      else none

/-- `raw.hex()`. -/
def hexText (raw : Bytes) : PyStr := (hex raw).map CodePoint.ofByte

theorem fromHex_mem {s : PyStr} {raw : Bytes} (h : fromHex s = some raw) {c : CodePoint}
    (hc : c ∈ s) : PyStr.isHexChar c = true ∨ isHexSpace c = true := by
  induction s using fromHex.induct generalizing raw with
  | case1 => cases hc
  | case2 d hspace =>
      rw [List.mem_singleton.mp hc]
      exact .inr hspace
  | case3 d hspace =>
      rw [fromHex, if_neg hspace] at h
      cases h
  | case4 d e rest hspace ih =>
      rw [fromHex, if_pos hspace] at h
      rcases List.mem_cons.mp hc with rfl | hc
      · exact .inr hspace
      · exact ih h hc
  | case5 d e rest hspace hdigits ih =>
      rw [fromHex, if_neg hspace, if_pos hdigits] at h
      obtain ⟨raw, hrest, rfl⟩ := Option.map_eq_some_iff.mp h
      rw [Bool.and_eq_true] at hdigits
      rcases List.mem_cons.mp hc with rfl | hc
      · exact .inl hdigits.1
      · rcases List.mem_cons.mp hc with rfl | hc
        · exact .inl hdigits.2
        · exact ih hrest hc
  | case6 d e rest hspace hdigits =>
      rw [fromHex, if_neg hspace, if_neg hdigits] at h
      cases h

theorem hexText_mem {raw : Bytes} {c : CodePoint} (hc : c ∈ hexText raw) :
    PyStr.isHexChar c = true := by
  obtain ⟨b, hb, rfl⟩ := List.mem_map.mp hc
  obtain ⟨x, -, hx⟩ := List.mem_flatMap.mp hb
  have hdigit : ∀ n < 16, PyStr.isHexChar
      ⟨(hexDigit n).toNat, Nat.lt_trans (hexDigit n).toNat_lt (by decide)⟩ = true := by
    decide
  have hlt := x.toNat_lt
  simp only [List.mem_cons, List.not_mem_nil, or_false] at hx
  rcases hx with rfl | rfl
  · exact hdigit _ (by omega)
  · exact hdigit _ (by omega)

/-- Different bytes have different hexadecimal digits. -/
theorem hex_injective {a b : Bytes} (h : hex a = hex b) : a = b := by
  have hdigit : ∀ m < 16, ∀ n < 16, hexDigit m = hexDigit n → m = n := by decide
  induction a generalizing b with
  | nil =>
      cases b with
      | nil => rfl
      | cons y b => cases h
  | cons x a ih =>
      cases b with
      | nil => cases h
      | cons y b =>
          simp only [hex, List.flatMap_cons, List.cons_append, List.nil_append,
            List.cons.injEq] at h
          obtain ⟨hhigh, hlow, hrest⟩ := h
          have hx := x.toNat_lt
          have hy := y.toNat_lt
          have hhigh := hdigit _ (by omega) _ (by omega) hhigh
          have hlow := hdigit _ (by omega) _ (by omega) hlow
          have hxy : x = y := UInt8.toNat_inj.mp (by omega)
          rw [hxy, ih hrest]

/-- The hexadecimal digits of bytes are read as the bytes. -/
theorem fromHex_hexText (raw : Bytes) : fromHex (hexText raw) = some raw := by
  have hdigit : ∀ n < 16, isHexSpace (CodePoint.ofByte (hexDigit n)) = false ∧
      PyStr.isHexChar (CodePoint.ofByte (hexDigit n)) = true ∧
        hexDigitValue (CodePoint.ofByte (hexDigit n)) = n := by
    decide
  induction raw with
  | nil => rfl
  | cons x raw ih =>
      have hx := x.toNat_lt
      obtain ⟨hspace, hhigh, hvalue⟩ := hdigit (x.toNat / 16) (by omega)
      obtain ⟨-, hlow, hvalue'⟩ := hdigit (x.toNat % 16) (by omega)
      have htext : hexText (x :: raw) = CodePoint.ofByte (hexDigit (x.toNat / 16)) ::
          CodePoint.ofByte (hexDigit (x.toNat % 16)) :: hexText raw := rfl
      have hbyte : UInt8.ofNat (16 * (x.toNat / 16) + x.toNat % 16) = x := by
        rw [Nat.div_add_mod]
        exact UInt8.ofNat_toNat
      rw [htext, fromHex, hspace, if_neg Bool.false_ne_true, hhigh, hlow, ih, hvalue, hvalue']
      simp only [Bool.and_self, ↓reduceIte, Option.map_some, hbyte]

end Signal402
