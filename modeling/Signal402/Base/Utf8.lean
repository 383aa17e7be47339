import Signal402.Base.Text

/-!
# UTF-8

`utf8Decode` reads the well-formed sequences of one to four bytes and nothing else: no
overlong form, no surrogate, nothing beyond the last code point.

* `utf8Decode_utf8Bytes` — it reads back what was written without surrogates;
* `utf8Bytes_of_utf8Decode` — what it reads is written in one way only.
-/

namespace Signal402

/-- The UTF-8 bytes of a text without surrogates. -/
def utf8Bytes (s : PyStr) : Bytes := s.flatMap utf8CodePoint

theorem utf8Encode_eq_ok {s : PyStr} {raw : Bytes} :
    utf8Encode s = .ok raw ↔ s.any CodePoint.isSurrogate = false ∧ raw = utf8Bytes s := by
  unfold utf8Encode
  by_cases h : s.any CodePoint.isSurrogate = true
  · rw [if_pos h, h]
    simp
  · rw [if_neg h, Except.ok.injEq, eq_comm]
    rw [Bool.not_eq_true] at h
    exact ⟨fun hraw => ⟨h, hraw⟩, fun hraw => hraw.2⟩

/-- A code point takes at least one byte. -/
theorem length_le_utf8Bytes (s : PyStr) : s.length ≤ (utf8Bytes s).length := by
  induction s with
  | nil => exact le_rfl
  | cons c s ih =>
      have hpos : 1 ≤ (utf8CodePoint c).length := by
        unfold utf8CodePoint
        dsimp only
        split_ifs <;> simp
      rw [utf8Bytes, List.flatMap_cons, ← utf8Bytes, List.length_append, List.length_cons]
      omega

/-- The code point of a number. -/
def CodePoint.ofNat? (n : ℕ) : Option CodePoint := if h : n < 0x110000 then some ⟨n, h⟩ else none

/-- The byte continues a sequence. -/
abbrev IsTail (b : UInt8) : Prop := 0x80 ≤ b.toNat ∧ b.toNat < 0xC0

/-- The code point of two bytes. -/
def utf8Pair (a b : UInt8) : Option CodePoint :=
  if 0xC2 ≤ a.toNat ∧ IsTail b then
    CodePoint.ofNat? ((a.toNat - 0xC0) * 64 + (b.toNat - 0x80))
  else none

/-- The code point of three bytes, which is no surrogate and needs all three. -/
def utf8Triple (a b c : UInt8) : Option CodePoint :=
  let n := (a.toNat - 0xE0) * 4096 + (b.toNat - 0x80) * 64 + (c.toNat - 0x80)
  if IsTail b ∧ IsTail c ∧ 0x800 ≤ n ∧ ¬ (0xD800 ≤ n ∧ n ≤ 0xDFFF) then CodePoint.ofNat? n
  else none

/-- The code point of four bytes, which needs all four. -/
def utf8Quad (a b c d : UInt8) : Option CodePoint :=
  let n := (a.toNat - 0xF0) * 262144 + (b.toNat - 0x80) * 4096 + (c.toNat - 0x80) * 64 +
    (d.toNat - 0x80)
  if IsTail b ∧ IsTail c ∧ IsTail d ∧ 0x10000 ≤ n then CodePoint.ofNat? n else none

/-- `raw.decode("utf-8")`, and nothing for a `UnicodeDecodeError`. -/
def utf8Decode : Bytes → Option PyStr
  | [] => some []
  | a :: rest =>
      if a.toNat < 0x80 then
        (CodePoint.ofNat? a.toNat).bind fun p => (utf8Decode rest).map (p :: ·)
      else if a.toNat < 0xE0 then
        match rest with
        | b :: rest => (utf8Pair a b).bind fun p => (utf8Decode rest).map (p :: ·)
        | _ => none
      else if a.toNat < 0xF0 then
        match rest with
        | b :: c :: rest => (utf8Triple a b c).bind fun p => (utf8Decode rest).map (p :: ·)
        | _ => none
      else
        match rest with
        | b :: c :: d :: rest => (utf8Quad a b c d).bind fun p => (utf8Decode rest).map (p :: ·)
        | _ => none

theorem CodePoint.ofNat?_val (c : CodePoint) : CodePoint.ofNat? c.val = some c := by
  simp [CodePoint.ofNat?]

theorem CodePoint.ofNat?_eq_some {n : ℕ} {c : CodePoint} :
    CodePoint.ofNat? n = some c ↔ n = c.val := by
  constructor
  · intro h
    unfold CodePoint.ofNat? at h
    split at h
    · cases h
      rfl
    · cases h
  · rintro rfl
    exact ofNat?_val c

theorem isSurrogate_eq_false {c : CodePoint} :
    c.isSurrogate = false ↔ ¬ (0xD800 ≤ c.val ∧ c.val ≤ 0xDFFF) := by
  simp [CodePoint.isSurrogate]

theorem utf8Pair_eq_some_iff {a b : UInt8} {c : CodePoint} :
    utf8Pair a b = some c ↔
      (0xC2 ≤ a.toNat ∧ IsTail b) ∧ (a.toNat - 0xC0) * 64 + (b.toNat - 0x80) = c.val := by
  unfold utf8Pair
  split
  · next h => rw [CodePoint.ofNat?_eq_some, and_iff_right h]
  · next h => simp only [h, false_and, reduceCtorEq]

theorem utf8Triple_eq_some_iff {a b d : UInt8} {c : CodePoint} :
    utf8Triple a b d = some c ↔
      (IsTail b ∧ IsTail d ∧ 0x800 ≤ c.val ∧ ¬ (0xD800 ≤ c.val ∧ c.val ≤ 0xDFFF)) ∧
        (a.toNat - 0xE0) * 4096 + (b.toNat - 0x80) * 64 + (d.toNat - 0x80) = c.val := by
  unfold utf8Triple
  dsimp only
  constructor
  · intro h
    split at h
    · next hn =>
        have hc := CodePoint.ofNat?_eq_some.mp h
        rw [hc] at hn
        exact ⟨hn, hc⟩
    · cases h
  · rintro ⟨h, hc⟩
    rw [hc, if_pos h]
    exact CodePoint.ofNat?_val c

theorem utf8Quad_eq_some_iff {a b d e : UInt8} {c : CodePoint} :
    utf8Quad a b d e = some c ↔
      (IsTail b ∧ IsTail d ∧ IsTail e ∧ 0x10000 ≤ c.val) ∧
        (a.toNat - 0xF0) * 262144 + (b.toNat - 0x80) * 4096 + (d.toNat - 0x80) * 64 +
          (e.toNat - 0x80) = c.val := by
  unfold utf8Quad
  dsimp only
  constructor
  · intro h
    split at h
    · next hn =>
        have hc := CodePoint.ofNat?_eq_some.mp h
        rw [hc] at hn
        exact ⟨hn, hc⟩
    · cases h
  · rintro ⟨h, hc⟩
    rw [hc, if_pos h]
    exact CodePoint.ofNat?_val c

theorem toNat_ofNat {n : ℕ} (h : n < 256) : (UInt8.ofNat n).toNat = n := by
  simp only [UInt8.toNat_ofNat']
  omega

section Read

variable {a b d e : UInt8} (rest : Bytes)

theorem utf8Decode_one (ha : a.toNat < 0x80) :
    utf8Decode (a :: rest) =
      (CodePoint.ofNat? a.toNat).bind fun p => (utf8Decode rest).map (p :: ·) := by
  rw [utf8Decode.eq_def]
  exact if_pos ha

theorem utf8Decode_two (ha : 0x80 ≤ a.toNat) (ha' : a.toNat < 0xE0) :
    utf8Decode (a :: b :: rest) =
      (utf8Pair a b).bind fun p => (utf8Decode rest).map (p :: ·) := by
  rw [utf8Decode.eq_def]
  dsimp only
  rw [if_neg (by omega), if_pos ha']

theorem utf8Decode_three (ha : 0xE0 ≤ a.toNat) (ha' : a.toNat < 0xF0) :
    utf8Decode (a :: b :: d :: rest) =
      (utf8Triple a b d).bind fun p => (utf8Decode rest).map (p :: ·) := by
  rw [utf8Decode.eq_def]
  dsimp only
  rw [if_neg (by omega), if_neg (by omega), if_pos ha']

theorem utf8Decode_four (ha : 0xF0 ≤ a.toNat) :
    utf8Decode (a :: b :: d :: e :: rest) =
      (utf8Quad a b d e).bind fun p => (utf8Decode rest).map (p :: ·) := by
  rw [utf8Decode.eq_def]
  dsimp only
  rw [if_neg (by omega), if_neg (by omega), if_neg (by omega)]

end Read

/-- A code point that is no surrogate is read back from its bytes. -/
theorem utf8Decode_codePoint {c : CodePoint} (hc : c.isSurrogate = false) (rest : Bytes) :
    utf8Decode (utf8CodePoint c ++ rest) = (utf8Decode rest).map (c :: ·) := by
  have hs := isSurrogate_eq_false.mp hc
  have hmax := c.isLt
  unfold utf8CodePoint
  dsimp only
  split_ifs with h1 h2 h3
  · have ha := toNat_ofNat (show c.val < 256 by omega)
    rw [List.cons_append, List.nil_append, utf8Decode_one _ (by omega), ha,
      CodePoint.ofNat?_val]
    rfl
  · have ha := toNat_ofNat (show 0xC0 + c.val / 64 < 256 by omega)
    have hb := toNat_ofNat (show 0x80 + c.val % 64 < 256 by omega)
    have hpair : utf8Pair (UInt8.ofNat (0xC0 + c.val / 64)) (UInt8.ofNat (0x80 + c.val % 64)) =
        some c := by
      rw [utf8Pair_eq_some_iff]
      simp only [IsTail, ha, hb]
      omega
    rw [List.cons_append, List.cons_append, List.nil_append,
      utf8Decode_two _ (by omega) (by omega), hpair]
    rfl
  · have ha := toNat_ofNat (show 0xE0 + c.val / 4096 < 256 by omega)
    have hb := toNat_ofNat (show 0x80 + c.val / 64 % 64 < 256 by omega)
    have hd := toNat_ofNat (show 0x80 + c.val % 64 < 256 by omega)
    have htriple : utf8Triple (UInt8.ofNat (0xE0 + c.val / 4096))
        (UInt8.ofNat (0x80 + c.val / 64 % 64)) (UInt8.ofNat (0x80 + c.val % 64)) = some c := by
      rw [utf8Triple_eq_some_iff]
      simp only [IsTail, ha, hb, hd]
      omega
    rw [List.cons_append, List.cons_append, List.cons_append, List.nil_append,
      utf8Decode_three _ (by omega) (by omega), htriple]
    rfl
  · have ha := toNat_ofNat (show 0xF0 + c.val / 262144 < 256 by omega)
    have hb := toNat_ofNat (show 0x80 + c.val / 4096 % 64 < 256 by omega)
    have hd := toNat_ofNat (show 0x80 + c.val / 64 % 64 < 256 by omega)
    have he := toNat_ofNat (show 0x80 + c.val % 64 < 256 by omega)
    have hquad : utf8Quad (UInt8.ofNat (0xF0 + c.val / 262144))
        (UInt8.ofNat (0x80 + c.val / 4096 % 64)) (UInt8.ofNat (0x80 + c.val / 64 % 64))
        (UInt8.ofNat (0x80 + c.val % 64)) = some c := by
      rw [utf8Quad_eq_some_iff]
      simp only [IsTail, ha, hb, hd, he]
      omega
    rw [List.cons_append, List.cons_append, List.cons_append, List.cons_append, List.nil_append,
      utf8Decode_four _ (by omega), hquad]
    rfl

/-- A text without surrogates is read back from its bytes. -/
theorem utf8Decode_utf8Bytes {s : PyStr} (hs : s.any CodePoint.isSurrogate = false) :
    utf8Decode (utf8Bytes s) = some s := by
  induction s with
  | nil => rfl
  | cons c s ih =>
      rw [List.any_cons, Bool.or_eq_false_iff] at hs
      rw [utf8Bytes, List.flatMap_cons, utf8Decode_codePoint hs.1]
      rw [show s.flatMap utf8CodePoint = utf8Bytes s from rfl, ih hs.2]
      rfl

theorem utf8Encode_injective {s t : PyStr} {raw : Bytes} (hs : utf8Encode s = .ok raw)
    (ht : utf8Encode t = .ok raw) : s = t := by
  obtain ⟨hs, hraw⟩ := utf8Encode_eq_ok.mp hs
  obtain ⟨ht, hraw'⟩ := utf8Encode_eq_ok.mp ht
  have hdecode := utf8Decode_utf8Bytes hs
  rw [← hraw, hraw', utf8Decode_utf8Bytes ht] at hdecode
  exact (Option.some.inj hdecode).symm

theorem utf8Pair_eq_some {a b : UInt8} {c : CodePoint} (ha : a.toNat < 0xE0)
    (h : utf8Pair a b = some c) : c.isSurrogate = false ∧ utf8CodePoint c = [a, b] := by
  obtain ⟨⟨ha', hb⟩, hc⟩ := utf8Pair_eq_some_iff.mp h
  refine ⟨isSurrogate_eq_false.mpr (by omega), ?_⟩
  unfold utf8CodePoint
  dsimp only
  rw [if_neg (by omega), if_pos (by omega)]
  have h1 : 0xC0 + c.val / 64 = a.toNat := by omega
  have h2 : 0x80 + c.val % 64 = b.toNat := by omega
  rw [h1, h2, UInt8.ofNat_toNat, UInt8.ofNat_toNat]

theorem utf8Triple_eq_some {a b d : UInt8} {c : CodePoint} (ha : 0xE0 ≤ a.toNat)
    (ha' : a.toNat < 0xF0) (h : utf8Triple a b d = some c) :
    c.isSurrogate = false ∧ utf8CodePoint c = [a, b, d] := by
  obtain ⟨⟨hb, hd, hmin, hsur⟩, hc⟩ := utf8Triple_eq_some_iff.mp h
  refine ⟨isSurrogate_eq_false.mpr hsur, ?_⟩
  unfold utf8CodePoint
  dsimp only
  rw [if_neg (by omega), if_neg (by omega), if_pos (by omega)]
  have h1 : 0xE0 + c.val / 4096 = a.toNat := by omega
  have h2 : 0x80 + c.val / 64 % 64 = b.toNat := by omega
  have h3 : 0x80 + c.val % 64 = d.toNat := by omega
  rw [h1, h2, h3, UInt8.ofNat_toNat, UInt8.ofNat_toNat, UInt8.ofNat_toNat]

theorem utf8Quad_eq_some {a b d e : UInt8} {c : CodePoint} (ha : 0xF0 ≤ a.toNat)
    (h : utf8Quad a b d e = some c) :
    c.isSurrogate = false ∧ utf8CodePoint c = [a, b, d, e] := by
  obtain ⟨⟨hb, hd, he, hmin⟩, hc⟩ := utf8Quad_eq_some_iff.mp h
  refine ⟨isSurrogate_eq_false.mpr (by omega), ?_⟩
  unfold utf8CodePoint
  dsimp only
  rw [if_neg (by omega), if_neg (by omega), if_neg (by omega)]
  have h1 : 0xF0 + c.val / 262144 = a.toNat := by omega
  have h2 : 0x80 + c.val / 4096 % 64 = b.toNat := by omega
  have h3 : 0x80 + c.val / 64 % 64 = d.toNat := by omega
  have h4 : 0x80 + c.val % 64 = e.toNat := by omega
  rw [h1, h2, h3, h4, UInt8.ofNat_toNat, UInt8.ofNat_toNat, UInt8.ofNat_toNat,
    UInt8.ofNat_toNat]

theorem utf8One_eq_some {a : UInt8} {c : CodePoint} (ha : a.toNat < 0x80)
    (h : CodePoint.ofNat? a.toNat = some c) :
    c.isSurrogate = false ∧ utf8CodePoint c = [a] := by
  have hc := CodePoint.ofNat?_eq_some.mp h
  refine ⟨isSurrogate_eq_false.mpr (by omega), ?_⟩
  unfold utf8CodePoint
  dsimp only
  rw [if_pos (by omega), ← hc, UInt8.ofNat_toNat]

/-- A first code point and the text after it. -/
theorem utf8Bytes_cons_of {c? : Option CodePoint} {lead rest : Bytes} {s : PyStr}
    (hlead : ∀ c, c? = some c → c.isSurrogate = false ∧ utf8CodePoint c = lead)
    (hrest : ∀ t, utf8Decode rest = some t →
      t.any CodePoint.isSurrogate = false ∧ utf8Bytes t = rest)
    (h : (c?.bind fun c => (utf8Decode rest).map (c :: ·)) = some s) :
    s.any CodePoint.isSurrogate = false ∧ utf8Bytes s = lead ++ rest := by
  obtain ⟨c, hc, h⟩ := Option.bind_eq_some_iff.mp h
  obtain ⟨t, ht, rfl⟩ := Option.map_eq_some_iff.mp h
  obtain ⟨hsur, hbytes⟩ := hlead c hc
  obtain ⟨hsur', hbytes'⟩ := hrest t ht
  refine ⟨by simp [hsur, hsur'], ?_⟩
  rw [utf8Bytes, List.flatMap_cons, hbytes]
  exact congrArg (lead ++ ·) hbytes'

/-- The bytes of a text that was read are those it was read from. -/
theorem utf8Bytes_of_utf8Decode (raw : Bytes) (s : PyStr) (h : utf8Decode raw = some s) :
    s.any CodePoint.isSurrogate = false ∧ utf8Bytes s = raw := by
  induction hn : raw.length using Nat.strong_induction_on generalizing raw s with
  | _ n ih =>
      cases raw with
      | nil =>
          rw [utf8Decode] at h
          cases h
          exact ⟨rfl, rfl⟩
      | cons a rest =>
          rw [List.length_cons] at hn
          -- a shorter rest is read by the same rule
          have hrec : ∀ rest' : Bytes, rest'.length < n → ∀ t, utf8Decode rest' = some t →
              t.any CodePoint.isSurrogate = false ∧ utf8Bytes t = rest' := by
            intro rest' hlt t ht
            exact ih _ hlt rest' t ht rfl
          by_cases h1 : a.toNat < 0x80
          · rw [utf8Decode_one _ h1] at h
            exact utf8Bytes_cons_of (fun c hc => utf8One_eq_some h1 hc) (hrec rest (by omega)) h
          by_cases h2 : a.toNat < 0xE0
          · rcases rest with _ | ⟨b, rest⟩
            · simp [utf8Decode, h1, h2] at h
            · simp only [List.length_cons] at hn
              rw [utf8Decode_two _ (by omega) h2] at h
              exact utf8Bytes_cons_of (fun c hc => utf8Pair_eq_some h2 hc)
                (hrec rest (by omega)) h
          by_cases h3 : a.toNat < 0xF0
          · rcases rest with _ | ⟨b, _ | ⟨d, rest⟩⟩
            · simp [utf8Decode, h1, h2] at h
            · simp [utf8Decode, h1, h2, h3] at h
            · simp only [List.length_cons] at hn
              rw [utf8Decode_three _ (by omega) h3] at h
              exact utf8Bytes_cons_of (fun p hp => utf8Triple_eq_some (by omega) h3 hp)
                (hrec rest (by omega)) h
          · rcases rest with _ | ⟨b, _ | ⟨d, _ | ⟨e, rest⟩⟩⟩
            · simp [utf8Decode, h1, h2] at h
            · simp [utf8Decode, h1, h2, h3] at h
            · simp [utf8Decode, h1, h2, h3] at h
            · simp only [List.length_cons] at hn
              rw [utf8Decode_four _ (by omega)] at h
              exact utf8Bytes_cons_of (fun p hp => utf8Quad_eq_some (by omega) hp)
                (hrec rest (by omega)) h

end Signal402
