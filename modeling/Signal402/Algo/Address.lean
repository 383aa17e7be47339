import Signal402.Lib.BigEndian
import Signal402.Route.Payment

/-!
# Algorand addresses (`algo_tx.py`)

`encode_address`, and how far it undoes `decode_address`.  The 36 bytes of a key and
its checksum are 57 digits of five bits and three bits more, so that the last digit
has two bits which `base64.b32decode` drops.  An address has therefore four
spellings, and `encode_address` writes the one where the two bits are zero.
-/

namespace Signal402.Payment

def b32Digit (n : ℕ) : CodePoint := b32Alphabet.getD n (CodePoint.ofChar 'A')

/-- The low `k` digits of a number, the most significant first. -/
def b32Digits : ℕ → ℕ → PyStr
  | 0, _ => []
  | k + 1, n => b32Digits k (n / 32) ++ [b32Digit (n % 32)]

/-- The last four bytes of the hash of a key. -/
def addressChecksum (key : Bytes) : Bytes := (Sha512.sha512_256 key).drop 28

/-- `encode_address`: `base64.b32encode` fills the last digit with two zero bits, and
the padding is stripped. -/
def encodeAddress (key : Bytes) : Except PyError PyStr :=
  if key.length ≠ 32 then .error (.valueError "invalid algorand public key")
  else .ok (b32Digits 58 (BigEndian.decode (key ++ addressChecksum key) * 4))

/-- What `base64.b32encode` would have written: no white space around the digits, and
the two spare bits of the last one are zero. -/
def CanonicalAddress (addr : PyStr) : Prop :=
  addr.strip = addr ∧ digitsValue b32Alphabet addr % 4 = 0

/-! ## Digits -/

theorem b32Alphabet_length : b32Alphabet.length = 32 := by decide

theorem b32Digit_mem {n : ℕ} (h : n < 32) : b32Digit n ∈ b32Alphabet := by
  revert n
  decide

theorem idxOf_b32Digit {n : ℕ} (h : n < 32) : b32Alphabet.idxOf (b32Digit n) = n := by
  revert n
  decide

theorem b32Digit_idxOf {c : CodePoint} (h : c ∈ b32Alphabet) :
    b32Digit (b32Alphabet.idxOf c) = c := by
  have hlt : b32Alphabet.idxOf c < b32Alphabet.length := List.idxOf_lt_length_iff.mpr h
  rw [b32Digit, List.getD_eq_getElem?_getD, List.getElem?_eq_getElem hlt, Option.getD_some,
    List.getElem_idxOf hlt]

/-- The digits are upper-case letters and decimal digits. -/
theorem b32Alphabet_plain {c : CodePoint} (h : c ∈ b32Alphabet) :
    c.val < 128 ∧ PyStr.isSpace c = false ∧ PyStr.upperCodePoint c = c := by
  have hall : b32Alphabet.all (fun c => decide (c.val < 128) && !PyStr.isSpace c &&
      PyStr.upperCodePoint c == c) = true := by decide
  simpa [and_assoc] using List.all_eq_true.mp hall c h

theorem digitsValue_append (alphabet s : PyStr) (c : CodePoint) :
    digitsValue alphabet (s ++ [c]) =
      digitsValue alphabet s * alphabet.length + alphabet.idxOf c := by
  simp [digitsValue]

@[simp]
theorem length_b32Digits (k n : ℕ) : (b32Digits k n).length = k := by
  induction k generalizing n with
  | zero => rfl
  | succ k ih => simp [b32Digits, ih]

theorem b32Digits_mem {k n : ℕ} {c : CodePoint} (h : c ∈ b32Digits k n) : c ∈ b32Alphabet := by
  induction k generalizing n with
  | zero => cases h
  | succ k ih =>
      rcases List.mem_append.mp h with hinit | hlast
      · exact ih hinit
      · rw [List.mem_singleton.mp hlast]
        exact b32Digit_mem (Nat.mod_lt _ (by omega))

theorem digitsValue_b32Digits (k n : ℕ) :
    digitsValue b32Alphabet (b32Digits k n) = n % 32 ^ k := by
  induction k generalizing n with
  | zero => simp [b32Digits, digitsValue, Nat.mod_one]
  | succ k ih =>
      rw [b32Digits, digitsValue_append, ih, b32Alphabet_length,
        idxOf_b32Digit (Nat.mod_lt _ (by omega)), pow_succ', Nat.mod_mul]
      ring

theorem b32Digits_digitsValue {s : PyStr} (h : ∀ c ∈ s, c ∈ b32Alphabet) :
    b32Digits s.length (digitsValue b32Alphabet s) = s := by
  induction s using List.reverseRecOn with
  | nil => rfl
  | append_singleton s c ih =>
      have hc : c ∈ b32Alphabet := h c (by simp)
      have hlt : b32Alphabet.idxOf c < 32 := by
        have hidx := List.idxOf_lt_length_iff.mpr hc
        rwa [b32Alphabet_length] at hidx
      have hhigh : (digitsValue b32Alphabet s * 32 + b32Alphabet.idxOf c) / 32 =
          digitsValue b32Alphabet s := by omega
      have hlow : (digitsValue b32Alphabet s * 32 + b32Alphabet.idxOf c) % 32 =
          b32Alphabet.idxOf c := by omega
      rw [List.length_append, List.length_singleton, b32Digits, digitsValue_append,
        b32Alphabet_length, hhigh, hlow, ih fun d hd => h d (List.mem_append_left _ hd),
        b32Digit_idxOf hc]

theorem digitsValue_lt {s : PyStr} (h : ∀ c ∈ s, c ∈ b32Alphabet) :
    digitsValue b32Alphabet s < 32 ^ s.length := by
  have hvalue := digitsValue_b32Digits s.length (digitsValue b32Alphabet s)
  rw [b32Digits_digitsValue h] at hvalue
  rw [hvalue]
  exact Nat.mod_lt _ (Nat.pow_pos (by omega))

/-- All digits but the last do not see the low five bits. -/
theorem take_b32Digits (k n : ℕ) : (b32Digits (k + 1) n).take k = b32Digits k (n / 32) := by
  rw [b32Digits, List.take_left' (length_b32Digits k _)]

theorem beBytes_eq_encode (w n : ℕ) : Sha256.beBytes w n = BigEndian.encode w n := by
  induction w generalizing n with
  | zero => rfl
  | succ w ih =>
      -- the one adds the low byte at the end, the other the high byte in front
      have hbytes : BigEndian.decode (Sha256.beBytes (w + 1) n) = n % 256 ^ (w + 1) := by
        have happend : ∀ (bs : Bytes) (b : UInt8),
            BigEndian.decode (bs ++ [b]) = BigEndian.decode bs * 256 + b.toNat := by
          intro bs b
          induction bs with
          | nil => simp [BigEndian.decode]
          | cons c bs ihb =>
              simp only [List.cons_append, BigEndian.decode, ihb, List.length_append,
                List.length_singleton, pow_succ]
              ring
        rw [Sha256.beBytes, happend, ih, BigEndian.decode_encode_mod, pow_succ', Nat.mod_mul]
        simp
        ring
      have hself := BigEndian.encode_decode (Sha256.beBytes (w + 1) n)
      rw [Sha256.beBytes_length, hbytes] at hself
      have hmod := BigEndian.encode_decode (BigEndian.encode (w + 1) n)
      rw [BigEndian.length_encode, BigEndian.decode_encode_mod] at hmod
      exact hself.symm.trans hmod

/-! ## Addresses -/

@[simp]
theorem length_addressChecksum (key : Bytes) : (addressChecksum key).length = 4 := by
  simp [addressChecksum]

/-- What `decode_address` accepts. -/
theorem decodeAddress_eq_some {addr : PyStr} {key : Bytes} :
    decodeAddress addr = some key ↔
      key.length = 32 ∧ addr.strip.length = 58 ∧ (∀ c ∈ addr.strip, c ∈ b32Alphabet) ∧
        digitsValue b32Alphabet addr.strip / 4 = BigEndian.decode (key ++ addressChecksum key) := by
  rw [decodeAddress]
  split
  · rename_i hlength
    simp only [reduceCtorEq, false_iff, not_and]
    intro _ h
    exact absurd h hlength
  · rename_i hlength
    push Not at hlength
    split
    · rename_i hdigits
      simp only [reduceCtorEq, false_iff, not_and]
      intro _ _ h
      simp only [Bool.not_eq_true', List.all_eq_false] at hdigits
      obtain ⟨c, hc, hout⟩ := hdigits
      exact absurd (List.contains_iff_mem.mpr (h c hc)) hout
    · rename_i hdigits
      have hall : ∀ c ∈ addr.strip, c ∈ b32Alphabet := by
        simpa [List.all_eq_true] using hdigits
      have hlt : digitsValue b32Alphabet addr.strip / 4 < 256 ^ 36 := by
        have h := digitsValue_lt hall
        rw [hlength] at h
        have hpow : (32 : ℕ) ^ 58 = 4 * 256 ^ 36 := by norm_num
        omega
      simp only [beBytes_eq_encode]
      generalize digitsValue b32Alphabet addr.strip / 4 = n at hlt
      have hsize : (BigEndian.encode 36 n).length = 36 := BigEndian.length_encode 36 n
      constructor
      · intro h
        split at h
        · rename_i hsum
          obtain rfl := Option.some.inj h
          refine ⟨by simp, hlength, hall, ?_⟩
          rw [addressChecksum, hsum, List.take_append_drop, BigEndian.decode_encode hlt]
        · cases h
      · rintro ⟨hkey, -, -, hn⟩
        have hbytes : BigEndian.encode 36 n = key ++ addressChecksum key := by
          have h := BigEndian.encode_decode (key ++ addressChecksum key)
          rwa [List.length_append, hkey, length_addressChecksum, ← hn] at h
        rw [hbytes, List.take_left' hkey, List.drop_left' hkey, ← addressChecksum, if_pos rfl]

/-- Every key has an address, which is read back. -/
theorem decodeAddress_encodeAddress {key : Bytes} (h : key.length = 32) :
    ∃ addr, encodeAddress key = .ok addr ∧ CanonicalAddress addr ∧
      decodeAddress addr = some key := by
  have hlt : BigEndian.decode (key ++ addressChecksum key) < 256 ^ 36 := by
    have hdecode := BigEndian.decode_lt (key ++ addressChecksum key)
    rwa [List.length_append, h, length_addressChecksum] at hdecode
  have hpow : (32 : ℕ) ^ 58 = 4 * 256 ^ 36 := by norm_num
  have hvalue := digitsValue_b32Digits 58 (BigEndian.decode (key ++ addressChecksum key) * 4)
  rw [Nat.mod_eq_of_lt (by omega)] at hvalue
  have hstrip := PyStr.strip_eq_self (s :=
      b32Digits 58 (BigEndian.decode (key ++ addressChecksum key) * 4))
    fun c hc => (b32Alphabet_plain (b32Digits_mem hc)).2.1
  refine ⟨_, if_neg (not_not.mpr h), ⟨hstrip, by rw [hvalue]; omega⟩, ?_⟩
  rw [decodeAddress_eq_some, hstrip, length_b32Digits, hvalue]
  exact ⟨h, rfl, fun c hc => b32Digits_mem hc, by omega⟩

/-- `encode_address` of a key that was read from an address. -/
theorem encodeAddress_decodeAddress {addr : PyStr} {key : Bytes}
    (h : decodeAddress addr = some key) :
    encodeAddress key = .ok (b32Digits 58 (digitsValue b32Alphabet addr.strip / 4 * 4)) := by
  obtain ⟨hkey, -, -, hvalue⟩ := decodeAddress_eq_some.mp h
  rw [encodeAddress, if_neg (not_not.mpr hkey), hvalue]

/-- The canonical spelling is the one that is written again. -/
theorem encodeAddress_eq_self_iff {addr : PyStr} {key : Bytes}
    (h : decodeAddress addr = some key) :
    encodeAddress key = .ok addr ↔ CanonicalAddress addr := by
  obtain ⟨hkey, hlength, hdigits, hvalue⟩ := decodeAddress_eq_some.mp h
  rw [encodeAddress_decodeAddress h]
  constructor
  · intro hsame
    obtain ⟨text, htext, hcanonical, -⟩ := decodeAddress_encodeAddress hkey
    rw [encodeAddress_decodeAddress h] at htext
    rwa [← Except.ok.inj (htext.symm.trans hsame)]
  · rintro ⟨hstrip, hzero⟩
    rw [hstrip] at hlength hdigits ⊢
    have hself := b32Digits_digitsValue hdigits
    rw [hlength] at hself
    rw [Nat.div_mul_cancel (Nat.dvd_of_mod_eq_zero hzero), hself]

theorem decodeAddress_text {addr : PyStr} {key : Bytes} (h : decodeAddress addr = some key) :
    text (some addr) = some addr.strip := by
  obtain ⟨-, hlength, -⟩ := decodeAddress_eq_some.mp h
  have hne : addr.strip ≠ [] := by
    intro hnil
    rw [hnil] at hlength
    cases hlength
  simp [text, hne]

/-- `payto_equal` compares accepted addresses as stripped texts. -/
theorem paytoEqual_addresses (py : Interp) {a b : PyStr} {k l : Bytes}
    (ha : decodeAddress a = some k) (hb : decodeAddress b = some l) :
    paytoEqual py.uni (some a) (some b) (some "algorand") = true ↔ a.strip = b.strip := by
  have hupper : ∀ {addr : PyStr} {key : Bytes}, decodeAddress addr = some key →
      py.uni.upper addr.strip = addr.strip := by
    intro addr key h
    obtain ⟨-, -, hdigits, -⟩ := decodeAddress_eq_some.mp h
    have hascii : addr.strip.isAscii = true := by
      simp only [PyStr.isAscii, List.all_eq_true, decide_eq_true_eq]
      exact fun c hc => (b32Alphabet_plain (hdigits c hc)).1
    have hmap : addr.strip.map PyStr.upperCodePoint = addr.strip :=
      List.map_congr_left (fun c hc => (b32Alphabet_plain (hdigits c hc)).2.2) |>.trans
        (List.map_id _)
    simp only [Interp.uni, hascii, if_true, hmap]
  have hrail : railName py.uni (some "algorand") = some .algorand := rfl
  rw [paytoEqual, decodeAddress_text ha, decodeAddress_text hb, hrail]
  simp only [addressEqual, hupper ha, hupper hb, beq_iff_eq]

/-- Addresses and their spellings: every key of 32 bytes is read back from its address;
an accepted text is what its key is written as exactly when it is canonical, and
differs from it in its last digit at most; and comparing canonical accepted texts, with
or without `payto_equal`, compares the keys. -/
theorem address_spellings (py : Interp) :
    (∀ key : Bytes, key.length = 32 → ∃ addr, encodeAddress key = .ok addr ∧
      CanonicalAddress addr ∧ decodeAddress addr = some key) ∧
    (∀ addr key, decodeAddress addr = some key →
      (encodeAddress key = .ok addr ↔ CanonicalAddress addr) ∧
      ∃ text, encodeAddress key = .ok text ∧ text.length = 58 ∧ addr.strip.length = 58 ∧
        text.take 57 = addr.strip.take 57) ∧
    (∀ a b k l, CanonicalAddress a → CanonicalAddress b →
      decodeAddress a = some k → decodeAddress b = some l →
      (a = b ↔ k = l) ∧
      (paytoEqual py.uni (some a) (some b) (some "algorand") = true ↔ k = l)) := by
  refine ⟨fun key h => decodeAddress_encodeAddress h, fun addr key h => ⟨?_, ?_⟩, ?_⟩
  · exact encodeAddress_eq_self_iff h
  · obtain ⟨-, hlength, hdigits, -⟩ := decodeAddress_eq_some.mp h
    refine ⟨_, encodeAddress_decodeAddress h, length_b32Digits 58 _, hlength, ?_⟩
    have hself := b32Digits_digitsValue hdigits
    rw [hlength] at hself
    have htake := congrArg (List.take 57) hself
    have hhigh : digitsValue b32Alphabet addr.strip / 4 * 4 / 32 =
        digitsValue b32Alphabet addr.strip / 32 := by omega
    rw [take_b32Digits] at htake ⊢
    rw [← htake, hhigh]
  · intro a b k l ha hb hk hl
    have hsame : a = b ↔ k = l := by
      constructor
      · rintro rfl
        exact Option.some.inj (hk.symm.trans hl)
      · rintro rfl
        have ha' := (encodeAddress_eq_self_iff hk).mpr ha
        have hb' := (encodeAddress_eq_self_iff hl).mpr hb
        exact Except.ok.inj (ha'.symm.trans hb')
    refine ⟨hsame, ?_⟩
    rw [paytoEqual_addresses py hk hl, ha.1, hb.1]
    exact hsame

/-- The key of 32 zero bytes has an address that ends in `Q`; the same text ending in
`R`, and the text with a blank in front, are accepted as well. -/
theorem zero_address_respelled :
    encodeAddress (List.replicate 32 0) =
        .ok "AAAAAAAAAAAAAAAAAAAAAAAAAAAAAAAAAAAAAAAAAAAAAAAAAAAAY5HFKQ" ∧
      decodeAddress "AAAAAAAAAAAAAAAAAAAAAAAAAAAAAAAAAAAAAAAAAAAAAAAAAAAAY5HFKR" =
        some (List.replicate 32 0) ∧
      decodeAddress " AAAAAAAAAAAAAAAAAAAAAAAAAAAAAAAAAAAAAAAAAAAAAAAAAAAAY5HFKQ" =
        some (List.replicate 32 0) := by
  decide +kernel

end Signal402.Payment
