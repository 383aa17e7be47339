import Mathlib.Data.List.Basic
import Mathlib.Tactic.Ring
import Mathlib.Tactic.Common

/-!
# Numbers as bytes, most significant first

`encode w n` writes the number `n` as `w` bytes and `decode` reads bytes as a number.
Each undoes the other on numbers below `256 ^ w` and on lists of `w` bytes.
-/

namespace BigEndian

/-- The low `w` bytes of `n`, the most significant first. -/
def encode : ℕ → ℕ → List UInt8
  | 0, _ => []
  | w + 1, n => UInt8.ofNat (n / 256 ^ w) :: encode w n

/-- The number that the bytes write. -/
def decode : List UInt8 → ℕ
  | [] => 0
  | b :: rest => b.toNat * 256 ^ rest.length + decode rest

@[simp]
theorem length_encode (w n : ℕ) : (encode w n).length = w := by
  induction w with
  | zero => rfl
  | succ w ih => simp [encode, ih]

theorem decode_lt (bs : List UInt8) : decode bs < 256 ^ bs.length := by
  induction bs with
  | nil => simp [decode]
  | cons b rest ih =>
      have hb : b.toNat < 256 := UInt8.toNat_lt b
      calc
        b.toNat * 256 ^ rest.length + decode rest
            < b.toNat * 256 ^ rest.length + 256 ^ rest.length := by omega
        _ = (b.toNat + 1) * 256 ^ rest.length := by ring
        _ ≤ 256 * 256 ^ rest.length := Nat.mul_le_mul_right _ (by omega)
        _ = 256 ^ (b :: rest).length := by rw [List.length_cons, pow_succ]; ring

/-- The bytes keep what the number is below `256 ^ w`. -/
theorem decode_encode_mod (w n : ℕ) : decode (encode w n) = n % 256 ^ w := by
  induction w with
  | zero => simp [encode, decode, Nat.mod_one]
  | succ w ih =>
      have hhead : (UInt8.ofNat (n / 256 ^ w)).toNat = n / 256 ^ w % 256 := by simp
      rw [encode, decode, length_encode, ih, hhead, pow_succ, Nat.mod_mul]
      ring

theorem decode_encode {w n : ℕ} (h : n < 256 ^ w) : decode (encode w n) = n := by
  rw [decode_encode_mod, Nat.mod_eq_of_lt h]

theorem encode_add_mul (w n k : ℕ) : encode w (k * 256 ^ w + n) = encode w n := by
  induction w generalizing k with
  | zero => rfl
  | succ w ih =>
      have hpow : k * 256 ^ (w + 1) + n = (k * 256) * 256 ^ w + n := by ring
      have hhead : (k * 256 * 256 ^ w + n) / 256 ^ w = k * 256 + n / 256 ^ w := by
        rw [Nat.add_comm, Nat.add_mul_div_right _ _ (Nat.pow_pos (by omega)), Nat.add_comm]
      rw [encode, hpow, ih, hhead, encode]
      congr 1
      apply UInt8.toNat.inj
      simp

theorem encode_decode (bs : List UInt8) : encode bs.length (decode bs) = bs := by
  induction bs with
  | nil => rfl
  | cons b rest ih =>
      have hrest := decode_lt rest
      have hhead : (b.toNat * 256 ^ rest.length + decode rest) / 256 ^ rest.length = b.toNat := by
        rw [Nat.add_comm, Nat.add_mul_div_right _ _ (Nat.pow_pos (by omega)), Nat.div_eq_of_lt hrest]
        simp
      rw [List.length_cons, encode, decode, encode_add_mul, ih, hhead]
      simp

end BigEndian
