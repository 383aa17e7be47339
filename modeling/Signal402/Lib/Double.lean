import Mathlib

/-!
# Natural numbers as doubles

IEEE doubles have no rounding error as long as the exact result is a natural number of at most
53 bits, or one of these times a power of two.

* `Holds u n` — an unpacked double stands for the number `n`: its mantissa uses all its bits.
* `unpack_pack`, `compare_eq` — such doubles survive being packed, and are in the order of
  their numbers.
* `holds_mul`, `holds_sub` — products with powers of two and differences are exact.
* `IsNat` — the same for `Float`, with one rule for each operation.
-/

namespace Double

open Float.Model Float.Model.UnpackedFloat

/-! ## Mantissas -/

/-- A mantissa of 53 bits. -/
def Full (m : ℕ) : Prop := 2 ^ 52 ≤ m ∧ m < 2 ^ 53

theorem Full.pos {m : ℕ} (h : Full m) : 0 < m := Nat.lt_of_lt_of_le (by decide) h.1

theorem Full.log2 {m : ℕ} (h : Full m) : m.log2 = 52 :=
  (Nat.log2_eq_iff h.pos.ne').mpr h

theorem log2_mul_two_pow {n : ℕ} (hn : n ≠ 0) (k : ℕ) : (n * 2 ^ k).log2 = n.log2 + k := by
  rw [Nat.log2_eq_iff (Nat.mul_ne_zero hn (Nat.two_pow_pos k).ne')]
  constructor
  · rw [pow_add]
    exact Nat.mul_le_mul_right _ (Nat.log2_self_le hn)
  · rw [Nat.add_right_comm, pow_add]
    exact Nat.mul_lt_mul_of_pos_right Nat.lt_log2_self (Nat.two_pow_pos k)

/-- Numbers that are a full mantissa times a power of two have their highest bit there. -/
theorem Full.log2_add {m M a b : ℕ} (hm : Full m) (h : M * 2 ^ a = m * 2 ^ b) :
    M.log2 + a = 52 + b := by
  have hM : M ≠ 0 := by
    rintro rfl
    have := Nat.mul_pos hm.pos (Nat.two_pow_pos b)
    omega
  rw [← log2_mul_two_pow hM, h, log2_mul_two_pow hm.pos.ne', hm.log2]

/-- A positive number of at most 53 bits is a full mantissa times a power of two, divided by
`2 ^ 52`. -/
theorem exists_full {n : ℕ} (hn : 0 < n) (hlt : n < 2 ^ 53) :
    ∃ m j, Full m ∧ j ≤ 52 ∧ m * 2 ^ j = n * 2 ^ 52 := by
  have hj : n.log2 ≤ 52 := Nat.lt_succ_iff.mp ((Nat.log2_lt hn.ne').mpr hlt)
  have hsum : 2 ^ (52 - n.log2) * 2 ^ n.log2 = 2 ^ 52 := by
    rw [← pow_add, Nat.sub_add_cancel hj]
  refine ⟨n * 2 ^ (52 - n.log2), n.log2, ⟨?_, ?_⟩, hj, ?_⟩
  · calc 2 ^ 52 = 2 ^ n.log2 * 2 ^ (52 - n.log2) := by rw [Nat.mul_comm, hsum]
      _ ≤ n * 2 ^ (52 - n.log2) := Nat.mul_le_mul_right _ (Nat.log2_self_le hn.ne')
  · calc n * 2 ^ (52 - n.log2) < 2 ^ (n.log2 + 1) * 2 ^ (52 - n.log2) :=
          Nat.mul_lt_mul_of_pos_right Nat.lt_log2_self (Nat.two_pow_pos _)
      _ = 2 ^ 53 := by
          rw [← pow_add]
          congr 1
          omega
  · rw [Nat.mul_assoc, hsum]

/-! ## Rounding -/

theorem targetExponent_eq (e : ℤ) : Format.binary64.targetExponent e = max (e - 53) (-1074) := rfl

/-- Zeros are shifted out without a trace. -/
theorem shiftRight_exact (m t : ℕ) :
    (⟨m * 2 ^ t, false, false⟩ : ExtendedMantissa) >>> t = ⟨m, false, false⟩ := by
  show t.repeat ExtendedMantissa.shiftRightOne _ = _
  induction t generalizing m with
  | zero => rw [pow_zero, Nat.mul_one, Nat.repeat]
  | succ t ih =>
      rw [Nat.repeat, pow_succ', ← Nat.mul_assoc, ih, ExtendedMantissa.shiftRightOne]
      simp

theorem shiftToTargetExponent_exact {m : ℕ} (hm : Full m) (t : ℕ) {e : ℤ}
    (he : -1074 ≤ e + t) :
    shiftToTargetExponent Format.binary64 (m * 2 ^ t) e .exact = (⟨m, false, false⟩, e + t) := by
  have hlog : (m * 2 ^ t).log2 = 52 + t := by
    rw [log2_mul_two_pow hm.pos.ne', hm.log2]
  have htarget : Format.binary64.targetExponent (totalExponent (m * 2 ^ t) e) = e + t := by
    rw [targetExponent_eq, totalExponent, hlog]
    omega
  have hshift : (e + t - e).toNat = t := by omega
  rw [shiftToTargetExponent, htarget, shiftToExponent, hshift]
  exact Prod.ext (shiftRight_exact m t) rfl

/-- A number that is a full mantissa, with zeros behind it, is not rounded. -/
theorem roundWithAccuracy_exact {m : ℕ} (hm : Full m) (s : Sign) (t : ℕ) {e : ℤ}
    (he : -1074 ≤ e + t) :
    roundWithAccuracy Format.binary64 s (m * 2 ^ t) e .exact = .finite s m (e + t) hm.pos := by
  have hagain := shiftToTargetExponent_exact hm 0 (e := e + t) (by simpa using he)
  simp only [pow_zero, Nat.mul_one, Nat.cast_zero, add_zero] at hagain
  have hrounded : (⟨m, false, false⟩ : ExtendedMantissa).roundedMantissa = m := rfl
  rw [roundWithAccuracy, shiftToTargetExponent_exact hm t he]
  dsimp only
  rw [hrounded, hagain]
  exact dif_neg hm.pos.ne'

/-- Nor is one that has to be shifted to the left. -/
theorem round_exact {m M a b : ℕ} (hm : Full m) (s : Sign) (h : M * 2 ^ a = m * 2 ^ b) {e : ℤ}
    (he : -1074 ≤ e + b - a) :
    UnpackedFloat.round Format.binary64 s M e = .finite s m (e + b - a) hm.pos := by
  have hlog := hm.log2_add h
  have htarget : Format.binary64.targetExponent (totalExponent M e) = e + b - a := by
    rw [targetExponent_eq, totalExponent]
    omega
  rw [UnpackedFloat.round, htarget, decreaseExponent]
  dsimp only
  rw [Nat.shiftLeft_eq]
  rcases Nat.le_total a b with hle | hle
  · have hM : M = m * 2 ^ (b - a) := by
      apply Nat.eq_of_mul_eq_mul_right (Nat.two_pow_pos a)
      rw [h, Nat.mul_assoc, ← pow_add, Nat.sub_add_cancel hle]
    have hzero : (e - (e + b - a)).toNat = 0 := by omega
    rw [hzero, pow_zero, Nat.mul_one, Nat.cast_zero, sub_zero, hM,
      roundWithAccuracy_exact hm s (b - a) (by omega)]
    congr 1
    omega
  · have hM : M * 2 ^ (a - b) = m := by
      apply Nat.eq_of_mul_eq_mul_right (Nat.two_pow_pos b)
      rw [Nat.mul_assoc, ← pow_add, Nat.sub_add_cancel hle, h]
    have hshift : (e - (e + b - a)).toNat = a - b := by omega
    have hexact := roundWithAccuracy_exact hm s 0 (e := e - (a - b : ℕ)) (by omega)
    rw [pow_zero, Nat.mul_one] at hexact
    rw [hshift, hM, hexact]
    congr 1
    omega

/-! ## Numbers -/

/-- The double stands for the number, and its mantissa is full unless it is zero. -/
inductive Holds : UnpackedFloat → ℕ → Prop
  | zero : Holds (.zero .positive) 0
  | pos {m j n : ℕ} (hpos : 0 < m) (hm : Full m) (hj : j ≤ 1023) (h : m * 2 ^ j = n * 2 ^ 52) :
      Holds (.finite .positive m (j - 52) hpos) n

/-- The number of a mantissa is positive. -/
theorem Full.number_pos {m j n : ℕ} (hm : Full m) (h : m * 2 ^ j = n * 2 ^ 52) : 0 < n := by
  have := Nat.mul_pos hm.pos (Nat.two_pow_pos j)
  rw [h] at this
  exact Nat.pos_of_mul_pos_right this

/-- A number is rounded to itself. -/
theorem holds_normalize {n : ℕ} (hlt : n < 2 ^ 53) {D c : ℕ} (h : D * 2 ^ c = n * 2 ^ 52) :
    Holds (UnpackedFloat.normalize Format.binary64 D ((c : ℤ) - 52) .positive) n := by
  rcases Nat.eq_zero_or_pos n with rfl | hn
  · have hD : D = 0 := by
      rw [Nat.zero_mul] at h
      exact (Nat.mul_eq_zero.mp h).resolve_right (Nat.two_pow_pos c).ne'
    rw [hD]
    exact .zero
  · obtain ⟨m, j, hm, hj, hnumber⟩ := exists_full hn hlt
    have hD : compare (D : ℤ) 0 = .gt := by
      rw [compare_gt_iff_gt]
      refine Int.natCast_pos.mpr (Nat.pos_of_ne_zero ?_)
      rintro rfl
      omega
    have hround := round_exact hm .positive (h.trans hnumber.symm) (e := (c : ℤ) - 52) (by omega)
    rw [UnpackedFloat.normalize, hD]
    dsimp only
    rw [Int.toNat_natCast, hround]
    have hexponent : (c : ℤ) - 52 + j - c = j - 52 := by omega
    simp only [hexponent]
    exact .pos hm.pos hm (by omega) hnumber

/-- A product with a power of two. -/
theorem holds_mul {u v : UnpackedFloat} {n i : ℕ} (hu : Holds u n) (hv : Holds v (2 ^ i))
    (hbits : n.log2 + i ≤ 1023) : Holds (UnpackedFloat.mul Format.binary64 u v) (n * 2 ^ i) := by
  generalize hp : 2 ^ i = p at hv
  cases hv with
  | zero => exact absurd hp (Nat.two_pow_pos i).ne'
  | @pos m' j' _ hpos' hm' hj' h' =>
      subst hp
      -- the mantissa of a power of two
      have hlog := hm'.log2_add (M := 2 ^ i) (a := 52) h'.symm
      rw [Nat.log2_two_pow] at hlog
      obtain rfl : j' = i := by omega
      have hm52 : m' = 2 ^ 52 := by
        apply Nat.eq_of_mul_eq_mul_right (Nat.two_pow_pos j')
        rw [h', Nat.mul_comm]
      subst hm52
      cases hu with
      | zero =>
          rw [Nat.zero_mul]
          exact .zero
      | @pos m j _ hpos hm hj h =>
          have hnumber : m * 2 ^ (j + j') = n * 2 ^ j' * 2 ^ 52 := by
            rw [pow_add, ← Nat.mul_assoc, h, Nat.mul_right_comm]
          have hle : j + j' ≤ 1023 := by
            have hlog' := hm.log2_add (M := n) (a := 52) h.symm
            omega
          have hround := roundWithAccuracy_exact hm .positive 52
            (e := (j : ℤ) - 52 + (j' - 52)) (by omega)
          show Holds (roundWithAccuracy Format.binary64 .positive (m * 2 ^ 52) _ .exact) _
          rw [hround]
          have hexponent : (j : ℤ) - 52 + (j' - 52) + (52 : ℕ) = (j + j' : ℕ) - 52 := by omega
          simp only [hexponent]
          exact .pos hm.pos hm hle hnumber

/-- A difference. -/
theorem holds_sub {u v : UnpackedFloat} {a b : ℕ} (hu : Holds u a) (hv : Holds v b) (hle : b ≤ a)
    (hlt : a < 2 ^ 53) : Holds (UnpackedFloat.sub Format.binary64 u v) (a - b) := by
  cases hu with
  | zero =>
      cases hv with
      | zero => exact .zero
      | pos hpos hm hj h => exact absurd (hm.number_pos h) (by omega)
  | @pos m j _ hpos hm hj h =>
      cases hv with
      | zero => exact .pos hpos hm hj h
      | @pos m' j' _ hpos' hm' hj' h' =>
          -- both mantissas are brought to the smaller exponent
          have hmin : min ((j : ℤ) - 52) (j' - 52) = (min j j' : ℕ) - 52 := by omega
          have hshift : ((j : ℤ) - 52 - ((min j j' : ℕ) - 52)).toNat = j - min j j' := by omega
          have hshift' : ((j' : ℤ) - 52 - ((min j j' : ℕ) - 52)).toNat = j' - min j j' := by omega
          have hscale : m <<< (j - min j j') * 2 ^ min j j' = a * 2 ^ 52 := by
            rw [Nat.shiftLeft_eq, Nat.mul_assoc, ← pow_add, Nat.sub_add_cancel (Nat.min_le_left ..), h]
          have hscale' : m' <<< (j' - min j j') * 2 ^ min j j' = b * 2 ^ 52 := by
            rw [Nat.shiftLeft_eq, Nat.mul_assoc, ← pow_add, Nat.sub_add_cancel (Nat.min_le_right ..),
              h']
          generalize hM : m <<< (j - min j j') = M at hscale
          generalize hM' : m' <<< (j' - min j j') = M' at hscale'
          have hMle : M' ≤ M := by
            apply Nat.le_of_mul_le_mul_right _ (Nat.two_pow_pos (min j j'))
            rw [hscale, hscale']
            exact Nat.mul_le_mul_right _ hle
          have hdiff : (M - M') * 2 ^ min j j' = (a - b) * 2 ^ 52 := by
            rw [Nat.sub_mul, hscale, hscale', Nat.sub_mul]
          have hnormal := holds_normalize (Nat.lt_of_le_of_lt (Nat.sub_le a b) hlt) hdiff
          rw [Nat.cast_sub (R := ℤ) hMle] at hnormal
          rw [UnpackedFloat.sub]
          dsimp only [decreaseExponent]
          rw [hmin, hshift, hshift', hM, hM']
          exact hnormal

theorem compare_mul_right (a b : ℕ) {k : ℕ} (hk : 0 < k) :
    compare (a * k) (b * k) = compare a b := by
  rcases Nat.lt_trichotomy a b with h | rfl | h
  · rw [compare_lt_iff_lt.mpr h, compare_lt_iff_lt.mpr (Nat.mul_lt_mul_of_pos_right h hk)]
  · simp
  · rw [compare_gt_iff_gt.mpr h, compare_gt_iff_gt.mpr (Nat.mul_lt_mul_of_pos_right h hk)]

/-- Of two numbers, that with the smaller exponent is smaller. -/
theorem Full.number_lt {m m' j j' a b : ℕ} (hm : Full m) (hm' : Full m')
    (h : m * 2 ^ j = a * 2 ^ 52) (h' : m' * 2 ^ j' = b * 2 ^ 52) (hj : j < j') : a < b := by
  have hdouble : 2 ^ 53 * 2 ^ j = 2 ^ 52 * 2 ^ (j + 1) := by
    rw [pow_succ' 2 j, ← Nat.mul_assoc, ← pow_succ]
  have hscaled : a * 2 ^ 52 < b * 2 ^ 52 := by
    calc a * 2 ^ 52 = m * 2 ^ j := h.symm
      _ < 2 ^ 53 * 2 ^ j := Nat.mul_lt_mul_of_pos_right hm.2 (Nat.two_pow_pos j)
      _ = 2 ^ 52 * 2 ^ (j + 1) := hdouble
      _ ≤ m' * 2 ^ j' := Nat.mul_le_mul hm'.1 (Nat.pow_le_pow_right (by decide) hj)
      _ = b * 2 ^ 52 := h'
  exact Nat.lt_of_mul_lt_mul_right hscaled

theorem compare_finite (m m' : ℕ) (e e' : ℤ) (hpos : 0 < m) (hpos' : 0 < m') :
    (UnpackedFloat.finite .positive m e hpos).compare (.finite .positive m' e' hpos') =
      some ((compare e e').then (compare m m')) := rfl

/-- The order is that of the numbers. -/
theorem compare_eq {u v : UnpackedFloat} {a b : ℕ} (hu : Holds u a) (hv : Holds v b) :
    u.compare v = some (compare a b) := by
  cases hu with
  | zero =>
      cases hv with
      | zero => rfl
      | pos hpos hm hj h =>
          rw [compare_lt_iff_lt.mpr (hm.number_pos h)]
          rfl
  | @pos m j _ hpos hm hj h =>
      cases hv with
      | zero =>
          rw [compare_gt_iff_gt.mpr (hm.number_pos h)]
          rfl
      | @pos m' j' _ hpos' hm' hj' h' =>
          rw [compare_finite]
          rcases Nat.lt_trichotomy j j' with hlt | rfl | hgt
          · have hexponent : (j : ℤ) - 52 < j' - 52 := by omega
            rw [compare_lt_iff_lt.mpr hexponent, compare_lt_iff_lt.mpr (hm.number_lt hm' h h' hlt),
              Ordering.lt_then]
          · rw [compare_eq_iff_eq.mpr rfl, Ordering.eq_then, ← compare_mul_right m m' (Nat.two_pow_pos j), h, h',
              compare_mul_right a b (Nat.two_pow_pos 52)]
          · have hexponent : (j' : ℤ) - 52 < j - 52 := by omega
            rw [compare_gt_iff_gt.mpr hexponent, compare_gt_iff_gt.mpr (hm'.number_lt hm h' h hgt),
              Ordering.gt_then]

/-! ## Packing -/

/-- The bits of a full mantissa below its highest are all that has to be kept. -/
theorem Full.toNat_append {m : ℕ} (hm : Full m) : (1#1 ++ BitVec.ofNat 52 m).toNat = m := by
  have hlow : m % 2 ^ 52 < 2 ^ 52 := Nat.mod_lt _ (Nat.two_pow_pos 52)
  rw [BitVec.toNat_append, BitVec.toNat_ofNat, BitVec.toNat_ofNat,
    ← Nat.shiftLeft_add_eq_or_of_lt hlow, Nat.shiftLeft_eq]
  have hlower := hm.1
  have hupper := hm.2
  omega

/-- Nothing is lost when a double is packed. -/
theorem unpack_pack {u : UnpackedFloat} {n : ℕ} (hu : Holds u n) :
    UnpackedFloat.unpack Format.binary64 (UnpackedFloat.pack Format.binary64 u) = u := by
  cases hu with
  | zero => rfl
  | @pos m j _ hpos hm hj h =>
      have hbiased : ((j : ℤ) - 52 + Format.binary64.exponentBias + (52 : ℕ)).toNat = j + 1023 := by
        show ((j : ℤ) - 52 + (1023 : ℕ) + (52 : ℕ)).toNat = j + 1023
        omega
      have hexponent : (BitVec.ofNat 11 (j + 1023)).toNat = j + 1023 := by
        rw [BitVec.toNat_ofNat]
        exact Nat.mod_eq_of_lt (by omega)
      have hinfinite : BitVec.ofNat 11 (j + 1023) ≠ -1#11 := by
        intro heq
        have := congrArg BitVec.toNat heq
        rw [hexponent] at this
        simp at this
        omega
      have hsubnormal : BitVec.ofNat 11 (j + 1023) ≠ 0#11 := by
        intro heq
        have := congrArg BitVec.toNat heq
        rw [hexponent] at this
        simp at this
      have hback : ((j + 1023 : ℕ) : ℤ) - (Format.binary64.exponentBias + (52 : ℕ)) = j - 52 := by
        show ((j + 1023 : ℕ) : ℤ) - ((1023 : ℕ) + (52 : ℕ)) = j - 52
        omega
      have hpack : UnpackedFloat.pack Format.binary64 (.finite .positive m (j - 52) hpos) =
          packComponents Format.binary64 .positive (BitVec.ofNat 11 (j + 1023)) (BitVec.ofNat 52 m) := by
        have hnormal : 52 + 1 = Format.binary64.mantissaBits := rfl
        rw [UnpackedFloat.pack]
        dsimp only
        rw [hbiased, hm.log2, if_neg (by omega), if_pos hnormal]
      rw [hpack, UnpackedFloat.unpack]
      dsimp only
      rw [unpackExponent_packComponents, if_neg hinfinite, if_neg hsubnormal, hexponent, hback]
      simp only [unpackMantissa_packComponents, unpackSign_packComponents, Sign.ofBitVec_toBitVec,
        hm.toNat_append]

/-! ## Floats -/

/-- The double is the natural number `n`. -/
def IsNat (x : Float) (n : ℕ) : Prop := Holds x.toModel.unpack n

/-- The double next to a natural number, as a literal has it. -/
def number (n : ℕ) : Float := .ofModel (.ofNat n)

theorem Holds.isNat {u : UnpackedFloat} {n : ℕ} (hu : Holds u n) :
    IsNat (.ofModel (.pack u)) n := by
  show Holds (UnpackedFloat.unpack Format.binary64 (UnpackedFloat.pack Format.binary64 u)) n
  rw [unpack_pack hu]
  exact hu

section

variable {x y : Float} {a b : ℕ}

theorem isNat_number (h : a < 2 ^ 53) : IsNat (number a) a := by
  have hexact := holds_normalize h (D := a) (c := 52) rfl
  rw [Nat.cast_ofNat, sub_self] at hexact
  exact hexact.isNat

theorem IsNat.mul {i : ℕ} (hx : IsNat x a) (hy : IsNat y (2 ^ i)) (h : a.log2 + i ≤ 1023) :
    IsNat (x * y) (a * 2 ^ i) :=
  (holds_mul hx hy h).isNat

theorem IsNat.sub (hx : IsNat x a) (hy : IsNat y b) (hle : b ≤ a) (hlt : a < 2 ^ 53) :
    IsNat (x - y) (a - b) :=
  (holds_sub hx hy hle hlt).isNat

theorem IsNat.lt (hx : IsNat x a) (hy : IsNat y b) : x < y ↔ a < b := by
  show decide (x.toModel < y.toModel) = true ↔ a < b
  rw [decide_eq_true_iff]
  show (x.toModel.unpack.compare y.toModel.unpack == some .lt) = true ↔ a < b
  rw [compare_eq hx hy, beq_iff_eq, Option.some_inj, compare_lt_iff_lt]

theorem IsNat.beq (hx : IsNat x a) (hy : IsNat y b) : (x == y) = true ↔ a = b := by
  show (x.toModel.unpack.compare y.toModel.unpack == some .eq) = true ↔ a = b
  rw [compare_eq hx hy, beq_iff_eq, Option.some_inj, compare_eq_iff_eq]

end

end Double
