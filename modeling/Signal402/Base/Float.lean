import Signal402.Base.Json
import Mathlib.Algebra.Ring.Int.Defs
import Mathlib.Data.Int.Order.Basic
import Mathlib.Data.Prod.Lex

/-!
# Floats

What Python does with a `float`: conversions from and to integers, the order, and
the decimal notation of a price.  Rounding and the order are those of the model of
IEEE doubles that Lean's own `Float` has.
-/

namespace Signal402

namespace PyFloat

open Float.Model (UnpackedFloat Format)

/-- The number a float stands for, in unpacked form. -/
def unpack (x : PyFloat) : UnpackedFloat := UnpackedFloat.unpack Format.binary64 x.bits

/-- The float nearest to a number that `UnpackedFloat` rounded. -/
def pack (u : UnpackedFloat) : PyFloat := ⟨UnpackedFloat.pack Format.binary64 u⟩

/-- `x <= y`, false when either is no number. -/
def le (x y : PyFloat) : Bool := x.unpack.le y.unpack

/-- `x < y`. -/
def lt (x y : PyFloat) : Bool := x.unpack.lt y.unpack

/-- `x == y`. -/
def eq (x y : PyFloat) : Bool := x.unpack.beq y.unpack

/-- `math.isfinite`. -/
def isFinite (x : PyFloat) : Bool :=
  match x.unpack with
  | .zero _ | .finite .. => true
  | .infinity _ | .notANumber => false

/-- `0.0`. -/
def zero : PyFloat := ⟨0⟩

/-- `float(n)`. -/
def ofInt (n : ℤ) : Except PyError PyFloat :=
  match (pack (UnpackedFloat.ofInt Format.binary64 n)).unpack with
  | .infinity _ => .error ⟨.overflowError, "int too large to convert to float"⟩
  | _ => .ok (pack (UnpackedFloat.ofInt Format.binary64 n))

/-- A nonnegative integer as an exact unpacked number. -/
def exact (n : ℕ) : UnpackedFloat :=
  if h : 0 < n then .finite .positive n 0 h else .zero .positive

/-- `n / d` for nonnegative integers: the quotient rounded once. -/
def ofRatio (n d : ℕ) : PyFloat := pack (UnpackedFloat.div Format.binary64 (exact n) (exact d))

/-- `x - y`. -/
def sub (x y : PyFloat) : PyFloat := pack (UnpackedFloat.sub Format.binary64 x.unpack y.unpack)

/-- `x + y`. -/
def add (x y : PyFloat) : PyFloat := pack (UnpackedFloat.add Format.binary64 x.unpack y.unpack)

/-- `abs(x)`. -/
def abs (x : PyFloat) : PyFloat := pack x.unpack.abs

/-- `m * 10 ** e`, the literal of a decimal. -/
def ofDecimal (m : ℕ) (e : ℤ) : PyFloat := pack (UnpackedFloat.ofScientific Format.binary64 m e)

/-- `int(x)`: truncation. -/
def toInt (x : PyFloat) : Except PyError ℤ :=
  match x.unpack with
  | .infinity _ => .error ⟨.overflowError, "cannot convert float infinity to integer"⟩
  | .notANumber => .error (.valueError "cannot convert float NaN to integer")
  | .zero _ => .ok 0
  | .finite sign m e _ =>
      let n : ℕ := if 0 ≤ e then m * 2 ^ e.toNat else m / 2 ^ (-e).toNat
      .ok (match sign with
        | .positive => n
        | .negative => -n)

/-- `x == n` for an integer `n`, which compares the exact numbers. -/
def eqInt (x : PyFloat) (n : ℤ) : Bool :=
  match x.unpack with
  | .infinity _ | .notANumber => false
  | .zero _ => n == 0
  | .finite sign m e _ =>
      let s : ℤ := match sign with
        | .positive => m
        | .negative => -m
      if 0 ≤ e then s * 2 ^ e.toNat == n else s == n * 2 ^ (-e).toNat

/-- `n / d` rounded to an integer, half to even. -/
def roundHalfEven (n d : ℕ) : ℕ :=
  let q := n / d
  let r := n % d
  if 2 * r < d then q else if d < 2 * r then q + 1 else q + q % 2

/-- The magnitude of a float in units of `10 ** -digits`, rounded half to even. -/
def scaled (x : PyFloat) (digits : ℕ) : ℕ :=
  match x.unpack with
  | .finite _ m e _ =>
      if 0 ≤ e then m * 2 ^ e.toNat * 10 ^ digits
      else roundHalfEven (m * 10 ^ digits) (2 ^ (-e).toNat)
  | _ => 0

end PyFloat

/-- `str(n)` for a nonnegative integer. -/
def natText (n : ℕ) : PyStr := (Nat.toDigits 10 n).map CodePoint.ofChar

/-- `str(n)`. -/
def intText (n : ℤ) : PyStr :=
  if n < 0 then CodePoint.ofChar '-' :: natText n.natAbs else natText n.natAbs

namespace PyFloat

/-- A decimal point before the last `digits` digits of `n`. -/
def placePoint (n digits : ℕ) : PyStr :=
  let ds := natText n
  let padded := List.replicate (digits + 1 - ds.length) (CodePoint.ofChar '0') ++ ds
  padded.take (padded.length - digits) ++ CodePoint.ofChar '.' ::
    padded.drop (padded.length - digits)

/-- `f"{x:.{digits}f}"` for a nonnegative float. -/
def fixed (x : PyFloat) (digits : ℕ) : PyStr := placePoint (x.scaled digits) digits

/-- `round(x, digits)` for a nonnegative float. -/
def round (x : PyFloat) (digits : ℕ) : PyFloat := ofRatio (x.scaled digits) (10 ^ digits)


/-! ## Numbers and their order -/

section Order

open Float.Model Float.Model.UnpackedFloat

/-- The float stands for a number, an infinity included. -/
def IsNumber (x : PyFloat) : Prop := x.unpack ≠ .notANumber

/-- A number that is rounded and packed is a number still. -/
theorem pack_isNumber {u : UnpackedFloat} (h : u ≠ .notANumber) : (pack u).IsNumber := by
  have hbits : ∀ {b : BitVec Format.binary64.numBits},
      (unpackExponent b = -1#_ → unpackMantissa b = 0#_) →
        UnpackedFloat.unpack Format.binary64 b ≠ .notANumber := by
    intro b hb hnone
    unfold UnpackedFloat.unpack at hnone
    by_cases he : unpackExponent b = -1#_
    · rw [if_pos he, if_pos (hb he)] at hnone
      cases hnone
    · rw [if_neg he] at hnone
      by_cases hz : unpackExponent b = 0#_
      · rw [if_pos hz] at hnone
        by_cases hm : unpackMantissa b = 0#_
        · rw [dif_pos hm] at hnone
          cases hnone
        · rw [dif_neg hm] at hnone
          cases hnone
      · rw [if_neg hz] at hnone
        cases hnone
  have hcomp : ∀ {s : UnpackedFloat.Sign} {e : BitVec Format.binary64.exponentBits}
      {m : BitVec Format.binary64.mantissaBitsWithoutImplicit}, (e = -1#_ → m = 0#_) →
      UnpackedFloat.unpack Format.binary64 (packComponents Format.binary64 s e m) ≠
        .notANumber := by
    intro s e m hm
    refine hbits ?_
    rw [unpackExponent_packComponents, unpackMantissa_packComponents]
    exact hm
  unfold IsNumber PyFloat.unpack pack
  cases u with
  | notANumber => exact absurd rfl h
  | infinity s => exact hcomp fun _ => rfl
  | zero s => exact hcomp fun _ => rfl
  | finite s m e hm =>
      unfold UnpackedFloat.pack
      dsimp only
      split
      · exact hcomp fun _ => rfl
      · split
        · refine hcomp fun hexp => ?_
          rename_i hlt _
          -- the biased exponent is not all ones
          have := congrArg BitVec.toNat hexp
          simp only [BitVec.toNat_ofNat] at this
          generalize (e + Format.binary64.exponentBias +
            Format.binary64.mantissaBitsWithoutImplicit).toNat = b at hlt this
          have hones : (-1#11).toNat = 2047 := by decide
          change b % 2 ^ 11 = (-1#11).toNat at this
          change ¬2 ^ 11 ≤ b + 1 at hlt
          omega
        · exact hcomp fun hexp => absurd (congrArg BitVec.toNat hexp) (by decide)

theorem zero_isNumber : zero.IsNumber := by
  have hzero : zero.unpack = .zero .positive := rfl
  unfold IsNumber
  rw [hzero]
  simp

/-- A number is equal to itself. -/
theorem eq_self {x : PyFloat} (h : x.IsNumber) : x.eq x = true := by
  unfold eq UnpackedFloat.beq
  suffices hcompare : x.unpack.compare x.unpack = some .eq by
    rw [hcompare]
    rfl
  cases hx : x.unpack with
  | notANumber => exact absurd hx h
  | infinity s => cases s <;> rfl
  | zero s => cases s <;> rfl
  | finite s m e hm =>
      have hself : (compare e e).then (compare m m) = .eq := by simp
      cases s with
      | positive => exact congrArg some hself
      | negative => exact congrArg (fun o => some (Ordering.swap o)) hself

theorem roundWithAccuracy_ne {spec : Format} {s : UnpackedFloat.Sign} {m : ℕ} {e : ℤ}
    {acc : Accuracy} : roundWithAccuracy spec s m e acc ≠ .notANumber := by
  have hfinite : ∀ {n : ℕ} {k : ℤ} {t : UnpackedFloat.Sign},
      (if h : n = 0 then UnpackedFloat.zero t else .finite t n k (Nat.pos_of_ne_zero h)) ≠
        .notANumber := by
    intro n k t hnone
    by_cases hn : n = 0
    · rw [dif_pos hn] at hnone
      cases hnone
    · rw [dif_neg hn] at hnone
      cases hnone
  exact hfinite

/-- A quotient by a positive integer is a number. -/
theorem ofRatio_isNumber (n : ℕ) {d : ℕ} (hd : 0 < d) : (ofRatio n d).IsNumber := by
  refine pack_isNumber ?_
  unfold exact
  rw [dif_pos hd]
  by_cases hn : 0 < n
  · rw [dif_pos hn]
    exact roundWithAccuracy_ne
  · rw [dif_neg hn]
    intro hzero
    cases hzero

/-- The place of a number in the order: its sign first, then its exponent and its
mantissa, which are negated below zero. -/
def rank : UnpackedFloat → ℤ ×ₗ ℤ ×ₗ ℤ
  | .infinity .negative => toLex (-2, toLex (0, 0))
  | .finite .negative m e _ => toLex (-1, toLex (-e, -m))
  | .notANumber | .zero _ => toLex (0, toLex (0, 0))
  | .finite .positive m e _ => toLex (1, toLex (e, m))
  | .infinity .positive => toLex (2, toLex (0, 0))

/-- Numbers compare as their ranks. -/
theorem lt_iff_rank {x y : PyFloat} (hx : x.IsNumber) (hy : y.IsNumber) :
    x.lt y = true ↔ rank x.unpack < rank y.unpack := by
  unfold lt UnpackedFloat.lt
  unfold IsNumber at hx hy
  generalize x.unpack = u at hx ⊢
  generalize y.unpack = v at hy ⊢
  -- both sides compute once the signs are known
  cases u with
  | notANumber => exact absurd rfl hx
  | infinity s =>
      cases v with
      | notANumber => exact absurd rfl hy
      | infinity t => cases s <;> cases t <;> decide
      | zero t => cases s <;> (dsimp only [UnpackedFloat.compare, rank]; simp [Prod.Lex.lt_iff])
      | finite t m e _ =>
          cases s <;> cases t <;>
            (dsimp only [UnpackedFloat.compare, rank]; simp [Prod.Lex.lt_iff])
  | zero s =>
      cases v with
      | notANumber => exact absurd rfl hy
      | infinity t => cases t <;> (dsimp only [UnpackedFloat.compare, rank]; simp [Prod.Lex.lt_iff])
      | zero t => dsimp only [UnpackedFloat.compare, rank]; simp
      | finite t m e _ =>
          cases t <;> (dsimp only [UnpackedFloat.compare, rank]; simp [Prod.Lex.lt_iff])
  | finite s m e _ =>
      cases v with
      | notANumber => exact absurd rfl hy
      | infinity t =>
          cases s <;> cases t <;>
            (dsimp only [UnpackedFloat.compare, rank]; simp [Prod.Lex.lt_iff])
      | zero t => cases s <;> (dsimp only [UnpackedFloat.compare, rank]; simp [Prod.Lex.lt_iff])
      | finite t n f _ =>
          cases s <;> cases t <;>
            (dsimp only [UnpackedFloat.compare, rank]
             simp [Prod.Lex.lt_iff, Ordering.then_eq_lt, Ordering.swap_eq_lt, Ordering.then_eq_gt,
              compare_lt_iff_lt, compare_gt_iff_gt])

end Order

end PyFloat

end Signal402
