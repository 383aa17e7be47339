import Signal402.Lib.Sha256

/-!
# SHA-512/256

The hash of FIPS 180-4 on byte strings that `hashlib.new("sha512_256", data).digest()`
computes: SHA-512 from its own initial value, cut to 32 bytes.  As for SHA-256, words
are natural numbers and every addition reduces, so that the kernel can evaluate a
digest.
-/

namespace Sha512

open Sha256 (beBytes blocks Work)

/-- Word addition, modulo `2 ^ 64`. -/
def add (x y : ℕ) : ℕ := (x + y) % 2 ^ 64

/-- Right rotation of a 64-bit word. -/
def rotr (n x : ℕ) : ℕ := (x >>> n) ||| ((x <<< (64 - n)) % 2 ^ 64)

def ch (x y z : ℕ) : ℕ := (x &&& y) ^^^ ((2 ^ 64 - 1 - x) &&& z)

def maj (x y z : ℕ) : ℕ := (x &&& y) ^^^ (x &&& z) ^^^ (y &&& z)

def bigSigma0 (x : ℕ) : ℕ := rotr 28 x ^^^ rotr 34 x ^^^ rotr 39 x

def bigSigma1 (x : ℕ) : ℕ := rotr 14 x ^^^ rotr 18 x ^^^ rotr 41 x

def smallSigma0 (x : ℕ) : ℕ := rotr 1 x ^^^ rotr 8 x ^^^ (x >>> 7)

def smallSigma1 (x : ℕ) : ℕ := rotr 19 x ^^^ rotr 61 x ^^^ (x >>> 6)

/-- The 80 round constants. -/
def roundConstants : List ℕ :=
  [0x428a2f98d728ae22, 0x7137449123ef65cd, 0xb5c0fbcfec4d3b2f, 0xe9b5dba58189dbbc,
   0x3956c25bf348b538, 0x59f111f1b605d019, 0x923f82a4af194f9b, 0xab1c5ed5da6d8118,
   0xd807aa98a3030242, 0x12835b0145706fbe, 0x243185be4ee4b28c, 0x550c7dc3d5ffb4e2,
   0x72be5d74f27b896f, 0x80deb1fe3b1696b1, 0x9bdc06a725c71235, 0xc19bf174cf692694,
   0xe49b69c19ef14ad2, 0xefbe4786384f25e3, 0x0fc19dc68b8cd5b5, 0x240ca1cc77ac9c65,
   0x2de92c6f592b0275, 0x4a7484aa6ea6e483, 0x5cb0a9dcbd41fbd4, 0x76f988da831153b5,
   0x983e5152ee66dfab, 0xa831c66d2db43210, 0xb00327c898fb213f, 0xbf597fc7beef0ee4,
   0xc6e00bf33da88fc2, 0xd5a79147930aa725, 0x06ca6351e003826f, 0x142929670a0e6e70,
   0x27b70a8546d22ffc, 0x2e1b21385c26c926, 0x4d2c6dfc5ac42aed, 0x53380d139d95b3df,
   0x650a73548baf63de, 0x766a0abb3c77b2a8, 0x81c2c92e47edaee6, 0x92722c851482353b,
   0xa2bfe8a14cf10364, 0xa81a664bbc423001, 0xc24b8b70d0f89791, 0xc76c51a30654be30,
   0xd192e819d6ef5218, 0xd69906245565a910, 0xf40e35855771202a, 0x106aa07032bbd1b8,
   0x19a4c116b8d2d0c8, 0x1e376c085141ab53, 0x2748774cdf8eeb99, 0x34b0bcb5e19b48a8,
   0x391c0cb3c5c95a63, 0x4ed8aa4ae3418acb, 0x5b9cca4f7763e373, 0x682e6ff3d6b2b8a3,
   0x748f82ee5defb2fc, 0x78a5636f43172f60, 0x84c87814a1f0ab72, 0x8cc702081a6439ec,
   0x90befffa23631e28, 0xa4506cebde82bde9, 0xbef9a3f7b2c67915, 0xc67178f2e372532b,
   0xca273eceea26619c, 0xd186b8c721c0c207, 0xeada7dd6cde0eb1e, 0xf57d4f7fee6ed178,
   0x06f067aa72176fba, 0x0a637dc5a2c898a6, 0x113f9804bef90dae, 0x1b710b35131c471b,
   0x28db77f523047d84, 0x32caab7b40c72493, 0x3c9ebe0a15c9bebc, 0x431d67c49c100d4c,
   0x4cc5d4becb3e42b6, 0x597f299cfc657e2a, 0x5fcb6fab3ad6faec, 0x6c44198c4a475817]

/-- The message schedule: `window` holds the sixteen most recent words, oldest
first, and `n` further words are to be produced. -/
def schedule : ℕ → List ℕ → List ℕ
  | 0, window => window
  | _ + 1, [] => []
  | n + 1, w0 :: rest =>
      w0 :: schedule n (rest ++
        [add (add (smallSigma1 (rest.getD 13 0)) (rest.getD 8 0))
          (add (smallSigma0 (rest.getD 0 0)) w0)])

def round (v : Work) (kw : ℕ × ℕ) : Work :=
  let t1 := add (add (add v.h (bigSigma1 v.e)) (add (ch v.e v.f v.g) kw.1)) kw.2
  let t2 := add (bigSigma0 v.a) (maj v.a v.b v.c)
  { a := add t1 t2, b := v.a, c := v.b, d := v.c
    e := add v.d t1, f := v.e, g := v.f, h := v.g }

/-- One block into the chaining value. -/
def compress (s : Work) (block : List ℕ) : Work :=
  let v := (roundConstants.zip (schedule 64 block)).foldl round s
  { a := add s.a v.a, b := add s.b v.b, c := add s.c v.c, d := add s.d v.d
    e := add s.e v.e, f := add s.f v.f, g := add s.g v.g, h := add s.h v.h }

/-- The padded message: a one bit, zeros, and the bit length on sixteen bytes. -/
def pad (msg : List UInt8) : List UInt8 :=
  msg ++ 0x80 :: (List.replicate ((239 - msg.length % 128) % 128) 0
    ++ beBytes 16 (8 * msg.length))

/-- Big-endian 64-bit words. -/
def words : List UInt8 → List ℕ
  | a :: b :: c :: d :: e :: f :: g :: h :: rest =>
      (a.toNat * 2 ^ 56 + b.toNat * 2 ^ 48 + c.toNat * 2 ^ 40 + d.toNat * 2 ^ 32 +
        e.toNat * 2 ^ 24 + f.toNat * 2 ^ 16 + g.toNat * 2 ^ 8 + h.toNat) :: words rest
  | _ => []

/-- The initial value of SHA-512/256. -/
def initial : Work where
  a := 0x22312194fc2bf72c
  b := 0x9f555fa3c84c64c2
  c := 0x2393b86b6f53b151
  d := 0x963877195940eabd
  e := 0x96283ee2a88effe3
  f := 0xbe5e1e2553863992
  g := 0x2b0199fc2c85b8aa
  h := 0x0eb72ddc81c52ca2

/-- The first four words. -/
def digest (s : Work) : List UInt8 := [s.a, s.b, s.c, s.d].flatMap (beBytes 8)

@[simp] theorem digest_length (s : Work) : (digest s).length = 32 := by
  simp [digest, List.flatMap]

/-- `hashlib.new("sha512_256", msg).digest()`. -/
def sha512_256 (msg : List UInt8) : List UInt8 :=
  let ws := words (pad msg)
  digest ((blocks (ws.length / 16) ws).foldl compress initial)

@[simp] theorem sha512_256_length (msg : List UInt8) : (sha512_256 msg).length = 32 := by
  simp [sha512_256]

/-- The digest of `"abc"` from the appendix of the standard. -/
example : (sha512_256 [0x61, 0x62, 0x63]).take 4 = [0x53, 0x04, 0x8e, 0x26] := by
  decide +kernel

end Sha512
