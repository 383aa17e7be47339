import Mathlib.Algebra.Ring.Nat
import Mathlib.Data.List.Basic
import Mathlib.Tactic.Common

/-!
# SHA-256

The hash of FIPS 180-4 on byte strings, as `hashlib.sha256(data).digest()`
computes it.  Words are natural numbers below `2 ^ 32` and every addition
reduces explicitly, so that the kernel can evaluate a digest; nothing in the
development reasons about the compression function beyond the length of its
output.
-/

namespace Sha256

/-- Word addition, modulo `2 ^ 32`. -/
def add (x y : ℕ) : ℕ := (x + y) % 2 ^ 32

/-- Right rotation of a 32-bit word. -/
def rotr (n x : ℕ) : ℕ := (x >>> n) ||| ((x <<< (32 - n)) % 2 ^ 32)

def ch (x y z : ℕ) : ℕ := (x &&& y) ^^^ ((2 ^ 32 - 1 - x) &&& z)

def maj (x y z : ℕ) : ℕ := (x &&& y) ^^^ (x &&& z) ^^^ (y &&& z)

def bigSigma0 (x : ℕ) : ℕ := rotr 2 x ^^^ rotr 13 x ^^^ rotr 22 x

def bigSigma1 (x : ℕ) : ℕ := rotr 6 x ^^^ rotr 11 x ^^^ rotr 25 x

def smallSigma0 (x : ℕ) : ℕ := rotr 7 x ^^^ rotr 18 x ^^^ (x >>> 3)

def smallSigma1 (x : ℕ) : ℕ := rotr 17 x ^^^ rotr 19 x ^^^ (x >>> 10)

/-- The 64 round constants. -/
def roundConstants : List ℕ :=
  [0x428a2f98, 0x71374491, 0xb5c0fbcf, 0xe9b5dba5, 0x3956c25b, 0x59f111f1,
   0x923f82a4, 0xab1c5ed5, 0xd807aa98, 0x12835b01, 0x243185be, 0x550c7dc3,
   0x72be5d74, 0x80deb1fe, 0x9bdc06a7, 0xc19bf174, 0xe49b69c1, 0xefbe4786,
   0x0fc19dc6, 0x240ca1cc, 0x2de92c6f, 0x4a7484aa, 0x5cb0a9dc, 0x76f988da,
   0x983e5152, 0xa831c66d, 0xb00327c8, 0xbf597fc7, 0xc6e00bf3, 0xd5a79147,
   0x06ca6351, 0x14292967, 0x27b70a85, 0x2e1b2138, 0x4d2c6dfc, 0x53380d13,
   0x650a7354, 0x766a0abb, 0x81c2c92e, 0x92722c85, 0xa2bfe8a1, 0xa81a664b,
   0xc24b8b70, 0xc76c51a3, 0xd192e819, 0xd6990624, 0xf40e3585, 0x106aa070,
   0x19a4c116, 0x1e376c08, 0x2748774c, 0x34b0bcb5, 0x391c0cb3, 0x4ed8aa4a,
   0x5b9cca4f, 0x682e6ff3, 0x748f82ee, 0x78a5636f, 0x84c87814, 0x8cc70208,
   0x90befffa, 0xa4506ceb, 0xbef9a3f7, 0xc67178f2]

/-- The message schedule: `window` holds the sixteen most recent words, oldest
first, and `n` further words are to be produced. -/
def schedule : ℕ → List ℕ → List ℕ
  | 0, window => window
  | _ + 1, [] => []
  | n + 1, w0 :: rest =>
      w0 :: schedule n (rest ++
        [add (add (smallSigma1 (rest.getD 13 0)) (rest.getD 8 0))
          (add (smallSigma0 (rest.getD 0 0)) w0)])

/-- The eight working variables. -/
structure Work where
  (a b c d e f g h : ℕ)

def round (v : Work) (kw : ℕ × ℕ) : Work :=
  let t1 := add (add (add v.h (bigSigma1 v.e)) (add (ch v.e v.f v.g) kw.1)) kw.2
  let t2 := add (bigSigma0 v.a) (maj v.a v.b v.c)
  { a := add t1 t2, b := v.a, c := v.b, d := v.c
    e := add v.d t1, f := v.e, g := v.f, h := v.g }

/-- One block into the chaining value. -/
def compress (s : Work) (block : List ℕ) : Work :=
  let v := (roundConstants.zip (schedule 48 block)).foldl round s
  { a := add s.a v.a, b := add s.b v.b, c := add s.c v.c, d := add s.d v.d
    e := add s.e v.e, f := add s.f v.f, g := add s.g v.g, h := add s.h v.h }

/-- The `n` low bytes of a number, most significant first. -/
def beBytes : ℕ → ℕ → List UInt8
  | 0, _ => []
  | n + 1, x => beBytes n (x / 256) ++ [UInt8.ofNat x]

@[simp] theorem beBytes_length (n x : ℕ) : (beBytes n x).length = n := by
  induction n generalizing x with
  | zero => rfl
  | succ n ih => simp [beBytes, ih]

/-- The padded message: a one bit, zeros, and the bit length on eight bytes. -/
def pad (msg : List UInt8) : List UInt8 :=
  msg ++ 0x80 :: (List.replicate ((119 - msg.length % 64) % 64) 0
    ++ beBytes 8 (8 * msg.length))

/-- Big-endian 32-bit words. -/
def words : List UInt8 → List ℕ
  | a :: b :: c :: d :: rest =>
      (a.toNat * 2 ^ 24 + b.toNat * 2 ^ 16 + c.toNat * 2 ^ 8 + d.toNat) :: words rest
  | _ => []

/-- The first `n` blocks of sixteen words. -/
def blocks : ℕ → List ℕ → List (List ℕ)
  | 0, _ => []
  | n + 1, ws => ws.take 16 :: blocks n (ws.drop 16)

def initial : Work where
  a := 0x6a09e667
  b := 0xbb67ae85
  c := 0x3c6ef372
  d := 0xa54ff53a
  e := 0x510e527f
  f := 0x9b05688c
  g := 0x1f83d9ab
  h := 0x5be0cd19

def Work.digest (s : Work) : List UInt8 :=
  [s.a, s.b, s.c, s.d, s.e, s.f, s.g, s.h].flatMap (beBytes 4)

@[simp] theorem Work.digest_length (s : Work) : s.digest.length = 32 := by
  simp [Work.digest, List.flatMap]

/-- `hashlib.sha256(msg).digest()`. -/
def sha256 (msg : List UInt8) : List UInt8 :=
  let ws := words (pad msg)
  ((blocks (ws.length / 16) ws).foldl compress initial).digest

@[simp] theorem sha256_length (msg : List UInt8) : (sha256 msg).length = 32 := by
  simp [sha256]

/-- `hmac.new(key, msg, hashlib.sha256).digest()`. -/
def hmac (key msg : List UInt8) : List UInt8 :=
  let key := if 64 < key.length then sha256 key else key
  let block := key ++ List.replicate (64 - key.length) 0
  sha256 (block.map (· ^^^ 0x5C) ++ sha256 (block.map (· ^^^ 0x36) ++ msg))

@[simp] theorem hmac_length (key msg : List UInt8) : (hmac key msg).length = 32 :=
  sha256_length _

/-- The digest of `"abc"` from the appendix of the standard. -/
example : (sha256 [0x61, 0x62, 0x63]).take 4 = [0xba, 0x78, 0x16, 0xbf] := by
  decide +kernel

end Sha256
