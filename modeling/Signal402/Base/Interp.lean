import Signal402.Base.Float
import Signal402.Base.Rails

/-!
# Conversions of values

`str`, `int` and `float` of a JSON value, and the methods of strings, as the
validation code uses them.  On ASCII text they are computed here; beyond it they
read the tables of the interpreter, which are a parameter.

An integer has few enough digits to be written out: `json.loads` refuses a longer
literal.
-/

namespace Signal402

namespace PyStr

def isAscii (s : PyStr) : Bool := s.all fun c => decide (c.val < 128)

def isDigitChar (c : CodePoint) : Bool := decide (48 ≤ c.val) && decide (c.val ≤ 57)

def isUpperChar (c : CodePoint) : Bool := decide (65 ≤ c.val) && decide (c.val ≤ 90)

def isLowerChar (c : CodePoint) : Bool := decide (97 ≤ c.val) && decide (c.val ≤ 122)

def isAlphaChar (c : CodePoint) : Bool := isUpperChar c || isLowerChar c

/-- `[0-9a-fA-F]`. -/
def isHexChar (c : CodePoint) : Bool :=
  isDigitChar c || (decide (65 ≤ c.val) && decide (c.val ≤ 70)) ||
    (decide (97 ≤ c.val) && decide (c.val ≤ 102))

/-- Upper case of the ASCII letters. -/
def upperCodePoint (c : CodePoint) : CodePoint :=
  if h : 97 ≤ c.val ∧ c.val ≤ 122 then ⟨c.val - 32, by omega⟩ else c

/-- Decimal digits. -/
def isDecimal (s : PyStr) : Bool := !s.isEmpty && s.all isDigitChar

/-- The number that decimal digits write. -/
def decimalValue (s : PyStr) : ℕ := s.foldl (fun n c => 10 * n + (c.val - 48)) 0

/-- The most digits `int` reads. -/
def maxIntDigits : ℕ := 4300

end PyStr

/-- What the interpreter's tables decide: the methods of strings that are not ASCII,
the spellings of numbers besides plain decimals, and `str` of the values that are no
string and no integer. -/
structure Interp where
  unicode : Unicode
  isdigit : PyStr → Bool
  intOf : PyStr → Option ℤ
  floatOf : PyStr → Option PyFloat
  repr : Json → PyStr

namespace Interp

variable (py : Interp)

/-- The methods of strings. -/
def uni : Unicode where
  lower s := if s.isAscii then s.map PyStr.lowerCodePoint else py.unicode.lower s
  upper s := if s.isAscii then s.map PyStr.upperCodePoint else py.unicode.upper s
  isalnum s :=
    if s.isAscii then !s.isEmpty && s.all (fun c => PyStr.isDigitChar c || PyStr.isAlphaChar c)
    else py.unicode.isalnum s
  isHexInt := py.unicode.isHexInt

/-- `s.isdigit()`. -/
def isDigit (s : PyStr) : Bool := if s.isAscii then s.isDecimal else py.isdigit s

/-- `int(s)`, and nothing for a `ValueError`. -/
def int? (s : PyStr) : Option ℤ :=
  if s.isDecimal then
    if s.length ≤ PyStr.maxIntDigits then some s.decimalValue else none
  else py.intOf s

/-- `int(s)`. -/
def int (s : PyStr) : Except PyError ℤ :=
  match py.int? s with
  | some n => .ok n
  | none => .error (.valueError "invalid literal for int() with base 10")

/-- `str(x)`. -/
def str : Json → PyStr
  | .null => "None"
  | .bool true => "True"
  | .bool false => "False"
  | .int n => intText n
  | .str s => s
  | x@(.float _) | x@(.arr _) | x@(.obj _) => py.repr x

/-- A value that is not `None`, as a text. -/
def str? : Json → Option PyStr
  | .null => none
  | x => some (py.str x)

/-- `_text`. -/
def text (x : Json) : Option PyStr := Signal402.text (py.str? x)

/-- `str(x or "")`. -/
def strOrEmpty (x : Json) : PyStr := if x.truthy then py.str x else []

/-- `_as_int`. -/
def asInt : Json → Except PyError (Option ℤ)
  | .null | .bool _ | .arr _ | .obj _ => .ok none
  | .int n => .ok (some n)
  | .float x =>
      match x.toInt with
      | .ok n => .ok (some n)
      | .error e => if e.cls.isA .valueError then .ok none else .error e
  | .str s => .ok (if s.isEmpty then none else py.int? s)

/-- `_as_float`. -/
def asFloat : Json → Except PyError (Option PyFloat)
  | .null | .bool _ | .arr _ | .obj _ => .ok none
  | .int n => (PyFloat.ofInt n).map some
  | .float x => .ok (some x)
  | .str s => .ok (if s.isEmpty then none else py.floatOf s)

end Interp

/-- An interpreter for ASCII text and plain decimals. -/
def Interp.plain : Interp where
  unicode := { lower := id, upper := id, isalnum := fun _ => false, isHexInt := fun _ => false }
  isdigit _ := false
  intOf _ := none
  floatOf _ := none
  repr _ := []

namespace Json

/-- `x == n` for an integer `n`. -/
def eqInt (x : Json) (n : ℤ) : Bool :=
  match x with
  | int m => m == n
  | bool b => (if b then 1 else 0) == n
  | float f => f.eqInt n
  | _ => false

/-- `x == s` for a text or `None`. -/
def eqText (x : Json) : Option PyStr → Bool
  | none => x.isNull
  | some s => x.eqStr s

/-- `x == f` for a float or `None`. -/
def eqFloat (x : Json) : Option PyFloat → Bool
  | none => x.isNull
  | some f =>
      match x with
      | float g => g.eq f
      | int m => f.eqInt m
      | bool b => f.eqInt (if b then 1 else 0)
      | _ => false

/-- `x == n` for an integer or `None`. -/
def eqInt? (x : Json) : Option ℤ → Bool
  | none => x.isNull
  | some n => x.eqInt n

/-- `x in (None, "")`. -/
def isBlank : Json → Bool
  | .null => true
  | .str s => s.isEmpty
  | _ => false

/-- A text, or `None`. -/
def ofText : Option PyStr → Json
  | none => null
  | some s => str s

/-- An integer, or `None`. -/
def ofInt? : Option ℤ → Json
  | none => null
  | some n => int n

/-- A float, or `None`. -/
def ofFloat? : Option PyFloat → Json
  | none => null
  | some f => float f

/-- `isinstance(x, dict)`. -/
def isObj : Json → Bool
  | obj _ => true
  | _ => false

/-- `x if isinstance(x, dict) else {}`. -/
def dictOrEmpty : Json → Dict
  | obj d => d
  | _ => []

end Json

end Signal402
