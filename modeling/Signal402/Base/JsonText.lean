import Signal402.Base.Interp

/-!
# JSON as text

`Json.dumps` is `json.dumps` with compact separators, and `loads` is `json.loads`.  What
the interpreter decides is a parameter: the spelling of floats, and how deep lists and
dictionaries may stand in a text before the reader raises `RecursionError`.
-/

namespace Signal402

/-! ## Writing -/

/-- The lower-case hexadecimal digits of a number below `16 ^ 4`. -/
def hex4 (n : ℕ) : PyStr :=
  [n / 4096, n / 256 % 16, n / 16 % 16, n % 16].map fun d =>
    CodePoint.ofChar (Nat.digitChar d)

/-- A code point in a JSON string, as `json.dumps` writes it with `ensure_ascii`. -/
def jsonCodePoint (c : CodePoint) : PyStr :=
  let n := c.val
  if n = 0x22 then PyStr.ofString "\\\""
  else if n = 0x5C then PyStr.ofString "\\\\"
  else if n = 0x0A then PyStr.ofString "\\n"
  else if n = 0x0D then PyStr.ofString "\\r"
  else if n = 0x09 then PyStr.ofString "\\t"
  else if n = 0x0C then PyStr.ofString "\\f"
  else if n = 0x08 then PyStr.ofString "\\b"
  else if 0x20 ≤ n ∧ n < 0x7F then [c]
  else if n < 0x10000 then PyStr.ofString "\\u" ++ hex4 n
  else PyStr.ofString "\\u" ++ hex4 (0xD800 + (n - 0x10000) / 1024) ++
    PyStr.ofString "\\u" ++ hex4 (0xDC00 + (n - 0x10000) % 1024)

/-- A string between quotes, each of its code points written by `escape`. -/
def quoted (escape : CodePoint → PyStr) (s : PyStr) : PyStr :=
  PyStr.ofString "\"" ++ s.flatMap escape ++ PyStr.ofString "\""

/-- A JSON string. -/
def jsonString (s : PyStr) : PyStr := quoted jsonCodePoint s

/-- `",".join(texts)`. -/
def joinComma (texts : List PyStr) : PyStr := (texts.intersperse (PyStr.ofString ",")).flatten

section Dumps

variable (py : Interp)

/-- An integer; one of too many digits has no text. -/
def jsonInt (n : ℤ) : Except PyError PyStr :=
  if (natText n.natAbs).length ≤ PyStr.maxIntDigits then .ok (intText n)
  else .error (.valueError "Exceeds the limit (4300 digits) for integer string conversion")

/-- A float: its `repr`, with JavaScript's names for what is not finite. -/
def jsonFloat (x : PyFloat) : PyStr :=
  match x.unpack with
  | .notANumber => "NaN"
  | .infinity .positive => "Infinity"
  | .infinity .negative => "-Infinity"
  | _ => py.repr (.float x)

namespace Json

mutual

/-- `json.dumps(x, separators=(",", ":"))`. -/
def dumps : Json → Except PyError PyStr
  | null => .ok "null"
  | bool b => .ok (if b then "true" else "false")
  | int n => jsonInt n
  | float x => .ok (jsonFloat py x)
  | str s => .ok (jsonString s)
  | arr items => (dumpsAll items).map fun texts =>
      PyStr.ofString "[" ++ joinComma texts ++ PyStr.ofString "]"
  | obj members => (dumpsMembers members).map fun texts =>
      PyStr.ofString "\x7b" ++ joinComma texts ++ PyStr.ofString "\x7d"

/-- The values of a list. -/
def dumpsAll : List Json → Except PyError (List PyStr)
  | [] => .ok []
  | v :: rest => (dumps v).bind fun t => (dumpsAll rest).map fun ts => t :: ts

/-- The members of a dictionary. -/
def dumpsMembers : Dict → Except PyError (List PyStr)
  | [] => .ok []
  | (k, v) :: rest => (dumps v).bind fun t => (dumpsMembers rest).map fun ts =>
      (jsonString k ++ PyStr.ofString ":" ++ t) :: ts

end

end Json

end Dumps

/-! ## Reading strings -/

/-- White space between the tokens. -/
def isJsonSpace (c : CodePoint) : Bool :=
  c.val == 0x20 || c.val == 0x09 || c.val == 0x0A || c.val == 0x0D

def skipSpace (s : PyStr) : PyStr := s.dropWhile isJsonSpace

/-- The value of a hexadecimal digit. -/
def hexValue (c : CodePoint) : Option ℕ :=
  if PyStr.isDigitChar c then some (c.val - 48)
  else if 97 ≤ c.val ∧ c.val ≤ 102 then some (c.val - 87)
  else if 65 ≤ c.val ∧ c.val ≤ 70 then some (c.val - 55)
  else none

/-- The code unit that four hexadecimal digits write. -/
def hexUnit (a b c d : CodePoint) : Option CodePoint :=
  (hexValue a).bind fun x => (hexValue b).bind fun y => (hexValue c).bind fun z =>
    (hexValue d).bind fun w =>
      if h : ((x * 16 + y) * 16 + z) * 16 + w < 0x110000 then
        some ⟨((x * 16 + y) * 16 + z) * 16 + w, h⟩
      else none

/-- The code point of an escape of one letter. -/
def simpleEscape (c : CodePoint) : Option CodePoint :=
  if c.val = 0x22 ∨ c.val = 0x5C ∨ c.val = 0x2F then some c
  else if c.val = 0x62 then some ⟨0x08, by decide⟩
  else if c.val = 0x66 then some ⟨0x0C, by decide⟩
  else if c.val = 0x6E then some ⟨0x0A, by decide⟩
  else if c.val = 0x72 then some ⟨0x0D, by decide⟩
  else if c.val = 0x74 then some ⟨0x09, by decide⟩
  else none

/-- The code units of a string up to its closing quote, each with whether it was
written as four digits, and the text behind it. -/
def scanUnits : PyStr → Except PyError (List (Bool × CodePoint) × PyStr)
  | [] => .error (.jsonDecode "Unterminated string")
  | c :: rest =>
      if c.val = 0x22 then .ok ([], rest)
      else if c.val = 0x5C then
        match rest with
        | [] => .error (.jsonDecode "Unterminated string")
        | e :: rest =>
            if e.val = 0x75 then
              match rest with
              | h1 :: h2 :: h3 :: h4 :: rest =>
                  match hexUnit h1 h2 h3 h4 with
                  | some u => (scanUnits rest).map fun r => ((true, u) :: r.1, r.2)
                  | none => .error (.jsonDecode "Invalid \\uXXXX escape")
              | _ => .error (.jsonDecode "Invalid \\uXXXX escape")
            else
              match simpleEscape e with
              | some u => (scanUnits rest).map fun r => ((false, u) :: r.1, r.2)
              | none => .error (.jsonDecode "Invalid \\escape")
      else if c.val < 0x20 then .error (.jsonDecode "Invalid control character")
      else (scanUnits rest).map fun r => ((false, c) :: r.1, r.2)

def CodePoint.isHigh (c : CodePoint) : Bool := 0xD800 ≤ c.val && c.val ≤ 0xDBFF

def CodePoint.isLow (c : CodePoint) : Bool := 0xDC00 ≤ c.val && c.val ≤ 0xDFFF

/-- The code point of a surrogate pair. -/
def joinSurrogates (high low : CodePoint) : Option CodePoint :=
  if h : 0x10000 + (high.val - 0xD800) * 1024 + (low.val - 0xDC00) < 0x110000 then
    some ⟨0x10000 + (high.val - 0xD800) * 1024 + (low.val - 0xDC00), h⟩
  else none

/-- The text of the code units: two surrogates that were both written as digits are one
code point. -/
def joinUnits : List (Bool × CodePoint) → PyStr
  | [] => []
  | [u] => [u.2]
  | u :: v :: rest =>
      if u.1 && v.1 && u.2.isHigh && v.2.isLow then
        (joinSurrogates u.2 v.2).toList ++ joinUnits rest
      else u.2 :: joinUnits (v :: rest)

/-- A string behind its opening quote, and the text behind it. -/
def scanString (s : PyStr) : Except PyError (PyStr × PyStr) :=
  (scanUnits s).map fun r => (joinUnits r.1, r.2)

/-! ## Reading numbers -/

/-- The integer part of a number, with its sign. -/
def scanInt (s : PyStr) : Option (PyStr × PyStr) :=
  let sign := s.takeWhile fun c => c.val == 0x2D
  let digits := s.drop sign.length
  if 1 < sign.length then none
  else
    match digits with
    | [] => none
    | c :: rest =>
        if c.val = 48 then some (sign ++ [c], rest)
        else if PyStr.isDigitChar c then
          some (sign ++ digits.takeWhile PyStr.isDigitChar, digits.dropWhile PyStr.isDigitChar)
        else none

/-- The point and the digits behind it, where there are any. -/
def scanFrac (s : PyStr) : PyStr × PyStr :=
  match s with
  | [] => ([], s)
  | c :: rest =>
      let digits := rest.takeWhile PyStr.isDigitChar
      if c.val = 0x2E ∧ digits ≠ [] then (c :: digits, rest.dropWhile PyStr.isDigitChar)
      else ([], s)

/-- The exponent, where there is one. -/
def scanExp (s : PyStr) : PyStr × PyStr :=
  match s with
  | [] => ([], s)
  | c :: rest =>
      let sign := (rest.take 1).filter fun d => d.val == 0x2B || d.val == 0x2D
      let digits := (rest.drop sign.length).takeWhile PyStr.isDigitChar
      if (c.val = 0x65 ∨ c.val = 0x45) ∧ digits ≠ [] then
        (c :: sign ++ digits, (rest.drop sign.length).dropWhile PyStr.isDigitChar)
      else ([], s)

/-- `-x`. -/
def PyFloat.neg (x : PyFloat) : PyFloat := ⟨x.bits ^^^ 0x8000000000000000⟩

/-- Whether a part of a number starts with a minus sign. -/
def isNegative (s : PyStr) : Bool := s.head?.any fun c => c.val == 0x2D

/-- The decimal digits of a part of a number. -/
def digitsOf (s : PyStr) : PyStr := s.filter PyStr.isDigitChar

/-- The exponent that is written, without its letter. -/
def exponentOf (e : PyStr) : ℤ :=
  if isNegative (e.drop 1) then -(PyStr.decimalValue (digitsOf e) : ℤ)
  else PyStr.decimalValue (digitsOf e)

/-- `float` of a number in its three parts. -/
def floatOfParts (i f e : PyStr) : PyFloat :=
  let x := PyFloat.ofDecimal (PyStr.decimalValue (digitsOf i ++ digitsOf f))
    (exponentOf e - (digitsOf f).length)
  if isNegative i then x.neg else x

/-! ## Reading values -/

/-- What `parse_constant` makes of a name that is no JSON. -/
abbrev Constants := PyStr → Except PyError Json

/-- `float("inf")`. -/
def PyFloat.infinity : PyFloat := ⟨0x7FF0000000000000⟩

/-- `float("-inf")`. -/
def PyFloat.negInfinity : PyFloat := ⟨0xFFF0000000000000⟩

/-- The default: the float of that name. -/
def floatConstants : Constants := fun name =>
  if name = "NaN" then .ok (.float ⟨0x7FF8000000000000⟩)
  else if name = "Infinity" then .ok (.float .infinity)
  else .ok (.float .negInfinity)

/-- `reject_json_constant`. -/
def rejectJsonConstant : Constants := fun _ => .error (.valueError "non-finite JSON constant")

/-- `dict(pairs)`: the last value of a key counts. -/
def dictOfPairs (pairs : Dict) : Dict := pairs.foldl (fun d m => d.set m.1 m.2) []

/-- What a caller of `json.loads` puts in place of the reader's own: `parse_constant`, what
`parse_float` makes of the float that is written, and `object_pairs_hook`. -/
structure Hooks where
  constant : Constants
  float : PyFloat → Except PyError Json
  pairs : Dict → Except PyError Json

/-- The reader's own, but for the constants. -/
def Constants.hooks (constant : Constants) : Hooks where
  constant := constant
  float x := .ok (.float x)
  pairs ps := .ok (.obj (dictOfPairs ps))

section Loads

variable (hooks : Hooks)

/-- A number in its three parts: an integer when there is only the first. -/
def numberOfParts (i f e : PyStr) : Except PyError Json :=
  if f = [] ∧ e = [] then
    if (digitsOf i).length ≤ PyStr.maxIntDigits then
      .ok (.int (if isNegative i then -(PyStr.decimalValue (digitsOf i) : ℤ)
        else PyStr.decimalValue (digitsOf i)))
    else .error (.valueError "Exceeds the limit (4300 digits) for integer string conversion")
  else hooks.float (floatOfParts i f e)

/-- A value that is neither a list nor a dictionary. -/
def scanScalar (s : PyStr) : Except PyError (Json × PyStr) :=
  if PyStr.startsWith s "\"" then (scanString (s.drop 1)).map fun r => (.str r.1, r.2)
  else if PyStr.startsWith s "null" then .ok (.null, s.drop 4)
  else if PyStr.startsWith s "true" then .ok (.bool true, s.drop 4)
  else if PyStr.startsWith s "false" then .ok (.bool false, s.drop 5)
  else if PyStr.startsWith s "NaN" then (hooks.constant "NaN").map fun v => (v, s.drop 3)
  else if PyStr.startsWith s "Infinity" then (hooks.constant "Infinity").map fun v => (v, s.drop 8)
  else if PyStr.startsWith s "-Infinity" then (hooks.constant "-Infinity").map fun v => (v, s.drop 9)
  else
    match scanInt s with
    | none => .error (.jsonDecode "Expecting value")
    | some (i, rest) =>
        let f := scanFrac rest
        let e := scanExp f.2
        (numberOfParts hooks i f.1 e.1).map fun v => (v, e.2)

section Containers

variable (scan : PyStr → Except PyError (Json × PyStr))

/-- The values of a list, from the first one on; there are no more of them than `fuel`,
the length of the text. -/
def scanItems : ℕ → PyStr → Except PyError (List Json × PyStr)
  | 0, _ => .error (.jsonDecode "Expecting value")
  | fuel + 1, s =>
      (scan s).bind fun r =>
        let rest := skipSpace r.2
        if PyStr.startsWith rest "," then
          (scanItems fuel (skipSpace (rest.drop 1))).map fun q => (r.1 :: q.1, q.2)
        else if PyStr.startsWith rest "]" then .ok ([r.1], rest.drop 1)
        else .error (.jsonDecode "Expecting ',' delimiter")

/-- A list behind its opening bracket. -/
def scanArray (s : PyStr) : Except PyError (Json × PyStr) :=
  let rest := skipSpace s
  if PyStr.startsWith rest "]" then .ok (.arr [], rest.drop 1)
  else (scanItems scan rest.length rest).map fun r => (.arr r.1, r.2)

/-- The members of a dictionary, from the first key on. -/
def scanMembers : ℕ → PyStr → Except PyError (Dict × PyStr)
  | 0, _ => .error (.jsonDecode "Expecting property name enclosed in double quotes")
  | fuel + 1, s =>
      if !PyStr.startsWith s "\"" then
        .error (.jsonDecode "Expecting property name enclosed in double quotes")
      else (scanString (s.drop 1)).bind fun key =>
        let rest := skipSpace key.2
        if !PyStr.startsWith rest ":" then .error (.jsonDecode "Expecting ':' delimiter")
        else (scan (skipSpace (rest.drop 1))).bind fun r =>
          let rest := skipSpace r.2
          if PyStr.startsWith rest "," then
            (scanMembers fuel (skipSpace (rest.drop 1))).map fun q =>
              ((key.1, r.1) :: q.1, q.2)
          else if PyStr.startsWith rest "\x7d" then .ok ([(key.1, r.1)], rest.drop 1)
          else .error (.jsonDecode "Expecting ',' delimiter")

/-- A dictionary behind its opening brace. -/
def scanObject (s : PyStr) : Except PyError (Json × PyStr) :=
  let rest := skipSpace s
  if PyStr.startsWith rest "\x7d" then (hooks.pairs []).map fun v => (v, rest.drop 1)
  else (scanMembers scan rest.length rest).bind fun r =>
    (hooks.pairs r.1).map fun v => (v, r.2)

end Containers

/-- A value, with so many levels of lists and dictionaries left to the reader. -/
def scanOnce : ℕ → PyStr → Except PyError (Json × PyStr)
  | 0, s =>
      if PyStr.startsWith s "[" || PyStr.startsWith s "\x7b" then
        .error ⟨.recursionError, "maximum recursion depth exceeded"⟩
      else scanScalar hooks s
  | levels + 1, s =>
      if PyStr.startsWith s "[" then scanArray (fun t => scanOnce levels t) (s.drop 1)
      else if PyStr.startsWith s "\x7b" then scanObject hooks (fun t => scanOnce levels t) (s.drop 1)
      else scanScalar hooks s

/-- `json.loads(s)` with hooks, of a reader with so many levels. -/
def loadsWith (levels : ℕ) (s : PyStr) : Except PyError Json :=
  if s.head?.any fun c => c.val == 0xFEFF then
    .error (.jsonDecode "Unexpected UTF-8 BOM (decode using utf-8-sig)")
  else (scanOnce hooks levels (skipSpace s)).bind fun r =>
    if skipSpace r.2 = [] then .ok r.1 else .error (.jsonDecode "Extra data")

end Loads

/-- `json.loads(s, parse_constant=constant)`. -/
def loads (constant : Constants) (levels : ℕ) (s : PyStr) : Except PyError Json :=
  loadsWith constant.hooks levels s

end Signal402
