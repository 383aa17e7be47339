import Signal402.Base.Interp

/-!
# URLs

The URL functions of the standard library are a parameter.  What the service
reads of a parsed URL is `ParsedUrl`.

* `hostname` — the host that every check of an address starts from.
-/

namespace Signal402

/-- What `urlparse` returns. -/
structure ParsedUrl where
  scheme : PyStr
  netloc : PyStr
  path : PyStr
  params : PyStr
  query : PyStr
  fragment : PyStr
  username : Option PyStr
  password : Option PyStr
  hostname : Option PyStr
  port : Except PyError (Option ℕ)

/-- The functions of `urllib.parse`. -/
structure UrlLib where
  urlparse : PyStr → Except PyError ParsedUrl
  urlunparse : ParsedUrl → PyStr
  urljoin : PyStr → PyStr → Except PyError PyStr
  parseQsl : PyStr → List (PyStr × PyStr)
  urlencode : List (PyStr × PyStr) → PyStr

namespace PyStr

/-- `s.split(c)[-1]`. -/
def afterLast (c : CodePoint) (s : PyStr) : PyStr := (s.reverse.takeWhile (· ≠ c)).reverse

/-- `s.split(c)[0]`. -/
def beforeFirst (c : CodePoint) (s : PyStr) : PyStr := s.takeWhile (· ≠ c)

/-- `s.rstrip(c)` for one character. -/
def rstripChar (c : CodePoint) (s : PyStr) : PyStr := (s.reverse.dropWhile (· = c)).reverse

end PyStr

namespace ParsedUrl

/-- `parsed.username or parsed.password`. -/
def hasCredentials (p : ParsedUrl) : Bool :=
  !(orNil p.username).isEmpty || !(orNil p.password).isEmpty
where
  orNil (s : Option PyStr) : PyStr := s.getD []

/-- `_hostname`. -/
def host (py : Interp) (p : ParsedUrl) : PyStr :=
  match p.hostname with
  | some (c :: rest) =>
      py.uni.lower (PyStr.rstripChar (.ofChar '.') (PyStr.strip (c :: rest)))
  | _ =>
      let netloc := PyStr.afterLast (.ofChar '@') p.netloc
      if PyStr.startsWith netloc "[" then
        -- the text between the brackets, when the second one is there
        if netloc.contains (.ofChar ']') then
          py.uni.lower ((PyStr.beforeFirst (.ofChar ']') netloc).drop 1)
        else []
      else
        py.uni.lower (PyStr.rstripChar (.ofChar '.')
          (PyStr.strip (PyStr.beforeFirst (.ofChar ':') netloc)))

end ParsedUrl

end Signal402
