import Signal402.Base.JsonDepth
import Signal402.Base.Utf8
import Mathlib.Order.Defs.LinearOrder

/-!
# Request bodies (`http_body.py`)

`read_json_object` finds the length of the body in the header fields, reads that many bytes
before a deadline and reads them as a JSON object.  The connection answers in pieces of any
size, and the clock is read before each of them.

The reader of JSON has a limit on the levels of lists and dictionaries.  The exception of a
body beyond it is none of those that `loads_json_object` catches; every other call either
returns the object of exactly the bytes it read or raises `BodyReadError`.
-/

namespace Signal402.HttpBody

/-- `BodyReadError` with its status and its text, or another exception. -/
inductive Raised
  | body (status : ℕ) (error : String)
  | other (e : PyError)
  deriving DecidableEq

/-- The header fields, in order. -/
abbrev Headers := List (PyStr × PyStr)

/-- `MAX_BODY`. -/
def maxBody : ℤ := 65536

/-- `MAX_CL_TEXT_LEN`. -/
def maxClTextLen : ℕ := 16

/-! ## The declared length -/

/-- `headers.get_all(name)`. -/
def getAll (headers : Headers) (name : String) : List PyStr :=
  (headers.filter fun field => PyStr.lower field.1 == PyStr.lower name).map Prod.snd

/-- `_header_values`. -/
def headerValues (headers : Headers) (name : String) : List PyStr :=
  (getAll headers name).flatMap fun item =>
    let text := PyStr.strip item
    if text = [] then []
    else ((text.splitOn (CodePoint.ofChar ',')).map PyStr.strip).filter fun piece => piece ≠ []

/-- `transfer_encoding_present`. -/
def transferEncodingPresent (headers : Headers) : Bool :=
  0 < (getAll headers "Transfer-Encoding").length

/-- `parse_content_length_token`; digits alone are never below zero. -/
def parseContentLengthToken (text : PyStr) : Except Raised ℕ :=
  if text = [] ∨ text.isAscii = false ∨ text.isDecimal = false then
    .error (.body 400 "invalid Content-Length")
  else if maxClTextLen < text.length then .error (.body 413 "body too large")
  else .ok text.decimalValue

/-- `declared_content_length`. -/
def declaredContentLength (headers : Headers) : Except Raised ℕ :=
  if transferEncodingPresent headers then
    .error (.body 400 "Transfer-Encoding is not allowed")
  else
    let values := headerValues headers "Content-Length"
    if values = [] then .error (.body 400 "Content-Length required")
    else (values.mapM parseContentLengthToken).bind fun parsed =>
      if values.length ≠ 1 then .error (.body 400 "ambiguous Content-Length")
      else .ok (parsed.headD 0)

/-! ## Reading from the connection -/

/-- What the connection holds next: bytes that one `read` can answer, no bytes at its end,
or an exception. -/
inductive Piece
  | data (chunk : Bytes)
  | fails
  deriving DecidableEq

/-- The bytes of a piece. -/
def Piece.bytes : Piece → Bytes
  | .data chunk => chunk
  | .fails => []

/-- The bytes that the connection holds. -/
def streamBytes (stream : List Piece) : Bytes := stream.flatMap Piece.bytes

section Reading

variable {T : Type} [LinearOrder T] (clock : ℕ → T) (deadline : T)

/-- The check behind the loop of `read_exactly`. -/
def readFinish (i : ℕ) (buf : Bytes) : Except Raised Bytes :=
  if deadline ≤ clock i then .error (.body 408 "body read timeout") else .ok buf

/-- The loop of `read_exactly`, with the readings of the clock behind it and the bytes that
remain to be read; the rest of the connection is left. -/
def readLoop : List Piece → ℕ → ℕ → Bytes → Except Raised Bytes × List Piece
  | stream, i, 0, buf => (readFinish clock deadline i buf, stream)
  | [], i, _ + 1, _ =>
      if deadline ≤ clock i then (.error (.body 408 "body read timeout"), [])
      else (.error (.body 400 "short body"), [])
  | piece :: rest, i, remaining + 1, buf =>
      if deadline ≤ clock i then (.error (.body 408 "body read timeout"), piece :: rest)
      else
        match piece with
        | .fails => (.error (.body 400 "short body"), rest)
        | .data chunk =>
            if chunk = [] then (.error (.body 400 "short body"), rest)
            else if chunk.length ≤ remaining + 1 then
              readLoop rest (i + 1) (remaining + 1 - chunk.length) (buf ++ chunk)
            -- `read` answers no more than it is asked for, and the loop ends
            else (readFinish clock deadline (i + 1) (buf ++ chunk.take (remaining + 1)),
              .data (chunk.drop (remaining + 1)) :: rest)

/-- `read_exactly`. -/
def readExactly (stream : List Piece) (i n : ℕ) : Except Raised Bytes × List Piece :=
  if n = 0 then (.ok [], stream) else readLoop clock deadline stream i n []

end Reading

/-! ## The object -/

/-- `parse_constant` and `parse_float` of `loads_json_object`. -/
def bodyHooks : Hooks where
  constant := rejectJsonConstant
  float x := if x.isFinite then .ok (.float x) else .error (.valueError "non-finite JSON number")
  pairs ps := .ok (.obj (dictOfPairs ps))

/-- `loads_json_object`, with so many levels for the reader. -/
def loadsJsonObject (levels : ℕ) (raw : Bytes) : Except Raised Dict :=
  if raw = [] then .ok []
  else
    match utf8Decode raw with
    | none => .error (.body 400 "invalid JSON")
    | some text =>
        match loadsWith bodyHooks levels text with
        | .error e =>
            if e.cls.isA .valueError || e.cls.isA .typeError then
              .error (.body 400 "invalid JSON")
            else .error (.other e)
        | .ok (.obj d) => .ok d
        | .ok _ => .error (.body 400 "JSON object required")

/-- A call: what the handler holds, the arguments, and what the clock reads.  A caller may
pass a smaller `max_body`. -/
structure Call (T : Type) where
  headers : Headers
  stream : List Piece
  maxBody : ℤ
  capped : maxBody ≤ HttpBody.maxBody
  deadline : Option T
  clock : ℕ → T

namespace Call

variable {T : Type} [Add T] (seconds : T) (call : Call T)

/-- `cap`. -/
def cap : ℤ := if call.maxBody < 1 then HttpBody.maxBody else call.maxBody

/-- The deadline, by default so many seconds after the first reading of the clock. -/
def limit : T :=
  match call.deadline with
  | none => call.clock 0 + seconds
  | some deadline => deadline

/-- The reading of the clock that is compared with the deadline first. -/
def first : ℕ :=
  match call.deadline with
  | none => 1
  | some _ => 0

end Call

/-- `read_json_object`: what it returns or raises, and what it leaves of the connection. -/
def readJsonObject {T : Type} [LinearOrder T] [Add T] (levels : ℕ) (seconds : T) (call : Call T) :
    Except Raised Dict × List Piece :=
  match declaredContentLength call.headers with
  | .error e => (.error e, call.stream)
  | .ok n =>
      if call.cap < n then (.error (.body 413 "body too large"), call.stream)
      else if call.limit seconds ≤ call.clock call.first then
        (.error (.body 408 "body read timeout"), call.stream)
      else
        let raw := readExactly call.clock (call.limit seconds) call.stream (call.first + 1) n
        (raw.1.bind (loadsJsonObject levels), raw.2)

/-! ## What a call must do -/

/-- The request declares a body of so many bytes. -/
structure Framed (headers : Headers) (n : ℕ) : Prop where
  plain : ∀ field ∈ headers, PyStr.lower field.1 ≠ PyStr.lower "Transfer-Encoding"
  token : ∃ token, headerValues headers "Content-Length" = [token] ∧ token.isAscii = true ∧
    token.isDecimal = true ∧ token.length ≤ maxClTextLen ∧ token.decimalValue = n

/-- The object that a body holds: the empty object of no bytes, and else the one that is
written in UTF-8 and JSON, with finite numbers only. -/
def Holds (levels : ℕ) (raw : Bytes) (d : Dict) : Prop :=
  raw = [] ∧ d = [] ∨
    raw ≠ [] ∧ ∃ text, utf8Decode raw = some text ∧ loadsWith bodyHooks levels text = .ok (.obj d)

/-- A call reads exactly the declared body: it returns the object of exactly that many bytes,
takes no byte behind them, and raises `BodyReadError` and nothing else. -/
structure Exact {T : Type} (levels : ℕ) (call : Call T)
    (run : Except Raised Dict × List Piece) : Prop where
  object : ∀ d, run.1 = .ok d → ∃ (n : ℕ) (raw : Bytes), Framed call.headers n ∧ (n : ℤ) ≤ maxBody ∧
    raw.length = n ∧ streamBytes call.stream = raw ++ streamBytes run.2 ∧ Holds levels raw d
  consumed : ∃ taken, streamBytes call.stream = taken ++ streamBytes run.2 ∧
    (taken = [] ∨ ∃ n, Framed call.headers n ∧ taken.length ≤ n)
  raised : ∀ e, run.1 = .error e → ∃ status text, e = .body status text

section Arrives

variable {T : Type} [LinearOrder T] (clock : ℕ → T) (deadline : T)

/-- So many bytes arrive in time: each piece is there before the deadline, the clock being
read before each piece and behind the last one. -/
inductive Arrives : List Piece → ℕ → ℕ → Bytes → Prop
  | last {chunk : Bytes} {rest : List Piece} {i n : ℕ} : 0 < n → n ≤ chunk.length →
      clock i < deadline → clock (i + 1) < deadline →
      Arrives (.data chunk :: rest) i n (chunk.take n)
  | more {chunk raw : Bytes} {rest : List Piece} {i n : ℕ} : chunk ≠ [] → chunk.length < n →
      clock i < deadline → Arrives rest (i + 1) (n - chunk.length) raw →
      Arrives (.data chunk :: rest) i n (chunk ++ raw)

end Arrives

/-- The body arrives in time and is text in which lists and dictionaries stand in more levels
than the reader has. -/
def TooDeep {T : Type} [LinearOrder T] [Add T] (levels : ℕ) (seconds : T) (call : Call T) : Prop :=
  ∃ (n : ℕ) (raw : Bytes) (text : PyStr), Framed call.headers n ∧ (n : ℤ) ≤ call.cap ∧
    call.clock call.first < call.limit seconds ∧
    Arrives call.clock (call.limit seconds) call.stream (call.first + 1) n raw ∧
    utf8Decode raw = some text ∧ hasMark text = false ∧
    Deeper bodyHooks levels (skipSpace text)

/-! ### The declared length -/

theorem transferEncodingPresent_eq_false {headers : Headers} :
    transferEncodingPresent headers = false ↔
      ∀ field ∈ headers, PyStr.lower field.1 ≠ PyStr.lower "Transfer-Encoding" := by
  unfold transferEncodingPresent getAll
  rw [decide_eq_false_iff_not, not_lt, List.length_map, Nat.le_zero, List.length_eq_zero_iff,
    List.filter_eq_nil_iff]
  simp

theorem parseContentLengthToken_eq_ok {text : PyStr} {n : ℕ} :
    parseContentLengthToken text = .ok n ↔ text.isAscii = true ∧ text.isDecimal = true ∧
      text.length ≤ maxClTextLen ∧ text.decimalValue = n := by
  unfold parseContentLengthToken
  by_cases hbad : text = [] ∨ text.isAscii = false ∨ text.isDecimal = false
  · rw [if_pos hbad]
    constructor
    · intro h
      cases h
    · rintro ⟨hascii, hdecimal, -, -⟩
      rcases hbad with rfl | h | h
      · cases hdecimal
      · rw [h] at hascii
        cases hascii
      · rw [h] at hdecimal
        cases hdecimal
  · rw [if_neg hbad]
    push Not at hbad
    obtain ⟨-, hascii, hdecimal⟩ := hbad
    by_cases hlen : maxClTextLen < text.length
    · rw [if_pos hlen]
      constructor
      · intro h
        cases h
      · rintro ⟨-, -, hle, -⟩
        exact absurd hle (by omega)
    · rw [if_neg hlen]
      simp only [Except.ok.injEq]
      exact ⟨fun h => ⟨by simpa using hascii, by simpa using hdecimal, by omega, h⟩,
        fun h => h.2.2.2⟩

/-- A token that is no length is refused with `BodyReadError`. -/
theorem parseContentLengthToken_error {text : PyStr} {e : Raised}
    (h : parseContentLengthToken text = .error e) : ∃ status error, e = .body status error := by
  unfold parseContentLengthToken at h
  split at h
  · cases h
    exact ⟨_, _, rfl⟩
  · split at h
    · cases h
      exact ⟨_, _, rfl⟩
    · cases h

/-- Tokens are read in order, until one is refused. -/
theorem tokens_cases (tokens : List PyStr) :
    (∃ parsed, tokens.mapM parseContentLengthToken = .ok parsed) ∨
      ∃ status error, tokens.mapM parseContentLengthToken = .error (.body status error) := by
  induction tokens with
  | nil => exact .inl ⟨[], rfl⟩
  | cons token tokens ih =>
      rw [List.mapM_cons]
      cases htoken : parseContentLengthToken token with
      | error e =>
          obtain ⟨status, error, rfl⟩ := parseContentLengthToken_error htoken
          exact .inr ⟨status, error, rfl⟩
      | ok n =>
          rcases ih with ⟨parsed, hparsed⟩ | ⟨status, error, hparsed⟩
          · exact .inl ⟨n :: parsed, by rw [hparsed]; rfl⟩
          · exact .inr ⟨status, error, by rw [hparsed]; rfl⟩

theorem declaredContentLength_eq_ok {headers : Headers} {n : ℕ} :
    declaredContentLength headers = .ok n ↔ Framed headers n := by
  unfold declaredContentLength
  constructor
  · intro h
    split at h
    · cases h
    · rename_i hencoding
      have hplain := transferEncodingPresent_eq_false.mp (by simpa using hencoding)
      dsimp only at h
      split at h
      · cases h
      · rcases tokens_cases (headerValues headers "Content-Length") with
          ⟨parsed, hparsed⟩ | ⟨status, error, hparsed⟩
        · rw [hparsed] at h
          dsimp only [Except.bind] at h
          split at h
          · cases h
          · rename_i hone
            obtain ⟨token, htoken⟩ := List.length_eq_one_iff.mp (not_not.mp hone)
            rw [htoken] at hparsed
            cases hn : parseContentLengthToken token with
            | error e =>
                rw [List.mapM_cons, hn] at hparsed
                cases hparsed
            | ok m =>
                rw [List.mapM_cons, hn] at hparsed
                cases hparsed
                cases h
                exact ⟨hplain, token, htoken, parseContentLengthToken_eq_ok.mp hn⟩
        · rw [hparsed] at h
          cases h
  · rintro ⟨hplain, token, htoken, hn⟩
    rw [transferEncodingPresent_eq_false.mpr hplain]
    simp only [htoken, Bool.false_eq_true, if_false, List.mapM_cons, List.mapM_nil,
      parseContentLengthToken_eq_ok.mpr hn]
    rfl

theorem declaredContentLength_error {headers : Headers} {e : Raised}
    (h : declaredContentLength headers = .error e) : ∃ status error, e = .body status error := by
  unfold declaredContentLength at h
  split at h
  · cases h
    exact ⟨_, _, rfl⟩
  · dsimp only at h
    split at h
    · cases h
      exact ⟨_, _, rfl⟩
    · rcases tokens_cases (headerValues headers "Content-Length") with
        ⟨parsed, hparsed⟩ | ⟨status, error, hparsed⟩
      · rw [hparsed] at h
        dsimp only [Except.bind] at h
        split at h
        · cases h
          exact ⟨_, _, rfl⟩
        · cases h
      · rw [hparsed] at h
        cases h
        exact ⟨_, _, rfl⟩

/-! ### Reading -/

section Reading

variable {T : Type} [LinearOrder T] {clock : ℕ → T} {deadline : T}

theorem readFinish_eq_ok {i : ℕ} {buf raw : Bytes} :
    readFinish clock deadline i buf = .ok raw ↔ clock i < deadline ∧ buf = raw := by
  unfold readFinish
  by_cases hlate : deadline ≤ clock i
  · rw [if_pos hlate]
    simp [not_lt.mpr hlate]
  · rw [if_neg hlate]
    simp [not_le.mp hlate]

theorem readFinish_error {i : ℕ} {buf : Bytes} {e : Raised}
    (h : readFinish clock deadline i buf = .error e) : ∃ status error, e = .body status error := by
  unfold readFinish at h
  split at h
  · cases h
    exact ⟨_, _, rfl⟩
  · cases h

variable (clock deadline) in
/-- The loop takes bytes from the front of the connection, no more than remain to be read,
and what it returns is just what it took. -/
theorem readLoop_consumed (stream : List Piece) (i n : ℕ) (buf : Bytes) :
    ∃ taken, streamBytes stream = taken ++ streamBytes (readLoop clock deadline stream i n buf).2 ∧
      taken.length ≤ n ∧ ∀ raw, (readLoop clock deadline stream i n buf).1 = .ok raw →
        raw = buf ++ taken ∧ taken.length = n := by
  fun_induction readLoop clock deadline stream i n buf with
  | case1 stream i buf =>
      refine ⟨[], rfl, le_rfl, fun raw h => ⟨?_, rfl⟩⟩
      rw [← (readFinish_eq_ok.mp h).2, List.append_nil]
  | case2 => exact ⟨[], rfl, Nat.zero_le _, fun raw h => by cases h⟩
  | case3 => exact ⟨[], rfl, Nat.zero_le _, fun raw h => by cases h⟩
  | case4 => exact ⟨[], rfl, Nat.zero_le _, fun raw h => by cases h⟩
  | case5 => exact ⟨[], rfl, Nat.zero_le _, fun raw h => by cases h⟩
  | case6 => exact ⟨[], rfl, Nat.zero_le _, fun raw h => by cases h⟩
  | case7 rest i n buf hlate chunk hempty hle ih =>
      obtain ⟨taken, hstream, hlen, hok⟩ := ih
      refine ⟨chunk ++ taken, ?_, ?_, fun raw h => ?_⟩
      · rw [List.append_assoc, ← hstream]
        rfl
      · rw [List.length_append]
        omega
      · obtain ⟨hraw, htaken⟩ := hok raw h
        rw [hraw, List.append_assoc, List.length_append, htaken]
        exact ⟨rfl, by omega⟩
  | case8 rest i n buf hlate chunk hempty hle =>
      refine ⟨chunk.take (n + 1), ?_, by simp, fun raw h => ⟨(readFinish_eq_ok.mp h).2.symm, ?_⟩⟩
      · simp only [streamBytes, List.flatMap_cons, Piece.bytes]
        rw [← List.append_assoc, List.take_append_drop]
      · rw [List.length_take]
        omega

/-- The loop returns just the bytes that arrive in time. -/
theorem readLoop_eq_ok {stream : List Piece} {i n : ℕ} {buf raw : Bytes} (hn : 0 < n) :
    (readLoop clock deadline stream i n buf).1 = .ok raw ↔
      ∃ taken, raw = buf ++ taken ∧ Arrives clock deadline stream i n taken := by
  constructor
  · intro h
    fun_induction readLoop clock deadline stream i n buf with
    | case1 => omega
    | case7 rest i n buf hlate chunk hempty hle ih =>
        rcases Nat.lt_or_eq_of_le hle with hlt | heq
        · obtain ⟨taken, hraw, htaken⟩ := ih (by omega) h
          exact ⟨chunk ++ taken, by rw [hraw, List.append_assoc],
            .more hempty hlt (not_le.mp hlate) htaken⟩
        · -- the piece ends with the body, and the loop with it
          rw [heq, Nat.sub_self, readLoop] at h
          obtain ⟨hlast, hraw⟩ := readFinish_eq_ok.mp h
          refine ⟨chunk.take (n + 1), ?_, .last hn heq.ge (not_le.mp hlate) hlast⟩
          rw [← hraw, ← heq, List.take_length]
    | case8 rest i n buf hlate chunk hempty hle =>
        obtain ⟨hlast, hraw⟩ := readFinish_eq_ok.mp h
        exact ⟨chunk.take (n + 1), hraw.symm, .last hn (by omega) (not_le.mp hlate) hlast⟩
    | _ => cases h
  · rintro ⟨taken, rfl, h⟩
    induction h generalizing buf with
    | @last chunk rest i n hpos hle hearly hlast =>
        obtain ⟨n, rfl⟩ : ∃ m, n = m + 1 := ⟨n - 1, by omega⟩
        have hempty : chunk ≠ [] := by
          rintro rfl
          cases hle
        rw [readLoop, if_neg (not_le.mpr hearly), if_neg hempty]
        by_cases heq : chunk.length ≤ n + 1
        · rw [if_pos heq, show n + 1 - chunk.length = 0 by omega, readLoop]
          refine readFinish_eq_ok.mpr ⟨hlast, ?_⟩
          rw [List.take_of_length_le heq]
        · rw [if_neg heq]
          exact readFinish_eq_ok.mpr ⟨hlast, rfl⟩
    | @more chunk raw rest i n hempty hlt hearly hrest ih =>
        obtain ⟨n, rfl⟩ : ∃ m, n = m + 1 := ⟨n - 1, by omega⟩
        rw [readLoop, if_neg (not_le.mpr hearly), if_neg hempty, if_pos hlt.le, ← List.append_assoc]
        exact ih (by omega)

theorem readLoop_error {stream : List Piece} {i n : ℕ} {buf : Bytes} {e : Raised}
    (h : (readLoop clock deadline stream i n buf).1 = .error e) :
    ∃ status error, e = .body status error := by
  fun_induction readLoop clock deadline stream i n buf with
  | case1 => exact readFinish_error h
  | case7 rest i n buf hlate chunk hempty hle ih => exact ih h
  | case8 => exact readFinish_error h
  | _ =>
      cases h
      exact ⟨_, _, rfl⟩

end Reading

/-! ### The object -/

theorem bodyHooks_raises : bodyHooks.Raises fun e => e.cls.isA .valueError = true where
  constant name e h := by
    cases h
    rfl
  float x e h := by
    unfold bodyHooks at h
    dsimp only at h
    split at h
    · cases h
    · cases h
      rfl
  pairs d e h := by cases h

theorem loadsJsonObject_eq_ok {levels : ℕ} {raw : Bytes} {d : Dict} :
    loadsJsonObject levels raw = .ok d ↔ Holds levels raw d := by
  unfold loadsJsonObject Holds
  by_cases hraw : raw = []
  · rw [if_pos hraw]
    simp [hraw, eq_comm]
  · rw [if_neg hraw]
    cases htext : utf8Decode raw with
    | none => simp [hraw]
    | some text =>
        cases hv : loadsWith bodyHooks levels text with
        | error e =>
            dsimp only
            rw [hv]
            dsimp only
            split <;> simp [hraw, hv]
        | ok v => cases v <;> simp [hraw, hv]

/-- `BodyReadError` is raised for everything that the reader raises but `RecursionError`. -/
theorem loadsJsonObject_error {levels : ℕ} {raw : Bytes} {e : Raised}
    (h : loadsJsonObject levels raw = .error e) :
    (∃ status error, e = .body status error) ∨
      e = .other recursionError ∧ ∃ text, utf8Decode raw = some text ∧ hasMark text = false ∧
        Deeper bodyHooks levels (skipSpace text) := by
  unfold loadsJsonObject at h
  split at h
  · cases h
  · cases htext : utf8Decode raw with
    | none =>
        rw [htext] at h
        cases h
        exact .inl ⟨_, _, rfl⟩
    | some text =>
        rw [htext] at h
        dsimp only at h
        cases hv : loadsWith bodyHooks levels text with
        | error e' =>
            rw [hv] at h
            rcases loadsWith_error (fun _ => rfl) (fun _ => rfl) bodyHooks_raises hv with
              hcaught | ⟨rfl, hmark, hdeep⟩
            · simp only [hcaught, Bool.true_or, if_true] at h
              cases h
              exact .inl ⟨_, _, rfl⟩
            · cases h
              exact .inr ⟨rfl, text, rfl, hmark, hdeep⟩
        | ok v =>
            rw [hv] at h
            cases v with
            | obj d => cases h
            | _ =>
                cases h
                exact .inl ⟨_, _, rfl⟩

theorem loadsJsonObject_of_deeper {levels : ℕ} {raw : Bytes} {text : PyStr}
    (htext : utf8Decode raw = some text) (hmark : hasMark text = false)
    (hdeep : Deeper bodyHooks levels (skipSpace text)) :
    loadsJsonObject levels raw = .error (.other recursionError) := by
  have hraw : raw ≠ [] := by
    rintro rfl
    cases htext
    exact hdeep.ne_nil rfl
  rw [loadsJsonObject, if_neg hraw, htext]
  simp only [loadsWith_of_deeper hmark hdeep]
  rfl

/-! ### A call -/

section Call

variable {T : Type} [LinearOrder T] [Add T] {levels : ℕ} {seconds : T} {call : Call T}

omit [LinearOrder T] [Add T] in
theorem Call.cap_le (call : Call T) : call.cap ≤ HttpBody.maxBody := by
  unfold Call.cap
  split
  · exact le_rfl
  · exact call.capped

/-- A call refuses the request before it reads, or reads the declared body in time. -/
theorem readJsonObject_cases (levels : ℕ) (seconds : T) (call : Call T) :
    (∃ status error, readJsonObject levels seconds call =
      (.error (.body status error), call.stream)) ∨
    ∃ n, Framed call.headers n ∧ (n : ℤ) ≤ call.cap ∧ call.clock call.first < call.limit seconds ∧
      readJsonObject levels seconds call =
        let raw := readExactly call.clock (call.limit seconds) call.stream (call.first + 1) n
        (raw.1.bind (loadsJsonObject levels), raw.2) := by
  unfold readJsonObject
  cases hlength : declaredContentLength call.headers with
  | error e =>
      obtain ⟨status, error, rfl⟩ := declaredContentLength_error hlength
      exact .inl ⟨status, error, rfl⟩
  | ok n =>
      dsimp only
      by_cases hcap : call.cap < n
      · rw [if_pos hcap]
        exact .inl ⟨_, _, rfl⟩
      · rw [if_neg hcap]
        by_cases hlate : call.limit seconds ≤ call.clock call.first
        · rw [if_pos hlate]
          exact .inl ⟨_, _, rfl⟩
        · rw [if_neg hlate]
          exact .inr ⟨n, declaredContentLength_eq_ok.mp hlength, not_lt.mp hcap,
            not_le.mp hlate, rfl⟩

theorem Framed.unique {headers : Headers} {n m : ℕ} (hn : Framed headers n)
    (hm : Framed headers m) : n = m := by
  have h := declaredContentLength_eq_ok.mpr hn
  rw [declaredContentLength_eq_ok.mpr hm] at h
  cases h
  rfl

/-- What a call returns or leaves is exact, whatever the body says. -/
theorem readJsonObject_reads (levels : ℕ) (seconds : T) (call : Call T) :
    (∀ d, (readJsonObject levels seconds call).1 = .ok d → ∃ (n : ℕ) (raw : Bytes),
      Framed call.headers n ∧ (n : ℤ) ≤ maxBody ∧ raw.length = n ∧
        streamBytes call.stream = raw ++ streamBytes (readJsonObject levels seconds call).2 ∧
        Holds levels raw d) ∧
    ∃ taken, streamBytes call.stream =
        taken ++ streamBytes (readJsonObject levels seconds call).2 ∧
      (taken = [] ∨ ∃ n, Framed call.headers n ∧ taken.length ≤ n) := by
  rcases readJsonObject_cases levels seconds call with
    ⟨status, error, hrun⟩ | ⟨n, hframed, hcap, -, hrun⟩
  · rw [hrun]
    exact ⟨fun d h => (by cases h), [], rfl, .inl rfl⟩
  · rw [hrun]
    dsimp only
    unfold readExactly
    by_cases hzero : n = 0
    · rw [if_pos hzero]
      refine ⟨fun d h => ⟨n, [], hframed, hcap.trans call.cap_le, hzero.symm, rfl, ?_⟩, [], rfl,
        .inl rfl⟩
      exact loadsJsonObject_eq_ok.mp h
    · rw [if_neg hzero]
      obtain ⟨taken, hstream, hle, hok⟩ := readLoop_consumed call.clock
        (call.limit seconds) call.stream (call.first + 1) n []
      refine ⟨fun d h => ?_, taken, hstream, .inr ⟨n, hframed, hle⟩⟩
      cases hraw : (readLoop call.clock (call.limit seconds) call.stream (call.first + 1) n []).1 with
      | error e =>
          rw [hraw] at h
          cases h
      | ok raw =>
          rw [hraw] at h
          obtain ⟨rfl, hlen⟩ := hok raw hraw
          exact ⟨n, raw, hframed, hcap.trans call.cap_le, hlen, hstream,
            loadsJsonObject_eq_ok.mp h⟩

/-- A call raises `RecursionError` on a body that is too deep, and besides it `BodyReadError`
alone. -/
theorem readJsonObject_error {e : Raised} (h : (readJsonObject levels seconds call).1 = .error e) :
    (∃ status error, e = .body status error) ∨ TooDeep levels seconds call := by
  rcases readJsonObject_cases levels seconds call with
    ⟨status, error, hrun⟩ | ⟨n, hframed, hcap, hearly, hrun⟩
  · rw [hrun] at h
    cases h
    exact .inl ⟨_, _, rfl⟩
  · rw [hrun] at h
    dsimp only at h
    unfold readExactly at h
    by_cases hzero : n = 0
    · rw [if_pos hzero] at h
      cases h
    · rw [if_neg hzero] at h
      cases hraw : (readLoop call.clock (call.limit seconds) call.stream (call.first + 1) n []).1 with
      | error e' =>
          rw [hraw] at h
          cases h
          exact .inl (readLoop_error hraw)
      | ok raw =>
          rw [hraw] at h
          rcases loadsJsonObject_error h with hbody | ⟨-, text, htext, hmark, hdeep⟩
          · exact .inl hbody
          · obtain ⟨taken, rfl, harrives⟩ := (readLoop_eq_ok (by omega)).mp hraw
            exact .inr ⟨n, raw, text, hframed, hcap, hearly, harrives, htext, hmark, hdeep⟩

omit [Add T] in
theorem Arrives.pos {clock : ℕ → T} {deadline : T} {stream : List Piece} {i n : ℕ} {raw : Bytes}
    (h : Arrives clock deadline stream i n raw) : 0 < n := by
  cases h with
  | last hpos => exact hpos
  | more _ hlt => omega

theorem readJsonObject_of_tooDeep (h : TooDeep levels seconds call) :
    (readJsonObject levels seconds call).1 = .error (.other recursionError) := by
  obtain ⟨n, raw, text, hframed, hcap, hearly, harrives, htext, hmark, hdeep⟩ := h
  have hread : (readLoop call.clock (call.limit seconds) call.stream (call.first + 1) n []).1 =
      .ok raw := (readLoop_eq_ok harrives.pos).mpr ⟨raw, rfl, harrives⟩
  rw [readJsonObject, declaredContentLength_eq_ok.mpr hframed]
  dsimp only
  rw [if_neg (not_lt.mpr hcap), if_neg (not_le.mpr hearly), readExactly,
    if_neg harrives.pos.ne', hread]
  exact loadsJsonObject_of_deeper htext hmark hdeep

/-- A call reads exactly the declared body if and only if the body, where it arrives in time,
has no more levels of lists and dictionaries than the reader of JSON. -/
theorem read_json_object_exact (levels : ℕ) (seconds : T) (call : Call T) :
    Exact levels call (readJsonObject levels seconds call) ↔ ¬ TooDeep levels seconds call := by
  constructor
  · intro h hdeep
    obtain ⟨status, error, he⟩ := h.raised _ (readJsonObject_of_tooDeep hdeep)
    cases he
  · intro h
    obtain ⟨hobject, hconsumed⟩ := readJsonObject_reads levels seconds call
    exact ⟨hobject, hconsumed, fun e he => (readJsonObject_error he).resolve_right h⟩

/-- A body of no more bytes than the reader has levels is not too deep for it. -/
theorem not_tooDeep_of_le {n : ℕ} (hframed : Framed call.headers n) (hle : n ≤ levels) :
    ¬ TooDeep levels seconds call := by
  rintro ⟨m, raw, text, hframed', -, -, harrives, htext, -, hdeep⟩
  have hlen : raw.length ≤ m := by
    obtain ⟨taken, -, htaken, hok⟩ := readLoop_consumed call.clock
      (call.limit seconds) call.stream (call.first + 1) m []
    have hraw := hok raw ((readLoop_eq_ok harrives.pos).mpr ⟨raw, rfl, harrives⟩)
    rw [hraw.1, List.nil_append]
    exact htaken
  have hskip := (skipSpace_suffix text).length_le
  have hbrackets := hdeep.lt_countP.trans_le List.countP_le_length
  have hbytes := length_le_utf8Bytes text
  rw [(utf8Bytes_of_utf8Decode raw text htext).2] at hbytes
  rw [hframed.unique hframed'] at hle
  omega

end Call

/-- A request whose body is so many opening brackets. -/
def nestedCall (n : ℕ) (length : String) : Call ℕ where
  headers := [("Content-Length", length)]
  stream := [.data (List.replicate n 0x5B)]
  maxBody := maxBody
  capped := le_rfl
  deadline := none
  clock _ := 0

theorem utf8Bytes_replicate (n : ℕ) :
    utf8Bytes (List.replicate n (CodePoint.ofChar '[')) = List.replicate n 0x5B := by
  induction n with
  | zero => rfl
  | succ n ih =>
      rw [List.replicate_succ, utf8Bytes, List.flatMap_cons, ← utf8Bytes, ih]
      rfl

/-- With 1500 levels, a body of 1501 opening brackets raises `RecursionError`. -/
theorem nested_body_raises :
    ¬ Exact 1500 (nestedCall 1501 "1501") (readJsonObject 1500 3 (nestedCall 1501 "1501")) := by
  intro h
  have hread : (readJsonObject 1500 3 (nestedCall 1501 "1501")).1 =
      .error (.other recursionError) := by
    apply readJsonObject_of_tooDeep
    refine ⟨1501, (List.replicate 1501 0x5B).take 1501, List.replicate 1501 (CodePoint.ofChar '['),
      ⟨?_, "1501", rfl, rfl, rfl, by decide, rfl⟩, by decide, by decide, ?_, ?_, rfl,
      deeper_of_replicate 1500⟩
    · intro field hfield
      rw [List.mem_singleton.mp hfield]
      decide
    · exact .last (by decide) List.length_replicate.ge (by decide) (by decide)
    · rw [List.take_of_length_le List.length_replicate.le, ← utf8Bytes_replicate]
      exact utf8Decode_utf8Bytes (by rw [List.any_replicate]; rfl)
  obtain ⟨status, error, he⟩ := h.raised _ hread
  cases he

end Signal402.HttpBody
