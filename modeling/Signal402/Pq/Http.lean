import Signal402.Pq.TilePath

/-!
# The read API of the log (`pq/http.py`)

The parser of `checkpoint/{tree_size}` and the handler of the requests under `/pq/log`.
What the handler reads is a parameter, as answers of the functions it calls.

`str.isdigit` holds of digits that `int` reads as numbers of their own, such as Arabic
digits, and of digits that `int` does not take at all, such as superscripts.  On a text of
such digits the parser returns a number whose text the path is not, or raises; `Misread`
are these paths, and on every other path it is exact and the handler raises nothing but
what the functions it calls raise.
-/

namespace Signal402.Http

open Tiles (slash)

def httpPrefix : PyStr := "/pq/log"

/-- `MAX_TREE_SIZE`. -/
def maxTreeSize : ℕ := 9223372036854775807

/-- `_MAX_TREE_DIGITS`. -/
def maxTreeDigits : ℕ := 19

section Parse

variable (py : Interp)

def parseCheckpointTreeSize (rel : PyStr) : Except PyError (Bool × Option ℤ) :=
  if !PyStr.startsWith rel "checkpoint/" then .ok (false, none)
  else
    let rest := rel.drop 11
    if rest = [] ∨ slash ∈ rest then .ok (true, none)
    else if !py.isDigit rest || PyStr.startsWith rest "0" then .ok (true, none)
    else if rest.length > maxTreeDigits then .ok (true, none)
    else (py.int rest).map fun n : ℤ =>
      if n < 1 ∨ n > maxTreeSize then (true, none) else (true, some n)

end Parse

/-- `(status, body, content_type, extra_headers)`. -/
structure Response where
  status : ℕ
  body : Bytes
  contentType : PyStr
  headers : List (PyStr × PyStr)
  deriving DecidableEq, Repr

/-- The answers of what the handler calls: `trust.public_descriptor` as JSON, and the
functions of the store. -/
structure Reads where
  trust : Except PyError Bytes
  latestCheckpoint : Except PyError PyStr
  size : Except PyError ℤ
  checkpointAt : ℤ → Except PyError PyStr
  entryBundle : ℤ → Option ℤ → Except PyError (Option Bytes)
  tile : ℤ → ℤ → Option ℤ → Except PyError (Option Bytes)

/-- What the handler can only raise because of what it reads: an exception of one of the
functions, or of the encoding of a note. -/
inductive Reads.Raises (store : Reads) : PyError → Prop
  | trust {e} (h : store.trust = .error e) : Raises store e
  | latestCheckpoint {e} (h : store.latestCheckpoint = .error e) : Raises store e
  | latestNote {e note} (h : store.latestCheckpoint = .ok note) (he : utf8Encode note = .error e) :
      Raises store e
  | size {e} (h : store.size = .error e) : Raises store e
  | checkpointAt {e n} (h : store.checkpointAt n = .error e) : Raises store e
  | note {e n note} (h : store.checkpointAt n = .ok note) (he : utf8Encode note = .error e) :
      Raises store e
  | entryBundle {e n width} (h : store.entryBundle n width = .error e) : Raises store e
  | tile {e level n width} (h : store.tile level n width = .error e) : Raises store e

/-- A bytes literal. -/
def literal (s : String) : Bytes := (PyStr.ofString s).map fun c => UInt8.ofNat c.val

def jsonType : PyStr := "application/json; charset=utf-8"

def checkpointType : PyStr := "text/plain; charset=utf-8"

def tileType : PyStr := "application/octet-stream"

def noStore : List (PyStr × PyStr) := [("Cache-Control", "no-store")]

def notFound : Response :=
  ⟨404, literal "\x7b\"error\": \"not found\"\x7d", jsonType, []⟩

def noCheckpoint : Response :=
  ⟨404, literal "\x7b\"error\": \"no_checkpoint\"\x7d", jsonType, noStore⟩

/-- A note as the answer of a checkpoint request. -/
def noteResponse (note : PyStr) : Except PyError Response :=
  if note = [] then .ok noCheckpoint
  else (utf8Encode note).map fun data => ⟨200, data, checkpointType, noStore⟩

/-- A tile or an entry bundle as an answer. -/
def blobResponse (blob : Option Bytes) : Response :=
  match blob with
  | none => notFound
  | some data =>
      ⟨200, data, tileType, [("Cache-Control", "public, max-age=31536000, immutable")]⟩

/-- The path behind `/pq/log`, of a request under it. -/
def relOf (path : PyStr) : Option PyStr :=
  let raw := PyStr.beforeFirst (CodePoint.ofChar '?') path
  if raw ≠ httpPrefix ∧ PyStr.startsWith raw (httpPrefix ++ "/") = false then none
  else some ((raw.drop httpPrefix.length).dropWhile (· = slash))

section Handle

variable (py : Interp) (store : Reads)

/-- A request for the checkpoint of a tree size. -/
def handleSized (sized : Option ℤ) : Except PyError Response :=
  match sized with
  | none => .ok noCheckpoint
  | some n => store.size.bind fun current =>
      if n > current then .ok noCheckpoint else (store.checkpointAt n).bind noteResponse

/-- A request for a tile.  The parser's `ValueError` is caught. -/
def handleTile (rel : PyStr) : Except PyError Response :=
  if rel.length > Tiles.maxTileRelpathLen + 16 then .ok notFound
  else
    match Tiles.parseTileRelpath py rel with
    | .error e =>
        if e.cls.isA .valueError ∨ e.cls.isA .typeError ∨ e.cls.isA .overflowError ∨
            e.cls.isA .keyError then .ok notFound
        else .error e
    | .ok (.entries n width) => (store.entryBundle n width).map blobResponse
    | .ok (.tile level n width) => (store.tile level n width).map blobResponse

def handle (path : PyStr) : Except PyError Response :=
  match relOf path with
  | none => .ok notFound
  | some rel =>
      if rel = "trust" then store.trust.map fun body => ⟨200, body, jsonType, noStore⟩
      else if rel = "checkpoint" ∨ rel = "checkpoint/latest" then
        store.latestCheckpoint.bind noteResponse
      else (parseCheckpointTreeSize py rel).bind fun (isSized, sized) =>
        if isSized then handleSized store sized
        else if PyStr.startsWith rel "tile/" then handleTile py store rel
        else .ok notFound

end Handle

/-! ## What the paths should mean -/

/-- The path of the checkpoint of a tree size. -/
def CheckpointPath (n : ℤ) (rel : PyStr) : Prop :=
  1 ≤ n ∧ n ≤ maxTreeSize ∧ rel = "checkpoint/" ++ intText n

section Exact

variable (py : Interp)

/-- The parser finds the size exactly in the paths of checkpoints, and none in the others
under `checkpoint/`. -/
def ReadsExactly (rel : PyStr) : Prop :=
  (∀ n, parseCheckpointTreeSize py rel = .ok (true, some n) ↔ CheckpointPath n rel) ∧
    (PyStr.startsWith rel "checkpoint/" = true → (∀ n, ¬ CheckpointPath n rel) →
      parseCheckpointTreeSize py rel = .ok (true, none))

/-- The handler raises nothing of its own. -/
def NeverRaises (path : PyStr) : Prop :=
  ∀ (store : Reads) (e : PyError), handle py store path = .error e → store.Raises e

/-- Digits beyond ASCII, too few to be refused for their number, that pass for a size: `int`
does not read them, or reads a tree size. -/
def MisreadDigits (rest : PyStr) : Prop :=
  rest.isAscii = false ∧ slash ∉ rest ∧ py.isDigit rest = true ∧
    PyStr.startsWith rest "0" = false ∧ rest.length ≤ maxTreeDigits ∧
      ∀ n, py.int? rest = some n → 1 ≤ n ∧ n ≤ maxTreeSize

/-- A path under `checkpoint/` with such digits. -/
def Misread (rel : PyStr) : Prop :=
  ∃ rest, rel = ("checkpoint/" : PyStr) ++ rest ∧ MisreadDigits py rest

/-- A request that makes `int` raise. -/
def RaisingRequest (path : PyStr) : Prop :=
  ∃ rest : PyStr, relOf path = some (("checkpoint/" : PyStr) ++ rest) ∧ MisreadDigits py rest ∧
    py.int? rest = none

/-! ## Sizes -/

variable {py : Interp}

/-- The parser behind `checkpoint/`. -/
theorem parse_checkpoint (py : Interp) (rest : PyStr) :
    parseCheckpointTreeSize py (("checkpoint/" : PyStr) ++ rest) =
      if rest = [] ∨ slash ∈ rest then .ok (true, none)
      else if !py.isDigit rest || PyStr.startsWith rest "0" then .ok (true, none)
      else if rest.length > maxTreeDigits then .ok (true, none)
      else (py.int rest).map fun n : ℤ =>
        if n < 1 ∨ n > maxTreeSize then (true, none) else (true, some n) := by
  have hstart : PyStr.startsWith (("checkpoint/" : PyStr) ++ rest) "checkpoint/" = true :=
    startsWith_iff.mpr ⟨rest, rfl⟩
  have hdrop : (("checkpoint/" : PyStr) ++ rest).drop 11 = rest := List.drop_left' rfl
  rw [parseCheckpointTreeSize, hstart, Bool.not_true, if_neg Bool.false_ne_true, hdrop]

theorem isAscii_natText (n : ℕ) : (natText n).isAscii = true :=
  isAscii_of_isDecimal (isDecimal_natText n)

theorem checkpointPath_iff {n : ℤ} {rest : PyStr} :
    CheckpointPath n (("checkpoint/" : PyStr) ++ rest) ↔
      ∃ m : ℕ, n = m ∧ 1 ≤ m ∧ m ≤ maxTreeSize ∧ rest = natText m := by
  constructor
  · rintro ⟨hlow, hhigh, h⟩
    refine ⟨n.toNat, by omega, by omega, by omega, ?_⟩
    rw [List.append_cancel_left h, intText, if_neg (by omega)]
    congr 1
    omega
  · rintro ⟨m, rfl, hlow, hhigh, rfl⟩
    refine ⟨by omega, by omega, ?_⟩
    rw [intText, if_neg (by omega)]
    rfl

/-- What is not misread is a tree size, or nothing is found. -/
theorem parse_of_not_misread {rest : PyStr} (h : ¬ MisreadDigits py rest) :
    (∃ m : ℕ, 1 ≤ m ∧ m ≤ maxTreeSize ∧ rest = natText m ∧
      parseCheckpointTreeSize py (("checkpoint/" : PyStr) ++ rest) = .ok (true, some (m : ℤ))) ∨
    (parseCheckpointTreeSize py (("checkpoint/" : PyStr) ++ rest) = .ok (true, none) ∧
      ∀ m : ℕ, 1 ≤ m → m ≤ maxTreeSize → rest ≠ natText m) := by
  have hzero : PyStr.startsWith rest "0" = true ↔ rest.head? = some (CodePoint.ofChar '0') :=
    startsWith_singleton
  rw [parse_checkpoint]
  by_cases hslash : rest = [] ∨ slash ∈ rest
  · rw [if_pos hslash]
    refine .inr ⟨rfl, ?_⟩
    rintro m - - rfl
    rcases hslash with h | h
    · exact natText_ne_nil m h
    · exact Tiles.slash_notMem_natText m h
  rw [if_neg hslash]
  by_cases hdigit : (!py.isDigit rest || PyStr.startsWith rest "0") = true
  · rw [if_pos hdigit]
    refine .inr ⟨rfl, ?_⟩
    rintro m hm - rfl
    rw [Interp.isDigit, if_pos (isAscii_natText m), isDecimal_natText, Bool.not_true,
      Bool.false_or, hzero] at hdigit
    have h := head_natText hdigit
    omega
  rw [if_neg hdigit]
  rw [Bool.not_eq_true, Bool.or_eq_false_iff, Bool.not_eq_false'] at hdigit
  by_cases hlength : rest.length > maxTreeDigits
  · rw [if_pos hlength]
    refine .inr ⟨rfl, ?_⟩
    rintro m - hm rfl
    have h := Tiles.natText_length (n := m) hm
    rw [maxTreeDigits] at hlength
    omega
  rw [if_neg hlength]
  by_cases hascii : rest.isAscii = true
  · -- ASCII digits that do not begin with a zero are a numeral
    have hdecimal : rest.isDecimal = true := by
      have h := hdigit.1
      rwa [Interp.isDigit, if_pos hascii] at h
    have hhead : rest.head? ≠ some (CodePoint.ofChar '0') := by
      intro h
      rw [hzero.mpr h] at hdigit
      exact absurd hdigit.2 (by decide)
    obtain ⟨m, rfl⟩ := isNumeral_iff.mp ⟨hdecimal, fun _ => hhead⟩
    have hint : py.int (natText m) = .ok (m : ℤ) := by
      apply int_natText
      have hlt : m < 10 ^ 19 := (natText_length_le_iff (by omega)).mp (by
        rw [maxTreeDigits] at hlength
        omega)
      exact hlt.trans_le (Nat.pow_le_pow_right (by omega) (by decide))
    rw [hint, Except.map]
    by_cases hrange : 1 ≤ m ∧ m ≤ maxTreeSize
    · rw [if_neg (by omega)]
      exact .inl ⟨m, hrange.1, hrange.2, rfl, rfl⟩
    · rw [if_pos (by omega)]
      refine .inr ⟨rfl, ?_⟩
      intro k hlow hhigh heq
      obtain rfl := natText_injective heq
      exact hrange ⟨hlow, hhigh⟩
  · have hother : ∀ m : ℕ, rest ≠ natText m := by
      rintro m rfl
      exact hascii (isAscii_natText m)
    rw [MisreadDigits] at h
    push Not at h hlength
    obtain ⟨n, hn, hrange⟩ := h (Bool.not_eq_true _ ▸ hascii) (fun hmem => hslash (.inr hmem))
      hdigit.1 hdigit.2 hlength
    refine .inr ⟨?_, fun m _ _ => hother m⟩
    rw [Interp.int, hn]
    simp only [Except.map]
    rw [if_pos]
    rcases lt_or_ge n 1 with hlow | hlow
    · exact .inl hlow
    · exact .inr (hrange hlow)

/-- What is misread is no path of a checkpoint, and the parser does not say so. -/
theorem parse_of_misread {rest : PyStr} (h : MisreadDigits py rest) :
    parseCheckpointTreeSize py (("checkpoint/" : PyStr) ++ rest) ≠ .ok (true, none) ∧
      (∀ m : ℕ, rest ≠ natText m) ∧
      (py.int? rest = none → ∃ e, parseCheckpointTreeSize py (("checkpoint/" : PyStr) ++ rest) =
        .error e) := by
  obtain ⟨hascii, hslash, hdigit, hzero, hlength, hvalue⟩ := h
  have hne : rest ≠ [] := by
    rintro rfl
    cases hascii
  rw [parse_checkpoint, if_neg (by simp [hne, hslash]), hdigit, hzero, if_neg (by decide),
    if_neg (by omega)]
  refine ⟨?_, ?_, ?_⟩
  · rw [Interp.int]
    cases hint : py.int? rest with
    | none => simp [Except.map]
    | some n =>
        have hrange := hvalue n hint
        simp only [Except.map]
        rw [if_neg (by omega)]
        simp
  · rintro m rfl
    rw [isAscii_natText] at hascii
    cases hascii
  · intro hnone
    rw [Interp.int, hnone]
    exact ⟨_, rfl⟩

theorem readsExactly_iff {rel : PyStr} : ReadsExactly py rel ↔ ¬ Misread py rel := by
  constructor
  · rintro ⟨-, hnone⟩ ⟨rest, rfl, h⟩
    obtain ⟨hother, hnumeral, -⟩ := parse_of_misread h
    refine hother (hnone (startsWith_iff.mpr ⟨rest, rfl⟩) fun n hpath => ?_)
    obtain ⟨m, -, -, -, hrest⟩ := checkpointPath_iff.mp hpath
    exact hnumeral m hrest
  · intro h
    by_cases hstart : PyStr.startsWith rel "checkpoint/" = true
    · obtain ⟨rest, rfl⟩ := startsWith_iff.mp hstart
      rcases parse_of_not_misread fun hrest => h ⟨rest, rfl, hrest⟩ with
        ⟨m, hlow, hhigh, rfl, hparse⟩ | ⟨hparse, hnumeral⟩
      · refine ⟨fun n => ?_, fun _ hpath => ?_⟩
        · rw [hparse, checkpointPath_iff]
          constructor
          · intro heq
            exact ⟨m, by simpa using heq.symm, hlow, hhigh, rfl⟩
          · rintro ⟨k, rfl, -, -, heq⟩
            rw [natText_injective heq]
        · exact absurd (checkpointPath_iff.mpr ⟨m, rfl, hlow, hhigh, rfl⟩) (hpath m)
      · refine ⟨fun n => ?_, fun _ _ => hparse⟩
        rw [hparse, checkpointPath_iff]
        constructor
        · intro heq
          simp at heq
        · rintro ⟨k, -, hlow, hhigh, heq⟩
          exact absurd heq (hnumeral k hlow hhigh)
    · refine ⟨fun n => ?_, fun hpath => absurd hpath hstart⟩
      rw [Bool.not_eq_true] at hstart
      rw [parseCheckpointTreeSize, hstart]
      constructor
      · intro heq
        simp at heq
      · rintro ⟨-, -, rfl⟩
        rw [startsWith_iff.mpr ⟨_, rfl⟩] at hstart
        cases hstart

/-! ## The handler -/

theorem noteResponse_error {note : PyStr} {e : PyError} (h : noteResponse note = .error e) :
    utf8Encode note = .error e := by
  rw [noteResponse] at h
  split at h
  · cases h
  · exact map_eq_error.mp h

theorem handleSized_error {store : Reads} {sized : Option ℤ} {e : PyError}
    (h : handleSized store sized = .error e) : store.Raises e := by
  cases sized with
  | none => cases h
  | some n =>
      rw [handleSized] at h
      cases hsize : store.size with
      | error e' =>
          rw [hsize] at h
          obtain rfl := Except.error.inj h
          exact .size hsize
      | ok current =>
          rw [hsize, Except.bind] at h
          split at h
          · cases h
          · cases hnote : store.checkpointAt n with
            | error e' =>
                rw [hnote] at h
                obtain rfl := Except.error.inj h
                exact .checkpointAt hnote
            | ok note =>
                rw [hnote] at h
                exact .note hnote (noteResponse_error h)

theorem handleTile_error {store : Reads} {rel : PyStr} {e : PyError}
    (h : handleTile py store rel = .error e) : store.Raises e := by
  rw [handleTile] at h
  split at h
  · cases h
  · split at h
    · rename_i e' herror
      rcases Tiles.parseTileRelpath_answers py rel with ⟨r, hr, -⟩ | ⟨message, hmessage⟩
      · rw [hr] at herror
        cases herror
      · -- the parser raises `ValueError` only, which is caught
        rw [herror] at hmessage
        obtain rfl := Except.error.inj hmessage
        rw [if_pos (.inl rfl)] at h
        cases h
    · exact .entryBundle (map_eq_error.mp h)
    · exact .tile (map_eq_error.mp h)

/-- An exception of the parser comes from misread digits that `int` does not take. -/
theorem parse_error {rel : PyStr} {e : PyError} (h : parseCheckpointTreeSize py rel = .error e) :
    ∃ rest, rel = ("checkpoint/" : PyStr) ++ rest ∧ MisreadDigits py rest ∧
      py.int? rest = none := by
  by_cases hstart : PyStr.startsWith rel "checkpoint/" = true
  · obtain ⟨rest, rfl⟩ := startsWith_iff.mp hstart
    have hmisread : MisreadDigits py rest := by
      by_contra hnot
      rcases parse_of_not_misread hnot with ⟨m, -, -, -, hparse⟩ | ⟨hparse, -⟩
      · rw [hparse] at h
        cases h
      · rw [hparse] at h
        cases h
    refine ⟨rest, rfl, hmisread, ?_⟩
    cases hint : py.int? rest with
    | none => rfl
    | some n =>
        rw [parse_checkpoint] at h
        split at h
        · cases h
        split at h
        · cases h
        split at h
        · cases h
        rw [Interp.int, hint] at h
        cases h
  · rw [Bool.not_eq_true] at hstart
    rw [parseCheckpointTreeSize, hstart] at h
    cases h

/-- A store that answers everything and has nothing. -/
def Reads.empty : Reads where
  trust := .ok []
  latestCheckpoint := .ok []
  size := .ok 0
  checkpointAt _ := .ok []
  entryBundle _ _ := .ok none
  tile _ _ _ := .ok none

theorem Reads.empty_not_raises (e : PyError) : ¬ Reads.empty.Raises e := by
  have hnote : utf8Encode [] = .ok [] := rfl
  intro h
  cases h with
  | trust h => cases h
  | latestCheckpoint h => cases h
  | latestNote h he =>
      obtain rfl := Except.ok.inj h
      rw [hnote] at he
      cases he
  | size h => cases h
  | checkpointAt h => cases h
  | note h he =>
      obtain rfl := Except.ok.inj h
      rw [hnote] at he
      cases he
  | entryBundle h => cases h
  | tile h => cases h

theorem neverRaises_iff {path : PyStr} : NeverRaises py path ↔ ¬ RaisingRequest py path := by
  constructor
  · rintro h ⟨rest, hrel, hmisread, hint⟩
    obtain ⟨e, he⟩ := (parse_of_misread hmisread).2.2 hint
    have htrust : (("checkpoint/" : PyStr) ++ rest) ≠ "trust" := by
      intro heq
      exact absurd (congrArg List.head? heq) (by
        rw [List.head?_append_of_ne_nil _ (by decide)]
        decide)
    have hcurrent : ¬ ((("checkpoint/" : PyStr) ++ rest) = "checkpoint" ∨
        (("checkpoint/" : PyStr) ++ rest) = "checkpoint/latest") := by
      have hsplit : ("checkpoint/latest" : PyStr) = ("checkpoint/" : PyStr) ++ ("latest" : PyStr) :=
        rfl
      rintro (heq | heq)
      · have hlength := congrArg List.length heq
        rw [List.length_append] at hlength
        have hleft : List.length (PyStr.ofString "checkpoint/") = 11 := rfl
        have hright : List.length (PyStr.ofString "checkpoint") = 10 := rfl
        omega
      · rw [hsplit] at heq
        have hascii := hmisread.1
        rw [List.append_cancel_left heq] at hascii
        cases hascii
    have herror : handle py .empty path = .error e := by
      rw [handle, hrel]
      simp only
      rw [if_neg htrust, if_neg hcurrent, he]
      rfl
    exact Reads.empty_not_raises e (h .empty e herror)
  · intro hnot store e h
    rw [handle] at h
    split at h
    · cases h
    · rename_i rel hrel
      split at h
      · exact .trust (map_eq_error.mp h)
      split at h
      · cases hnote : store.latestCheckpoint with
        | error e' =>
            rw [hnote] at h
            obtain rfl := Except.error.inj h
            exact .latestCheckpoint hnote
        | ok note =>
            rw [hnote] at h
            exact .latestNote hnote (noteResponse_error h)
      cases hparse : parseCheckpointTreeSize py rel with
      | error e' =>
          obtain ⟨rest, rfl, hmisread, hint⟩ := parse_error hparse
          exact absurd ⟨rest, hrel, hmisread, hint⟩ hnot
      | ok answer =>
          rw [hparse] at h
          simp only [Except.bind] at h
          split at h
          · exact handleSized_error h
          split at h
          · exact handleTile_error h
          · cases h

/-- The parser of checkpoint paths is exact, and the handler raises nothing of its own,
exactly on the paths that are not misread. -/
theorem checkpoint_requests (py : Interp) :
    (∀ rel, ReadsExactly py rel ↔ ¬ Misread py rel) ∧
      (∀ path, NeverRaises py path ↔ ¬ RaisingRequest py path) :=
  ⟨fun _ => readsExactly_iff, fun _ => neverRaises_iff⟩

end Exact

/-- Superscript two is a digit that `int` does not take, and Arabic three one that it takes. -/
def otherDigits : Interp :=
  { Interp.plain with
    isdigit := fun s => s == [⟨0xB2, by decide⟩] || s == [⟨0x663, by decide⟩]
    intOf := fun s => if s == [⟨0x663, by decide⟩] then some 3 else none }

theorem superscript_checkpoint_raises :
    handle otherDigits .empty (("/pq/log/checkpoint/" : PyStr) ++ [⟨0xB2, by decide⟩]) =
        .error (.valueError "invalid literal for int() with base 10") ∧
      parseCheckpointTreeSize otherDigits (("checkpoint/" : PyStr) ++ [⟨0x663, by decide⟩]) =
        .ok (true, some 3) := by
  decide +kernel

end Signal402.Http
