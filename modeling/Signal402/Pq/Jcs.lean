import Mathlib.Data.List.Lex
import Mathlib.Data.List.Sort
import Signal402.Base.JsonParts
import Signal402.Base.JsonRoundTrip

/-!
# Canonical JSON

`canonicalize` writes a value as RFC 8785 text: no white space, the keys of every dictionary
in the order of their UTF-16 code units, and text as it stands but for quotes, backslashes
and control characters.  `parse` reads it strictly: no duplicate key, no surrogate, no
constant that is not finite.

Both call themselves once for every list or dictionary that stands in another, and the
interpreter bounds how deep that goes: `writer` and `reader` are the levels it leaves them.

* `readBack_serialize` — what is written is read as the value in its written form
  (`ordered`).
* `canonical_json` — the value comes back; values with the same bytes are equal; what was
  written is written the same again, with its keys in order at every depth.
-/

namespace Signal402.Jcs

/-- A `JCSError`. -/
def jcsError (msg : String) : PyError := ⟨.jcsError, msg⟩

/-- `_has_lone_surrogate`. -/
def hasLoneSurrogate (s : PyStr) : Bool := s.any CodePoint.isSurrogate

/-! ## Writing -/

/-- A code point in a JSON string, as `json.dumps` writes it without `ensure_ascii`. -/
def rawCodePoint (c : CodePoint) : PyStr :=
  let n := c.val
  if n = 0x22 then PyStr.ofString "\\\""
  else if n = 0x5C then PyStr.ofString "\\\\"
  else if n = 0x0A then PyStr.ofString "\\n"
  else if n = 0x0D then PyStr.ofString "\\r"
  else if n = 0x09 then PyStr.ofString "\\t"
  else if n = 0x0C then PyStr.ofString "\\f"
  else if n = 0x08 then PyStr.ofString "\\b"
  else if n < 0x20 then PyStr.ofString "\\u" ++ hex4 n
  else [c]

/-- `_serialize` of a string. -/
def serializeText (s : PyStr) : Except PyError PyStr :=
  if hasLoneSurrogate s then .error (jcsError "lone surrogate") else .ok (quoted rawCodePoint s)

/-- `_serialize_number`. -/
def serializeNumber (py : Interp) (x : PyFloat) : PyStr :=
  if x.eqInt 0 then "0" else jsonFloat py x

/-- `_serialize` of a float. -/
def serializeFloat (py : Interp) (x : PyFloat) : Except PyError PyStr :=
  if x.isFinite then .ok (serializeNumber py x) else .error (jcsError "non-finite number")

/-- `_utf16_key`: the bytes of `key.encode("utf-16-be")`. -/
def utf16Key (key : PyStr) : List ℕ :=
  key.flatMap fun c =>
    let n := c.val
    if n < 0x10000 then [n / 256, n % 256]
    else
      let high := 0xD800 + (n - 0x10000) / 1024
      let low := 0xDC00 + (n - 0x10000) % 1024
      [high / 256, high % 256, low / 256, low % 256]

section ByKey

variable {α : Type}

/-- `sorted(obj.keys(), key=_utf16_key)`, of the members. -/
def byKey (members : List (PyStr × α)) : List (PyStr × α) :=
  members.insertionSort fun a b => utf16Key a.1 ≤ utf16Key b.1

end ByKey

/-- The exception of nesting that is too deep. -/
def tooDeep : PyError := ⟨.recursionError, "maximum recursion depth exceeded"⟩

/-- A member whose value is written as `text`. -/
def serializeMember (key : PyStr) (text : Except PyError PyStr) : Except PyError PyStr :=
  (serializeText key).bind fun k => text.map fun t => k ++ PyStr.ofString ":" ++ t

section Serialize

variable (py : Interp)

mutual

/-- `_serialize`. -/
def serialize : Json → ℕ → Except PyError PyStr
  | .null, _ => .ok "null"
  | .bool b, _ => .ok (if b then "true" else "false")
  | .str s, _ => serializeText s
  | .int n, _ => jsonInt n
  | .float x, _ => serializeFloat py x
  | .arr _, 0 => .error tooDeep
  | .arr items, writer + 1 => (serializeItems items writer).map fun texts =>
      PyStr.ofString "[" ++ joinComma texts ++ PyStr.ofString "]"
  | .obj _, 0 => .error tooDeep
  | .obj members, writer + 1 =>
      if members.any fun m => hasLoneSurrogate m.1 then .error (jcsError "lone surrogate")
      else
        ((byKey (serializeValues members writer)).mapM fun m => serializeMember m.1 m.2).map
          fun texts => PyStr.ofString "\x7b" ++ joinComma texts ++ PyStr.ofString "\x7d"

/-- The values of a list. -/
def serializeItems : List Json → ℕ → Except PyError (List PyStr)
  | [], _ => .ok []
  | v :: rest, writer =>
      (serialize v writer).bind fun t => (serializeItems rest writer).map fun ts => t :: ts

/-- The values of a dictionary, each under its key. -/
def serializeValues : Dict → ℕ → List (PyStr × Except PyError PyStr)
  | [], _ => []
  | (k, v) :: rest, writer => (k, serialize v writer) :: serializeValues rest writer

end

/-- `canonicalize`. -/
def canonicalize (writer : ℕ) (v : Json) : Except PyError Bytes :=
  (serialize py v writer).bind utf8Encode

end Serialize

/-! ## Reading -/

/-- The members behind those whose keys were seen. -/
def rejectSeen (seen : List PyStr) : Dict → Except PyError Dict
  | [] => .ok []
  | (key, val) :: rest =>
      if seen.contains key then .error (jcsError "duplicate key")
      else (rejectSeen (key :: seen) rest).map fun out => (key, val) :: out

/-- The hooks of `parse`: `_reject_duplicates` and `_reject_constant`. -/
def parseHooks : Hooks where
  constant _ := .error (jcsError "non-finite number")
  float x := .ok (.float x)
  pairs ps := (rejectSeen [] ps).map .obj

/-- `parse` of a text. -/
def parseText (reader : ℕ) (text : PyStr) : Except PyError Json :=
  if hasLoneSurrogate text then .error (jcsError "lone surrogate")
  else
    match loadsWith parseHooks reader text with
    | .ok v => .ok v
    | .error e =>
        if e.cls.isA .jsonDecodeError then .error (jcsError "invalid JSON") else .error e

/-- `parse` of bytes. -/
def parse (reader : ℕ) (raw : Bytes) : Except PyError Json :=
  match utf8Decode raw with
  | none => .error (jcsError "invalid UTF-8")
  | some text => parseText reader text

/-! ## Strings -/

theorem rawCodePoint_of_lt {c : CodePoint} (h : c.val < 0x7F) :
    rawCodePoint c = jsonCodePoint c := by
  unfold rawCodePoint jsonCodePoint
  dsimp only
  split_ifs with h1 h2 h3 h4 h5 h6 h7 h8 h9 h10 h11 <;> first | rfl | omega

theorem rawCodePoint_of_le {c : CodePoint} (h : 0x7F ≤ c.val) : rawCodePoint c = [c] := by
  unfold rawCodePoint
  dsimp only
  split_ifs <;> first | rfl | omega

/-- A code point is read as one unit from the text it is written in. -/
theorem scanUnits_rawCodePoint (c : CodePoint) (rest : PyStr) :
    ∃ b, scanUnits (rawCodePoint c ++ rest) =
      (scanUnits rest).map fun r => ((b, c) :: r.1, r.2) := by
  by_cases h : c.val < 0x7F
  · obtain ⟨us, hus, hscan⟩ := scanUnits_codePoint c rest
    rcases hus with ⟨-, b, rfl⟩ | ⟨hc, -⟩
    · exact ⟨b, by rw [rawCodePoint_of_lt h, hscan]; rfl⟩
    · omega
  · exact ⟨false, by
      rw [rawCodePoint_of_le (Nat.le_of_not_lt h)]
      exact scanUnits_plain (by omega) (by omega) (by omega) rest⟩

/-- A string without surrogates is read behind its opening quote. -/
theorem spelled_rawCodePoint {s : PyStr} (hs : NoSurrogate s) : Spelled rawCodePoint s := by
  intro rest
  have hquote : PyStr.ofString "\"" = [⟨0x22, by decide⟩] := by decide
  have hunits : ∃ us, scanUnits (s.flatMap rawCodePoint ++ ⟨0x22, by decide⟩ :: rest) =
      .ok (us, rest) ∧ us.map Prod.snd = s := by
    induction s with
    | nil =>
        refine ⟨[], ?_, rfl⟩
        rw [List.flatMap_nil, List.nil_append, scanUnits.eq_def]
        simp only [↓reduceIte]
    | cons c s ih =>
        obtain ⟨us, hscan, hmap⟩ := ih fun a ha => hs a (List.mem_cons_of_mem c ha)
        obtain ⟨b, hcode⟩ := scanUnits_rawCodePoint c
          (s.flatMap rawCodePoint ++ ⟨0x22, by decide⟩ :: rest)
        refine ⟨(b, c) :: us, ?_, congrArg (c :: ·) hmap⟩
        rw [List.flatMap_cons, List.append_assoc, hcode, hscan]
        rfl
  -- no unit is a surrogate, so none are joined
  have hjoin : ∀ us : List (Bool × CodePoint), NoSurrogate (us.map Prod.snd) →
      joinUnits us = us.map Prod.snd := by
    intro us
    induction us with
    | nil => exact fun _ => rfl
    | cons u us ih =>
        intro hus
        rw [joinUnits_single, ih fun a ha => hus a (List.mem_cons_of_mem _ ha)]
        · rfl
        · rintro v - ⟨hhigh, -⟩
          have hu := isSurrogate_eq_false.mp (hus u.2 List.mem_cons_self)
          have := isHigh_iff.mp hhigh
          omega
  obtain ⟨us, hscan, hmap⟩ := hunits
  rw [quoted, hquote, List.append_assoc, List.append_assoc, List.singleton_append,
    List.drop_one, List.tail_cons, List.singleton_append, scanString, hscan]
  change Except.ok (joinUnits us, rest) = _
  rw [hjoin us (by rw [hmap]; exact hs), hmap]

theorem hasLoneSurrogate_eq_false {s : PyStr} : hasLoneSurrogate s = false ↔ NoSurrogate s := by
  simp [hasLoneSurrogate, NoSurrogate]

theorem serializeText_eq_ok {s t : PyStr} :
    serializeText s = .ok t ↔ NoSurrogate s ∧ t = quoted rawCodePoint s := by
  unfold serializeText
  cases h : hasLoneSurrogate s with
  | true =>
      have hs : ¬ NoSurrogate s := by
        rw [← hasLoneSurrogate_eq_false, h]
        exact Bool.noConfusion
      simp [hs]
  | false => simp [hasLoneSurrogate_eq_false.mp h, eq_comm]

theorem noSurrogate_append {s t : PyStr} :
    NoSurrogate (s ++ t) ↔ NoSurrogate s ∧ NoSurrogate t :=
  List.forall_mem_append

theorem noSurrogate_quoted {s : PyStr} (hs : NoSurrogate s) :
    NoSurrogate (quoted rawCodePoint s) := by
  have hquote : NoSurrogate (PyStr.ofString "\"") := noSurrogate_of_isAscii (by decide)
  rw [quoted, noSurrogate_append, noSurrogate_append]
  refine ⟨⟨hquote, ?_⟩, hquote⟩
  intro a ha
  obtain ⟨c, hc, ha⟩ := List.mem_flatMap.mp ha
  by_cases h : c.val < 0x7F
  · rw [rawCodePoint_of_lt h] at ha
    exact noSurrogate_of_isAscii (jsonCodePoint_isAscii c) a ha
  · rw [rawCodePoint_of_le (Nat.le_of_not_lt h), List.mem_singleton] at ha
    exact ha ▸ hs c hc

theorem noSurrogate_joinComma {ts : List PyStr} (h : ∀ t ∈ ts, NoSurrogate t) :
    NoSurrogate (joinComma ts) := by
  induction ts with
  | nil => exact fun c hc => absurd hc List.not_mem_nil
  | cons t ts ih =>
      cases ts with
      | nil => simpa [joinComma] using h t List.mem_cons_self
      | cons t' ts =>
          rw [joinComma_cons, noSurrogate_append]
          refine ⟨h t List.mem_cons_self, ?_⟩
          intro c hc
          rcases List.mem_cons.mp hc with rfl | hc
          · decide
          · exact ih (fun u hu => h u (List.mem_cons_of_mem t hu)) c hc

/-! ## The order of the keys -/

section ByKey

variable {α β : Type}

theorem byKey_perm (members : List (PyStr × α)) : (byKey members).Perm members :=
  List.perm_insertionSort _ _

/-- Sorting does not look at the values. -/
theorem byKey_map (f : PyStr × α → β) (members : List (PyStr × α)) :
    byKey (members.map fun m => (m.1, f m)) = (byKey members).map fun m => (m.1, f m) := by
  symm
  apply List.map_insertionSort
  intro a _ b _
  exact Iff.rfl

theorem byKey_pairwise (members : List (PyStr × α)) :
    (byKey members).Pairwise fun a b => utf16Key a.1 ≤ utf16Key b.1 := by
  have : Std.Total fun a b : PyStr × α => utf16Key a.1 ≤ utf16Key b.1 :=
    ⟨fun a b => le_total (utf16Key a.1) (utf16Key b.1)⟩
  have : IsTrans (PyStr × α) fun a b => utf16Key a.1 ≤ utf16Key b.1 :=
    ⟨fun _ _ _ hab hbc => le_trans hab hbc⟩
  exact List.pairwise_insertionSort _ _

/-- Sorting once is enough. -/
theorem byKey_byKey (members : List (PyStr × α)) : byKey (byKey members) = byKey members :=
  (byKey_pairwise members).insertionSort_eq

end ByKey

/-! ## The written form -/

mutual

/-- A value as it is written: the keys of its dictionaries sorted, and zero an integer. -/
def ordered : Json → Json
  | .float x => if x.eqInt 0 then .int 0 else .float x
  | .arr items => .arr (orderedItems items)
  | .obj members => .obj (byKey (orderedMembers members))
  | v => v

def orderedItems : List Json → List Json
  | [] => []
  | v :: rest => ordered v :: orderedItems rest

def orderedMembers : Dict → Dict
  | [] => []
  | (k, v) :: rest => (k, ordered v) :: orderedMembers rest

end

theorem orderedItems_eq (items : List Json) : orderedItems items = items.map ordered := by
  induction items with
  | nil => rfl
  | cons v rest ih => rw [orderedItems, ih, List.map_cons]

theorem orderedMembers_eq (d : Dict) : orderedMembers d = d.map fun m => (m.1, ordered m.2) := by
  induction d with
  | nil => rfl
  | cons m rest ih => rw [orderedMembers, ih, List.map_cons]

/-- A dictionary in its written form. -/
theorem ordered_obj (d : Dict) :
    ordered (.obj d) = .obj ((byKey d).map fun m => (m.1, ordered m.2)) := by
  rw [ordered, orderedMembers_eq, byKey_map]

section Serialize

variable {py : Interp} {writer reader : ℕ}

theorem serializeValues_eq (d : Dict) :
    serializeValues py d writer = d.map fun m => (m.1, serialize py m.2 writer) := by
  induction d with
  | nil => rfl
  | cons m rest ih => rw [serializeValues, ih, List.map_cons]

theorem serialize_obj (d : Dict) :
    serialize py (.obj d) (writer + 1) =
      if d.any fun m => hasLoneSurrogate m.1 then .error (jcsError "lone surrogate")
      else ((byKey d).mapM fun m => serializeMember m.1 (serialize py m.2 writer)).map
        fun texts => PyStr.ofString "\x7b" ++ joinComma texts ++ PyStr.ofString "\x7d" := by
  rw [serialize, serializeValues_eq, byKey_map, List.mapM_map]
  rfl

theorem serializeItems_eq (items : List Json) :
    serializeItems py items writer = items.mapM fun v => serialize py v writer := by
  induction items with
  | nil => rfl
  | cons v rest ih =>
      rw [serializeItems, ih, List.mapM_cons]
      cases serialize py v writer with
      | error e => rfl
      | ok t => cases rest.mapM fun v => serialize py v writer <;> rfl

theorem serialize_arr (items : List Json) :
    serialize py (.arr items) (writer + 1) =
      (items.mapM fun v => serialize py v writer).map fun texts =>
        PyStr.ofString "[" ++ joinComma texts ++ PyStr.ofString "]" := by
  rw [serialize, serializeItems_eq]

/-- A float that equals zero is written as the integer. -/
theorem serializeFloat_zero {x : PyFloat} (h : x.eqInt 0 = true) :
    serializeFloat py x = jsonInt 0 := by
  have hfinite : x.isFinite = true := by
    unfold PyFloat.eqInt at h
    unfold PyFloat.isFinite
    cases hx : x.unpack with
    | zero sign => rfl
    | finite sign m e hm => rfl
    | infinity sign => rw [hx] at h; cases h
    | notANumber => rw [hx] at h; cases h
  have hzero : jsonInt 0 = .ok "0" := by decide
  rw [serializeFloat, if_pos hfinite, serializeNumber, if_pos h, hzero]

/-- The written form is written as the value is. -/
theorem serialize_ordered (v : Json) : serialize py (ordered v) writer = serialize py v writer := by
  induction writer generalizing v with
  | zero =>
      cases v with
      | float x =>
          rw [ordered]
          split_ifs with h
          · rw [serialize, serialize, serializeFloat_zero h]
          · rfl
      | _ => rfl
  | succ writer ih =>
      have hmember : (fun v => serialize py (ordered v) writer) = fun v => serialize py v writer :=
        funext ih
      cases v with
      | float x =>
          rw [ordered]
          split_ifs with h
          · rw [serialize, serialize, serializeFloat_zero h]
          · rfl
      | arr items =>
          rw [ordered, orderedItems_eq, serialize_arr, serialize_arr, List.mapM_map]
          simp only [Function.comp_def, hmember]
      | obj d =>
          have hkeys : (((byKey d).map fun m => (m.1, ordered m.2)).any fun m =>
              hasLoneSurrogate m.1) = d.any fun m => hasLoneSurrogate m.1 := by
            rw [List.any_map]
            exact (byKey_perm d).any_eq
          rw [ordered_obj, serialize_obj, serialize_obj, hkeys, byKey_map, byKey_byKey,
            List.mapM_map]
          simp only [Function.comp_def, ih]
      | _ => rfl

/-! ## What is written is read -/

/-- What can be written: `int` can be written out, floats are finite and read as they are
written, no text has a surrogate, and keys are distinct. -/
def Writable (py : Interp) : Json → Prop
  | .int n => (natText n.natAbs).length ≤ PyStr.maxIntDigits
  | .float x => x.isFinite = true ∧ (x.eqInt 0 = false → py.ReadsBack x)
  | .str s => NoSurrogate s
  | .obj d => (d.map Prod.fst).Nodup ∧ ∀ m ∈ d, NoSurrogate m.1
  | _ => True

theorem rejectSeen_eq_ok {seen : List PyStr} {d : Dict} (hkeys : (d.map Prod.fst).Nodup)
    (hseen : ∀ k ∈ seen, k ∉ d.map Prod.fst) : rejectSeen seen d = .ok d := by
  induction d generalizing seen with
  | nil => rfl
  | cons m d ih =>
      obtain ⟨k, v⟩ := m
      rw [List.map_cons, List.nodup_cons] at hkeys
      have hk : k ∉ seen := fun h => hseen k h List.mem_cons_self
      rw [rejectSeen, if_neg (by rwa [List.contains_iff_mem]), ih hkeys.2]
      · rfl
      · intro k' hk' hmem
        rcases List.mem_cons.mp hk' with rfl | hk'
        · exact hkeys.1 hmem
        · exact hseen k' hk' (List.mem_cons_of_mem _ hmem)

/-- Members with distinct keys are taken as they are. -/
theorem parseHooks_pairs {d : Dict} (hkeys : (d.map Prod.fst).Nodup) :
    parseHooks.pairs d = .ok (.obj d) := by
  change (rejectSeen [] d).map Json.obj = _
  rw [rejectSeen_eq_ok hkeys (by simp)]
  rfl

theorem noSurrogate_digits {ds : PyStr} (h : DigitRun ds) : NoSurrogate ds := by
  intro c hc
  have := isDigitChar_iff.mp (h.2 c hc)
  exact isSurrogate_of_lt (by omega)

theorem noSurrogate_cons {c : CodePoint} {s : PyStr} :
    NoSurrogate (c :: s) ↔ c.isSurrogate = false ∧ NoSurrogate s :=
  List.forall_mem_cons

theorem noSurrogate_number {i f e : PyStr} (hi : IntPart i) (hf : FracPart f) (he : ExpPart e) :
    NoSurrogate (i ++ f ++ e) := by
  have hnil : NoSurrogate [] := fun c hc => absurd hc List.not_mem_nil
  have hsign : ∀ c : Char, c.toNat < 0x80 → NoSurrogate [CodePoint.ofChar c] := by
    intro c hc a ha
    rw [List.mem_singleton] at ha
    subst ha
    exact isSurrogate_of_lt (Nat.lt_trans hc (by decide))
  rw [noSurrogate_append, noSurrogate_append]
  refine ⟨⟨?_, ?_⟩, ?_⟩
  · obtain ⟨sign, ds, rfl, rfl | rfl, hds, -⟩ := hi
    · exact noSurrogate_digits hds
    · exact noSurrogate_append.mpr ⟨hsign _ (by decide), noSurrogate_digits hds⟩
  · obtain rfl | ⟨ds, rfl, hds⟩ := hf
    · exact hnil
    · exact noSurrogate_cons.mpr ⟨by decide, noSurrogate_digits hds⟩
  · obtain rfl | ⟨sign, ds, rfl, hs, hds⟩ := he
    · exact hnil
    · rw [noSurrogate_cons, noSurrogate_append]
      refine ⟨by decide, ?_, noSurrogate_digits hds⟩
      rcases hs with rfl | rfl | rfl
      · exact hnil
      · exact hsign _ (by decide)
      · exact hsign _ (by decide)

/-- The text of a value: without surrogates, and read as the value in its written form. -/
def Writes (py : Interp) (writer reader : ℕ) (v : Json) (t : PyStr) : Prop :=
  serialize py v writer = .ok t ∧ NoSurrogate t ∧ ReadBack parseHooks reader t (ordered v)

theorem writes_int {n : ℤ} (h : (natText n.natAbs).length ≤ PyStr.maxIntDigits) :
    jsonInt n = .ok (intText n) ∧ NoSurrogate (intText n) ∧
      ReadBack parseHooks reader (intText n) (.int n) := by
  refine ⟨by rw [jsonInt, if_pos h], ?_, readBack_int h⟩
  have := noSurrogate_number (intPart_intText n) (.inl rfl) (.inl rfl)
  simpa using this

theorem writes_float {x : PyFloat} (hfinite : x.isFinite = true)
    (h : x.eqInt 0 = false → py.ReadsBack x) :
    ∃ t, Writes py writer reader (.float x) t := by
  cases hzero : x.eqInt 0 with
  | true =>
      obtain ⟨ht, htext, hback⟩ : jsonInt 0 = .ok (intText 0) ∧ NoSurrogate (intText 0) ∧
          ReadBack parseHooks reader (intText 0) (.int 0) := writes_int (by decide)
      refine ⟨intText 0, ?_, htext, ?_⟩
      · rw [serialize, serializeFloat_zero hzero, ht]
      · rwa [ordered, if_pos hzero]
  | false =>
      have hreads := h hzero
      have hback : ReadBack parseHooks reader (jsonFloat py x) (.float x) :=
        readBack_float hfinite hreads rfl
      refine ⟨jsonFloat py x, ?_, ?_, ?_⟩
      · rw [serialize, serializeFloat, if_pos hfinite, serializeNumber, hzero]
        rfl
      · obtain ⟨i, f, e, hi, hf, he, -, hrepr, -⟩ := hreads
        rw [jsonFloat_of_isFinite hfinite, hrepr]
        exact noSurrogate_number hi hf he
      · rw [ordered, hzero]
        exact hback

theorem writes_scalar {v : Json} (hscalar : v.isContainer = false) (hv : Writable py v) :
    ∃ t, Writes py writer reader v t := by
  cases v with
  | null => exact ⟨"null", by rw [serialize], noSurrogate_of_isAscii (by decide), readBack_null⟩
  | bool b =>
      refine ⟨PyStr.ofString (if b then "true" else "false"), ?_, ?_, readBack_bool b⟩
      · cases b <;> rfl
      · cases b <;> exact noSurrogate_of_isAscii (by decide)
  | int n => exact ⟨intText n, writes_int hv⟩
  | float x => exact writes_float hv.1 hv.2
  | str s =>
      refine ⟨quoted rawCodePoint s, ?_, noSurrogate_quoted hv,
        readBack_quoted (spelled_rawCodePoint hv)⟩
      rw [serialize, serializeText_eq_ok]
      exact ⟨hv, rfl⟩
  | arr items => cases hscalar
  | obj d => cases hscalar

theorem noSurrogate_singleton {c : Char} (h : c.toNat < 0x80) :
    NoSurrogate [CodePoint.ofChar c] := by
  intro a ha
  rw [List.mem_singleton] at ha
  subst ha
  exact isSurrogate_of_lt (Nat.lt_trans h (by decide))

/-- The text of a list, from the texts of its items. -/
theorem writes_arr {items : List Json} {ts : List PyStr}
    (h : List.Forall₂ (Writes py writer reader) items ts) :
    ∃ t, Writes py (writer + 1) (reader + 1) (.arr items) t := by
  have htexts : items.mapM (fun v => serialize py v writer) = .ok ts := by
    have hzip : List.zipWith (fun _ t => t) items ts = ts := by
      rw [← List.map_uncurry_zip_eq_zipWith]
      exact List.map_snd_zip h.length_eq.ge
    rw [mapM_eq_ok_zipWith (g := fun _ t => t) (h.imp fun v t hvt => hvt.1), hzip]
  refine ⟨PyStr.ofString "[" ++ joinComma ts ++ PyStr.ofString "]", ?_, ?_, ?_⟩
  · rw [serialize_arr, htexts]
    rfl
  · have hclean : List.Forall₂ (fun t (_ : Json) => NoSurrogate t ∧ True) ts items :=
      h.flip.imp fun t v hvt => ⟨hvt.2.1, trivial⟩
    rw [noSurrogate_append, noSurrogate_append]
    exact ⟨⟨noSurrogate_singleton (c := '[') (by decide),
      noSurrogate_joinComma ((List.forall₂_and_left ts items).mp hclean).1⟩,
      noSurrogate_singleton (c := ']') (by decide)⟩
  · rw [ordered, orderedItems_eq]
    apply readBack_arr
    rw [List.forall₂_map_right_iff]
    exact h.flip.imp fun t v hvt => hvt.2.2

theorem serializeMember_eq {k t : PyStr} (hk : NoSurrogate k) :
    serializeMember k (.ok t) = .ok (memberText rawCodePoint k t) := by
  rw [serializeMember, serializeText_eq_ok.mpr ⟨hk, rfl⟩]
  rfl

theorem noSurrogate_memberText {k t : PyStr} (hk : NoSurrogate k) (ht : NoSurrogate t) :
    NoSurrogate (memberText rawCodePoint k t) := by
  rw [memberText, noSurrogate_append, noSurrogate_append]
  exact ⟨⟨noSurrogate_quoted hk, noSurrogate_singleton (c := ':') (by decide)⟩, ht⟩

/-- The text of a dictionary, from the texts of its values in the order of their keys. -/
theorem writes_obj {d : Dict} {ts : List PyStr} (hkeys : (d.map Prod.fst).Nodup)
    (htext : ∀ m ∈ d, NoSurrogate m.1)
    (h : List.Forall₂ (fun m t => Writes py writer reader m.2 t) (byKey d) ts) :
    ∃ t, Writes py (writer + 1) (reader + 1) (.obj d) t := by
  have hsorted : ∀ m ∈ byKey d, NoSurrogate m.1 := fun m hm =>
    htext m ((byKey_perm d).mem_iff.mp hm)
  have hmembers : List.Forall₂ (fun (m : PyStr × Json) t => NoSurrogate m.1 ∧
      Writes py writer reader m.2 t) (byKey d) ts :=
    (List.forall₂_and_left (byKey d) ts).mpr ⟨hsorted, h⟩
  have htexts : (byKey d).mapM (fun m => serializeMember m.1 (serialize py m.2 writer)) =
      .ok (List.zipWith (fun m t => memberText rawCodePoint m.1 t) (byKey d) ts) := by
    apply mapM_eq_ok_zipWith
    refine hmembers.imp ?_
    rintro m t ⟨hk, ht, -⟩
    rw [ht, serializeMember_eq hk]
  have hlone : (d.any fun m => hasLoneSurrogate m.1) = false := by
    rw [List.any_eq_false]
    intro m hm
    rw [hasLoneSurrogate_eq_false.mpr (htext m hm)]
    exact Bool.false_ne_true
  refine ⟨PyStr.ofString "\x7b" ++
    joinComma (List.zipWith (fun m t => memberText rawCodePoint m.1 t) (byKey d) ts) ++
      PyStr.ofString "\x7d", ?_, ?_, ?_⟩
  · rw [serialize_obj, hlone, htexts]
    rfl
  · have hclean : ∀ t ∈ List.zipWith (fun m t => memberText rawCodePoint m.1 t) (byKey d) ts,
        NoSurrogate t := by
      intro t ht
      rw [← List.map_uncurry_zip_eq_zipWith] at ht
      obtain ⟨p, hp, rfl⟩ := List.mem_map.mp ht
      obtain ⟨hk, -, htext, -⟩ := List.forall₂_zip hmembers hp
      exact noSurrogate_memberText hk htext
    rw [noSurrogate_append, noSurrogate_append]
    exact ⟨⟨noSurrogate_singleton (c := '\x7b') (by decide), noSurrogate_joinComma hclean⟩,
      noSurrogate_singleton (c := '\x7d') (by decide)⟩
  · have hperm : (((byKey d).map fun m => (m.1, ordered m.2)).map Prod.fst).Perm
        (d.map Prod.fst) := by
      rw [List.map_map]
      exact (byKey_perm d).map Prod.fst
    have hzip : List.zipWith (fun (m : PyStr × Json) t => memberText rawCodePoint m.1 t)
        ((byKey d).map fun m => (m.1, ordered m.2)) ts =
          List.zipWith (fun m t => memberText rawCodePoint m.1 t) (byKey d) ts :=
      List.zipWith_map_left
    rw [ordered_obj, ← hzip]
    apply readBack_obj (parseHooks_pairs (hperm.nodup_iff.mpr hkeys))
    · intro m hm
      obtain ⟨m, hmem, rfl⟩ := List.mem_map.mp hm
      exact spelled_rawCodePoint (hsorted m hmem)
    · rw [List.forall₂_map_left_iff]
      exact h.imp fun m t hmt => hmt.2.2

/-- What can be written is written, and read as the value in its written form. -/
theorem readBack_serialize {v : Json} (hw : v.fits writer = true) (hr : v.fits reader = true)
    (hv : v.Everywhere (Writable py)) : ∃ t, Writes py writer reader v t := by
  induction writer generalizing reader v with
  | zero => exact writes_scalar (by simpa [Json.fits] using hw) hv.here
  | succ writer ih =>
      by_cases hscalar : v.isContainer = false
      · exact writes_scalar hscalar hv.here
      cases reader with
      | zero => exact absurd (by simpa [Json.fits] using hr) hscalar
      | succ reader =>
          cases v with
          | arr items =>
              have hone : ∀ v ∈ items, ∃ t, Writes py writer reader v t := fun v hm =>
                ih (Json.fits_arr.mp hw v hm) (Json.fits_arr.mp hr v hm) (hv.item hm)
              obtain ⟨ts, hts⟩ := exists_forall₂ hone
              exact writes_arr hts
          | obj d =>
              have hone : ∀ m ∈ byKey d, ∃ t, Writes py writer reader m.2 t := by
                intro m hm
                have hm := (byKey_perm d).mem_iff.mp hm
                exact ih (Json.fits_obj.mp hw m hm) (Json.fits_obj.mp hr m hm) (hv.member hm)
              obtain ⟨ts, hts⟩ := exists_forall₂ hone
              exact writes_obj hv.here.1 hv.here.2 hts
          | _ => exact absurd rfl hscalar

/-! ## What was written could be -/

/-- A Python value: a dictionary holds a key once; and a float is read as it is written. -/
def Sound (py : Interp) : Json → Prop
  | .float x => x.isFinite = true → x.eqInt 0 = false → py.ReadsBack x
  | .obj d => (d.map Prod.fst).Nodup
  | _ => True

theorem writable_of_scalar {v : Json} {t : PyStr} (hscalar : v.isContainer = false)
    (hv : Sound py v) (h : serialize py v writer = .ok t) : Writable py v := by
  cases v with
  | null => trivial
  | bool b => trivial
  | int n =>
      rw [serialize, jsonInt] at h
      split_ifs at h with hn
      exact hn
  | float x =>
      rw [serialize, serializeFloat] at h
      split_ifs at h with hx
      exact ⟨hx, hv hx⟩
  | str s =>
      rw [serialize, serializeText_eq_ok] at h
      exact h.1
  | arr items => cases hscalar
  | obj d => cases hscalar

theorem serialize_obj_eq_ok {d : Dict} {t : PyStr}
    (h : serialize py (.obj d) (writer + 1) = .ok t) :
    ∀ m ∈ d, NoSurrogate m.1 ∧ ∃ u, serialize py m.2 writer = .ok u := by
  rw [serialize_obj] at h
  split_ifs at h with hlone
  obtain ⟨texts, htexts, -⟩ := map_eq_ok.mp h
  intro m hm
  obtain ⟨u, -, hu⟩ := exists_of_mapM_mem htexts ((byKey_perm d).mem_iff.mpr hm)
  obtain ⟨k, hk, hu⟩ := bind_eq_ok.mp hu
  obtain ⟨u', hu', -⟩ := map_eq_ok.mp hu
  exact ⟨(serializeText_eq_ok.mp hk).1, u', hu'⟩

/-- A value that was written could be written, and nests no deeper than the levels. -/
theorem writable_of_serialize {v : Json} {t : PyStr} (hv : v.Everywhere (Sound py))
    (h : serialize py v writer = .ok t) :
    v.Everywhere (Writable py) ∧ v.fits writer = true := by
  induction writer generalizing v t with
  | zero =>
      have hscalar : v.isContainer = false := by
        cases v with
        | arr items => cases h
        | obj d => cases h
        | _ => rfl
      exact ⟨.scalar (writable_of_scalar hscalar hv.here h) hscalar, Json.fits_of_scalar hscalar⟩
  | succ writer ih =>
      by_cases hscalar : v.isContainer = false
      · exact ⟨.scalar (writable_of_scalar hscalar hv.here h) hscalar,
          Json.fits_of_scalar hscalar⟩
      cases v with
      | arr items =>
          rw [serialize_arr] at h
          obtain ⟨texts, htexts, -⟩ := map_eq_ok.mp h
          have hone : ∀ v ∈ items, v.Everywhere (Writable py) ∧ v.fits writer = true := by
            intro v hm
            obtain ⟨u, -, hu⟩ := exists_of_mapM_mem htexts hm
            exact ih (hv.item hm) hu
          exact ⟨.mk trivial fun v hm => (hone v hm).1,
            Json.fits_arr.mpr fun v hm => (hone v hm).2⟩
      | obj d =>
          have hmember := serialize_obj_eq_ok h
          have hone : ∀ m ∈ d, m.2.Everywhere (Writable py) ∧ m.2.fits writer = true := by
            intro m hm
            obtain ⟨-, u, hu⟩ := hmember m hm
            exact ih (hv.member hm) hu
          refine ⟨.mk ⟨hv.here, fun m hm => (hmember m hm).1⟩ ?_,
            Json.fits_obj.mpr fun m hm => (hone m hm).2⟩
          intro v hmem
          obtain ⟨m, hm, rfl⟩ := List.mem_map.mp hmem
          exact (hone m hm).1
      | _ => exact absurd rfl hscalar

/-! ## The bytes -/

theorem utf8Encode_of_noSurrogate {t : PyStr} (h : NoSurrogate t) :
    utf8Encode t = .ok (utf8Bytes t) := by
  rw [utf8Encode_eq_ok]
  exact ⟨hasLoneSurrogate_eq_false.mpr h, rfl⟩

theorem parse_utf8Bytes {t : PyStr} {v : Json} (h : NoSurrogate t)
    (hback : ReadBack parseHooks reader t v) : parse reader (utf8Bytes t) = .ok v := by
  have hlone := hasLoneSurrogate_eq_false.mpr h
  have hdecode : utf8Decode (utf8Bytes t) = some t := utf8Decode_utf8Bytes hlone
  rw [parse, hdecode]
  change parseText reader t = _
  rw [parseText, hlone, if_neg Bool.false_ne_true, hback.loadsWith_eq]

/-- What can be written is read from its bytes in its written form. -/
theorem parse_canonicalize {v : Json} (hw : v.fits writer = true) (hr : v.fits reader = true)
    (hv : v.Everywhere (Writable py)) :
    ∃ raw, canonicalize py writer v = .ok raw ∧ parse reader raw = .ok (ordered v) := by
  obtain ⟨t, ht, htext, hback⟩ := readBack_serialize hw hr hv
  refine ⟨utf8Bytes t, ?_, parse_utf8Bytes htext hback⟩
  rw [canonicalize, ht]
  exact utf8Encode_of_noSurrogate htext

/-- What was written is read in its written form. -/
theorem parse_of_canonicalize {v : Json} {raw : Bytes} (hv : v.Everywhere (Sound py))
    (h : canonicalize py writer v = .ok raw) (hr : v.fits reader = true) :
    parse reader raw = .ok (ordered v) := by
  obtain ⟨t, ht, -⟩ := bind_eq_ok.mp h
  obtain ⟨hwritable, hw⟩ := writable_of_serialize hv ht
  obtain ⟨raw', hraw', hparse⟩ := parse_canonicalize hw hr hwritable
  cases h.symm.trans hraw'
  exact hparse

/-- A text that was written has bytes. -/
theorem canonicalize_of_serialize {v : Json} {t : PyStr} (hv : v.Everywhere (Sound py))
    (h : serialize py v writer = .ok t) : canonicalize py writer v = .ok (utf8Bytes t) := by
  obtain ⟨hwritable, hw⟩ := writable_of_serialize hv h
  obtain ⟨t', ht', htext, -⟩ := readBack_serialize hw hw hwritable
  cases h.symm.trans ht'
  rw [canonicalize, h]
  exact utf8Encode_of_noSurrogate htext

theorem canonicalize_ordered (v : Json) :
    canonicalize py writer (ordered v) = canonicalize py writer v := by
  rw [canonicalize, canonicalize, serialize_ordered]

end Serialize

/-! ## Equality -/

/-- A value of objects with string keys, arrays, strings without surrogates, integers,
booleans and null. -/
def Plain : Json → Prop
  | .float _ => False
  | .str s => NoSurrogate s
  | .obj d => (d.map Prod.fst).Nodup ∧ ∀ m ∈ d, NoSurrogate m.1
  | _ => True

/-- An integer that `str` writes out. -/
def Spellable : Json → Prop
  | .int n => (natText n.natAbs).length ≤ PyStr.maxIntDigits
  | _ => True

theorem Plain.writable {py : Interp} {v : Json} (h : Plain v ∧ Spellable v) : Writable py v := by
  cases v with
  | float x => exact h.1.elim
  | obj d => exact h.1
  | str s => exact h.1
  | int n => exact h.2
  | _ => trivial

/-- A value without floats, whose dictionaries hold a key once. -/
def Exact : Json → Prop
  | .float _ => False
  | .obj d => (d.map Prod.fst).Nodup
  | _ => True

theorem Exact.sound {py : Interp} {v : Json} (h : Exact v) : Sound py v := by
  cases v with
  | float x => exact h.elim
  | obj d => exact h
  | _ => trivial

/-- A value without floats equals its written form. -/
theorem same_ordered {v : Json} (h : v.Everywhere Exact) : Json.Same v (ordered v) := by
  induction h with
  | @mk v here held ih =>
      cases v with
      | float x => exact here.elim
      | arr items =>
          rw [ordered, orderedItems_eq]
          exact .ofItems ih
      | obj d =>
          rw [ordered, orderedMembers_eq]
          refine .ofMembers here (byKey_perm _).symm ?_
          intro m hm
          exact ih m.2 (List.mem_map_of_mem hm)
      | _ => exact .refl _

theorem Plain.exact {v : Json} (h : Plain v) : Exact v := by
  cases v with
  | float x => exact h.elim
  | obj d => exact h.1
  | _ => trivial

/-- Values without floats that have the same bytes are equal. -/
theorem same_of_canonicalize {py : Interp} {writer : ℕ} {v w : Json} {raw : Bytes}
    (hv : v.Everywhere Exact) (hw : w.Everywhere Exact)
    (hraw : canonicalize py writer v = .ok raw) (hraw' : canonicalize py writer w = .ok raw) :
    Json.Same v w := by
  -- both are read from the bytes, by a reader with the levels of the writer
  have hread : ∀ u : Json, u.Everywhere Exact → canonicalize py writer u = .ok raw →
      parse writer raw = .ok (ordered u) := by
    intro u hu hcanon
    have hsound : u.Everywhere (Sound py) := hu.imp fun _ h => h.sound
    obtain ⟨t, ht, -⟩ := bind_eq_ok.mp hcanon
    exact parse_of_canonicalize hsound hcanon (writable_of_serialize hsound ht).2
  have hform : ordered v = ordered w :=
    Except.ok.inj ((hread v hv hraw).symm.trans (hread w hw hraw'))
  have hsame := same_ordered hv
  rw [hform] at hsame
  exact hsame.trans (same_ordered hw).symm

/-- The keys of a dictionary ascend in the order of their UTF-16 code units. -/
def Ascending : Json → Prop
  | .obj d => d.Pairwise fun a b => utf16Key a.1 ≤ utf16Key b.1
  | _ => True

/-- In the written form the keys ascend at every depth. -/
theorem ascending_ordered {p : Json → Prop} {v : Json} (h : v.Everywhere p) :
    (ordered v).Everywhere Ascending := by
  induction h with
  | @mk v here held ih =>
      cases v with
      | float x =>
          rw [ordered]
          split_ifs
          · exact .scalar trivial rfl
          · exact .scalar trivial rfl
      | arr items =>
          rw [ordered, orderedItems_eq]
          refine .mk trivial ?_
          intro u hu
          obtain ⟨v, hv, rfl⟩ := List.mem_map.mp hu
          exact ih v hv
      | obj d =>
          rw [ordered, orderedMembers_eq]
          refine .mk (byKey_pairwise _) ?_
          intro u hu
          obtain ⟨m, hm, rfl⟩ := List.mem_map.mp hu
          obtain ⟨m', hm', rfl⟩ := List.mem_map.mp ((byKey_perm _).mem_iff.mp hm)
          exact ih m'.2 (List.mem_map_of_mem hm')
      | _ => exact .scalar trivial rfl

/-- Canonical JSON is injective and stable: a plain value that can be spelled and nests no
deeper than the levels comes back from its bytes; plain values with the same bytes are
equal; and what was read from the bytes of a value is written as the same bytes, with its
keys in order at every depth. -/
theorem canonical_json (py : Interp) (writer reader : ℕ) :
    (∀ v : Json, v.Everywhere Plain → v.Everywhere Spellable → v.fits writer = true →
      v.fits reader = true → ∃ raw w, canonicalize py writer v = .ok raw ∧
        parse reader raw = .ok w ∧ Json.Same v w) ∧
    (∀ (v w : Json) (raw : Bytes), v.Everywhere Plain → w.Everywhere Plain →
      canonicalize py writer v = .ok raw → canonicalize py writer w = .ok raw →
      Json.Same v w) ∧
    (∀ (v : Json) (raw : Bytes), v.Everywhere (Sound py) → canonicalize py writer v = .ok raw →
      v.fits reader = true → ∃ w, parse reader raw = .ok w ∧
        canonicalize py writer w = .ok raw ∧ w.Everywhere Ascending) := by
  refine ⟨?_, ?_, ?_⟩
  · intro v hplain hspell hw hr
    have hwritable : v.Everywhere (Writable py) :=
      (hplain.and hspell).imp fun _ h => Plain.writable h
    obtain ⟨raw, hraw, hparse⟩ := parse_canonicalize hw hr hwritable
    exact ⟨raw, ordered v, hraw, hparse, same_ordered (hplain.imp fun _ h => h.exact)⟩
  · intro v w raw hv hw hraw hraw'
    exact same_of_canonicalize (hv.imp fun _ h => h.exact) (hw.imp fun _ h => h.exact) hraw hraw'
  · intro v raw hv hraw hr
    refine ⟨ordered v, parse_of_canonicalize hv hraw hr, ?_, ascending_ordered hv⟩
    rw [canonicalize_ordered, hraw]

/-- A dictionary whose keys stand in another order than that of their code units. -/
def unsorted : Json := .obj [("b", .arr [.int 2, .null]), ("a", .str "x")]

theorem unsorted_everywhere {p : Json → Prop} (hint : p (.int 2)) (hnull : p .null)
    (harr : p (.arr [.int 2, .null])) (hstr : p (.str "x")) (hobj : p unsorted) :
    unsorted.Everywhere p := by
  refine .mk hobj ?_
  intro u hu
  rcases List.mem_cons.mp hu with rfl | hu
  · refine .mk harr ?_
    intro w hw
    rcases List.mem_cons.mp hw with rfl | hw
    · exact .scalar hint rfl
    · obtain rfl := List.mem_singleton.mp hw
      exact .scalar hnull rfl
  · obtain rfl := List.mem_singleton.mp hu
    exact .scalar hstr rfl

theorem canonical_json_sample :
    ∃ raw w, canonicalize Interp.plain 2 unsorted = .ok raw ∧ parse 2 raw = .ok w ∧
      Json.Same unsorted w ∧ canonicalize Interp.plain 2 w = .ok raw ∧
      w.Everywhere Ascending := by
  have hobj : Plain unsorted :=
    ⟨by decide, fun m hm => noSurrogate_of_isAscii (by revert m; decide)⟩
  have hplain : unsorted.Everywhere Plain :=
    unsorted_everywhere trivial trivial trivial (noSurrogate_of_isAscii (by decide)) hobj
  have hdigits : (natText (2 : ℤ).natAbs).length ≤ PyStr.maxIntDigits := by decide
  have hspell : unsorted.Everywhere Spellable :=
    unsorted_everywhere hdigits trivial trivial trivial trivial
  obtain ⟨hback, -, hstable⟩ := canonical_json Interp.plain 2 2
  obtain ⟨raw, w, hraw, hparse, hsame⟩ := hback unsorted hplain hspell (by decide) (by decide)
  obtain ⟨w', hparse', hagain, hkeys⟩ :=
    hstable unsorted raw (hplain.imp fun _ h => h.exact.sound) hraw (by decide)
  cases hparse.symm.trans hparse'
  exact ⟨raw, w, hraw, hparse, hsame, hagain, hkeys⟩

/-- An integer of too many digits is not written. -/
theorem canonicalize_long_int :
    (Json.int (10 ^ 4300)).Everywhere Plain ∧
      ∀ (py : Interp) (writer : ℕ) (raw : Bytes),
        canonicalize py writer (.int (10 ^ 4300)) ≠ .ok raw := by
  refine ⟨.scalar trivial rfl, ?_⟩
  intro py writer raw h
  obtain ⟨t, ht, -⟩ := bind_eq_ok.mp h
  rw [serialize, jsonInt] at ht
  split_ifs at ht with hlen
  exact length_natText_pow (by decide) hlen

end Signal402.Jcs
