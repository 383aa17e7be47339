import Mathlib.Data.List.Infix
import Signal402.Base.Hex
import Signal402.Pq.AnchorNote

/-!
# Signed checkpoints (`pq/checkpoint.py`)

A note is a text, a blank line, and signature lines.  `signNote` signs the text of a
checkpoint; `verifySignedNote` splits a note at its last blank line, takes the first signature
of the trusted key, and parses the text that was signed.

Ed25519 is no part of the source: `Ed25519` has its functions, and `Ed25519.Lawful` what is
assumed of them.

* `parseSignedNote_signNote`, `vkeyParse_vkeyEncode` — what was written is parsed.
* `signed_checkpoints` — a signed checkpoint is verified and comes back; and what comes back
  from any note stands in the first three lines of the text whose signature was checked.
-/

namespace Signal402.Checkpoint

open AnchorNote
open Sha256 (sha256)

/-! ## Signatures -/

/-- The functions of Ed25519, on private keys, public keys and signatures. -/
structure Ed25519 (Key : Type) where
  publicKey : Key → Bytes
  sign : Key → Bytes → Bytes
  verify : Bytes → Bytes → Bytes → Bool

/-- What is assumed of them: the lengths, and that what a key signed is verified. -/
structure Ed25519.Lawful {Key : Type} (ed : Ed25519 Key) : Prop where
  length_publicKey : ∀ key, (ed.publicKey key).length = 32
  length_sign : ∀ key data, (ed.sign key data).length = 64
  verify_sign : ∀ key data, ed.verify (ed.publicKey key) (ed.sign key data) data = true

/-! ## Keys -/

/-- `SIG_ED25519`. -/
def sigEd25519 : UInt8 := 0x01

def emdash : CodePoint := ⟨0x2014, by decide⟩

def space : CodePoint := CodePoint.ofChar ' '

def plus : CodePoint := CodePoint.ofChar '+'

/-- `ORIGIN`. -/
def logOrigin : PyStr := "402signal.com/pq/log"

def keyId (name : PyStr) (sigType : UInt8) (publicKey : Bytes) : Except PyError Bytes :=
  (utf8Encode name).map fun raw => (sha256 (raw ++ 10 :: sigType :: publicKey)).take 4

def vkeyEncode (name : PyStr) (publicKey : Bytes) (sigType : UInt8) : Except PyError PyStr :=
  (keyId name sigType publicKey).map fun kid =>
    name ++ plus :: (hexText kid ++ plus :: b64encode (sigType :: publicKey))

/-- What `vkey_parse` returns. -/
structure Vkey where
  name : PyStr
  keyId : Bytes
  sigType : UInt8
  publicKey : Bytes

/-- The parts of a key around its first two plus signs. -/
def vkeyParts (raw : PyStr) : Option (PyStr × PyStr × PyStr) :=
  let name := raw.takeWhile (· ≠ plus)
  let rest := (raw.dropWhile (· ≠ plus)).drop 1
  let kid := rest.takeWhile (· ≠ plus)
  let blob := (rest.dropWhile (· ≠ plus)).drop 1
  if name = [] ∨ blob = [] then none else some (name, kid, blob)

/-- The fields of a key, from the bytes of its parts. -/
def vkeyFields (name : PyStr) (kid : Bytes) : Bytes → Except PyError Vkey
  | sigType :: pk =>
      if kid.length ≠ 4 ∨ pk = [] then .error (.valueError "invalid vkey")
      else if sigType = sigEd25519 ∧ pk.length ≠ 32 then
        .error (.valueError "invalid ed25519 vkey")
      else (keyId name sigType pk).bind fun id =>
        if id ≠ kid then .error (.valueError "vkey id mismatch")
        else .ok { name, keyId := kid, sigType, publicKey := pk }
  | [] => .error (.valueError "invalid vkey")

def vkeyParse (text : PyStr) : Except PyError Vkey :=
  match vkeyParts text.strip with
  | none => .error (.valueError "invalid vkey")
  | some (name, kidHex, blob64) =>
      match fromHex kidHex, b64decode blob64 with
      | some kid, some blob => vkeyFields name kid blob
      | _, _ => .error (.valueError "invalid vkey")

/-! ## Notes -/

/-- A text that ends with its last line. -/
def endLine (text : PyStr) : PyStr :=
  if text.getLast? = some newline then text else text ++ [newline]

/-- The line of a signature. -/
def signatureLine (name : PyStr) (raw : Bytes) : PyStr :=
  emdash :: space :: (name ++ space :: b64encode raw)

/-- `NOTE_LINE.match`: a dash, a name and a blob, each behind one space. -/
def noteLine : PyStr → Option (PyStr × PyStr)
  | dash :: sep :: rest =>
      let name := rest.takeWhile fun c => !PyStr.isSpace c
      match rest.dropWhile fun c => !PyStr.isSpace c with
      | sep' :: blob =>
          if dash = emdash ∧ sep = space ∧ name ≠ [] ∧ sep' = space ∧ blob ≠ [] ∧
              blob.all fun c => !PyStr.isSpace c then some (name, blob)
          else none
      | [] => none
  | _ => none

/-- A signature of a note. -/
structure NoteSig where
  name : PyStr
  keyId : Bytes
  payload : Bytes
  raw : Bytes

/-- A signature from its line. -/
def noteSig (line : PyStr) : Except PyError NoteSig :=
  match noteLine line with
  | none => .error (.valueError "invalid signature line")
  | some (name, blob) =>
      match b64decodeStrict blob with
      | none => .error (.valueError "invalid signature encoding")
      | some raw =>
          if raw.length < 4 + 64 then .error (.valueError "signature too short")
          else .ok { name, keyId := raw.take 4, payload := raw.drop 4, raw }

/-- The lines around the last blank one. -/
def splitLastBlank : List PyStr → Option (List PyStr × List PyStr)
  | [] => none
  | line :: rest =>
      match splitLastBlank rest with
      | some (text, sigs) => some (line :: text, sigs)
      | none => if line = [] then some ([], rest) else none

/-- What `parse_signed_note` returns. -/
structure SignedNote where
  text : PyStr
  signatures : List NoteSig
  note : PyStr

/-- The lines of a text, each with its end. -/
def joinLines (lines : List PyStr) : PyStr := lines.flatMap fun line => line ++ [newline]

def parseSignedNote (note : PyStr) : Except PyError SignedNote :=
  if note.any (·.val = 0) then .error (.valueError "invalid note")
  else if !PyStr.hasInfix note [emdash, space] then .error (.valueError "unsigned note")
  else
    -- the last part is empty: it stands behind the end of the last line
    match splitLastBlank ((endLine note).splitOn newline).dropLast with
    | none => .error (.valueError "missing signature separator")
    | some (textLines, sigLines) =>
        if textLines = [] then .error (.valueError "empty note text")
        else ((sigLines.filter (· ≠ [])).mapM noteSig).bind fun sigs =>
          if sigs.isEmpty then .error (.valueError "no signatures")
          else .ok { text := joinLines textLines, signatures := sigs, note := endLine note }

section Verify

variable {Key : Type} (ed : Ed25519 Key)

def signNote (body name : PyStr) (key : Key) : Except PyError PyStr :=
  let body := endLine body
  (keyId name sigEd25519 (ed.publicKey key)).bind fun kid =>
    (utf8Encode body).map fun raw =>
      body ++ newline :: (signatureLine name (kid ++ ed.sign key raw) ++ [newline])

def signCheckpoint (origin : PyStr) (treeSize : ℤ) (root : Bytes) (key : Key) :
    Except PyError PyStr :=
  let name := if origin = [] then logOrigin else origin
  (checkpointBody name treeSize root).bind fun body => signNote ed body name key

/-- The first signature of the key is one of the text. -/
def checkSignatures (key : Vkey) (text : PyStr) : List NoteSig → Except PyError Unit
  | [] => .error (.valueError "no signature from trusted log key")
  | sig :: rest =>
      if sig.name ≠ key.name ∨ sig.keyId ≠ key.keyId then checkSignatures key text rest
      else if sig.payload.length ≠ 64 then
        .error (.valueError "invalid ed25519 signature length")
      else (utf8Encode text).bind fun raw =>
        if ed.verify key.publicKey sig.payload raw then .ok ()
        else .error (.valueError "checkpoint signature failed")

/-- What `verify_signed_note` returns. -/
structure Verified where
  note : PyStr
  body : ParsedBody
  signatures : List NoteSig

def verifySignedNote (py : Interp) (note vkey : PyStr) : Except PyError Verified :=
  (parseSignedNote note).bind fun parsed =>
    (vkeyParse vkey).bind fun key =>
      if key.sigType ≠ sigEd25519 then
        .error (.valueError "log vkey must be ed25519 type 0x01")
      else (checkSignatures ed key parsed.text parsed.signatures).bind fun _ =>
        (parseCheckpointBody py parsed.text).map fun body =>
          { note := parsed.note, body, signatures := parsed.signatures }

end Verify

/-! ## Keys are parsed -/

section Mark

variable {α : Type} {p : α → Bool} {front back : List α} {mark : α}

/-- What stands in front of the first mark. -/
theorem takeWhile_mark (hfront : ∀ a ∈ front, p a = true) (hmark : p mark = false) :
    (front ++ mark :: back).takeWhile p = front := by
  rw [List.takeWhile_append_of_pos hfront, List.takeWhile_cons_of_neg (by simp [hmark]),
    List.append_nil]

/-- What stands from the first mark on. -/
theorem dropWhile_mark (hfront : ∀ a ∈ front, p a = true) (hmark : p mark = false) :
    (front ++ mark :: back).dropWhile p = mark :: back := by
  rw [List.dropWhile_append_of_pos hfront, List.dropWhile_cons_of_neg (by simp [hmark])]

end Mark

theorem vkeyParts_eq {name kid blob : PyStr} (hname : plus ∉ name) (hkid : plus ∉ kid)
    (hne : name ≠ []) (hblob : blob ≠ []) :
    vkeyParts (name ++ plus :: (kid ++ plus :: blob)) = some (name, kid, blob) := by
  have hother : ∀ s : PyStr, plus ∉ s → ∀ c ∈ s, decide (c ≠ plus) = true := by
    intro s hs c hc
    exact decide_eq_true fun h => hs (h ▸ hc)
  have hmark : decide (plus ≠ plus) = false := by simp
  unfold vkeyParts
  rw [takeWhile_mark (hother name hname) hmark, dropWhile_mark (hother name hname) hmark]
  simp only [List.drop_one, List.tail_cons]
  rw [takeWhile_mark (hother kid hkid) hmark, dropWhile_mark (hother kid hkid) hmark]
  simp only [List.tail_cons, hne, hblob, or_self, ↓reduceIte]

/-- A name that can stand in a note: not empty, and without white space, NUL, plus signs and
surrogates. -/
structure PlainName (name : PyStr) : Prop where
  ne_nil : name ≠ []
  space : ∀ c ∈ name, PyStr.isSpace c = false
  nul : ∀ c ∈ name, c.val ≠ 0
  plus : plus ∉ name
  surrogate : ∀ c ∈ name, c.isSurrogate = false

theorem isSpace_of_between {c : CodePoint} (h : 0x21 ≤ c.val) (h' : c.val < 0x7F) :
    PyStr.isSpace c = false := by
  have hall : ∀ n : Fin 0x7F, 0x21 ≤ n.val →
      PyStr.isSpace ⟨n.val, n.isLt.trans (by decide)⟩ = false := by decide
  exact hall ⟨c.val, h'⟩ h

section Names

variable {name : PyStr}

theorem keyId_eq_ok (h : PlainName name) (sigType : UInt8) (pk : Bytes) :
    keyId name sigType pk =
      .ok ((sha256 (utf8Bytes name ++ 10 :: sigType :: pk)).take 4) := by
  have hencode : utf8Encode name = .ok (utf8Bytes name) := by
    rw [utf8Encode_eq_ok]
    refine ⟨?_, rfl⟩
    rw [List.any_eq_false]
    intro c hc
    rw [h.surrogate c hc]
    exact Bool.false_ne_true
  rw [keyId, hencode]
  rfl

/-- A key is parsed. -/
theorem vkeyParse_vkeyEncode (h : PlainName name) {pk : Bytes} (hpk : pk.length = 32) :
    ∃ vkey kid, keyId name sigEd25519 pk = .ok kid ∧ kid.length = 4 ∧
      vkeyEncode name pk sigEd25519 = .ok vkey ∧
        vkeyParse vkey = .ok ⟨name, kid, sigEd25519, pk⟩ := by
  have hid := keyId_eq_ok h sigEd25519 pk
  generalize hkid : (sha256 (utf8Bytes name ++ 10 :: sigEd25519 :: pk)).take 4 = kid at hid
  have hlength : kid.length = 4 := by
    rw [← hkid, List.length_take, length_sha256]
    rfl
  refine ⟨name ++ plus :: (hexText kid ++ plus :: b64encode (sigEd25519 :: pk)), kid, hid, hlength,
    by rw [vkeyEncode, hid]; rfl, ?_⟩
  have hhex : ∀ c ∈ hexText kid, PyStr.isSpace c = false ∧ c ≠ plus := by
    intro c hc
    have hchar := hexText_mem hc
    simp only [PyStr.isHexChar, PyStr.isDigitChar, Bool.or_eq_true, Bool.and_eq_true,
      decide_eq_true_eq] at hchar
    refine ⟨isSpace_of_between (by omega) (by omega), ?_⟩
    rintro rfl
    have hplus : plus.val = 0x2B := by decide
    omega
  have hstrip : PyStr.strip (name ++ plus :: (hexText kid ++ plus ::
      b64encode (sigEd25519 :: pk))) = name ++ plus :: (hexText kid ++ plus ::
        b64encode (sigEd25519 :: pk)) := by
    apply PyStr.strip_eq_self
    intro c hc
    simp only [List.mem_append, List.mem_cons] at hc
    rcases hc with hc | rfl | hc | rfl | hc
    · exact h.space c hc
    · decide
    · exact (hhex c hc).1
    · decide
    · exact (b64encode_plain _ c hc).2
  have hne : pk ≠ [] := by
    rintro rfl
    cases hpk
  rw [vkeyParse, hstrip, vkeyParts_eq h.plus (fun hmem => (hhex plus hmem).2 rfl) h.ne_nil
    (b64encode_ne_nil (List.cons_ne_nil _ _))]
  simp only [fromHex_hexText, b64decode_b64encode, vkeyFields, hlength, hne, hpk, hid, Except.bind,
    ne_eq, not_true_eq_false, or_self, and_false, ↓reduceIte]

end Names

/-! ## Notes are parsed -/

theorem endLine_concat (s : PyStr) : endLine (s ++ [newline]) = s ++ [newline] := by
  rw [endLine, List.getLast?_concat, if_pos rfl]

theorem joinLines_append (lines rest : List PyStr) :
    joinLines (lines ++ rest) = joinLines lines ++ joinLines rest :=
  List.flatMap_append

theorem endLine_joinLines {lines : List PyStr} (h : lines ≠ []) :
    endLine (joinLines lines) = joinLines lines := by
  rw [← List.dropLast_append_getLast h, joinLines_append]
  have hlast : joinLines [lines.getLast h] = lines.getLast h ++ [newline] := by
    rw [joinLines, List.flatMap_singleton]
  rw [hlast, ← List.append_assoc]
  exact endLine_concat _

theorem joinLines_eq_intercalate {lines : List PyStr} (h : lines ≠ []) :
    joinLines lines = [newline].intercalate lines ++ [newline] := by
  induction lines with
  | nil => exact absurd rfl h
  | cons line rest ih =>
      rw [joinLines, List.flatMap_cons, ← joinLines]
      cases rest with
      | nil => simp [joinLines]
      | cons next rest =>
          rw [ih (List.cons_ne_nil _ _), List.intercalate_cons_cons]
          simp only [List.append_assoc]

/-- A text that ends with its last line is made of its lines. -/
theorem joinLines_splitOn (s : PyStr) :
    joinLines ((endLine s).splitOn newline).dropLast = endLine s := by
  obtain ⟨t, ht⟩ : ∃ t, endLine s = t ++ [newline] := by
    unfold endLine
    split_ifs with hlast
    · exact ⟨s.dropLast, (List.dropLast_append_getLast? newline hlast).symm⟩
    · exact ⟨s, rfl⟩
  have hsplit : (t ++ [newline]).splitOn newline = t.splitOn newline ++ [[]] := by
    rw [List.splitOn_eq_splitOnP, List.splitOnP_append_cons t [] (by simp), List.splitOnP_nil,
      List.splitOn_eq_splitOnP]
  have hne : t.splitOn newline ≠ [] := by
    rw [List.splitOn_eq_splitOnP]
    exact List.splitOnP_ne_nil _ t
  rw [ht, hsplit, List.dropLast_concat, joinLines_eq_intercalate hne, List.intercalate_splitOn]

/-- The lines of a text. -/
theorem splitOn_joinLines {lines : List PyStr} (h : ∀ line ∈ lines, newline ∉ line) :
    (joinLines lines).splitOn newline = lines ++ [[]] := by
  have hjoin : joinLines lines = [newline].intercalate (lines ++ [[]]) := by
    induction lines with
    | nil => rfl
    | cons line rest ih =>
        have ih := ih fun l hl => h l (List.mem_cons_of_mem line hl)
        rw [joinLines, List.flatMap_cons, ← joinLines, ih]
        cases rest with
        | nil => simp
        | cons next rest => simp [List.intercalate_cons_cons]
  rw [hjoin, List.splitOn_intercalate newline _ (by simp)]
  intro line hline
  rcases List.mem_append.mp hline with hline | hline
  · exact h line hline
  · rw [List.mem_singleton.mp hline]
    exact List.not_mem_nil

theorem splitLastBlank_eq {text sigs : List PyStr} (h : [] ∉ sigs) :
    splitLastBlank (text ++ [] :: sigs) = some (text, sigs) := by
  have hnone : ∀ lines : List PyStr, [] ∉ lines → splitLastBlank lines = none := by
    intro lines hlines
    induction lines with
    | nil => rfl
    | cons line rest ih =>
        rw [List.mem_cons, not_or] at hlines
        rw [splitLastBlank, ih hlines.2, if_neg fun h => hlines.1 h.symm]
  induction text with
  | nil => rw [List.nil_append, splitLastBlank, hnone sigs h, if_pos rfl]
  | cons line text ih => rw [List.cons_append, splitLastBlank, ih]

theorem splitLastBlank_eq_some {lines text sigs : List PyStr}
    (h : splitLastBlank lines = some (text, sigs)) : lines = text ++ [] :: sigs := by
  induction lines generalizing text with
  | nil => cases h
  | cons line rest ih =>
      rw [splitLastBlank] at h
      cases hrest : splitLastBlank rest with
      | none =>
          rw [hrest] at h
          simp only at h
          split_ifs at h with hline
          cases h
          rw [hline, List.nil_append]
      | some parts =>
          obtain ⟨text', sigs'⟩ := parts
          rw [hrest] at h
          cases h
          rw [ih hrest, List.cons_append]

/-- No line behind the last blank one is blank. -/
theorem splitLastBlank_last {lines text sigs : List PyStr}
    (h : splitLastBlank lines = some (text, sigs)) : [] ∉ sigs := by
  have hnone : ∀ lines : List PyStr, splitLastBlank lines = none → [] ∉ lines := by
    intro lines hlines
    induction lines with
    | nil => exact List.not_mem_nil
    | cons line rest ih =>
        rw [splitLastBlank] at hlines
        cases hrest : splitLastBlank rest with
        | some parts =>
            rw [hrest] at hlines
            cases hlines
        | none =>
            rw [hrest] at hlines
            simp only at hlines
            split_ifs at hlines with hline
            rw [List.mem_cons, not_or]
            exact ⟨fun h => hline h.symm, ih hrest⟩
  induction lines generalizing text with
  | nil => cases h
  | cons line rest ih =>
      rw [splitLastBlank] at h
      cases hrest : splitLastBlank rest with
      | none =>
          rw [hrest] at h
          simp only at h
          split_ifs at h with hline
          cases h
          exact hnone _ hrest
      | some parts =>
          obtain ⟨text', sigs'⟩ := parts
          rw [hrest] at h
          cases h
          exact ih hrest

/-- The line of a signature is read. -/
theorem noteLine_signatureLine {name : PyStr} (h : PlainName name) {raw : Bytes} (hraw : raw ≠ []) :
    noteLine (signatureLine name raw) = some (name, b64encode raw) := by
  have hname : ∀ c ∈ name, (!PyStr.isSpace c) = true := fun c hc => by rw [h.space c hc]; rfl
  have hblob : (b64encode raw).all (fun c => !PyStr.isSpace c) = true := by
    rw [List.all_eq_true]
    intro c hc
    rw [(b64encode_plain raw c hc).2]
    rfl
  have hspace : (!PyStr.isSpace space) = false := by decide
  rw [signatureLine, noteLine, takeWhile_mark hname hspace, dropWhile_mark hname hspace]
  simp only [h.ne_nil, b64encode_ne_nil hraw, hblob, ne_eq, not_false_eq_true, and_self, ↓reduceIte]

/-- A signature is read from its line. -/
theorem noteSig_signatureLine {name : PyStr} (h : PlainName name) {kid sig : Bytes}
    (hkid : kid.length = 4) (hsig : sig.length = 64) :
    noteSig (signatureLine name (kid ++ sig)) = .ok ⟨name, kid, sig, kid ++ sig⟩ := by
  have hlength : (kid ++ sig).length = 68 := by rw [List.length_append, hkid, hsig]
  have hne : kid ++ sig ≠ [] := by
    intro hnil
    rw [hnil] at hlength
    cases hlength
  have htake : (kid ++ sig).take 4 = kid := by rw [← hkid, List.take_left]
  have hdrop : (kid ++ sig).drop 4 = sig := by rw [← hkid, List.drop_left]
  rw [noteSig, noteLine_signatureLine h hne]
  simp only [b64decodeStrict_b64encode, hlength, htake, hdrop]
  rfl

theorem hasInfix_middle (front middle back : PyStr) :
    PyStr.hasInfix (front ++ middle ++ back) middle = true := by
  rw [PyStr.hasInfix, List.any_eq_true]
  refine ⟨middle ++ back, (List.mem_tails _ _).mpr ⟨front, (List.append_assoc ..).symm⟩, ?_⟩
  rw [List.isPrefixOf_iff_prefix]
  exact List.prefix_append middle back

/-- A text that is made of lines, and the lines of a note. -/
theorem parseSignedNote_joinLines {name : PyStr} (h : PlainName name) {lines : List PyStr}
    (hne : lines ≠ []) (hline : ∀ line ∈ lines, newline ∉ line)
    (hnul : ∀ line ∈ lines, ∀ c ∈ line, c.val ≠ 0) {kid sig : Bytes} (hkid : kid.length = 4)
    (hsig : sig.length = 64) :
    parseSignedNote (joinLines (lines ++ [[], signatureLine name (kid ++ sig)])) =
      .ok ⟨joinLines lines, [⟨name, kid, sig, kid ++ sig⟩],
        joinLines (lines ++ [[], signatureLine name (kid ++ sig)])⟩ := by
  have hsigLine : newline ∉ signatureLine name (kid ++ sig) := by
    intro hmem
    simp only [signatureLine, List.mem_cons, List.mem_append] at hmem
    rcases hmem with hmem | hmem | hmem | hmem | hmem
    · exact absurd hmem (by decide)
    · exact absurd hmem (by decide)
    · exact absurd (h.space newline hmem) (by decide)
    · exact absurd hmem (by decide)
    · exact absurd (b64encode_plain _ newline hmem).2 (by decide)
  have hsigNe : signatureLine name (kid ++ sig) ≠ [] := List.cons_ne_nil _ _
  generalize hnote : lines ++ [[], signatureLine name (kid ++ sig)] = all
  have hall : ∀ line ∈ all, newline ∉ line := by
    intro line hmem
    rw [← hnote, List.mem_append] at hmem
    rcases hmem with hmem | hmem
    · exact hline line hmem
    · rcases List.mem_cons.mp hmem with rfl | hmem
      · exact List.not_mem_nil
      · rw [List.mem_singleton.mp hmem]
        exact hsigLine
  have hend : endLine (joinLines all) = joinLines all := by
    apply endLine_joinLines
    rw [← hnote]
    simp
  have hzero : (joinLines all).any (·.val = 0) = false := by
    have hsigNul : ∀ c ∈ signatureLine name (kid ++ sig), c.val ≠ 0 := by
      intro c hc
      simp only [signatureLine, List.mem_cons, List.mem_append] at hc
      rcases hc with rfl | rfl | hc | rfl | hc
      · decide
      · decide
      · exact h.nul c hc
      · decide
      · exact b64encode_ne_nul hc
    have hallNul : ∀ line ∈ all, ∀ c ∈ line, c.val ≠ 0 := by
      rw [← hnote]
      simp only [List.mem_append, List.mem_cons, List.not_mem_nil, or_false]
      rintro line (hmem | rfl | rfl)
      · exact hnul line hmem
      · exact fun c hc => absurd hc List.not_mem_nil
      · exact hsigNul
    rw [List.any_eq_false]
    intro c hc
    obtain ⟨line, hmem, hc⟩ := List.mem_flatMap.mp hc
    rw [List.mem_append, List.mem_singleton] at hc
    rw [decide_eq_true_eq]
    rcases hc with hc | rfl
    · exact hallNul line hmem c hc
    · decide
  have hdash : PyStr.hasInfix (joinLines all) [emdash, space] = true := by
    have hparts : joinLines all = joinLines (lines ++ [[]]) ++ [emdash, space] ++
        (name ++ space :: b64encode (kid ++ sig) ++ [newline]) := by
      rw [← hnote, show lines ++ [[], signatureLine name (kid ++ sig)] =
        lines ++ [[]] ++ [signatureLine name (kid ++ sig)] by simp, joinLines_append]
      simp [joinLines, signatureLine]
    rw [hparts]
    exact hasInfix_middle _ _ _
  have hsplit : splitLastBlank ((joinLines all).splitOn newline).dropLast =
      some (lines, [signatureLine name (kid ++ sig)]) := by
    rw [splitOn_joinLines hall, List.dropLast_concat, ← hnote]
    apply splitLastBlank_eq
    rw [List.mem_singleton]
    exact fun h => hsigNe h.symm
  have hsigs : ([signatureLine name (kid ++ sig)].filter (· ≠ [])).mapM noteSig =
      .ok [⟨name, kid, sig, kid ++ sig⟩] := by
    rw [List.filter_cons_of_pos (by simpa using hsigNe), List.filter_nil, List.mapM_cons,
      noteSig_signatureLine h hkid hsig]
    rfl
  rw [parseSignedNote, hzero, if_neg Bool.false_ne_true, hdash, hend, hsplit]
  simp only [hne, hsigs, Except.bind]
  rfl

/-! ## What is verified -/

theorem threeLines_eq (a b c : PyStr) : threeLines a b c = joinLines [a, b, c] := by
  simp [threeLines, joinLines]

/-- The lines of a checkpoint have no line ends, no NUL and no surrogates. -/
theorem checkpoint_lines {origin : PyStr} (h : PlainName origin) (n : ℕ) (root : Bytes) :
    ∀ line ∈ [origin, natText n, b64encode root], newline ∉ line ∧
      ∀ c ∈ line, c.val ≠ 0 ∧ c.isSurrogate = false := by
  have hascii : ∀ c : CodePoint, c.val < 128 → c.isSurrogate = false := by
    intro c hc
    rw [isSurrogate_eq_false]
    omega
  simp only [List.forall_mem_cons]
  refine ⟨⟨newline_notMem_plain h.space, fun c hc => ⟨h.nul c hc, h.surrogate c hc⟩⟩,
    ⟨?_, ?_⟩, ⟨?_, ?_⟩, by simp⟩
  · intro hmem
    exact absurd (isDigitChar_of_mem_natText hmem) (by decide)
  · intro c hc
    have hdigit := isDigitChar_iff.mp (isDigitChar_of_mem_natText hc)
    exact ⟨by omega, hascii c (by omega)⟩
  · exact newline_notMem_plain fun c hc => (b64encode_plain root c hc).2
  · exact fun c hc => ⟨b64encode_ne_nul hc, hascii c (b64encode_plain root c hc).1⟩

section Verify

variable {Key : Type} {ed : Ed25519 Key}

/-- A signed checkpoint is verified, and comes back. -/
theorem verifySignedNote_signCheckpoint (py : Interp) (hed : ed.Lawful) (key : Key)
    {origin : PyStr} (h : PlainName origin) {n : ℕ} (hn : n < 10 ^ PyStr.maxIntDigits)
    {root : Bytes} (hroot : root.length = 32) :
    ∃ note vkey out, signCheckpoint ed origin n root key = .ok note ∧
      vkeyEncode origin (ed.publicKey key) sigEd25519 = .ok vkey ∧
        verifySignedNote ed py note vkey = .ok out ∧ out.body.origin = origin ∧
          out.body.treeSize = n ∧ out.body.root = root := by
  obtain ⟨vkey, kid, hkid, hlength, hvkey, hparse⟩ :=
    vkeyParse_vkeyEncode h (hed.length_publicKey key)
  have hline : newline ∉ origin := newline_notMem_plain h.space
  have hbody := checkpointBody_eq_ok h.ne_nil hline hn hroot
  have hparsed := parseCheckpointBody_threeLines py h.ne_nil hline hn hroot
  have hlines := checkpoint_lines h n root
  generalize hlist : [origin, natText n, b64encode root] = lines at hlines
  have htext : threeLines origin (natText n) (b64encode root) = joinLines lines := by
    rw [threeLines_eq, hlist]
  have hne : lines ≠ [] := by
    rw [← hlist]
    exact List.cons_ne_nil _ _
  have hencode : utf8Encode (joinLines lines) = .ok (utf8Bytes (joinLines lines)) := by
    rw [utf8Encode_eq_ok]
    refine ⟨?_, rfl⟩
    rw [List.any_eq_false]
    intro c hc
    obtain ⟨line, hmem, hc⟩ := List.mem_flatMap.mp hc
    rw [List.mem_append, List.mem_singleton] at hc
    rcases hc with hc | rfl
    · rw [((hlines line hmem).2 c hc).2]
      exact Bool.false_ne_true
    · decide
  generalize utf8Bytes (joinLines lines) = data at hencode
  have hsigned := parseSignedNote_joinLines h hne (fun line hmem => (hlines line hmem).1)
    (fun line hmem c hc => ((hlines line hmem).2 c hc).1) hlength (hed.length_sign key data)
  have hnote : signCheckpoint ed origin n root key =
      .ok (joinLines (lines ++ [[], signatureLine origin (kid ++ ed.sign key data)])) := by
    rw [signCheckpoint, if_neg h.ne_nil, hbody, htext, Except.bind, signNote,
      endLine_joinLines hne, hkid, Except.bind, hencode, Except.map, joinLines_append]
    simp [joinLines]
  have hcheck : checkSignatures ed ⟨origin, kid, sigEd25519, ed.publicKey key⟩ (joinLines lines)
      [⟨origin, kid, ed.sign key data, kid ++ ed.sign key data⟩] = .ok () := by
    simp only [checkSignatures, ne_eq, not_true_eq_false, or_self, hed.length_sign, hencode,
      Except.bind, hed.verify_sign, ↓reduceIte]
  generalize joinLines (lines ++ [[], signatureLine origin (kid ++ ed.sign key data)]) = note
    at hsigned hnote
  rw [htext] at hparsed
  have hverify : verifySignedNote ed py note vkey =
      .ok ⟨note, ⟨origin, n, root, [], joinLines lines⟩,
        [⟨origin, kid, ed.sign key data, kid ++ ed.sign key data⟩]⟩ := by
    rw [verifySignedNote, hsigned, Except.bind, hparse, Except.bind]
    simp only [ne_eq, not_true_eq_false, ↓reduceIte, hcheck, Except.bind, hparsed, Except.map]
  exact ⟨note, vkey, _, hnote, hvkey, hverify, rfl, rfl, rfl⟩

theorem checkSignatures_eq_ok {key : Vkey} {text : PyStr} {sigs : List NoteSig}
    (h : checkSignatures ed key text sigs = .ok ()) :
    ∃ sig ∈ sigs, sig.name = key.name ∧ sig.keyId = key.keyId ∧ sig.payload.length = 64 ∧
      ∃ data, utf8Encode text = .ok data ∧ ed.verify key.publicKey sig.payload data = true := by
  induction sigs with
  | nil => cases h
  | cons sig rest ih =>
      rw [checkSignatures] at h
      split_ifs at h with hother hlength
      · obtain ⟨sig', hmem, hsig'⟩ := ih h
        exact ⟨sig', List.mem_cons_of_mem sig hmem, hsig'⟩
      · rw [not_or, not_not, not_not] at hother
        obtain ⟨data, hdata, hverify⟩ := bind_eq_ok.mp h
        refine ⟨sig, List.mem_cons_self, hother.1, hother.2, not_not.mp hlength, data, hdata, ?_⟩
        by_contra hfail
        rw [if_neg hfail] at hverify
        cases hverify

/-- What is parsed stands in the first three lines. -/
theorem parseCheckpointBody_eq_ok {py : Interp} {text : PyStr} {body : ParsedBody}
    (h : parseCheckpointBody py text = .ok body) :
    ∃ size hash rest, (endLine text).splitOn newline = body.origin :: size :: hash :: rest ∧
      py.int size = .ok body.treeSize ∧ b64decodeStrict hash = some body.root := by
  have hlast : (if text.getLast? = some newline then text else text ++ [newline]) =
      endLine text := rfl
  rw [parseCheckpointBody, hlast] at h
  simp only at h
  cases hsplit : (endLine text).splitOn newline with
  | nil =>
      rw [hsplit] at h
      cases h
  | cons origin lines =>
      rw [hsplit] at h
      rcases lines with _ | ⟨size, _ | ⟨hash, _ | ⟨extra, rest⟩⟩⟩
      · cases h
      · cases h
      · cases h
      · simp only at h
        split_ifs at h with horigin hdigits
        cases hroot : b64decodeStrict hash with
        | none =>
            rw [hroot] at h
            cases h
        | some root =>
            rw [hroot] at h
            simp only at h
            split_ifs at h with hlength
            obtain ⟨treeSize, hsize, rfl⟩ := map_eq_ok.mp h
            exact ⟨size, hash, extra :: rest, rfl, hsize, hroot⟩

/-- The text of a note is what stands in front of its last blank line. -/
theorem parseSignedNote_eq_ok {note : PyStr} {parsed : SignedNote}
    (h : parseSignedNote note = .ok parsed) :
    parsed.note = endLine note ∧ endLine parsed.text = parsed.text ∧
      ∃ sigLines : List PyStr, [] ∉ sigLines ∧
        endLine note = parsed.text ++ newline :: joinLines sigLines := by
  rw [parseSignedNote] at h
  split_ifs at h with hnul hdash
  cases hsplit : splitLastBlank ((endLine note).splitOn newline).dropLast with
  | none =>
      rw [hsplit] at h
      cases h
  | some parts =>
      obtain ⟨textLines, sigLines⟩ := parts
      rw [hsplit] at h
      simp only at h
      split_ifs at h with htext
      obtain ⟨sigs, hsigs, h⟩ := bind_eq_ok.mp h
      split_ifs at h with hempty
      cases h
      have hlines : joinLines (textLines ++ [] :: sigLines) = endLine note := by
        rw [← splitLastBlank_eq_some hsplit, joinLines_splitOn]
      refine ⟨rfl, endLine_joinLines htext, sigLines, splitLastBlank_last hsplit, ?_⟩
      rw [← hlines, joinLines_append]
      rfl

/-- Signed checkpoints come back and are what was verified: the signed checkpoint of a plain
name, a size that can be written out and a root is verified under the key, and its origin,
size and root are these; and whatever note is verified under whatever key, the text in front
of its last blank line has a signature of the key, and the origin, the size and the root
stand in the first three lines of that text. -/
theorem signed_checkpoints (py : Interp) {Key : Type} (ed : Ed25519 Key) (hed : ed.Lawful) :
    (∀ (key : Key) (origin : PyStr) (n : ℕ) (root : Bytes), PlainName origin →
      n < 10 ^ PyStr.maxIntDigits → root.length = 32 →
        ∃ note vkey out, signCheckpoint ed origin n root key = .ok note ∧
          vkeyEncode origin (ed.publicKey key) sigEd25519 = .ok vkey ∧
            verifySignedNote ed py note vkey = .ok out ∧ out.body.origin = origin ∧
              out.body.treeSize = n ∧ out.body.root = root) ∧
    (∀ (note vkey : PyStr) (out : Verified), verifySignedNote ed py note vkey = .ok out →
      ∃ (text : PyStr) (sigLines : List PyStr) (key : Vkey) (sig : NoteSig) (data : Bytes),
        (endLine note = text ++ newline :: joinLines sigLines ∧ [] ∉ sigLines) ∧
        vkeyParse vkey = .ok key ∧ sig ∈ out.signatures ∧ sig.name = key.name ∧
        sig.keyId = key.keyId ∧ utf8Encode text = .ok data ∧
        ed.verify key.publicKey sig.payload data = true ∧
        ∃ size hash rest, text.splitOn newline = out.body.origin :: size :: hash :: rest ∧
          py.int size = .ok out.body.treeSize ∧ b64decodeStrict hash = some out.body.root) := by
  refine ⟨?_, ?_⟩
  · intro key origin n root horigin hn hroot
    exact verifySignedNote_signCheckpoint py hed key horigin hn hroot
  · intro note vkey out h
    obtain ⟨parsed, hparsed, h⟩ := bind_eq_ok.mp h
    obtain ⟨key, hkey, h⟩ := bind_eq_ok.mp h
    split_ifs at h with htype
    obtain ⟨_, hcheck, h⟩ := bind_eq_ok.mp h
    obtain ⟨body, hbody, rfl⟩ := map_eq_ok.mp h
    obtain ⟨-, hend, sigLines, hlast, hnote⟩ := parseSignedNote_eq_ok hparsed
    obtain ⟨sig, hmem, hname, hid, -, data, hdata, hverify⟩ := checkSignatures_eq_ok hcheck
    obtain ⟨size, hash, rest, hlines, hsize, hroot⟩ := parseCheckpointBody_eq_ok hbody
    rw [hend] at hlines
    exact ⟨parsed.text, sigLines, key, sig, data, ⟨hnote, hlast⟩, hkey, hmem, hname, hid, hdata,
      hverify, size, hash, rest, hlines, hsize, hroot⟩

end Verify

/-! ## Samples -/

/-- The public key of the first test vector of Ed25519. -/
def samplePublicKey : Bytes :=
  [0xd7, 0x5a, 0x98, 0x01, 0x82, 0xb1, 0x0a, 0xb7, 0xd5, 0x4b, 0xfe, 0xd3, 0xc9, 0x64, 0x07, 0x3a,
    0x0e, 0xe1, 0x72, 0xf3, 0xda, 0xa6, 0x23, 0x25, 0xaf, 0x02, 0x1a, 0x68, 0xf7, 0x07, 0x51, 0x1a]

/-- Its signature of the checkpoint of size one with a root of zeros. -/
def sampleSignature : Bytes :=
  [0x47, 0x2e, 0x09, 0xf0, 0x87, 0x3b, 0x3d, 0x1f, 0x86, 0xf2, 0x3f, 0xe5, 0xee, 0xdf, 0xcd, 0x85,
    0xcf, 0x2f, 0x93, 0xa8, 0x06, 0x83, 0x94, 0xf4, 0x09, 0x15, 0x85, 0x3b, 0x3e, 0xdd, 0x25, 0x48,
    0x30, 0x45, 0xb6, 0xe0, 0x91, 0xd0, 0xa3, 0x93, 0x4f, 0xa1, 0xbd, 0xf6, 0x0e, 0xd8, 0x8b, 0xd0,
    0xbf, 0xe9, 0x15, 0xa6, 0xf8, 0x03, 0x85, 0x83, 0x09, 0x37, 0xe5, 0xa2, 0x6d, 0x35, 0xb9, 0x0f]

def sampleRoot : Bytes := List.replicate 32 0

/-- Ed25519 with one key, as it is on that checkpoint. -/
def sampleEd25519 : Ed25519 Unit :=
  let sign (data : Bytes) : Bytes :=
    if data = utf8Bytes (threeLines logOrigin "1" (b64encode sampleRoot)) then sampleSignature
    else List.replicate 64 0
  { publicKey _ := samplePublicKey
    sign _ data := sign data
    verify pk sig data := pk = samplePublicKey ∧ sig = sign data }

theorem lawful_sampleEd25519 : sampleEd25519.Lawful where
  length_publicKey _ := rfl
  length_sign _ data := by
    change (if data = utf8Bytes (threeLines logOrigin "1" (b64encode sampleRoot)) then
      sampleSignature else List.replicate 64 0).length = 64
    split_ifs <;> rfl
  verify_sign _ _ := decide_eq_true ⟨rfl, rfl⟩

theorem signed_checkpoints_sample :
    ∃ note vkey out, signCheckpoint sampleEd25519 logOrigin 1 sampleRoot () = .ok note ∧
      vkeyEncode logOrigin samplePublicKey sigEd25519 = .ok vkey ∧
        verifySignedNote sampleEd25519 Interp.plain note vkey = .ok out ∧
          out.body.origin = logOrigin ∧ out.body.treeSize = 1 ∧ out.body.root = sampleRoot := by
  have hall : logOrigin.all (fun c => decide (0x2D ≤ c.val) && decide (c.val < 0x7F)) = true := by
    decide
  have hbetween : ∀ c ∈ logOrigin, 0x2D ≤ c.val ∧ c.val < 0x7F := by
    intro c hc
    simpa using List.all_eq_true.mp hall c hc
  have horigin : PlainName logOrigin := by
    refine ⟨by decide, ?_, ?_, by decide, ?_⟩
    · intro c hc
      have := hbetween c hc
      exact isSpace_of_between (by omega) (by omega)
    · intro c hc
      have := hbetween c hc
      omega
    · intro c hc
      have := hbetween c hc
      rw [isSurrogate_eq_false]
      omega
  have hone : 1 < 10 ^ PyStr.maxIntDigits := lt_pow_digits (by decide)
  exact (signed_checkpoints Interp.plain sampleEd25519 lawful_sampleEd25519).1 () logOrigin 1
    sampleRoot horigin hone rfl

/-- A size of too many digits is not signed, nor is a name with a lone surrogate. -/
theorem checkpoints_unsigned :
    (∀ note, signCheckpoint sampleEd25519 logOrigin (10 ^ 4300) sampleRoot () ≠ .ok note) ∧
      ∀ note, signCheckpoint sampleEd25519 [⟨0xD800, by decide⟩] 1 sampleRoot () ≠ .ok note := by
  refine ⟨?_, ?_⟩
  · intro note h
    rw [signCheckpoint, if_neg (by decide)] at h
    obtain ⟨body, hbody, -⟩ := bind_eq_ok.mp h
    rw [checkpointBody, if_neg (by decide), if_neg (not_lt.mpr (by positivity)),
      if_neg (by decide)] at hbody
    obtain ⟨size, hsize, -⟩ := bind_eq_ok.mp hbody
    rw [jsonInt] at hsize
    split_ifs at hsize with hlen
    exact length_natText_pow (by decide) hlen
  · intro note h
    rw [signCheckpoint, if_neg (by decide)] at h
    obtain ⟨body, -, hsign⟩ := bind_eq_ok.mp h
    unfold signNote at hsign
    obtain ⟨kid, hkid, -⟩ := bind_eq_ok.mp hsign
    cases hkid

end Signal402.Checkpoint
