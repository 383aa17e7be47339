import Signal402.Base.Base64
import Signal402.Base.Decimal
import Signal402.Base.JsonText
import Signal402.Base.Utf8
import Signal402.Lib.BigEndian
import Signal402.Pq.Merkle

/-!
# Anchor notes (`pq/algo_anchor.py`, `pq/checkpoint.py`)

The text of a checkpoint, the 84 bytes that anchor it, and the way from the one to the
other and back.  A note has the hash of the origin only, so that the text is made from a
note and an origin.
-/

namespace Signal402.AnchorNote

open Merkle (hashSize)
open Sha256 (sha256)

def newline : CodePoint := CodePoint.ofChar '\n'

def noteFormat : PyStr := "402sg/pq1:b"

/-- `NOTE_PREFIX`. -/
def notePrefix : Bytes := noteFormat.map fun c => UInt8.ofNat c.val

def noteVersion : UInt8 := 1

def noteLen : ℕ := 84

def anchorError (msg : String) : PyError := ⟨.anchorError, msg⟩

/-! ## The text of a checkpoint -/

/-- `"%s\n%s\n%s\n"`. -/
def threeLines (a b c : PyStr) : PyStr :=
  a ++ newline :: (b ++ newline :: (c ++ [newline]))

def checkpointBody (origin : PyStr) (treeSize : ℤ) (root : Bytes) : Except PyError PyStr :=
  if origin = [] ∨ newline ∈ origin then .error (.valueError "invalid origin")
  else if treeSize < 0 then .error (.valueError "negative tree size")
  else if root.length ≠ hashSize then .error (.valueError "root must be 32 bytes")
  else (jsonInt treeSize).bind fun size =>
    if size ≠ "0" ∧ PyStr.startsWith size "0" then
      .error (.valueError "tree size leading zeroes")
    else .ok (threeLines origin size (b64encode root))

/-- What `parse_checkpoint_body` returns. -/
structure ParsedBody where
  origin : PyStr
  treeSize : ℤ
  root : Bytes
  extensions : List PyStr
  text : PyStr

def parseCheckpointBody (py : Interp) (text : PyStr) : Except PyError ParsedBody :=
  let raw := if text.getLast? = some newline then text else text ++ [newline]
  match raw.splitOn newline with
  | origin :: size :: hash :: extra :: rest =>
      if origin = [] then .error (.valueError "empty origin")
      else if !py.isDigit size || (PyStr.startsWith size "0" && size != "0") then
        .error (.valueError "invalid tree size")
      else
        match b64decodeStrict hash with
        | none => .error (.valueError "invalid root hash")
        | some root =>
            if root.length ≠ hashSize then .error (.valueError "root must be 32 bytes")
            else
              let extensions := ((extra :: rest).dropLast).filter fun line => !line.isEmpty
              (py.int size).map fun treeSize =>
                { origin, treeSize, root, extensions
                  text := threeLines origin size hash ++
                    extensions.flatMap fun line => line ++ [newline] }
  | _ => .error (.valueError "checkpoint body too short")

/-! ## The note -/

def originHash (origin : PyStr) : Except PyError Bytes :=
  (utf8Encode (origin.filter (· ≠ newline))).map sha256

/-- The layout of a note. -/
def noteBytes (originHash : Bytes) (treeSize : ℕ) (root : Bytes) : Bytes :=
  notePrefix ++ [noteVersion] ++ originHash ++ BigEndian.encode 8 treeSize ++ root

def encodeNote (origin : PyStr) (treeSize : ℤ) (root : Bytes) : Except PyError Bytes :=
  if treeSize < 0 then .error (anchorError "negative tree size")
  else if root.length ≠ hashSize then .error (anchorError "root must be 32 bytes")
  else (originHash origin).bind fun hash =>
    if 2 ^ 64 ≤ treeSize then .error ⟨.overflowError, "int too big to convert"⟩
    else
      let note := noteBytes hash treeSize.toNat root
      if note.length ≠ noteLen then .error (anchorError "note must be 84 bytes") else .ok note

/-- What `decode_note` returns. -/
structure DecodedNote where
  format : PyStr
  version : UInt8
  originHash : Bytes
  treeSize : ℕ
  root : Bytes
  deriving DecidableEq

def decodeNote (note : Bytes) : Except PyError DecodedNote :=
  if note.length ≠ noteLen then .error (anchorError "note must be 84 bytes")
  else if slice note 0 11 ≠ notePrefix ∨ slice note 11 12 ≠ [noteVersion] then
    .error (anchorError "unknown note format")
  else .ok ⟨noteFormat, noteVersion, slice note 12 44, BigEndian.decode (slice note 44 52),
    slice note 52 84⟩

/-- Round-trip: note + origin → C2SP checkpoint body. -/
def c2spBodyFromNote (note : Bytes) (origin : PyStr) : Except PyError PyStr :=
  (decodeNote note).bind fun parsed =>
    (originHash origin).bind fun hash =>
      if parsed.originHash ≠ hash then .error (anchorError "origin hash mismatch")
      else checkpointBody origin parsed.treeSize parsed.root

def noteFromCheckpointBody (py : Interp) (bodyText : PyStr) : Except PyError Bytes :=
  (parseCheckpointBody py bodyText).bind fun parsed =>
    encodeNote parsed.origin parsed.treeSize parsed.root

/-! ## The layout -/

theorem length_notePrefix : notePrefix.length = 11 := rfl

theorem length_noteBytes {hash root : Bytes} (hhash : hash.length = 32) (hroot : root.length = 32)
    (n : ℕ) : (noteBytes hash n root).length = noteLen := by
  simp [noteBytes, length_notePrefix, hhash, hroot, noteLen]

/-- The fields of a note are found where they were put. -/
theorem decodeNote_noteBytes {hash root : Bytes} {n : ℕ} (hhash : hash.length = 32)
    (hroot : root.length = 32) (hn : n < 2 ^ 64) :
    decodeNote (noteBytes hash n root) =
      .ok ⟨noteFormat, noteVersion, hash, n, root⟩ := by
  have hsize : (BigEndian.encode 8 n).length = 8 := BigEndian.length_encode 8 n
  -- each field with what stands in front of it and behind it
  have hat : ∀ {front middle back : Bytes} {start stop : ℕ},
      noteBytes hash n root = front ++ middle ++ back → front.length = start →
        start + middle.length = stop → slice (noteBytes hash n root) start stop = middle := by
    intro front middle back start stop hnote hstart hstop
    rw [hnote]
    exact slice_between hstart hstop
  have hprefix : slice (noteBytes hash n root) 0 11 = notePrefix :=
    hat (show noteBytes hash n root = [] ++ notePrefix ++
      ([noteVersion] ++ hash ++ BigEndian.encode 8 n ++ root) by
        simp only [noteBytes, List.append_assoc]; rfl) rfl rfl
  have hversion : slice (noteBytes hash n root) 11 12 = [noteVersion] :=
    hat (show noteBytes hash n root = notePrefix ++ [noteVersion] ++
      (hash ++ BigEndian.encode 8 n ++ root) by simp only [noteBytes, List.append_assoc]) rfl rfl
  have horigin : slice (noteBytes hash n root) 12 44 = hash :=
    hat (show noteBytes hash n root = (notePrefix ++ [noteVersion]) ++ hash ++
      (BigEndian.encode 8 n ++ root) by simp only [noteBytes, List.append_assoc]) rfl (by omega)
  have htree : slice (noteBytes hash n root) 44 52 = BigEndian.encode 8 n :=
    hat (show noteBytes hash n root = (notePrefix ++ [noteVersion] ++ hash) ++
      BigEndian.encode 8 n ++ root from rfl)
      (by simp [length_notePrefix, hhash]) (by omega)
  have htail : slice (noteBytes hash n root) 52 84 = root :=
    hat (show noteBytes hash n root = (notePrefix ++ [noteVersion] ++ hash ++
      BigEndian.encode 8 n) ++ root ++ [] by rw [List.append_nil]; rfl) (by simp [length_notePrefix, hhash]) (by omega)
  rw [decodeNote, if_neg (not_not.mpr (length_noteBytes hhash hroot n)), hprefix, hversion,
    if_neg (by simp), horigin, htree, htail, BigEndian.decode_encode hn]

theorem slice_append {α : Type*} (xs : List α) {a b c : ℕ} (hab : a ≤ b) (hbc : b ≤ c) :
    slice xs a b ++ slice xs b c = slice xs a c := by
  obtain ⟨j, rfl⟩ := Nat.exists_eq_add_of_le hab
  obtain ⟨k, rfl⟩ := Nat.exists_eq_add_of_le hbc
  rw [slice_add, slice_add, Nat.add_assoc, slice_add, List.take_add, List.drop_drop]

/-- A note that is accepted is laid out as such. -/
theorem eq_noteBytes {note : Bytes} {fields : DecodedNote} (h : decodeNote note = .ok fields) :
    fields.format = noteFormat ∧ fields.version = noteVersion ∧ fields.originHash.length = 32 ∧
      fields.treeSize < 2 ^ 64 ∧ fields.root.length = 32 ∧
        note = noteBytes fields.originHash fields.treeSize fields.root := by
  rw [decodeNote] at h
  split at h
  · cases h
  rename_i hlength
  rw [not_not, noteLen] at hlength
  split at h
  · cases h
  rename_i hhead
  rw [not_or, not_not, not_not] at hhead
  obtain rfl := Except.ok.inj h
  have hsize : (slice note 44 52).length = 8 := by
    rw [slice_length]
    omega
  have hlt := BigEndian.decode_lt (slice note 44 52)
  have hself := BigEndian.encode_decode (slice note 44 52)
  rw [hsize] at hlt hself
  refine ⟨rfl, rfl, by rw [slice_length]; omega, hlt, by rw [slice_length]; omega, ?_⟩
  rw [noteBytes, hself, ← hhead.1, ← hhead.2, slice_append _ (by omega) (by omega),
    slice_append _ (by omega) (by omega), slice_append _ (by omega) (by omega),
    slice_append _ (by omega) (by omega), ← hlength, slice_all]

/-! ## There and back -/

theorem length_sha256 (raw : Bytes) : (sha256 raw).length = 32 := Sha256.sha256_length raw

theorem originHash_eq_ok {origin : PyStr} (h : origin.any CodePoint.isSurrogate = false) :
    ∃ hash, originHash origin = .ok hash ∧ hash.length = 32 := by
  have hfilter : (origin.filter (· ≠ newline)).any CodePoint.isSurrogate = false := by
    rw [List.any_eq_false] at h ⊢
    exact fun c hc => h c (List.mem_filter.mp hc).1
  refine ⟨_, map_eq_ok.mpr ⟨_, utf8Encode_eq_ok.mpr ⟨hfilter, rfl⟩, rfl⟩, length_sha256 _⟩

theorem encodeNote_eq_ok {origin : PyStr} {n : ℕ} {root : Bytes}
    (horigin : origin.any CodePoint.isSurrogate = false) (hn : n < 2 ^ 64)
    (hroot : root.length = 32) :
    ∃ hash, originHash origin = .ok hash ∧ hash.length = 32 ∧
      encodeNote origin n root = .ok (noteBytes hash n root) := by
  obtain ⟨hash, hhash, hlength⟩ := originHash_eq_ok horigin
  refine ⟨hash, hhash, hlength, ?_⟩
  have hsize : root.length = hashSize := hroot
  rw [encodeNote, if_neg (by omega), if_neg (not_not.mpr hsize), hhash, Except.bind,
    if_neg (by omega)]
  simp only [Int.toNat_natCast]
  rw [if_neg (not_not.mpr (length_noteBytes hlength hroot n))]

theorem checkpointBody_eq_ok {origin : PyStr} {n : ℕ} {root : Bytes} (hne : origin ≠ [])
    (hline : newline ∉ origin) (hn : n < 10 ^ PyStr.maxIntDigits) (hroot : root.length = 32) :
    checkpointBody origin n root = .ok (threeLines origin (natText n) (b64encode root)) := by
  have htext : jsonInt (n : ℤ) = .ok (natText n) := by
    have hdigits : (natText n).length ≤ PyStr.maxIntDigits :=
      (natText_length_le_iff (by decide)).mpr hn
    rw [jsonInt, Int.natAbs_natCast, if_pos hdigits, intText, if_neg (by omega)]
    rfl
  have hzero : ¬ (natText n ≠ "0" ∧ PyStr.startsWith (natText n) "0" = true) := by
    rintro ⟨hother, hstart⟩
    rw [head_natText (startsWith_singleton.mp hstart)] at hother
    exact hother rfl
  have hsize : root.length = hashSize := hroot
  rw [checkpointBody, if_neg (by simp [hne, hline]), if_neg (by omega),
    if_neg (not_not.mpr hsize), htext, Except.bind, if_neg hzero]

/-- The three lines of a text are its parts. -/
theorem splitOn_threeLines {a b c : PyStr} (ha : newline ∉ a) (hb : newline ∉ b)
    (hc : newline ∉ c) : (threeLines a b c).splitOn newline = [a, b, c, []] := by
  have hjoin : threeLines a b c = [newline].intercalate [a, b, c, []] := by
    simp [threeLines, List.intercalate_cons_cons]
  rw [hjoin, List.splitOn_intercalate newline _ (List.cons_ne_nil _ _)]
  simp only [List.forall_mem_cons]
  exact ⟨ha, hb, hc, by simp, by simp⟩

theorem newline_notMem_plain {s : PyStr} (h : ∀ c ∈ s, PyStr.isSpace c = false) : newline ∉ s := by
  intro hmem
  exact absurd (h newline hmem) (by decide)

/-- The text of a checkpoint is parsed. -/
theorem parseCheckpointBody_threeLines (py : Interp) {origin : PyStr} {n : ℕ} {root : Bytes}
    (hne : origin ≠ []) (hline : newline ∉ origin) (hn : n < 10 ^ PyStr.maxIntDigits)
    (hroot : root.length = 32) :
    parseCheckpointBody py (threeLines origin (natText n) (b64encode root)) =
      .ok ⟨origin, n, root, [], threeLines origin (natText n) (b64encode root)⟩ := by
  have hlast : (threeLines origin (natText n) (b64encode root)).getLast? = some newline := by
    have hsnoc : threeLines origin (natText n) (b64encode root) =
        (origin ++ newline :: (natText n ++ newline :: b64encode root)) ++ [newline] := by
      simp [threeLines]
    rw [hsnoc, List.getLast?_concat]
  have hsizeLine : newline ∉ natText n := by
    intro hmem
    exact absurd (isDigitChar_of_mem_natText hmem) (by decide)
  have hhashLine : newline ∉ b64encode root :=
    newline_notMem_plain fun c hc => (b64encode_plain root c hc).2
  have hdigit : py.isDigit (natText n) = true := by
    rw [Interp.isDigit, if_pos (isAscii_of_isDecimal (isDecimal_natText n)), isDecimal_natText]
  have hzero : (PyStr.startsWith (natText n) "0" && natText n != "0") = false := by
    rw [Bool.and_eq_false_iff]
    by_cases hstart : PyStr.startsWith (natText n) "0" = true
    · rw [head_natText (startsWith_singleton.mp hstart)]
      exact .inr (by decide)
    · exact .inl (Bool.not_eq_true _ ▸ hstart)
  have hint : py.int (natText n) = .ok (n : ℤ) := int_natText py hn
  rw [parseCheckpointBody, if_pos hlast, splitOn_threeLines hline hsizeLine hhashLine]
  simp only
  rw [if_neg hne, hdigit, hzero, if_neg (by decide), b64decodeStrict_b64encode]
  simp only
  have hsize : root.length = hashSize := hroot
  rw [if_neg (not_not.mpr hsize), hint, Except.map]
  simp only [List.dropLast_singleton, List.filter_nil, List.flatMap_nil, List.append_nil]

theorem lt_pow_digits {n : ℕ} (h : n < 2 ^ 64) : n < 10 ^ PyStr.maxIntDigits :=
  h.trans_le ((by norm_num : 2 ^ 64 ≤ 10 ^ 20).trans
    (Nat.pow_le_pow_right (by omega) (by decide)))

end Signal402.AnchorNote
