import Signal402.Pq.TileIndex

/-!
# Tile paths (`pq/tiles.py`)

The paths of tiles and entry bundles.  `Tile.path` says what the path of a tile is, the
functions of the source write it, and the parser takes every such path back to its tile.

The parser takes more than these paths: white space and slashes around the path and
around the index are stripped, and an index may be one decimal number.  `Spells` says what
it takes, for texts of one line in ASCII whose index does not begin with a zero group; on
any text it raises nothing but `ValueError`.
-/

namespace Signal402.Tiles

/-! ## Writing paths -/

/-- `_check_level`. -/
def checkLevel (level : ℤ) : Except PyError Unit :=
  if level < 0 ∨ level > levelMax then .error (.valueError "tile level must be 0..63")
  else .ok ()

/-- What `tile_path` and `entries_path` do with the index and the width. -/
def indexedPath (head : PyStr) (n : ℤ) (width : Option ℤ) : Except PyError PyStr :=
  (checkTileIndex n).bind fun n =>
    match width with
    | none => (encodeTileIndex n).map fun index => head ++ index
    | some w =>
        if w = tileWidth then (encodeTileIndex n).map fun index => head ++ index
        else if w < 1 ∨ w > 255 then .error (.valueError "partial width must be 1..255")
        else (encodeTileIndex n).map fun index => head ++ index ++ ".p/" ++ intText w

def tilePath (level n : ℤ) (width : Option ℤ) : Except PyError PyStr :=
  (checkLevel level).bind fun _ => indexedPath ("tile/" ++ intText level ++ "/") n width

def entriesPath (n : ℤ) (width : Option ℤ) : Except PyError PyStr :=
  indexedPath "tile/entries/" n width

/-! ## Reading paths -/

/-- What `parse_tile_relpath` returns; the width is `None` for a full tile. -/
inductive TileRef
  | entries (n : ℤ) (width : Option ℤ)
  | tile (level n : ℤ) (width : Option ℤ)
  deriving DecidableEq, Repr

/-- The text before and after the first occurrence of `sep`, as `s.split(sep, 1)` has
them; nothing when there is none. -/
def splitOnce (sep : PyStr) : PyStr → Option (PyStr × PyStr)
  | [] => none
  | c :: rest =>
      if sep.isPrefixOf (c :: rest) then some ([], (c :: rest).drop sep.length)
      else (splitOnce sep rest).map fun (before, behind) => (c :: before, behind)

/-- Digits, and no zero in front of others. -/
def isNumeral (py : Interp) (s : PyStr) : Bool :=
  py.isDigit s && !(decide (1 < s.length) && PyStr.startsWith s "0")

section Parse

variable (py : Interp)

/-- `_split_index_width`. -/
def splitIndexWidth (rest : PyStr) : Except PyError (ℤ × Option ℤ) :=
  match splitOnce ".p/" rest with
  | some (idx, w) =>
      if !isNumeral py w then .error (.valueError "invalid partial width")
      else (py.int w).bind fun width =>
        if width < 1 ∨ width > 255 then .error (.valueError "invalid partial width")
        else (decodeTileIndex py idx).map fun n => (n, some width)
  | none => (decodeTileIndex py rest).map fun n => (n, none)

def parseTileRelpath (rel : PyStr) : Except PyError TileRef :=
  let raw := rel.strip.dropWhile (· = slash)
  if raw.length > maxTileRelpathLen + 16 then .error (.valueError "tile path too long")
  else if PyStr.startsWith raw "tile/entries/" then
    (splitIndexWidth py (raw.drop 13)).map fun (n, width) => .entries n width
  else if !PyStr.startsWith raw "tile/" then .error (.valueError "not a tile path")
  else
    let rest := raw.drop 5
    if slash ∉ rest then .error (.valueError "missing tile index")
    else
      let levelText := rest.takeWhile (· ≠ slash)
      let idx := rest.drop (levelText.length + 1)
      if !isNumeral py levelText then .error (.valueError "invalid tile level")
      else (py.int levelText).bind fun level =>
        (checkLevel level).bind fun _ =>
          (splitIndexWidth py idx).map fun (n, width) => .tile level n width

end Parse

/-! ## The paths of tiles -/

/-- The path up to the index. -/
def headText : Option ℕ → PyStr
  | none => "tile/entries/"
  | some level => "tile/" ++ natText level ++ "/"

/-- The path behind the index. -/
def tailText : Option ℕ → PyStr
  | none => []
  | some width => ".p/" ++ natText width

/-- A tile, or an entry bundle when there is no level; full when there is no width. -/
structure Tile where
  level : Option ℕ
  n : ℕ
  width : Option ℕ
  level_le : ∀ l ∈ level, l ≤ 63
  n_le : n ≤ maxTileIndex
  width_mem : ∀ w ∈ width, 1 ≤ w ∧ w ≤ 255

namespace Tile

variable (t : Tile)

def path : PyStr := headText t.level ++ indexText t.n ++ tailText t.width

/-- What the parser returns for the tile. -/
def ref : TileRef :=
  match t.level with
  | none => .entries t.n (t.width.map Nat.cast)
  | some l => .tile l t.n (t.width.map Nat.cast)

end Tile

/-- The path without the white space around it and the slashes in front. -/
def stripped (rel : PyStr) : PyStr := rel.strip.dropWhile (· = slash)

/-- Whether `rel` is taken for the tile: its path, or one that writes the index as one
decimal number, with white space and slashes around the path and around the index. -/
def Spells (rel : PyStr) (t : Tile) : Prop :=
  (stripped rel).length ≤ maxTileRelpathLen + 16 ∧
    ∃ idx : PyStr, stripped rel = headText t.level ++ idx ++ tailText t.width ∧
      (stripSlashes idx.strip = indexText t.n ∨ stripSlashes idx.strip = natText t.n)

/-- One line of ASCII whose index does not begin with a group of zeros. -/
structure Regular (rel : PyStr) : Prop where
  ascii : (stripped rel).isAscii = true
  oneLine : newline ∉ stripped rel
  noZeroGroup : ∀ level width (idx : PyStr),
    stripped rel = headText level ++ idx ++ tailText width →
      PyStr.startsWith (stripSlashes idx.strip) "x000" = false

/-! ## Any text -/

section Decode

variable (py : Interp)

theorem splitIndexWidth_answers (rest : PyStr) :
    Answers (fun p => IndexInRange p.1 ∧ WidthInRange p.2) (splitIndexWidth py rest) := by
  rw [splitIndexWidth]
  split
  · split
    · exact answers_error _
    · refine (int_answers py _).bind fun width _ => ?_
      split
      · exact answers_error _
      · refine (decodeTileIndex_answers py _).map fun n hn => ⟨hn, ?_⟩
        rintro w ⟨⟩
        omega
  · refine (decodeTileIndex_answers py _).map fun n hn => ⟨hn, ?_⟩
    rintro w ⟨⟩

theorem checkLevel_answers (level : ℤ) :
    Answers (fun _ => 0 ≤ level ∧ level ≤ levelMax) (checkLevel level) := by
  rw [checkLevel]
  split
  · exact answers_error _
  · exact .inl ⟨(), rfl, by omega, by omega⟩

/-- Numbers in range are those of a tile. -/
theorem exists_tile {level : Option ℕ} {n : ℤ} {width : Option ℤ} (hlevel : ∀ l ∈ level, l ≤ 63)
    (hn : IndexInRange n) (hwidth : WidthInRange width) :
    ∃ t : Tile, t.level = level ∧ (t.n : ℤ) = n ∧ t.width.map Nat.cast = width := by
  have hmem : ∀ w ∈ width.map Int.toNat, 1 ≤ w ∧ w ≤ 255 := by
    intro w hw
    obtain ⟨v, hv, rfl⟩ := Option.map_eq_some_iff.mp hw
    have h := hwidth v hv
    omega
  refine ⟨⟨level, n.toNat, width.map Int.toNat, hlevel, ?_, hmem⟩, rfl, ?_, ?_⟩
  · have h := hn.2
    omega
  · exact Int.toNat_of_nonneg hn.1
  · cases width with
    | none => rfl
    | some w =>
        have h := hwidth w rfl
        simp only [Option.map_some, Option.some.injEq]
        omega

theorem parseTileRelpath_answers (rel : PyStr) :
    Answers (fun r => ∃ t : Tile, r = t.ref) (parseTileRelpath py rel) := by
  rw [parseTileRelpath]
  simp only
  split
  · exact answers_error _
  split
  · refine (splitIndexWidth_answers py _).map fun p hp => ?_
    obtain ⟨t, hlevel, hn, hwidth⟩ : ∃ t : Tile, t.level = none ∧ _ ∧ _ :=
      exists_tile (by simp) hp.1 hp.2
    exact ⟨t, by rw [Tile.ref, hlevel, hn, hwidth]⟩
  split
  · exact answers_error _
  split
  · exact answers_error _
  split
  · exact answers_error _
  refine (int_answers py _).bind fun level _ => ?_
  refine (checkLevel_answers level).bind fun _ hlevel => ?_
  refine (splitIndexWidth_answers py _).map fun p hp => ?_
  have hmax : ∀ l ∈ some level.toNat, l ≤ 63 := by
    rintro l ⟨⟩
    have h := hlevel.2
    rw [levelMax] at h
    omega
  obtain ⟨t, ht, hn, hwidth⟩ := exists_tile hmax hp.1 hp.2
  refine ⟨t, ?_⟩
  rw [Tile.ref, ht, hn, hwidth]
  simp only [Int.toNat_of_nonneg hlevel.1]

end Decode

/-! ## What is accepted -/

theorem splitOnce_eq_some {sep s before behind : PyStr}
    (h : splitOnce sep s = some (before, behind)) : s = before ++ sep ++ behind := by
  induction s generalizing before with
  | nil => cases h
  | cons c rest ih =>
      rw [splitOnce] at h
      split at h
      · rename_i hprefix
        obtain ⟨rfl, rfl⟩ := Prod.mk.inj (Option.some.inj h)
        obtain ⟨tail, htail⟩ := List.isPrefixOf_iff_prefix.mp hprefix
        rw [← htail, List.drop_left]
        rfl
      · obtain ⟨⟨a, b⟩, hrest, hpair⟩ := Option.map_eq_some_iff.mp h
        obtain ⟨rfl, rfl⟩ := Prod.mk.inj hpair
        rw [ih hrest]
        rfl

/-- A text without the first character of the separator is not split. -/
theorem splitOnce_eq_none {d : CodePoint} {sep s : PyStr} (h : d ∉ s) :
    splitOnce (d :: sep) s = none := by
  induction s with
  | nil => rfl
  | cons c rest ih =>
      have hne : d ≠ c := fun heq => h (heq ▸ List.mem_cons_self)
      have hprefix : List.isPrefixOf (d :: sep) (c :: rest) = false := by
        simp [List.isPrefixOf, hne]
      rw [splitOnce, hprefix, if_neg Bool.false_ne_true,
        ih fun hmem => h (List.mem_cons_of_mem _ hmem)]
      rfl

theorem splitOnce_append {d : CodePoint} {sep before : PyStr} (h : d ∉ before) (behind : PyStr) :
    splitOnce (d :: sep) (before ++ (d :: sep ++ behind)) = some (before, behind) := by
  induction before with
  | nil =>
      rw [List.nil_append, List.cons_append, splitOnce, ← List.cons_append, if_pos]
      · rw [List.drop_left]
      · rw [List.isPrefixOf_iff_prefix]
        exact List.prefix_append _ _
  | cons c rest ih =>
      have hne : d ≠ c := fun heq => h (heq ▸ List.mem_cons_self)
      have hprefix : List.isPrefixOf (d :: sep) (c :: (rest ++ (d :: sep ++ behind))) = false := by
        simp [List.isPrefixOf, hne]
      rw [List.cons_append, splitOnce, hprefix, if_neg Bool.false_ne_true,
        ih fun hmem => h (List.mem_cons_of_mem _ hmem)]
      rfl

section Accept

variable (py : Interp)

/-- In ASCII the numerals are the texts that `str` writes. -/
theorem isNumeral_eq_true {s : PyStr} (h : s.isAscii = true) :
    isNumeral py s = true ↔ ∃ n, s = natText n := by
  have hhead : PyStr.startsWith s "0" = true ↔ s.head? = some (CodePoint.ofChar '0') :=
    startsWith_singleton
  rw [← isNumeral_iff, isNumeral, Interp.isDigit, if_pos h, Bool.and_eq_true, Bool.not_eq_true',
    Bool.and_eq_false_iff, decide_eq_false_iff_not, Ne, ← hhead, Bool.not_eq_true]
  constructor
  · rintro ⟨hdecimal, hshort | hzero⟩
    · exact ⟨hdecimal, fun hlong => absurd hlong hshort⟩
    · exact ⟨hdecimal, fun _ => hzero⟩
  · rintro ⟨hdecimal, hzero⟩
    refine ⟨hdecimal, ?_⟩
    rcases Nat.lt_or_ge 1 s.length with hlong | hshort
    · exact .inr (hzero hlong)
    · exact .inl (by omega)

theorem int_natText_small {n : ℕ} (h : n ≤ 255) : py.int (natText n) = .ok (n : ℤ) := by
  apply int_natText_index
  rw [maxTileIndex]
  omega

/-- What is read as an index and a width. -/
theorem indexText_of_splitIndexWidth {rest : PyStr} {n : ℤ} {width : Option ℤ}
    (hascii : rest.isAscii = true) (hline : newline ∉ rest)
    (hzero : ∀ width (idx : PyStr), rest = idx ++ tailText width →
      PyStr.startsWith (stripSlashes idx.strip) "x000" = false)
    (h : splitIndexWidth py rest = .ok (n, width)) :
    ∃ (idx : PyStr) (m : ℕ) (w : Option ℕ), n = m ∧ width = w.map Nat.cast ∧
      rest = idx ++ tailText w ∧
        (stripSlashes idx.strip = indexText m ∨ stripSlashes idx.strip = natText m) := by
  have hlines : ∀ {idx : PyStr} {w : Option ℕ}, rest = idx ++ tailText w →
      newline ∉ stripSlashes idx.strip := by
    intro idx w hrest hmem
    apply hline
    rw [hrest]
    exact List.mem_append_left _ (mem_of_mem_strip (mem_of_mem_stripSlashes hmem))
  rw [splitIndexWidth] at h
  split at h
  · rename_i idx w hsplit
    have hrest := splitOnce_eq_some hsplit
    have hw : w.isAscii = true := by
      rw [isAscii_iff] at hascii ⊢
      intro c hc
      apply hascii
      rw [hrest]
      exact List.mem_append_right _ hc
    split at h
    · cases h
    rename_i hnumeral
    simp only [Bool.not_eq_true', Bool.not_eq_false] at hnumeral
    obtain ⟨v, rfl⟩ := (isNumeral_eq_true py hw).mp hnumeral
    have htail : rest = idx ++ tailText (some v) := by
      rw [hrest, List.append_assoc]
      rfl
    obtain ⟨k, hk, h⟩ := bind_eq_ok.mp h
    obtain rfl := int_natText_eq_ok py hk
    split at h
    · cases h
    rename_i hrange
    obtain ⟨m, hm, hpair⟩ := map_eq_ok.mp h
    obtain ⟨rfl, rfl⟩ := Prod.mk.inj hpair
    obtain ⟨j, -, rfl, hidx⟩ := indexText_of_decodeTileIndex py (hlines htail) (hzero _ _ htail) hm
    exact ⟨idx, j, some v, rfl, rfl, htail, hidx⟩
  · have htail : rest = rest ++ tailText none := (List.append_nil rest).symm
    obtain ⟨m, hm, hpair⟩ := map_eq_ok.mp h
    obtain ⟨rfl, rfl⟩ := Prod.mk.inj hpair
    obtain ⟨j, -, rfl, hidx⟩ := indexText_of_decodeTileIndex py (hlines htail) (hzero _ _ htail) hm
    exact ⟨rest, j, none, rfl, rfl, htail, hidx⟩
/-- An index and a width are read. -/
theorem splitIndexWidth_indexText {idx : PyStr} {m : ℕ} {w : Option ℕ} (hm : m ≤ maxTileIndex)
    (hw : ∀ v ∈ w, 1 ≤ v ∧ v ≤ 255)
    (hidx : stripSlashes idx.strip = indexText m ∨ stripSlashes idx.strip = natText m) :
    splitIndexWidth py (idx ++ tailText w) = .ok ((m : ℤ), w.map Nat.cast) := by
  rw [splitIndexWidth]
  have hdecode := decodeTileIndex_indexText py hm hidx
  -- no point is in the index, so that the first one begins the width
  have hpoint : CodePoint.ofChar '.' ∉ idx := by
    intro hmem
    rcases mem_around hmem with h | h | h
    · exact absurd h (by decide)
    · exact absurd h (by decide)
    · rcases hidx with hi | hi
      · rw [hi] at h
        exact indexChar_ne (mem_indexText h) (by decide) (by decide) (by decide) rfl
      · rw [hi] at h
        exact absurd (isDigitChar_of_mem_natText h) (by decide)
  have hsep : (".p/" : PyStr) = CodePoint.ofChar '.' :: "p/" := rfl
  cases w with
  | none =>
      rw [tailText, List.append_nil, hsep, splitOnce_eq_none hpoint]
      simp only [hdecode, Except.map, Option.map_none]
  | some v =>
      have hv := hw v rfl
      have hnumeral := (isNumeral_eq_true py (isAscii_of_isDecimal (isDecimal_natText v))).mpr
        ⟨v, rfl⟩
      rw [tailText, hsep, splitOnce_append hpoint]
      simp only [hnumeral, Bool.not_true, Bool.false_eq_true, if_false,
        int_natText_small py hv.2, Except.bind]
      rw [if_neg (by omega), hdecode]
      rfl

theorem Tile.ref_eq_entries {t : Tile} {n : ℤ} {width : Option ℤ} :
    TileRef.entries n width = t.ref ↔
      t.level = none ∧ n = t.n ∧ width = t.width.map Nat.cast := by
  rw [Tile.ref]
  cases t.level with
  | none => simp
  | some l => simp

theorem Tile.ref_eq_tile {t : Tile} {level n : ℤ} {width : Option ℤ} :
    TileRef.tile level n width = t.ref ↔
      (∃ l : ℕ, t.level = some l ∧ level = l) ∧ n = t.n ∧ width = t.width.map Nat.cast := by
  rw [Tile.ref]
  cases t.level with
  | none => simp
  | some l => simp

theorem headText_some (level : ℕ) (rest : PyStr) :
    headText (some level) ++ rest = "tile/" ++ (natText level ++ slash :: rest) := by
  rw [headText, List.append_assoc, List.append_assoc]
  rfl

/-- A level is no `entries`. -/
theorem startsWith_entries (level : ℕ) (rest : PyStr) :
    PyStr.startsWith (headText (some level) ++ rest) "tile/entries/" = false := by
  rw [headText_some, Bool.eq_false_iff, Ne, startsWith_iff]
  rintro ⟨behind, h⟩
  have hsep : ("tile/entries/" : PyStr) = "tile/" ++ ("entries/" : PyStr) := rfl
  rw [hsep, List.append_assoc] at h
  have hdigits := List.append_cancel_left h
  cases hlevel : natText level with
  | nil => exact natText_ne_nil level hlevel
  | cons c digits =>
      rw [hlevel] at hdigits
      have hc : PyStr.isDigitChar c = true :=
        isDigitChar_of_mem_natText (hlevel ▸ List.mem_cons_self)
      rw [(List.cons.inj hdigits).1] at hc
      exact absurd hc (by decide)

theorem takeWhile_slash {s behind : PyStr} (h : slash ∉ s) :
    (s ++ slash :: behind).takeWhile (· ≠ slash) = s := by
  rw [List.takeWhile_append_of_pos]
  · simp
  · intro c hc
    exact decide_eq_true fun heq => h (heq ▸ hc)

theorem cut_at_slash {s : PyStr} (h : slash ∈ s) :
    s = s.takeWhile (· ≠ slash) ++ slash :: s.drop ((s.takeWhile (· ≠ slash)).length + 1) := by
  induction s with
  | nil => cases h
  | cons c rest ih =>
      by_cases hc : c = slash
      · rw [List.takeWhile_cons_of_neg (by simpa using hc), hc]
        rfl
      · rw [List.takeWhile_cons_of_pos (by simpa using hc), List.cons_append, List.length_cons,
          List.drop_succ_cons, ← ih ((List.mem_cons.mp h).resolve_left fun heq => hc heq.symm)]

/-- What spells a tile is taken for it. -/
theorem parseTileRelpath_of_spells {rel : PyStr} {t : Tile} (h : Spells rel t) :
    parseTileRelpath py rel = .ok t.ref := by
  obtain ⟨hlength, idx, hspell, hidx⟩ := h
  have hsplit := splitIndexWidth_indexText py t.n_le t.width_mem hidx
  rw [List.append_assoc] at hspell
  rw [parseTileRelpath, ← stripped, hspell]
  rw [hspell] at hlength
  simp only
  rw [if_neg (by omega)]
  cases hlevel : t.level with
  | none =>
      have hstart : PyStr.startsWith (headText none ++ (idx ++ tailText t.width))
          "tile/entries/" = true := startsWith_iff.mpr ⟨_, rfl⟩
      have hdrop : (headText none ++ (idx ++ tailText t.width)).drop 13 = idx ++ tailText t.width :=
        List.drop_left' rfl
      rw [if_pos hstart, hdrop, hsplit, Except.map, Tile.ref_eq_entries.mpr ⟨hlevel, rfl, rfl⟩]
  | some l =>
      have hl : l ≤ 63 := t.level_le l hlevel
      have hentries := startsWith_entries l (idx ++ tailText t.width)
      have hstart : PyStr.startsWith (headText (some l) ++ (idx ++ tailText t.width)) "tile/" =
          true := by
        rw [headText_some]
        exact startsWith_iff.mpr ⟨_, rfl⟩
      have hdrop : (headText (some l) ++ (idx ++ tailText t.width)).drop 5 =
          natText l ++ slash :: (idx ++ tailText t.width) := by
        rw [headText_some]
        exact List.drop_left' rfl
      have hbehind : (natText l ++ slash :: (idx ++ tailText t.width)).drop
          ((natText l).length + 1) = idx ++ tailText t.width := by
        rw [← List.drop_drop, List.drop_left]
        rfl
      have hnumeral := (isNumeral_eq_true py (isAscii_of_isDecimal (isDecimal_natText l))).mpr
        ⟨l, rfl⟩
      have hcheck : checkLevel (l : ℤ) = .ok () := by
        rw [checkLevel, if_neg]
        rw [levelMax]
        omega
      rw [hentries, if_neg Bool.false_ne_true, hstart, Bool.not_true, if_neg Bool.false_ne_true,
        hdrop, if_neg (by simp), takeWhile_slash (slash_notMem_natText l), hnumeral,
        Bool.not_true, if_neg Bool.false_ne_true, int_natText_small py (by omega), hbehind]
      simp only [Except.bind, hcheck, hsplit, Except.map]
      rw [Tile.ref_eq_tile.mpr ⟨⟨l, hlevel, rfl⟩, rfl, rfl⟩]

/-- What a regular text is taken for, it spells. -/
theorem spells_of_parseTileRelpath {rel : PyStr} {t : Tile} (hregular : Regular rel)
    (h : parseTileRelpath py rel = .ok t.ref) : Spells rel t := by
  obtain ⟨hascii, hline, hzero⟩ := hregular
  rw [parseTileRelpath, ← stripped] at h
  rw [Spells]
  generalize stripped rel = raw at hascii hline hzero h
  simp only at h
  split at h
  · cases h
  rename_i hlength
  have hle : raw.length ≤ maxTileRelpathLen + 16 := by omega
  -- what is left behind the head of the path
  have hrest : ∀ {level : Option ℕ} {rest : PyStr}, raw = headText level ++ rest →
      ∀ {n : ℤ} {width : Option ℤ}, splitIndexWidth py rest = .ok (n, width) →
        t.level = level → n = t.n → width = t.width.map Nat.cast →
          ∃ idx : PyStr, raw = headText t.level ++ idx ++ tailText t.width ∧
            (stripSlashes idx.strip = indexText t.n ∨ stripSlashes idx.strip = natText t.n) := by
    intro level rest hraw n width hsplit hlevel hn hwidth
    have hmem : ∀ {c : CodePoint}, c ∈ rest → c ∈ raw := by
      intro c hc
      rw [hraw]
      exact List.mem_append_right _ hc
    obtain ⟨idx, m, w, rfl, rfl, htail, hidx⟩ := indexText_of_splitIndexWidth py
      (isAscii_iff.mpr fun c hc => isAscii_iff.mp hascii c (hmem hc)) (fun hc => hline (hmem hc))
      (fun w idx hidx => hzero level w idx (by rw [hraw, hidx, List.append_assoc])) hsplit
    obtain rfl : m = t.n := by omega
    obtain rfl : w = t.width := Option.map_injective Nat.cast_injective hwidth
    exact ⟨idx, by rw [hraw, hlevel, htail, List.append_assoc], hidx⟩
  split at h
  · rename_i hentries
    obtain ⟨rest, hraw⟩ := startsWith_iff.mp hentries
    have hdrop : raw.drop 13 = rest := by
      rw [hraw]
      exact List.drop_left' rfl
    rw [hdrop] at h
    obtain ⟨⟨n, width⟩, hsplit, href⟩ := map_eq_ok.mp h
    obtain ⟨hlevel, hn, hwidth⟩ := Tile.ref_eq_entries.mp href
    exact ⟨hle, hrest hraw hsplit hlevel hn hwidth⟩
  split at h
  · cases h
  rename_i htile
  simp only [Bool.not_eq_true', Bool.not_eq_false] at htile
  obtain ⟨rest, hraw⟩ := startsWith_iff.mp htile
  have hdrop : raw.drop 5 = rest := by
    rw [hraw]
    exact List.drop_left' rfl
  rw [hdrop] at h
  split at h
  · cases h
  rename_i hslash
  -- the text before the first slash is the level
  have hcut := cut_at_slash (not_not.mp hslash)
  generalize rest.takeWhile (· ≠ slash) = levelText at h hcut
  generalize rest.drop (levelText.length + 1) = behind at h hcut
  split at h
  · cases h
  rename_i hnumeral
  simp only [Bool.not_eq_true', Bool.not_eq_false] at hnumeral
  have hlevelAscii : PyStr.isAscii levelText = true := by
    rw [isAscii_iff] at hascii ⊢
    intro c hc
    apply hascii
    rw [hraw, hcut]
    exact List.mem_append_right _ (List.mem_append_left _ hc)
  obtain ⟨l, rfl⟩ := (isNumeral_eq_true py hlevelAscii).mp hnumeral
  obtain ⟨level, hint, h⟩ := bind_eq_ok.mp h
  obtain rfl := int_natText_eq_ok py hint
  obtain ⟨-, -, h⟩ := bind_eq_ok.mp h
  obtain ⟨⟨n, width⟩, hsplit, href⟩ := map_eq_ok.mp h
  obtain ⟨⟨k, hlevel, hk⟩, hn, hwidth⟩ := Tile.ref_eq_tile.mp href
  obtain rfl : l = k := by omega
  have hhead : raw = headText (some l) ++ behind := by rw [hraw, hcut, headText_some]
  exact ⟨hle, hrest hhead hsplit hlevel hn hwidth⟩

end Accept

/-! ## What is written -/

/-- The width of a path: nothing stands for a full tile. -/
def partialWidth (width : ℕ) : Option ℕ := if width = tileWidth then none else some width

/-- What `tile_path` and `entries_path` write behind the head. -/
theorem indexedPath_eq (head : PyStr) {n width : ℕ} (hn : n ≤ maxTileIndex) (hlow : 1 ≤ width)
    (hhigh : width ≤ tileWidth) :
    indexedPath head n (some width) =
      .ok (head ++ indexText n ++ tailText (partialWidth width)) := by
  rw [indexedPath, checkTileIndex_eq_ok.mpr ⟨rfl, by omega, by omega⟩, Except.bind, partialWidth]
  simp only [encodeTileIndex_eq hn, Except.map]
  by_cases hfull : width = tileWidth
  · rw [if_pos hfull, if_pos (by omega), tailText, List.append_nil]
  · rw [tileWidth] at hhigh hfull
    rw [tileWidth, if_neg hfull, if_neg (by omega), if_neg (by omega), tailText, intText,
      if_neg (by omega)]
    simp only [List.append_assoc]
    rfl

theorem indexedPath_full (head : PyStr) {n : ℕ} (hn : n ≤ maxTileIndex) :
    indexedPath head n none = .ok (head ++ indexText n ++ tailText none) := by
  rw [indexedPath, checkTileIndex_eq_ok.mpr ⟨rfl, by omega, by omega⟩, Except.bind]
  simp only [encodeTileIndex_eq hn, Except.map, tailText, List.append_nil]

theorem path_plain (t : Tile) : t.path.all isPlain = true := by
  have hhead : (headText t.level).all isPlain = true := by
    cases t.level with
    | none => decide
    | some l =>
        rw [headText, List.all_append, List.all_append, natText_plain]
        decide
  have htail : (tailText t.width).all isPlain = true := by
    cases t.width with
    | none => decide
    | some w =>
        rw [tailText, List.all_append, natText_plain]
        decide
  rw [Tile.path, List.all_append, List.all_append, hhead, indexText_plain, htail]
  rfl

theorem length_path (t : Tile) : t.path.length ≤ 54 := by
  have hsmall : ∀ {k : ℕ}, k ≤ 255 → (natText k).length ≤ 3 := fun hk =>
    (natText_length_le_iff (by omega)).mpr (by omega)
  have hindex := length_indexText t.n_le
  have hhead : (headText t.level).length ≤ 13 := by
    cases hlevel : t.level with
    | none => decide
    | some l =>
        have hl := hsmall (show l ≤ 255 by have h := t.level_le l hlevel; omega)
        rw [headText, List.length_append, List.length_append]
        have hfive : List.length (PyStr.ofString "tile/") = 5 := rfl
        have hone : List.length (PyStr.ofString "/") = 1 := rfl
        omega
  have htail : (tailText t.width).length ≤ 6 := by
    cases hwidth : t.width with
    | none => decide
    | some w =>
        have hw := hsmall (t.width_mem w hwidth).2
        rw [tailText, List.length_append]
        have hthree : List.length (PyStr.ofString ".p/") = 3 := rfl
        omega
  rw [Tile.path, List.length_append, List.length_append]
  omega

/-- A path is left as it is by the stripping. -/
theorem stripped_path (t : Tile) : stripped t.path = t.path := by
  rw [stripped, strip_of_plain (path_plain t)]
  have hstart : ∃ rest, t.path = CodePoint.ofChar 't' :: rest := by
    rw [Tile.path, List.append_assoc]
    cases t.level with
    | none => exact ⟨_, rfl⟩
    | some l => exact ⟨_, rfl⟩
  obtain ⟨rest, hrest⟩ := hstart
  rw [hrest, List.dropWhile_cons_of_neg (by decide)]

theorem spells_path (t : Tile) : Spells t.path t := by
  have hlength := length_path t
  rw [Spells, stripped_path]
  refine ⟨by rw [maxTileRelpathLen]; omega, indexText t.n, rfl, .inl ?_⟩
  rw [strip_of_plain (indexText_plain t.n), stripSlashes_indexText]

/-- The tiles of the log and their paths: for a level up to 63, an index below `2 ^ 63` and a
width up to 256 the source writes the path of the tile, and the parser takes the path back
to it; the parser takes whatever spells a tile for that tile, takes nothing else that is
regular, and raises `ValueError` on every text that it does not take for a tile. -/
theorem tile_paths (py : Interp) :
    (∀ level n width : ℕ, level ≤ 63 → n < 2 ^ 63 → 1 ≤ width → width ≤ 256 →
      ∃ t : Tile, t.level = some level ∧ t.n = n ∧
        t.width = (if width = 256 then none else some width) ∧
        tilePath level n (some width) = .ok t.path ∧
        (width = 256 → tilePath level n none = .ok t.path)) ∧
    (∀ n width : ℕ, n < 2 ^ 63 → 1 ≤ width → width ≤ 256 →
      ∃ t : Tile, t.level = none ∧ t.n = n ∧
        t.width = (if width = 256 then none else some width) ∧
        entriesPath n (some width) = .ok t.path ∧
        (width = 256 → entriesPath n none = .ok t.path)) ∧
    (∀ t : Tile, parseTileRelpath py t.path = .ok t.ref) ∧
    (∀ rel t, Spells rel t → parseTileRelpath py rel = .ok t.ref) ∧
    (∀ rel t, Regular rel → parseTileRelpath py rel = .ok t.ref → Spells rel t) ∧
    (∀ rel, (∃ t : Tile, parseTileRelpath py rel = .ok t.ref) ∨
      ∃ message, parseTileRelpath py rel = .error (.valueError message)) := by
  have htile : ∀ {level : Option ℕ} {n width : ℕ}, (∀ l ∈ level, l ≤ 63) → n < 2 ^ 63 →
      1 ≤ width → width ≤ 256 → ∃ t : Tile, t.level = level ∧ t.n = n ∧
        t.width = partialWidth width := by
    intro level n width hlevel hn hlow hhigh
    refine ⟨⟨level, n, partialWidth width, hlevel, Nat.le_of_lt_succ hn, ?_⟩, rfl, rfl, rfl⟩
    intro w hw
    rw [partialWidth, tileWidth] at hw
    split at hw
    · cases hw
    · obtain rfl := Option.some.inj hw
      omega
  refine ⟨?_, ?_, fun t => parseTileRelpath_of_spells py (spells_path t),
    fun rel t h => parseTileRelpath_of_spells py h,
    fun rel t hregular h => spells_of_parseTileRelpath py hregular h, fun rel => ?_⟩
  · intro level n width hlevel hn hlow hhigh
    have hlevels : ∀ l ∈ some level, l ≤ 63 := by simpa using hlevel
    obtain ⟨t, ht, htn, hwidth⟩ := htile hlevels hn hlow hhigh
    have hcheck : checkLevel (level : ℤ) = .ok () := by
      rw [checkLevel, levelMax, if_neg (by omega)]
    have hhead : ("tile/" : PyStr) ++ intText level ++ ("/" : PyStr) = headText (some level) := by
      rw [headText, intText, if_neg (by omega)]
      rfl
    have hmax : n ≤ maxTileIndex := Nat.le_of_lt_succ hn
    refine ⟨t, ht, htn, hwidth, ?_, fun hfull => ?_⟩
    · rw [tilePath, hcheck, Except.bind, hhead, indexedPath_eq _ hmax hlow hhigh, Tile.path, ht,
        htn, hwidth]
    · have hnone : partialWidth width = none := if_pos hfull
      rw [tilePath, hcheck, Except.bind, hhead, indexedPath_full _ hmax, Tile.path, ht, htn, hwidth,
        hnone]
  · intro n width hn hlow hhigh
    have hlevels : ∀ l ∈ (none : Option ℕ), l ≤ 63 := by simp
    obtain ⟨t, ht, htn, hwidth⟩ := htile hlevels hn hlow hhigh
    have hmax : n ≤ maxTileIndex := Nat.le_of_lt_succ hn
    refine ⟨t, ht, htn, hwidth, ?_, fun hfull => ?_⟩
    · rw [entriesPath, indexedPath_eq _ hmax hlow hhigh, Tile.path, ht, htn, hwidth]
      rfl
    · have hnone : partialWidth width = none := if_pos hfull
      rw [entriesPath, indexedPath_full _ hmax, Tile.path, ht, htn, hwidth, hnone]
      rfl
  · rcases parseTileRelpath_answers py rel with ⟨r, hr, t, rfl⟩ | ⟨message, h⟩
    · exact .inl ⟨t, hr⟩
    · exact .inr ⟨message, h⟩

/-- An index of one digit is not padded, and an index in one decimal number is taken for
the tile whose path has it in groups. -/
theorem index_without_groups :
    tilePath 0 5 none = .ok "tile/0/5" ∧ tilePath 0 1000 none = .ok "tile/0/x001/000" ∧
      parseTileRelpath Interp.plain "tile/0/1000" = .ok (.tile 0 1000 none) ∧
      parseTileRelpath Interp.plain "tile/0/x001/000" = .ok (.tile 0 1000 none) := by
  decide +kernel

end Signal402.Tiles
