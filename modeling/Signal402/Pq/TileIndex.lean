import Mathlib.Data.Nat.Digits.Lemmas
import Signal402.Base.Decimal
import Signal402.Base.Url
import Signal402.Lib.Lines
import Signal402.Pq.Tiles

/-!
# Tile indexes (`pq/tiles.py`)

An index below 1000 is a decimal number; from 1000 on it is written in groups of three
digits, of which all but the last are marked with an `x`.  `indexText` says so with the
digits to the base 1000, `encode_tile_index` writes it, and `decode_tile_index` reads it.
The reader takes a decimal number of up to 19 digits as well, with white space and slashes
around the index.
-/

namespace Signal402.Tiles

/-- `MAX_TILE_INDEX`. -/
def maxTileIndex : ℕ := 9223372036854775807

/-- `MAX_INDEX_PARTS`. -/
def maxIndexParts : ℕ := 7

/-- `MAX_TILE_RELPATH_LEN`. -/
def maxTileRelpathLen : ℕ := 96

def slash : CodePoint := CodePoint.ofChar '/'

def newline : CodePoint := CodePoint.ofChar '\n'

/-- A pattern that ends in `$`, which matches before a last line break as well. -/
def dollar (pattern : PyStr → Bool) (s : PyStr) : Bool :=
  pattern s || (s.getLast? == some newline && pattern s.dropLast)

/-- `_INDEX_LAST`. -/
def indexLast : PyStr → Bool :=
  dollar fun t => t == "0" || (t.isDecimal && t.head? != some (CodePoint.ofChar '0'))

/-- `_INDEX_GROUP`. -/
def indexGroup : PyStr → Bool :=
  dollar fun t => t.length == 4 && t.head? == some (CodePoint.ofChar 'x') &&
    (t.drop 1).all PyStr.isDigitChar

/-- `_INDEX_PADDED`. -/
def indexPadded : PyStr → Bool := dollar fun t => t.length == 3 && t.all PyStr.isDigitChar

/-- `check_tile_index` on an integer. -/
def checkTileIndex (n : ℤ) : Except PyError ℤ :=
  if n < 0 ∨ n > maxTileIndex then .error (.valueError "tile index out of range") else .ok n

/-- `"%03d" % k`. -/
def pad3 (k : ℕ) : PyStr :=
  List.replicate (3 - (natText k).length) (CodePoint.ofChar '0') ++ natText k

/-- The loop of `encode_tile_index`, the last group first. -/
def tileGroups (x : ℕ) : List PyStr :=
  pad3 (x % 1000) :: if _h : x / 1000 = 0 then [] else tileGroups (x / 1000)
termination_by x
decreasing_by omega

/-- All parts but the last one marked with an `x`. -/
def markGroups : List PyStr → List PyStr
  | [] => []
  | [part] => [part]
  | part :: rest => (CodePoint.ofChar 'x' :: part) :: markGroups rest

def encodeTileIndex (n : ℤ) : Except PyError PyStr :=
  (checkTileIndex n).map fun n =>
    if n < 1000 then intText n
    else [slash].intercalate (markGroups (tileGroups n.toNat).reverse)

/-- `s.strip("/")`. -/
def stripSlashes (s : PyStr) : PyStr := PyStr.rstripChar slash (s.dropWhile (· = slash))

section Parse

variable (py : Interp)

/-- The loop of `decode_tile_index` over the parts of a grouped index. -/
def decodeGroups (n : ℤ) : List PyStr → Except PyError ℤ
  | [] => .ok n
  | part :: rest =>
      if n > maxTileIndex / 1000 then .error (.valueError "tile index out of range")
      else
        let digits : Except PyError PyStr :=
          if rest ≠ [] then
            if indexGroup part then .ok (part.drop 1)
            else .error (.valueError "invalid tile index group")
          else if indexPadded part then .ok part
          else .error (.valueError "invalid tile index tail")
        (digits.bind py.int).bind fun k =>
          if n * 1000 + k > maxTileIndex then .error (.valueError "tile index out of range")
          else decodeGroups (n * 1000 + k) rest

def decodeTileIndex (path : PyStr) : Except PyError ℤ :=
  let raw := stripSlashes path.strip
  if raw = [] then .error (.valueError "empty tile index")
  else if raw.length > maxTileRelpathLen then .error (.valueError "tile index path too long")
  else
    let parts := raw.splitOn slash
    if parts.length > maxIndexParts then .error (.valueError "tile index path too long")
    else
      match parts with
      | [part] =>
          if !indexLast part then .error (.valueError "invalid tile index")
          else if part.length > 19 then .error (.valueError "tile index out of range")
          else (py.int part).bind checkTileIndex
      | _ => (decodeGroups py 0 parts).bind checkTileIndex

end Parse

/-- An index as the specification of the log writes it. -/
def indexText (n : ℕ) : PyStr :=
  if n < 1000 then natText n
  else [slash].intercalate (markGroups ((Nat.digits 1000 n).reverse.map pad3))

/-! ## Groups of three digits -/

theorem pad3_fin : ∀ k : Fin 1000, pad3 k =
    [⟨48 + k / 100, by omega⟩, ⟨48 + k / 10 % 10, by omega⟩, ⟨48 + k % 10, by omega⟩] := by
  decide +kernel

theorem pad3_eq {k : ℕ} (h : k < 1000) : pad3 k =
    [⟨48 + k / 100, by omega⟩, ⟨48 + k / 10 % 10, by omega⟩, ⟨48 + k % 10, by omega⟩] :=
  pad3_fin ⟨k, h⟩

/-- Three digits are a group of three digits. -/
theorem isPad3_iff {t : PyStr} :
    (t.length == 3 && t.all PyStr.isDigitChar) = true ↔ ∃ k < 1000, t = pad3 k := by
  rw [Bool.and_eq_true, beq_iff_eq, List.all_eq_true]
  constructor
  · rintro ⟨hlength, hall⟩
    obtain ⟨a, b, c, rfl⟩ := List.length_eq_three.mp hlength
    have ha := isDigitChar_iff.mp (hall a (by simp))
    have hb := isDigitChar_iff.mp (hall b (by simp))
    have hc := isDigitChar_iff.mp (hall c (by simp))
    have hlt : (a.val - 48) * 100 + (b.val - 48) * 10 + (c.val - 48) < 1000 := by omega
    refine ⟨_, hlt, ?_⟩
    rw [pad3_eq hlt]
    simp only [List.cons.injEq, Fin.ext_iff, and_true]
    refine ⟨?_, ?_, ?_⟩ <;> omega
  · rintro ⟨k, hk, rfl⟩
    rw [pad3_eq hk]
    refine ⟨rfl, fun c hc => ?_⟩
    rw [isDigitChar_iff]
    simp only [List.mem_cons, List.not_mem_nil, or_false] at hc
    rcases hc with rfl | rfl | rfl <;> simp only <;> omega

theorem decimalValue_pad3 {k : ℕ} (h : k < 1000) : PyStr.decimalValue (pad3 k) = k := by
  rw [pad3_eq h]
  simp only [PyStr.decimalValue, List.foldl_cons, List.foldl_nil]
  omega

theorem pad3_injective {j k : ℕ} (hj : j < 1000) (hk : k < 1000) (h : pad3 j = pad3 k) : j = k := by
  rw [← decimalValue_pad3 hj, h, decimalValue_pad3 hk]

theorem int_pad3 (py : Interp) {k : ℕ} (h : k < 1000) : py.int (pad3 k) = .ok (k : ℤ) := by
  have hpad := isPad3_iff.mpr ⟨k, h, rfl⟩
  rw [Bool.and_eq_true, beq_iff_eq] at hpad
  have hdecimal : (pad3 k).isDecimal = true := by
    rw [PyStr.isDecimal, hpad.2, pad3_eq h]
    rfl
  have hlength : (pad3 k).length ≤ PyStr.maxIntDigits := by
    rw [hpad.1]
    decide
  rw [Interp.int, Interp.int?, if_pos hdecimal, if_pos hlength, decimalValue_pad3 h]

/-- Where there is no line break, `$` stands for the end. -/
theorem dollar_eq {pattern : PyStr → Bool} {s : PyStr} (h : newline ∉ s) :
    dollar pattern s = pattern s := by
  have hlast : (s.getLast? == some newline) = false := by
    rw [beq_eq_false_iff_ne]
    intro hnewline
    exact h (List.mem_of_getLast? hnewline)
  rw [dollar, hlast, Bool.false_and, Bool.or_false]

/-! ## Values of groups -/

/-- The number that the groups write behind `acc`. -/
def groupsValue (acc : ℕ) (groups : List ℕ) : ℕ := groups.foldl (fun n g => n * 1000 + g) acc

theorem le_groupsValue (acc : ℕ) (groups : List ℕ) : acc ≤ groupsValue acc groups := by
  induction groups generalizing acc with
  | nil => exact le_rfl
  | cons g groups ih =>
      have h := ih (acc * 1000 + g)
      simp only [groupsValue, List.foldl_cons] at h ⊢
      omega

theorem groupsValue_eq (acc : ℕ) (groups : List ℕ) :
    groupsValue acc groups = acc * 1000 ^ groups.length + Nat.ofDigits 1000 groups.reverse := by
  induction groups generalizing acc with
  | nil => simp [groupsValue]
  | cons g groups ih =>
      have hstep : groupsValue acc (g :: groups) = groupsValue (acc * 1000 + g) groups := rfl
      rw [hstep, ih, List.reverse_cons, Nat.ofDigits_append, List.length_reverse,
        Nat.ofDigits_singleton, List.length_cons, pow_succ]
      ring

/-- The groups of a number are its digits to the base 1000. -/
theorem groups_eq_digits {groups : List ℕ} (hlt : ∀ g ∈ groups, g < 1000)
    (hhead : groups.head? ≠ some 0) :
    groups = (Nat.digits 1000 (groupsValue 0 groups)).reverse := by
  rw [groupsValue_eq, Nat.zero_mul, Nat.zero_add, Nat.digits_ofDigits 1000 (by omega),
    List.reverse_reverse]
  · exact fun g hg => hlt g (List.mem_reverse.mp hg)
  · intro hne hlast
    rw [List.getLast_reverse] at hlast
    apply hhead
    rw [← hlast, List.head?_eq_some_head]

theorem groupsValue_digits (n : ℕ) : groupsValue 0 (Nat.digits 1000 n).reverse = n := by
  rw [groupsValue_eq, List.reverse_reverse, Nat.ofDigits_digits]
  simp

/-- The loop of the source collects the digits to the base 1000. -/
theorem tileGroups_eq {x : ℕ} (h : 0 < x) : tileGroups x = (Nat.digits 1000 x).map pad3 := by
  induction x using Nat.strong_induction_on with
  | _ x ih =>
      rw [tileGroups, Nat.digits_def' (by omega) h, List.map_cons]
      congr 1
      split
      · rename_i hzero
        rw [hzero]
        simp
      · rename_i hpos
        exact ih _ (by omega) (by omega)

/-! ## Parts of a grouped index -/

theorem markGroups_cons {part : PyStr} {rest : List PyStr} (h : rest ≠ []) :
    markGroups (part :: rest) = (CodePoint.ofChar 'x' :: part) :: markGroups rest := by
  cases rest with
  | nil => exact absurd rfl h
  | cons q rest => rfl

theorem length_markGroups (parts : List PyStr) : (markGroups parts).length = parts.length := by
  induction parts with
  | nil => rfl
  | cons part rest ih =>
      cases rest with
      | nil => rfl
      | cons q rest => rw [markGroups_cons (List.cons_ne_nil q rest), List.length_cons, ih,
          List.length_cons, List.length_cons, List.length_cons]

/-- The characters of a marked part. -/
theorem mem_markGroups {parts : List PyStr} {part : PyStr} (h : part ∈ markGroups parts) :
    part ∈ parts ∨ ∃ q ∈ parts, part = CodePoint.ofChar 'x' :: q := by
  induction parts with
  | nil => cases h
  | cons p rest ih =>
      cases rest with
      | nil =>
          rw [List.mem_singleton.mp h]
          exact .inl List.mem_cons_self
      | cons q rest =>
          rw [markGroups_cons (List.cons_ne_nil q rest)] at h
          rcases List.mem_cons.mp h with rfl | h
          · exact .inr ⟨p, List.mem_cons_self, rfl⟩
          · rcases ih h with hmem | ⟨r, hr, rfl⟩
            · exact .inl (List.mem_cons_of_mem _ hmem)
            · exact .inr ⟨r, List.mem_cons_of_mem _ hr, rfl⟩

section Decode

variable (py : Interp)

/-- A group that is not the last one. -/
theorem indexGroup_iff {part : PyStr} (h : newline ∉ part) :
    indexGroup part = true ↔ ∃ k < 1000, part = CodePoint.ofChar 'x' :: pad3 k := by
  rw [indexGroup, dollar_eq h]
  cases part with
  | nil =>
      simp only [List.length_nil, List.head?_nil, reduceCtorEq, and_false, exists_false]
      decide
  | cons c rest =>
      have hpad := isPad3_iff (t := rest)
      simp only [Bool.and_eq_true, beq_iff_eq, List.length_cons, List.head?_cons,
        Option.some.injEq, List.drop_succ_cons, List.drop_zero, List.cons.injEq] at hpad ⊢
      constructor
      · rintro ⟨⟨hlength, rfl⟩, hall⟩
        obtain ⟨k, hk, rfl⟩ := hpad.mp ⟨by omega, hall⟩
        exact ⟨k, hk, rfl, rfl⟩
      · rintro ⟨k, hk, rfl, rfl⟩
        obtain ⟨hlength, hall⟩ := hpad.mpr ⟨k, hk, rfl⟩
        exact ⟨⟨by omega, rfl⟩, hall⟩

theorem indexPadded_iff {part : PyStr} (h : newline ∉ part) :
    indexPadded part = true ↔ ∃ k < 1000, part = pad3 k := by
  rw [indexPadded, dollar_eq h, isPad3_iff]

/-- One round of the loop. -/
theorem decodeGroups_cons {part : PyStr} {rest : List PyStr} {acc : ℕ} {n : ℤ}
    (hline : newline ∉ part) :
    decodeGroups py acc (part :: rest) = .ok n ↔
      acc ≤ maxTileIndex / 1000 ∧ ∃ k < 1000,
        part = (if rest ≠ [] then CodePoint.ofChar 'x' :: pad3 k else pad3 k) ∧
          acc * 1000 + k ≤ maxTileIndex ∧ decodeGroups py (acc * 1000 + k : ℕ) rest = .ok n := by
  rw [decodeGroups]
  split
  · rename_i hbig
    simp only [reduceCtorEq, false_iff, not_and]
    intro h
    omega
  · rename_i hbig
    -- what the part is read as
    have hdigits : ∀ k : ℤ, ((if rest ≠ [] then
          if indexGroup part then Except.ok (part.drop 1)
          else .error (.valueError "invalid tile index group")
        else if indexPadded part then Except.ok part
          else .error (.valueError "invalid tile index tail" : PyError)).bind py.int = .ok k) ↔
        ∃ j < 1000, k = (j : ℕ) ∧
          part = (if rest ≠ [] then CodePoint.ofChar 'x' :: pad3 j else pad3 j) := by
      intro k
      split
      · by_cases hgroup : indexGroup part = true
        · obtain ⟨j, hj, rfl⟩ := (indexGroup_iff hline).mp hgroup
          rw [if_pos hgroup, List.drop_succ_cons, List.drop_zero, Except.bind, int_pad3 py hj]
          constructor
          · intro h
            exact ⟨j, hj, (Except.ok.inj h).symm, rfl⟩
          · rintro ⟨i, hi, rfl, hpart⟩
            rw [pad3_injective hj hi (List.cons.inj hpart).2]
        · rw [if_neg hgroup]
          simp only [Except.bind, reduceCtorEq, false_iff, not_exists, not_and]
          rintro j hj - hpart
          exact hgroup ((indexGroup_iff hline).mpr ⟨j, hj, hpart⟩)
      · by_cases hpadded : indexPadded part = true
        · obtain ⟨j, hj, rfl⟩ := (indexPadded_iff hline).mp hpadded
          rw [if_pos hpadded, Except.bind, int_pad3 py hj]
          constructor
          · intro h
            exact ⟨j, hj, (Except.ok.inj h).symm, rfl⟩
          · rintro ⟨i, hi, rfl, hpart⟩
            rw [pad3_injective hj hi hpart]
        · rw [if_neg hpadded]
          simp only [Except.bind, reduceCtorEq, false_iff, not_exists, not_and]
          rintro j hj - hpart
          exact hpadded ((indexPadded_iff hline).mpr ⟨j, hj, hpart⟩)
    simp only [bind_eq_ok, hdigits]
    constructor
    · rintro ⟨k, ⟨j, hj, rfl, hpart⟩, h⟩
      split at h
      · cases h
      · rename_i hmax
        refine ⟨by omega, j, hj, hpart, by omega, ?_⟩
        push_cast
        exact h
    · rintro ⟨hacc, j, hj, hpart, hmax, h⟩
      refine ⟨j, ⟨j, hj, rfl, hpart⟩, ?_⟩
      rw [if_neg (by omega)]
      push_cast at h
      exact h

/-- The loop reads the groups of a number that is in range. -/
theorem decodeGroups_eq_ok {parts : List PyStr} {acc : ℕ} {n : ℤ}
    (hline : ∀ part ∈ parts, newline ∉ part) (hne : parts ≠ []) :
    decodeGroups py acc parts = .ok n ↔
      ∃ groups : List ℕ, (∀ g ∈ groups, g < 1000) ∧ parts = markGroups (groups.map pad3) ∧
        n = groupsValue acc groups ∧ groupsValue acc groups ≤ maxTileIndex := by
  induction parts generalizing acc with
  | nil => exact absurd rfl hne
  | cons part rest ih =>
      rw [decodeGroups_cons py (hline part List.mem_cons_self)]
      rcases eq_or_ne rest [] with rfl | hrest
      · constructor
        · rintro ⟨-, k, hk, hpart, hmax, h⟩
          refine ⟨[k], by simpa using hk, ?_, (Except.ok.inj h).symm, hmax⟩
          rw [hpart]
          rfl
        · rintro ⟨groups, hlt, hparts, rfl, hmax⟩
          have hlength := congrArg List.length hparts
          rw [length_markGroups, List.length_map, List.length_singleton] at hlength
          obtain ⟨k, rfl⟩ := List.length_eq_one_iff.mp hlength.symm
          have hvalue : groupsValue acc [k] = acc * 1000 + k := rfl
          rw [hvalue] at hmax ⊢
          refine ⟨by omega, k, hlt k (by simp), ?_, hmax, rfl⟩
          simpa [markGroups] using hparts
      · have hline' : ∀ part ∈ rest, newline ∉ part :=
          fun q hq => hline q (List.mem_cons_of_mem _ hq)
        have hmarked : ∀ {k : ℕ} {groups : List ℕ}, rest = markGroups (groups.map pad3) →
            markGroups ((k :: groups).map pad3) = (CodePoint.ofChar 'x' :: pad3 k) :: rest := by
          intro k groups hparts
          have hgroups : groups.map pad3 ≠ [] := by
            intro hnil
            rw [hnil] at hparts
            exact hrest hparts
          rw [List.map_cons, markGroups_cons hgroups, hparts]
        constructor
        · rintro ⟨-, k, hk, hpart, -, h⟩
          obtain ⟨groups, hlt, hparts, hn, hmax⟩ := (ih hline' hrest).mp h
          refine ⟨k :: groups, List.forall_mem_cons.mpr ⟨hk, hlt⟩, ?_, hn, hmax⟩
          rw [hmarked hparts, hpart, if_pos hrest]
        · rintro ⟨groups, hlt, hparts, hn, hmax⟩
          cases groups with
          | nil => cases hparts
          | cons k groups =>
              have hvalue : groupsValue acc (k :: groups) = groupsValue (acc * 1000 + k) groups :=
                rfl
              have hlength := congrArg List.length hparts
              have hpos : 0 < rest.length := List.length_pos_iff.mpr hrest
              rw [length_markGroups, List.length_map, List.length_cons, List.length_cons] at hlength
              have hgroups : groups.map pad3 ≠ [] := by
                rw [Ne, List.map_eq_nil_iff, ← List.length_eq_zero_iff]
                omega
              rw [List.map_cons, markGroups_cons hgroups, List.cons.injEq] at hparts
              rw [hvalue] at hn hmax
              have hacc := le_groupsValue (acc * 1000 + k) groups
              refine ⟨by omega, k, hlt k List.mem_cons_self, ?_, by omega, ?_⟩
              · rw [if_pos hrest]
                exact hparts.1
              · apply (ih hline' hrest).mpr
                exact ⟨groups, fun g hg => hlt g (List.mem_cons_of_mem _ hg), hparts.2, hn, hmax⟩

end Decode

/-! ## Indexes -/

theorem startsWith_intercalate {sep : CodePoint} {part t : PyStr} {rest : List PyStr}
    (h : t <+: part) : PyStr.startsWith ([sep].intercalate (part :: rest)) t = true := by
  rw [PyStr.startsWith, List.isPrefixOf_iff_prefix]
  cases rest with
  | nil => rwa [List.intercalate_singleton]
  | cons q rest =>
      rw [List.intercalate_cons_cons, List.append_assoc]
      exact h.trans (List.prefix_append _ _)

theorem mem_of_mem_splitOn {sep c : CodePoint} {s part : PyStr} (h : part ∈ s.splitOn sep)
    (hc : c ∈ part) : c ∈ s := by
  have hjoin : [sep].intercalate (s.splitOn sep) = s := List.intercalate_splitOn sep
  rw [← hjoin]
  generalize s.splitOn sep = parts at h
  induction parts with
  | nil => cases h
  | cons p rest ih =>
      cases rest with
      | nil =>
          rw [List.mem_singleton.mp h] at hc
          rwa [List.intercalate_singleton]
      | cons q rest =>
          rw [List.intercalate_cons_cons]
          rcases List.mem_cons.mp h with rfl | h
          · exact List.mem_append_left _ (List.mem_append_left _ hc)
          · exact List.mem_append_right _ (ih h)

/-- The parts of an index from 1000 on. -/
def indexParts (n : ℕ) : List PyStr := markGroups ((Nat.digits 1000 n).reverse.map pad3)

theorem digits_lt {n g : ℕ} (h : g ∈ (Nat.digits 1000 n).reverse) : g < 1000 :=
  Nat.digits_lt_base (by omega) (List.mem_reverse.mp h)

/-- The parts are digits, which an `x` may mark. -/
theorem mem_indexParts {n : ℕ} {part : PyStr} {c : CodePoint} (hpart : part ∈ indexParts n)
    (hc : c ∈ part) : PyStr.isDigitChar c = true ∨ c = CodePoint.ofChar 'x' := by
  have hgroup : ∀ q ∈ (Nat.digits 1000 n).reverse.map pad3, c ∈ q →
      PyStr.isDigitChar c = true := by
    intro q hq hmem
    obtain ⟨g, hg, rfl⟩ := List.mem_map.mp hq
    have hpad := isPad3_iff.mpr ⟨g, digits_lt hg, rfl⟩
    rw [Bool.and_eq_true, List.all_eq_true] at hpad
    exact hpad.2 c hmem
  rcases mem_markGroups hpart with hq | ⟨q, hq, rfl⟩
  · exact .inl (hgroup part hq hc)
  · rcases List.mem_cons.mp hc with rfl | hc
    · exact .inr rfl
    · exact .inl (hgroup q hq hc)

/-- The characters of an index. -/
theorem mem_indexText {n : ℕ} {c : CodePoint} (h : c ∈ indexText n) :
    PyStr.isDigitChar c = true ∨ c = CodePoint.ofChar 'x' ∨ c = slash := by
  rw [indexText] at h
  split at h
  · exact .inl (isDigitChar_of_mem_natText h)
  · rcases Lines.mem_intercalate h with h | ⟨part, hpart, hc⟩
    · exact .inr (.inr h)
    · rcases mem_indexParts hpart hc with h | h
      · exact .inl h
      · exact .inr (.inl h)

theorem indexChar_ne {c d : CodePoint}
    (h : PyStr.isDigitChar c = true ∨ c = CodePoint.ofChar 'x' ∨ c = slash)
    (hdigit : PyStr.isDigitChar d = false) (hx : d ≠ CodePoint.ofChar 'x') (hslash : d ≠ slash) :
    c ≠ d := by
  rintro rfl
  rcases h with h | h | h
  · rw [h] at hdigit
    cases hdigit
  · exact hx h
  · exact hslash h

theorem slash_notMem_natText (n : ℕ) : slash ∉ natText n := by
  intro h
  exact absurd (isDigitChar_of_mem_natText h) (by decide)

theorem newline_notMem_natText (n : ℕ) : newline ∉ natText n := by
  intro h
  exact absurd (isDigitChar_of_mem_natText h) (by decide)

theorem slash_notMem_indexParts {n : ℕ} {part : PyStr} (h : part ∈ indexParts n) :
    slash ∉ part := by
  intro hc
  rcases mem_indexParts h hc with h | h
  · exact absurd h (by decide)
  · exact absurd h (by decide)

theorem length_indexParts {n : ℕ} (h : n ≤ maxTileIndex) :
    (indexParts n).length ≤ maxIndexParts := by
  rw [indexParts, length_markGroups, List.length_map, List.length_reverse,
    Nat.digits_length_le_iff (by omega)]
  exact Nat.lt_of_le_of_lt h (by decide)

theorem two_le_length_indexParts {n : ℕ} (h : 1000 ≤ n) : 2 ≤ (indexParts n).length := by
  rw [indexParts, length_markGroups, List.length_map, List.length_reverse]
  by_contra hlt
  have hle := (Nat.digits_length_le_iff (b := 1000) (k := 1) (by omega) n).mp (by omega)
  omega

theorem length_part {n : ℕ} {part : PyStr} (h : part ∈ indexParts n) :
    3 ≤ part.length ∧ part.length ≤ 4 := by
  have hgroup : ∀ q ∈ (Nat.digits 1000 n).reverse.map pad3, q.length = 3 := by
    intro q hq
    obtain ⟨g, hg, rfl⟩ := List.mem_map.mp hq
    rw [pad3_eq (digits_lt hg)]
    rfl
  rcases mem_markGroups h with hq | ⟨q, hq, rfl⟩
  · rw [hgroup part hq]
    omega
  · rw [List.length_cons, hgroup q hq]
    omega

theorem length_intercalate_le {sep : CodePoint} {parts : List PyStr} {k : ℕ}
    (h : ∀ part ∈ parts, part.length ≤ k) :
    ([sep].intercalate parts).length ≤ (k + 1) * parts.length := by
  induction parts with
  | nil => simp
  | cons part rest ih =>
      have hpart := h part List.mem_cons_self
      cases rest with
      | nil =>
          rw [List.intercalate_singleton, List.length_singleton]
          omega
      | cons q rest =>
          have hrest := ih fun r hr => h r (List.mem_cons_of_mem _ hr)
          rw [List.intercalate_cons_cons, List.length_append, List.length_append,
            List.length_singleton, List.length_cons (a := part), Nat.mul_succ]
          omega

theorem natText_length {n : ℕ} (h : n ≤ maxTileIndex) : (natText n).length ≤ 19 := by
  rw [natText_length_le_iff (by omega)]
  exact Nat.lt_of_le_of_lt h (by decide)

theorem int_natText_index (py : Interp) {n : ℕ} (h : n ≤ maxTileIndex) :
    py.int (natText n) = .ok (n : ℤ) := by
  apply int_natText
  have hlt : maxTileIndex < 10 ^ 19 := by decide
  have hpow : 10 ^ 19 ≤ 10 ^ PyStr.maxIntDigits := Nat.pow_le_pow_right (by omega) (by decide)
  omega

theorem checkTileIndex_eq_ok {k n : ℤ} :
    checkTileIndex k = .ok n ↔ k = n ∧ 0 ≤ n ∧ n ≤ maxTileIndex := by
  rw [checkTileIndex]
  split
  · simp only [reduceCtorEq, false_iff, not_and]
    rintro rfl _
    omega
  · constructor
    · intro h
      obtain rfl := Except.ok.inj h
      exact ⟨rfl, by omega, by omega⟩
    · rintro ⟨rfl, -, -⟩
      rfl

section Decode

variable (py : Interp)

theorem indexLast_iff {t : PyStr} (h : newline ∉ t) : indexLast t = true ↔ ∃ n, t = natText n := by
  rw [indexLast, dollar_eq h, ← isNumeral_iff, Bool.or_eq_true, Bool.and_eq_true, beq_iff_eq,
    bne_iff_ne]
  constructor
  · rintro (rfl | ⟨hdecimal, hhead⟩)
    · decide
    · exact ⟨hdecimal, fun _ => hhead⟩
  · rintro ⟨hdecimal, hhead⟩
    rcases Nat.lt_or_ge 1 t.length with hlength | hlength
    · exact .inr ⟨hdecimal, hhead hlength⟩
    · by_cases hzero : t.head? = some (CodePoint.ofChar '0')
      · cases t with
        | nil => cases hzero
        | cons c rest =>
            obtain rfl := Option.some.inj hzero
            obtain rfl : rest = [] := by
              rw [List.length_cons] at hlength
              exact List.length_eq_zero_iff.mp (by omega)
            exact .inl rfl
      · exact .inr ⟨hdecimal, hzero⟩

/-- What is read as an index, on one line and without a zero group in front. -/
theorem indexText_of_decodeTileIndex {path : PyStr} {n : ℤ}
    (hline : newline ∉ stripSlashes path.strip)
    (hzero : PyStr.startsWith (stripSlashes path.strip) "x000" = false)
    (h : decodeTileIndex py path = .ok n) :
    ∃ m : ℕ, m ≤ maxTileIndex ∧ n = m ∧
      (stripSlashes path.strip = indexText m ∨ stripSlashes path.strip = natText m) := by
  rw [decodeTileIndex] at h
  generalize stripSlashes path.strip = raw at hline hzero h
  have hjoin : [slash].intercalate (raw.splitOn slash) = raw := List.intercalate_splitOn slash
  simp only at h
  split at h
  · cases h
  split at h
  · cases h
  split at h
  · cases h
  split at h
  · rename_i part hpart
    obtain rfl : raw = part := by rw [← hjoin, hpart, List.intercalate_singleton]
    split at h
    · cases h
    rename_i hlast
    simp only [Bool.not_eq_true', Bool.not_eq_false] at hlast
    obtain ⟨m, rfl⟩ := (indexLast_iff hline).mp hlast
    split at h
    · cases h
    rename_i hlength
    have hlt : m < 10 ^ 19 := (natText_length_le_iff (by omega)).mp (by omega)
    have hpow : 10 ^ 19 ≤ 10 ^ PyStr.maxIntDigits := Nat.pow_le_pow_right (by omega) (by decide)
    rw [int_natText py (by omega), Except.bind, checkTileIndex_eq_ok] at h
    obtain ⟨rfl, -, hmax⟩ := h
    exact ⟨m, by omega, rfl, .inr rfl⟩
  · rename_i hsingle
    obtain ⟨k, hk, hcheck⟩ := bind_eq_ok.mp h
    have hlines : ∀ part ∈ raw.splitOn slash, newline ∉ part := by
      intro part hpart hmem
      exact hline (mem_of_mem_splitOn hpart hmem)
    obtain ⟨groups, hlt, hparts, rfl, hmax⟩ :=
      (decodeGroups_eq_ok py hlines (List.splitOn_ne_nil slash raw)).mp hk
    obtain ⟨rfl, -, -⟩ := checkTileIndex_eq_ok.mp hcheck
    -- there are two groups at least, and the first one is not zero
    have htwo : 2 ≤ groups.length := by
      rcases groups with _ | ⟨g, _ | ⟨g', groups⟩⟩
      · exact absurd hparts (List.splitOn_ne_nil slash raw)
      · exact absurd hparts (hsingle (pad3 g))
      · simp
    have hhead : groups.head? ≠ some 0 := by
      intro hfirst
      obtain ⟨tail, rfl⟩ := List.head?_eq_some_iff.mp hfirst
      have htail : tail.map pad3 ≠ [] := by
        intro hnil
        rw [List.map_eq_nil_iff] at hnil
        rw [hnil] at htwo
        exact absurd htwo (by decide)
      rw [List.map_cons, markGroups_cons htail] at hparts
      rw [← hjoin, hparts, startsWith_intercalate (by decide)] at hzero
      cases hzero
    have hdigits := groups_eq_digits hlt hhead
    refine ⟨groupsValue 0 groups, hmax, rfl, .inl ?_⟩
    have hbig : ¬ groupsValue 0 groups < 1000 := by
      intro hsmall
      have hone := (Nat.digits_length_le_iff (b := 1000) (k := 1) (by omega)
        (groupsValue 0 groups)).mpr (by omega)
      rw [hdigits, List.length_reverse] at htwo
      omega
    rw [indexText, if_neg hbig, ← hdigits, ← hparts, hjoin]
/-- An index is read, in groups or as one decimal number. -/
theorem decodeTileIndex_indexText {path : PyStr} {m : ℕ} (hm : m ≤ maxTileIndex)
    (hraw : stripSlashes path.strip = indexText m ∨ stripSlashes path.strip = natText m) :
    decodeTileIndex py path = .ok (m : ℤ) := by
  rw [decodeTileIndex]
  generalize stripSlashes path.strip = raw at hraw
  have hcheck : checkTileIndex (m : ℤ) = .ok (m : ℤ) :=
    checkTileIndex_eq_ok.mpr ⟨rfl, by omega, by omega⟩
  have hplain : raw = natText m ∨ 1000 ≤ m ∧ raw = [slash].intercalate (indexParts m) := by
    rcases hraw with h | h
    · rw [indexText] at h
      split at h
      · exact .inl h
      · exact .inr ⟨by omega, h⟩
    · exact .inl h
  rcases hplain with rfl | ⟨hbig, rfl⟩
  · have hlength := natText_length hm
    rw [List.splitOn_eq_singleton (slash_notMem_natText m)]
    simp only
    rw [if_neg (natText_ne_nil m), if_neg (by rw [maxTileRelpathLen]; omega),
      if_neg (by rw [List.length_singleton]; decide), (indexLast_iff (newline_notMem_natText m)).mpr ⟨m, rfl⟩, if_neg (by decide),
      if_neg (by omega), int_natText_index py hm]
    exact hcheck
  · have hlength := length_indexParts hm
    have htwo := two_le_length_indexParts hbig
    have hne : indexParts m ≠ [] := by
      intro hnil
      rw [hnil] at htwo
      exact absurd htwo (by decide)
    have hslash : ∀ part ∈ indexParts m, slash ∉ part := fun part h => slash_notMem_indexParts h
    have hsize : ([slash].intercalate (indexParts m)).length ≤ (4 + 1) * (indexParts m).length :=
      length_intercalate_le fun part h => (length_part h).2
    have hmaxSize : ([slash].intercalate (indexParts m)).length ≤ maxTileRelpathLen := by
      rw [maxIndexParts] at hlength
      rw [maxTileRelpathLen]
      omega
    have hsome : [slash].intercalate (indexParts m) ≠ [] := by
      intro hnil
      have hsplit := List.splitOn_intercalate slash hslash hne
      rw [hnil] at hsplit
      rw [← hsplit] at htwo
      exact absurd htwo (by decide)
    rw [List.splitOn_intercalate slash hslash hne]
    simp only
    rw [if_neg hsome, if_neg (by omega), if_neg (by omega)]
    split
    · rename_i part hpart
      rw [hpart, List.length_singleton] at htwo
      omega
    · have hvalue := groupsValue_digits m
      have hgroups := (decodeGroups_eq_ok py (n := (m : ℤ))
        (fun part h hmem => by
          rcases mem_indexParts h hmem with h | h
          · exact absurd h (by decide)
          · exact absurd h (by decide)) hne).mpr
        ⟨(Nat.digits 1000 m).reverse, fun g hg => digits_lt hg, rfl, by rw [hvalue], by omega⟩
      have hzero : ((0 : ℕ) : ℤ) = 0 := rfl
      rw [hzero] at hgroups
      rw [hgroups]
      exact hcheck

/-! ## What is written -/

theorem encodeTileIndex_eq {n : ℕ} (h : n ≤ maxTileIndex) :
    encodeTileIndex n = .ok (indexText n) := by
  rw [encodeTileIndex, checkTileIndex_eq_ok.mpr ⟨rfl, by omega, by omega⟩, Except.map, indexText]
  by_cases hsmall : n < 1000
  · rw [if_pos hsmall, if_pos (by omega), intText, if_neg (by omega)]
    rfl
  · rw [if_neg hsmall, if_neg (by omega), Int.toNat_natCast, tileGroups_eq (by omega),
      List.map_reverse]

theorem indexText_plain (n : ℕ) : (indexText n).all isPlain = true := by
  rw [List.all_eq_true]
  intro c hc
  rcases mem_indexText hc with h | rfl | rfl
  · exact isPlain_digit h
  · decide
  · decide

/-- Slashes are only stripped from the ends. -/
theorem stripSlashes_eq_self {s : PyStr} (hhead : s.head? ≠ some slash)
    (hlast : s.getLast? ≠ some slash) : stripSlashes s = s := by
  have hdrop : ∀ t : PyStr, t.head? ≠ some slash → t.dropWhile (· = slash) = t := by
    intro t ht
    cases t with
    | nil => rfl
    | cons c rest =>
        rw [List.dropWhile_cons_of_neg]
        simpa using ht
  rw [stripSlashes, hdrop s hhead, PyStr.rstripChar, hdrop, List.reverse_reverse]
  rwa [List.head?_reverse]

/-- A list of parts that are not empty begins and ends with a part. -/
theorem ends_intercalate {parts : List PyStr} (h : ∀ part ∈ parts, part ≠ [] ∧ slash ∉ part) :
    ([slash].intercalate parts).head? ≠ some slash ∧
      ([slash].intercalate parts).getLast? ≠ some slash := by
  induction parts with
  | nil => simp
  | cons part rest ih =>
      obtain ⟨hne, hslash⟩ := h part List.mem_cons_self
      have hhead : ∀ behind : PyStr, (part ++ behind).head? ≠ some slash := by
        intro behind hsome
        rw [List.head?_append_of_ne_nil _ hne] at hsome
        exact hslash (List.mem_of_head? hsome)
      cases rest with
      | nil =>
          rw [List.intercalate_singleton]
          refine ⟨by simpa using hhead [], fun hsome => hslash (List.mem_of_getLast? hsome)⟩
      | cons q rest =>
          obtain ⟨-, hlast⟩ := ih fun r hr => h r (List.mem_cons_of_mem _ hr)
          rw [List.intercalate_cons_cons]
          refine ⟨by rw [List.append_assoc]; exact hhead _, ?_⟩
          have hsome : [slash].intercalate (q :: rest) ≠ [] := by
            intro hnil
            have hq := (h q (List.mem_cons_of_mem _ List.mem_cons_self)).1
            cases rest with
            | nil => exact hq (by simpa using hnil)
            | cons r rest =>
                rw [List.intercalate_cons_cons, List.append_eq_nil_iff,
                  List.append_eq_nil_iff] at hnil
                exact hq hnil.1.1
          rwa [List.getLast?_append_of_ne_nil _ hsome]

theorem stripSlashes_indexText (n : ℕ) : stripSlashes (indexText n) = indexText n := by
  rw [indexText]
  split
  · have hslash := slash_notMem_natText n
    exact stripSlashes_eq_self (fun h => hslash (List.mem_of_head? h))
      fun h => hslash (List.mem_of_getLast? h)
  · have hparts : ∀ part ∈ indexParts n, part ≠ [] ∧ slash ∉ part := by
      intro part hpart
      refine ⟨?_, slash_notMem_indexParts hpart⟩
      rintro rfl
      exact absurd (length_part hpart).1 (by decide)
    obtain ⟨hhead, hlast⟩ := ends_intercalate hparts
    exact stripSlashes_eq_self hhead hlast

theorem length_indexText {n : ℕ} (h : n ≤ maxTileIndex) : (indexText n).length ≤ 35 := by
  have hdecimal := natText_length h
  have hcount := length_indexParts h
  have hgroups : ([slash].intercalate (indexParts n)).length ≤ (4 + 1) * (indexParts n).length :=
    length_intercalate_le fun part hpart => (length_part hpart).2
  rw [maxIndexParts] at hcount
  rw [indexText]
  split
  · omega
  · rw [← indexParts]
    omega

/-- The characters around an index are white space and slashes. -/
theorem mem_around {s : PyStr} {c : CodePoint} (h : c ∈ s) :
    PyStr.isSpace c = true ∨ c = slash ∨ c ∈ stripSlashes s.strip := by
  have hstrip : PyStr.isSpace c = true ∨ c ∈ s.strip := by
    rcases mem_dropWhile_or (p := PyStr.isSpace) h with h | h
    · exact .inl h
    · rcases mem_dropWhile_or (p := PyStr.isSpace) (List.mem_reverse.mpr h) with h | h
      · exact .inl h
      · exact .inr (List.mem_reverse.mpr h)
  rcases hstrip with h | h
  · exact .inl h
  · rcases mem_dropWhile_or (p := fun c => decide (c = slash)) h with h | h
    · exact .inr (.inl (of_decide_eq_true h))
    · rcases mem_dropWhile_or (p := fun c => decide (c = slash)) (List.mem_reverse.mpr h) with h | h
      · exact .inr (.inl (of_decide_eq_true h))
      · exact .inr (.inr (List.mem_reverse.mpr h))

theorem mem_of_mem_stripSlashes {s : PyStr} {c : CodePoint} (h : c ∈ stripSlashes s) : c ∈ s := by
  have hback := List.mem_reverse.mp h
  have hfront := List.mem_reverse.mp ((List.dropWhile_sublist _).subset hback)
  exact (List.dropWhile_sublist _).subset hfront

/-! ## Any text -/

/-- An answer of the parser: a value in range, or a `ValueError`. -/
def Answers {α : Type*} (P : α → Prop) (x : Except PyError α) : Prop :=
  (∃ a, x = .ok a ∧ P a) ∨ ∃ message, x = .error (.valueError message)

theorem Answers.bind {α β : Type*} {P : α → Prop} {Q : β → Prop} {x : Except PyError α}
    {f : α → Except PyError β} (hx : Answers P x) (hf : ∀ a, P a → Answers Q (f a)) :
    Answers Q (x.bind f) := by
  rcases hx with ⟨a, rfl, ha⟩ | ⟨message, rfl⟩
  · exact hf a ha
  · exact .inr ⟨message, rfl⟩

theorem Answers.map {α β : Type*} {P : α → Prop} {Q : β → Prop} {x : Except PyError α}
    {f : α → β} (hx : Answers P x) (hf : ∀ a, P a → Q (f a)) : Answers Q (x.map f) := by
  rcases hx with ⟨a, rfl, ha⟩ | ⟨message, rfl⟩
  · exact .inl ⟨f a, rfl, hf a ha⟩
  · exact .inr ⟨message, rfl⟩

theorem answers_error {α : Type*} {P : α → Prop} (message : String) :
    Answers P (.error (.valueError message) : Except PyError α) :=
  .inr ⟨message, rfl⟩

theorem int_answers (s : PyStr) : Answers (fun _ => True) (py.int s) := by
  rw [Interp.int]
  split
  · exact .inl ⟨_, rfl, trivial⟩
  · exact answers_error _

/-- What an index can be. -/
def IndexInRange (n : ℤ) : Prop := 0 ≤ n ∧ n ≤ maxTileIndex

/-- What the width of a partial tile can be. -/
def WidthInRange (width : Option ℤ) : Prop := ∀ w ∈ width, 1 ≤ w ∧ w ≤ 255

theorem checkTileIndex_answers (n : ℤ) : Answers IndexInRange (checkTileIndex n) := by
  rw [checkTileIndex]
  split
  · exact answers_error _
  · exact .inl ⟨n, rfl, by omega, by omega⟩

theorem decodeGroups_answers (acc : ℤ) (parts : List PyStr) :
    Answers (fun _ => True) (decodeGroups py acc parts) := by
  induction parts generalizing acc with
  | nil => exact .inl ⟨acc, rfl, trivial⟩
  | cons part rest ih =>
      rw [decodeGroups]
      split
      · exact answers_error _
      · refine Answers.bind (P := fun _ => True) (Answers.bind (P := fun _ => True) ?_
          fun digits _ => int_answers py digits) fun k _ => ?_
        · split
          · split
            · exact .inl ⟨_, rfl, trivial⟩
            · exact answers_error _
          · split
            · exact .inl ⟨_, rfl, trivial⟩
            · exact answers_error _
        · split
          · exact answers_error _
          · exact ih _

theorem decodeTileIndex_answers (path : PyStr) :
    Answers IndexInRange (decodeTileIndex py path) := by
  rw [decodeTileIndex]
  split
  · exact answers_error _
  split
  · exact answers_error _
  simp only
  split
  · exact answers_error _
  split
  · split
    · exact answers_error _
    split
    · exact answers_error _
    exact (int_answers py _).bind fun n _ => checkTileIndex_answers n
  · exact (decodeGroups_answers py 0 _).bind fun n _ => checkTileIndex_answers n

end Decode

end Signal402.Tiles
