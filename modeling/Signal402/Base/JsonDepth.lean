import Signal402.Base.JsonRoundTrip

/-!
# How `json.loads` fails

A text that is no JSON raises `JSONDecodeError`, a hook raises what it raises, and a list or
dictionary below the last level of the reader raises `RecursionError`.  `Deeper` says where
that last one comes from: the reader opens a list or dictionary at each of its levels and
finds one more behind values that are well formed.

* `scanOnce_suffix` — what stands behind a value is the end of the text;
* `loadsWith_error`, `loadsWith_of_deeper` — `json.loads` raises `RecursionError` on the texts
  that are too deep and on no others;
* `Deeper.lt_countP` — such a text has more opening brackets than the reader has levels.
-/

namespace Signal402

/-! ## The text behind a value -/

theorem skipSpace_suffix (s : PyStr) : skipSpace s <:+ s := List.dropWhile_suffix _

theorem scanUnits_suffix {s rest : PyStr} {us : List (Bool × CodePoint)}
    (h : scanUnits s = .ok (us, rest)) : rest <:+ s := by
  have hmap : ∀ {t : PyStr} {u : Bool × CodePoint} {us : List (Bool × CodePoint)},
      (scanUnits t).map (fun r => (u :: r.1, r.2)) = .ok (us, rest) →
      ∃ us', scanUnits t = .ok (us', rest) := by
    intro t u us h
    obtain ⟨⟨us', rest'⟩, hr, hpair⟩ := map_eq_ok.mp h
    cases hpair
    exact ⟨us', hr⟩
  fun_induction scanUnits s generalizing us with
  | case2 c s hc =>
      cases h
      exact List.suffix_cons _ _
  | case4 c hc hc' e he h1 h2 h3 h4 s u hu ih =>
      obtain ⟨us', hr⟩ := hmap h
      exact (ih hr).trans (List.drop_suffix 6 (c :: e :: h1 :: h2 :: h3 :: h4 :: s))
  | case7 c hc hc' e s he u hu ih =>
      obtain ⟨us', hr⟩ := hmap h
      exact (ih hr).trans (List.drop_suffix 2 (c :: e :: s))
  | case10 c s hc hc' hlow ih =>
      obtain ⟨us', hr⟩ := hmap h
      exact (ih hr).trans (List.suffix_cons _ _)
  | _ => cases h

theorem scanUnits_error {s : PyStr} {e : PyError} (h : scanUnits s = .error e) :
    ∃ msg, e = .jsonDecode msg := by
  fun_induction scanUnits s with
  | case2 => cases h
  | case4 c hc hc' e he h1 h2 h3 h4 s u hu ih => exact ih (map_eq_error.mp h)
  | case7 c hc hc' e s he u hu ih => exact ih (map_eq_error.mp h)
  | case10 c s hc hc' hlow ih => exact ih (map_eq_error.mp h)
  | _ =>
      cases h
      exact ⟨_, rfl⟩

theorem scanString_suffix {s rest : PyStr} {t : PyStr} (h : scanString s = .ok (t, rest)) :
    rest <:+ s := by
  obtain ⟨⟨us, rest'⟩, hr, hpair⟩ := map_eq_ok.mp h
  cases hpair
  exact scanUnits_suffix hr

theorem scanInt_suffix {s i rest : PyStr} (h : scanInt s = some (i, rest)) : rest <:+ s := by
  have hdrop := List.drop_suffix (s.takeWhile fun c => c.val == 0x2D).length s
  revert h
  fun_cases scanInt s with
  | case3 sign digits hsign c tail hdigits hzero =>
      intro h
      rw [show List.drop _ s = c :: tail from hdigits] at hdrop
      cases h
      exact (List.suffix_cons _ _).trans hdrop
  | case4 sign digits hsign c tail hdigits hzero hdigit =>
      intro h
      cases h
      exact (List.dropWhile_suffix _).trans hdrop
  | _ =>
      intro h
      cases h

theorem scanFrac_suffix (s : PyStr) : (scanFrac s).2 <:+ s := by
  fun_cases scanFrac s with
  | case1 => exact List.suffix_rfl
  | case2 c rest digits h => exact (List.dropWhile_suffix _).trans (List.suffix_cons _ _)
  | case3 => exact List.suffix_rfl

theorem scanExp_suffix (s : PyStr) : (scanExp s).2 <:+ s := by
  fun_cases scanExp s with
  | case1 => exact List.suffix_rfl
  | case2 c rest sign digits h =>
      exact ((List.dropWhile_suffix _).trans (List.drop_suffix _ _)).trans (List.suffix_cons _ _)
  | case3 => exact List.suffix_rfl

/-- A reader of values leaves the end of its text behind the value. -/
def LeavesSuffix {α : Type} (scan : PyStr → Except PyError (α × PyStr)) : Prop :=
  ∀ s v rest, scan s = .ok (v, rest) → rest <:+ s

section Suffix

variable {hooks : Hooks} {scan : PyStr → Except PyError (Json × PyStr)}

theorem scanScalar_suffix : LeavesSuffix (scanScalar hooks) := by
  intro s v rest h
  unfold scanScalar at h
  have hmap : ∀ {x : Except PyError Json} {t : PyStr},
      (x.map fun v => (v, t)) = .ok (v, rest) → t = rest := by
    intro x t hx
    obtain ⟨w, -, hpair⟩ := map_eq_ok.mp hx
    cases hpair
    rfl
  split at h
  · obtain ⟨⟨t, rest'⟩, hr, hpair⟩ := map_eq_ok.mp h
    cases hpair
    exact (scanString_suffix hr).trans (List.drop_suffix _ _)
  iterate 3
    split at h
    · cases h
      exact List.drop_suffix _ _
  iterate 3
    split at h
    · rw [← hmap h]
      exact List.drop_suffix _ _
  split at h
  · cases h
  · rename_i i tail hint
    rw [← hmap h]
    exact ((scanExp_suffix _).trans (scanFrac_suffix _)).trans (scanInt_suffix hint)

end Suffix

/-! ## Lists and dictionaries -/

/-- The key of a member with its colon, and the text of the member's value. -/
def scanKey (s : PyStr) : Except PyError (PyStr × PyStr) :=
  if !PyStr.startsWith s "\"" then
    .error (.jsonDecode "Expecting property name enclosed in double quotes")
  else (scanString (s.drop 1)).bind fun key =>
    let rest := skipSpace key.2
    if !PyStr.startsWith rest ":" then .error (.jsonDecode "Expecting ':' delimiter")
    else .ok (key.1, skipSpace (rest.drop 1))

/-- The values of a list have no keys. -/
def scanNoKey (s : PyStr) : Except PyError (Unit × PyStr) := .ok ((), s)

theorem scanKey_suffix : LeavesSuffix scanKey := by
  intro s k t h
  unfold scanKey at h
  split at h
  · cases h
  · obtain ⟨⟨key, tail⟩, hkey, h⟩ := bind_eq_ok.mp h
    simp only at h
    split at h
    · cases h
    · cases h
      exact (((skipSpace_suffix _).trans (List.drop_suffix _ _)).trans (skipSpace_suffix _)).trans
        ((scanString_suffix hkey).trans (List.drop_suffix _ _))

theorem scanNoKey_suffix : LeavesSuffix scanNoKey := by
  intro s k t h
  cases h
  exact List.suffix_rfl

theorem scanKey_error {s : PyStr} {e : PyError} (h : scanKey s = .error e) :
    ∃ msg, e = .jsonDecode msg := by
  unfold scanKey at h
  split at h
  · cases h
    exact ⟨_, rfl⟩
  · cases hkey : scanString (s.drop 1) with
    | error e' =>
        rw [hkey] at h
        cases h
        exact scanUnits_error (map_eq_error.mp hkey)
    | ok key =>
        simp only [hkey, Except.bind] at h
        split at h
        · cases h
          exact ⟨_, rfl⟩
        · cases h

section Entries

variable {κ : Type} (key : PyStr → Except PyError (κ × PyStr))
  (scan : PyStr → Except PyError (Json × PyStr))

/-- The loop that lists and dictionaries share: an entry is a key and a value, a comma
stands between two entries, and `close` behind the last one. -/
def scanEntries (close empty : String) : ℕ → PyStr → Except PyError (List (κ × Json) × PyStr)
  | 0, _ => .error (.jsonDecode empty)
  | fuel + 1, s =>
      (key s).bind fun k => (scan k.2).bind fun r =>
        let rest := skipSpace r.2
        if PyStr.startsWith rest "," then
          (scanEntries close empty fuel (skipSpace (rest.drop 1))).map fun q =>
            ((k.1, r.1) :: q.1, q.2)
        else if PyStr.startsWith rest close then .ok ([(k.1, r.1)], rest.drop 1)
        else .error (.jsonDecode "Expecting ',' delimiter")

theorem scanItems_eq_entries (fuel : ℕ) (s : PyStr) :
    scanItems scan fuel s =
      (scanEntries scanNoKey scan "]" "Expecting value" fuel s).map fun q =>
        (q.1.map Prod.snd, q.2) := by
  induction fuel generalizing s with
  | zero => rfl
  | succ fuel ih =>
      simp only [scanItems, scanEntries, scanNoKey, Except.bind]
      cases hr : scan s with
      | error e => rfl
      | ok r =>
          simp only [ih]
          split
          · cases scanEntries scanNoKey scan "]" "Expecting value" fuel
              (skipSpace ((skipSpace r.2).drop 1)) <;> rfl
          · split <;> rfl

theorem scanMembers_eq_entries (fuel : ℕ) (s : PyStr) :
    scanMembers scan fuel s =
      scanEntries scanKey scan "\x7d" "Expecting property name enclosed in double quotes"
        fuel s := by
  induction fuel generalizing s with
  | zero => rfl
  | succ fuel ih =>
      simp only [scanMembers, scanEntries, scanKey]
      split
      · rfl
      · cases hkey : scanString (s.drop 1) with
        | error e => rfl
        | ok k =>
            simp only [Except.bind]
            split
            · rfl
            · simp only [ih]

variable {key scan}

theorem scanEntries_suffix (hkey : LeavesSuffix key) (hscan : LeavesSuffix scan)
    {close empty : String} (fuel : ℕ) : LeavesSuffix (scanEntries key scan close empty fuel) := by
  intro s vs rest h
  induction fuel generalizing s vs with
  | zero => cases h
  | succ fuel ih =>
      obtain ⟨⟨k, t⟩, hk, h⟩ := bind_eq_ok.mp h
      obtain ⟨⟨v, tail⟩, hv, h⟩ := bind_eq_ok.mp h
      have htail : skipSpace tail <:+ s :=
        ((skipSpace_suffix tail).trans (hscan t v tail hv)).trans (hkey s k t hk)
      simp only at h
      split at h
      · obtain ⟨⟨ws, rest'⟩, hws, hpair⟩ := map_eq_ok.mp h
        cases hpair
        exact (ih _ _ hws).trans (((skipSpace_suffix _).trans (List.drop_suffix _ _)).trans htail)
      · split at h
        · cases h
          exact (List.drop_suffix _ _).trans htail
        · cases h

/-- Where the values of a list or dictionary begin, as far as the reader comes to them: the
values in front of them are well formed. -/
inductive LaterValue (key : PyStr → Except PyError (κ × PyStr))
    (scan : PyStr → Except PyError (Json × PyStr)) : PyStr → PyStr → Prop
  | here {s t : PyStr} {k : κ} : key s = .ok (k, t) → LaterValue key scan s t
  | next {s t rest u : PyStr} {k : κ} {v : Json} : key s = .ok (k, t) → scan t = .ok (v, rest) →
      PyStr.startsWith (skipSpace rest) "," = true →
      LaterValue key scan (skipSpace ((skipSpace rest).drop 1)) u → LaterValue key scan s u

theorem LaterValue.suffix (hkey : LeavesSuffix key) (hscan : LeavesSuffix scan) {s t : PyStr}
    (h : LaterValue key scan s t) : t <:+ s := by
  induction h with
  | here hk => exact hkey _ _ _ hk
  | next hk hv _ _ ih =>
      exact ih.trans ((((skipSpace_suffix _).trans (List.drop_suffix _ _)).trans
        (skipSpace_suffix _)).trans ((hscan _ _ _ hv).trans (hkey _ _ _ hk)))

/-- What the loop raises, it raises itself or a value raises it. -/
theorem scanEntries_error {P : PyError → Prop} (hdecode : ∀ msg, P (.jsonDecode msg))
    (hkey : ∀ s e, key s = .error e → P e) {close empty : String} {fuel : ℕ} {s : PyStr}
    {e : PyError} (h : scanEntries key scan close empty fuel s = .error e) :
    P e ∨ ∃ t, LaterValue key scan s t ∧ scan t = .error e := by
  induction fuel generalizing s with
  | zero =>
      cases h
      exact .inl (hdecode _)
  | succ fuel ih =>
      rw [scanEntries] at h
      cases hk : key s with
      | error e' =>
          rw [hk] at h
          cases h
          exact .inl (hkey s e hk)
      | ok k =>
          cases hv : scan k.2 with
          | error e' =>
              simp only [hk, hv, Except.bind] at h
              cases h
              exact .inr ⟨k.2, .here hk, hv⟩
          | ok r =>
              simp only [hk, hv, Except.bind] at h
              split at h
              · rename_i hcomma
                rcases ih (map_eq_error.mp h) with hP | ⟨t, ht, hscan⟩
                · exact .inl hP
                · exact .inr ⟨t, .next hk hv hcomma ht, hscan⟩
              · split at h
                · cases h
                · cases h
                  exact .inl (hdecode _)

/-- What a value raises that the reader comes to, the loop raises. -/
theorem scanEntries_of_later (hkey : LeavesSuffix key) (hscan : LeavesSuffix scan)
    {close empty : String} {s t : PyStr} {e : PyError} (h : LaterValue key scan s t)
    (ht : scan t = .error e) (hne : t ≠ []) {fuel : ℕ} (hfuel : s.length ≤ fuel) :
    scanEntries key scan close empty fuel s = .error e := by
  -- a text that something nonempty ends has a first entry
  have hpos : ∀ {a : PyStr}, t <:+ a → 0 < a.length := fun ha =>
    lt_of_lt_of_le (List.length_pos_iff.mpr hne) ha.length_le
  induction h generalizing fuel with
  | here hk =>
      have hlen := hpos (hkey _ _ _ hk)
      obtain ⟨fuel, rfl⟩ : ∃ n, fuel = n + 1 := ⟨fuel - 1, by omega⟩
      simp [scanEntries, hk, ht, Except.bind]
  | @next s t' rest u k v hk hv hcomma hlater ih =>
      have hrest : skipSpace rest <:+ s :=
        ((skipSpace_suffix rest).trans (hscan _ _ _ hv)).trans (hkey _ _ _ hk)
      have hu := hlater.suffix hkey hscan
      have hlater' := hpos hu
      have hdrop := (skipSpace_suffix ((skipSpace rest).drop 1)).length_le
      have hle := hrest.length_le
      rw [List.length_drop] at hdrop
      obtain ⟨fuel, rfl⟩ : ∃ n, fuel = n + 1 := ⟨fuel - 1, by omega⟩
      have hnext : (skipSpace ((skipSpace rest).drop 1)).length ≤ fuel := by omega
      have hloop := ih ht hne hnext hpos
      rw [scanEntries]
      simp only [hk, Except.bind, hv, hcomma, if_true, hloop, Except.map]

end Entries

section Values

variable {hooks : Hooks} {scan : PyStr → Except PyError (Json × PyStr)}

theorem scanArray_suffix (hscan : LeavesSuffix scan) : LeavesSuffix (scanArray scan) := by
  intro s v rest h
  unfold scanArray at h
  simp only at h
  split at h
  · cases h
    exact (List.drop_suffix _ _).trans (skipSpace_suffix s)
  · obtain ⟨⟨vs, rest'⟩, hvs, hpair⟩ := map_eq_ok.mp h
    cases hpair
    rw [scanItems_eq_entries] at hvs
    obtain ⟨⟨es, rest''⟩, hes, hpair⟩ := map_eq_ok.mp hvs
    cases hpair
    exact (scanEntries_suffix scanNoKey_suffix hscan _ _ _ _ hes).trans (skipSpace_suffix s)

theorem scanObject_suffix (hscan : LeavesSuffix scan) : LeavesSuffix (scanObject hooks scan) := by
  intro s v rest h
  unfold scanObject at h
  simp only at h
  split at h
  · obtain ⟨w, -, hpair⟩ := map_eq_ok.mp h
    cases hpair
    exact (List.drop_suffix _ _).trans (skipSpace_suffix s)
  · obtain ⟨⟨d, rest'⟩, hd, h⟩ := bind_eq_ok.mp h
    obtain ⟨w, -, hpair⟩ := map_eq_ok.mp h
    cases hpair
    rw [scanMembers_eq_entries] at hd
    exact (scanEntries_suffix scanKey_suffix hscan _ _ _ _ hd).trans (skipSpace_suffix s)

theorem scanOnce_suffix (levels : ℕ) : LeavesSuffix (scanOnce hooks levels) := by
  induction levels with
  | zero =>
      intro s v rest h
      unfold scanOnce at h
      split at h
      · cases h
      · exact scanScalar_suffix s v rest h
  | succ levels ih =>
      intro s v rest h
      unfold scanOnce at h
      split at h
      · exact (scanArray_suffix ih _ _ _ h).trans (List.drop_suffix _ _)
      · split at h
        · exact (scanObject_suffix ih _ _ _ h).trans (List.drop_suffix _ _)
        · exact scanScalar_suffix s v rest h

end Values

/-! ## Too many levels -/

/-- What the reader raises for a list or dictionary below its last level. -/
def recursionError : PyError := ⟨.recursionError, "maximum recursion depth exceeded"⟩

/-- The text begins a list or a dictionary at each of so many levels, and one more below
them, behind values that are well formed. -/
inductive Deeper (hooks : Hooks) : ℕ → PyStr → Prop
  | bracket {s : PyStr} : PyStr.startsWith s "[" = true ∨ PyStr.startsWith s "\x7b" = true →
      Deeper hooks 0 s
  | list {n : ℕ} {s t : PyStr} : PyStr.startsWith s "[" = true →
      PyStr.startsWith (skipSpace (s.drop 1)) "]" = false →
      LaterValue scanNoKey (scanOnce hooks n) (skipSpace (s.drop 1)) t → Deeper hooks n t →
      Deeper hooks (n + 1) s
  | dict {n : ℕ} {s t : PyStr} : PyStr.startsWith s "\x7b" = true →
      PyStr.startsWith (skipSpace (s.drop 1)) "\x7d" = false →
      LaterValue scanKey (scanOnce hooks n) (skipSpace (s.drop 1)) t → Deeper hooks n t →
      Deeper hooks (n + 1) s

/-- Every exception of the hooks is of a kind. -/
structure Hooks.Raises (hooks : Hooks) (P : PyError → Prop) : Prop where
  constant : ∀ name e, hooks.constant name = .error e → P e
  float : ∀ x e, hooks.float x = .error e → P e
  pairs : ∀ d e, hooks.pairs d = .error e → P e

section Deeper

variable {hooks : Hooks}

/-- A text that begins with a text of one code point has it in front. -/
theorem exists_cons_of_startsWith {s : PyStr} {lit : PyStr} {c : CodePoint} (hlit : lit = [c])
    (h : PyStr.startsWith s lit = true) : ∃ rest, s = c :: rest := by
  rw [PyStr.startsWith, List.isPrefixOf_iff_prefix, hlit] at h
  obtain ⟨rest, rfl⟩ := h
  exact ⟨rest, rfl⟩

theorem Deeper.ne_nil {n : ℕ} {s : PyStr} (h : Deeper hooks n s) : s ≠ [] := by
  rintro rfl
  cases h with
  | bracket h =>
      rcases h with h | h
      · obtain ⟨rest, hs⟩ := exists_cons_of_startsWith rfl h
        cases hs
      · obtain ⟨rest, hs⟩ := exists_cons_of_startsWith rfl h
        cases hs
  | list h =>
      obtain ⟨rest, hs⟩ := exists_cons_of_startsWith rfl h
      cases hs
  | dict h =>
      obtain ⟨rest, hs⟩ := exists_cons_of_startsWith rfl h
      cases hs

theorem not_list_of_dict {s : PyStr} (h : PyStr.startsWith s "\x7b" = true) :
    PyStr.startsWith s "[" = false := by
  obtain ⟨rest, rfl⟩ := exists_cons_of_startsWith rfl h
  rfl

/-- A text that is too deep for the reader raises `RecursionError`. -/
theorem scanOnce_of_deeper {n : ℕ} {s : PyStr} (h : Deeper hooks n s) :
    scanOnce hooks n s = .error recursionError := by
  induction h with
  | bracket h =>
      rw [scanOnce, if_pos (by simpa using h)]
      rfl
  | list hopen hclose hlater hdeep ih =>
      rw [scanOnce, if_pos hopen, scanArray]
      simp only [hclose]
      rw [scanItems_eq_entries, scanEntries_of_later scanNoKey_suffix (scanOnce_suffix _) hlater ih
        hdeep.ne_nil le_rfl]
      rfl
  | dict hopen hclose hlater hdeep ih =>
      rw [scanOnce, if_neg (by simp [not_list_of_dict hopen]), if_pos hopen, scanObject]
      simp only [hclose]
      rw [scanMembers_eq_entries, scanEntries_of_later scanKey_suffix (scanOnce_suffix _) hlater ih
        hdeep.ne_nil le_rfl]
      rfl

section Errors

variable {P : PyError → Prop} (hdecode : ∀ msg, P (.jsonDecode msg))
  (hvalue : ∀ msg, P (.valueError msg)) (hhooks : hooks.Raises P)

include hdecode hvalue hhooks

omit hdecode in
theorem numberOfParts_error {i f x : PyStr} {e : PyError}
    (h : numberOfParts hooks i f x = .error e) : P e := by
  unfold numberOfParts at h
  split at h
  · split at h
    · cases h
    · cases h
      exact hvalue _
  · exact hhooks.float _ _ h

theorem scanScalar_error {s : PyStr} {e : PyError} (h : scanScalar hooks s = .error e) : P e := by
  unfold scanScalar at h
  split at h
  · obtain ⟨msg, rfl⟩ := scanUnits_error (map_eq_error.mp (map_eq_error.mp h))
    exact hdecode msg
  iterate 3
    split at h
    · cases h
  iterate 3
    split at h
    · exact hhooks.constant _ _ (map_eq_error.mp h)
  split at h
  · cases h
    exact hdecode _
  · exact numberOfParts_error hvalue hhooks (map_eq_error.mp h)

/-- What the reader of values raises: what its parts raise, and `RecursionError` on a text
that is too deep for it. -/
theorem scanOnce_error {n : ℕ} {s : PyStr} {e : PyError} (h : scanOnce hooks n s = .error e) :
    P e ∨ e = recursionError ∧ Deeper hooks n s := by
  induction n generalizing s e with
  | zero =>
      rw [scanOnce] at h
      split at h
      · rename_i hopen
        cases h
        exact .inr ⟨rfl, .bracket (by simpa using hopen)⟩
      · exact .inl (scanScalar_error hdecode hvalue hhooks h)
  | succ n ih =>
      rw [scanOnce] at h
      split at h
      · rename_i hopen
        unfold scanArray at h
        simp only at h
        split at h
        · cases h
        · rename_i hclose
          have hitems := map_eq_error.mp h
          rw [scanItems_eq_entries] at hitems
          rcases scanEntries_error hdecode (fun s e h => by cases h) (map_eq_error.mp hitems)
            with hP | ⟨t, ht, hscan⟩
          · exact .inl hP
          · rcases ih hscan with hP | ⟨he, hdeep⟩
            · exact .inl hP
            · exact .inr ⟨he, .list hopen (by simpa using hclose) ht hdeep⟩
      · split at h
        · rename_i hopen
          unfold scanObject at h
          simp only at h
          split at h
          · exact .inl (hhooks.pairs _ _ (map_eq_error.mp h))
          · rename_i hclose
            cases hmembers : scanMembers (fun t => scanOnce hooks n t)
                (skipSpace (s.drop 1)).length (skipSpace (s.drop 1)) with
            | ok r =>
                rw [hmembers] at h
                exact .inl (hhooks.pairs _ _ (map_eq_error.mp h))
            | error e' =>
                rw [hmembers] at h
                cases h
                rw [scanMembers_eq_entries] at hmembers
                rcases scanEntries_error hdecode
                  (fun s e h => by obtain ⟨msg, rfl⟩ := scanKey_error h; exact hdecode msg)
                  hmembers with hP | ⟨t, ht, hscan⟩
                · exact .inl hP
                · rcases ih hscan with hP | ⟨he, hdeep⟩
                  · exact .inl hP
                  · exact .inr ⟨he, .dict hopen (by simpa using hclose) ht hdeep⟩
        · exact .inl (scanScalar_error hdecode hvalue hhooks h)

end Errors

/-- The text behind a byte order mark is not read. -/
def hasMark (s : PyStr) : Bool := s.head?.any fun c => c.val == 0xFEFF

theorem loadsWith_error {P : PyError → Prop} (hdecode : ∀ msg, P (.jsonDecode msg))
    (hvalue : ∀ msg, P (.valueError msg)) (hhooks : hooks.Raises P) {n : ℕ} {s : PyStr}
    {e : PyError} (h : loadsWith hooks n s = .error e) :
    P e ∨ e = recursionError ∧ hasMark s = false ∧ Deeper hooks n (skipSpace s) := by
  unfold loadsWith at h
  split at h
  · cases h
    exact .inl (hdecode _)
  · rename_i hmark
    cases hscan : scanOnce hooks n (skipSpace s) with
    | error e' =>
        rw [hscan] at h
        cases h
        rcases scanOnce_error hdecode hvalue hhooks hscan with hP | ⟨he, hdeep⟩
        · exact .inl hP
        · exact .inr ⟨he, by simpa [hasMark] using hmark, hdeep⟩
    | ok r =>
        simp only [hscan, Except.bind] at h
        split at h
        · cases h
        · cases h
          exact .inl (hdecode _)

theorem loadsWith_of_deeper {n : ℕ} {s : PyStr} (hmark : hasMark s = false)
    (h : Deeper hooks n (skipSpace s)) : loadsWith hooks n s = .error recursionError := by
  unfold hasMark at hmark
  rw [loadsWith, hmark, scanOnce_of_deeper h]
  rfl

/-- A code point that opens a list or a dictionary. -/
def opensBracket (c : CodePoint) : Bool := c.val == 0x5B || c.val == 0x7B

/-- A text that is too deep for a reader has more brackets than the reader has levels. -/
theorem Deeper.lt_countP {n : ℕ} {s : PyStr} (h : Deeper hooks n s) :
    n < s.countP opensBracket := by
  have hcons : ∀ {c : CodePoint} {rest t : PyStr} {n : ℕ}, opensBracket c = true →
      t <:+ rest → n < t.countP opensBracket → n + 1 < (c :: rest).countP opensBracket := by
    intro c rest t n hc ht hn
    rw [List.countP_cons_of_pos hc]
    exact Nat.succ_lt_succ (hn.trans_le (ht.sublist.countP_le))
  induction h with
  | bracket h =>
      rw [List.countP_pos_iff]
      rcases h with h | h
      · obtain ⟨rest, rfl⟩ := exists_cons_of_startsWith rfl h
        exact ⟨_, List.mem_cons_self, rfl⟩
      · obtain ⟨rest, rfl⟩ := exists_cons_of_startsWith rfl h
        exact ⟨_, List.mem_cons_self, rfl⟩
  | list hopen _ hlater _ ih =>
      obtain ⟨rest, rfl⟩ := exists_cons_of_startsWith rfl hopen
      exact hcons rfl ((hlater.suffix scanNoKey_suffix (scanOnce_suffix _)).trans
        (skipSpace_suffix _)) ih
  | dict hopen _ hlater _ ih =>
      obtain ⟨rest, rfl⟩ := exists_cons_of_startsWith rfl hopen
      exact hcons rfl ((hlater.suffix scanKey_suffix (scanOnce_suffix _)).trans
        (skipSpace_suffix _)) ih

/-- Opening brackets alone, one more than the reader has levels. -/
theorem deeper_of_replicate (n : ℕ) :
    Deeper hooks n (List.replicate (n + 1) (CodePoint.ofChar '[')) := by
  induction n with
  | zero => exact .bracket (.inl rfl)
  | succ n ih => exact .list rfl rfl (.here rfl) ih

end Deeper

end Signal402
