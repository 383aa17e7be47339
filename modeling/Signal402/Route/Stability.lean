import Signal402.Lib.Calendar
import Signal402.Route.Options

/-!
# The stability component of a reputation (`reputation.py`)

`componentsFromEvidence` writes when a payTo, rail, price or schema changed last, as an
ISO text, and `stabilityScore` takes a penalty off for each class that `recent` finds to
have changed.  Both read the four classes of change by one pair of functions,
`changeRow` and `changedRecently`.

`recent` takes the integer of its timestamp first, and no ISO text has one: a change that
is dated is never recent.  `Evidence.stability_iff` says when the published rule
(`Evidence.rule`) comes to the same score anyway.
-/

namespace Signal402.Reputation

/-! ## Timestamps -/

/-- A number in decimal, with zeros up to a width. -/
def padded (width n : ℕ) : PyStr :=
  List.replicate (width - (natText n).length) (CodePoint.ofChar '0') ++ natText n

/-- The first second of the year 1 and the last of the year 9999, which `datetime` spans. -/
def minTimestamp : ℤ := -62135596800

def maxTimestamp : ℤ := 253402300799

/-- 1 January 1970. -/
def epochDay : ℤ := 719163

/-- `isoformat` of a moment in UTC, with `Z` for the offset. -/
def isoText (t : ℤ) : PyStr :=
  let d := Calendar.date (t / 86400 + epochDay)
  let s := (t % 86400).toNat
  padded 4 d.year.toNat ++ "-" ++ padded 2 d.month ++ "-" ++ padded 2 d.day ++ "T" ++
    padded 2 (s / 3600) ++ ":" ++ padded 2 (s / 60 % 60) ++ ":" ++ padded 2 (s % 60) ++ "Z"

/-- A week, in seconds. -/
def week : ℤ := 604800

/-- The classes of change, and the penalty of each. -/
inductive ChangeClass
  | payTo
  | rail
  | price
  | schema
  deriving DecidableEq

namespace ChangeClass

/-- The classes in the order in which the components list them. -/
def listed : List ChangeClass := [payTo, price, schema, rail]

/-- The classes in the order in which their penalties are taken. -/
def all : List ChangeClass := [payTo, rail, price, schema]

/-- The key of the class in the components. -/
def changes : ChangeClass → PyStr
  | payTo => "payTo_changes"
  | rail => "rail_changes"
  | price => "price_changes"
  | schema => "schema_changes"

def changedAt : ChangeClass → PyStr
  | payTo => "payTo_changed_at"
  | rail => "rail_changed_at"
  | price => "price_changed_at"
  | schema => "schema_changed_at"

def changeCount : ChangeClass → PyStr
  | payTo => "payTo_change_count"
  | rail => "rail_change_count"
  | price => "price_change_count"
  | schema => "schema_change_count"

/-- The changes of what is paid to whom, against those of a quote. -/
def identity : ChangeClass → Bool
  | payTo | rail => true
  | price | schema => false

def penalty (c : ChangeClass) : PyFloat :=
  if c.identity then PyFloat.ofDecimal 35 (-2) else PyFloat.ofDecimal 15 (-2)

end ChangeClass

section Score

variable (py : Interp)

/-- `_iso_ts`. -/
def isoTs (ts : Json) : Except PyError (Option PyStr) :=
  (py.asInt ts).bind fun n =>
    match n with
    | none => .ok none
    | some n =>
        if minTimestamp ≤ n ∧ n ≤ maxTimestamp then .ok (some (isoText n))
        else .error (.valueError "year is out of range")

/-- There is any observation history. -/
def hasHistory (ev : Dict) : Except PyError Bool :=
  (py.asInt (ev.get "n_7d")).map fun n => (ev.get "has_probe_history").isTrue || n.isSome

/-- `_change`: the row of a class of change in the components. -/
def changeRow (ev : Dict) (hasWindow : Bool) (c : ChangeClass) : Except PyError Json :=
  let changedAt := ev.get c.changedAt
  (isoTs py changedAt).bind fun iso =>
    (py.asInt (ev.get c.changeCount)).map fun nchg =>
      .obj
        [("changed_at", .ofText iso),
          ("count",
            match nchg with
            | some n => .int n
            | none => if hasWindow then .int (if changedAt.isNull then 0 else 1) else .null)]

/-- The stability rows of `components_from_evidence`. -/
def stabilityRows (ev : Dict) : Except PyError Dict :=
  (hasHistory py ev).bind fun hasWindow =>
    ChangeClass.listed.mapM fun c => (changeRow py ev hasWindow c).map fun row => (c.changes, row)

/-- `_recent`. -/
def recent (ts : Json) (now : ℤ) : Except PyError Bool :=
  (py.asInt ts).map fun n =>
    match n with
    | none => false
    | some n =>
        match ts with
        | .str s => if py.isDigit s then now - n ≤ week else true
        | _ => now - n ≤ week

/-- Whether the penalty of a class is taken. -/
def changedRecently (rows ev : Dict) (now : ℤ) (c : ChangeClass) : Except PyError Bool :=
  let row := (rows.get c.changes).dictOrEmpty
  (py.asInt (row.get "count")).bind fun count =>
    let changedAt := (row.get "changed_at").or (ev.get c.changedAt)
    if count.any (0 < ·) then
      if changedAt.isNull then .ok true else recent py changedAt now
    else if changedAt.isNull then .ok false else recent py changedAt now

/-- `1.0` less the penalties of some classes. -/
def lessPenalties (changed : List ChangeClass) : PyFloat :=
  changed.foldl (fun score c => score.sub c.penalty) (PyFloat.ofDecimal 1 0)

/-- `max(0.0, min(1.0, x))`. -/
def unit (x : PyFloat) : PyFloat :=
  let low := if x.lt (PyFloat.ofDecimal 1 0) then x else PyFloat.ofDecimal 1 0
  if PyFloat.zero.lt low then low else PyFloat.zero

/-- The classes whose penalties are taken. -/
def penalized (rows ev : Dict) (now : ℤ) : Except PyError (List ChangeClass) :=
  (ChangeClass.all.mapM fun c => (changedRecently py rows ev now c).map fun b => (c, b)).map
    fun found => (found.filter Prod.snd).map Prod.fst

/-- The stability of `_component_scores`. -/
def stabilityScore (rows ev : Dict) (now : ℤ) : Except PyError (Option PyFloat) :=
  (hasHistory py ev).bind fun hasHist =>
    if hasHist then (penalized py rows ev now).map fun changed => some (unit (lessPenalties changed))
    else .ok none

/-- The stability of a result with some evidence: the rows are written and then scored. -/
def stability (ev : Dict) (now : ℤ) : Except PyError (Option PyFloat) :=
  (stabilityRows py ev).bind fun rows => stabilityScore py rows ev now

end Score

/-! ## Evidence of changes -/

/-- A moment as evidence gives it: in seconds, or as the ISO text of it. -/
inductive ChangeTime
  | unix (t : ℤ)
  | iso (t : ℤ)

namespace ChangeTime

def seconds : ChangeTime → ℤ
  | unix t | iso t => t

def toJson : ChangeTime → Json
  | unix t => .int t
  | iso t => .str (isoText t)

/-- The moment can be written as a date; of a text that is not asked. -/
def Writable : ChangeTime → Prop
  | unix t => minTimestamp ≤ t ∧ t ≤ maxTimestamp
  | iso _ => True

/-- The moment lies within the last seven days. -/
def withinWeek (now : ℤ) (t : ChangeTime) : Bool := now - t.seconds ≤ week

end ChangeTime

/-- What is known of the changes of one class: when the last was, and how many. -/
structure ChangeRecord where
  changedAt : Option ChangeTime
  count : Option ℤ

/-- The timestamp of a class in the evidence. -/
def ChangeRecord.dated (r : ChangeRecord) : Json :=
  match r.changedAt with
  | none => .null
  | some t => t.toJson

/-- The evidence that the stability of a result is scored on. -/
structure Evidence where
  hasProbeHistory : Bool
  n7d : Option ℤ
  record : ChangeClass → ChangeRecord

namespace Evidence

/-- The evidence as a dictionary. -/
def toDict (e : Evidence) : Dict :=
  ("has_probe_history", .bool e.hasProbeHistory) :: ("n_7d", .ofInt? e.n7d) ::
    ChangeClass.listed.flatMap fun c =>
      [(c.changedAt, (e.record c).dated), (c.changeCount, .ofInt? (e.record c).count)]

def hasHistory (e : Evidence) : Bool := e.hasProbeHistory || e.n7d.isSome

/-- A change of the class happened within the last seven days. -/
def recent (e : Evidence) (now : ℤ) (c : ChangeClass) : Bool :=
  (e.record c).changedAt.any (·.withinWeek now)

/-- Changes of the class are counted, and none is dated. -/
def undated (e : Evidence) (c : ChangeClass) : Bool :=
  (e.record c).changedAt.isNone && (e.record c).count.any (0 < ·)

/-- The published rule: 1 less the penalty of each class with a change in the last seven
days, at least 0; unknown without observations. -/
def rule (e : Evidence) (now : ℤ) : Option PyFloat :=
  if e.hasHistory then some (unit (lessPenalties (ChangeClass.all.filter (e.recent now)))) else none

/-- How many classes of an identity, or of a quote, meet a test. -/
def countOf (identity : Bool) (test : ChangeClass → Bool) : ℕ :=
  (ChangeClass.all.filter fun c => c.identity == identity && test c).length

/-- Penalties for undated changes come to those of the changes of the last week. -/
def Balanced (e : Evidence) (now : ℤ) : Prop :=
  ∀ identity, countOf identity (e.recent now) = countOf identity e.undated

/-- Every date can be written. -/
def Writable (e : Evidence) : Prop :=
  ∀ c, ∀ t ∈ (e.record c).changedAt, t.Writable

end Evidence

/-! ## What the code takes off -/

section Taken

variable {py : Interp} {e : Evidence} {now : ℤ}

@[simp] theorem get_changedAt (c : ChangeClass) :
    Dict.get e.toDict c.changedAt = (e.record c).dated := by
  cases c <;> rfl

@[simp] theorem get_changeCount (c : ChangeClass) :
    Dict.get e.toDict c.changeCount = .ofInt? (e.record c).count := by
  cases c <;> rfl

@[simp] theorem asInt_ofInt? (n : Option ℤ) : py.asInt (.ofInt? n) = .ok n := by
  cases n <;> rfl

theorem hasHistory_toDict : hasHistory py e.toDict = .ok e.hasHistory := by
  have hn : Dict.get e.toDict "n_7d" = .ofInt? e.n7d := rfl
  have hflag : Dict.get e.toDict "has_probe_history" = .bool e.hasProbeHistory := rfl
  have htrue : (Json.bool e.hasProbeHistory).isTrue = e.hasProbeHistory := by
    cases e.hasProbeHistory <;> rfl
  unfold hasHistory
  rw [hn, asInt_ofInt?, hflag, htrue]
  rfl

/-- The letter between date and time is in every ISO text. -/
theorem mem_isoText (t : ℤ) : CodePoint.ofChar 'T' ∈ isoText t := by
  have ht : CodePoint.ofChar 'T' ∈ PyStr.ofString "T" := List.mem_singleton.mpr rfl
  unfold isoText
  simp [ht]

/-- No ISO text is read as an integer. -/
theorem asInt_isoText (hint : ∀ s, CodePoint.ofChar 'T' ∈ s → py.intOf s = none) (t : ℤ) :
    py.asInt (.str (isoText t)) = .ok none := by
  have hdec : (isoText t).isDecimal = false := by
    by_contra h
    rw [Bool.not_eq_false, PyStr.isDecimal, Bool.and_eq_true, List.all_eq_true] at h
    have hT := h.2 _ (mem_isoText t)
    revert hT
    decide
  unfold Interp.asInt Interp.int?
  dsimp only
  rw [hdec, if_neg Bool.false_ne_true, hint _ (mem_isoText t)]
  split <;> rfl

/-- The text that the components give for a dated change. -/
def writtenAt : Option ChangeTime → Option PyStr
  | some (.unix t) => some (isoText t)
  | some (.iso _) | none => none

theorem isoTs_dated (hint : ∀ s, CodePoint.ofChar 'T' ∈ s → py.intOf s = none)
    {r : ChangeRecord} (h : ∀ t ∈ r.changedAt, t.Writable) :
    isoTs py r.dated = .ok (writtenAt r.changedAt) := by
  unfold isoTs ChangeRecord.dated
  cases hr : r.changedAt with
  | none => rfl
  | some t =>
      cases t with
      | unix t =>
          have ht : minTimestamp ≤ t ∧ t ≤ maxTimestamp := h _ hr
          change (if _ then _ else _) = _
          rw [if_pos ht]
          rfl
      | iso t =>
          change (py.asInt (.str (isoText t))).bind _ = _
          rw [asInt_isoText hint]
          rfl

/-- A date that cannot be written raises. -/
theorem isoTs_unwritable {r : ChangeRecord} (h : ¬ ∀ t ∈ r.changedAt, t.Writable) :
    ∃ err, isoTs py r.dated = .error err := by
  unfold isoTs ChangeRecord.dated
  cases hr : r.changedAt with
  | none => exact absurd (by simp [hr]) h
  | some t =>
      cases t with
      | iso t => exact absurd (by simp [hr, ChangeTime.Writable]) h
      | unix t =>
          have ht : ¬ (minTimestamp ≤ t ∧ t ≤ maxTimestamp) := by
            intro ht
            exact h (by simpa [hr, ChangeTime.Writable] using ht)
          refine ⟨.valueError "year is out of range", ?_⟩
          change (if _ then _ else _) = _
          rw [if_neg ht]

/-- The count that the components give: one for a date alone, when there is a window. -/
def knownCount (e : Evidence) (c : ChangeClass) : Option ℤ :=
  (e.record c).count.or
    (if e.hasHistory then some (if (e.record c).dated.isNull then 0 else 1) else none)

/-- The row of a class. -/
def rowOf (e : Evidence) (c : ChangeClass) : Dict :=
  [("changed_at", .ofText (writtenAt (e.record c).changedAt)),
    ("count", .ofInt? (knownCount e c))]

theorem changeRow_toDict (hint : ∀ s, CodePoint.ofChar 'T' ∈ s → py.intOf s = none)
    (c : ChangeClass) (h : ∀ t ∈ (e.record c).changedAt, t.Writable) :
    changeRow py e.toDict e.hasHistory c = .ok (.obj (rowOf e c)) := by
  unfold changeRow
  dsimp only
  rw [get_changedAt, isoTs_dated hint h, get_changeCount, asInt_ofInt?]
  unfold rowOf knownCount
  cases (e.record c).count with
  | some n => rfl
  | none =>
      cases e.hasHistory with
      | true => rfl
      | false => rfl

/-- The rows of the components, when every date can be written. -/
theorem stabilityRows_toDict (hint : ∀ s, CodePoint.ofChar 'T' ∈ s → py.intOf s = none)
    (h : e.Writable) :
    stabilityRows py e.toDict =
      .ok (ChangeClass.listed.map fun c => (c.changes, .obj (rowOf e c))) := by
  unfold stabilityRows
  rw [hasHistory_toDict, Except.bind]
  apply mapM_eq_ok
  intro c _
  rw [changeRow_toDict hint c (h c)]
  rfl

/-- A date that cannot be written keeps the components from being built. -/
theorem stabilityRows_unwritable (h : ¬ e.Writable) (rows : Dict) :
    stabilityRows py e.toDict ≠ .ok rows := by
  intro hrows
  apply h
  intro c
  by_contra hc
  obtain ⟨err, herr⟩ : ∃ err, isoTs py (e.record c).dated = .error err := isoTs_unwritable hc
  obtain ⟨hasWindow, -, hrows⟩ := bind_eq_ok.mp hrows
  have hmem : c ∈ ChangeClass.listed := by
    cases c <;> decide
  -- the row of that class was built with the others
  obtain ⟨row, -, hrow⟩ := exists_of_mapM_mem hrows hmem
  obtain ⟨row', hrow', -⟩ := map_eq_ok.mp hrow
  unfold changeRow at hrow'
  dsimp only at hrow'
  rw [get_changedAt, herr] at hrow'
  cases hrow'

theorem isoText_truthy (t : ℤ) : (Json.str (isoText t)).truthy = true := by
  have hne : isoText t ≠ [] := List.ne_nil_of_mem (mem_isoText t)
  simpa [Json.truthy] using hne

/-- A dated change is not recent, whenever it was. -/
theorem recent_isoText (hint : ∀ s, CodePoint.ofChar 'T' ∈ s → py.intOf s = none) (t : ℤ) :
    recent py (.str (isoText t)) now = .ok false := by
  unfold recent
  rw [asInt_isoText hint]
  rfl

/-- The penalty of a class is taken for changes that are counted and not dated. -/
theorem changedRecently_toDict (hint : ∀ s, CodePoint.ofChar 'T' ∈ s → py.intOf s = none)
    (c : ChangeClass) :
    changedRecently py (ChangeClass.listed.map fun c => (c.changes, .obj (rowOf e c))) e.toDict
      now c = .ok (e.undated c) := by
  have hrow : Dict.get (ChangeClass.listed.map fun c => (c.changes, Json.obj (rowOf e c)))
      c.changes = .obj (rowOf e c) := by
    cases c <;> rfl
  have hat : Dict.get (rowOf e c) "changed_at" = .ofText (writtenAt (e.record c).changedAt) := rfl
  have hcount : Dict.get (rowOf e c) "count" = .ofInt? (knownCount e c) := rfl
  unfold changedRecently
  dsimp only
  rw [hrow, Json.dictOrEmpty, hat, get_changedAt, hcount, asInt_ofInt?]
  unfold Evidence.undated ChangeRecord.dated
  cases hr : (e.record c).changedAt with
  | some t =>
      -- the text of the date is read, in the components or in the evidence
      have hread : (Json.ofText (writtenAt (some t))).or t.toJson = .str (isoText t.seconds) := by
        cases t with
        | unix t =>
            change (Json.str (isoText t)).or (.int t) = _
            rw [Json.or, if_pos (isoText_truthy t)]
            rfl
        | iso t => rfl
      change (if (knownCount e c).any (0 < ·) = true then
          (if ((Json.ofText (writtenAt (some t))).or t.toJson).isNull = true then .ok true
            else recent py ((Json.ofText (writtenAt (some t))).or t.toJson) now)
        else if ((Json.ofText (writtenAt (some t))).or t.toJson).isNull = true then .ok false
          else recent py ((Json.ofText (writtenAt (some t))).or t.toJson) now) = _
      rw [hread, recent_isoText hint]
      exact ite_self _
  | none =>
      have hknown : (knownCount e c).any (0 < ·) = (e.record c).count.any (0 < ·) := by
        unfold knownCount ChangeRecord.dated
        rw [hr]
        cases (e.record c).count with
        | some n => rfl
        | none => cases e.hasHistory <;> rfl
      change (if (knownCount e c).any (0 < ·) = true then Except.ok true else .ok false) = _
      rw [hknown, Option.isNone_none, Bool.true_and]
      split <;> simp_all

/-- What the code takes off, for any evidence. -/
theorem stability_toDict (hint : ∀ s, CodePoint.ofChar 'T' ∈ s → py.intOf s = none)
    (h : e.Writable) :
    stability py e.toDict now =
      .ok (if e.hasHistory then
        some (unit (lessPenalties (ChangeClass.all.filter e.undated))) else none) := by
  unfold stability stabilityScore
  rw [stabilityRows_toDict hint h, Except.bind, hasHistory_toDict, Except.bind]
  split
  · unfold penalized
    rw [mapM_eq_ok fun c _ => by rw [changedRecently_toDict hint c]; rfl]
    change Except.ok (some (unit (lessPenalties
      (((ChangeClass.all.map fun c => (c, e.undated c)).filter Prod.snd).map Prod.fst)))) = _
    rw [List.filter_map, List.map_map]
    congr 4
    exact List.map_id' _
  · rfl

end Taken

/-! ## Scores -/

/-- The score after some penalties of each kind. -/
def scored (identities quotes : ℕ) : PyFloat :=
  unit ((List.replicate identities (PyFloat.ofDecimal 35 (-2)) ++
    List.replicate quotes (PyFloat.ofDecimal 15 (-2))).foldl PyFloat.sub (PyFloat.ofDecimal 1 0))

/-- The score depends on how many classes of each kind are penalized. -/
theorem unit_lessPenalties (test : ChangeClass → Bool) :
    unit (lessPenalties (ChangeClass.all.filter test)) =
      scored (Evidence.countOf true test) (Evidence.countOf false test) := by
  unfold lessPenalties scored Evidence.countOf ChangeClass.all
  cases hpayTo : test .payTo <;> cases hrail : test .rail <;> cases hprice : test .price <;>
    cases hschema : test .schema <;> simp [hpayTo, hrail, hprice, hschema, ChangeClass.identity] <;>
    rfl

/-- Scores tell how many penalties of each kind there were. -/
theorem scored_injective : ∀ i q i' q' : Fin 3, scored i q = scored i' q' → i = i' ∧ q = q' := by
  decide +kernel

/-- There are two classes of each kind. -/
theorem countOf_lt (identity : Bool) (test : ChangeClass → Bool) :
    Evidence.countOf identity test < 3 := by
  have hle : Evidence.countOf identity test ≤
      ChangeClass.all.countP fun c => c.identity == identity := by
    unfold Evidence.countOf
    rw [← List.countP_eq_length_filter]
    apply List.countP_mono_left
    intro c _ h
    exact (Bool.and_eq_true_iff.mp h).1
  have htwo : (ChangeClass.all.countP fun c => c.identity == identity) = 2 := by
    cases identity <;> rfl
  omega

/-- Two sets of penalized classes come to the same score when they have as many classes
of each kind. -/
theorem unit_lessPenalties_eq_iff {test test' : ChangeClass → Bool} :
    unit (lessPenalties (ChangeClass.all.filter test)) =
        unit (lessPenalties (ChangeClass.all.filter test')) ↔
      ∀ identity, Evidence.countOf identity test = Evidence.countOf identity test' := by
  rw [unit_lessPenalties, unit_lessPenalties]
  constructor
  · intro h
    obtain ⟨hidentity, hquote⟩ := scored_injective ⟨_, countOf_lt true test⟩
      ⟨_, countOf_lt false test⟩ ⟨_, countOf_lt true test'⟩ ⟨_, countOf_lt false test'⟩ h
    intro identity
    cases identity with
    | true => exact Fin.mk.inj hidentity
    | false => exact Fin.mk.inj hquote
  · intro h
    rw [h true, h false]

/-- **When the stability follows the published rule**: every date can be written, and, with
observations, as many classes of each kind changed in the last seven days as there are
classes whose changes are counted without a date. -/
theorem Evidence.stability_iff {py : Interp}
    (hint : ∀ s, CodePoint.ofChar 'T' ∈ s → py.intOf s = none) {e : Evidence} {now : ℤ} :
    stability py e.toDict now = .ok (e.rule now) ↔
      e.Writable ∧ (e.hasHistory = true → e.Balanced now) := by
  by_cases hwritable : e.Writable
  · rw [stability_toDict hint hwritable, Except.ok.injEq, Evidence.rule]
    by_cases hhist : e.hasHistory = true
    · simp only [hhist, if_true, Option.some.injEq, forall_true_left, hwritable, true_and]
      rw [eq_comm, unit_lessPenalties_eq_iff]
      rfl
    · simp [hhist, hwritable]
  · constructor
    · intro h
      obtain ⟨rows, hrows, -⟩ := bind_eq_ok.mp h
      exact absurd hrows (stabilityRows_unwritable hwritable rows)
    · intro h
      exact absurd h.1 hwritable

/-- A payTo that changed an hour ago, dated in seconds, with one observation. -/
def changedPayTo : Evidence where
  hasProbeHistory := true
  n7d := some 12
  record c := ⟨if c = .payTo then some (.unix 1756623600) else none, none⟩

theorem Evidence.stability_iff_changedPayTo :
    stability .plain changedPayTo.toDict 1756627200 = .ok (changedPayTo.rule 1756627200) ↔
      changedPayTo.Writable ∧ (changedPayTo.hasHistory = true → changedPayTo.Balanced 1756627200) :=
  Evidence.stability_iff fun _ _ => rfl

/-- The change of an hour ago is not taken off. -/
theorem payTo_change_ignored :
    stability .plain changedPayTo.toDict 1756627200 ≠ .ok (changedPayTo.rule 1756627200) := by
  have hwritable : changedPayTo.Writable := by
    intro c t ht
    cases c with
    | payTo =>
        cases ht
        exact ⟨by decide, by decide⟩
    | rail | price | schema => cases ht
  intro h
  rw [stability_toDict (fun _ _ => rfl) hwritable] at h
  have hscores := unit_lessPenalties_eq_iff.mp (Option.some.inj (Except.ok.inj h))
  exact absurd (hscores true) (by decide)

end Signal402.Reputation
