import Mathlib.Data.List.Sort
import Mathlib.Data.List.Lex
import Mathlib.Data.Prod.Lex
import Signal402.Base.Hex
import Signal402.Lib.CmpSort
import Signal402.Lib.Sha256
import Signal402.Pq.Jcs

/-!
# The digest of the compared candidates

`candidate_set_digest` hashes the canonical JSON of the compared rows, each reduced to what
it binds, in the order of url, rail and whether the row was selected.  Rows that share these
three keep the order they came in.

* `same_toJson` — what a row binds is determined by its canonical JSON.
* `candidate_set_digest_order` — the order of the rows does not count exactly when rows that
  share url, rail and selection bind the same, or a row cannot be written at all; or two
  orders collide in SHA-256.
-/

namespace Signal402.CandidateSet

open Jcs

section Normal

variable (py : Interp)

/-- `str(val)`. -/
def strOf : Json → Except PyError PyStr
  | .int n => jsonInt n
  | val => .ok (py.str val)

/-- `text or None`. -/
def orNone (text : PyStr) : Option PyStr := if text = [] then none else some text

/-- `_str_or_none`. -/
def strOrNone : Json → Except PyError (Option PyStr)
  | .null => .ok none
  | .bool _ => .ok none
  | val => (strOf py val).map fun text => orNone text.strip

/-- `_int_or_none`. -/
def intOrNone (val : Json) : Except PyError (Option ℤ) := py.asInt val

/-- `_bool_or_none`. -/
def boolOrNone : Json → Option Bool
  | .null => none
  | .bool b => some b
  | .str s =>
      if [PyStr.ofString "unknown", "none", ""].contains (py.uni.lower s.strip) then none
      else if [PyStr.ofString "0", "false", "False"].contains s then some false
      else if [PyStr.ofString "1", "true", "True"].contains s then some true
      else some (Json.str s).truthy
  | val =>
      if val.eqInt 0 then some false
      else if val.eqInt 1 then some true
      else some val.truthy

/-- `_amount_or_none`. -/
def amountOrNone : Json → Except PyError (Option PyStr)
  | .null => .ok none
  | .str [] => .ok none
  | .bool _ => .ok none
  | .int n => (jsonInt n).map some
  | val => (strOf py val).map fun text => orNone text.strip

end Normal

/-- What a row binds of its selected payment. -/
structure SlimPayment where
  amountAtomic : Option PyStr
  asset : Option PyStr
  network : Option PyStr
  payTo : Option PyStr
  rail : Option PyStr
  scheme : Option PyStr

/-- What a row binds. -/
structure SlimRow where
  amountAtomic : Option PyStr
  invocable : Option Bool
  latencyMs : Option ℤ
  live : Option Bool
  rail : Option PyStr
  selected : Option Bool
  selectedPayment : Option SlimPayment
  url : Option PyStr

/-- A boolean, or `None`. -/
def ofBool? : Option Bool → Json
  | none => .null
  | some b => .bool b

/-- The payment as a dictionary. -/
def SlimPayment.toJson (p : SlimPayment) : Json :=
  .obj [("amount_atomic", .ofText p.amountAtomic), ("asset", .ofText p.asset),
    ("network", .ofText p.network), ("payTo", .ofText p.payTo), ("rail", .ofText p.rail),
    ("scheme", .ofText p.scheme)]

/-- The row as a dictionary. -/
def SlimRow.toJson (r : SlimRow) : Json :=
  .obj [("amount_atomic", .ofText r.amountAtomic), ("invocable", ofBool? r.invocable),
    ("latency_ms", .ofInt? r.latencyMs), ("live", ofBool? r.live), ("rail", .ofText r.rail),
    ("selected", ofBool? r.selected),
    ("selected_payment", (r.selectedPayment.map SlimPayment.toJson).getD .null),
    ("url", .ofText r.url)]

/-- The key the rows are sorted by: url, rail, and whether the row was selected. -/
def SlimRow.key (r : SlimRow) : PyStr ×ₗ PyStr ×ₗ Bool :=
  toLex (r.url.getD [], toLex (r.rail.getD [], r.selected == some true))

section Digest

variable (py : Interp)

/-- What a payment binds. -/
def slimPayment (pay : Dict) : Except PyError SlimPayment := do
  let amountAtomic ← amountOrNone py (pay.get "amount_atomic")
  let asset ← strOrNone py (pay.get "asset")
  let network ← strOrNone py (pay.get "network")
  let payTo ← strOrNone py (pay.get "payTo")
  let rail ← strOrNone py (pay.get "rail")
  let scheme ← strOrNone py (pay.get "scheme")
  return { amountAtomic, asset, network, payTo, rail, scheme }

/-- What a row binds. -/
def slimRow (row : Dict) : Except PyError SlimRow := do
  let pay := (row.get "selected_payment").dictOrEmpty
  let amount :=
    if (row.get "amount_atomic").isNull then pay.get "amount_atomic" else row.get "amount_atomic"
  let amountAtomic ← amountOrNone py amount
  let latencyMs ← intOrNone py (row.get "latency_ms")
  let rail ← strOrNone py ((row.get "rail").or (pay.get "rail"))
  let url ← strOrNone py (row.get "url")
  let selectedPayment ← if pay.isEmpty then pure none else (slimPayment py pay).map some
  return {
    amountAtomic
    invocable := boolOrNone py (row.get "invocable")
    latencyMs
    live := boolOrNone py (row.get "live")
    rail
    selected := boolOrNone py (row.get "selected")
    selectedPayment
    url }

/-- The rows that are dictionaries, reduced to what they bind. -/
def slimRows (rows : List Json) : Except PyError (List SlimRow) :=
  (rows.filterMap Json.asObj?).mapM (slimRow py)

/-- The canonical text of reduced rows, in order. -/
def setText (writer : ℕ) (slim : List SlimRow) : Except PyError Bytes :=
  canonicalize py writer (.arr ((CmpSort.keySort SlimRow.key slim).map SlimRow.toJson))

/-- `candidate_set_digest`: the digest in hexadecimal digits, or `None`. -/
def candidateSetDigest (writer : ℕ) : Json → Except PyError (Option Bytes)
  | .arr rows =>
      (slimRows py rows).bind fun slim =>
        if slim.isEmpty then .ok none
        else (setText py writer slim).map fun raw => some (hex (Sha256.sha256 raw))
  | _ => .ok none

end Digest


/-! ## What a row binds is in its canonical JSON -/

theorem ofText_injective {a b : Option PyStr} (h : Json.ofText a = Json.ofText b) : a = b := by
  cases a <;> cases b <;> cases h <;> rfl

theorem ofInt?_injective {a b : Option ℤ} (h : Json.ofInt? a = Json.ofInt? b) : a = b := by
  cases a <;> cases b <;> cases h <;> rfl

theorem ofBool?_injective {a b : Option Bool} (h : ofBool? a = ofBool? b) : a = b := by
  cases a <;> cases b <;> cases h <;> rfl

theorem isContainer_ofText (a : Option PyStr) : (Json.ofText a).isContainer = false := by
  cases a <;> rfl

theorem isContainer_ofInt? (a : Option ℤ) : (Json.ofInt? a).isContainer = false := by
  cases a <;> rfl

theorem isContainer_ofBool? (a : Option Bool) : (ofBool? a).isContainer = false := by
  cases a <;> rfl

section Fields

variable {d e : Dict} {k : PyStr} (h : Json.Same (.obj d) (.obj e))

include h

theorem text_of_same {a b : Option PyStr} (hd : d.get? k = some (.ofText a))
    (he : e.get? k = some (.ofText b)) : a = b :=
  ofText_injective ((h.get? hd he).eq_of_scalar (isContainer_ofText a))

theorem int_of_same {a b : Option ℤ} (hd : d.get? k = some (.ofInt? a))
    (he : e.get? k = some (.ofInt? b)) : a = b :=
  ofInt?_injective ((h.get? hd he).eq_of_scalar (isContainer_ofInt? a))

theorem bool_of_same {a b : Option Bool} (hd : d.get? k = some (ofBool? a))
    (he : e.get? k = some (ofBool? b)) : a = b :=
  ofBool?_injective ((h.get? hd he).eq_of_scalar (isContainer_ofBool? a))

end Fields

theorem SlimPayment.same_toJson {p q : SlimPayment} (h : Json.Same p.toJson q.toJson) : p = q := by
  obtain ⟨amountAtomic, asset, network, payTo, rail, scheme⟩ := p
  obtain ⟨amountAtomic', asset', network', payTo', rail', scheme'⟩ := q
  obtain rfl : amountAtomic = amountAtomic' := text_of_same h (k := "amount_atomic") rfl rfl
  obtain rfl : asset = asset' := text_of_same h (k := "asset") rfl rfl
  obtain rfl : network = network' := text_of_same h (k := "network") rfl rfl
  obtain rfl : payTo = payTo' := text_of_same h (k := "payTo") rfl rfl
  obtain rfl : rail = rail' := text_of_same h (k := "rail") rfl rfl
  obtain rfl : scheme = scheme' := text_of_same h (k := "scheme") rfl rfl
  rfl

/-- Rows whose dictionaries are equal bind the same. -/
theorem SlimRow.same_toJson {r s : SlimRow} (h : Json.Same r.toJson s.toJson) : r = s := by
  obtain ⟨amountAtomic, invocable, latencyMs, live, rail, selected, pay, url⟩ := r
  obtain ⟨amountAtomic', invocable', latencyMs', live', rail', selected', pay', url'⟩ := s
  obtain rfl : amountAtomic = amountAtomic' := text_of_same h (k := "amount_atomic") rfl rfl
  obtain rfl : invocable = invocable' := bool_of_same h (k := "invocable") rfl rfl
  obtain rfl : latencyMs = latencyMs' := int_of_same h (k := "latency_ms") rfl rfl
  obtain rfl : live = live' := bool_of_same h (k := "live") rfl rfl
  obtain rfl : rail = rail' := text_of_same h (k := "rail") rfl rfl
  obtain rfl : selected = selected' := bool_of_same h (k := "selected") rfl rfl
  obtain rfl : url = url' := text_of_same h (k := "url") rfl rfl
  have hpay : Json.Same ((pay.map SlimPayment.toJson).getD .null)
      ((pay'.map SlimPayment.toJson).getD .null) := h.get? (k := "selected_payment") rfl rfl
  cases pay with
  | none =>
      cases pay' with
      | none => rfl
      | some q => cases hpay
  | some p =>
      cases pay' with
      | none => cases hpay
      | some q =>
          obtain rfl := SlimPayment.same_toJson hpay
          rfl

/-! ## The text of the rows -/

theorem exact_ofText (a : Option PyStr) : (Json.ofText a).Everywhere Exact := by
  cases a <;> exact .scalar trivial rfl

theorem exact_ofInt? (a : Option ℤ) : (Json.ofInt? a).Everywhere Exact := by
  cases a <;> exact .scalar trivial rfl

theorem exact_ofBool? (a : Option Bool) : (ofBool? a).Everywhere Exact := by
  cases a <;> exact .scalar trivial rfl

theorem SlimPayment.exact_toJson (p : SlimPayment) : p.toJson.Everywhere Exact := by
  have hkeys : ([PyStr.ofString "amount_atomic", "asset", "network", "payTo", "rail",
      "scheme"] : List PyStr).Nodup := by decide
  refine .mk hkeys ?_
  intro u hu
  simp only [SlimPayment.toJson, Json.children, List.map_cons, List.map_nil, List.mem_cons,
    List.not_mem_nil, or_false] at hu
  rcases hu with rfl | rfl | rfl | rfl | rfl | rfl <;> exact exact_ofText _

/-- What a row binds holds no float. -/
theorem SlimRow.exact_toJson (r : SlimRow) : r.toJson.Everywhere Exact := by
  have hkeys : ([PyStr.ofString "amount_atomic", "invocable", "latency_ms", "live", "rail",
      "selected", "selected_payment", "url"] : List PyStr).Nodup := by decide
  refine .mk hkeys ?_
  intro u hu
  simp only [SlimRow.toJson, Json.children, List.map_cons, List.map_nil, List.mem_cons,
    List.not_mem_nil, or_false] at hu
  rcases hu with rfl | rfl | rfl | rfl | rfl | rfl | rfl | rfl
  · exact exact_ofText _
  · exact exact_ofBool? _
  · exact exact_ofInt? _
  · exact exact_ofBool? _
  · exact exact_ofText _
  · exact exact_ofBool? _
  · cases r.selectedPayment with
    | none => exact .scalar trivial rfl
    | some p => exact p.exact_toJson
  · exact exact_ofText _

theorem exact_rows (rows : List SlimRow) :
    (Json.arr (rows.map SlimRow.toJson)).Everywhere Exact := by
  refine .mk trivial ?_
  intro u hu
  obtain ⟨r, -, rfl⟩ := List.mem_map.mp hu
  exact r.exact_toJson

section Text

variable {py : Interp} {writer : ℕ}

/-- Rows with one canonical text are the same rows in the same order. -/
theorem eq_of_canonicalize {rows rows' : List SlimRow} {raw : Bytes}
    (h : canonicalize py writer (.arr (rows.map SlimRow.toJson)) = .ok raw)
    (h' : canonicalize py writer (.arr (rows'.map SlimRow.toJson)) = .ok raw) : rows = rows' := by
  have hsame := (same_of_canonicalize (exact_rows rows) (exact_rows rows') h h').forall₂
  rw [List.forall₂_map_left_iff, List.forall₂_map_right_iff] at hsame
  exact List.forall₂_eq_eq_eq ▸ hsame.imp fun r s hrs => SlimRow.same_toJson hrs

/-- A row that can be written by itself. -/
def Writable (py : Interp) (writer : ℕ) (row : SlimRow) : Prop :=
  ∃ t, serialize py (.arr [row.toJson]) writer = .ok t

/-- Rows are written when each can be written. -/
theorem canonicalize_rows {rows : List SlimRow} (hne : rows ≠ []) :
    (∃ raw, canonicalize py writer (.arr (rows.map SlimRow.toJson)) = .ok raw) ↔
      ∀ row ∈ rows, Writable py writer row := by
  cases writer with
  | zero =>
      constructor
      · rintro ⟨raw, h⟩
        obtain ⟨t, ht, -⟩ := bind_eq_ok.mp h
        cases ht
      · intro h
        obtain ⟨row, hrow⟩ := List.exists_mem_of_ne_nil rows hne
        obtain ⟨t, ht⟩ := h row hrow
        cases ht
  | succ writer =>
      have hone : ∀ row : SlimRow, Writable py (writer + 1) row ↔
          ∃ t, serialize py row.toJson writer = .ok t := by
        intro row
        unfold Writable
        rw [serialize_arr, List.mapM_cons]
        cases serialize py row.toJson writer with
        | error e => simp [Except.map, bind, Except.bind]
        | ok t => simp [Except.map, bind, Except.bind, pure, Except.pure]
      constructor
      · rintro ⟨raw, h⟩ row hrow
        obtain ⟨t, ht, -⟩ := bind_eq_ok.mp h
        rw [serialize_arr] at ht
        obtain ⟨ts, hts, -⟩ := map_eq_ok.mp ht
        obtain ⟨u, -, hu⟩ := exists_of_mapM_mem hts (List.mem_map_of_mem hrow)
        exact (hone row).mpr ⟨u, hu⟩
      · intro h
        obtain ⟨ts, hts⟩ := exists_forall₂ fun row hrow => (hone row).mp (h row hrow)
        have hall : (rows.map SlimRow.toJson).mapM (fun v => serialize py v writer) =
            .ok (List.zipWith (fun _ t => t) rows ts) := by
          rw [List.mapM_map]
          exact mapM_eq_ok_zipWith hts
        obtain ⟨t, ht⟩ : ∃ t,
            serialize py (.arr (rows.map SlimRow.toJson)) (writer + 1) = .ok t := by
          rw [serialize_arr, hall]
          exact ⟨_, rfl⟩
        exact ⟨_, canonicalize_of_serialize ((exact_rows rows).imp fun _ h => h.sound) ht⟩

end Text

/-! ## The order of the rows -/

/-- The rows that are dictionaries. -/
def dicts (rows : List Json) : List Dict := rows.filterMap Json.asObj?

/-- Rows that share url, rail and selection bind the same. -/
def TiesAgree (py : Interp) (rows : List Json) : Prop :=
  ∀ row ∈ dicts rows, ∀ row' ∈ dicts rows, ∀ r r', slimRow py row = .ok r →
    slimRow py row' = .ok r' → r.key = r'.key → r = r'

/-- A row that can be reduced, and written by itself. -/
def Digestible (py : Interp) (writer : ℕ) (row : Dict) : Prop :=
  ∃ r, slimRow py row = .ok r ∧ Writable py writer r

/-- Two texts of one digest. -/
def Collision (raw raw' : Bytes) : Prop := raw ≠ raw' ∧ Sha256.sha256 raw = Sha256.sha256 raw'

/-- The text of rows, where it can be written. -/
def HasText (py : Interp) (writer : ℕ) (rows : List Json) (raw : Bytes) : Prop :=
  ∃ slim, slimRows py rows = .ok slim ∧ setText py writer slim = .ok raw

/-- The digest of rows, where there is one. -/
def digestOf (py : Interp) (writer : ℕ) (rows : List Json) : Option (Option Bytes) :=
  (candidateSetDigest py writer (.arr rows)).toOption

section Order

variable {py : Interp} {writer : ℕ} {rows rows' : List Json}

theorem digestOf_of_text {slim : List SlimRow} {raw : Bytes} (hslim : slimRows py rows = .ok slim)
    (hne : slim ≠ []) (hraw : setText py writer slim = .ok raw) :
    digestOf py writer rows = some (some (hex (Sha256.sha256 raw))) := by
  have hempty : slim.isEmpty = false := by simpa using hne
  rw [digestOf, candidateSetDigest, hslim]
  simp only [Except.bind, hempty, Bool.false_eq_true, ↓reduceIte, hraw]
  rfl

/-- The texts of rows in two orders, when every row can be written. -/
theorem exists_text (hne : dicts rows ≠ []) (hall : ∀ row ∈ dicts rows, Digestible py writer row) :
    ∃ slim raw, slimRows py rows = .ok slim ∧ slim ≠ [] ∧ setText py writer slim = .ok raw := by
  obtain ⟨slim, hslim⟩ := exists_forall₂ hall
  have hrows : slimRows py rows = .ok slim := by
    have hmap := mapM_eq_ok_zipWith (g := fun _ r => r) (hslim.imp fun row r h => h.1)
    have hzip : List.zipWith (fun _ r => r) (dicts rows) slim = slim := by
      rw [← List.map_uncurry_zip_eq_zipWith]
      exact List.map_snd_zip hslim.length_eq.ge
    rw [hzip] at hmap
    exact hmap
  have hslimne : slim ≠ [] := by
    rintro rfl
    cases hd : dicts rows with
    | nil => exact hne hd
    | cons row rest =>
        rw [hd] at hslim
        cases hslim
  have hwritable : ∀ r ∈ CmpSort.keySort SlimRow.key slim, Writable py writer r := by
    intro r hr
    have hr := (CmpSort.keySort_perm SlimRow.key slim).mem_iff.mp hr
    obtain ⟨hall', -⟩ := (List.forall₂_and_left slim (dicts rows)).mp
      (hslim.flip.imp fun r row h => (⟨h.2, trivial⟩ : Writable py writer r ∧ True))
    exact hall' r hr
  have hsortne : CmpSort.keySort SlimRow.key slim ≠ [] := by
    intro h
    have hlength := (CmpSort.keySort_perm SlimRow.key slim).length_eq
    rw [h, List.length_nil, eq_comm, List.length_eq_zero_iff] at hlength
    exact hslimne hlength
  obtain ⟨raw, hraw⟩ := (canonicalize_rows hsortne).mpr hwritable
  exact ⟨slim, raw, hrows, hslimne, hraw⟩

/-- A digest is there only if every row can be written. -/
theorem digestible_of_digestOf {d : Option Bytes} (h : digestOf py writer rows = some d) :
    ∀ row ∈ dicts rows, Digestible py writer row := by
  intro row hrow
  rw [digestOf, candidateSetDigest] at h
  cases hslim : slimRows py rows with
  | error e =>
      rw [hslim] at h
      cases h
  | ok slim =>
      obtain ⟨r, hr, hread⟩ := exists_of_mapM_mem hslim hrow
      refine ⟨r, hread, ?_⟩
      have hne : slim ≠ [] := List.ne_nil_of_mem hr
      have hempty : slim.isEmpty = false := by simpa using hne
      rw [hslim] at h
      simp only [Except.bind, hempty, Bool.false_eq_true, ↓reduceIte] at h
      cases hraw : setText py writer slim with
      | error e =>
          rw [hraw] at h
          cases h
      | ok raw =>
          have hmem := (CmpSort.keySort_perm SlimRow.key slim).mem_iff.mpr hr
          exact (canonicalize_rows (List.ne_nil_of_mem hmem)).mp ⟨raw, hraw⟩ r hmem

/-- Where rows that share the key bind the same, their order does not count. -/
theorem digestOf_perm (hties : TiesAgree py rows) (h : rows'.Perm rows) :
    digestOf py writer rows' = digestOf py writer rows := by
  have hdicts : (dicts rows).Perm (dicts rows') := h.symm.filterMap _
  cases hslim : slimRows py rows with
  | error e =>
      cases hslim' : slimRows py rows' with
      | error e' =>
          rw [digestOf, digestOf, candidateSetDigest, candidateSetDigest, hslim, hslim']
          rfl
      | ok slim' =>
          obtain ⟨slim, hok, -⟩ := mapM_perm hdicts.symm hslim'
          cases hslim.symm.trans hok
  | ok slim =>
      obtain ⟨slim', hslim', hperm⟩ := mapM_perm hdicts hslim
      have hslim' : slimRows py rows' = .ok slim' := hslim'
      have hsort : CmpSort.keySort SlimRow.key slim = CmpSort.keySort SlimRow.key slim' := by
        apply CmpSort.keySort_eq_of_perm SlimRow.key hperm
        intro r hr r' hr' hkey
        obtain ⟨row, hrow, hread⟩ := exists_of_mem_mapM hslim hr
        obtain ⟨row', hrow', hread'⟩ := exists_of_mem_mapM hslim hr'
        exact hties row hrow row' hrow' r r' hread hread' hkey
      have htext : setText py writer slim' = setText py writer slim := by
        rw [setText, setText, hsort]
      have hempty : slim'.isEmpty = slim.isEmpty := by
        rw [Bool.eq_iff_iff, List.isEmpty_iff, List.isEmpty_iff]
        exact ⟨fun h => (h ▸ hperm).eq_nil, fun h => (h ▸ hperm.symm).eq_nil⟩
      rw [digestOf, digestOf, candidateSetDigest, candidateSetDigest, hslim, hslim']
      simp only [Except.bind, htext, hempty]

/-- A row can be put in front of the others. -/
theorem exists_perm_front {row : Dict} (h : row ∈ dicts rows) :
    ∃ rows', rows'.Perm rows ∧ ∃ rest, dicts rows' = row :: rest := by
  obtain ⟨v, hv, hrow⟩ := List.mem_filterMap.mp h
  obtain ⟨front, back, rfl⟩ := List.append_of_mem hv
  refine ⟨v :: (front ++ back), List.perm_middle.symm, dicts (front ++ back), ?_⟩
  rw [dicts, List.filterMap_cons, hrow]
  rfl

/-- With a row put in front, the text of the rows begins with what it binds among those of
its key; and there is no other text, but by a collision. -/
theorem exists_sorted_front (hinvariant : ∀ rows', rows'.Perm rows →
      digestOf py writer rows' = digestOf py writer rows)
    (hall : ∀ row ∈ dicts rows, Digestible py writer row)
    (hfree : ¬ ∃ rows', rows'.Perm rows ∧ ∃ raw raw', HasText py writer rows raw ∧
      HasText py writer rows' raw' ∧ Collision raw raw')
    {slim : List SlimRow} {raw : Bytes} (hslim : slimRows py rows = .ok slim) (hne : slim ≠ [])
    (hraw : setText py writer slim = .ok raw) {row : Dict} (hrow : row ∈ dicts rows) {r : SlimRow}
    (hread : slimRow py row = .ok r) :
    ∃ rest, CmpSort.keySort SlimRow.key (r :: rest) = CmpSort.keySort SlimRow.key slim := by
  obtain ⟨rows', hperm, rest, hfront⟩ := exists_perm_front hrow
  have hdicts : (dicts rows').Perm (dicts rows) := hperm.filterMap _
  have hne' : dicts rows' ≠ [] := by
    rw [hfront]
    exact List.cons_ne_nil row rest
  obtain ⟨slim', raw', hslim', hslimne', hraw'⟩ :=
    exists_text hne' fun row hmem => hall row (hdicts.mem_iff.mp hmem)
  have hsame : raw = raw' := by
    by_contra hraws
    have hdigest := hinvariant rows' hperm
    rw [digestOf_of_text hslim' hslimne' hraw', digestOf_of_text hslim hne hraw] at hdigest
    have hsha := hex_injective (Option.some.inj (Option.some.inj hdigest))
    exact hfree ⟨rows', hperm, raw, raw', ⟨slim, hslim, hraw⟩, ⟨slim', hslim', hraw'⟩, hraws,
      hsha.symm⟩
  subst hsame
  have hslimrow : ∃ tail, slim' = r :: tail := by
    have hmap : (row :: rest).mapM (slimRow py) = .ok slim' := by
      rw [← hfront]
      exact hslim'
    cases forall₂_of_mapM_eq_ok hmap with
    | cons hhead htail =>
        cases hread.symm.trans hhead
        exact ⟨_, rfl⟩
  obtain ⟨tail, rfl⟩ := hslimrow
  exact ⟨tail, eq_of_canonicalize hraw' hraw⟩

end Order

/-- The digest does not depend on the order of the rows exactly when rows that share url,
rail and selection bind the same, or some row cannot be written and so there is no digest;
otherwise two orders have different texts, which SHA-256 would have to collide on. -/
theorem candidate_set_digest_order (py : Interp) (writer : ℕ) (rows : List Json) :
    (∃ rows', rows'.Perm rows ∧ ∃ raw raw', HasText py writer rows raw ∧
      HasText py writer rows' raw' ∧ Collision raw raw') ∨
    ((∀ rows', rows'.Perm rows → digestOf py writer rows' = digestOf py writer rows) ↔
      TiesAgree py rows ∨ ∃ row ∈ dicts rows, ¬ Digestible py writer row) := by
  by_cases hfree : ∃ rows', rows'.Perm rows ∧ ∃ raw raw', HasText py writer rows raw ∧
      HasText py writer rows' raw' ∧ Collision raw raw'
  · exact .inl hfree
  refine .inr ⟨?_, ?_⟩
  · intro hinvariant
    by_cases hall : ∀ row ∈ dicts rows, Digestible py writer row
    · left
      intro row hrow row' hrow' r r' hread hread' hkey
      obtain ⟨slim, raw, hslim, hne, hraw⟩ := exists_text (List.ne_nil_of_mem hrow) hall
      obtain ⟨rest, hsort⟩ :=
        exists_sorted_front hinvariant hall hfree hslim hne hraw hrow hread
      obtain ⟨rest', hsort'⟩ :=
        exists_sorted_front hinvariant hall hfree hslim hne hraw hrow' hread'
      exact CmpSort.eq_of_keySort_cons_eq SlimRow.key hkey (hsort.trans hsort'.symm)
    · right
      push Not at hall
      exact hall
  · rintro (hties | ⟨row, hrow, hnot⟩) rows' hperm
    · exact digestOf_perm hties hperm
    · have hnone : ∀ rows', rows'.Perm rows → digestOf py writer rows' = none := by
        intro rows' hperm
        cases hd : digestOf py writer rows' with
        | none => rfl
        | some d =>
            have hmem : row ∈ dicts rows' := (hperm.filterMap _).mem_iff.mpr hrow
            exact absurd (digestible_of_digestOf hd row hmem) hnot
      rw [hnone rows' hperm, hnone rows (.refl rows)]

/-- A row of url and rail `u` and `base`, and a latency. -/
def sampleRow (latency : ℤ) : Json :=
  .obj [("url", .str "u"), ("rail", .str "base"), ("latency_ms", .int latency)]

/-- Two rows of one url in two orders have two digests. -/
theorem two_orders_two_digests :
    [sampleRow 2, sampleRow 1].Perm [sampleRow 1, sampleRow 2] ∧
      (digestOf Interp.plain 3 [sampleRow 1, sampleRow 2]).join.isSome ∧
      digestOf Interp.plain 3 [sampleRow 2, sampleRow 1] ≠
        digestOf Interp.plain 3 [sampleRow 1, sampleRow 2] :=
  ⟨.swap _ _ _, by decide +kernel, by decide +kernel⟩

end Signal402.CandidateSet
