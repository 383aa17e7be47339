import Signal402.Route.Explicit

/-!
# What reading the constraints raises (`select.py`, `policy.py`)

The gate, the merge and the report of the constraints of a body in a row (`constrain`).
Besides a refusal, an exception comes from a number too large for a float, from digits that
`int` does not read, and from a list that `str` does not write.

* `constrain_refuses_only` — the exact bodies on which nothing but `ConstraintError` is
  raised.
-/

namespace Signal402

namespace Policy

open Regex Select

/-- `validate_explicit_constraints`, then `merge_constraints`, then `attach_policy`. -/
def constrain (py : Interp) (levels : ℕ) (result : Dict) (body : Json) : Except PyError Dict :=
  (validateExplicitConstraints py body).bind fun _ =>
    (mergeConstraints py levels body).bind fun _ => attachPolicy py levels result body

/-! ## Outcomes -/

section Outcomes

variable {α β : Type}

/-- No exception is raised. -/
def Returns (x : Except PyError α) : Prop := ∃ a, x = .ok a

/-- What is raised is no refusal. -/
def NoRefusal (x : Except PyError α) : Prop := ∀ e, x = .error e → e.cls ≠ .constraintError

theorem Returns.ok (a : α) : Returns (.ok a : Except PyError α) := ⟨a, rfl⟩

theorem not_returns_error {e : PyError} : ¬ Returns (.error e : Except PyError α) := by
  rintro ⟨a, ha⟩
  cases ha

theorem returns_map {x : Except PyError α} {f : α → β} : Returns (x.map f) ↔ Returns x := by
  cases x with
  | error e => exact iff_of_false not_returns_error not_returns_error
  | ok a => exact iff_of_true (.ok _) (.ok _)

theorem returns_bind {x : Except PyError α} {f : α → Except PyError β} :
    Returns (x.bind f) ↔ ∃ a, x = .ok a ∧ Returns (f a) := by
  constructor
  · rintro ⟨b, hb⟩
    obtain ⟨a, ha, hfa⟩ := bind_eq_ok.mp hb
    exact ⟨a, ha, b, hfa⟩
  · rintro ⟨a, rfl, b, hb⟩
    exact ⟨b, hb⟩

/-- A sequence of steps that do not depend on each other's results. -/
theorem returns_bind_iff {p : Prop} {x : Except PyError α} {f : α → Except PyError β}
    (hf : ∀ a, Returns (f a) ↔ p) : Returns (x.bind f) ↔ Returns x ∧ p := by
  rw [returns_bind]
  constructor
  · rintro ⟨a, ha, hfa⟩
    exact ⟨⟨a, ha⟩, (hf a).mp hfa⟩
  · rintro ⟨⟨a, ha⟩, hp⟩
    exact ⟨a, ha, (hf a).mpr hp⟩

/-- A step that returns does not decide what the sequence does. -/
theorem returns_bind_of {p : Prop} {x : Except PyError α} {f : α → Except PyError β}
    (hx : Returns x) (hf : ∀ a, Returns (f a) ↔ p) : Returns (x.bind f) ↔ p :=
  (returns_bind_iff hf).trans (and_iff_right hx)

theorem returns_mapM {f : α → Except PyError β} {xs : List α} :
    Returns (xs.mapM f) ↔ ∀ x ∈ xs, Returns (f x) := by
  constructor
  · rintro ⟨ys, hys⟩ x hx
    obtain ⟨y, -, hy⟩ := exists_of_mapM_mem hys hx
    exact ⟨y, hy⟩
  · intro h
    obtain ⟨ys, hys⟩ := exists_forall₂ h
    exact ⟨_, mapM_eq_ok_zipWith (g := fun _ y => y) hys⟩

theorem returns_foldlM {p : α → Prop} {f : β → α → Except PyError β} {xs : List α}
    (hf : ∀ b, ∀ x ∈ xs, Returns (f b x) ↔ p x) (b : β) :
    Returns (xs.foldlM f b) ↔ ∀ x ∈ xs, p x := by
  induction xs generalizing b with
  | nil => exact iff_of_true (.ok b) fun x hx => absurd hx List.not_mem_nil
  | cons x rest ih =>
      rw [List.forall_mem_cons, ← hf b x List.mem_cons_self]
      show Returns ((f b x).bind fun b' => rest.foldlM f b') ↔ _
      exact returns_bind_iff fun b' => ih (fun b y hy => hf b y (List.mem_cons_of_mem x hy)) b'

/-- What every round of a loop keeps, the loop keeps. -/
theorem foldlM_inv {I : β → Prop} {f : β → α → Except PyError β} {xs : List α}
    (hf : ∀ b b' x, I b → f b x = .ok b' → I b') {b b' : β} (hb : I b)
    (h : xs.foldlM f b = .ok b') : I b' := by
  induction xs generalizing b with
  | nil =>
      cases h
      exact hb
  | cons x rest ih =>
      obtain ⟨c, hc, hrest⟩ := bind_eq_ok.mp h
      exact ih (hf b c x hb hc) hrest

theorem NoRefusal.ok (a : α) : NoRefusal (.ok a : Except PyError α) := fun e h => by cases h

theorem NoRefusal.error {e : PyError} (h : e.cls ≠ .constraintError) :
    NoRefusal (.error e : Except PyError α) := by
  intro e' he
  cases he
  exact h

theorem NoRefusal.bind {x : Except PyError α} {f : α → Except PyError β} (hx : NoRefusal x)
    (hf : ∀ a, NoRefusal (f a)) : NoRefusal (x.bind f) := by
  cases x with
  | error e => exact .error (hx e rfl)
  | ok a => exact hf a

theorem NoRefusal.map {x : Except PyError α} {f : α → β} (hx : NoRefusal x) :
    NoRefusal (x.map f) := by
  cases x with
  | error e => exact .error (hx e rfl)
  | ok a => exact .ok _

theorem NoRefusal.mapM {f : α → Except PyError β} {xs : List α}
    (hf : ∀ x ∈ xs, NoRefusal (f x)) : NoRefusal (xs.mapM f) := by
  intro e he
  obtain ⟨x, hx, hfx⟩ := exists_of_mapM_eq_error he
  exact hf x hx e hfx

theorem NoRefusal.forM {f : α → Except PyError Unit} {xs : List α}
    (hf : ∀ x ∈ xs, NoRefusal (f x)) : NoRefusal (xs.forM f) := by
  induction xs with
  | nil => exact .ok _
  | cons x rest ih =>
      exact .bind (hf x List.mem_cons_self) fun _ =>
        ih fun y hy => hf y (List.mem_cons_of_mem x hy)

theorem NoRefusal.foldlM {f : β → α → Except PyError β} {xs : List α}
    (hf : ∀ b, ∀ x ∈ xs, NoRefusal (f b x)) (b : β) : NoRefusal (xs.foldlM f b) := by
  induction xs generalizing b with
  | nil => exact .ok b
  | cons x rest ih =>
      exact .bind (hf b x List.mem_cons_self) fun b' =>
        ih (fun b y hy => hf b y (List.mem_cons_of_mem x hy)) b'

end Outcomes

/-! ## Conversions -/

section Conversions

variable {py : Interp} {levels : ℕ}

theorem noRefusal_strRaises (levels : ℕ) (x : Json) : NoRefusal (strRaises levels x) := by
  induction levels generalizing x with
  | zero =>
      cases x with
      | int n =>
          unfold strRaises
          split
          · exact .ok _
          · exact .error (by decide)
      | arr items => exact .error (by decide)
      | obj members => exact .error (by decide)
      | _ => exact .ok _
  | succ k ih =>
      cases x with
      | int n =>
          unfold strRaises
          split
          · exact .ok _
          · exact .error (by decide)
      | arr items => exact .forM fun item _ => ih item
      | obj members => exact .forM fun m _ => ih m.2
      | _ => exact .ok _

theorem noRefusal_textOf (x : Json) : NoRefusal (textOf py levels x) := by
  unfold textOf
  split
  · exact .ok _
  · exact .map (.map (noRefusal_strRaises levels x))

theorem noRefusal_int (s : PyStr) : NoRefusal (py.int s) := by
  unfold Interp.int
  split
  · exact .ok _
  · exact .error (by decide)

theorem noRefusal_nonnegInt (x : Json) : NoRefusal (nonnegInt py x) := by
  cases x with
  | str s =>
      rw [nonnegInt]
      split
      · exact .map (noRefusal_int _)
      · exact .ok _
  | _ => exact .ok _

theorem noRefusal_ofInt (n : ℤ) : NoRefusal (PyFloat.ofInt n) := by
  unfold PyFloat.ofInt
  split
  · exact .error (by decide)
  · exact .ok _

theorem noRefusal_asFloat (x : Json) : NoRefusal (py.asFloat x) := by
  cases x with
  | int n => exact .map (noRefusal_ofInt n)
  | _ => exact .ok _

theorem noRefusal_rounded (x : PyFloat) : NoRefusal x.rounded := by
  unfold PyFloat.rounded
  split
  · exact .ok _
  · unfold PyFloat.toInt
    split
    · exact .error (by decide)
    · exact .error (by decide)
    · exact .ok _
    · exact .ok _

theorem noRefusal_parseRails (x : Json) : NoRefusal (parseRails py levels x) := by
  unfold parseRails
  split
  · exact .ok _
  · split
    · exact .ok _
    · exact .map (.mapM fun item _ => .map (noRefusal_textOf item))

theorem noRefusal_parseConstraints (src : Dict) : NoRefusal (parseConstraints py levels src) := by
  unfold parseConstraints
  have hcost : ∀ x, NoRefusal (costBound py x) := fun x => .map (noRefusal_asFloat x)
  have hrate : ∀ x, NoRefusal (rateBound py x) := fun x => .map (noRefusal_asFloat x)
  refine .bind (hcost _) fun _ => .bind (hcost _) fun _ => .bind (hcost _) fun _ =>
    .bind (hrate _) fun _ => .bind (hrate _) fun _ => .bind (noRefusal_nonnegInt _) fun _ =>
    .bind (noRefusal_nonnegInt _) fun _ => .bind (noRefusal_nonnegInt _) fun _ =>
    .bind (noRefusal_nonnegInt _) fun _ => .bind (noRefusal_nonnegInt _) fun _ =>
    .bind (noRefusal_parseRails _) fun _ => .bind (noRefusal_nonnegInt _) fun _ => .ok _

end Conversions

/-! ## The text -/

section Text

variable (py : Interp) (levels : ℕ)

/-- The digits that a match states are more than `int` reads. -/
def LongDigits (m : Match CodePoint) : Prop :=
  py.isDigit (unsigned (groupText m 1)) = true ∧ py.int? (unsigned (groupText m 1)) = none

/-- A bound of a text cannot be converted: its digits are too long, or its seconds are
infinite as milliseconds. -/
inductive Unreadable (raw : PyStr) : Prop
  | latency (m : Match CodePoint) (hm : m ∈ (msPattern py).findAll raw) (h : LongDigits py m)
  | observations (m : Match CodePoint) (hm : (obsPattern py).search raw = some m)
      (h : LongDigits py m)
  | settlement (m : Match CodePoint) (hm : (settlementMsPattern py).search raw = some m)
      (h : LongDigits py m)
  | seconds (m : Match CodePoint) (hnone : (settlementMsPattern py).search raw = none)
      (hm : (settlementSPattern py).search raw = some m) (n : PyFloat)
      (hn : numberOf py (groupText m 1) = some n) (h : (n.mul thousand).isFinite = false)

/-- A text that is not written, or a bound of which is not read. -/
def UnreadableText (text : Json) : Prop :=
  (text.truthy = true ∧ strRaises levels text ≠ .ok ()) ∨
    (squeeze (py.strOrEmpty text) ≠ [] ∧ Unreadable py (squeeze (py.strOrEmpty text)))

variable {py levels}

theorem returns_nonnegInt_str {s : PyStr} : Returns (nonnegInt py (.str s)) ↔
    ¬ (py.isDigit (unsigned s) = true ∧ py.int? (unsigned s) = none) := by
  rw [nonnegInt]
  by_cases hdigit : py.isDigit (unsigned s) = true
  · rw [if_pos hdigit, returns_map, Interp.int]
    cases py.int? (unsigned s) with
    | none => exact iff_of_false not_returns_error fun h => h ⟨hdigit, rfl⟩
    | some n => exact iff_of_true (.ok n) fun h => Option.some_ne_none n h.2
  · rw [if_neg hdigit]
    exact iff_of_true (.ok _) fun h => hdigit h.1

theorem returns_readLatency {raw : PyStr} {found : Dict} {m : Match CodePoint} :
    Returns (readLatency py raw found m) ↔ ¬ LongDigits py m := by
  unfold readLatency
  rw [returns_map]
  exact returns_nonnegInt_str

theorem returns_readCount {key : PyStr} {found : Dict} {m : Match CodePoint} :
    Returns (readCount py key found m) ↔ ¬ LongDigits py m := by
  unfold readCount
  rw [returns_map]
  exact returns_nonnegInt_str

theorem returns_rounded {x : PyFloat} : Returns x.rounded ↔ x.isFinite = true := by
  unfold PyFloat.rounded
  by_cases hx : x.isFinite = true
  · rw [if_pos hx]
    exact iff_of_true (.ok _) hx
  · rw [if_neg hx]
    refine iff_of_false ?_ hx
    unfold PyFloat.isFinite at hx
    unfold PyFloat.toInt
    cases hu : x.unpack with
    | infinity s => exact not_returns_error
    | notANumber => exact not_returns_error
    | zero s =>
        rw [hu] at hx
        exact absurd rfl hx
    | finite s n k hn =>
        rw [hu] at hx
        exact absurd rfl hx

theorem returns_readSeconds {found : Dict} {m : Match CodePoint} :
    Returns (readSeconds py found m) ↔
      ∀ n, numberOf py (groupText m 1) = some n → (n.mul thousand).isFinite = true := by
  unfold readSeconds
  cases numberOf py (groupText m 1) with
  | none => exact iff_of_true (.ok _) fun n hn => by cases hn
  | some n =>
      rw [returns_map, returns_rounded]
      exact ⟨fun h k hk => Option.some_inj.mp hk ▸ h, fun h => h n rfl⟩

theorem returns_settlement {raw : PyStr} {found : Dict} :
    Returns (settlement py raw found) ↔
      (∀ m, (settlementMsPattern py).search raw = some m → ¬ LongDigits py m) ∧
        ((settlementMsPattern py).search raw = none → ∀ m,
          (settlementSPattern py).search raw = some m → ∀ n,
            numberOf py (groupText m 1) = some n → (n.mul thousand).isFinite = true) := by
  unfold settlement
  cases (settlementMsPattern py).search raw with
  | some m => simp [returns_readCount]
  | none =>
      cases (settlementSPattern py).search raw with
      | some m => simp [returns_readSeconds]
      | none => simp [Returns]

theorem not_unreadable {raw : PyStr} :
    ¬ Unreadable py raw ↔
      (∀ m ∈ (msPattern py).findAll raw, ¬ LongDigits py m) ∧
        (∀ m, (obsPattern py).search raw = some m → ¬ LongDigits py m) ∧
          (∀ m, (settlementMsPattern py).search raw = some m → ¬ LongDigits py m) ∧
            ((settlementMsPattern py).search raw = none → ∀ m,
              (settlementSPattern py).search raw = some m → ∀ n,
                numberOf py (groupText m 1) = some n → (n.mul thousand).isFinite = true) := by
  constructor
  · intro h
    refine ⟨fun m hm hlong => h (.latency m hm hlong),
      fun m hm hlong => h (.observations m hm hlong),
      fun m hm hlong => h (.settlement m hm hlong), fun hnone m hm n hn => ?_⟩
    by_contra hfinite
    exact h (.seconds m hnone hm n hn (Bool.eq_false_iff.mpr hfinite))
  · rintro ⟨h1, h2, h3, h4⟩ h
    cases h with
    | latency m hm hlong => exact h1 m hm hlong
    | observations m hm hlong => exact h2 m hm hlong
    | settlement m hm hlong => exact h3 m hm hlong
    | seconds m hnone hm n hn h =>
        rw [h4 hnone m hm n hn] at h
        cases h

theorem returns_observations {raw : PyStr} {found : Dict} :
    Returns (observations py raw found) ↔
      ∀ m, (obsPattern py).search raw = some m → ¬ LongDigits py m := by
  unfold observations
  cases (obsPattern py).search raw with
  | some m => simp [returns_readCount]
  | none => simp [Returns]

theorem returns_interpreted {raw : PyStr} :
    Returns (interpreted py raw) ↔ ¬ Unreadable py raw := by
  rw [not_unreadable]
  unfold interpreted
  have hlatency : ∀ found : Dict,
      Returns (((msPattern py).findAll raw).foldlM (readLatency py raw) found) ↔
        ∀ m ∈ (msPattern py).findAll raw, ¬ LongDigits py m :=
    returns_foldlM fun _ _ _ => returns_readLatency
  rw [← hlatency]
  refine returns_bind_iff fun found => ?_
  rw [← returns_observations]
  refine returns_bind_iff fun found => ?_
  rw [← returns_settlement]
  exact returns_map

theorem noRefusal_interpreted (raw : PyStr) : NoRefusal (interpreted py raw) := by
  have hcount : ∀ key found m, NoRefusal (readCount py key found m) :=
    fun key found m => .map (noRefusal_nonnegInt _)
  unfold interpreted
  refine .bind (.foldlM (fun _ _ _ => .map (noRefusal_nonnegInt _)) _) fun found => ?_
  refine .bind ?_ fun found => .bind ?_ fun found => .ok _
  · unfold observations
    split
    · exact hcount _ _ _
    · exact .ok _
  · unfold settlement
    split
    · exact hcount _ _ _
    · split
      · unfold readSeconds
        split
        · exact .ok _
        · exact .map (noRefusal_rounded _)
      · exact .ok _

theorem returns_compileText {s : PyStr} :
    Returns (compileText py s) ↔ ¬ (squeeze s ≠ [] ∧ Unreadable py (squeeze s)) := by
  unfold compileText
  by_cases hempty : squeeze s = []
  · rw [if_pos (List.isEmpty_iff.mpr hempty)]
    exact iff_of_true (.ok _) fun h => h.1 hempty
  · rw [if_neg fun h => hempty (List.isEmpty_iff.mp h), returns_map, returns_interpreted, not_and]
    exact ⟨fun h _ => h, fun h => h hempty⟩

theorem returns_compilePolicy {text : Json} :
    Returns (compilePolicy py levels text) ↔ ¬ UnreadableText py levels text := by
  unfold compilePolicy UnreadableText Interp.strOrEmpty
  by_cases htext : text.truthy = true
  · rw [if_pos htext, if_pos htext, not_or, ← returns_compileText]
    unfold strOf
    cases hstr : strRaises levels text with
    | error e => exact iff_of_false not_returns_error fun h => h.1 ⟨htext, by simp⟩
    | ok u => exact ⟨fun h => ⟨fun hbad => hbad.2 rfl, h⟩, fun h => h.2⟩
  · rw [if_neg htext, if_neg htext, not_or, ← returns_compileText]
    exact ⟨fun h => ⟨fun hbad => htext hbad.1, h⟩, fun h => h.2⟩

theorem noRefusal_compilePolicy (text : Json) : NoRefusal (compilePolicy py levels text) := by
  have htext : ∀ s, NoRefusal (compileText py s) := by
    intro s
    unfold compileText
    split
    · exact .ok _
    · exact .map (noRefusal_interpreted _)
  unfold compilePolicy
  split
  · exact .bind (.map (noRefusal_strRaises levels text)) htext
  · exact htext []

end Text

/-! ## The values a text sets -/

/-- The keys whose values are read as floats. -/
def numberKeys : List PyStr :=
  ["max_price_usd", "max_total_cost_usd", "min_reputation_score", "min_observed_success",
    "min_reputation_confidence"]

/-- The values of a text are of the types that parsing reads: none is a text, the numbers
are floats, and the networks are a list of names. -/
structure Typed (found : Dict) : Prop where
  number : ∀ key ∈ numberKeys, ∀ v, found.get? key = some v → ∃ x, v = .float x
  noText : ∀ key v, found.get? key = some v → ∀ s, v ≠ .str s
  networks : ∀ v, found.get? "networks" = some v → ∃ names : List PyStr, v = .arr (names.map .str)
  noRails : found.get? "rails" = none

namespace Typed

variable {py : Interp} {levels : ℕ} {found : Dict} {raw : PyStr}

theorem nil : Typed [] := by
  constructor <;> simp [Dict.get?]

theorem set (h : Typed found) {key : PyStr} {v : Json}
    (hnumber : key ∈ numberKeys → ∃ x, v = .float x) (htext : ∀ s, v ≠ .str s)
    (hnetworks : key = "networks" → ∃ names : List PyStr, v = .arr (names.map .str))
    (hrails : key ≠ "rails") : Typed (found.set key v) where
  number := by
    intro k hk u hu
    rw [Dict.get?_set] at hu
    split at hu
    · rename_i heq
      cases hu
      exact hnumber (heq ▸ hk)
    · exact h.number k hk u hu
  noText := by
    intro k u hu
    rw [Dict.get?_set] at hu
    split at hu
    · cases hu
      exact htext
    · exact h.noText k u hu
  networks := by
    intro u hu
    rw [Dict.get?_set] at hu
    split at hu
    · rename_i heq
      cases hu
      exact hnetworks heq
    · exact h.networks u hu
  noRails := by
    rw [Dict.get?_set, if_neg hrails]
    exact h.noRails

/-- An integer under a key that is no number and no network. -/
theorem setInt (h : Typed found) {key : PyStr} {n : ℤ} (hnumber : key ∉ numberKeys)
    (hnetworks : key ≠ "networks") (hrails : key ≠ "rails") : Typed (found.set key (.int n)) :=
  h.set (fun hkey => absurd hkey hnumber) (fun s hs => by cases hs)
    (fun hkey => absurd hkey hnetworks) hrails

theorem setFloat (h : Typed found) {key : PyStr} {x : PyFloat} (hnetworks : key ≠ "networks")
    (hrails : key ≠ "rails") : Typed (found.set key (.float x)) :=
  h.set (fun _ => ⟨x, rfl⟩) (fun s hs => by cases hs) (fun hkey => absurd hkey hnetworks) hrails

theorem readLatency {found' : Dict} {m : Match CodePoint} (h : Typed found)
    (hread : readLatency py raw found m = .ok found') : Typed found' := by
  obtain ⟨n, -, rfl⟩ := map_eq_ok.mp hread
  cases n with
  | none => exact h
  | some n =>
      dsimp only
      split
      · exact h.setInt (by simp [numberKeys]) (by simp) (by simp)
      · exact (h.setInt (by simp [numberKeys]) (by simp) (by simp)).setInt
          (by simp [numberKeys]) (by simp) (by simp)

theorem readCount {found' : Dict} {key : PyStr} {m : Match CodePoint} (h : Typed found)
    (hnumber : key ∉ numberKeys) (hnetworks : key ≠ "networks") (hrails : key ≠ "rails")
    (hread : readCount py key found m = .ok found') : Typed found' := by
  obtain ⟨n, -, rfl⟩ := map_eq_ok.mp hread
  cases n with
  | none => exact h
  | some n => exact h.setInt hnumber hnetworks hrails

theorem observations {found' : Dict} (h : Typed found)
    (hread : observations py raw found = .ok found') : Typed found' := by
  unfold Policy.observations at hread
  split at hread
  · exact h.readCount (by simp [numberKeys]) (by simp) (by simp) hread
  · cases hread
    exact h

theorem flagged (h : Typed found) : Typed (flagged py raw found) := by
  have hrails : Typed (if (namedRails py raw).isEmpty then found
      else found.set "networks" (.arr ((namedRails py raw).map .str))) := by
    split
    · exact h
    · exact h.set (by simp [numberKeys]) (by simp) (fun _ => ⟨_, rfl⟩) (by simp)
  unfold Policy.flagged
  dsimp only
  split
  · refine setInt ?_ (by simp [numberKeys]) (by simp) (by simp)
    split
    · exact hrails.set (by simp [numberKeys]) (by simp) (by simp) (by simp)
    · exact hrails
  · split
    · exact hrails.set (by simp [numberKeys]) (by simp) (by simp) (by simp)
    · exact hrails

theorem settlement {found' : Dict} (h : Typed found)
    (hread : settlement py raw found = .ok found') : Typed found' := by
  unfold Policy.settlement at hread
  split at hread
  · exact h.readCount (by simp [numberKeys]) (by simp) (by simp) hread
  · split at hread
    · unfold readSeconds at hread
      split at hread
      · cases hread
        exact h
      · obtain ⟨k, -, rfl⟩ := map_eq_ok.mp hread
        exact h.setInt (by simp [numberKeys]) (by simp) (by simp)
    · cases hread
      exact h

theorem interpreted (h : interpreted py raw = .ok found) : Typed found := by
  unfold Policy.interpreted at h
  have hpriced : Typed ((price py raw).elim [] fun n => [("max_price_usd", .float n)]) := by
    cases price py raw with
    | none => exact nil
    | some n =>
        show Typed (Dict.set [] "max_price_usd" (.float n))
        exact nil.setFloat (by simp) (by simp)
  obtain ⟨timed, htimed, h⟩ := bind_eq_ok.mp h
  obtain ⟨counted, hcounted, h⟩ := bind_eq_ok.mp h
  obtain ⟨settled, hsettled, h⟩ := bind_eq_ok.mp h
  cases h
  have hsettled' : Typed settled :=
    ((foldlM_inv (fun _ _ _ => readLatency) hpriced htimed).observations hcounted).flagged.settlement
      hsettled
  cases totalCost py raw with
  | none => exact hsettled'
  | some n => exact hsettled'.setFloat (by simp) (by simp)

theorem compilePolicy {text : Json} {compiled : Compiled}
    (h : compilePolicy py levels text = .ok compiled) : Typed compiled.interpreted := by
  have htext : ∀ s, compileText py s = .ok compiled → Typed compiled.interpreted := by
    intro s hs
    unfold compileText at hs
    split at hs
    · cases hs
      exact nil
    · obtain ⟨found, hfound, rfl⟩ := map_eq_ok.mp hs
      exact interpreted hfound
  unfold Policy.compilePolicy at h
  split at h
  · obtain ⟨s, -, hs⟩ := bind_eq_ok.mp h
    exact htext s hs
  · exact htext [] h

end Typed

/-! ## Parsing what is in force -/

section Parsing

variable {py : Interp} {levels : ℕ} {src found : Dict}

/-- `str` writes every item of a list of networks. -/
def WritableRails (levels : ℕ) (rails : Json) : Prop :=
  ∀ items, railItems rails = some items → ∀ item ∈ items, strRaises levels item = .ok ()

theorem strOf_returns {x : Json} : Returns (strOf py levels x) ↔ strRaises levels x = .ok () := by
  unfold strOf
  rw [returns_map]
  exact ⟨fun ⟨_, h⟩ => h, fun h => ⟨(), h⟩⟩

theorem returns_parseRails {x : Json} :
    Returns (parseRails py levels x) ↔ WritableRails levels x := by
  have hitem : ∀ item, Returns (railOfItem py levels item) ↔ strRaises levels item = .ok () := by
    intro item
    unfold railOfItem textOf
    rw [returns_map]
    by_cases hnull : item.isNull = true
    · rw [if_pos hnull]
      refine iff_of_true (.ok _) ?_
      cases item with
      | null => cases levels <;> rfl
      | _ => cases hnull
    · rw [if_neg hnull, returns_map]
      exact strOf_returns
  unfold parseRails WritableRails
  by_cases hblank : x.isBlank = true
  · rw [if_pos hblank]
    refine iff_of_true (.ok _) ?_
    cases x with
    | null => exact fun items h => by cases h
    | str s =>
        have hs : s = [] := List.isEmpty_iff.mp hblank
        have hnone : parts [] = [] := by decide
        subst hs
        intro items h
        cases h
        intro item hitem
        rw [hnone] at hitem
        cases hitem
    | _ => cases hblank
  · rw [if_neg hblank]
    cases hitems : railItems x with
    | none => exact iff_of_true (.ok _) fun items h => by cases h
    | some items =>
        simp only [returns_map, returns_mapM, hitem, Option.some.injEq, forall_eq']

theorem strRaises_str (levels : ℕ) (s : PyStr) : strRaises levels (.str s) = .ok () := by
  cases levels <;> rfl

theorem numberKeys_structured : numberKeys ⊆ structuredKeys := by decide +kernel

/-- A number in force is read: the gate has converted those of the body. -/
theorem returns_asFloat_inForce (hvalid : validateExplicitConstraints py (.obj src) = .ok ())
    (htyped : Typed found) {key : String} (hnumber : (key : PyStr) ∈ numberKeys)
    (hcheck : present key (requireNonnegNumber key) ∈ explicitChecks py ∨
      present key (requireProbability key) ∈ explicitChecks py) :
    Returns (py.asFloat (inForce src found key)) := by
  have hkey : (key : PyStr) ∈ structuredKeys := numberKeys_structured hnumber
  cases hsrc : src.get? key with
  | some v =>
      rw [inForce_of_get? hkey hsrc]
      rcases hcheck with hcheck | hcheck
      · obtain ⟨n, hn, -⟩ := costBound_of_nonneg py
          (present_eq_ok.mp (validate_eq_ok.mp hvalid _ hcheck) v hsrc)
        exact ⟨_, hn⟩
      · obtain ⟨n, hn, -⟩ := rateBound_of_probability py
          (present_eq_ok.mp (validate_eq_ok.mp hvalid _ hcheck) v hsrc)
        exact ⟨_, hn⟩
  | none =>
      unfold inForce Dict.get
      rw [get?_overlay src found hkey, hsrc, Option.none_or]
      cases hfound : found.get? key with
      | none => exact .ok _
      | some v =>
          obtain ⟨x, rfl⟩ := htyped.number key hnumber v hfound
          exact .ok _

/-- An integer in force is read: neither the gate nor a text lets a text through. -/
theorem returns_nonnegInt_inForce (hvalid : validateExplicitConstraints py (.obj src) = .ok ())
    (htyped : Typed found) {key : String} (hkey : (key : PyStr) ∈ structuredKeys)
    (hcheck : presentInt key ∈ explicitChecks py) :
    Returns (nonnegInt py (inForce src found key)) := by
  cases hsrc : src.get? key with
  | some v =>
      rw [inForce_of_get? hkey hsrc]
      obtain ⟨n, hn, -⟩ := map_eq_ok.mp
        (present_eq_ok.mp (validate_eq_ok.mp hvalid _ hcheck) v hsrc)
      obtain ⟨rfl, -⟩ := requireInt_eq_ok.mp hn
      exact .ok _
  | none =>
      unfold inForce Dict.get
      rw [get?_overlay src found hkey, hsrc, Option.none_or]
      cases hfound : found.get? key with
      | none => exact .ok _
      | some v =>
          cases v with
          | str s => exact absurd rfl (htyped.noText key _ hfound s)
          | _ => exact .ok _

/-- Parsing what is in force raises only where a network is not written. -/
theorem returns_parseConstraints (hvalid : validateExplicitConstraints py (.obj src) = .ok ())
    (htyped : Typed found) :
    Returns (parseConstraints py levels (overlay src found)) ↔
      WritableRails levels (networksInForce src found) := by
  have hfloat : ∀ {key : String} (_ : (key : PyStr) ∈ numberKeys)
      (_ : present key (requireNonnegNumber key) ∈ explicitChecks py ∨
        present key (requireProbability key) ∈ explicitChecks py),
      Returns (py.asFloat ((overlay src found).get key)) :=
    fun hnumber hcheck => returns_asFloat_inForce hvalid htyped hnumber hcheck
  have hint : ∀ {key : String} (_ : (key : PyStr) ∈ structuredKeys)
      (_ : presentInt key ∈ explicitChecks py),
      Returns (nonnegInt py ((overlay src found).get key)) :=
    fun hkey hcheck => returns_nonnegInt_inForce hvalid htyped hkey hcheck
  have hcost : ∀ {x}, Returns (py.asFloat x) → Returns (costBound py x) := returns_map.mpr
  have hrate : ∀ {x}, Returns (py.asFloat x) → Returns (rateBound py x) := returns_map.mpr
  rw [← @returns_parseRails py]
  unfold parseConstraints
  refine returns_bind_of (hcost (hfloat (by simp [numberKeys]) (by simp [explicitChecks]))) fun _ =>
    returns_bind_of (hcost (hfloat (by simp [numberKeys]) (by simp [explicitChecks]))) fun _ =>
    returns_bind_of (hcost (hfloat (by simp [numberKeys]) (by simp [explicitChecks]))) fun _ =>
    returns_bind_of (hrate (hfloat (by simp [numberKeys]) (by simp [explicitChecks]))) fun _ =>
    returns_bind_of (hrate (hfloat (by simp [numberKeys]) (by simp [explicitChecks]))) fun _ =>
    returns_bind_of (hint (by simp [structuredKeys]) (by simp [explicitChecks])) fun _ =>
    returns_bind_of (hint (by simp [structuredKeys]) (by simp [explicitChecks])) fun _ =>
    returns_bind_of (hint (by simp [structuredKeys]) (by simp [explicitChecks])) fun _ =>
    returns_bind_of (hint (by simp [structuredKeys]) (by simp [explicitChecks])) fun _ =>
    returns_bind_of (hint (by simp [structuredKeys]) (by simp [explicitChecks])) fun _ => ?_
  rw [← and_true (Returns (parseRails py levels (networksInForce src found)))]
  refine returns_bind_iff fun _ => ?_
  exact returns_bind_of (hint (by simp [structuredKeys]) (by simp [explicitChecks])) fun _ =>
    iff_of_true (.ok _) trivial

end Parsing

/-! ## The gate -/

section Gate

variable {py : Interp} {src : Dict}

/-- A number that the gate converts is too large for a float. -/
def TooLarge (src : Dict) (check : Dict → Except PyError Unit) : Prop :=
  ∃ (key : String) (n : ℤ),
    (check = present key (requireNonnegNumber key) ∨ check = present key (requireProbability key)) ∧
      src.get? key = some (.int n) ∧ ¬ Returns (PyFloat.ofInt n)

/-- The first check that does not pass meets a number too large for a float. -/
def HugeNumber (py : Interp) (src : Dict) : Prop :=
  ∃ before check after, explicitChecks py = before ++ check :: after ∧
    (∀ c ∈ before, c src = .ok ()) ∧ TooLarge src check

/-- A check raises nothing but a refusal. -/
def Refuses (check : Json → Except PyError Unit) : Prop :=
  ∀ v e, check v = .error e → e.cls = .constraintError

theorem reject_refuses {α : Type} {message : String} {e : PyError}
    (h : (reject message : Except PyError α) = .error e) : e.cls = .constraintError := by
  cases h
  rfl

theorem requireBool_refuses (name : String) : Refuses (requireBool name) := by
  intro v e h
  cases v with
  | bool b => cases h
  | _ => exact reject_refuses h

theorem requireInt_refuses {name : String} {v : Json} {e : PyError}
    (h : requireInt name v = .error e) : e.cls = .constraintError := by
  cases v with
  | int n =>
      rw [requireInt] at h
      split at h
      · exact reject_refuses h
      · split at h
        · exact reject_refuses h
        · cases h
  | _ => exact reject_refuses h

theorem checkChoice_refuses (name : String) (choices : List PyStr) :
    Refuses (checkChoice py name choices) := by
  intro v e h
  cases v with
  | str s =>
      rw [checkChoice] at h
      split at h
      · cases h
      · exact reject_refuses h
  | _ => exact reject_refuses h

theorem checkNetworks_refuses : Refuses (checkNetworks py) := by
  intro v e h
  unfold checkNetworks at h
  split at h
  · exact reject_refuses h
  · exact reject_refuses h
  · obtain ⟨before, item, after, -, -, hitem⟩ := forM_eq_error.mp h
    cases item with
    | str s =>
        rw [checkNetwork] at hitem
        split at hitem
        · cases hitem
        · exact reject_refuses hitem
    | _ => exact reject_refuses hitem

theorem checkCandidates_refuses : Refuses checkCandidates := by
  intro v e h
  unfold checkCandidates at h
  cases hint : requireInt "max_candidates_to_probe" v with
  | error e' =>
      rw [hint] at h
      cases h
      exact requireInt_refuses hint
  | ok n =>
      rw [hint] at h
      simp only [Except.bind] at h
      split at h
      · exact reject_refuses h
      · cases h

theorem presentInt_refuses (key : String) :
    Refuses fun v => (requireInt key v).map fun _ => () :=
  fun _ _ h => requireInt_refuses (map_eq_error.mp h)

/-- A number is refused, or it is too large. -/
theorem requireFiniteNumber_error {name : String} {v : Json} {e : PyError}
    (h : requireFiniteNumber name v = .error e) :
    e.cls = .constraintError ∨ ∃ n, v = .int n ∧ ¬ Returns (PyFloat.ofInt n) := by
  cases v with
  | int n => exact .inr ⟨n, rfl, fun ⟨x, hx⟩ => by cases hx.symm.trans h⟩
  | float x =>
      rw [requireFiniteNumber] at h
      split at h
      · cases h
      · exact .inl (reject_refuses h)
  | _ => exact .inl (reject_refuses h)

theorem present_refuses {key : String} {check : Json → Except PyError Unit} {e : PyError}
    (hcheck : Refuses check) (h : present key check src = .error e) :
    e.cls = .constraintError := by
  unfold present at h
  split at h
  · cases h
  · exact hcheck _ e h

theorem requireNumber_error {key : String} {e : PyError}
    (h : present key (requireNonnegNumber key) src = .error e ∨
      present key (requireProbability key) src = .error e) :
    e.cls = .constraintError ∨ ∃ n, src.get? key = some (.int n) ∧ ¬ Returns (PyFloat.ofInt n) := by
  unfold present requireNonnegNumber requireProbability at h
  cases hsrc : src.get? key with
  | none =>
      rw [hsrc] at h
      rcases h with h | h <;> cases h
  | some v =>
      rw [hsrc] at h
      cases hnumber : requireFiniteNumber key v with
      | error e' =>
          simp only [hnumber, Except.bind, Except.error.injEq, or_self] at h
          subst h
          exact (requireFiniteNumber_error hnumber).imp_right fun ⟨n, hn, hlarge⟩ =>
            ⟨n, congrArg some hn, hlarge⟩
      | ok n =>
          simp only [hnumber, Except.bind] at h
          left
          rcases h with h | h
          · split at h
            · exact reject_refuses h
            · cases h
          · split at h
            · exact reject_refuses h
            · cases h

/-- A number that is checked is refused, or it is too large. -/
theorem number_error {key : String} {check : Dict → Except PyError Unit} {e : PyError}
    (hkey : check = present key (requireNonnegNumber key) ∨
      check = present key (requireProbability key))
    (h : check src = .error e) : e.cls = .constraintError ∨ TooLarge src check := by
  have hraised : present key (requireNonnegNumber key) src = .error e ∨
      present key (requireProbability key) src = .error e := by
    rcases hkey with rfl | rfl
    · exact .inl h
    · exact .inr h
  exact (requireNumber_error hraised).imp_right fun ⟨n, hn, hlarge⟩ => ⟨key, n, hkey, hn, hlarge⟩

theorem check_error {check : Dict → Except PyError Unit} {e : PyError}
    (hcheck : check ∈ explicitChecks py) (h : check src = .error e) :
    e.cls = .constraintError ∨ TooLarge src check := by
  simp only [explicitChecks, List.mem_cons, List.not_mem_nil, or_false] at hcheck
  rcases hcheck with rfl | rfl | rfl | rfl | rfl | rfl | rfl | rfl | rfl | rfl | rfl | rfl | rfl |
    rfl | rfl | rfl | rfl | rfl | rfl | rfl | rfl
  · exact .inl (present_refuses (fun _ _ => reject_refuses) h)
  · exact .inl (present_refuses (checkChoice_refuses _ _) h)
  · exact .inl (present_refuses (checkChoice_refuses _ _) h)
  · exact .inl (present_refuses checkNetworks_refuses h)
  · exact .inl (present_refuses (presentInt_refuses _) h)
  · exact .inl (present_refuses (presentInt_refuses _) h)
  · exact .inl (present_refuses (presentInt_refuses _) h)
  · exact .inl (present_refuses (presentInt_refuses _) h)
  · exact .inl (present_refuses (presentInt_refuses _) h)
  · exact .inl (present_refuses (presentInt_refuses _) h)
  · exact .inl (present_refuses checkCandidates_refuses h)
  · exact .inl (present_refuses (requireBool_refuses _) h)
  · exact .inl (present_refuses (requireBool_refuses _) h)
  · exact .inl (present_refuses (requireBool_refuses _) h)
  · exact .inl (present_refuses (requireBool_refuses _) h)
  · exact number_error (.inl rfl) h
  · exact number_error (.inl rfl) h
  · exact number_error (.inr rfl) h
  · exact number_error (.inr rfl) h
  · exact number_error (.inr rfl) h
  · exact .inl (present_refuses (checkChoice_refuses _ _) h)

/-- A number that is too large raises, and what it raises is no refusal. -/
theorem tooLarge_raises {check : Dict → Except PyError Unit} (h : TooLarge src check) :
    ∃ e, check src = .error e ∧ e.cls ≠ .constraintError := by
  obtain ⟨key, n, hcheck, hsrc, hlarge⟩ := h
  cases hconvert : PyFloat.ofInt n with
  | ok x => exact absurd ⟨x, hconvert⟩ hlarge
  | error e =>
      refine ⟨e, ?_, noRefusal_ofInt n e hconvert⟩
      rcases hcheck with rfl | rfl
      · unfold present requireNonnegNumber
        rw [hsrc]
        simp only [requireFiniteNumber, hconvert, Except.bind]
      · unfold present requireProbability
        rw [hsrc]
        simp only [requireFiniteNumber, hconvert, Except.bind]

/-- The gate raises nothing but refusals, unless it meets a number that is too large. -/
theorem validate_refuses_iff :
    (∀ e, validateExplicitConstraints py (.obj src) = .error e → e.cls = .constraintError) ↔
      ¬ HugeNumber py src := by
  constructor
  · rintro h ⟨before, check, after, hsplit, hbefore, hlarge⟩
    obtain ⟨e, he, hcls⟩ := tooLarge_raises hlarge
    exact hcls (h e (forM_eq_error.mpr ⟨before, check, after, hsplit, hbefore, he⟩))
  · intro h e he
    obtain ⟨before, check, after, hsplit, hbefore, hcheck⟩ := forM_eq_error.mp he
    have hmem : check ∈ explicitChecks py := by
      rw [hsplit]
      exact List.mem_append_right _ List.mem_cons_self
    exact (check_error hmem hcheck).resolve_right fun hlarge =>
      h ⟨before, check, after, hsplit, hbefore, hlarge⟩

theorem not_hugeNumber_of_valid (h : validateExplicitConstraints py (.obj src) = .ok ()) :
    ¬ HugeNumber py src :=
  validate_refuses_iff.mp fun e he => by cases h.symm.trans he

end Gate

/-! ## The three in a row -/

section Statement

variable (py : Interp) (levels : ℕ) (src : Dict)

/-- The texts that the merge and the report compile. -/
def texts : List Json := [constraintText src, .str (attachText src)]

/-- A body on which something other than a refusal is raised: a number is too large for a
float, a text or one of its bounds is not converted, or a network is not written. -/
inductive Untamed : Prop
  | number (h : HugeNumber py src)
  | text (hvalid : validateExplicitConstraints py (.obj src) = .ok ()) (t : Json)
      (ht : t ∈ texts src) (h : UnreadableText py levels t)
  | rails (hvalid : validateExplicitConstraints py (.obj src) = .ok ()) (t : Json)
      (ht : t ∈ texts src) (compiled : Compiled) (hcompiled : compilePolicy py levels t = .ok compiled)
      (h : ¬ WritableRails levels (networksInForce src compiled.interpreted))

end Statement

section Whole

variable {py : Interp} {levels : ℕ} {src : Dict}

/-- Compiling a text and parsing what is in force with it. -/
theorem returns_merge (hvalid : validateExplicitConstraints py (.obj src) = .ok ()) {t : Json} :
    Returns ((compilePolicy py levels t).bind (mergeCompiled py levels src)) ↔
      ¬ UnreadableText py levels t ∧ ∀ compiled, compilePolicy py levels t = .ok compiled →
        WritableRails levels (networksInForce src compiled.interpreted) := by
  rw [← returns_compilePolicy, returns_bind]
  have hparse : ∀ compiled, compilePolicy py levels t = .ok compiled →
      (Returns (mergeCompiled py levels src compiled) ↔
        WritableRails levels (networksInForce src compiled.interpreted)) :=
    fun compiled h => returns_parseConstraints hvalid (.compilePolicy h)
  constructor
  · rintro ⟨compiled, hcompiled, hmerge⟩
    refine ⟨⟨compiled, hcompiled⟩, fun c hc => ?_⟩
    rw [← Except.ok.inj (hcompiled.symm.trans hc)]
    exact (hparse compiled hcompiled).mp hmerge
  · rintro ⟨⟨compiled, hcompiled⟩, hrails⟩
    exact ⟨compiled, hcompiled, (hparse compiled hcompiled).mpr (hrails compiled hcompiled)⟩

theorem returns_attachPolicy {result : Dict} :
    Returns (attachPolicy py levels result (.obj src)) ↔
      Returns ((compilePolicy py levels (.str (attachText src))).bind
        (mergeCompiled py levels src)) := by
  unfold attachPolicy
  rw [returns_bind]
  show Returns ((compilePolicy py levels (.str (attachText src))).bind _) ↔ _
  rw [returns_bind]
  exact exists_congr fun compiled => and_congr_right fun _ => returns_map

theorem noRefusal_merge (t : Json) :
    NoRefusal ((compilePolicy py levels t).bind (mergeCompiled py levels src)) :=
  .bind (noRefusal_compilePolicy t) fun _ => noRefusal_parseConstraints _

theorem noRefusal_attachPolicy (result : Dict) (body : Json) :
    NoRefusal (attachPolicy py levels result body) :=
  .bind (noRefusal_compilePolicy _) fun _ => .bind (noRefusal_parseConstraints _) fun _ => .ok _

/-- An outcome that is no refusal is tame only when nothing is raised. -/
theorem refusals_iff_returns {α : Type} {x : Except PyError α} (h : NoRefusal x) :
    (∀ e, x = .error e → e.cls = .constraintError) ↔ Returns x := by
  cases x with
  | error e => exact iff_of_false (fun hx => h e rfl (hx e rfl)) not_returns_error
  | ok a => exact iff_of_true (fun e he => by cases he) (.ok a)

/-- An accepted body is tame when both of its texts are converted. -/
theorem not_untamed_of_valid (hvalid : validateExplicitConstraints py (.obj src) = .ok ()) :
    ¬ Untamed py levels src ↔ ∀ t ∈ texts src,
      Returns ((compilePolicy py levels t).bind (mergeCompiled py levels src)) := by
  simp only [returns_merge hvalid]
  constructor
  · intro h t ht
    refine ⟨fun hbad => h (.text hvalid t ht hbad), fun compiled hcompiled => ?_⟩
    by_contra hrails
    exact h (.rails hvalid t ht compiled hcompiled hrails)
  · intro h hbad
    cases hbad with
    | number hbad => exact not_hugeNumber_of_valid hvalid hbad
    | text _ t ht hbad => exact (h t ht).1 hbad
    | rails _ t ht compiled hcompiled hbad => exact hbad ((h t ht).2 compiled hcompiled)

/-- **The constraints of a body are refused or read**: nothing but `ConstraintError` is
raised, exactly when the body is not one of the untamed. -/
theorem constrain_refuses_only (result : Dict) (body : Json) :
    (∀ e, constrain py levels result body = .error e → e.cls = .constraintError) ↔
      ¬ Untamed py levels body.dictOrEmpty := by
  have hbody : constrain py levels result body =
      constrain py levels result (.obj body.dictOrEmpty) := rfl
  rw [hbody]
  generalize body.dictOrEmpty = src
  unfold constrain
  cases hvalid : validateExplicitConstraints py (.obj src) with
  | error e =>
      have hrefuses : (∀ e', Except.error e = Except.error (α := Unit) e' →
          e'.cls = .constraintError) ↔ ¬ HugeNumber py src := by
        rw [← hvalid]
        exact validate_refuses_iff
      have honly : ¬ Untamed py levels src ↔ ¬ HugeNumber py src := by
        refine not_congr ⟨fun h => ?_, .number⟩
        cases h with
        | number h => exact h
        | text hok => cases hok.symm.trans hvalid
        | rails hok => cases hok.symm.trans hvalid
      rw [honly, ← hrefuses]
      simp [Except.bind]
  | ok u =>
      show (∀ e, ((mergeConstraints py levels (.obj src)).bind fun _ =>
        attachPolicy py levels result (.obj src)) = .error e → _) ↔ _
      have hmerge : NoRefusal (mergeConstraints py levels (.obj src)) := noRefusal_merge _
      rw [refusals_iff_returns (hmerge.bind fun _ => noRefusal_attachPolicy result _),
        returns_bind_iff fun _ => returns_attachPolicy, not_untamed_of_valid hvalid]
      simp only [texts, List.forall_mem_cons, List.not_mem_nil, false_implies, implies_true,
        and_true]
      rfl

/-- A price of `10 ** 400` dollars is converted to a float before it is compared, which is
an overflow and no refusal. -/
theorem huge_price_overflows :
    ∃ e, constrain .plain 100 [] (.obj [("need", .str "weather"),
        ("max_price_usd", .int (10 ^ 400))]) = .error e ∧ e.cls ≠ .constraintError := by
  have hgate : validateExplicitConstraints .plain (.obj [("need", .str "weather"),
      ("max_price_usd", .int (10 ^ 400))]) =
        .error ⟨.overflowError, "int too large to convert to float"⟩ := by decide +kernel
  refine ⟨⟨.overflowError, "int too large to convert to float"⟩, ?_, by decide⟩
  unfold constrain
  rw [hgate]
  rfl

end Whole

end Policy

end Signal402