import Signal402.Route.Options

/-!
# The figures results are compared by

`Figures` are what the comparisons read of a result.  On probed results that pass, every
comparison of the code is a pure one of figures (`cmp_eq`).

* `Figures.cmp_swap` — swapping the results swaps the answer, whatever is known of them.
* `Figures.cmp_weakOrder` — where prices compare and latencies are known, it is a strict
  weak order.
-/

namespace Signal402.Select

open Payment CmpSort

variable (d : Deps)

/-- Reading the figures of a result raises nothing, and a rate is a number. -/
structure Readable (r : Dict) : Prop where
  latency : ∃ v, latencyMs d r = .ok v
  reliability : ∃ v, reliabilityWindow d r = .ok v ∧ ∀ x, v.2 = some x → x.IsNumber
  settlement : ∃ v, settlementMs d r = .ok v
  cost : ∃ v, totalCost d r = .ok v

/-- The result of a probe, whose figures are numbers. -/
abbrev Probed := {r : Dict // Readable d r}

/-- Probed results, as `route_need` lists them. -/
def rows (results : List (Probed d)) : List Json := results.map fun r => .obj r.1

variable {d} {objective : Objective} {cons : Constraints} {found : List Dict}

/-- The viable results are probed ones that pass. -/
theorem mem_viable {results : List (Probed d)} (h : viable d (rows d results) cons = .ok found)
    {r : Dict} (hr : r ∈ found) :
    Readable d r ∧ Passes d r cons ∧ paytoSelectable r cons = true := by
  obtain ⟨hmem, hviable⟩ := (mem_keepIf h).mp hr
  obtain ⟨x, hx, hobj⟩ := List.mem_filterMap.mp hmem
  obtain ⟨probed, -, rfl⟩ := List.mem_map.mp hx
  cases hobj
  obtain ⟨hpass, hsel⟩ := both_eq_true.mp hviable
  exact ⟨probed.2, passes_iff.mp hpass, Except.ok.inj hsel⟩

/-- A result that passes has complete options within the constraints. -/
theorem passes_options {r : Dict} (h : Passes d r cons) :
    ∃ opts, paymentOptions d r = .ok opts ∧ opts.filter (admits cons) ≠ [] := by
  obtain ⟨opts, hopts, hne⟩ := options_of_payable h.payable
  refine ⟨opts, hopts, ?_⟩
  have hoffers := h.offers
  unfold offersOption at hoffers
  split at hoffers
  · rw [completeOptions_eq hopts] at hoffers
    obtain ⟨kept, hkept, hsome⟩ := map_eq_ok.mp hoffers
    cases hkept
    intro hnil
    rw [hnil] at hsome
    cases hsome
  · rename_i hrails
    split at hoffers
    · unfold optionsForConstraints at hoffers
      rw [hopts] at hoffers
      intro hnil
      have hmap : Except.ok (ε := PyError) (!(opts.filter (admits cons)).isEmpty) = .ok true :=
        hoffers
      rw [hnil] at hmap
      cases hmap
    · rename_i hbounds
      -- without a bound every option is within the constraints
      have hadmits : ∀ o, admits cons o = true := by
        intro o
        have h1 : cons.rails = none := by simpa using hrails
        simp only [not_or, Bool.not_eq_true, Option.isSome_eq_false_iff, Option.isNone_iff_eq_none]
          at hbounds
        simp [admits, onRails, amountWithin, priceWithin, h1, hbounds.1, hbounds.2]
      rw [List.filter_eq_self.mpr fun o _ => hadmits o]
      exact hne

/-- The options of a result that passes, as prices are compared. -/
theorem compared_none {r : Dict} {opts : List PaymentOption}
    (h : paymentOptions d r = .ok opts) : comparedOptions d r .none = .ok opts := by
  have hfilter : opts.filter (admits .none) = opts := List.filter_eq_self.mpr fun _ _ => rfl
  unfold comparedOptions optionsForConstraints
  rw [h]
  dsimp only [Except.map, Except.bind]
  rw [hfilter]
  split <;> rfl

/-- The options a price is read from are known. -/
theorem compared_returns {r : Dict} (h : Passes d r cons) (c : Constraints) :
    ∃ opts, comparedOptions d r c = .ok opts := by
  obtain ⟨opts, hopts, -⟩ := passes_options h
  unfold comparedOptions optionsForConstraints
  rw [hopts]
  dsimp only [Except.map, Except.bind]
  split
  · exact ⟨opts, rfl⟩
  · exact ⟨_, rfl⟩

/-! ## Least floats -/

theorem minFloat_mem {xs : List PyFloat} {m : PyFloat} (h : minFloat xs = some m) : m ∈ xs := by
  cases xs with
  | nil => cases h
  | cons x rest =>
      cases h
      induction rest generalizing x with
      | nil => exact List.mem_cons_self
      | cons y ys ih =>
          have hmem := ih (if y.lt x then y else x)
          rw [List.foldl_cons]
          rcases List.mem_cons.mp hmem with heq | hmem
          · rw [heq]
            split
            · exact List.mem_cons_of_mem x List.mem_cons_self
            · exact List.mem_cons_self
          · exact List.mem_cons_of_mem x (List.mem_cons_of_mem y hmem)

/-- A list of floats that has one has a least one. -/
theorem minFloat_isSome {xs : List PyFloat} (h : xs ≠ []) : ∃ m, minFloat xs = some m := by
  obtain ⟨x, rest, rfl⟩ := List.exists_cons_of_ne_nil h
  exact ⟨_, rfl⟩

/-- Nothing is less than the least number. -/
theorem minFloat_le {xs : List PyFloat} {m : PyFloat} (hnum : ∀ x ∈ xs, x.IsNumber)
    (h : minFloat xs = some m) : ∀ x ∈ xs, x.lt m = false := by
  cases xs with
  | nil => cases h
  | cons x rest =>
      cases h
      induction rest generalizing x with
      | nil =>
          intro y hy
          rw [List.mem_singleton.mp hy, List.foldl_nil, Bool.eq_false_iff, Ne,
            PyFloat.lt_iff_rank (hnum x List.mem_cons_self) (hnum x List.mem_cons_self)]
          exact lt_irrefl _
      | cons y ys ih =>
          rw [List.foldl_cons]
          have hx := hnum x List.mem_cons_self
          have hy := hnum y (List.mem_cons_of_mem x List.mem_cons_self)
          set z := if y.lt x then y else x with hz
          have hznum : z.IsNumber := by
            rw [hz]
            split
            · exact hy
            · exact hx
          have hall : ∀ w ∈ z :: ys, w.IsNumber := by
            intro w hw
            rcases List.mem_cons.mp hw with rfl | hw
            · exact hznum
            · exact hnum w (List.mem_cons_of_mem x (List.mem_cons_of_mem y hw))
          have hle := ih z hall
          have hmnum := hall _ (minFloat_mem (show minFloat (z :: ys) = some _ from rfl))
          have hzm := hle z List.mem_cons_self
          rw [Bool.eq_false_iff, Ne, PyFloat.lt_iff_rank hznum hmnum, not_lt] at hzm
          -- both numbers are at least the smaller one of them
          have hxz : PyFloat.rank z.unpack ≤ PyFloat.rank x.unpack := by
            rw [hz]
            split
            · rename_i hlt
              exact ((PyFloat.lt_iff_rank hy hx).mp hlt).le
            · exact le_rfl
          have hyz : PyFloat.rank z.unpack ≤ PyFloat.rank y.unpack := by
            rw [hz]
            split
            · exact le_rfl
            · rename_i hlt
              rw [PyFloat.lt_iff_rank hy hx, not_lt] at hlt
              exact hlt
          intro w hw
          rcases List.mem_cons.mp hw with rfl | hw
          · rw [Bool.eq_false_iff, Ne, PyFloat.lt_iff_rank hx hmnum, not_lt]
            exact hzm.trans hxz
          · rcases List.mem_cons.mp hw with rfl | hw
            · rw [Bool.eq_false_iff, Ne, PyFloat.lt_iff_rank hy hmnum, not_lt]
              exact hzm.trans hyz
            · exact hle w (List.mem_cons_of_mem z hw)

/-! ## Figures -/

/-- What a result is compared by. -/
structure Figures where
  tier : ℤ
  mature : Option PyFloat
  weak : Option PyFloat
  latency : Option ℤ
  usd : Option PyFloat
  keys : List PyStr
  amount : PyStr → Option ℤ
  cost : Option PyFloat
  settlement : Option ℤ
  deriving Inhabited

namespace Figures

/-- The amounts of the one asset that both take. -/
def cmpShared (f g : Figures) : Ordering :=
  match f.keys.filter g.keys.contains with
  | [key] => cmpBothKnown compare (f.amount key) (g.amount key)
  | _ => .eq

/-- `_cmp_amount_asc` on figures. -/
def cmpAmount (f g : Figures) : Ordering :=
  match f.usd, g.usd with
  | some x, some y => cmpFloat x y
  | _, _ => cmpShared f g

theorem cmpShared_one {f g : Figures} {key : PyStr} (h : f.keys.filter g.keys.contains = [key]) :
    cmpShared f g = cmpBothKnown compare (f.amount key) (g.amount key) := by
  rw [cmpShared, h]

theorem cmpShared_none {f g : Figures} (h : ∀ key, f.keys.filter g.keys.contains ≠ [key]) :
    cmpShared f g = .eq := by
  unfold cmpShared
  split
  · rename_i key hkey
    exact absurd hkey (h key)
  · rfl

/-- The known latencies. -/
def cmpLatency (f g : Figures) : Ordering := cmpBothKnown compare f.latency g.latency

/-- The comparison of an objective on figures. -/
def cmp : Objective → Figures → Figures → Ordering
  | .best, f, g =>
      (compare g.tier f.tier).then ((cmpRateDesc f.mature g.mature).then
        ((cmpLatency f g).then ((cmpAmount f g).then (cmpRateDesc f.weak g.weak))))
  | .cheapest, f, g => (cmpAmount f g).then (cmpLatency f g)
  | .fastest, f, g => (cmpKnownFirst compare f.latency g.latency).then (cmpAmount f g)
  | .mostReliable, f, g =>
      (cmpRateDesc f.mature g.mature).then ((cmpRateDesc f.weak g.weak).then
        ((cmpKnownFirst compare f.latency g.latency).then (cmpAmount f g)))
  | .lowestTotalCost, f, g =>
      match f.cost, g.cost with
      | some x, some y => (cmpFloat x y).then (cmpLatency f g)
      | some _, none => .lt
      | none, some _ => .gt
      | none, none => .eq
  | .fastestSettlement, f, g =>
      match f.settlement, g.settlement with
      | some x, some y => (compare x y).then (cmpAmount f g)
      | some _, none => .lt
      | none, some _ => .gt
      | none, none => .eq

end Figures

/-- The figures of a result that can be read. -/
structure HasFigures (d : Deps) (r : Dict) (f : Figures) : Prop where
  tier : readinessTier d r = .ok f.tier
  mature : matureReliability d r = .ok f.mature
  weak : weakReliability d r = .ok f.weak
  latency : latencyMs d r = .ok f.latency
  usd : bestUsd d r .none = .ok f.usd
  keys : ∃ opts, paymentOptions d r = .ok opts ∧ assetKeys d opts = f.keys
  amount : ∀ key, bestAtomicForAsset d r key .none = .ok (f.amount key)
  cost : totalCost d r = .ok f.cost
  settlement : settlementMs d r = .ok f.settlement
  price : ∀ x, f.usd = some x → x.IsNumber
  matureRate : ∀ x, f.mature = some x → x.IsNumber
  weakRate : ∀ x, f.weak = some x → x.IsNumber

/-- A probed result that passes has figures. -/
theorem figures_of_passes {r : Dict} (h : Readable d r) (hpass : Passes d r cons) :
    ∃ f, HasFigures d r f := by
  obtain ⟨opts, hopts, -⟩ := passes_options hpass
  obtain ⟨window, hwindow, hrate⟩ := h.reliability
  obtain ⟨latency, hlatency⟩ := h.latency
  obtain ⟨settlement, hsettlement⟩ := h.settlement
  obtain ⟨cost, hcost⟩ := h.cost
  have hcompared := compared_none hopts
  have htier : ∃ t, readinessTier d r = .ok t := by
    unfold readinessTier
    split
    · exact ⟨2, rfl⟩
    · rw [hpass.payable]
      exact ⟨_, rfl⟩
  obtain ⟨tier, htier⟩ := htier
  refine ⟨⟨tier, if matureN ≤ window.1 then window.2 else none,
    if weakMinN ≤ window.1 ∧ window.1 < matureN then window.2 else none, latency,
    minFloat (opts.filterMap (·.normalizedUsd)), assetKeys d opts,
    fun key => leastAmount d key opts, cost, settlement⟩,
    htier, ?_, ?_, hlatency, ?_, ⟨opts, hopts, rfl⟩, ?_, hcost, hsettlement, ?_, ?_, ?_⟩
  · rw [matureReliability, hwindow]
    rfl
  · rw [weakReliability, hwindow]
    rfl
  · rw [bestUsd, hcompared]
    rfl
  · intro key
    rw [bestAtomicForAsset, hcompared]
    rfl
  · intro x hx
    obtain ⟨o, ho, hprice⟩ := List.mem_filterMap.mp (minFloat_mem hx)
    exact (options_valid hopts o ho).isNumber x hprice
  · intro x hx
    obtain ⟨-, hx⟩ := Option.ite_none_right_eq_some.mp hx
    exact hrate x hx
  · intro x hx
    obtain ⟨-, hx⟩ := Option.ite_none_right_eq_some.mp hx
    exact hrate x hx

theorem orElse_ok (x y : Ordering) : orElse (.ok x) (.ok y) = .ok (x.then y) := by
  cases x <;> rfl

theorem cmpBy_ok {α : Type} {figure : Dict → Except PyError α} {c : α → α → Ordering}
    {a b : Dict} {x y : α} (ha : figure a = .ok x) (hb : figure b = .ok y) :
    cmpBy figure c a b = .ok (c x y) := by
  rw [cmpBy, ha, hb]
  rfl

theorem cmpAmount_eq {a b : Dict} {f g : Figures} (ha : HasFigures d a f)
    (hb : HasFigures d b g) : cmpAmountAsc d a b = .ok (Figures.cmpAmount f g) := by
  obtain ⟨oa, hoa, hka⟩ := ha.keys
  obtain ⟨ob, hob, hkb⟩ := hb.keys
  unfold cmpAmountAsc Figures.cmpAmount Figures.cmpShared
  rw [ha.usd, hb.usd, hoa, hob]
  dsimp only [Except.bind]
  rw [hka, hkb]
  generalize f.keys.filter g.keys.contains = shared
  have hby : ∀ key, cmpBy (fun r => bestAtomicForAsset d r key .none)
      (cmpBothKnown compare) a b = .ok (cmpBothKnown compare (f.amount key) (g.amount key)) :=
    fun key => cmpBy_ok (ha.amount key) (hb.amount key)
  rcases f.usd with _ | x <;> rcases g.usd with _ | y <;> rcases shared with _ | ⟨k, _ | ⟨l, rest⟩⟩
  all_goals first
    | rfl
    | exact hby k

/-- On results that can be read the code compares figures. -/
theorem cmp_eq {a b : Dict} {f g : Figures} (ha : HasFigures d a f) (hb : HasFigures d b g) :
    cmp d objective a b = .ok (Figures.cmp objective f g) := by
  have hamount := cmpAmount_eq ha hb
  have hlatency : ∀ c, cmpBy (latencyMs d) c a b = .ok (c f.latency g.latency) := fun c =>
    cmpBy_ok ha.latency hb.latency
  have hmature : cmpMatureReliabilityDesc d a b = .ok (cmpRateDesc f.mature g.mature) :=
    cmpBy_ok ha.mature hb.mature
  have hweak : cmpWeakReliabilityDesc d a b = .ok (cmpRateDesc f.weak g.weak) :=
    cmpBy_ok ha.weak hb.weak
  have htier : cmpBy (readinessTier d) (fun x y => compare y x) a b =
      .ok (compare g.tier f.tier) := cmpBy_ok ha.tier hb.tier
  cases objective with
  | best =>
      show cmpBest d a b = _
      unfold cmpBest cmpLatencyAsc
      rw [htier, hmature, hlatency, hamount, hweak]
      simp only [orElse_ok]
      rfl
  | cheapest =>
      show cmpCheapest d a b = _
      unfold cmpCheapest cmpLatencyAsc
      rw [hamount, hlatency, orElse_ok]
      rfl
  | fastest =>
      show cmpFastest d a b = _
      unfold cmpFastest cmpLatencyAsc
      rw [hamount, hlatency, orElse_ok]
      rfl
  | mostReliable =>
      show cmpMostReliable d a b = _
      unfold cmpMostReliable cmpLatencyAsc
      rw [hmature, hweak, hlatency, hamount]
      simp only [orElse_ok]
      rfl
  | lowestTotalCost =>
      show cmpLowestTotalCost d a b = _
      unfold cmpLowestTotalCost cmpLatencyAsc
      rw [ha.cost, hb.cost, hlatency]
      dsimp only [Figures.cmp]
      cases f.cost with
      | none => cases g.cost <;> rfl
      | some x =>
          cases g.cost with
          | none => rfl
          | some y => exact orElse_ok _ _
  | fastestSettlement =>
      show cmpFastestSettlement d a b = _
      unfold cmpFastestSettlement
      rw [ha.settlement, hb.settlement, hamount]
      dsimp only [Figures.cmp]
      cases f.settlement with
      | none => cases g.settlement <;> rfl
      | some x =>
          cases g.settlement with
          | none => rfl
          | some y => exact orElse_ok _ _

/-! ## Weak orders -/

/-- Numbers compare as their ranks. -/
theorem cmpFloat_eq_compare {x y : PyFloat} (hx : x.IsNumber) (hy : y.IsNumber) :
    cmpFloat x y = compare (PyFloat.rank x.unpack) (PyFloat.rank y.unpack) := by
  have hxy := PyFloat.lt_iff_rank hx hy
  have hyx := PyFloat.lt_iff_rank hy hx
  unfold cmpFloat
  rcases lt_trichotomy (PyFloat.rank x.unpack) (PyFloat.rank y.unpack) with h | h | h
  · rw [if_pos (hxy.mpr h), compare_lt_iff_lt.mpr h]
  · rw [if_neg (hxy.not.mpr h.not_lt), if_neg (hyx.not.mpr h.not_gt), compare_eq_iff_eq.mpr h]
  · rw [if_neg (hxy.not.mpr h.not_gt), if_pos (hyx.mpr h), compare_gt_iff_gt.mpr h]

theorem cmpFloat_weakOrder {xs : List PyFloat} (h : ∀ x ∈ xs, x.IsNumber) :
    WeakOrder cmpFloat xs :=
  ((WeakOrder.ofLinear _).comap fun x => PyFloat.rank x.unpack).congr fun a ha b hb =>
    cmpFloat_eq_compare (h a ha) (h b hb)

/-- Known figures in a weak order, and unknown ones after them. -/
theorem cmpKnownFirst_weakOrder {α : Type} {c : α → α → Ordering} {xs : List (Option α)}
    (h : WeakOrder c (xs.filterMap id)) : WeakOrder (cmpKnownFirst c) xs where
  swap a ha b hb := by
    rcases a with _ | x <;> rcases b with _ | y
    · rfl
    · rfl
    · rfl
    · exact h.swap x (List.mem_filterMap.mpr ⟨_, ha, rfl⟩) y (List.mem_filterMap.mpr ⟨_, hb, rfl⟩)
  trans a ha b hb e he hab hbe := by
    rcases a with _ | x <;> rcases b with _ | y <;> rcases e with _ | z
    case some.some.some =>
      exact h.trans x (List.mem_filterMap.mpr ⟨_, ha, rfl⟩) y (List.mem_filterMap.mpr ⟨_, hb, rfl⟩)
        z (List.mem_filterMap.mpr ⟨_, he, rfl⟩) hab hbe
    all_goals simp_all [cmpKnownFirst]

/-- Figures that are all known, or all unknown, compare in a weak order. -/
theorem cmpBothKnown_weakOrder {α : Type} {c : α → α → Ordering} {xs : List (Option α)}
    (h : WeakOrder c (xs.filterMap id)) (hall : (∀ x ∈ xs, x ≠ none) ∨ ∀ x ∈ xs, x = none) :
    WeakOrder (cmpBothKnown c) xs := by
  rcases hall with hall | hall
  · refine (cmpKnownFirst_weakOrder h).congr fun a ha b hb => ?_
    obtain ⟨x, rfl⟩ := Option.ne_none_iff_exists'.mp (hall a ha)
    obtain ⟨y, rfl⟩ := Option.ne_none_iff_exists'.mp (hall b hb)
    rfl
  · refine (WeakOrder.trivial xs).congr fun a ha b hb => ?_
    rw [hall a ha]
    rfl

namespace Figures

/-- Figures that are numbers, the assets listed once each. -/
structure Sound (f : Figures) : Prop where
  price : ∀ x, f.usd = some x → x.IsNumber
  mature : ∀ x, f.mature = some x → x.IsNumber
  weak : ∀ x, f.weak = some x → x.IsNumber
  cost : f.cost = none
  keys : f.keys.Nodup
  amount : ∀ key ∈ f.keys, f.amount key ≠ none

/-- Prices of figures compare in one measure, or tell nothing apart. -/
def PricesCompare (fs : List Figures) : Prop :=
  (∀ f ∈ fs, f.usd ≠ none) ∨ (∃ key, ∀ f ∈ fs, f.usd = none ∧ f.keys = [key]) ∨
    ∀ f ∈ fs, ∀ g ∈ fs, cmpAmount f g = .eq

/-- Figures an objective orders. -/
def Comparable (objective : Objective) (fs : List Figures) : Prop :=
  match objective with
  | .best | .cheapest =>
      PricesCompare fs ∧ ((∀ f ∈ fs, f.latency ≠ none) ∨ ∀ f ∈ fs, f.latency = none)
  | .fastest | .mostReliable => PricesCompare fs
  | .fastestSettlement => PricesCompare fs ∧ ∀ f ∈ fs, f.settlement ≠ none
  | .lowestTotalCost => True

variable {fs : List Figures}

theorem rate_weakOrder {figure : Figures → Option PyFloat}
    (h : ∀ f ∈ fs, ∀ x, figure f = some x → x.IsNumber) :
    WeakOrder (fun f g => cmpRateDesc (figure f) (figure g)) fs := by
  refine (cmpKnownFirst_weakOrder (cmpFloat_weakOrder fun x hx => ?_).flip).comap figure
  obtain ⟨v, hv, hvx⟩ := List.mem_filterMap.mp hx
  obtain ⟨f, hf, rfl⟩ := List.mem_map.mp hv
  exact h f hf x hvx

/-- Two figures share one asset, whichever comes first. -/
theorem shared_comm {f g : Figures} (hf : f.keys.Nodup) (hg : g.keys.Nodup) {key : PyStr}
    (h : f.keys.filter g.keys.contains = [key]) : g.keys.filter f.keys.contains = [key] := by
  rw [← List.perm_singleton, ← h, List.perm_ext_iff_of_nodup (hg.filter _) (hf.filter _)]
  intro k
  simp [and_comm]

theorem compare_swap (m n : ℤ) : compare n m = (compare m n).swap := Std.OrientedCmp.eq_swap

theorem cmpBothKnown_swap {x y : Option ℤ} :
    cmpBothKnown compare y x = (cmpBothKnown compare x y).swap := by
  rcases x with _ | m <;> rcases y with _ | n
  · rfl
  · rfl
  · rfl
  · exact compare_swap m n

theorem cmpAmount_swap {f g : Figures} (hf : f.Sound) (hg : g.Sound) :
    cmpAmount g f = (cmpAmount f g).swap := by
  have hshared : cmpShared g f = (cmpShared f g).swap := by
    by_cases h : ∃ key, f.keys.filter g.keys.contains = [key]
    · obtain ⟨key, hkey⟩ := h
      rw [cmpShared_one hkey, cmpShared_one (shared_comm hf.keys hg.keys hkey)]
      exact cmpBothKnown_swap
    · have hback : ∀ key, g.keys.filter f.keys.contains ≠ [key] := fun key hkey =>
        h ⟨key, shared_comm hg.keys hf.keys hkey⟩
      rw [cmpShared_none hback, cmpShared_none fun key hkey => h ⟨key, hkey⟩]
      rfl
  unfold cmpAmount
  cases hx : f.usd with
  | none => cases g.usd <;> exact hshared
  | some x =>
      cases hy : g.usd with
      | none => exact hshared
      | some y =>
          dsimp only
          rw [cmpFloat_eq_compare (hg.price y hy) (hf.price x hx),
            cmpFloat_eq_compare (hf.price x hx) (hg.price y hy)]
          exact Std.OrientedCmp.eq_swap

/-- Swapping results swaps the answer, whatever is known of them. -/
theorem cmp_swap {f g : Figures} (hf : f.Sound) (hg : g.Sound) {objective : Objective} :
    cmp objective g f = (cmp objective f g).swap := by
  have hpair : ∀ h ∈ [f, g], h.Sound := by
    intro h hmem
    rcases List.mem_pair.mp hmem with rfl | rfl
    · exact hf
    · exact hg
  have hmemf : f ∈ [f, g] := List.mem_cons_self
  have hmemg : g ∈ [f, g] := List.mem_cons_of_mem f List.mem_cons_self
  have hmature := (rate_weakOrder fun h hh => (hpair h hh).mature).swap f hmemf g hmemg
  have hweak := (rate_weakOrder fun h hh => (hpair h hh).weak).swap f hmemf g hmemg
  have hfirst : cmpKnownFirst compare g.latency f.latency =
      (cmpKnownFirst compare f.latency g.latency).swap :=
    (cmpKnownFirst_weakOrder (WeakOrder.ofLinear _)).swap _ (List.mem_cons_self (l := [g.latency]))
      _ (List.mem_cons_of_mem _ List.mem_cons_self)
  have hamount := cmpAmount_swap hf hg
  cases objective with
  | best =>
      dsimp only [cmp]
      rw [Ordering.swap_then, Ordering.swap_then, Ordering.swap_then, Ordering.swap_then, hmature,
        hweak, hamount, cmpLatency, cmpLatency, cmpBothKnown_swap, compare_swap g.tier f.tier]
  | cheapest =>
      dsimp only [cmp]
      rw [Ordering.swap_then, hamount, cmpLatency, cmpLatency, cmpBothKnown_swap]
  | fastest =>
      dsimp only [cmp]
      rw [Ordering.swap_then, hamount, hfirst]
  | mostReliable =>
      dsimp only [cmp]
      rw [Ordering.swap_then, Ordering.swap_then, Ordering.swap_then, hmature, hweak, hfirst,
        hamount]
  | lowestTotalCost =>
      dsimp only [cmp]
      rw [hf.cost, hg.cost]
      rfl
  | fastestSettlement =>
      dsimp only [cmp]
      cases f.settlement with
      | none => cases g.settlement <;> rfl
      | some x =>
          cases g.settlement with
          | none => rfl
          | some y =>
              dsimp only
              rw [Ordering.swap_then, hamount, compare_swap x y]

theorem cmpAmount_weakOrder (hsound : ∀ f ∈ fs, f.Sound) (h : PricesCompare fs) :
    WeakOrder cmpAmount fs := by
  rcases h with husd | ⟨key, hkey⟩ | heq
  · -- dollars: every comparison is one of prices
    have hprice : WeakOrder (cmpBothKnown cmpFloat) (fs.map usd) := by
      refine cmpBothKnown_weakOrder (cmpFloat_weakOrder fun x hx => ?_) (.inl fun x hx => ?_)
      · obtain ⟨v, hv, hvx⟩ := List.mem_filterMap.mp hx
        obtain ⟨f, hf, rfl⟩ := List.mem_map.mp hv
        exact (hsound f hf).price x hvx
      · obtain ⟨f, hf, rfl⟩ := List.mem_map.mp hx
        exact husd f hf
    refine (hprice.comap usd).congr fun f hf g hg => ?_
    obtain ⟨x, hx⟩ := Option.ne_none_iff_exists'.mp (husd f hf)
    obtain ⟨y, hy⟩ := Option.ne_none_iff_exists'.mp (husd g hg)
    unfold cmpAmount
    rw [hx, hy]
    rfl
  · -- one asset: every comparison is one of its amounts
    have hamount : WeakOrder (cmpBothKnown compare) (fs.map fun f => f.amount key) := by
      refine cmpBothKnown_weakOrder (WeakOrder.ofLinear _) (.inl fun x hx => ?_)
      obtain ⟨f, hf, rfl⟩ := List.mem_map.mp hx
      refine (hsound f hf).amount key ?_
      rw [(hkey f hf).2]
      exact List.mem_singleton_self key
    refine (hamount.comap fun f => f.amount key).congr fun f hf g hg => ?_
    have hshared : f.keys.filter g.keys.contains = [key] := by
      rw [(hkey f hf).2, (hkey g hg).2]
      simp
    rw [← cmpShared_one hshared, cmpAmount, (hkey f hf).1]
  · exact (WeakOrder.trivial fs).congr heq

/-- Comparable figures are in a weak order. -/
theorem cmp_weakOrder (hsound : ∀ f ∈ fs, f.Sound) {objective : Objective}
    (h : Comparable objective fs) : WeakOrder (cmp objective) fs := by
  have hmature := rate_weakOrder fun f hf => (hsound f hf).mature
  have hweak := rate_weakOrder fun f hf => (hsound f hf).weak
  have hfirst : WeakOrder (fun f g => cmpKnownFirst compare f.latency g.latency) fs :=
    (cmpKnownFirst_weakOrder (WeakOrder.ofLinear _)).comap latency
  have hboth : ((∀ f ∈ fs, f.latency ≠ none) ∨ ∀ f ∈ fs, f.latency = none) →
      WeakOrder cmpLatency fs := by
    intro hlatency
    refine (cmpBothKnown_weakOrder (WeakOrder.ofLinear _) ?_).comap latency
    simpa using hlatency
  cases objective with
  | best =>
      obtain ⟨hprices, hlatency⟩ := h
      have htier : WeakOrder (fun f g => compare g.tier f.tier) fs :=
        (WeakOrder.ofLinear _).flip.comap tier
      exact htier.lex (hmature.lex ((hboth hlatency).lex
        ((cmpAmount_weakOrder hsound hprices).lex hweak)))
  | cheapest => exact (cmpAmount_weakOrder hsound h.1).lex (hboth h.2)
  | fastest => exact hfirst.lex (cmpAmount_weakOrder hsound h)
  | mostReliable =>
      exact hmature.lex (hweak.lex (hfirst.lex (cmpAmount_weakOrder hsound h)))
  | lowestTotalCost =>
      refine (WeakOrder.trivial fs).congr fun f hf g hg => ?_
      dsimp only [cmp]
      rw [(hsound f hf).cost, (hsound g hg).cost]
  | fastestSettlement =>
      have hsettlement : WeakOrder (fun f g => cmpKnownFirst compare f.settlement g.settlement)
          fs := (cmpKnownFirst_weakOrder (WeakOrder.ofLinear _)).comap settlement
      refine (hsettlement.lex (cmpAmount_weakOrder hsound h.1)).congr fun f hf g hg => ?_
      obtain ⟨x, hx⟩ := Option.ne_none_iff_exists'.mp (h.2 f hf)
      obtain ⟨y, hy⟩ := Option.ne_none_iff_exists'.mp (h.2 g hg)
      dsimp only [cmp]
      rw [hx, hy]
      rfl

end Figures

/-- The figures of a result are sound. -/
theorem HasFigures.sound {r : Dict} {f : Figures} (h : HasFigures d r f) : f.Sound := by
  obtain ⟨opts, hopts, hkeys⟩ := h.keys
  refine ⟨h.price, h.matureRate, h.weakRate, totalCostUsd_eq_none _ _ h.cost, ?_, ?_⟩
  · rw [← hkeys]
    exact List.nodup_dedup _
  · intro key hkey hnone
    -- an option of the asset has an amount, so the least amount is known
    rw [← hkeys, assetKeys, List.mem_dedup] at hkey
    obtain ⟨o, ho, hasset⟩ := List.mem_filterMap.mp hkey
    have hleast := h.amount key
    rw [hnone, bestAtomicForAsset, compared_none hopts] at hleast
    have hleast : leastAmount d key opts = none := Except.ok.inj hleast
    obtain ⟨_, _, n, _, _, _, _, _, hn, _⟩ := complete_fields (options_valid hopts o ho).complete
    have hmem : n ∈ (opts.filter fun o =>
        assetIdentity d.py o.rail o.network o.asset == some key).filterMap (·.amountAtomic) :=
      List.mem_filterMap.mpr ⟨o, List.mem_filter.mpr ⟨ho, by simp [hasset]⟩, hn⟩
    unfold leastAmount at hleast
    cases hxs : (opts.filter fun o =>
        assetIdentity d.py o.rail o.network o.asset == some key).filterMap (·.amountAtomic) with
    | nil =>
        rw [hxs] at hmem
        exact List.not_mem_nil hmem
    | cons m ms =>
        rw [hxs] at hleast
        cases hleast

end Signal402.Select
