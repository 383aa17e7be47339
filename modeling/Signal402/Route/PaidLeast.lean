import Signal402.Route.PickWinner

/-!
# Whether the winner's option is the least one

Results are compared by figures over all their options, or over the first of them; the
option that is paid is the least of those within the constraints.

* `paid_least` — the option paid is the least one when every result that is least in the
  comparison is least within the constraints, and when one result alone is least in the
  comparison, only then.
* `locked_option_dearer` — a lock to a network whose options are not the cheap ones.
-/

namespace Signal402.Select

open Payment CmpSort

variable {d : Deps} {cons : Constraints} {found : List Dict}

section Statement

variable (d : Deps) (cons : Constraints) (found : List Dict)

/-- No admitted option of a viable result is cheaper than the one paid. -/
def PaysCheapest (w : Dict) : Prop :=
  ∀ p, pickSelectedPayment d w .cheapest cons = .ok (some p) →
    ∀ x, p.normalizedUsd = some x →
      ∀ s ∈ found, ∀ opts, completeOptionsForConstraints d s cons = .ok opts →
        ∀ o ∈ opts, ∀ y, o.normalizedUsd = some y → y.lt x = false

/-- No admitted option of a viable result settles before the one paid. -/
def PaysFastest (w : Dict) : Prop :=
  ∀ p, pickSelectedPayment d w .fastestSettlement cons = .ok (some p) →
    ∀ t, economicsOf d Economics.settlementOrFinalityMs w p = .ok (some t) →
      ∀ s ∈ found, ∀ opts, completeOptionsForConstraints d s cons = .ok opts →
        ∀ o ∈ opts, ∀ u, economicsOf d Economics.settlementOrFinalityMs s o = .ok (some u) →
          t ≤ u

/-- A viable result with an admitted price, and none of those has a lower price over all
its options. -/
structure ListedLeast (r : Dict) : Prop where
  mem : r ∈ found
  admitted : ∃ c, bestUsd d r cons = .ok (some c)
  least : ∀ s ∈ found, (∃ e, bestUsd d s cons = .ok (some e)) →
    ∀ u v, bestUsd d r .none = .ok (some u) → bestUsd d s .none = .ok (some v) → v.lt u = false

/-- No viable result has a lower admitted price. -/
def AdmittedLeast (r : Dict) : Prop :=
  ∀ s ∈ found, ∀ c e, bestUsd d r cons = .ok (some c) → bestUsd d s cons = .ok (some e) →
    e.lt c = false

/-- A time at which an admitted option settles, one with a price if there is one. -/
def SettlesIn (r : Dict) (t : ℤ) : Prop :=
  ∃ opts, completeOptionsForConstraints d r cons = .ok opts ∧
    ∃ o ∈ opts, (o.normalizedUsd.isSome ∨ ∀ p ∈ opts, p.normalizedUsd = none) ∧
      economicsOf d Economics.settlementOrFinalityMs r o = .ok (some t)

/-- A viable result with a known time and an admitted option that settles, and none of
those has an earlier time. -/
structure TimedLeast (r : Dict) : Prop where
  mem : r ∈ found
  settles : ∃ t, SettlesIn d cons r t
  timed : ∃ f, settlementMs d r = .ok (some f)
  least : ∀ s ∈ found, (∃ t, SettlesIn d cons s t) →
    ∀ f g, settlementMs d r = .ok (some f) → settlementMs d s = .ok (some g) → f ≤ g

/-- No admitted option of a viable result settles before the first time of the result. -/
def SettlesLeast (r : Dict) : Prop :=
  ∀ t, SettlesIn d cons r t → (∀ t', SettlesIn d cons r t' → t ≤ t') →
    ∀ s ∈ found, ∀ opts, completeOptionsForConstraints d s cons = .ok opts →
      ∀ o ∈ opts, ∀ u, economicsOf d Economics.settlementOrFinalityMs s o = .ok (some u) → t ≤ u

end Statement

/-! ## Prices -/

/-- The least price of the admitted options of a result that passes. -/
theorem bestUsd_admitted {r : Dict} (h : Passes d r cons) :
    ∃ opts, paymentOptions d r = .ok opts ∧
      completeOptionsForConstraints d r cons = .ok (opts.filter (admits cons)) ∧
      bestUsd d r cons =
        .ok (minFloat ((opts.filter (admits cons)).filterMap (·.normalizedUsd))) := by
  obtain ⟨opts, hopts, hne⟩ := passes_options h
  refine ⟨opts, hopts, completeOptions_eq hopts, ?_⟩
  unfold bestUsd comparedOptions optionsForConstraints
  rw [hopts]
  dsimp only [Except.map, Except.bind]
  rw [if_neg (by simp [hne])]

/-- The admitted prices of a valid result are numbers. -/
theorem admitted_isNumber (cons : Constraints) {r : Dict} {opts : List PaymentOption}
    (hopts : paymentOptions d r = .ok opts) :
    ∀ x ∈ (opts.filter (admits cons)).filterMap (·.normalizedUsd), x.IsNumber := by
  intro x hx
  obtain ⟨o, ho, hprice⟩ := List.mem_filterMap.mp hx
  exact (options_valid hopts o (List.mem_filter.mp ho).1).isNumber x hprice

/-- A priced result compares by dollars exactly when an admitted option has a price. -/
theorem priced_usd_iff {r : Dict} (h : Passes d r cons) :
    (∃ p, pricedResult d cons r = .ok (some p) ∧ p.key? = none) ↔
      ∃ c, bestUsd d r cons = .ok (some c) := by
  obtain ⟨opts, hopts, -, hbest⟩ := bestUsd_admitted h
  obtain ⟨compared, hcompared⟩ := compared_returns h cons
  unfold pricedResult
  unfold bestUsd at hbest ⊢
  rw [hcompared] at hbest ⊢
  constructor
  · rintro ⟨p, hp, hkey⟩
    have hp : pricedOptions d compared = some p := Except.ok.inj hp
    unfold pricedOptions at hp
    split at hp
    · rename_i price hprice
      exact ⟨price, congrArg Except.ok hprice⟩
    · split at hp
      · obtain ⟨n, -, rfl⟩ := Option.map_eq_some_iff.mp hp
        cases hkey
      · cases hp
  · rintro ⟨c, hc⟩
    have hc : minFloat (compared.filterMap (·.normalizedUsd)) = some c := Except.ok.inj hc
    refine ⟨.usd c, ?_, rfl⟩
    show Except.ok (pricedOptions d compared) = _
    rw [pricedOptions, hc]

/-- A number is no less than another when its rank is not. -/
theorem lt_eq_false_iff {x y : PyFloat} (hx : x.IsNumber) (hy : y.IsNumber) :
    x.lt y = false ↔ PyFloat.rank y.unpack ≤ PyFloat.rank x.unpack := by
  rw [Bool.eq_false_iff, Ne, PyFloat.lt_iff_rank hx hy, not_lt]

/-- The price of the picked option is the least admitted one. -/
theorem picked_price_le {r : Dict} {opts : List PaymentOption} {p : PaymentOption} {x : PyFloat}
    (hopts : paymentOptions d r = .ok opts) (hlive : (r.get "live").truthy = true)
    (hpick : pickSelectedPayment d r .cheapest cons = .ok (some p))
    (hprice : p.normalizedUsd = some x) :
    ∀ y ∈ (opts.filter (admits cons)).filterMap (·.normalizedUsd), y.lt x = false := by
  intro y hy
  have hnum := admitted_isNumber cons hopts
  obtain ⟨o, ho, hoy⟩ := List.mem_filterMap.mp hy
  have hhead : (inOrder d .cheapest (opts.filter (admits cons))).head? = some p := by
    have hpicked := hpick
    unfold pickSelectedPayment at hpicked
    rw [if_pos hlive, completeOptions_eq hopts] at hpicked
    exact Except.ok.inj hpicked
  set kept := opts.filter (admits cons)
  have hne : kept.filter (·.normalizedUsd.isSome) ≠ [] :=
    List.ne_nil_of_mem (List.mem_filter.mpr ⟨ho, by rw [hoy]; rfl⟩)
  unfold inOrder at hhead
  dsimp only at hhead
  rw [if_pos (by simpa using hne)] at hhead
  -- every option sorted here has a price
  have hkey : ∀ a ∈ kept.filter (·.normalizedUsd.isSome),
      ∃ v, a.normalizedUsd = some v ∧ v.IsNumber := by
    intro a ha
    obtain ⟨hmem, hsome⟩ := List.mem_filter.mp ha
    obtain ⟨v, hv⟩ := Option.isSome_iff_exists.mp hsome
    exact ⟨v, hv, hnum v (List.mem_filterMap.mpr ⟨a, hmem, hv⟩)⟩
  have hle := key_head_le
    (fun o : PaymentOption => PyFloat.rank (o.normalizedUsd.getD PyFloat.zero).unpack)
    (fun a ha b hb => by
      obtain ⟨v, hv, hvnum⟩ := hkey a ha
      obtain ⟨w, hw, hwnum⟩ := hkey b hb
      rw [hv, hw, Option.getD_some, Option.getD_some, ← lt_eq_false_iff hwnum hvnum]
      simp) hhead o (List.mem_filter.mpr ⟨ho, by rw [hoy]; rfl⟩)
  rw [hoy, hprice, Option.getD_some, Option.getD_some] at hle
  obtain ⟨opts', hopts', hp, hadmits, -⟩ := pick_mem hpick
  rw [hopts] at hopts'
  cases hopts'
  have hx := hnum x (List.mem_filterMap.mpr ⟨p, List.mem_filter.mpr ⟨hp, hadmits⟩, hprice⟩)
  exact (lt_eq_false_iff (hnum y hy) hx).mpr hle

/-- Where an admitted option has a price, the picked one has. -/
theorem picked_price {r : Dict} (h : Passes d r cons)
    (hadmitted : ∃ c, bestUsd d r cons = .ok (some c)) :
    ∃ p x, pickSelectedPayment d r .cheapest cons = .ok (some p) ∧ p.normalizedUsd = some x := by
  obtain ⟨opts, hopts, hcomplete, hbest⟩ := bestUsd_admitted h
  obtain ⟨c, hc⟩ := hadmitted
  obtain ⟨p, hpick⟩ : ∃ p, pickSelectedPayment d r .cheapest cons = .ok (some p) :=
    pick_isSome h (by simp)
  obtain ⟨o, ho, hprice⟩ := List.mem_filterMap.mp (minFloat_mem (Except.ok.inj (hbest ▸ hc)))
  obtain ⟨opts', hopts', -, -, hmem⟩ := pick_mem hpick
  rw [hopts] at hopts'
  cases hopts'
  unfold inOrder at hmem
  dsimp only at hmem
  have hne : (opts.filter (admits cons)).filter (·.normalizedUsd.isSome) ≠ [] :=
    List.ne_nil_of_mem (List.mem_filter.mpr ⟨ho, by rw [hprice]; rfl⟩)
  rw [if_pos (by simpa using hne)] at hmem
  obtain ⟨-, hsome⟩ := List.mem_filter.mp ((List.mem_insertionSort _).mp hmem)
  obtain ⟨x, hx⟩ := Option.isSome_iff_exists.mp hsome
  exact ⟨p, x, hpick, hx⟩

/-- A result with an admitted price pays the cheapest option when its admitted price is
the least. -/
theorem paysCheapest_iff {w : Dict} (hpass : ∀ r ∈ found, Passes d r cons) (hw : w ∈ found)
    (hadmitted : ∃ c, bestUsd d w cons = .ok (some c)) :
    PaysCheapest d cons found w ↔ AdmittedLeast d cons found w := by
  obtain ⟨p, x, hpick, hx⟩ := picked_price (hpass w hw) hadmitted
  obtain ⟨opts, hopts, -, hbest⟩ := bestUsd_admitted (hpass w hw)
  obtain ⟨c, hc⟩ := hadmitted
  have hnum := admitted_isNumber cons hopts
  have hleast : minFloat ((opts.filter (admits cons)).filterMap (·.normalizedUsd)) = some c :=
    Except.ok.inj (hbest ▸ hc)
  have hcmem := minFloat_mem hleast
  have hxmem : x ∈ (opts.filter (admits cons)).filterMap (·.normalizedUsd) := by
    obtain ⟨opts', hopts', hp, hadmits, -⟩ := pick_mem hpick
    rw [hopts] at hopts'
    cases hopts'
    exact List.mem_filterMap.mpr ⟨p, List.mem_filter.mpr ⟨hp, hadmits⟩, hx⟩
  -- the price paid and the least admitted price are the same
  have hxc : PyFloat.rank x.unpack = PyFloat.rank c.unpack :=
    le_antisymm
      ((lt_eq_false_iff (hnum c hcmem) (hnum x hxmem)).mp
        (picked_price_le hopts (hpass w hw).live hpick hx c hcmem))
      ((lt_eq_false_iff (hnum x hxmem) (hnum c hcmem)).mp (minFloat_le hnum hleast x hxmem))
  constructor
  · intro h s hs c' e hc' he
    rw [hc] at hc'
    cases hc'
    obtain ⟨sopts, hsopts, hcomplete, hsbest⟩ := bestUsd_admitted (hpass s hs)
    have hsnum := admitted_isNumber cons hsopts
    have hemem := minFloat_mem (Except.ok.inj (hsbest ▸ he))
    obtain ⟨o, ho, hoe⟩ := List.mem_filterMap.mp hemem
    have hle := h p hpick x hx s hs _ hcomplete o ho e hoe
    rw [lt_eq_false_iff (hsnum e hemem) (hnum x hxmem), hxc] at hle
    exact (lt_eq_false_iff (hsnum e hemem) (hnum c hcmem)).mpr hle
  · intro h p' hpick' x' hx' s hs sopts hcomplete o ho y hy
    rw [hpick] at hpick'
    cases hpick'
    rw [hx] at hx'
    cases hx'
    obtain ⟨opts', hopts', hcomplete', hsbest⟩ := bestUsd_admitted (hpass s hs)
    rw [hcomplete] at hcomplete'
    cases hcomplete'
    have hsnum := admitted_isNumber cons hopts'
    have hymem := List.mem_filterMap.mpr ⟨o, ho, hy⟩
    obtain ⟨e, he⟩ := minFloat_isSome (List.ne_nil_of_mem hymem)
    have hemem := minFloat_mem he
    have hec := h s hs c e hc (hsbest.trans (congrArg Except.ok he))
    have hye := minFloat_le hsnum he y hymem
    rw [lt_eq_false_iff (hsnum e hemem) (hnum c hcmem)] at hec
    rw [lt_eq_false_iff (hsnum y hymem) (hsnum e hemem)] at hye
    rw [lt_eq_false_iff (hsnum y hymem) (hnum x hxmem), hxc]
    exact hec.trans hye

/-! ## Times -/

/-- The time of the picked option is the first at which the result settles. -/
theorem picked_time {r : Dict} {p : PaymentOption} (h : Passes d r cons)
    (hpick : pickSelectedPayment d r .fastestSettlement cons = .ok (some p)) :
    ∃ t, economicsOf d Economics.settlementOrFinalityMs r p = .ok (some t) ∧
      SettlesIn d cons r t ∧ ∀ t', SettlesIn d cons r t' → t ≤ t' := by
  obtain ⟨opts, timed, hopts, hmem, heq⟩ := pick_settlement_eq h
  rw [hpick] at heq
  obtain ⟨x, hx, hxp⟩ := Option.map_eq_some_iff.mp (Except.ok.inj heq).symm
  subst hxp
  have hcomplete : completeOptionsForConstraints d r cons = .ok (opts.filter (admits cons)) :=
    completeOptions_eq hopts
  obtain ⟨⟨hkept, husd⟩, htime⟩ := (hmem x).mp ((List.mem_insertionSort _).mp (List.mem_of_head? hx))
  refine ⟨x.1, htime, ⟨_, hcomplete, x.2, hkept, husd, htime⟩, ?_⟩
  rintro t' ⟨opts', hopts', o, ho, hprice, hsettles⟩
  rw [hcomplete] at hopts'
  cases hopts'
  exact key_head_le (fun y : ℤ × PaymentOption => y.1) (fun _ _ _ _ => Iff.rfl) hx (t', o)
    ((hmem (t', o)).mpr ⟨⟨ho, hprice⟩, hsettles⟩)

/-- A result that settles has an option picked. -/
theorem pick_of_settles {r : Dict} (h : Passes d r cons) (hsettles : ∃ t, SettlesIn d cons r t) :
    ∃ p, pickSelectedPayment d r .fastestSettlement cons = .ok (some p) := by
  obtain ⟨t, opts, hopts, o, ho, husd, htime⟩ := hsettles
  obtain ⟨all, hall, -⟩ := passes_options h
  refine (pick_settlement_isSome h).mpr ⟨opts, hopts, o, ho, husd, ?_⟩
  rw [completeOptions_eq hall] at hopts
  cases hopts
  rw [settlementOf_option hall (List.mem_filter.mp ho).1] at htime
  rw [Except.ok.inj htime]
  rfl

/-- A result that settles pays the first option when its first time is the least. -/
theorem paysFastest_iff {w : Dict} (hpass : Passes d w cons)
    (hsettles : ∃ t, SettlesIn d cons w t) :
    PaysFastest d cons found w ↔ SettlesLeast d cons found w := by
  obtain ⟨p, hpick⟩ := pick_of_settles hpass hsettles
  obtain ⟨t, htime, hin, hleast⟩ := picked_time hpass hpick
  constructor
  · intro h t' hin' hleast'
    have heq : t' = t := le_antisymm (hleast' t hin) (hleast t' hin')
    subst heq
    exact h p hpick t' htime
  · intro h p' hpick' t' htime'
    rw [hpick] at hpick'
    cases hpick'
    rw [htime] at htime'
    cases htime'
    exact h t hin hleast

/-! ## The winner -/

variable {objective : Objective} {sorter : Sorter Dict PyError} {results : List (Probed d)}
  {elig : List Dict}

/-- A winner is chosen among eligible results. -/
theorem eligible_of_winner (hfound : viable d (rows d results) cons = .ok found) {w : Dict}
    (h : pickWinner d sorter (rows d results) objective cons = .ok (some w)) :
    ∃ elig order, eligible d objective cons found = .ok elig ∧ w ∈ elig ∧
      sorter.sorted (cmp d objective) elig = .ok order ∧
      firstPayable d objective cons order = .ok (some w) := by
  obtain ⟨order, hranked, hfirst⟩ := bind_eq_ok.mp h
  obtain ⟨found', hfound', hranked⟩ := bind_eq_ok.mp hranked
  rw [hfound] at hfound'
  cases hfound'
  obtain ⟨elig, helig, hsorted⟩ := bind_eq_ok.mp hranked
  exact ⟨elig, order, helig, (sorter.perm hsorted).subset (firstPayable_some hfirst).1,
    hsorted, hfirst⟩

/-- What comes before the first payable result cannot be paid. -/
theorem firstPayable_prefix {xs : List Dict} {w : Dict}
    (h : firstPayable d objective cons xs = .ok (some w)) :
    ∃ pre post, xs = pre ++ w :: post ∧
      ∀ r ∈ pre, pickSelectedPayment d r objective cons = .ok none := by
  induction xs with
  | nil => cases h
  | cons r rest ih =>
      obtain ⟨picked, hpicked, h⟩ := bind_eq_ok.mp h
      cases picked with
      | some p =>
          cases h
          exact ⟨[], rest, rfl, fun _ hr => absurd hr List.not_mem_nil⟩
      | none =>
          obtain ⟨pre, post, rfl, hpre⟩ := ih h
          refine ⟨r :: pre, post, rfl, fun x hx => ?_⟩
          rcases List.mem_cons.mp hx with rfl | hx
          · exact hpicked
          · exact hpre x hx

/-- The winner has the least key of the payable eligible results, where the comparison
goes by the key first. -/
theorem winner_key_le {κ : Type} [LinearOrder κ] (key : Dict → κ)
    (hfound : viable d (rows d results) cons = .ok found)
    (helig : eligible d objective cons found = .ok elig)
    (hkey : ∀ a ∈ elig, ∀ b ∈ elig, key a < key b → cmp d objective a b = .ok .lt) {w : Dict}
    (h : pickWinner d sorter (rows d results) objective cons = .ok (some w)) :
    w ∈ elig ∧ ∀ s ∈ elig, (∃ p, pickSelectedPayment d s objective cons = .ok (some p)) →
      key w ≤ key s := by
  obtain ⟨fig, hfig⟩ := figures_of_eligible hfound helig
  have hcmp : ∀ a ∈ elig, ∀ b ∈ elig,
      cmp d objective a b = .ok (Figures.cmp objective (fig a) (fig b)) := fun a ha b hb =>
    cmp_eq (hfig a ha) (hfig b hb)
  have horder : WeakOrder (fun a b => compare (key a) (key b)) elig :=
    (WeakOrder.ofLinear _).comap key
  have hrefines : Refines (fun a b => Figures.cmp objective (fig a) (fig b))
      (fun a b => compare (key a) (key b)) elig := by
    refine ⟨fun a ha b hb => Figures.cmp_swap (hfig a ha).sound (hfig b hb).sound, ?_⟩
    intro a ha b hb hlt
    have := hkey a ha b hb (compare_lt_iff_lt.mp hlt)
    rw [hcmp a ha b hb] at this
    exact Except.ok.inj this
  obtain ⟨elig', order, helig', -, hsorted, hfirst⟩ := eligible_of_winner hfound h
  rw [helig] at helig'
  cases helig'
  have hpairs := sorter.ordered _ _ hcmp hrefines horder hsorted
  have hperm := sorter.perm hsorted
  obtain ⟨pre, post, rfl, hpre⟩ := firstPayable_prefix hfirst
  refine ⟨hperm.subset (List.mem_append_right _ List.mem_cons_self), ?_⟩
  rintro s hs ⟨p, hp⟩
  rcases List.mem_append.mp (hperm.symm.subset hs) with hs | hs
  · rw [hpre s hs] at hp
    cases hp
  · rcases List.mem_cons.mp hs with rfl | hs
    · exact le_rfl
    · have := (List.pairwise_cons.mp (List.pairwise_append.mp hpairs).2.1).1 s hs
      exact compare_le_iff_le.mp this

/-- Where some viable result has an admitted price, those that have one are eligible. -/
theorem mem_eligible_cheapest (hpass : ∀ r ∈ found, Passes d r cons)
    (helig : eligible d .cheapest cons found = .ok elig) {v : Dict} (hv : v ∈ found)
    (hadmitted : ∃ c, bestUsd d v cons = .ok (some c)) (r : Dict) :
    r ∈ elig ↔ r ∈ found ∧ ∃ c, bestUsd d r cons = .ok (some c) := by
  obtain ⟨prices, hprices, rfl⟩ := map_eq_ok.mp helig
  obtain ⟨q, hq, hqkey⟩ := (priced_usd_iff (hpass v hv)).mpr hadmitted
  have hqmem : (v, q) ∈ prices := (pricedResults_mem hprices).mpr ⟨hv, hq⟩
  rw [mem_comparable]
  constructor
  · rintro ⟨p, hp, hor⟩
    obtain ⟨hr, hpr⟩ := (pricedResults_mem hprices).mp hp
    have hkey : p.key? = none := by
      rcases hor with hnone | hall
      · exact hnone
      · exact (hall (r, p) hp (v, q) hqmem).trans hqkey
    exact ⟨hr, (priced_usd_iff (hpass r hr)).mp ⟨p, hpr, hkey⟩⟩
  · rintro ⟨hr, hc⟩
    obtain ⟨p, hp, hkey⟩ := (priced_usd_iff (hpass r hr)).mpr hc
    exact ⟨p, (pricedResults_mem hprices).mpr ⟨hr, hp⟩, .inl hkey⟩

/-- A result with an admitted price has a price over all its options, a number. -/
theorem listed_price {r : Dict} (h : Passes d r cons)
    (hadmitted : ∃ c, bestUsd d r cons = .ok (some c)) :
    ∃ u, bestUsd d r .none = .ok (some u) ∧ u.IsNumber := by
  obtain ⟨opts, hopts, -, hbest⟩ := bestUsd_admitted h
  obtain ⟨c, hc⟩ := hadmitted
  obtain ⟨o, ho, hprice⟩ := List.mem_filterMap.mp (minFloat_mem (Except.ok.inj (hbest ▸ hc)))
  have hmem : c ∈ opts.filterMap (·.normalizedUsd) :=
    List.mem_filterMap.mpr ⟨o, (List.mem_filter.mp ho).1, hprice⟩
  obtain ⟨u, hu⟩ := minFloat_isSome (List.ne_nil_of_mem hmem)
  refine ⟨u, ?_, ?_⟩
  · rw [bestUsd, compared_none hopts]
    exact congrArg Except.ok hu
  · obtain ⟨o', ho', hprice'⟩ := List.mem_filterMap.mp (minFloat_mem hu)
    exact (options_valid hopts o' ho').isNumber u hprice'

/-- A cheapest winner that is paid at a price is least in the comparison. -/
theorem winner_listedLeast (hfound : viable d (rows d results) cons = .ok found) {w : Dict}
    (h : pickWinner d sorter (rows d results) .cheapest cons = .ok (some w))
    (hadmitted : ∃ c, bestUsd d w cons = .ok (some c)) : ListedLeast d cons found w := by
  have hpass : ∀ r ∈ found, Passes d r cons := fun r hr => (mem_viable hfound hr).2.1
  obtain ⟨elig, -, helig, -⟩ := eligible_of_winner hfound h
  -- the winner is eligible, so every result with an admitted price is
  have hw : w ∈ found := by
    obtain ⟨hviable, -⟩ := pickWinner_spec h
    refine (mem_keepIf hfound).mpr ⟨?_, hviable⟩
    exact List.mem_filterMap.mpr ⟨.obj w, pickWinner_mem h, rfl⟩
  have hmem := mem_eligible_cheapest hpass helig hw hadmitted
  have hlisted : ∀ r ∈ elig, ∃ u, bestUsd d r .none = .ok (some u) ∧ u.IsNumber := fun r hr =>
    listed_price (hpass r ((hmem r).mp hr).1) ((hmem r).mp hr).2
  have : Nonempty PyFloat := ⟨PyFloat.zero⟩
  choose! price hprice using hlisted
  have hkey : ∀ a ∈ elig, ∀ b ∈ elig,
      PyFloat.rank (price a).unpack < PyFloat.rank (price b).unpack →
        cmp d .cheapest a b = .ok .lt := by
    intro a ha b hb hlt
    have hamount : cmpAmountAsc d a b = .ok .lt := by
      unfold cmpAmountAsc
      rw [(hprice a ha).1, (hprice b hb).1]
      show Except.ok (cmpFloat (price a) (price b)) = _
      rw [cmpFloat_eq_compare (hprice a ha).2 (hprice b hb).2, compare_lt_iff_lt.mpr hlt]
    show cmpCheapest d a b = _
    rw [cmpCheapest, hamount]
    rfl
  obtain ⟨hwe, hle⟩ := winner_key_le (fun r => PyFloat.rank (price r).unpack) hfound helig hkey h
  refine ⟨hw, hadmitted, fun s hs hsadmitted u v hu hv => ?_⟩
  have hse : s ∈ elig := (hmem s).mpr ⟨hs, hsadmitted⟩
  have hpick : ∃ p, pickSelectedPayment d s .cheapest cons = .ok (some p) :=
    pick_isSome (hpass s hs) (by simp)
  have hrank := hle s hse hpick
  rw [(hprice w hwe).1] at hu
  cases hu
  rw [(hprice s hse).1] at hv
  cases hv
  exact (lt_eq_false_iff (hprice s hse).2 (hprice w hwe).2).mpr hrank

/-- A winner by time to settle is least in the comparison. -/
theorem winner_timedLeast (hfound : viable d (rows d results) cons = .ok found) {w : Dict}
    (h : pickWinner d sorter (rows d results) .fastestSettlement cons = .ok (some w)) :
    TimedLeast d cons found w := by
  have hpass : ∀ r ∈ found, Passes d r cons := fun r hr => (mem_viable hfound hr).2.1
  obtain ⟨elig, -, helig, -⟩ := eligible_of_winner hfound h
  have hmem : ∀ r, r ∈ elig ↔ r ∈ found ∧ ∃ t, settlementMs d r = .ok (some t) := fun r => by
    rw [mem_keepIf helig, known_eq_true]
  have htimed : ∀ r ∈ elig, ∃ t, settlementMs d r = .ok (some t) := fun r hr =>
    ((hmem r).mp hr).2
  choose! time htime using htimed
  have hkey : ∀ a ∈ elig, ∀ b ∈ elig, time a < time b →
      cmp d .fastestSettlement a b = .ok .lt := by
    intro a ha b hb hlt
    show cmpFastestSettlement d a b = _
    unfold cmpFastestSettlement
    rw [htime a ha, htime b hb]
    show orElse (.ok (compare (time a) (time b))) _ = _
    rw [compare_lt_iff_lt.mpr hlt]
    rfl
  obtain ⟨hwe, hle⟩ := winner_key_le time hfound helig hkey h
  have hw := ((hmem w).mp hwe).1
  obtain ⟨-, p, hpick⟩ := pickWinner_spec h
  obtain ⟨t, -, hin, -⟩ := picked_time (hpass w hw) hpick
  refine ⟨hw, ⟨t, hin⟩, ⟨time w, htime w hwe⟩, fun s hs hsettles f g hf hg => ?_⟩
  have hse : s ∈ elig := (hmem s).mpr ⟨hs, g, hg⟩
  have hle := hle s hse (pick_of_settles (hpass s hs) hsettles)
  rw [htime w hwe] at hf
  cases hf
  rw [htime s hse] at hg
  cases hg
  exact hle

/-- Whether the option paid is the least one.  It is when every result that is least in
the comparison is least within the constraints; where one result alone is least in the
comparison, it is only then. -/
theorem paid_least (hfound : viable d (rows d results) cons = .ok found) :
    ((∀ r, ListedLeast d cons found r → AdmittedLeast d cons found r) →
        ∀ w, pickWinner d sorter (rows d results) .cheapest cons = .ok (some w) →
          PaysCheapest d cons found w) ∧
      ((∀ r r', ListedLeast d cons found r → ListedLeast d cons found r' → r = r') →
        (∀ w, pickWinner d sorter (rows d results) .cheapest cons = .ok (some w) →
          PaysCheapest d cons found w) →
          ∀ r, ListedLeast d cons found r → AdmittedLeast d cons found r) ∧
      ((∀ r, TimedLeast d cons found r → SettlesLeast d cons found r) →
        ∀ w, pickWinner d sorter (rows d results) .fastestSettlement cons = .ok (some w) →
          PaysFastest d cons found w) ∧
      ((∀ r r', TimedLeast d cons found r → TimedLeast d cons found r' → r = r') →
        (∀ w, pickWinner d sorter (rows d results) .fastestSettlement cons = .ok (some w) →
          PaysFastest d cons found w) →
          ∀ r, TimedLeast d cons found r → SettlesLeast d cons found r) := by
  have hpass : ∀ r ∈ found, Passes d r cons := fun r hr => (mem_viable hfound hr).2.1
  have hmem : ∀ {objective w},
      pickWinner d sorter (rows d results) objective cons = .ok (some w) → w ∈ found := by
    intro objective w h
    exact (mem_keepIf hfound).mpr
      ⟨List.mem_filterMap.mpr ⟨.obj w, pickWinner_mem h, rfl⟩, (pickWinner_spec h).1⟩
  refine ⟨fun hcond w h p hpick x hx => ?_, fun hone hpays r hr => ?_,
    fun hcond w h => ?_, fun hone hpays r hr => ?_⟩
  · have hadmitted : ∃ c, bestUsd d w cons = .ok (some c) := by
      obtain ⟨opts, hopts, -, hbest⟩ := bestUsd_admitted (hpass w (hmem h))
      obtain ⟨opts', hopts', hp, hadmits, -⟩ := pick_mem hpick
      rw [hopts] at hopts'
      cases hopts'
      obtain ⟨c, hc⟩ := minFloat_isSome (List.ne_nil_of_mem
        (List.mem_filterMap.mpr ⟨p, List.mem_filter.mpr ⟨hp, hadmits⟩, hx⟩))
      exact ⟨c, hbest.trans (congrArg Except.ok hc)⟩
    exact (paysCheapest_iff hpass (hmem h) hadmitted).mpr
      (hcond w (winner_listedLeast hfound h hadmitted)) p hpick x hx
  · obtain ⟨elig, helig⟩ : ∃ elig, eligible d .cheapest cons found = .ok elig := by
      obtain ⟨prices, hprices⟩ := pricedResults_returns fun s (hs : s ∈ found) => by
        obtain ⟨opts, hopts⟩ := compared_returns (hpass s hs) cons
        exact ⟨_, by rw [pricedResult, hopts]; rfl⟩
      exact ⟨_, map_eq_ok.mpr ⟨prices, hprices, rfl⟩⟩
    have helem := mem_eligible_cheapest hpass helig hr.mem hr.admitted
    obtain ⟨w, hw⟩ := (pickWinner_isSome hfound helig).mpr
      ⟨r, (helem r).mpr ⟨hr.mem, hr.admitted⟩, pick_isSome (hpass r hr.mem) (by simp)⟩
    obtain ⟨elig', -, helig', hwe, -⟩ := eligible_of_winner hfound hw
    rw [helig] at helig'
    cases helig'
    have hadmitted := ((helem w).mp hwe).2
    -- the winner is the one result that is least in the comparison
    obtain rfl := hone w r (winner_listedLeast hfound hw hadmitted) hr
    exact (paysCheapest_iff hpass hr.mem hadmitted).mp (hpays w hw)
  · obtain ⟨-, p, hpick⟩ := pickWinner_spec h
    obtain ⟨t, -, hin, -⟩ := picked_time (hpass w (hmem h)) hpick
    exact (paysFastest_iff (hpass w (hmem h)) ⟨t, hin⟩).mpr
      (hcond w (winner_timedLeast hfound h))
  · have hread : ∀ s ∈ found, ∃ b, known (settlementMs d) s = .ok b := by
      intro s hs
      obtain ⟨v, hv⟩ := (mem_viable hfound hs).1.settlement
      exact ⟨v.isSome, by rw [known, hv]; rfl⟩
    obtain ⟨elig, helig⟩ := keepIf_returns hread
    have hre : r ∈ elig := (mem_keepIf helig).mpr ⟨hr.mem, known_eq_true.mpr hr.timed⟩
    obtain ⟨w, hw⟩ := (pickWinner_isSome hfound (show eligible d .fastestSettlement cons found = _ from helig)).mpr
      ⟨r, hre, pick_of_settles (hpass r hr.mem) hr.settles⟩
    obtain rfl := hone w r (winner_timedLeast hfound hw) hr
    exact (paysFastest_iff (hpass w hr.mem) hr.settles).mp (hpays w hw)

/-- Without constraints the option paid is the cheapest one. -/
theorem paid_least_of_two : ∃ found,
    viable .plain (rows .plain twoPriced) .none = .ok found ∧
      ∀ w, pickWinner .plain (insertion _ _) (rows .plain twoPriced) .cheapest .none =
        .ok (some w) → PaysCheapest .plain .none found w := by
  have hlen : (viable .plain (rows .plain twoPriced) .none).map List.length = .ok 2 := by
    decide +kernel
  obtain ⟨found, hfound, -⟩ := map_eq_ok.mp hlen
  refine ⟨found, hfound, (paid_least hfound).1 ?_⟩
  intro r hr s hs c e hc he
  exact hr.least s hs ⟨e, he⟩ c e hc he

/-- A seller that is cheapest on Base, and dear on Solana. -/
def dearOnSolana : Dict := liveResult [(.base, 10000), (.solana, 50000)] 100

/-- A seller on Solana alone. -/
def onSolana : Dict := liveResult [(.solana, 30000)] 200

def lockSolana : Constraints := { Constraints.none with rails := some [.solana] }

/-- With a lock to Solana, the seller that is cheapest on Base wins and is paid on Solana,
where the other one is cheaper. -/
theorem locked_option_dearer : ∃ found,
    viable .plain [.obj dearOnSolana, .obj onSolana] lockSolana = .ok found ∧
      ¬∀ w, pickWinner .plain (insertion _ _) [.obj dearOnSolana, .obj onSolana] .cheapest
          lockSolana = .ok (some w) → PaysCheapest .plain lockSolana found w := by
  have hlen : (viable .plain [.obj dearOnSolana, .obj onSolana] lockSolana).map List.length =
      .ok 2 := by decide +kernel
  obtain ⟨found, hfound, hfoundlen⟩ := map_eq_ok.mp hlen
  refine ⟨found, hfound, fun hpays => ?_⟩
  have hwinner : (pickWinner .plain (insertion _ _) [.obj dearOnSolana, .obj onSolana] .cheapest
      lockSolana).map (Option.map fun r => (Dict.get r "latency_ms").eqInt 100) =
        .ok (some true) := by decide +kernel
  obtain ⟨w, hw, hfirst⟩ := map_eq_ok.mp hwinner
  obtain ⟨w, rfl, hfirst⟩ := Option.map_eq_some_iff.mp hfirst
  have hmem : ∀ r ∈ found, r = dearOnSolana ∨ r = onSolana := by
    intro r hr
    have := ((mem_keepIf hfound).mp hr).1
    simpa [Json.asObj?] using this
  have hpass : ∀ r ∈ found, Passes .plain r lockSolana := fun r hr =>
    passes_iff.mp (both_eq_true.mp ((mem_keepIf hfound).mp hr).2).1
  have hin : ∀ r, Json.obj r ∈ [.obj dearOnSolana, .obj onSolana] →
      (isViable .plain lockSolana r = .ok true) → r ∈ found := fun r hr hviable =>
    (mem_keepIf hfound).mpr ⟨List.mem_filterMap.mpr ⟨.obj r, hr, rfl⟩, hviable⟩
  have hwf : w ∈ found := hin w (pickWinner_mem hw) (pickWinner_spec hw).1
  have hwd : w = dearOnSolana := by
    rcases hmem w hwf with h | h
    · exact h
    · rw [h] at hfirst
      cases hfirst
  subst hwd
  have hother : onSolana ∈ found := hin onSolana (by simp) (by decide +kernel)
  have hprices : (bestUsd .plain dearOnSolana lockSolana).bind (fun c =>
      (bestUsd .plain onSolana lockSolana).map fun e => c.bind fun c => e.map fun e => e.lt c) =
        .ok (some true) := by decide +kernel
  obtain ⟨c, hc, hprices⟩ := bind_eq_ok.mp hprices
  obtain ⟨e, he, hlt⟩ := map_eq_ok.mp hprices
  obtain ⟨c, rfl, hmap⟩ := Option.bind_eq_some_iff.mp hlt
  obtain ⟨e, rfl, hdear⟩ := Option.map_eq_some_iff.mp hmap
  have hleast := (paysCheapest_iff hpass hwf ⟨c, hc⟩).mp (hpays dearOnSolana hw)
  rw [hleast onSolana hother c e hc he] at hdear
  cases hdear

end Signal402.Select
