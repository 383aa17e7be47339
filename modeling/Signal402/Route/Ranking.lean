import Signal402.Route.Figures

/-!
# The order of results

`pickWinner` sorts the eligible results and takes the first that can be paid.

* `ranking_is_order` — swapping two results swaps the answer.  Where prices compare and
  latencies are known the comparison is a strict weak order: nothing left over is better
  than the first ranked result, and another order of the same list ranks an equal one
  first.
* `prices_and_rates_cycle` — a token without a price makes the comparison go round.
-/

namespace Signal402.Select

open Payment CmpSort

variable {d : Deps} {objective : Objective} {cons : Constraints} {found : List Dict}

/-! ## The results among which an objective chooses -/

/-- The distinct elements are one when there is an element and all are alike. -/
theorem length_dedup_eq_one {α : Type} [DecidableEq α] {xs : List α} :
    xs.dedup.length = 1 ↔ xs ≠ [] ∧ ∀ x ∈ xs, ∀ y ∈ xs, x = y := by
  constructor
  · intro h
    obtain ⟨a, ha⟩ := List.length_eq_one_iff.mp h
    have hmem : ∀ x ∈ xs, x = a := by
      intro x hx
      have := List.mem_dedup.mpr hx
      rw [ha] at this
      exact List.mem_singleton.mp this
    refine ⟨?_, fun x hx y hy => (hmem x hx).trans (hmem y hy).symm⟩
    rintro rfl
    cases h
  · rintro ⟨hne, hall⟩
    obtain ⟨a, rest, rfl⟩ := List.exists_cons_of_ne_nil hne
    have hsub : ∀ x ∈ (a :: rest).dedup, x = a := fun x hx =>
      hall x (List.mem_dedup.mp hx) a List.mem_cons_self
    have hmem : a ∈ (a :: rest).dedup := List.mem_dedup.mpr List.mem_cons_self
    have hdedup := List.eq_replicate_of_mem hsub
    have hnodup := List.nodup_dedup (a :: rest)
    rw [hdedup, List.nodup_replicate] at hnodup
    exact le_antisymm hnodup (List.length_pos_of_mem hmem)

theorem pricedResults_mem {xs : List Dict} {priced : List (Dict × Priced)}
    (h : pricedResults d cons xs = .ok priced) {x : Dict × Priced} :
    x ∈ priced ↔ x.1 ∈ xs ∧ pricedResult d cons x.1 = .ok (some x.2) := by
  induction xs generalizing priced with
  | nil =>
      cases h
      simp
  | cons r rest ih =>
      obtain ⟨p, hp, h⟩ := bind_eq_ok.mp h
      obtain ⟨known, hknown, rfl⟩ := map_eq_ok.mp h
      have hiff := ih hknown
      cases p with
      | none =>
          dsimp only
          rw [hiff, List.mem_cons]
          constructor
          · exact fun hx => ⟨.inr hx.1, hx.2⟩
          · rintro ⟨hx | hx, hpr⟩
            · rw [hx, hp] at hpr
              cases hpr
            · exact ⟨hx, hpr⟩
      | some y =>
          dsimp only
          rw [List.mem_cons, hiff, List.mem_cons]
          constructor
          · rintro (rfl | hx)
            · exact ⟨.inl rfl, hp⟩
            · exact ⟨.inr hx.1, hx.2⟩
          · rintro ⟨hx | hx, hpr⟩
            · left
              rw [hx, hp] at hpr
              cases hpr
              exact Prod.ext hx rfl
            · exact .inr ⟨hx, hpr⟩

theorem pricedResults_returns {xs : List Dict}
    (h : ∀ r ∈ xs, ∃ p, pricedResult d cons r = .ok p) :
    ∃ priced, pricedResults d cons xs = .ok priced := by
  induction xs with
  | nil => exact ⟨[], rfl⟩
  | cons r rest ih =>
      obtain ⟨p, hp⟩ := h r List.mem_cons_self
      obtain ⟨known, hknown⟩ := ih fun x hx => h x (List.mem_cons_of_mem r hx)
      unfold pricedResults
      rw [hp, hknown]
      exact ⟨_, rfl⟩

/-- A priced result compares when its price is in dollars or all prices are in one
asset. -/
theorem mem_comparable {priced : List (Dict × Priced)} {r : Dict} :
    r ∈ comparable priced ↔ ∃ p, (r, p) ∈ priced ∧
      (p.key? = none ∨ ∀ x ∈ priced, ∀ y ∈ priced, x.2.key? = y.2.key?) := by
  unfold comparable
  dsimp only
  split
  · rename_i husd
    obtain ⟨x, hx⟩ := List.exists_mem_of_ne_nil (priced.filter fun p => p.2.key?.isNone)
      (by simpa using husd)
    obtain ⟨hmem, hkey⟩ := List.mem_filter.mp hx
    have hkey : x.2.key? = none := Option.isNone_iff_eq_none.mp hkey
    constructor
    · intro h
      obtain ⟨y, hy, rfl⟩ := List.mem_map.mp h
      obtain ⟨hy, hnone⟩ := List.mem_filter.mp hy
      exact ⟨y.2, hy, .inl (Option.isNone_iff_eq_none.mp hnone)⟩
    · rintro ⟨p, hp, hnone | hall⟩
      · exact List.mem_map.mpr ⟨(r, p), List.mem_filter.mpr
          ⟨hp, Option.isNone_iff_eq_none.mpr hnone⟩, rfl⟩
      · have hnone := (hall (r, p) hp x hmem).trans hkey
        exact List.mem_map.mpr ⟨(r, p), List.mem_filter.mpr
          ⟨hp, Option.isNone_iff_eq_none.mpr hnone⟩, rfl⟩
  · rename_i husd
    -- no price is in dollars, so every price has its asset
    have hsome : ∀ x ∈ priced, x.2.key? ≠ none := by
      intro x hx hnone
      refine husd ?_
      simp only [Bool.not_eq_eq_eq_not, Bool.not_true, List.isEmpty_eq_false_iff]
      exact List.ne_nil_of_mem (List.mem_filter.mpr ⟨hx, Option.isNone_iff_eq_none.mpr hnone⟩)
    have hkeys : ((priced.filterMap fun p => p.2.key?).dedup).length = 1 ↔
        priced ≠ [] ∧ ∀ x ∈ priced, ∀ y ∈ priced, x.2.key? = y.2.key? := by
      rw [length_dedup_eq_one]
      constructor
      · rintro ⟨hne, hall⟩
        refine ⟨fun hnil => hne (by rw [hnil]; rfl), fun x hx y hy => ?_⟩
        obtain ⟨k, hk⟩ := Option.ne_none_iff_exists'.mp (hsome x hx)
        obtain ⟨l, hl⟩ := Option.ne_none_iff_exists'.mp (hsome y hy)
        rw [hk, hl, hall k (List.mem_filterMap.mpr ⟨x, hx, hk⟩) l
          (List.mem_filterMap.mpr ⟨y, hy, hl⟩)]
      · rintro ⟨hne, hall⟩
        obtain ⟨x, hx⟩ := List.exists_mem_of_ne_nil _ hne
        obtain ⟨k, hk⟩ := Option.ne_none_iff_exists'.mp (hsome x hx)
        refine ⟨List.ne_nil_of_mem (List.mem_filterMap.mpr ⟨x, hx, hk⟩), ?_⟩
        intro a ha b hb
        obtain ⟨y, hy, hya⟩ := List.mem_filterMap.mp ha
        obtain ⟨z, hz, hzb⟩ := List.mem_filterMap.mp hb
        exact Option.some.inj (hya.symm.trans ((hall y hy z hz).trans hzb))
    split
    · rename_i hone
      obtain ⟨-, hall⟩ := hkeys.mp hone
      constructor
      · intro h
        obtain ⟨y, hy, rfl⟩ := List.mem_map.mp h
        exact ⟨y.2, hy, .inr hall⟩
      · rintro ⟨p, hp, -⟩
        exact List.mem_map.mpr ⟨(r, p), hp, rfl⟩
    · rename_i hone
      constructor
      · exact fun h => absurd h List.not_mem_nil
      · rintro ⟨p, hp, hnone | hall⟩
        · exact absurd hnone (hsome _ hp)
        · exact absurd (hkeys.mpr ⟨List.ne_nil_of_mem hp, hall⟩) hone

/-- Priced results compare when one is in dollars or all are in one asset. -/
theorem comparable_ne_nil {priced : List (Dict × Priced)} :
    comparable priced ≠ [] ↔ priced ≠ [] ∧
      ((∃ x ∈ priced, x.2.key? = none) ∨
        ∀ x ∈ priced, ∀ y ∈ priced, x.2.key? = y.2.key?) := by
  constructor
  · intro hne
    obtain ⟨r, hr⟩ := List.exists_mem_of_ne_nil _ hne
    obtain ⟨p, hp, hor⟩ := mem_comparable.mp hr
    exact ⟨List.ne_nil_of_mem hp, hor.imp_left fun hnone => ⟨(r, p), hp, hnone⟩⟩
  · rintro ⟨hne, ⟨x, hx, hnone⟩ | hall⟩
    · exact List.ne_nil_of_mem (mem_comparable.mpr ⟨x.2, hx, .inl hnone⟩)
    · obtain ⟨x, hx⟩ := List.exists_mem_of_ne_nil _ hne
      exact List.ne_nil_of_mem (mem_comparable.mpr ⟨x.2, hx, .inr hall⟩)

/-- The results an objective chooses among are viable ones. -/
theorem eligible_subset {elig : List Dict} (h : eligible d objective cons found = .ok elig)
    {r : Dict} (hr : r ∈ elig) : r ∈ found := by
  cases objective with
  | cheapest =>
      obtain ⟨priced, hpriced, rfl⟩ := map_eq_ok.mp h
      obtain ⟨p, hp, -⟩ := mem_comparable.mp hr
      exact ((pricedResults_mem hpriced).mp hp).1
  | lowestTotalCost => exact ((mem_keepIf h).mp hr).1
  | fastestSettlement => exact ((mem_keepIf h).mp hr).1
  | best => cases h; exact hr
  | fastest => cases h; exact hr
  | mostReliable => cases h; exact hr

/-- The same viable results are eligible in whatever order they come. -/
theorem eligible_congr {found' elig elig' : List Dict} (hmem : ∀ r, r ∈ found ↔ r ∈ found')
    (h : eligible d objective cons found = .ok elig)
    (h' : eligible d objective cons found' = .ok elig') {r : Dict} :
    r ∈ elig ↔ r ∈ elig' := by
  have hkept : ∀ {f : Dict → Except PyError Bool}, keepIf f found = .ok elig →
      keepIf f found' = .ok elig' → (r ∈ elig ↔ r ∈ elig') := by
    intro f hf hf'
    rw [mem_keepIf hf, mem_keepIf hf', hmem]
  cases objective with
  | cheapest =>
      obtain ⟨priced, hpriced, rfl⟩ := map_eq_ok.mp h
      obtain ⟨priced', hpriced', rfl⟩ := map_eq_ok.mp h'
      have hsame : ∀ x, x ∈ priced ↔ x ∈ priced' := by
        intro x
        rw [pricedResults_mem hpriced, pricedResults_mem hpriced', hmem]
      simp only [mem_comparable, hsame]
  | lowestTotalCost => exact hkept h h'
  | fastestSettlement => exact hkept h h'
  | best => cases h; cases h'; exact hmem r
  | fastest => cases h; cases h'; exact hmem r
  | mostReliable => cases h; cases h'; exact hmem r

/-! ## The order of eligible results -/

/-- All prices are known in dollars, or none is and all are in one asset, or no price
tells two results apart. -/
def PricesCompare (d : Deps) (rs : List Dict) : Prop :=
  (∀ r ∈ rs, ∃ price, bestUsd d r .none = .ok (some price)) ∨
    (∃ key, ∀ r ∈ rs, bestUsd d r .none = .ok none ∧
      (paymentOptions d r).map (assetKeys d) = .ok [key]) ∨
    ∀ a ∈ rs, ∀ b ∈ rs, cmpAmountAsc d a b = .ok .eq

/-- All latencies are known, or none. -/
def LatenciesCompare (d : Deps) (rs : List Dict) : Prop :=
  (∀ r ∈ rs, ∃ ms, latencyMs d r = .ok (some ms)) ∨ ∀ r ∈ rs, latencyMs d r = .ok none

/-- Results that an objective orders. -/
def Comparable (d : Deps) (objective : Objective) (rs : List Dict) : Prop :=
  match objective with
  | .best | .cheapest => PricesCompare d rs ∧ LatenciesCompare d rs
  | .fastest | .mostReliable | .fastestSettlement => PricesCompare d rs
  | .lowestTotalCost => True

/-- The figures of comparable results are comparable. -/
theorem figures_comparable {rs : List Dict} {fig : Dict → Figures}
    (hfig : ∀ r ∈ rs, HasFigures d r (fig r)) (h : Comparable d objective rs)
    (hsettles : objective = .fastestSettlement → ∀ r ∈ rs, ∃ t, settlementMs d r = .ok (some t)) :
    Figures.Comparable objective (rs.map fig) := by
  have hprices : PricesCompare d rs → Figures.PricesCompare (rs.map fig) := by
    rintro (husd | ⟨key, hkey⟩ | heq)
    · refine .inl fun f hf => ?_
      obtain ⟨r, hr, rfl⟩ := List.mem_map.mp hf
      obtain ⟨price, hprice⟩ := husd r hr
      rw [Except.ok.inj ((hfig r hr).usd.symm.trans hprice)]
      simp
    · refine .inr (.inl ⟨key, fun f hf => ?_⟩)
      obtain ⟨r, hr, rfl⟩ := List.mem_map.mp hf
      obtain ⟨opts, hopts, hkeys⟩ := (hfig r hr).keys
      obtain ⟨hnone, hone⟩ := hkey r hr
      rw [hopts] at hone
      exact ⟨Except.ok.inj ((hfig r hr).usd.symm.trans hnone),
        hkeys.symm.trans (Except.ok.inj hone)⟩
    · refine .inr (.inr fun f hf g hg => ?_)
      obtain ⟨a, ha, rfl⟩ := List.mem_map.mp hf
      obtain ⟨b, hb, rfl⟩ := List.mem_map.mp hg
      exact Except.ok.inj ((cmpAmount_eq (hfig a ha) (hfig b hb)).symm.trans (heq a ha b hb))
  have hlatencies : LatenciesCompare d rs →
      (∀ f ∈ rs.map fig, f.latency ≠ none) ∨ ∀ f ∈ rs.map fig, f.latency = none := by
    rintro (hknown | hnone)
    · refine .inl fun f hf => ?_
      obtain ⟨r, hr, rfl⟩ := List.mem_map.mp hf
      obtain ⟨ms, hms⟩ := hknown r hr
      rw [Except.ok.inj ((hfig r hr).latency.symm.trans hms)]
      simp
    · refine .inr fun f hf => ?_
      obtain ⟨r, hr, rfl⟩ := List.mem_map.mp hf
      exact Except.ok.inj ((hfig r hr).latency.symm.trans (hnone r hr))
  cases objective with
  | best => exact ⟨hprices h.1, hlatencies h.2⟩
  | cheapest => exact ⟨hprices h.1, hlatencies h.2⟩
  | fastest => exact hprices h
  | mostReliable => exact hprices h
  | lowestTotalCost => trivial
  | fastestSettlement =>
      refine ⟨hprices h, fun f hf => ?_⟩
      obtain ⟨r, hr, rfl⟩ := List.mem_map.mp hf
      obtain ⟨t, ht⟩ := hsettles rfl r hr
      rw [Except.ok.inj ((hfig r hr).settlement.symm.trans ht)]
      simp

/-- A test that a figure is known. -/
theorem known_eq_true {α : Type} {figure : Dict → Except PyError (Option α)} {r : Dict} :
    known figure r = .ok true ↔ ∃ v, figure r = .ok (some v) := by
  unfold known
  rw [map_eq_ok]
  constructor
  · rintro ⟨v, hv, hsome⟩
    obtain ⟨t, rfl⟩ := Option.isSome_iff_exists.mp hsome
    exact ⟨t, hv⟩
  · rintro ⟨t, ht⟩
    exact ⟨some t, ht, rfl⟩

variable {results : List (Probed d)}

/-- Eligible results have figures. -/
theorem figures_of_eligible {elig : List Dict} (hfound : viable d (rows d results) cons = .ok found)
    (helig : eligible d objective cons found = .ok elig) :
    ∃ fig : Dict → Figures, ∀ r ∈ elig, HasFigures d r (fig r) := by
  have hex : ∀ r ∈ elig, ∃ f, HasFigures d r f := by
    intro r hr
    obtain ⟨hread, hpass, -⟩ := mem_viable hfound (eligible_subset helig hr)
    exact figures_of_passes hread hpass
  choose! fig hfig using hex
  exact ⟨fig, hfig⟩

/-- Results in other places are the same viable ones. -/
theorem viable_congr {results' : List (Probed d)} {found' : List Dict}
    (hperm : results'.Perm results) (h : viable d (rows d results) cons = .ok found)
    (h' : viable d (rows d results') cons = .ok found') (r : Dict) : r ∈ found ↔ r ∈ found' := by
  have hrows : (rows d results').Perm (rows d results) := hperm.map _
  rw [mem_keepIf h, mem_keepIf h', (hrows.filterMap _).mem_iff]

/-- What the eligible results are known to settle by. -/
theorem eligible_settles {elig : List Dict}
    (helig : eligible d objective cons found = .ok elig) (hobj : objective = .fastestSettlement) :
    ∀ r ∈ elig, ∃ t, settlementMs d r = .ok (some t) := by
  subst hobj
  exact fun r hr => known_eq_true.mp ((mem_keepIf helig).mp hr).2

variable {sorter : Sorter Dict PyError}

/-- The ranking of results.  Swapping two results swaps the answer; where the eligible
results are comparable, it is a strict weak order, no eligible result is better than the
first ranked one, and another order of the results ranks an equal one first. -/
theorem ranking_is_order {elig : List Dict}
    (hfound : viable d (rows d results) cons = .ok found)
    (helig : eligible d objective cons found = .ok elig) :
    (∀ a ∈ found, ∀ b ∈ found, ∃ o,
        cmp d objective a b = .ok o ∧ cmp d objective b a = .ok o.swap) ∧
      ∃ order, ranked d sorter (rows d results) objective cons = .ok order ∧ order.Perm elig ∧
        (Comparable d objective elig →
          (∃ c, (∀ a ∈ elig, ∀ b ∈ elig, cmp d objective a b = .ok (c a b)) ∧
            WeakOrder c elig) ∧
          ∀ w ∈ order.head?, (∀ r ∈ elig, cmp d objective r w ≠ .ok .lt) ∧
            ∀ results' : List (Probed d), results'.Perm results → ∀ order',
              ranked d sorter (rows d results') objective cons = .ok order' →
                ∀ w' ∈ order'.head?, cmp d objective w w' = .ok .eq) := by
  have hswap : ∀ a ∈ found, ∀ b ∈ found, ∃ o,
      cmp d objective a b = .ok o ∧ cmp d objective b a = .ok o.swap := by
    intro a ha b hb
    obtain ⟨hra, hpa, -⟩ := mem_viable hfound ha
    obtain ⟨hrb, hpb, -⟩ := mem_viable hfound hb
    obtain ⟨f, hf⟩ := figures_of_passes hra hpa
    obtain ⟨g, hg⟩ := figures_of_passes hrb hpb
    exact ⟨_, cmp_eq hf hg, by rw [cmp_eq hg hf, Figures.cmp_swap hf.sound hg.sound]⟩
  obtain ⟨fig, hfig⟩ := figures_of_eligible hfound helig
  set c := fun a b => Figures.cmp objective (fig a) (fig b) with hc
  have hcmp : ∀ a ∈ elig, ∀ b ∈ elig, cmp d objective a b = .ok (c a b) := fun a ha b hb =>
    cmp_eq (hfig a ha) (hfig b hb)
  obtain ⟨order, horder⟩ := sorter.returns c hcmp
  have hranked : ranked d sorter (rows d results) objective cons = .ok order := by
    unfold ranked
    rw [hfound]
    show (eligible d objective cons found).bind _ = _
    rw [helig]
    exact horder
  refine ⟨hswap, order, hranked, sorter.perm horder, fun hcomparable => ?_⟩
  have hweak : WeakOrder c elig := by
    refine (Figures.cmp_weakOrder (fun f hf => ?_) (figures_comparable hfig hcomparable
      (eligible_settles helig))).comap fig
    obtain ⟨r, hr, rfl⟩ := List.mem_map.mp hf
    exact (hfig r hr).sound
  -- the first ranked result of any order of the results is no greater than an eligible one
  have hfirst : ∀ {xs ys : List Dict}, (∀ r, r ∈ elig ↔ r ∈ xs) →
      sorter.sorted (cmp d objective) xs = .ok ys → ∀ w ∈ ys.head?,
        w ∈ elig ∧ ∀ r ∈ elig, c w r ≠ .gt := by
    intro xs ys hsame hys w hw
    have hsub : ∀ y ∈ xs, y ∈ elig := fun y hy => (hsame y).mpr hy
    have hsorted := sorter.ordered c c
      (fun a ha b hb => hcmp a (hsub a ha) b (hsub b hb))
      (hweak.subset hsub).refines (hweak.subset hsub) hys
    have hperm := sorter.perm hys
    cases ys with
    | nil => cases hw
    | cons v rest =>
        cases hw
        have hmem : w ∈ elig := hsub w (hperm.subset List.mem_cons_self)
        refine ⟨hmem, fun r hr => ?_⟩
        rcases List.mem_cons.mp (hperm.symm.subset ((hsame r).mp hr)) with rfl | hr
        · rw [hweak.irrefl hmem]
          decide
        · exact (List.pairwise_cons.mp hsorted).1 r hr
  refine ⟨⟨c, hcmp, hweak⟩, fun w hw => ?_⟩
  obtain ⟨hmem, hle⟩ := hfirst (fun _ => Iff.rfl) horder w hw
  constructor
  · intro r hr hlt
    rw [hcmp r hr w hmem] at hlt
    exact hle r hr ((hweak.lt_iff hr hmem).mp (Except.ok.inj hlt))
  · intro results' hperm order' horder' w' hw'
    obtain ⟨found', hfound', horder'⟩ := bind_eq_ok.mp horder'
    obtain ⟨elig', helig', horder'⟩ := bind_eq_ok.mp horder'
    have hsame : ∀ r, r ∈ elig ↔ r ∈ elig' := fun r =>
      eligible_congr (viable_congr hperm hfound hfound') helig helig'
    obtain ⟨hmem', hle'⟩ := hfirst hsame horder' w' hw'
    rw [hcmp w hmem w' hmem', hweak.eq_of_ne_gt hmem hmem' (hle w' hmem') (hle' w hmem)]

/-- A live result on Base at a price in USDC. -/
def priced (amount : ℕ) : Dict := liveResult [(.base, amount)] 100

theorem priced_readable {amount : ℕ} (hcost : (totalCost .plain (priced amount)).map
      Option.isSome = .ok false) (hsettles : (settlementMs .plain (priced amount)).map
      Option.isSome = .ok true) : Readable .plain (priced amount) := by
  obtain ⟨cost, hcost, -⟩ := map_eq_ok.mp hcost
  obtain ⟨settlement, hsettles, -⟩ := map_eq_ok.mp hsettles
  exact ⟨⟨some 100, rfl⟩, ⟨(0, none), rfl, by simp⟩, ⟨settlement, hsettles⟩, ⟨cost, hcost⟩⟩

/-- Two sellers on Base. -/
def twoPriced : List (Probed .plain) :=
  [⟨priced 1000, priced_readable (by decide +kernel) (by decide +kernel)⟩,
    ⟨priced 2000, priced_readable (by decide +kernel) (by decide +kernel)⟩]

theorem ranking_of_two : ∃ order,
    ranked .plain (insertion _ _) (rows .plain twoPriced) .best .none = .ok order ∧
      ∀ w ∈ order.head?, ∀ r ∈ order, cmp .plain .best r w ≠ .ok .lt := by
  have hlen : (viable .plain (rows .plain twoPriced) .none).map List.length = .ok 2 := by
    decide +kernel
  obtain ⟨found, hfound, -⟩ := map_eq_ok.mp hlen
  have helig : eligible .plain .best .none found = .ok found := rfl
  obtain ⟨-, order, horder, hperm, hfirst⟩ := ranking_is_order hfound helig
  have hmem : ∀ r ∈ found, r = priced 1000 ∨ r = priced 2000 := by
    intro r hr
    have := ((mem_keepIf hfound).mp hr).1
    simpa [rows, twoPriced, Json.asObj?] using this
  have husd : ∀ r ∈ found, ∃ price, bestUsd .plain r .none = .ok (some price) := by
    intro r hr
    have hsome : (bestUsd .plain r .none).map Option.isSome = .ok true := by
      rcases hmem r hr with rfl | rfl <;> decide +kernel
    obtain ⟨v, hv, hsome⟩ := map_eq_ok.mp hsome
    obtain ⟨price, rfl⟩ := Option.isSome_iff_exists.mp hsome
    exact ⟨price, hv⟩
  have hlatency : ∀ r ∈ found, ∃ ms, latencyMs .plain r = .ok (some ms) := by
    intro r hr
    rcases hmem r hr with rfl | rfl <;> exact ⟨100, rfl⟩
  obtain ⟨-, hbest⟩ := hfirst ⟨.inl husd, .inl hlatency⟩
  exact ⟨order, horder, fun w hw r hr => (hbest w hw).1 r (hperm.subset hr)⟩

/-! ## Prices and rates that go round -/

/-- A live result on Base in a token whose price is not known. -/
def inToken : Dict :=
  [("live", .bool true),
    ("envelope", .obj [("x402Version", .int 2), ("accepts", .arr [.obj
      [("scheme", .str "exact"), ("network", .str baseCaip2), ("amount", .str "3000"),
        ("asset", .str "0x60a3e35cc302bfa44cb288bc5a4f316fdb1adb42"),
        ("payTo", .str "0xb18fc2275f36dae99eb215caeff03b431f887d16"),
        ("maxTimeoutSeconds", .int 60)]])]),
    ("latency_ms", .int 100)]

/-- A success rate over five probes. -/
def rated (result : Dict) (success : ℤ) : Dict :=
  ("history", .obj [("n_7d", .int 5), ("success_7d", .int success)]) :: result

/-- The cheaper of two sellers comes first, the dearer one before a token by its success
rate, and the token before the cheaper one, which has none. -/
theorem prices_and_rates_cycle :
    cmp .plain .best (priced 1000) (rated (priced 2000) 1) = .ok .lt ∧
      cmp .plain .best (rated (priced 2000) 1) (rated inToken 0) = .ok .lt ∧
      cmp .plain .best (rated inToken 0) (priced 1000) = .ok .lt ∧
      (viable .plain [.obj (priced 1000), .obj (rated (priced 2000) 1),
        .obj (rated inToken 0)] .none).map List.length = .ok 3 := by
  refine ⟨?_, ?_, ?_, ?_⟩ <;> decide +kernel

end Signal402.Select
