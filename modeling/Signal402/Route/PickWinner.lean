import Signal402.Route.Ranking

/-!
# When a winner is found

`enoughEvidence` ends the probing and `pickWinner` then chooses among the same results.

* `pick_isSome` — a viable result has an option to pay by, unless the objective needs a
  figure that no option has.
* `enough_iff_winner` — when enough evidence is a winner: the viable results compare by
  price, and some of them has an option with a known time to settle.
* `winner_option_passes_iff` — the option of a winner passes every constraint that is
  checked on options, and the settlement bound exactly when its own rail does.
-/

namespace Signal402.Select

open Payment

variable {d : Deps} {objective : Objective} {cons : Constraints} {found : List Dict}

/-! ## The option that is picked -/

/-- Options in the order in which they are taken. -/
theorem mem_inOrder {complete : List PaymentOption} {o : PaymentOption}
    (h : o ∈ inOrder d objective complete) : o ∈ complete := by
  unfold inOrder at h
  dsimp only at h
  split at h
  · exact (List.mem_filter.mp ((List.mem_insertionSort _).mp h)).1
  · split at h
    · exact (List.mem_filter.mp ((List.mem_insertionSort _).mp h)).1
    · exact h

/-- Complete options are not lost by ordering them. -/
theorem inOrder_ne_nil {complete : List PaymentOption} (hne : complete ≠ [])
    (hamount : ∀ o ∈ complete, o.amountAtomic.isSome) : inOrder d objective complete ≠ [] := by
  unfold inOrder
  dsimp only
  have hlen : ∀ {r : PaymentOption → PaymentOption → Prop} [DecidableRel r]
      {xs : List PaymentOption}, xs ≠ [] → xs.insertionSort r ≠ [] := by
    intro r _ xs hxs hnil
    have := List.length_insertionSort r xs
    rw [hnil] at this
    exact hxs (List.eq_nil_of_length_eq_zero this.symm)
  split
  · rename_i husd
    exact hlen (by simpa using husd)
  · split
    · rw [byAmount, List.filter_eq_self.mpr hamount]
      exact hlen hne
    · exact hne

/-- The options within the constraints of a result that passes, and the one picked for an
objective that needs no figure. -/
theorem pick_isSome {r : Dict} (h : Passes d r cons)
    (hobj : objective ≠ .lowestTotalCost ∧ objective ≠ .fastestSettlement) :
    ∃ p, pickSelectedPayment d r objective cons = .ok (some p) := by
  obtain ⟨opts, hopts, hne⟩ := passes_options h
  have hamount : ∀ o ∈ opts.filter (admits cons), o.amountAtomic.isSome := by
    intro o ho
    obtain ⟨_, _, amount, _, _, _, _, _, hamt, _⟩ :=
      complete_fields (options_valid hopts o (List.mem_filter.mp ho).1).complete
    rw [hamt]
    rfl
  have hordered : inOrder d objective (opts.filter (admits cons)) ≠ [] :=
    inOrder_ne_nil hne hamount
  obtain ⟨p, rest, hcons⟩ := List.exists_cons_of_ne_nil hordered
  refine ⟨p, ?_⟩
  unfold pickSelectedPayment
  rw [if_pos h.live, completeOptions_eq hopts]
  cases objective with
  | lowestTotalCost => exact absurd rfl hobj.1
  | fastestSettlement => exact absurd rfl hobj.2
  | best => exact congrArg (fun xs => Except.ok (List.head? xs)) hcons
  | cheapest => exact congrArg (fun xs => Except.ok (List.head? xs)) hcons
  | fastest => exact congrArg (fun xs => Except.ok (List.head? xs)) hcons
  | mostReliable => exact congrArg (fun xs => Except.ok (List.head? xs)) hcons

/-- Membership in the options that have a figure. -/
theorem mem_figured {α : Type} {figure : PaymentOption → Except PyError (Option α)}
    {opts : List PaymentOption} {xs : List (α × PaymentOption)}
    (h : figured figure opts = .ok xs) {x : α × PaymentOption} :
    x ∈ xs ↔ x.2 ∈ opts ∧ figure x.2 = .ok (some x.1) := by
  induction opts generalizing xs with
  | nil =>
      cases h
      simp
  | cons o rest ih =>
      obtain ⟨f, hf, h⟩ := bind_eq_ok.mp h
      obtain ⟨known, hknown, rfl⟩ := map_eq_ok.mp h
      have hiff := ih hknown
      cases f with
      | none =>
          dsimp only
          rw [hiff, List.mem_cons]
          constructor
          · exact fun hx => ⟨.inr hx.1, hx.2⟩
          · rintro ⟨hx | hx, hfig⟩
            · rw [hx, hf] at hfig
              cases hfig
            · exact ⟨hx, hfig⟩
      | some y =>
          dsimp only
          rw [List.mem_cons, hiff, List.mem_cons]
          constructor
          · rintro (rfl | hx)
            · exact ⟨.inl rfl, hf⟩
            · exact ⟨.inr hx.1, hx.2⟩
          · rintro ⟨hx | hx, hfig⟩
            · left
              rw [hx, hf] at hfig
              cases hfig
              exact Prod.ext rfl hx
            · exact .inr ⟨hx, hfig⟩

/-- The first of sorted options is one of them. -/
theorem mem_of_head_insertionSort {α : Type} {r : α × PaymentOption → α × PaymentOption → Prop}
    [DecidableRel r] {xs : List (α × PaymentOption)} {p : PaymentOption}
    (h : (xs.insertionSort r).head?.map Prod.snd = some p) : ∃ x ∈ xs, x.2 = p := by
  obtain ⟨x, hx, rfl⟩ := Option.map_eq_some_iff.mp h
  exact ⟨x, (List.mem_insertionSort r).mp (List.mem_of_head? hx), rfl⟩

/-- A picked option is one of the result, within the constraints. -/
theorem pick_mem {r : Dict} {p : PaymentOption}
    (h : pickSelectedPayment d r objective cons = .ok (some p)) :
    ∃ opts, paymentOptions d r = .ok opts ∧ p ∈ opts ∧ admits cons p = true ∧
      p ∈ inOrder d objective (opts.filter (admits cons)) := by
  unfold pickSelectedPayment at h
  split at h
  case isFalse => cases h
  obtain ⟨complete, hcomplete, h⟩ := bind_eq_ok.mp h
  have hopts : ∃ opts, paymentOptions d r = .ok opts := by
    obtain ⟨opts, hbind, -⟩ := bind_eq_ok.mp hcomplete
    obtain ⟨all, hall, -⟩ := map_eq_ok.mp hbind
    exact ⟨all, hall⟩
  obtain ⟨opts, hopts⟩ := hopts
  rw [completeOptions_eq hopts] at hcomplete
  cases hcomplete
  refine ⟨opts, hopts, ?_⟩
  have hmem : p ∈ inOrder d objective (opts.filter (admits cons)) := by
    cases objective with
    | lowestTotalCost =>
        obtain ⟨priced, hpriced, hhead⟩ := map_eq_ok.mp h
        obtain ⟨x, hx, rfl⟩ := mem_of_head_insertionSort hhead
        exact ((mem_figured hpriced).mp hx).1
    | fastestSettlement =>
        obtain ⟨timed, htimed, hhead⟩ := map_eq_ok.mp h
        obtain ⟨x, hx, rfl⟩ := mem_of_head_insertionSort hhead
        exact ((mem_figured htimed).mp hx).1
    | best => exact List.mem_of_head? (Except.ok.inj h)
    | cheapest => exact List.mem_of_head? (Except.ok.inj h)
    | fastest => exact List.mem_of_head? (Except.ok.inj h)
    | mostReliable => exact List.mem_of_head? (Except.ok.inj h)
  obtain ⟨hp, hadmits⟩ := List.mem_filter.mp (mem_inOrder hmem)
  exact ⟨hp, hadmits, hmem⟩

/-! ## Economics of an option -/

/-- The economics of an option of the result can be read, and are those of its rail. -/
theorem forOption_offer {r : Dict} {opts : List PaymentOption}
    (hopts : paymentOptions d r = .ok opts) {o : PaymentOption} (ho : o ∈ opts)
    {x : Offer} (hrail : x.rail = .ofText (o.rail.map Rail.name))
    (hprice : x.normalizedUsd = .ofFloat? o.normalizedUsd) :
    ∃ eco, forOption d.py d.keccak x r = .ok eco ∧
      eco.settlementOrFinalityMs = o.rail.bind railFinality := by
  obtain ⟨rail, _, _, _, _, hr, _⟩ := complete_fields (options_valid hopts o ho).complete
  have hrailOf : railOf d.py x r = .ok (some rail) := by
    unfold railOf
    rw [hrail, hr]
    show (Except.ok (Rail.ofName rail.name)).bind _ = _
    rw [Rail.ofName_name]
    rfl
  have hmerchant : ∃ m, merchantPrice d.py d.keccak x r = .ok m := by
    unfold merchantPrice
    rw [hprice]
    cases o.normalizedUsd with
    | none =>
        rw [show paymentOptionsFromResult d.py d.keccak r = .ok opts from hopts]
        exact ⟨_, rfl⟩
    | some f => exact ⟨_, rfl⟩
  obtain ⟨m, hm⟩ := hmerchant
  unfold forOption
  rw [hrailOf, hm, hr]
  exact ⟨_, rfl, rfl⟩

/-- The time of a selected payment is the finality of its rail. -/
theorem settlement_of_selected {r : Dict} {opts : List PaymentOption}
    (hopts : paymentOptions d r = .ok opts) {o : PaymentOption} (ho : o ∈ opts) :
    settlementOrFinalityMs d.py d.keccak r (.obj (selectedPaymentFields o)) =
      .ok (o.rail.bind railFinality) := by
  obtain ⟨eco, heco, htime⟩ := forOption_offer hopts ho (x := .ofDict (selectedPaymentFields o))
    rfl rfl
  unfold settlementOrFinalityMs forResult offerOf
  show ((forOption d.py d.keccak (.ofDict (selectedPaymentFields o)) r).map _) = _
  rw [heco, ← htime]
  rfl

/-! ## The option of the winner -/

/-- The fields of a valid option are complete. -/
theorem selectedPaymentIsComplete_fields {o : PaymentOption} {env : Dict}
    (h : o.Valid d.py d.keccak env) :
    selectedPaymentIsComplete d (.obj (selectedPaymentFields o)) = .ok true := by
  obtain ⟨rail, network, amount, asset, payTo, hr, hn, hof, hamt, hasset, hpay⟩ :=
    complete_fields h.complete
  have htruthy : ∀ {s : Option PyStr} {t : PyStr}, Signal402.text s = some t →
      (Json.ofText s).truthy = true := by
    intro s t hs
    cases s with
    | none => cases hs
    | some u =>
        cases u with
        | nil => cases hs
        | cons c rest => rfl
  have hnet : (Json.ofText (some network)).truthy = true := by
    cases network with
    | nil =>
        exact absurd hof (by simp [railOfNetwork, norm, PyStr.strip, Interp.uni, PyStr.isAscii])
    | cons c rest => rfl
  have hnorm : d.py.strOrEmpty (Json.ofText (some network)) = network := by
    unfold Interp.strOrEmpty
    rw [if_pos hnet]
    rfl
  unfold selectedPaymentIsComplete
  show (supportedRail (.ofText (o.rail.map Rail.name))).map _ = _
  rw [hr]
  show (Except.ok (Rail.ofName rail.name)).map _ = _
  rw [Rail.ofName_name]
  show Except.ok ((Json.ofText o.network).truthy &&
    railOfNetwork d.py.uni (d.py.strOrEmpty (Json.ofText o.network)) == some rail &&
    !(Json.ofInt? o.amountAtomic).isNull && (Json.ofText o.asset).truthy &&
    (Json.ofText o.payTo).truthy) = _
  rw [hn, hamt]
  simp only [hnet, hnorm, hof, htruthy hasset, htruthy hpay, beq_self_eq_true, Json.ofInt?,
    Json.isNull, Bool.not_false, Bool.and_self]

theorem notAbove_unknown {bound : Option PyFloat} {value : Except PyError (Option PyFloat)}
    (hvalue : ∀ c, value = .ok c → c = none) (h : notAbove bound value = .ok true) :
    bound = none := by
  cases bound with
  | none => rfl
  | some m =>
      obtain ⟨c, hc, hany⟩ := map_eq_ok.mp h
      rw [hvalue c hc] at hany
      cases hany

/-- An option within the constraints of a result that passes meets every constraint on
options, but for the settlement bound, which it meets when its own rail does. -/
theorem option_passes_iff {r : Dict} {opts : List PaymentOption} {p : PaymentOption}
    (hpass : Passes d r cons) (hopts : paymentOptions d r = .ok opts)
    (hp : p ∈ opts) (hadmits : admits cons p = true) :
    selectedPaymentPassesConstraints d r (.obj (selectedPaymentFields p)) cons = .ok true ↔
      ∀ m, cons.maxSettlementLatencyMs = some m →
        ∃ t, p.rail.bind railFinality = some t ∧ t ≤ m := by
  have hvalid := options_valid hopts p hp
  have hcost : cons.maxTotalCostUsd = none :=
    notAbove_unknown (fun c hc => totalCostUsd_eq_none _ _ hc) hpass.cost
  have hwithin : within cons.maxSettlementLatencyMs
        (settlementOrFinalityMs d.py d.keccak r (.obj (selectedPaymentFields p))) = .ok true ↔
      ∀ m, cons.maxSettlementLatencyMs = some m →
        ∃ t, p.rail.bind railFinality = some t ∧ t ≤ m := by
    rw [settlement_of_selected hopts hp]
    cases cons.maxSettlementLatencyMs with
    | none => simp [within]
    | some m =>
        simp only [within, Except.map, Except.ok.injEq, Option.any_eq_true, decide_eq_true_eq,
          Option.some.injEq, forall_eq']
  rw [selectedPasses_iff, ← hwithin]
  constructor
  · exact fun h => h.settlement
  · intro h
    refine ⟨selectedPaymentIsComplete_fields hvalid, hpass.measured, ?_, ?_, h, hpass.common⟩
    · exact ⟨_, completeOptions_eq hopts, p, List.mem_filter.mpr ⟨hp, hadmits⟩,
        sameFields_self hvalid⟩
    · rw [hcost]
      rfl

variable {sorter : CmpSort.Sorter Dict PyError}

theorem firstPayable_some {xs : List Dict} {w : Dict}
    (h : firstPayable d objective cons xs = .ok (some w)) :
    w ∈ xs ∧ ∃ p, pickSelectedPayment d w objective cons = .ok (some p) := by
  induction xs with
  | nil => cases h
  | cons r rest ih =>
      obtain ⟨picked, hpicked, h⟩ := bind_eq_ok.mp h
      cases picked with
      | none =>
          obtain ⟨hw, hp⟩ := ih h
          exact ⟨List.mem_cons_of_mem r hw, hp⟩
      | some p =>
          cases h
          exact ⟨List.mem_cons_self, p, hpicked⟩

/-- A winner is viable, and an option of it is picked. -/
theorem pickWinner_spec {results : List Json} {w : Dict}
    (h : pickWinner d sorter results objective cons = .ok (some w)) :
    isViable d cons w = .ok true ∧
      ∃ p, pickSelectedPayment d w objective cons = .ok (some p) := by
  obtain ⟨order, horder, hfirst⟩ := bind_eq_ok.mp h
  obtain ⟨found, hfound, horder⟩ := bind_eq_ok.mp horder
  obtain ⟨elig, helig, hsorted⟩ := bind_eq_ok.mp horder
  obtain ⟨hw, hp⟩ := firstPayable_some hfirst
  have hmem := eligible_subset helig ((sorter.perm hsorted).subset hw)
  exact ⟨((mem_keepIf hfound).mp hmem).2, hp⟩

/-- The option of a winner meets the networks, the amount, the price and the total cost;
it meets every constraint exactly when its own rail meets the settlement bound. -/
theorem winner_option_passes_iff {results : List Json} {w : Dict}
    (h : pickWinner d sorter results objective cons = .ok (some w)) :
    ∃ p, pickSelectedPayment d w objective cons = .ok (some p) ∧
      admits cons p = true ∧ cons.maxTotalCostUsd = none ∧
      (selectedPaymentPassesConstraints d w (.obj (selectedPaymentFields p)) cons = .ok true ↔
        ∀ m, cons.maxSettlementLatencyMs = some m →
          ∃ t, p.rail.bind railFinality = some t ∧ t ≤ m) := by
  obtain ⟨hviable, p, hpick⟩ := pickWinner_spec h
  obtain ⟨hpass, -⟩ := both_eq_true.mp hviable
  obtain ⟨opts, hopts, hp, hadmits, -⟩ := pick_mem hpick
  have hpass := passes_iff.mp hpass
  have hcost : cons.maxTotalCostUsd = none :=
    notAbove_unknown (fun c hc => totalCostUsd_eq_none _ _ hc) hpass.cost
  exact ⟨p, hpick, hadmits, hcost, option_passes_iff hpass hopts hp hadmits⟩

/-- A winner is one of the results. -/
theorem pickWinner_mem {results : List Json} {w : Dict}
    (h : pickWinner d sorter results objective cons = .ok (some w)) : Json.obj w ∈ results := by
  obtain ⟨order, horder, hfirst⟩ := bind_eq_ok.mp h
  obtain ⟨found, hfound, horder⟩ := bind_eq_ok.mp horder
  obtain ⟨elig, helig, hsorted⟩ := bind_eq_ok.mp horder
  obtain ⟨hw, -⟩ := firstPayable_some hfirst
  have hmem := eligible_subset helig ((sorter.perm hsorted).subset hw)
  obtain ⟨x, hx, hobj⟩ := List.mem_filterMap.mp ((mem_keepIf hfound).mp hmem).1
  cases x with
  | obj fields =>
      cases hobj
      exact hx
  | _ => cases hobj

/-- A seller that settles on Base in time and is cheapest on Algorand, which is slower. -/
def twoRails : Dict := liveResult [(.base, 3000), (.algorand, 2000)] 100

/-- A bound that Base meets and Algorand does not. -/
def settleSoon : Constraints := { Constraints.none with maxSettlementLatencyMs := some 2500 }

/-- The seller wins. -/
theorem twoRails_wins :
    pickWinner .plain (CmpSort.insertion _ _) [.obj twoRails] .best settleSoon =
      .ok (some twoRails) := by
  have hsome : (pickWinner .plain (CmpSort.insertion _ _) [.obj twoRails] .best settleSoon).map
      Option.isSome = .ok true := by decide +kernel
  obtain ⟨found, hfound, hfsome⟩ := map_eq_ok.mp hsome
  obtain ⟨w, rfl⟩ := Option.isSome_iff_exists.mp hfsome
  have hw : w = twoRails := by
    have := List.mem_singleton.mp (pickWinner_mem hfound)
    exact Json.obj.inj this
  rw [hfound, hw]

theorem winner_option_of_twoRails : ∃ p,
    pickSelectedPayment .plain twoRails .best settleSoon = .ok (some p) ∧
      admits settleSoon p = true ∧
      (selectedPaymentPassesConstraints .plain twoRails (.obj (selectedPaymentFields p))
          settleSoon = .ok true ↔
        ∀ m, settleSoon.maxSettlementLatencyMs = some m →
          ∃ t, p.rail.bind railFinality = some t ∧ t ≤ m) := by
  obtain ⟨p, hpick, hadmits, -, hiff⟩ := winner_option_passes_iff twoRails_wins
  exact ⟨p, hpick, hadmits, hiff⟩

/-- It is paid on Algorand, and the option does not pass. -/
theorem winner_option_fails :
    ∃ w p, pickWinner .plain (CmpSort.insertion _ _) [.obj twoRails] .best settleSoon =
        .ok (some w) ∧ pickSelectedPayment .plain w .best settleSoon = .ok (some p) ∧
      selectedPaymentPassesConstraints .plain w (.obj (selectedPaymentFields p)) settleSoon ≠
        .ok true := by
  obtain ⟨hviable, p, hpick⟩ := pickWinner_spec twoRails_wins
  have hrail : (pickSelectedPayment .plain twoRails .best settleSoon).map
      (Option.map PaymentOption.rail) = .ok (some (some .algorand)) := by decide +kernel
  rw [hpick] at hrail
  have hrail : p.rail = some .algorand := Option.some.inj (Except.ok.inj hrail)
  refine ⟨twoRails, p, twoRails_wins, hpick, fun hpass => ?_⟩
  obtain ⟨opts, hopts, hp, hadmits, -⟩ := pick_mem hpick
  have hiff := option_passes_iff (passes_iff.mp (both_eq_true.mp hviable).1) hopts hp hadmits
  obtain ⟨t, ht, hle⟩ := hiff.mp hpass 2500 rfl
  rw [hrail] at ht
  cases ht
  exact absurd hle (by decide)

/-! ## Enough evidence -/

/-- The ranking of viable results raises nothing. -/
theorem cmp_returns {a b : Dict} (ha : Readable d a ∧ Passes d a cons)
    (hb : Readable d b ∧ Passes d b cons) : ∃ o, cmp d objective a b = .ok o := by
  obtain ⟨f, hf⟩ := figures_of_passes ha.1 ha.2
  obtain ⟨g, hg⟩ := figures_of_passes hb.1 hb.2
  exact ⟨_, cmp_eq hf hg⟩

/-- Viable results are ranked. -/
theorem sorted_returns {elig : List Dict}
    (h : ∀ r ∈ elig, Readable d r ∧ Passes d r cons) :
    ∃ order, sorter.sorted (cmp d objective) elig = .ok order := by
  have hcmp : ∀ a ∈ elig, ∀ b ∈ elig, cmp d objective a b =
      .ok ((cmp d objective a b).toOption.getD .eq) := by
    intro a ha b hb
    obtain ⟨o, ho⟩ : ∃ o, cmp d objective a b = .ok o := cmp_returns (h a ha) (h b hb)
    rw [ho]
    rfl
  exact sorter.returns _ hcmp

/-- The pick of a result that passes can be read, whatever the objective. -/
theorem pick_returns {r : Dict} (h : Passes d r cons) :
    ∃ picked, pickSelectedPayment d r objective cons = .ok picked := by
  obtain ⟨opts, hopts, -⟩ := passes_options h
  have hfigured : ∀ {α : Type} (figure : Economics → Option α) (xs : List PaymentOption),
      (∀ o ∈ xs, o ∈ opts) → ∃ ys, figured (economicsOf d figure r) xs = .ok ys := by
    intro α figure xs
    induction xs with
    | nil => exact fun _ => ⟨[], rfl⟩
    | cons o rest ih =>
        intro hsub
        obtain ⟨ys, hys⟩ := ih fun p hp => hsub p (List.mem_cons_of_mem o hp)
        obtain ⟨eco, heco, -⟩ := forOption_offer hopts (hsub o List.mem_cons_self)
          (x := o.offer) rfl rfl
        unfold figured
        rw [economicsOf, heco, hys]
        exact ⟨_, rfl⟩
  have hsub : ∀ o ∈ inOrder d objective (opts.filter (admits cons)), o ∈ opts := fun o ho =>
    (List.mem_filter.mp (mem_inOrder ho)).1
  unfold pickSelectedPayment
  rw [if_pos h.live, completeOptions_eq hopts]
  cases objective with
  | lowestTotalCost =>
      obtain ⟨ys, hys⟩ := hfigured Economics.totalCostUsd _ hsub
      exact ⟨_, by dsimp only [Except.bind]; rw [hys]; rfl⟩
  | fastestSettlement =>
      obtain ⟨ys, hys⟩ := hfigured Economics.settlementOrFinalityMs _ hsub
      exact ⟨_, by dsimp only [Except.bind]; rw [hys]; rfl⟩
  | best => exact ⟨_, rfl⟩
  | cheapest => exact ⟨_, rfl⟩
  | fastest => exact ⟨_, rfl⟩
  | mostReliable => exact ⟨_, rfl⟩

/-- A winner is found when some eligible result has an option to pay by. -/
theorem firstPayable_isSome {xs : List Dict} (h : ∀ r ∈ xs, Passes d r cons) :
    (∃ w, firstPayable d objective cons xs = .ok (some w)) ↔
      ∃ r ∈ xs, ∃ p, pickSelectedPayment d r objective cons = .ok (some p) := by
  induction xs with
  | nil =>
      constructor
      · rintro ⟨w, hw⟩
        cases hw
      · rintro ⟨r, hr, -⟩
        exact absurd hr List.not_mem_nil
  | cons r rest ih =>
      have hiff := ih fun x hx => h x (List.mem_cons_of_mem r hx)
      obtain ⟨picked, hpicked⟩ : ∃ picked, pickSelectedPayment d r objective cons = .ok picked :=
        pick_returns (h r List.mem_cons_self)
      rw [firstPayable, hpicked]
      cases picked with
      | some p =>
          exact ⟨fun _ => ⟨r, List.mem_cons_self, p, hpicked⟩, fun _ => ⟨r, rfl⟩⟩
      | none =>
          show (∃ w, firstPayable d objective cons rest = .ok (some w)) ↔ _
          rw [hiff]
          constructor
          · rintro ⟨x, hx, hp⟩
            exact ⟨x, List.mem_cons_of_mem r hx, hp⟩
          · rintro ⟨x, hx, p, hp⟩
            rcases List.mem_cons.mp hx with rfl | hx
            · rw [hpicked] at hp
              cases hp
            · exact ⟨x, hx, p, hp⟩

variable {results : List (Probed d)}

/-- A winner of probed results is found when some eligible one has an option. -/
theorem pickWinner_isSome {elig : List Dict} (hfound : viable d (rows d results) cons = .ok found)
    (helig : eligible d objective cons found = .ok elig) :
    (∃ w, pickWinner d sorter (rows d results) objective cons = .ok (some w)) ↔
      ∃ r ∈ elig, ∃ p, pickSelectedPayment d r objective cons = .ok (some p) := by
  have hviable : ∀ r ∈ elig, Readable d r ∧ Passes d r cons := fun r hr =>
    ⟨(mem_viable hfound (eligible_subset helig hr)).1,
      (mem_viable hfound (eligible_subset helig hr)).2.1⟩
  obtain ⟨order, horder⟩ : ∃ order, sorter.sorted (cmp d objective) elig = .ok order :=
    sorted_returns hviable
  have hperm := sorter.perm horder
  unfold pickWinner ranked
  rw [hfound]
  show (∃ w, ((((eligible d objective cons found).bind _).bind _ : Except PyError _)) = _) ↔ _
  rw [helig]
  show (∃ w, (((sorter.sorted (cmp d objective) elig).bind _ : Except PyError _)) = _) ↔ _
  rw [horder]
  show (∃ w, firstPayable d objective cons order = .ok (some w)) ↔ _
  rw [firstPayable_isSome fun r hr => (hviable r (hperm.subset hr)).2]
  constructor
  · rintro ⟨r, hr, hp⟩
    exact ⟨r, hperm.subset hr, hp⟩
  · rintro ⟨r, hr, hp⟩
    exact ⟨r, hperm.symm.subset hr, hp⟩

/-- Some result has a price in dollars, or all that have a price have it in one asset. -/
def ComparesByPrice (d : Deps) (cons : Constraints) (found : List Dict) : Prop :=
  (∃ r ∈ found, ∃ price, pricedResult d cons r = .ok (some (.usd price))) ∨
    ∀ r ∈ found, ∀ s ∈ found, ∀ m n k l,
      pricedResult d cons r = .ok (some (.atomic m k)) →
        pricedResult d cons s = .ok (some (.atomic n l)) → k = l

/-- Some result with a known time to settle has an option within the constraints, one
with a price in dollars if there is one, whose own time to settle is known. -/
def SettlesByOption (d : Deps) (cons : Constraints) (found : List Dict) : Prop :=
  ∃ r ∈ found, (∃ t, settlementMs d r = .ok (some t)) ∧
    ∃ opts, completeOptionsForConstraints d r cons = .ok opts ∧
      ∃ o ∈ opts, (o.normalizedUsd.isSome ∨ ∀ p ∈ opts, p.normalizedUsd = none) ∧
        (o.rail.bind railFinality).isSome

/-- What the viable results have to offer for an objective. -/
def Decides (d : Deps) (objective : Objective) (cons : Constraints) (found : List Dict) :
    Prop :=
  match objective with
  | .cheapest => ComparesByPrice d cons found
  | .fastestSettlement => SettlesByOption d cons found
  | .best | .fastest | .mostReliable | .lowestTotalCost => True

theorem comparesByPrice_iff {priced : List (Dict × Priced)}
    (h : pricedResults d cons found = .ok priced) :
    ComparesByPrice d cons found ↔
      (∃ x ∈ priced, x.2.key? = none) ∨ ∀ x ∈ priced, ∀ y ∈ priced, x.2.key? = y.2.key? := by
  have husd : ∀ p : Priced, p.key? = none ↔ ∃ price, p = .usd price := by
    intro p
    cases p with
    | usd price => exact ⟨fun _ => ⟨price, rfl⟩, fun _ => rfl⟩
    | atomic n k =>
        constructor
        · intro hnone
          cases hnone
        · rintro ⟨price, hp⟩
          cases hp
  constructor
  · rintro (⟨r, hr, price, hprice⟩ | hall)
    · exact .inl ⟨(r, .usd price), (pricedResults_mem h).mpr ⟨hr, hprice⟩, rfl⟩
    · by_cases hsome : ∃ x ∈ priced, x.2.key? = none
      · exact .inl hsome
      · refine .inr fun x hx y hy => ?_
        obtain ⟨hxr, hxp⟩ := (pricedResults_mem h).mp hx
        obtain ⟨hyr, hyp⟩ := (pricedResults_mem h).mp hy
        cases hxa : x.2 with
        | usd price => exact absurd ⟨x, hx, by rw [hxa]; rfl⟩ hsome
        | atomic m k =>
            cases hya : y.2 with
            | usd price => exact absurd ⟨y, hy, by rw [hya]; rfl⟩ hsome
            | atomic n l =>
                rw [hxa] at hxp
                rw [hya] at hyp
                exact congrArg some (hall x.1 hxr y.1 hyr m n k l hxp hyp)
  · rintro (⟨x, hx, hnone⟩ | hall)
    · obtain ⟨price, hprice⟩ := (husd x.2).mp hnone
      obtain ⟨hr, hp⟩ := (pricedResults_mem h).mp hx
      rw [hprice] at hp
      exact .inl ⟨x.1, hr, price, hp⟩
    · refine .inr fun r hr s hs m n k l hk hl => ?_
      exact Option.some.inj (hall (r, .atomic m k) ((pricedResults_mem h).mpr ⟨hr, hk⟩)
        (s, .atomic n l) ((pricedResults_mem h).mpr ⟨hs, hl⟩))

/-- The time to settle of an option of a result. -/
theorem settlementOf_option {r : Dict} {opts : List PaymentOption}
    (hopts : paymentOptions d r = .ok opts) {o : PaymentOption} (ho : o ∈ opts) :
    economicsOf d Economics.settlementOrFinalityMs r o = .ok (o.rail.bind railFinality) := by
  obtain ⟨eco, heco, htime⟩ := forOption_offer hopts ho (x := o.offer) rfl rfl
  rw [economicsOf, heco, ← htime]
  rfl

/-- The options that are ordered when no price but a time counts: those with a price if
there is one. -/
theorem mem_inOrder_settlement {kept : List PaymentOption} {o : PaymentOption} :
    o ∈ inOrder d .fastestSettlement kept ↔
      o ∈ kept ∧ (o.normalizedUsd.isSome ∨ ∀ p ∈ kept, p.normalizedUsd = none) := by
  unfold inOrder
  dsimp only
  split
  · rename_i husd
    obtain ⟨q, hq⟩ := List.exists_mem_of_ne_nil (kept.filter (·.normalizedUsd.isSome))
      (by simpa using husd)
    obtain ⟨hqmem, hqsome⟩ := List.mem_filter.mp hq
    rw [byUsd, List.mem_insertionSort, List.mem_filter]
    refine and_congr_right fun _ => ⟨Or.inl, ?_⟩
    rintro (hsome | hall)
    · exact hsome
    · rw [hall q hqmem] at hqsome
      cases hqsome
  · rename_i husd
    rw [if_neg (by simp)]
    refine ⟨fun ho => ⟨ho, .inr fun p hp => ?_⟩, fun ho => ho.1⟩
    have hnil : kept.filter (·.normalizedUsd.isSome) = [] := by simpa using husd
    exact Option.not_isSome_iff_eq_none.mp (List.filter_eq_nil_iff.mp hnil p hp)

/-- The pick by time to settle takes the first of the options that have a time. -/
theorem pick_settlement_eq {r : Dict} (h : Passes d r cons) :
    ∃ (opts : List PaymentOption) (timed : List (ℤ × PaymentOption)),
      paymentOptions d r = .ok opts ∧
      (∀ x : ℤ × PaymentOption, x ∈ timed ↔ (x.2 ∈ opts.filter (admits cons) ∧
        (x.2.normalizedUsd.isSome ∨
          ∀ p ∈ opts.filter (admits cons), p.normalizedUsd = none)) ∧
        economicsOf d Economics.settlementOrFinalityMs r x.2 = .ok (some x.1)) ∧
      pickSelectedPayment d r .fastestSettlement cons =
        .ok ((timed.insertionSort fun a b => a.1 ≤ b.1).head?.map Prod.snd) := by
  obtain ⟨opts, hopts, -⟩ := passes_options h
  obtain ⟨picked, hpicked⟩ : ∃ picked,
      pickSelectedPayment d r .fastestSettlement cons = .ok picked := pick_returns h
  have hunfold := hpicked
  unfold pickSelectedPayment at hunfold
  rw [if_pos h.live, completeOptions_eq hopts] at hunfold
  obtain ⟨timed, htimed, hhead⟩ := map_eq_ok.mp hunfold
  refine ⟨opts, timed, hopts, fun x => ?_, hpicked.trans (congrArg Except.ok hhead.symm)⟩
  rw [mem_figured htimed, mem_inOrder_settlement]

/-- The pick by time to settle finds an option when one has a time. -/
theorem pick_settlement_isSome {r : Dict} (h : Passes d r cons) :
    (∃ p, pickSelectedPayment d r .fastestSettlement cons = .ok (some p)) ↔
      ∃ opts, completeOptionsForConstraints d r cons = .ok opts ∧
        ∃ o ∈ opts, (o.normalizedUsd.isSome ∨ ∀ p ∈ opts, p.normalizedUsd = none) ∧
          (o.rail.bind railFinality).isSome := by
  obtain ⟨opts, timed, hopts, hmem, hpick⟩ := pick_settlement_eq h
  have hcomplete : completeOptionsForConstraints d r cons = .ok (opts.filter (admits cons)) :=
    completeOptions_eq hopts
  have hfigure : ∀ o ∈ opts.filter (admits cons),
      economicsOf d Economics.settlementOrFinalityMs r o = .ok (o.rail.bind railFinality) :=
    fun o ho => settlementOf_option hopts (List.mem_filter.mp ho).1
  rw [hpick]
  constructor
  · rintro ⟨p, hp⟩
    obtain ⟨x, hx, rfl⟩ := mem_of_head_insertionSort (Except.ok.inj hp)
    obtain ⟨⟨hk, husd⟩, hfig⟩ := (hmem x).mp hx
    rw [hfigure x.2 hk] at hfig
    refine ⟨_, hcomplete, x.2, hk, husd, ?_⟩
    rw [Except.ok.inj hfig]
    rfl
  · rintro ⟨opts', hopts', o, ho, husd, hsome⟩
    rw [hcomplete] at hopts'
    cases hopts'
    obtain ⟨t, ht⟩ := Option.isSome_iff_exists.mp hsome
    have htimed : (t, o) ∈ timed := (hmem (t, o)).mpr ⟨⟨ho, husd⟩, (hfigure o ho).trans (by rw [ht])⟩
    cases hhead : (timed.insertionSort fun a b => a.1 ≤ b.1).head? with
    | some x => exact ⟨x.2, rfl⟩
    | none =>
        have hnil := List.head?_eq_none_iff.mp hhead
        have hlen := List.length_insertionSort
          (fun a b : ℤ × PaymentOption => a.1 ≤ b.1) timed
        rw [hnil] at hlen
        exact absurd (List.eq_nil_of_length_eq_zero hlen.symm) (List.ne_nil_of_mem htimed)

theorem stableOr_subset {r : Dict} (h : r ∈ stableOr found) : r ∈ found := by
  unfold stableOr at h
  dsimp only at h
  split at h
  · exact h
  · exact (List.mem_filter.mp h).1

/-- Enough evidence is a winner: exactly when the viable results have something to offer
for the objective. -/
theorem enough_iff_winner :
    (enoughEvidence d (rows d results) objective cons = .ok true →
        ∃ w, pickWinner d sorter (rows d results) objective cons = .ok (some w)) ↔
      (enoughEvidence d (rows d results) objective cons = .ok true →
        ∀ found, viable d (rows d results) cons = .ok found →
          Decides d objective cons found) := by
  refine forall_congr' fun henough => ?_
  obtain ⟨found, hfound, henough⟩ := bind_eq_ok.mp henough
  split at henough
  · cases henough
  rename_i hne
  have hne : found ≠ [] := by simpa using hne
  have hforall : (∀ xs, viable d (rows d results) cons = .ok xs → Decides d objective cons xs) ↔
      Decides d objective cons found := by
    rw [hfound]
    exact ⟨fun h => h found rfl, fun h xs hxs => by cases hxs; exact h⟩
  rw [hforall]
  obtain ⟨r₀, hr₀⟩ := List.exists_mem_of_ne_nil _ hne
  have hpasses : ∀ r ∈ found, Passes d r cons := fun r hr => (mem_viable hfound hr).2.1
  cases objective with
  | best =>
      rw [pickWinner_isSome hfound rfl]
      exact iff_of_true ⟨r₀, hr₀, pick_isSome (hpasses r₀ hr₀) (by simp)⟩ trivial
  | fastest =>
      rw [pickWinner_isSome hfound rfl]
      exact iff_of_true ⟨r₀, hr₀, pick_isSome (hpasses r₀ hr₀) (by simp)⟩ trivial
  | mostReliable =>
      rw [pickWinner_isSome hfound rfl]
      exact iff_of_true ⟨r₀, hr₀, pick_isSome (hpasses r₀ hr₀) (by simp)⟩ trivial
  | lowestTotalCost =>
      -- no total cost is known, so there is never enough evidence
      obtain ⟨r, -, hknown⟩ := anyOf_eq_true henough
      obtain ⟨cost, hcost, hsome⟩ := map_eq_ok.mp hknown
      rw [totalCostUsd_eq_none _ _ hcost] at hsome
      cases hsome
  | cheapest =>
      obtain ⟨pool, hpool, hsome⟩ := map_eq_ok.mp henough
      obtain ⟨pricedPool, hpricedPool, rfl⟩ := map_eq_ok.mp hpool
      have hpriced : ∃ priced, pricedResults d cons found = .ok priced := by
        refine pricedResults_returns fun r hr => ?_
        obtain ⟨opts, hopts⟩ := compared_returns (hpasses r hr) cons
        exact ⟨_, by rw [pricedResult, hopts]; rfl⟩
      obtain ⟨priced, hpriced⟩ := hpriced
      have hpne : priced ≠ [] := by
        have hcne : comparable pricedPool ≠ [] := by simpa using hsome
        obtain ⟨x, hx⟩ := List.exists_mem_of_ne_nil _ (comparable_ne_nil.mp hcne).1
        obtain ⟨hmem, hp⟩ := (pricedResults_mem hpricedPool).mp hx
        exact List.ne_nil_of_mem
          ((pricedResults_mem hpriced).mpr ⟨stableOr_subset hmem, hp⟩)
      have helig : eligible d .cheapest cons found = .ok (comparable priced) := by
        show (pricedResults d cons found).map comparable = _
        rw [hpriced]
        rfl
      rw [pickWinner_isSome hfound helig]
      show _ ↔ ComparesByPrice d cons found
      rw [comparesByPrice_iff hpriced]
      constructor
      · rintro ⟨r, hr, -⟩
        exact (comparable_ne_nil.mp (List.ne_nil_of_mem hr)).2
      · intro h
        obtain ⟨r, hr⟩ := List.exists_mem_of_ne_nil _ (comparable_ne_nil.mpr ⟨hpne, h⟩)
        exact ⟨r, hr, pick_isSome (hpasses r (eligible_subset helig hr)) (by simp)⟩
  | fastestSettlement =>
      have hknown : ∀ r ∈ found, ∃ b, known (settlementMs d) r = .ok b := by
        intro r hr
        obtain ⟨v, hv⟩ := (mem_viable hfound hr).1.settlement
        exact ⟨v.isSome, by rw [known, hv]; rfl⟩
      obtain ⟨elig, helig⟩ := keepIf_returns hknown
      rw [pickWinner_isSome hfound (show eligible d .fastestSettlement cons found = _ from helig)]
      show _ ↔ SettlesByOption d cons found
      have hmem : ∀ r, r ∈ elig ↔ r ∈ found ∧ ∃ t, settlementMs d r = .ok (some t) := by
        intro r
        rw [mem_keepIf helig, known_eq_true]
      constructor
      · rintro ⟨r, hr, hp⟩
        obtain ⟨hrf, ht⟩ := (hmem r).mp hr
        exact ⟨r, hrf, ht, (pick_settlement_isSome (hpasses r hrf)).mp hp⟩
      · rintro ⟨r, hrf, ht, hp⟩
        exact ⟨r, (hmem r).mpr ⟨hrf, ht⟩, (pick_settlement_isSome (hpasses r hrf)).mpr hp⟩

/-- A seller on Algorand and Solana, and a lock to Solana, whose time to settle is not
known: the time of the first option is enough evidence, and no option is picked. -/
theorem enough_without_winner :
    ¬(enoughEvidence .plain [.obj (liveResult [(.algorand, 3000), (.solana, 3000)] 100)]
          .fastestSettlement { Constraints.none with rails := some [.solana] } = .ok true →
        ∃ w, pickWinner .plain (CmpSort.insertion _ _)
          [.obj (liveResult [(.algorand, 3000), (.solana, 3000)] 100)]
          .fastestSettlement { Constraints.none with rails := some [.solana] } =
            .ok (some w)) := by
  intro h
  obtain ⟨w, hw⟩ := h (by decide +kernel)
  have hnone : (pickWinner .plain (CmpSort.insertion _ _)
      [.obj (liveResult [(.algorand, 3000), (.solana, 3000)] 100)]
      .fastestSettlement { Constraints.none with rails := some [.solana] }).map
      Option.isSome = .ok false := by decide +kernel
  rw [hw] at hnone
  cases hnone

end Signal402.Select
