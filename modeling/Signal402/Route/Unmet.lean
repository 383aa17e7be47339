import Signal402.Route.Options

/-!
# The bounds a candidate misses (`unmet_constraint_names`)

A request that no candidate passes is answered with the names of the bounds that were
missed.  `unmetConstraintNames` goes through the constraints a second time, on its own:
the bounds on amount and price apply there also under a lock on networks, and no bound
ends the list early.
-/

namespace Signal402.Select

open Payment

/-- The names that lists of names come to; any of the lists may raise. -/
def allNames (parts : List (Except PyError (List PyStr))) : Except PyError (List PyStr) :=
  parts.foldr (fun part rest => part.bind fun names => rest.map (names ++ ·)) (.ok [])

/-- The name of a bound, unless it is met. -/
def nameUnless (name : PyStr) (met : Except PyError Bool) : Except PyError (List PyStr) :=
  met.map fun b => if b then [] else [name]

section Names

variable (d : Deps)

/-- The lock on networks, when no complete option is left. -/
def unmetNetworks (result : Dict) (cons : Constraints) : Except PyError (List PyStr) :=
  if cons.rails.isSome then
    nameUnless "networks"
      ((completeOptionsForConstraints d result cons).map fun opts => !opts.isEmpty)
  else .ok []

/-- The bounds on price and amount, when no option is left. -/
def unmetPrices (result : Dict) (cons : Constraints) : Except PyError (List PyStr) :=
  if cons.maxAmountAtomic.isSome ∨ cons.maxPriceUsd.isSome then
    (optionsForConstraints d result cons).map fun opts =>
      if opts.isEmpty then
        (if cons.maxPriceUsd.isSome then ["max_price_usd"] else []) ++
          (if cons.maxAmountAtomic.isSome then ["max_amount_atomic"] else [])
      else []
  else .ok []

/-- `unmet_constraint_names`. -/
def unmetConstraintNames (result : Dict) (cons : Constraints) :
    Except PyError (List PyStr) :=
  if (result.get "live").truthy then
    allNames
      [unmetNetworks d result cons,
        unmetPrices d result cons,
        nameUnless "max_probe_latency_ms"
          (within (cons.maxProbeLatencyMs.or cons.maxLatencyMs) (latencyMs d result)),
        nameUnless "max_service_latency_ms"
          (within cons.maxServiceLatencyMs (serviceLatencyMs d result)),
        nameUnless "min_observations" (atLeast cons.minObservations (observationCount d result)),
        nameUnless "min_observed_success"
          (notBelow cons.minObservedSuccess (observedSuccessOf d result)),
        nameUnless "min_reputation_score" (notBelow cons.minReputationScore (scoreOf d result)),
        nameUnless "min_reputation_confidence"
          (notBelow cons.minReputationConfidence (confidenceOf d result)),
        nameUnless "max_settlement_latency_ms"
          (within cons.maxSettlementLatencyMs (settlementOrFinalityMs d.py d.keccak result .null)),
        nameUnless "max_total_cost_usd"
          (notAbove cons.maxTotalCostUsd (totalCostUsd d.py d.keccak result .null)),
        nameUnless "require_invocable"
          (.ok (!cons.requireInvocable || (result.get "invocable").truthy))]
  else .ok []

end Names

/-! ## Agreement with the filter -/

variable {d : Deps} {r : Dict} {cons : Constraints}

/-- There is no name exactly when no part has one. -/
theorem allNames_eq_nil {parts : List (Except PyError (List PyStr))} :
    allNames parts = .ok [] ↔ ∀ part ∈ parts, part = .ok [] := by
  induction parts with
  | nil => simp [allNames]
  | cons part rest ih =>
      rw [List.forall_mem_cons, ← ih, allNames, List.foldr_cons]
      constructor
      · intro h
        obtain ⟨names, hnames, h⟩ := bind_eq_ok.mp h
        obtain ⟨others, hothers, h⟩ := map_eq_ok.mp h
        obtain ⟨rfl, rfl⟩ := List.append_eq_nil_iff.mp h
        exact ⟨hnames, hothers⟩
      · rintro ⟨hpart, hrest⟩
        rw [hpart, Except.bind]
        exact map_eq_ok.mpr ⟨[], hrest, rfl⟩

theorem nameUnless_eq_nil {name : PyStr} {met : Except PyError Bool} :
    nameUnless name met = .ok [] ↔ met = .ok true := by
  unfold nameUnless
  rw [map_eq_ok]
  constructor
  · rintro ⟨b, hb, h⟩
    cases b with
    | true => exact hb
    | false => cases h
  · intro h
    exact ⟨true, h, rfl⟩

/-- The options that the bounds on price and amount leave. -/
theorem unmetPrices_eq_nil :
    unmetPrices d r cons = .ok [] ↔
      (cons.maxAmountAtomic.isSome ∨ cons.maxPriceUsd.isSome →
        ∃ opts, optionsForConstraints d r cons = .ok opts ∧ opts ≠ []) := by
  unfold unmetPrices
  split
  · rename_i hbound
    rw [map_eq_ok, forall_prop_of_true hbound]
    refine exists_congr fun opts => and_congr_right fun _ => ?_
    cases opts with
    | cons o rest => simp
    | nil =>
        -- with no option left, a bound that is there is named
        rcases hbound with h | h <;> simp [h]
  · rename_i hbound
    exact ⟨fun _ h => absurd h hbound, fun _ => rfl⟩

/-- A complete option within the bounds is an option within the bounds. -/
theorem options_of_complete
    (h : ∃ opts, completeOptionsForConstraints d r cons = .ok opts ∧ opts ≠ []) :
    ∃ opts, optionsForConstraints d r cons = .ok opts ∧ opts ≠ [] := by
  obtain ⟨complete, hcomplete, hne⟩ := h
  obtain ⟨opts, hopts, hkeep⟩ := bind_eq_ok.mp hcomplete
  obtain ⟨o, ho⟩ := List.exists_mem_of_ne_nil complete hne
  exact ⟨opts, hopts, List.ne_nil_of_mem ((mem_keepIf hkeep).mp ho).1⟩

theorem someLeft_iff {x : Except PyError (List PaymentOption)} :
    (x.map fun opts => !opts.isEmpty) = .ok true ↔ ∃ opts, x = .ok opts ∧ opts ≠ [] := by
  rw [map_eq_ok]
  simp

/-- The filter finds an option exactly when neither the networks nor a price is named. -/
theorem offersOption_iff :
    offersOption d r cons = .ok true ↔
      unmetNetworks d r cons = .ok [] ∧ unmetPrices d r cons = .ok [] := by
  rw [unmetPrices_eq_nil]
  unfold offersOption unmetNetworks
  by_cases hlock : cons.rails.isSome = true
  · rw [if_pos hlock, if_pos hlock, nameUnless_eq_nil, someLeft_iff]
    exact ⟨fun h => ⟨h, fun _ => options_of_complete h⟩, fun h => h.1⟩
  · rw [if_neg hlock, if_neg hlock]
    by_cases hbound : cons.maxAmountAtomic.isSome ∨ cons.maxPriceUsd.isSome
    · rw [if_pos hbound, someLeft_iff, forall_prop_of_true hbound]
      exact ⟨fun h => ⟨rfl, h⟩, fun h => h.2⟩
    · rw [if_neg hbound]
      exact ⟨fun _ => ⟨rfl, fun h => absurd h hbound⟩, fun _ => rfl⟩

/-- A live result with an option is payable: the options of a result are complete. -/
theorem payable_of_option {opts : List PaymentOption} {o : PaymentOption}
    (hlive : (r.get "live").truthy = true) (hopts : paymentOptions d r = .ok opts)
    (ho : o ∈ opts) : isPayable d r = .ok true := by
  unfold isPayable
  rw [if_pos hlive, hopts, Except.bind]
  cases opts with
  | nil => exact absurd ho List.not_mem_nil
  | cons first rest =>
      have hfirst := (options_valid hopts first List.mem_cons_self).complete
      rw [anyOf, envelope, hfirst]
      rfl

/-- **The explanation agrees with the filter**: a live result with an option, which is
complete by `options_valid`, passes the constraints exactly when no bound is named as
missed. -/
theorem passes_iff_unmet_nil {opts : List PaymentOption} {o : PaymentOption}
    (hlive : (r.get "live").truthy = true) (hopts : paymentOptions d r = .ok opts)
    (ho : o ∈ opts) (hmeasured : cons.unmeasured = []) :
    passesConstraints d r cons = .ok true ↔ unmetConstraintNames d r cons = .ok [] := by
  rw [passes_iff]
  unfold unmetConstraintNames
  rw [if_pos hlive, allNames_eq_nil]
  simp only [List.forall_mem_cons, List.not_mem_nil, nameUnless_eq_nil, Except.ok.injEq]
  constructor
  · intro h
    obtain ⟨hnetworks, hprices⟩ := offersOption_iff.mp h.offers
    exact ⟨hnetworks, hprices, h.probe, h.service, h.observations, h.success, h.score,
      h.confidence, h.settlement, h.cost, h.invocable, fun _ hx => absurd hx id⟩
  · rintro ⟨hnetworks, hprices, h5, h6, h7, h8, h9, h10, h11, h12, h13, -⟩
    exact
      { live := hlive
        payable := payable_of_option hlive hopts ho
        measured := by rw [hmeasured]; rfl
        offers := offersOption_iff.mpr ⟨hnetworks, hprices⟩
        probe := h5
        service := h6
        observations := h7
        success := h8
        score := h9
        confidence := h10
        settlement := h11
        cost := h12
        invocable := h13 }

/-- A result whose only option is dearer than the bound misses it. -/
theorem passes_iff_unmet_nil_dear :
    let r := liveResult [(.base, 10000)] 100
    let cons := { Constraints.none with maxAmountAtomic := some 5000 }
    passesConstraints .plain r cons = .ok true ↔ unmetConstraintNames .plain r cons = .ok [] := by
  obtain ⟨o, hopts⟩ : ∃ o, paymentOptions .plain (liveResult [(.base, 10000)] 100) = .ok [o] :=
    ⟨_, rfl⟩
  exact passes_iff_unmet_nil rfl hopts List.mem_cons_self rfl

end Signal402.Select
