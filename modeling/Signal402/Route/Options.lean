import Signal402.Route.Winner

/-!
# Valid options

What `validate_observed_accept` guarantees of the options it returns, and what follows
for the options of a result: all of them are complete, and the fields of a selected
payment determine everything the constraints look at.
-/

namespace Signal402

open Payment

@[simp] theorem Json.eqText_ofText (s : Option PyStr) : (Json.ofText s).eqText s = true := by
  cases s with
  | none => rfl
  | some t => exact beq_self_eq_true t

@[simp] theorem Json.eqInt?_ofInt? (n : Option ℤ) : (Json.ofInt? n).eqInt? n = true := by
  cases n with
  | none => rfl
  | some m => exact beq_self_eq_true m

theorem Json.eqFloat_ofFloat? {f : Option PyFloat} (h : ∀ x, f = some x → x.IsNumber) :
    (Json.ofFloat? f).eqFloat f = true := by
  cases f with
  | none => rfl
  | some x => exact PyFloat.eq_self (h x rfl)

theorem Json.eqText_unique {x : Json} {s t : Option PyStr} (hs : x.eqText s = true)
    (ht : x.eqText t = true) : s = t := by
  cases s with
  | none =>
      cases t with
      | none => rfl
      | some t => cases x <;> simp_all [Json.eqText, Json.eqStr, Json.isNull]
  | some s =>
      cases t with
      | none => cases x <;> simp_all [Json.eqText, Json.eqStr, Json.isNull]
      | some t => cases x <;> simp_all [Json.eqText, Json.eqStr]

theorem PyFloat.eqInt_unique {x : PyFloat} {m n : ℤ} (hm : x.eqInt m = true)
    (hn : x.eqInt n = true) : m = n := by
  unfold PyFloat.eqInt at hm hn
  generalize x.unpack = u at hm hn
  cases u with
  | infinity _ => cases hm
  | notANumber => cases hm
  | zero _ => exact (beq_iff_eq.mp hm).trans (beq_iff_eq.mp hn).symm
  | finite sign k e hk =>
      dsimp only at hm hn
      by_cases he : 0 ≤ e
      · rw [if_pos he, beq_iff_eq] at hm hn
        exact hm.symm.trans hn
      · rw [if_neg he, beq_iff_eq] at hm hn
        exact Int.eq_of_mul_eq_mul_right (Int.pow_pos (by decide)).ne' (hm.symm.trans hn)

theorem Json.eqInt?_unique {x : Json} {m n : Option ℤ} (hm : x.eqInt? m = true)
    (hn : x.eqInt? n = true) : m = n := by
  cases m with
  | none =>
      cases n with
      | none => rfl
      | some n => cases x <;> simp_all [Json.eqInt?, Json.eqInt, Json.isNull]
  | some m =>
      cases n with
      | none => cases x <;> simp_all [Json.eqInt?, Json.eqInt, Json.isNull]
      | some n =>
          cases x with
          | float f => exact congrArg some (PyFloat.eqInt_unique hm hn)
          | null | str _ | arr _ | obj _ => cases hm
          | bool b => simp_all [Json.eqInt?, Json.eqInt]
          | int k => simp_all [Json.eqInt?, Json.eqInt]

namespace Payment

/-- A price in dollars is a number. -/
theorem usdcFromAtomic_isNumber (n : ℕ) : (usdcFromAtomic n).2.IsNumber := by
  have hratio : (PyFloat.ofRatio n 1000000).IsNumber := PyFloat.ofRatio_isNumber n (by decide)
  unfold usdcFromAtomic
  dsimp only
  split
  · exact PyFloat.zero_isNumber
  · split
    · exact hratio
    · exact hratio

section Wire

variable (py : Interp) (keccak : Bytes → Option Bytes)

/-- The dollars of an amount, when the asset has known units. -/
def dollars (asset : Option PyStr) (amount : Option ℤ) : Option PyFloat :=
  if knownUsdcAsset py asset then amount.map fun n => (usdcFromAtomic n.toNat).2 else none

/-- What validation guarantees of an option. -/
structure PaymentOption.Valid (opt : PaymentOption) (env : Dict) : Prop where
  complete : isCompletePaymentOption py keccak opt env = .ok true
  decimals : opt.decimals = if knownUsdcAsset py opt.asset then some usdcDecimals else none
  price : opt.normalizedUsd = dollars py opt.asset opt.amountAtomic

variable {py keccak}

/-- What makes an option complete. -/
theorem complete_fields {opt : PaymentOption} {env : Dict}
    (h : isCompletePaymentOption py keccak opt env = .ok true) :
    ∃ rail network amount asset payTo, opt.rail = some rail ∧ opt.network = some network ∧
      railOfNetwork py.uni network = some rail ∧ opt.amountAtomic = some amount ∧
      Signal402.text opt.asset = some asset ∧ Signal402.text opt.payTo = some payTo := by
  unfold isCompletePaymentOption at h
  split at h
  case h_2 => cases h
  rename_i rail network hrail hnetwork
  simp only [both_eq_true, Except.ok.injEq, beq_iff_eq] at h
  obtain ⟨hof, hamount, hasset, hpayTo, -, -⟩ := h
  have hamount : ∃ n, opt.amountAtomic = some n := by
    cases hopt : opt.amountAtomic with
    | none => rw [hopt] at hamount; cases hamount
    | some n => exact ⟨n, rfl⟩
  have htext : ∀ s : Option PyStr, py.text (.ofText s) = Signal402.text s := by
    intro s
    cases s <;> rfl
  obtain ⟨amount, hamount⟩ := hamount
  have hasset : ∃ t, Signal402.text opt.asset = some t := by
    rw [validAssetForRail, htext] at hasset
    cases ha : Signal402.text opt.asset with
    | none => rw [ha] at hasset; cases hasset
    | some t => exact ⟨t, rfl⟩
  have hpayTo : ∃ t, Signal402.text opt.payTo = some t := by
    rw [validPaytoForRail, htext] at hpayTo
    cases hp : Signal402.text opt.payTo with
    | none => rw [hp] at hpayTo; cases hpayTo
    | some t => exact ⟨t, rfl⟩
  obtain ⟨asset, hasset⟩ := hasset
  obtain ⟨payTo, hpayTo⟩ := hpayTo
  exact ⟨rail, network, amount, asset, payTo, hrail, hnetwork, hof, hamount, hasset, hpayTo⟩

/-- A canonical amount is read as it is written. -/
theorem asInt_of_canonical {raw : Json} {n : ℤ} (h : canonicalAtomicString raw = some n) :
    py.asInt raw = .ok (some n) ∧ 0 ≤ n := by
  unfold canonicalAtomicString at h
  split at h
  case h_2 => cases h
  rename_i s
  split at h
  · cases h
  rename_i hdec
  have hdec : s.isDecimal = true := by simpa using hdec
  split at h
  · cases h
  rename_i hlen
  split at h
  · cases h
  split at h
  · cases h
  cases h
  have hne : s.isEmpty = false := by
    cases hs : s.isEmpty with
    | false => rfl
    | true => simp [PyStr.isDecimal, hs] at hdec
  have hshort : s.length ≤ PyStr.maxIntDigits :=
    (Nat.le_of_not_lt hlen).trans (by decide)
  refine ⟨?_, Int.natCast_nonneg _⟩
  rw [Interp.asInt, hne, if_neg Bool.false_ne_true, Interp.int?, if_pos hdec, if_pos hshort]

/-- A canonical amount is not left out. -/
theorem given_of_canonical {raw : Json} {n : ℤ} (h : canonicalAtomicString raw = some n) :
    (raw.isNull || raw.eqStr []) = false := by
  cases raw with
  | str s =>
      cases s with
      | nil => simp [canonicalAtomicString, PyStr.isDecimal] at h
      | cons c t => rfl
  | _ => cases h

theorem wireTerms_amount {accept env : Dict} {rail : Rail} {raw : Json} {amount : ℤ}
    (h : wireTerms accept env = some (rail, raw, amount)) :
    canonicalAtomicString raw = some amount := by
  unfold wireTerms at h
  dsimp only at h
  split at h
  · cases h
  simp only [Option.ite_none_left_eq_some] at h
  obtain ⟨-, -, h⟩ := h
  split at h
  case h_2 => cases h
  rename_i hwire
  cases h
  unfold wireAmount at hwire
  dsimp only at hwire
  split at hwire
  · cases hwire
  split at hwire
  · cases hwire
  rename_i hcanonical
  obtain ⟨-, hpair⟩ := Option.ite_none_right_eq_some.mp hwire
  cases hpair
  exact hcanonical

/-- The price of an option with an amount. -/
theorem displayed_price (known : Bool) (amount : Option ℤ) (seller asset : Option PyStr) :
    (displayed known amount seller asset).2 =
      if known then amount.map fun n => (usdcFromAtomic n.toNat).2 else none := by
  cases known with
  | false => cases seller <;> cases amount <;> cases asset <;> rfl
  | true => cases amount <;> cases seller <;> cases asset <;> rfl

/-- The options of valid entries are valid. -/
theorem validate_valid {accept : Json} {env : Dict} {opt : PaymentOption}
    (h : validateObservedAccept py keccak accept env = .ok (some opt)) :
    opt.Valid py keccak env := by
  unfold validateObservedAccept at h
  split at h
  · cases h
  rename_i acc _
  split at h
  · cases h
  rename_i rail raw amount hwire
  obtain ⟨valid, -, h⟩ := bind_eq_ok.mp h
  split at h
  case isFalse => cases h
  obtain ⟨found, hfound, h⟩ := bind_eq_ok.mp h
  split at h
  · cases h
  rename_i base
  obtain ⟨complete, hcomplete, h⟩ := map_eq_ok.mp h
  split at h
  case isFalse => cases h
  rename_i hc
  cases h
  subst hc
  -- the entry that was read has the amount of the wire
  obtain ⟨n, hn, hopt⟩ := map_eq_ok.mp hfound
  obtain ⟨-, hopt⟩ := Option.ite_none_left_eq_some.mp hopt
  cases hopt
  have hraw := wireTerms_amount hwire
  rw [Dict.get_set_self, given_of_canonical hraw, if_neg Bool.false_ne_true,
    (asInt_of_canonical hraw).1] at hn
  cases hn
  exact ⟨hcomplete, rfl, displayed_price _ _ _ _⟩

theorem validOptions_valid {env : Dict} {accepts : List Json} {opts : List PaymentOption}
    (h : validOptions py keccak env accepts = .ok opts) : ∀ o ∈ opts, o.Valid py keccak env := by
  obtain ⟨found, hfound, rfl⟩ := map_eq_ok.mp h
  intro o ho
  obtain ⟨x, hx, rfl⟩ := List.mem_filterMap.mp ho
  obtain ⟨acc, -, hacc⟩ := exists_of_mem_mapM hfound hx
  exact validate_valid hacc

theorem mem_of_mem_dedupeOptions {opts : List PaymentOption} {o : PaymentOption} :
    ∀ {seen}, o ∈ dedupeOptions seen opts → o ∈ opts := by
  induction opts with
  | nil => exact id
  | cons p rest ih =>
      intro seen h
      rw [dedupeOptions] at h
      split at h
      · exact List.mem_cons_of_mem p (ih h)
      · rcases List.mem_cons.mp h with rfl | h
        · exact List.mem_cons_self
        · exact List.mem_cons_of_mem p (ih h)

/-- Every option of a result is valid in its envelope. -/
theorem options_valid {result : Dict} {opts : List PaymentOption}
    (h : paymentOptionsFromResult py keccak result = .ok opts) :
    ∀ o ∈ opts, o.Valid py keccak (result.get "envelope").dictOrEmpty := by
  unfold paymentOptionsFromResult at h
  dsimp only at h
  split at h
  · obtain ⟨valid, hvalid, rfl⟩ := map_eq_ok.mp h
    exact fun o ho => validOptions_valid hvalid o (mem_of_mem_dedupeOptions ho)
  · cases h
    exact fun o ho => absurd ho List.not_mem_nil
  · obtain ⟨found, hfound, rfl⟩ := map_eq_ok.mp h
    intro o ho
    rw [Option.mem_toList] at ho
    rw [ho] at hfound
    exact validate_valid hfound

/-! ## The fields of a selected payment -/

theorem PaymentOption.Valid.isNumber {opt : PaymentOption} {env : Dict}
    (h : opt.Valid py keccak env) : ∀ x, opt.normalizedUsd = some x → x.IsNumber := by
  intro x hx
  rw [h.price, dollars] at hx
  obtain ⟨-, hmap⟩ := Option.ite_none_right_eq_some.mp hx
  obtain ⟨n, -, rfl⟩ := Option.map_eq_some_iff.mp hmap
  exact usdcFromAtomic_isNumber n.toNat

/-- The fields of an option are its own. -/
theorem sameFields_self {opt : PaymentOption} {env : Dict} (h : opt.Valid py keccak env) :
    sameFields (selectedPaymentFields opt) opt = true := by
  have husd := Json.eqFloat_ofFloat? h.isNumber
  unfold sameFields
  simp only [Dict.get, selectedPaymentFields, Dict.get?, PyStr.ofString_inj, String.reduceEq,
    if_true, if_false, Option.getD_some, Json.eqText_ofText, Json.eqInt?_ofInt?, husd,
    Bool.and_self]

/-- What the fields of a selected payment say of an option. -/
structure Describes (selected : Dict) (opt : PaymentOption) : Prop where
  rail : (selected.get "rail").eqText (opt.rail.map Rail.name) = true
  network : (selected.get "network").eqText opt.network = true
  asset : (selected.get "asset").eqText opt.asset = true
  amount : (selected.get "amount_atomic").eqInt? opt.amountAtomic = true
  display : (selected.get "display_amount").eqText opt.displayAmount = true
  price : (selected.get "normalized_usd").eqFloat opt.normalizedUsd = true
  payTo : (selected.get "payTo").eqText opt.payTo = true
  facilitator : (selected.get "facilitator").eqText opt.facilitator = true

theorem sameFields_iff {selected : Dict} {opt : PaymentOption} :
    sameFields selected opt = true ↔ Describes selected opt := by
  unfold sameFields
  simp only [Bool.and_eq_true]
  constructor
  · rintro ⟨⟨⟨⟨⟨⟨⟨h1, h2⟩, h3⟩, h4⟩, h5⟩, h6⟩, h7⟩, h8⟩
    exact ⟨h1, h2, h3, h4, h5, h6, h7, h8⟩
  · intro h
    exact ⟨⟨⟨⟨⟨⟨⟨h.rail, h.network⟩, h.asset⟩, h.amount⟩, h.display⟩, h.price⟩, h.payTo⟩,
      h.facilitator⟩

/-- Options that a selected payment describes are alike in all the constraints look at. -/
theorem Describes.unique {selected env env' : Dict} {o p : PaymentOption}
    (ho : Describes selected o) (hp : Describes selected p) (hov : o.Valid py keccak env)
    (hpv : p.Valid py keccak env') :
    o.rail = p.rail ∧ o.amountAtomic = p.amountAtomic ∧ o.decimals = p.decimals ∧
      o.normalizedUsd = p.normalizedUsd := by
  have hasset : o.asset = p.asset := Json.eqText_unique ho.asset hp.asset
  have hamount : o.amountAtomic = p.amountAtomic := Json.eqInt?_unique ho.amount hp.amount
  have hrail : o.rail = p.rail :=
    Option.map_injective Rail.name_injective (Json.eqText_unique ho.rail hp.rail)
  refine ⟨hrail, hamount, ?_, ?_⟩
  · rw [hov.decimals, hpv.decimals, hasset]
  · rw [hov.price, hpv.price, hasset, hamount]

end Wire

end Payment

namespace Select

variable {d : Deps}

/-- What a result that passes meets. -/
structure Passes (d : Deps) (r : Dict) (cons : Constraints) : Prop where
  live : (r.get "live").truthy = true
  payable : isPayable d r = .ok true
  measured : cons.unmeasured.isEmpty = true
  offers : offersOption d r cons = .ok true
  probe : within (cons.maxProbeLatencyMs.or cons.maxLatencyMs) (latencyMs d r) = .ok true
  service : within cons.maxServiceLatencyMs (serviceLatencyMs d r) = .ok true
  observations : atLeast cons.minObservations (observationCount d r) = .ok true
  success : notBelow cons.minObservedSuccess (observedSuccessOf d r) = .ok true
  score : notBelow cons.minReputationScore (scoreOf d r) = .ok true
  confidence : notBelow cons.minReputationConfidence (confidenceOf d r) = .ok true
  settlement : within cons.maxSettlementLatencyMs
    (settlementOrFinalityMs d.py d.keccak r .null) = .ok true
  cost : notAbove cons.maxTotalCostUsd (totalCostUsd d.py d.keccak r .null) = .ok true
  invocable : (!cons.requireInvocable || (r.get "invocable").truthy) = true

theorem passes_iff {r : Dict} {cons : Constraints} :
    passesConstraints d r cons = .ok true ↔ Passes d r cons := by
  unfold passesConstraints
  simp only [allOf_eq_true, List.forall_mem_cons, List.not_mem_nil, Except.ok.injEq]
  constructor
  · rintro ⟨h1, h2, h3, h4, h5, h6, h7, h8, h9, h10, h11, h12, h13, -⟩
    exact ⟨h1, h2, h3, h4, h5, h6, h7, h8, h9, h10, h11, h12, h13⟩
  · intro h
    exact ⟨h.live, h.payable, h.measured, h.offers, h.probe, h.service, h.observations,
      h.success, h.score, h.confidence, h.settlement, h.cost, h.invocable,
      fun _ hx => absurd hx id⟩

/-- What a selected payment that passes meets. -/
structure SelectedPasses (d : Deps) (r : Dict) (selected : Json) (cons : Constraints) : Prop where
  complete : selectedPaymentIsComplete d selected = .ok true
  measured : cons.unmeasured.isEmpty = true
  eligible : ∃ opts, completeOptionsForConstraints d r cons = .ok opts ∧
    ∃ o ∈ opts, sameFields selected.dictOrEmpty o = true
  cost : notAbove cons.maxTotalCostUsd (totalCostUsd d.py d.keccak r selected) = .ok true
  settlement : within cons.maxSettlementLatencyMs
    (settlementOrFinalityMs d.py d.keccak r selected) = .ok true
  common : Passes d r (Constraints.common cons)

theorem selectedPasses_iff {r : Dict} {selected : Json} {cons : Constraints} :
    selectedPaymentPassesConstraints d r selected cons = .ok true ↔
      SelectedPasses d r selected cons := by
  unfold selectedPaymentPassesConstraints
  simp only [allOf_eq_true, List.forall_mem_cons, List.not_mem_nil, Except.ok.injEq,
    map_eq_ok, List.any_eq_true, passes_iff]
  constructor
  · rintro ⟨h1, h2, h3, h4, h5, h6, -⟩
    exact ⟨h1, h2, h3, h4, h5, h6⟩
  · intro h
    exact ⟨h.complete, h.measured, h.eligible, h.cost, h.settlement, h.common,
      fun _ hx => absurd hx id⟩

/-- What a result passes, it passes without the bounds on options. -/
theorem Passes.common {r : Dict} {cons : Constraints} (h : Passes d r cons) :
    Passes d r (Constraints.common cons) where
  live := h.live
  payable := h.payable
  measured := h.measured
  offers := rfl
  probe := h.probe
  service := h.service
  observations := h.observations
  success := h.success
  score := h.score
  confidence := h.confidence
  settlement := rfl
  cost := rfl
  invocable := h.invocable

/-- Elements that all pass are all kept. -/
theorem keepIf_eq_self {α : Type} {f : α → Except PyError Bool} {xs : List α}
    (h : ∀ x ∈ xs, f x = .ok true) : keepIf f xs = .ok xs := by
  induction xs with
  | nil => rfl
  | cons x rest ih =>
      rw [keepIf, h x List.mem_cons_self, ih fun y hy => h y (List.mem_cons_of_mem x hy)]
      rfl

theorem keepIf_returns {α : Type} {f : α → Except PyError Bool} {xs : List α}
    (h : ∀ x ∈ xs, ∃ b, f x = .ok b) : ∃ ys, keepIf f xs = .ok ys := by
  induction xs with
  | nil => exact ⟨[], rfl⟩
  | cons x rest ih =>
      obtain ⟨b, hb⟩ := h x List.mem_cons_self
      obtain ⟨ys, hys⟩ := ih fun y hy => h y (List.mem_cons_of_mem x hy)
      unfold keepIf
      rw [hb, hys]
      exact ⟨_, rfl⟩

theorem anyOf_eq_true {α : Type} {f : α → Except PyError Bool} {xs : List α}
    (h : anyOf f xs = .ok true) : ∃ x ∈ xs, f x = .ok true := by
  induction xs with
  | nil => cases h
  | cons x rest ih =>
      obtain ⟨b, hb, h⟩ := bind_eq_ok.mp h
      cases b with
      | true => exact ⟨x, List.mem_cons_self, hb⟩
      | false =>
          obtain ⟨y, hy, hfy⟩ := ih h
          exact ⟨y, List.mem_cons_of_mem x hy, hfy⟩

/-- The options within the constraints are complete. -/
theorem completeOptions_eq {result : Dict} {cons : Constraints} {opts : List PaymentOption}
    (h : paymentOptions d result = .ok opts) :
    completeOptionsForConstraints d result cons = .ok (opts.filter (admits cons)) := by
  unfold completeOptionsForConstraints optionsForConstraints
  rw [h]
  exact keepIf_eq_self fun o ho => (options_valid h o (List.mem_filter.mp ho).1).complete

/-- The options of a payable result. -/
theorem options_of_payable {result : Dict} (h : isPayable d result = .ok true) :
    ∃ opts, paymentOptions d result = .ok opts ∧ opts ≠ [] := by
  unfold isPayable at h
  split at h
  case isFalse => cases h
  obtain ⟨opts, hopts, hany⟩ := bind_eq_ok.mp h
  obtain ⟨o, ho, -⟩ := anyOf_eq_true hany
  exact ⟨opts, hopts, List.ne_nil_of_mem ho⟩

end Select

/-! ## Sample results -/

def Deps.plain : Deps := ⟨.plain, fun _ => none, fun _ => .null⟩

/-- An entry of `accepts` that takes USDC. -/
def usdcAccept (rail : Rail) (amount : ℕ) : Json :=
  .obj
    [("scheme", .str "exact"),
      ("network", .str (match rail with
        | .base => baseCaip2
        | .solana => solanaMainnet
        | .algorand => algorandMainnet)),
      ("amount", .str (natText amount)),
      ("asset", .str (usdcAssetForRail rail)),
      ("payTo", .str (match rail with
        | .base => "0xb18fc2275f36dae99eb215caeff03b431f887d16"
        | .solana => "HCM423cyKYVUoq9GvmqUphZwYVB6M2wez34i9jzSewLy"
        | .algorand => "N2JSJZCSORMYGYO2NSIYRUEMBFRHEOMYODVXV2MXYYHB5H2JVUGG6NJ4NQ")),
      ("maxTimeoutSeconds", .int 60)]

/-- A live result that takes USDC on some rails. -/
def liveResult (accepts : List (Rail × ℕ)) (latency : ℤ) : Dict :=
  [("live", .bool true),
    ("envelope", .obj [("x402Version", .int 2),
      ("accepts", .arr (accepts.map fun a => usdcAccept a.1 a.2))]),
    ("latency_ms", .int latency)]

end Signal402
