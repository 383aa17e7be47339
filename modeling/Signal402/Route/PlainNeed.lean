import Signal402.Route.Funnel
import Signal402.Route.Ranking

/-!
# Probing in the order of the ranking

`plainNeed` probes one candidate after the other, in the order of the ranking.  A run of
`route_need` that is over before the deadline finds what it finds, in whatever order the
probes of its tranches end.

* `enoughEvidence_congr` — enough evidence does not depend on the order of the results.
* `byRank_perm` — nor does the order in which they are compared.
* `routeNeed_plain` — so the run and the plain one have one winner.
-/

namespace Signal402.RouteNeed

open Select Payment

/-! ## Results in any order -/

section Congr

variable {d : Deps} {objective : Objective} {cons : Constraints}

/-- Tests that are all made were all read. -/
theorem reads_of_keepIf {α : Type} {f : α → Except PyError Bool} {xs ys : List α}
    (h : keepIf f xs = .ok ys) : ∀ x ∈ xs, ∃ b, f x = .ok b := by
  induction xs generalizing ys with
  | nil => exact List.forall_mem_nil _
  | cons a rest ih =>
      obtain ⟨b, hb, h⟩ := bind_eq_ok.mp h
      obtain ⟨kept, hkept, -⟩ := map_eq_ok.mp h
      exact List.forall_mem_cons.mpr ⟨⟨b, hb⟩, ih hkept⟩

/-- Prices that are all known were all read. -/
theorem reads_of_pricedResults {xs : List Dict} {priced : List (Dict × Priced)}
    (h : pricedResults d cons xs = .ok priced) : ∀ r ∈ xs, ∃ p, pricedResult d cons r = .ok p := by
  induction xs generalizing priced with
  | nil => exact List.forall_mem_nil _
  | cons r rest ih =>
      obtain ⟨p, hp, h⟩ := bind_eq_ok.mp h
      obtain ⟨known, hknown, -⟩ := map_eq_ok.mp h
      exact List.forall_mem_cons.mpr ⟨⟨p, hp⟩, ih hknown⟩

/-- A test that can be read of every element. -/
theorem anyOf_of_reads {α : Type} {f : α → Except PyError Bool} {xs : List α}
    (h : ∀ x ∈ xs, ∃ b, f x = .ok b) :
    anyOf f xs = .ok true ∧ (∃ x ∈ xs, f x = .ok true) ∨
      anyOf f xs = .ok false ∧ ∀ x ∈ xs, f x ≠ .ok true := by
  induction xs with
  | nil => exact .inr ⟨rfl, List.forall_mem_nil _⟩
  | cons x rest ih =>
      obtain ⟨⟨b, hb⟩, hrest⟩ := List.forall_mem_cons.mp h
      rw [anyOf, hb]
      cases b with
      | true => exact .inl ⟨rfl, x, List.mem_cons_self, hb⟩
      | false =>
          rcases ih hrest with ⟨hany, y, hy, hyes⟩ | ⟨hany, hno⟩
          · exact .inl ⟨hany, y, List.mem_cons_of_mem x hy, hyes⟩
          · refine .inr ⟨hany, List.forall_mem_cons.mpr ⟨?_, hno⟩⟩
            rw [hb]
            decide

theorem anyOf_congr {α : Type} {f : α → Except PyError Bool} {xs ys : List α}
    (h : ∀ x ∈ xs, ∃ b, f x = .ok b) (hmem : ∀ x, x ∈ xs ↔ x ∈ ys) :
    anyOf f xs = anyOf f ys := by
  have hys : ∀ y ∈ ys, ∃ b, f y = .ok b := fun y hy => h y ((hmem y).mpr hy)
  rcases anyOf_of_reads h with ⟨hany, x, hx, hyes⟩ | ⟨hany, hno⟩
  · rcases anyOf_of_reads hys with ⟨hany', -⟩ | ⟨-, hno'⟩
    · rw [hany, hany']
    · exact absurd hyes (hno' x ((hmem x).mp hx))
  · rcases anyOf_of_reads hys with ⟨-, y, hy, hyes'⟩ | ⟨hany', -⟩
    · exact absurd hyes' (hno y ((hmem y).mpr hy))
    · rw [hany, hany']

theorem stableOr_congr {found found' : List Dict} (h : ∀ r, r ∈ found ↔ r ∈ found') (r : Dict) :
    r ∈ stableOr found ↔ r ∈ stableOr found' := by
  have hstable : ∀ x, x ∈ found.filter (fun r => !(r.get "payTo_changed").truthy) ↔
      x ∈ found'.filter (fun r => !(r.get "payTo_changed").truthy) := by
    intro x
    rw [List.mem_filter, List.mem_filter, h]
  have hempty : (found.filter fun r => !(r.get "payTo_changed").truthy).isEmpty =
      (found'.filter fun r => !(r.get "payTo_changed").truthy).isEmpty := by
    rw [Bool.eq_iff_iff, List.isEmpty_iff, List.isEmpty_iff, List.eq_nil_iff_forall_not_mem,
      List.eq_nil_iff_forall_not_mem]
    exact forall_congr' fun x => not_congr (hstable x)
  unfold stableOr
  dsimp only
  rw [hempty]
  split
  · exact h r
  · exact hstable r

theorem comparable_congr {priced priced' : List (Dict × Priced)}
    (h : ∀ x, x ∈ priced ↔ x ∈ priced') :
    (comparable priced).isEmpty = (comparable priced').isEmpty := by
  have hne : comparable priced ≠ [] ↔ comparable priced' ≠ [] := by
    have hnil : priced ≠ [] ↔ priced' ≠ [] := by
      rw [Ne, Ne, List.eq_nil_iff_forall_not_mem, List.eq_nil_iff_forall_not_mem]
      exact not_congr (forall_congr' fun x => not_congr (h x))
    rw [comparable_ne_nil, comparable_ne_nil, hnil]
    simp only [h]
  rw [Bool.eq_iff_iff, List.isEmpty_iff, List.isEmpty_iff]
  exact not_iff_not.mp hne

/-- Whether there is enough evidence does not depend on the order of the results, nor on how
often they are listed. -/
theorem enoughEvidence_congr {probed probed' : List (Outcome d)}
    (hmem : ∀ o, o ∈ probed ↔ o ∈ probed') {b : Bool}
    (h : enoughEvidence d (rowsOf d probed) objective cons = .ok b) :
    enoughEvidence d (rowsOf d probed') objective cons = .ok b := by
  obtain ⟨found, hfound, h⟩ := bind_eq_ok.mp h
  have hrows : ∀ r, r ∈ (rowsOf d probed).filterMap Json.asObj? ↔
      r ∈ (rowsOf d probed').filterMap Json.asObj? := by
    intro r
    simp only [rowsOf, List.mem_filterMap, List.mem_map, hmem]
  obtain ⟨found', hfound'⟩ : ∃ found', viable d (rowsOf d probed') cons = .ok found' :=
    keepIf_returns fun r hr => reads_of_keepIf hfound r ((hrows r).mpr hr)
  have hsame : ∀ r, r ∈ found ↔ r ∈ found' := by
    intro r
    rw [mem_keepIf hfound, mem_keepIf hfound', hrows]
  have hread : ∀ r ∈ found, Readable d r := by
    intro r hr
    obtain ⟨x, hx, hobj⟩ := List.mem_filterMap.mp ((mem_keepIf hfound).mp hr).1
    obtain ⟨o, -, rfl⟩ := List.mem_map.mp hx
    obtain rfl := Option.some.inj hobj
    exact o.readable
  have hempty : found.isEmpty = found'.isEmpty := by
    rw [Bool.eq_iff_iff, List.isEmpty_iff, List.isEmpty_iff, List.eq_nil_iff_forall_not_mem,
      List.eq_nil_iff_forall_not_mem]
    exact forall_congr' fun r => not_congr (hsame r)
  have hstable := stableOr_congr hsame
  have hknown : ∀ {α : Type} {figure : Dict → Except PyError (Option α)},
      (∀ r, Readable d r → ∃ v, figure r = .ok v) →
        ∀ r ∈ stableOr found, ∃ b, known figure r = .ok b := by
    intro α figure hfigure r hr
    obtain ⟨v, hv⟩ := hfigure r (hread r (stableOr_subset hr))
    exact ⟨v.isSome, by rw [known, hv]; rfl⟩
  unfold enoughEvidence
  rw [hfound']
  show (if found'.isEmpty = true then _ else _) = _
  rw [← hempty]
  split
  next hnil =>
    rw [if_pos hnil] at h
    exact h
  next hsome =>
    rw [if_neg hsome] at h
    cases objective with
    | best =>
        rw [← h]
        refine congrArg Except.ok (Bool.eq_iff_iff.mpr ?_)
        simp only [List.any_eq_true, hsame]
    | cheapest =>
        obtain ⟨pool, hpool, rfl⟩ := map_eq_ok.mp h
        obtain ⟨priced, hpriced, rfl⟩ := map_eq_ok.mp hpool
        obtain ⟨priced', hpriced'⟩ : ∃ priced',
            pricedResults d cons (stableOr found') = .ok priced' :=
          pricedResults_returns fun r hr =>
            reads_of_pricedResults hpriced r ((hstable r).mpr hr)
        have hprices : ∀ x, x ∈ priced ↔ x ∈ priced' := by
          intro x
          rw [pricedResults_mem hpriced, pricedResults_mem hpriced', hstable]
        show ((pricedResults d cons (stableOr found')).map comparable).map _ = _
        rw [hpriced', comparable_congr hprices]
        rfl
    | lowestTotalCost =>
        rw [← h]
        exact (anyOf_congr (hknown fun r hr => hr.cost) hstable).symm
    | fastestSettlement =>
        rw [← h]
        exact (anyOf_congr (hknown fun r hr => hr.settlement) hstable).symm
    | fastest => exact h
    | mostReliable => exact h

/-! ## Results in the order of the ranking -/

variable {ranked : List Dict}

theorem selectable_perm {probed probed' : List (Outcome d)} (h : probed.Perm probed') :
    (selectable d cons probed).Perm (selectable d cons probed') := by
  unfold selectable
  dsimp only
  split
  · exact h.filter _
  · exact (h.filter _).filter _

theorem selectionSet_perm {probed probed' : List (Outcome d)} (h : probed.Perm probed') :
    (selectionSet d cons probed).Perm (selectionSet d cons probed') := by
  have hhits : (selectable d cons probed).Perm (selectable d cons probed') := selectable_perm h
  have hstable := hhits.filter fun o => !flag "payTo_changed" o.row
  unfold selectionSet
  dsimp only
  rw [hstable.isEmpty_eq]
  split
  · exact hhits
  · exact hstable

/-- The rank of a candidate is the place of one with its URL. -/
theorem rankOf_eq {item : Dict} (h : item ∈ ranked) :
    ∃ x ∈ ranked.zipIdx, resourceUrl d.py x.1 = resourceUrl d.py item ∧
      rankOf d ranked (resourceUrl d.py item) = x.2 := by
  obtain ⟨i, hi⟩ := List.mem_iff_getElem?.mp h
  have hne : ranked.zipIdx.filter (fun x => resourceUrl d.py x.1 == resourceUrl d.py item) ≠ [] :=
    List.ne_nil_of_mem (List.mem_filter.mpr
      ⟨List.mk_mem_zipIdx_iff_getElem?.mpr hi, beq_self_eq_true _⟩)
  obtain ⟨x, hx⟩ := Option.isSome_iff_exists.mp (List.getLast?_isSome.mpr hne)
  obtain ⟨hmem, hurl⟩ := List.mem_filter.mp (List.mem_of_getLast? hx)
  refine ⟨x, hmem, eq_of_beq hurl, ?_⟩
  rw [rankOf, hx]

/-- Candidates with distinct URLs have distinct ranks. -/
theorem eq_of_rankOf_eq (hdistinct : (ranked.map (resourceUrl d.py)).Nodup) {a b : Dict}
    (ha : a ∈ ranked) (hb : b ∈ ranked)
    (h : rankOf d ranked (resourceUrl d.py a) = rankOf d ranked (resourceUrl d.py b)) : a = b := by
  obtain ⟨x, hx, hxa, hrankx⟩ := rankOf_eq (d := d) ha
  obtain ⟨y, hy, hyb, hranky⟩ := rankOf_eq (d := d) hb
  have hxy : x.1 = y.1 := by
    have hgetx := List.mk_mem_zipIdx_iff_getElem?.mp hx
    have hgety := List.mk_mem_zipIdx_iff_getElem?.mp hy
    rw [show x.2 = y.2 by rw [← hrankx, ← hranky, h], hgety] at hgetx
    exact (Option.some.inj hgetx).symm
  refine List.inj_on_of_nodup_map hdistinct ha hb ?_
  rw [← hxa, ← hyb, hxy]

/-- Results of candidates with distinct URLs are compared in one order. -/
theorem byRank_perm (hdistinct : (ranked.map (resourceUrl d.py)).Nodup)
    {probed probed' : List (Outcome d)} (hsub : (probed.map Outcome.item).Subperm ranked)
    (h : probed.Perm probed') : byRank d ranked probed = byRank d ranked probed' := by
  have hnodup : (probed.map Outcome.item).Nodup := by
    obtain ⟨l, hl, hsublist⟩ := hsub
    exact hl.nodup_iff.mp (hsublist.nodup (hdistinct.of_map _))
  unfold byRank
  refine @List.Perm.eq_of_pairwise _ (fun a b : Outcome d =>
      rankOf d ranked (resourceUrl d.py a.item) ≤ rankOf d ranked (resourceUrl d.py b.item))
    _ _ ?_ ?_ ?_ ?_
  · intro a b ha hb hab hba
    have hina := (List.mem_insertionSort _).mp ha
    have hinb := h.symm.subset ((List.mem_insertionSort _).mp hb)
    exact List.inj_on_of_nodup_map hnodup hina hinb (eq_of_rankOf_eq hdistinct
      (hsub.subset (List.mem_map_of_mem hina)) (hsub.subset (List.mem_map_of_mem hinb))
      (le_antisymm hab hba))
  · exact List.pairwise_insertionSort _ _
  · exact List.pairwise_insertionSort _ _
  · exact (List.perm_insertionSort _ _).trans (h.trans (List.perm_insertionSort _ _).symm)

end Congr

/-! ## One probe after the other -/

section Plain

variable {d : Deps} {T : Type} [LinearOrder T] (find : (item : Dict) → {o : Outcome d // o.item = item})

/-- What the probes of candidates find. -/
def findAll (items : List Dict) : List (Outcome d) := items.map fun item => (find item).1

variable (sorter : CmpSort.Sorter Dict PyError) (objective : Objective) (cons : Constraints)
  (ceiling : ℕ) (ranked : List Dict)

/-- The candidates that are probed, a tranche at a time, until there is enough evidence. -/
def plainRounds : ℕ → List (Outcome d) → List Dict → Bool → Except PyError (List (Outcome d))
  | 0, probed, _, _ => .ok probed
  | n + 1, probed, rest, first =>
      if rest = [] ∨ ceiling ≤ probed.length then .ok probed
      else
        (enoughEvidence d (rowsOf d probed) objective cons).bind fun enough =>
          if enough then .ok probed
          else
            let take := nextTrancheSize probed.length rest.length ceiling first
            if take = 0 then .ok probed
            else
              let probed := probed ++ findAll find (rest.take take)
              (enoughEvidence d (rowsOf d probed) objective cons).bind fun enough =>
                if enough then .ok probed else plainRounds n probed (rest.drop take) false

/-- `route_need` without a clock and without a pool. -/
def plainNeed : Except PyError (Routed d) :=
  (plainRounds find objective cons ceiling ranked.length [] ranked true).bind fun probed =>
    conclude d sorter objective cons ceiling ranked
      { now := (), probed, rest := [], first := false, exhausted := false } false

end Plain

/-! ## Runs that are over in time -/

section InTime

variable {d : Deps} {T : Type} [LinearOrder T] {find : (item : Dict) → {o : Outcome d // o.item = item}}
  {deadline : T} {sorter : CmpSort.Sorter Dict PyError} {objective : Objective}
  {cons : Constraints} {ceiling : ℕ} {ranked : List Dict}

variable (find deadline) in
/-- An exchange before the deadline, in which probes find what they find. -/
def InTime : Dialogue.Exchange (Ask T) (Answer d) → Prop
  | ⟨.clock _, now⟩ => now.1 < deadline
  | ⟨.alone item, o⟩ => o = find item
  | ⟨.submit _, _⟩ => True
  | ⟨.wait _, done⟩ => ∀ o ∈ done.finished, o = (find o.item).1

theorem budgetHit_under (now : T) : (budgetHit d deadline now).Under (InTime find deadline)
    fun r => r.2 = false :=
  Dialogue.under_query_bind.mpr fun _ hr => decide_eq_false (not_le.mpr hr)

/-- All pending probes end, in some order. -/
theorem collect_under (n : ℕ) (now : T) (pending : List Dict) (collected : List (Outcome d))
    (hn : pending.length ≤ n) :
    (collect d deadline n now pending collected).Under (InTime find deadline) fun r =>
      ∃ batch, r.2 = collected ++ batch ∧ batch.Perm (findAll find pending) := by
  induction n generalizing now pending collected with
  | zero =>
      obtain rfl := List.length_eq_zero_iff.mp (Nat.le_zero.mp hn)
      exact ⟨[], (List.append_nil _).symm, List.Perm.refl _⟩
  | succ n ih =>
      unfold collect
      split
      next hpending =>
        subst hpending
        exact ⟨[], (List.append_nil _).symm, List.Perm.refl _⟩
      next hpending =>
      refine Dialogue.under_bind.mpr ((budgetHit_under now).mono ?_)
      rintro ⟨now₁, hit⟩ hhit
      obtain rfl : hit = false := hhit
      refine Dialogue.under_query_bind.mpr fun done hdone => ?_
      have hlength := done.perm.length_eq
      have hpos := List.length_pos_of_ne_nil (done.finished_ne hpending)
      rw [List.length_append, List.length_map] at hlength
      have hfinished : done.finished = findAll find (done.finished.map Outcome.item) := by
        rw [findAll, List.map_map]
        conv_lhs => rw [← List.map_id done.finished]
        exact List.map_congr_left hdone
      refine (ih now₁ done.rest (collected ++ done.finished) (by omega)).mono ?_
      rintro r ⟨batch, hr, hbatch⟩
      refine ⟨done.finished ++ batch, by rw [hr, List.append_assoc], ?_⟩
      have hsplit : done.finished ++ findAll find done.rest =
          findAll find (done.finished.map Outcome.item ++ done.rest) := by
        rw [findAll, findAll, List.map_append]
        exact congrArg (· ++ _) hfinished
      exact (hbatch.append_left _).trans (hsplit ▸ done.perm.map _)

theorem probeTranche_under (now : T) {items : List Dict} (hne : items ≠ []) :
    (probeTranche d deadline now items).Under (InTime find deadline) fun r =>
      r.2.Perm (findAll find items) := by
  unfold probeTranche
  rw [if_neg hne]
  refine Dialogue.under_bind.mpr ((budgetHit_under now).mono ?_)
  rintro ⟨now₁, hit⟩ hhit
  obtain rfl : hit = false := hhit
  dsimp only
  rw [if_neg Bool.false_ne_true]
  split
  next item =>
    refine Dialogue.under_query_bind.mpr fun o ho => ?_
    obtain rfl : o = find item := ho
    exact List.Perm.refl _
  · refine Dialogue.under_query_bind.mpr fun _ _ => ?_
    refine (collect_under items.length now₁ items [] le_rfl).mono ?_
    rintro ⟨now₂, batch⟩ ⟨batch', hr, hbatch⟩
    obtain rfl : batch = batch' := hr
    exact hbatch

/-- The loop has found what the plain one has, or both have raised. -/
inductive Follows : Except PyError (Progress d T) → Except PyError (List (Outcome d)) → Prop
  | ok {p : Progress d T} {probed : List (Outcome d)} (h : p.probed.Perm probed)
      (hin : p.exhausted = false) : Follows (.ok p) (.ok probed)
  | error (e e' : PyError) : Follows (.error e) (.error e')

/-- Where the loop goes on, and where it ends or raises, when the plain one is about to take
`n` more turns. -/
inductive TurnFollows (find : (item : Dict) → {o : Outcome d // o.item = item})
    (objective : Objective) (cons : Constraints) (ceiling n : ℕ)
    (plain : Except PyError (List (Outcome d))) : Except PyError (Bool × Progress d T) → Prop
  | going {p : Progress d T} {probed : List (Outcome d)} (h : p.probed.Perm probed)
      (hin : p.exhausted = false)
      (hplain : plain = plainRounds find objective cons ceiling n probed p.rest p.first) :
      TurnFollows find objective cons ceiling n plain (.ok (true, p))
  | ended {p : Progress d T} (h : Follows (.ok p) plain) :
      TurnFollows find objective cons ceiling n plain (.ok (false, p))
  | error {e : PyError} (h : Follows (T := T) (.error e) plain) :
      TurnFollows find objective cons ceiling n plain (.error e)

/-- Results in another order are enough evidence when the results are. -/
theorem enough_perm (objective : Objective) (cons : Constraints)
    {probed probed' : List (Outcome d)} (h : probed.Perm probed') :
    (∃ b, enoughEvidence d (rowsOf d probed) objective cons = .ok b ∧
      enoughEvidence d (rowsOf d probed') objective cons = .ok b) ∨
    ∃ e e', enoughEvidence d (rowsOf d probed) objective cons = .error e ∧
      enoughEvidence d (rowsOf d probed') objective cons = .error e' := by
  cases hleft : enoughEvidence d (rowsOf d probed) objective cons with
  | ok b => exact .inl ⟨b, rfl, enoughEvidence_congr (fun o => h.mem_iff) hleft⟩
  | error e =>
      cases hright : enoughEvidence d (rowsOf d probed') objective cons with
      | error e' => exact .inr ⟨e, e', rfl, rfl⟩
      | ok b =>
          rw [enoughEvidence_congr (fun o => h.mem_iff.symm) hright] at hleft
          cases hleft

theorem afterTranche_under {n : ℕ} {p : Progress d T} {probed : List (Outcome d)}
    (h : p.probed.Perm probed) (hin : p.exhausted = false) :
    (afterTranche d deadline objective cons ranked p).Under (InTime find deadline)
      (TurnFollows find objective cons ceiling n
        ((enoughEvidence d (rowsOf d probed) objective cons).bind fun enough =>
          if enough then .ok probed
          else plainRounds find objective cons ceiling n probed p.rest p.first)) := by
  unfold afterTranche
  rcases enough_perm objective cons h with
    ⟨b, hleft, hright⟩ | ⟨e, e', hleft, hright⟩
  · rw [hleft, hright]
    cases b with
    | true => exact .ended (.ok h hin)
    | false =>
        refine Dialogue.under_bind.mpr ((budgetHit_under p.now).mono ?_)
        rintro ⟨now, hit⟩ hhit
        obtain rfl : hit = false := hhit
        exact .going h hin rfl
  · rw [hleft, hright]
    exact .error (.error e e')

theorem tranche_under {n take : ℕ} {p : Progress d T} {probed : List (Outcome d)}
    (h : p.probed.Perm probed) (hin : p.exhausted = false) (hne : p.rest.take take ≠ []) :
    (tranche d deadline objective cons ranked p take).Under (InTime find deadline)
      (TurnFollows find objective cons ceiling n
        ((enoughEvidence d (rowsOf d (probed ++ findAll find (p.rest.take take))) objective
          cons).bind fun enough =>
            if enough then .ok (probed ++ findAll find (p.rest.take take))
            else plainRounds find objective cons ceiling n
              (probed ++ findAll find (p.rest.take take)) (p.rest.drop take) false)) := by
  unfold tranche
  refine Dialogue.under_bind.mpr ((probeTranche_under p.now hne).mono ?_)
  rintro ⟨now, batch⟩ hbatch
  have hbatchne : batch ≠ [] := by
    rintro rfl
    exact hne (List.map_eq_nil_iff.mp hbatch.nil_eq.symm)
  dsimp only
  rw [if_neg hbatchne]
  exact afterTranche_under
    (p := { p with now, first := false, probed := p.probed ++ batch, rest := p.rest.drop take })
    (h.append hbatch) hin

/-- One turn of the loop and of the plain one. -/
theorem round_under {n : ℕ} {p : Progress d T} {probed : List (Outcome d)}
    (h : p.probed.Perm probed) (hin : p.exhausted = false) :
    (round d deadline objective cons ceiling ranked p).Under (InTime find deadline)
      (TurnFollows find objective cons ceiling n
        (plainRounds find objective cons ceiling (n + 1) probed p.rest p.first)) := by
  unfold round
  rw [plainRounds, ← h.length_eq]
  split
  · exact .ended (.ok h hin)
  next hgo =>
  push Not at hgo
  refine Dialogue.under_bind.mpr ((budgetHit_under p.now).mono ?_)
  rintro ⟨now, hit⟩ hhit
  obtain rfl : hit = false := hhit
  dsimp only
  rw [if_neg Bool.false_ne_true]
  rcases enough_perm objective cons h with
    ⟨b, hleft, hright⟩ | ⟨e, e', hleft, hright⟩
  · rw [hleft, hright]
    cases b with
    | true => exact .ended (.ok h hin)
    | false =>
        have hgoon : ∀ k : Bool → Except PyError (List (Outcome d)),
            (Except.ok false).bind k = k false := fun _ => rfl
        rw [hgoon, if_neg Bool.false_ne_true]
        dsimp only
        split
        · exact .ended (.ok h hin)
        next htake =>
          refine tranche_under (p := { p with now }) h hin ?_
          rw [Ne, List.take_eq_nil_iff, not_or]
          exact ⟨htake, hgo.1⟩
  · rw [hleft, hright]
    exact .error (.error e e')

theorem rounds_under (n : ℕ) {p : Progress d T} {probed : List (Outcome d)}
    (h : p.probed.Perm probed) (hin : p.exhausted = false) :
    (rounds d deadline objective cons ceiling ranked n p).Under (InTime find deadline)
      fun r => Follows r (plainRounds find objective cons ceiling n probed p.rest p.first) := by
  induction n generalizing p probed with
  | zero => exact .ok h hin
  | succ n ih =>
      refine Dialogue.under_bind.mpr ((round_under (n := n) h hin).mono ?_)
      rintro r hturn
      cases hturn with
      | going h' hin' hplain =>
          rw [hplain]
          exact ih h' hin'
      | ended hends => exact hends
      | error hraised => exact hraised

/-- Two answers with one winner, on the same results in any order. -/
structure Same (a b : Routed d) : Prop where
  winner : a.winner = b.winner
  probed : a.probed.Perm b.probed
  exhausted : a.probeBudgetExhausted = b.probeBudgetExhausted
  complete : a.evaluationComplete = b.evaluationComplete
  stopReason : a.stopReason = b.stopReason

/-- Answers that are the same, or two exceptions. -/
inductive Agree : Except PyError (Routed d) → Except PyError (Routed d) → Prop
  | ok {a b : Routed d} (h : Same a b) : Agree (.ok a) (.ok b)
  | error (e e' : PyError) : Agree (.error e) (.error e')

theorem evaluationComplete_perm {probed probed' : List (Outcome d)} (h : probed.Perm probed') :
    evaluationComplete d ranked probed = evaluationComplete d ranked probed' := by
  rw [Bool.eq_iff_iff, evaluationComplete_iff, evaluationComplete_iff]
  simp only [h.mem_iff]

theorem map_item_findAll (items : List Dict) :
    (findAll find items).map Outcome.item = items := by
  rw [findAll, List.map_map]
  conv_rhs => rw [← List.map_id items]
  exact List.map_congr_left fun item _ => (find item).2

/-- The plain loop probes candidates from the first one on. -/
theorem plainRounds_prefix {n : ℕ} {probed out : List (Outcome d)} {rest : List Dict} {first : Bool}
    (h : plainRounds find objective cons ceiling n probed rest first = .ok out) :
    out.map Outcome.item <+: probed.map Outcome.item ++ rest := by
  induction n generalizing probed rest first with
  | zero =>
      obtain rfl := Except.ok.inj h
      exact List.prefix_append _ _
  | succ n ih =>
      rw [plainRounds] at h
      split at h
      · obtain rfl := Except.ok.inj h
        exact List.prefix_append _ _
      obtain ⟨enough, -, h⟩ := bind_eq_ok.mp h
      split at h
      · obtain rfl := Except.ok.inj h
        exact List.prefix_append _ _
      dsimp only at h
      split at h
      · obtain rfl := Except.ok.inj h
        exact List.prefix_append _ _
      have hitems : ∀ take, (probed ++ findAll find (rest.take take)).map Outcome.item ++
          rest.drop take = probed.map Outcome.item ++ rest := by
        intro take
        rw [List.map_append, map_item_findAll, List.append_assoc, List.take_append_drop]
      obtain ⟨enough', -, h⟩ := bind_eq_ok.mp h
      split at h
      · obtain rfl := Except.ok.inj h
        exact ⟨_, hitems _⟩
      · rw [← hitems]
        exact ih h

/-- What is made of results does not depend on their order. -/
theorem conclude_agree (hdistinct : (ranked.map (resourceUrl d.py)).Nodup) {T : Type}
    {p : Progress d T} {probed : List (Outcome d)}
    (hsub : (p.probed.map Outcome.item).Subperm ranked) (h : p.probed.Perm probed)
    (hin : p.exhausted = false) :
    Agree (conclude d sorter objective cons ceiling ranked p false)
      (conclude d sorter objective cons ceiling ranked
        { now := (), probed, rest := [], first := false, exhausted := false } false) := by
  have hselected : ((selectionSet d cons p.probed).map Outcome.item).Subperm ranked := by
    refine List.Subperm.trans ?_ hsub
    unfold selectionSet selectable
    dsimp only
    refine (List.Sublist.map _ ?_).subperm
    split <;> split
    · exact List.filter_sublist
    · exact List.filter_sublist.trans List.filter_sublist
    · exact List.filter_sublist.trans List.filter_sublist
    · exact List.filter_sublist.trans (List.filter_sublist.trans List.filter_sublist)
  have hwinner : finalWinner d sorter objective cons ranked p.probed =
      finalWinner d sorter objective cons ranked probed := by
    rw [finalWinner, finalWinner, winnerNow, winnerNow,
      byRank_perm hdistinct hselected (selectionSet_perm h)]
  have hlive : (p.probed.any fun o => flag "live" o.row) = probed.any fun o => flag "live" o.row :=
    h.any_eq
  unfold conclude
  rw [hwinner, evaluationComplete_perm h, hin, hlive]
  show Agree ((finalWinner d sorter objective cons ranked probed).map _)
    ((finalWinner d sorter objective cons ranked probed).map _)
  cases finalWinner d sorter objective cons ranked probed with
  | error e => exact .error e e
  | ok winner =>
      exact .ok
        { winner := rfl
          probed := h
          exhausted := rfl
          complete := rfl
          stopReason := congrArg (stopReason ceiling winner.isSome
            (evaluationComplete d ranked probed) (false || false)
            (probed.any fun o => flag "live" o.row)) h.length_eq }

theorem routeNeed_under (hdistinct : (ranked.map (resourceUrl d.py)).Nodup) (start : T) :
    (routeNeed d sorter objective cons ceiling ranked deadline start).Under (InTime find deadline)
      fun r => Agree r (plainNeed find sorter objective cons ceiling ranked) := by
  refine Dialogue.under_bind.mpr ((rounds_under ranked.length (p := .start d ranked start)
    (List.Perm.refl []) rfl).mono ?_)
  rintro r hfollows
  unfold plainNeed
  generalize hplain : plainRounds find objective cons ceiling ranked.length [] ranked true = plain
  change Follows r (plainRounds find objective cons ceiling ranked.length [] ranked true) at hfollows
  rw [hplain] at hfollows
  cases hfollows with
  | error e e' => exact .error e e'
  | @ok p probed hperm hin =>
      refine Dialogue.under_bind.mpr ((budgetHit_under p.now).mono ?_)
      rintro ⟨now, hit⟩ hhit
      obtain rfl : hit = false := hhit
      have hprefix : probed.map Outcome.item <+: ranked := plainRounds_prefix hplain
      exact conclude_agree hdistinct
        ((hperm.map _).subperm.trans hprefix.sublist.subperm) hperm hin

/-- A run that is over before the deadline answers what the plain one does, whatever the order
in which the probes of its tranches end. -/
theorem routeNeed_plain (hdistinct : (ranked.map (resourceUrl d.py)).Nodup) (start : T)
    {t : Log d T} {r : Except PyError (Routed d)}
    (hr : Dialogue.Reaches (routeNeed d sorter objective cons ceiling ranked deadline start) t
      (.done r))
    (hin : ∀ e ∈ t, InTime find deadline e) :
    Agree r (plainNeed find sorter objective cons ceiling ranked) :=
  (routeNeed_under hdistinct start).reaches hr hin

end InTime

/-- The run of the pool whose probes fail, the last one first. -/
theorem routeNeed_plain_silent : ∃ t r,
    Dialogue.Reaches sampleNeed t (.done r) ∧
      Agree r (plainNeed (fun item => ⟨silent item, rfl⟩) (CmpSort.insertion _ _) .best .none 7
        twoSellers) := by
  have hends : endsWith (fun _ => true) (Dialogue.play silentPool 9 sampleNeed).2 = true := by
    decide +kernel
  obtain ⟨out, hout, -⟩ := of_endsWith hends
  have hreach := Dialogue.reaches_play silentPool 9 sampleNeed
  rw [hout] at hreach
  have hclock : ((Dialogue.play silentPool 9 sampleNeed).1.all fun e =>
      (reading e).all fun now => decide (now < 55)) = true := by
    decide +kernel
  refine ⟨_, _, hreach, routeNeed_plain (by decide +kernel) 0 hreach fun e he => ?_⟩
  have hanswer := Dialogue.answer_of_mem_play he
  obtain ⟨q, r⟩ := e
  obtain rfl : r = silentPool q := hanswer
  cases q with
  | clock last =>
      have hearly : decide (last < 55) = true := List.all_eq_true.mp hclock _ he
      exact (of_decide_eq_true hearly : last < 55)
  | alone item => rfl
  | submit items => trivial
  | wait pending =>
      intro o ho
      obtain ⟨item, -, rfl⟩ := List.mem_map.mp ho
      rfl

end Signal402.RouteNeed
