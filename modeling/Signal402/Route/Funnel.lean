import Signal402.Route.RouteNeed
import Signal402.Route.PickWinner

/-!
# What the funnel of a need tells

`Admits` is what `route_need` may ask of its environment after what it has asked: the
candidates it hands out, in the order of the ranking, are a prefix of it within the
ceiling, a few at a time, and none after the deadline.

* `collect_holds`, `probeTranche_holds` — a tranche, whatever the order its probes end in.
* `round_holds`, `rounds_holds` — one turn of the loop, and all.
* `routeNeed_truthful` — the stop reason of every run says why it stopped.
-/

namespace Signal402.RouteNeed

open Select Payment

variable (d : Deps) (T : Type) [LinearOrder T]

/-- What has been asked and answered, the latest first. -/
abbrev Log := List (Dialogue.Exchange (Ask T) (Answer d))

variable {d T}

/-- The candidates that an exchange hands out. -/
def handed (e : Dialogue.Exchange (Ask T) (Answer d)) : List Dict :=
  match e.1 with
  | .alone item => [item]
  | .submit items => items
  | .clock _ | .wait _ => []

/-- The candidates handed out, the first one first. -/
def submitted : Log d T → List Dict
  | [] => []
  | e :: t => submitted t ++ handed e

/-- The reading of the clock in an exchange. -/
def reading : Dialogue.Exchange (Ask T) (Answer d) → Option T
  | ⟨.clock _, now⟩ => some now.1
  | ⟨.alone _, _⟩ | ⟨.submit _, _⟩ | ⟨.wait _, _⟩ => none

/-- The last reading of the clock was before the deadline. -/
def Early (deadline : T) (t : Log d T) : Prop :=
  ∃ now, t.findSome? reading = some now ∧ now < deadline

/-- A reading of the clock was not before the deadline. -/
def Late (deadline : T) (t : Log d T) : Prop := ∃ e ∈ t, ∃ now, reading e = some now ∧ deadline ≤ now

/-- Candidates that may be handed out. -/
structure MayStart (deadline : T) (ceiling : ℕ) (ranked : List Dict) (t : Log d T)
    (items : List Dict) : Prop where
  ranking : submitted t ++ items <+: ranked
  few : items.length ≤ maxInFlight
  within : (submitted t ++ items).length ≤ ceiling
  early : Early deadline t

/-- What may be asked. -/
def Admits (deadline : T) (ceiling : ℕ) (ranked : List Dict) (t : Log d T) : Ask T → Prop
  | .clock _ => True
  | .alone item => MayStart deadline ceiling ranked t [item]
  | .submit items => MayStart deadline ceiling ranked t items
  | .wait pending => pending.length ≤ maxInFlight

variable {deadline : T} {ceiling : ℕ} {ranked : List Dict} {t : Log d T}

theorem Late.cons (e : Dialogue.Exchange (Ask T) (Answer d)) (h : Late deadline t) :
    Late deadline (e :: t) := by
  obtain ⟨e', he', h⟩ := h
  exact ⟨e', List.mem_cons_of_mem e he', h⟩

/-! ## Tranches -/

/-- The clock has been read: nothing was handed out, and the reading says what it is. -/
structure Read (deadline : T) (t : Log d T) (now : T) (t' : Log d T) (r : T × Bool) : Prop where
  submitted_eq : submitted t' = submitted t
  le : now ≤ r.1
  late : r.2 = true → deadline ≤ r.1 ∧ Late deadline t'
  early : r.2 = false → r.1 < deadline ∧ Early deadline t'
  keeps : Late deadline t → Late deadline t'

theorem budgetHit_holds (now : T) :
    (budgetHit d deadline now).Holds (Admits deadline ceiling ranked) (Read deadline t now) t := by
  refine Dialogue.holds_query_bind.mpr ⟨trivial, fun r => ?_⟩
  exact
    { submitted_eq := List.append_nil _
      le := r.2
      late := fun h =>
        ⟨of_decide_eq_true h, _, List.mem_cons_self, r.1, rfl, of_decide_eq_true h⟩
      early := fun h => ⟨not_le.mp (of_decide_eq_false h), r.1, rfl,
        not_le.mp (of_decide_eq_false h)⟩
      keeps := fun h => h.cons _ }

/-- What has come of candidates: a result for each, or, when the deadline has passed, for
some. -/
def Collected (deadline : T) (t' : Log d T) (now : T) (items : List Dict)
    (batch : List (Outcome d)) : Prop :=
  (batch.map Outcome.item).Perm items ∨
    (batch.map Outcome.item).Subperm items ∧ deadline ≤ now ∧ Late deadline t'

theorem Collected.subperm {now : T} {items : List Dict} {batch : List (Outcome d)}
    (h : Collected deadline t now items batch) : (batch.map Outcome.item).Subperm items := by
  rcases h with h | h
  · exact h.subperm
  · exact h.1

/-- Probes that are done, and what comes of the rest. -/
theorem Collected.append {pending : List Dict} (done : Done d pending) {now : T}
    {batch : List (Outcome d)} (h : Collected deadline t now done.rest batch) :
    Collected deadline t now pending (done.finished ++ batch) := by
  rw [Collected, List.map_append]
  rcases h with h | ⟨h, hlate⟩
  · exact .inl ((h.append_left _).trans done.perm)
  · exact .inr ⟨((List.subperm_append_left _).mpr h).trans done.perm.subperm, hlate⟩

/-- Waiting hands out nothing; `n` is enough for as many pending probes. -/
theorem collect_holds (n : ℕ) (now : T) (pending : List Dict) (collected : List (Outcome d))
    (hn : pending.length ≤ n) (hfew : pending.length ≤ maxInFlight) :
    (collect d deadline n now pending collected).Holds (Admits deadline ceiling ranked)
      (fun t' r => submitted t' = submitted t ∧ now ≤ r.1 ∧
        ∃ batch, r.2 = collected ++ batch ∧ Collected deadline t' r.1 pending batch) t := by
  induction n generalizing now pending collected t with
  | zero =>
      obtain rfl := List.length_eq_zero_iff.mp (Nat.le_zero.mp hn)
      exact ⟨rfl, le_rfl, [], (List.append_nil _).symm, .inl (List.Perm.refl _)⟩
  | succ n ih =>
      unfold collect
      split
      next hpending =>
        subst hpending
        exact ⟨rfl, le_rfl, [], (List.append_nil _).symm, .inl (List.Perm.refl _)⟩
      next hpending =>
      refine Dialogue.holds_bind.mpr ((budgetHit_holds now).mono ?_)
      rintro t₁ ⟨now₁, hit⟩ hread
      dsimp only
      split
      next hlate =>
        exact ⟨hread.submitted_eq, hread.le, [], (List.append_nil _).symm,
          .inr ⟨List.nil_subperm, hread.late hlate⟩⟩
      refine Dialogue.holds_query_bind.mpr ⟨hfew, fun done => ?_⟩
      have hlength := done.perm.length_eq
      have hpos := List.length_pos_of_ne_nil (done.finished_ne hpending)
      rw [List.length_append, List.length_map] at hlength
      refine (ih now₁ done.rest (collected ++ done.finished) (by omega) (by omega)).mono ?_
      rintro t₂ r ⟨hsubmitted, hle, batch, hr, hbatch⟩
      refine ⟨?_, hread.le.trans hle, done.finished ++ batch, ?_, hbatch.append done⟩
      · rw [hsubmitted, ← hread.submitted_eq]
        exact List.append_nil _
      · rw [hr, List.append_assoc]

/-- What a tranche leaves behind: its candidates were handed out and something came of each,
or the deadline has passed. -/
structure Tried (deadline : T) (t : Log d T) (now : T) (items : List Dict) (t' : Log d T)
    (r : T × List (Outcome d)) : Prop where
  le : now ≤ r.1
  handed_eq : submitted t' = submitted t ++ items ∨
    submitted t' = submitted t ∧ r.2 = [] ∧ deadline ≤ r.1 ∧ Late deadline t'
  collected : Collected deadline t' r.1 items r.2

theorem probeTranche_holds (now : T) (items : List Dict) (hne : items ≠ [])
    (hranking : submitted t ++ items <+: ranked) (hfew : items.length ≤ maxInFlight)
    (hwithin : (submitted t ++ items).length ≤ ceiling) :
    (probeTranche d deadline now items).Holds (Admits deadline ceiling ranked)
      (Tried deadline t now items) t := by
  unfold probeTranche
  rw [if_neg hne]
  refine Dialogue.holds_bind.mpr ((budgetHit_holds now).mono ?_)
  rintro t₁ ⟨now₁, hit⟩ hread
  dsimp only
  split
  next hlate =>
    obtain ⟨hdeadline, hpassed⟩ := hread.late hlate
    exact
      { le := hread.le
        handed_eq := .inr ⟨hread.submitted_eq, rfl, hdeadline, hpassed⟩
        collected := .inr ⟨List.nil_subperm, hdeadline, hpassed⟩ }
  next hearly =>
    rw [Bool.not_eq_true] at hearly
    have hstart : MayStart deadline ceiling ranked t₁ items :=
      { ranking := hread.submitted_eq ▸ hranking
        few := hfew
        within := hread.submitted_eq ▸ hwithin
        early := (hread.early hearly).2 }
    split
    next item =>
      refine Dialogue.holds_query_bind.mpr ⟨hstart, fun o => ?_⟩
      exact
        { le := hread.le
          handed_eq := .inl (congrArg (· ++ [item]) hread.submitted_eq)
          collected := .inl (by rw [List.map_singleton, o.2]) }
    · refine Dialogue.holds_query_bind.mpr ⟨hstart, fun _ => ?_⟩
      refine (collect_holds items.length now₁ items [] le_rfl hfew).mono ?_
      rintro t₂ ⟨now₂, batch⟩ ⟨hsubmitted, hle, batch', hr, hcollected⟩
      obtain rfl : batch = batch' := hr
      exact
        { le := hread.le.trans hle
          handed_eq := .inl (hsubmitted.trans (congrArg (· ++ items) hread.submitted_eq))
          collected := hcollected }

/-! ## The loop -/

/-- Between rounds: the candidates are the ones handed out and the rest, and something has
come of each one handed out, or the deadline has passed. -/
structure Going (deadline : T) (ceiling : ℕ) (ranked : List Dict) (t : Log d T)
    (p : Progress d T) : Prop where
  ranking : submitted t ++ p.rest = ranked
  collected : Collected deadline t p.now (submitted t) p.probed
  within : (submitted t).length ≤ ceiling
  unexhausted : p.exhausted = false

/-- After the loop: why it ended. -/
structure Ended (deadline : T) (ceiling : ℕ) (ranked : List Dict) (t : Log d T)
    (p : Progress d T) : Prop where
  collected : (p.probed.map Outcome.item).Subperm ranked
  within : p.probed.length ≤ ceiling
  exhausted : p.exhausted = true → Late deadline t
  reason : Late deadline t ∧ deadline ≤ p.now ∨ (∃ o ∈ p.probed, flag "live" o.row = true) ∨
    (p.probed.map Outcome.item).Perm ranked ∨ ceiling ≤ p.probed.length

theorem Going.probed {p : Progress d T} (h : Going deadline ceiling ranked t p) :
    (p.probed.map Outcome.item).Subperm ranked ∧ p.probed.length ≤ ceiling := by
  constructor
  · refine h.collected.subperm.trans ?_
    rw [← h.ranking]
    exact (List.sublist_append_left _ _).subperm
  · have hle := h.collected.subperm.length_le
    rw [List.length_map] at hle
    exact hle.trans h.within

/-- A loop that stops for a reason. -/
theorem Going.ended {p : Progress d T} (h : Going deadline ceiling ranked t p)
    (hreason : Late deadline t ∧ deadline ≤ p.now ∨ (∃ o ∈ p.probed, flag "live" o.row = true) ∨
      p.rest = [] ∨ ceiling ≤ p.probed.length) : Ended deadline ceiling ranked t p where
  collected := h.probed.1
  within := h.probed.2
  exhausted := fun hexhausted => absurd hexhausted (by rw [h.unexhausted]; decide)
  reason := by
    rcases hreason with hlate | hlive | hrest | hfull
    · exact .inl hlate
    · exact .inr (.inl hlive)
    · rcases h.collected with hall | ⟨-, hdeadline, hlate⟩
      · have hranking := h.ranking
        rw [hrest, List.append_nil] at hranking
        exact .inr (.inr (.inl (hranking ▸ hall)))
      · exact .inl ⟨hlate, hdeadline⟩
    · exact .inr (.inr (.inr hfull))

/-- Enough evidence has a live result. -/
theorem live_of_enough {objective : Objective} {cons : Constraints} {probed : List (Outcome d)}
    (h : enoughEvidence d (rowsOf d probed) objective cons = .ok true) :
    ∃ o ∈ probed, flag "live" o.row = true := by
  obtain ⟨found, hfound, h⟩ := bind_eq_ok.mp h
  cases found with
  | nil => cases h
  | cons r rest =>
      obtain ⟨hmem, hviable⟩ := (mem_keepIf hfound).mp List.mem_cons_self
      obtain ⟨x, hx, hobj⟩ := List.mem_filterMap.mp hmem
      obtain ⟨o, ho, rfl⟩ := List.mem_map.mp hx
      obtain rfl := Option.some.inj hobj
      exact ⟨o, ho, (passes_iff.mp (both_eq_true.mp hviable).1).live⟩

/-- What a turn leaves behind: the loop goes on with fewer candidates left than `n`, or it
has ended. -/
structure Turned (deadline : T) (ceiling : ℕ) (ranked : List Dict) (n : ℕ) (t : Log d T)
    (r : Except PyError (Bool × Progress d T)) : Prop where
  going : ∀ p, r = .ok (true, p) → Going deadline ceiling ranked t p ∧ p.rest.length < n
  ended : ∀ p, r = .ok (false, p) → Ended deadline ceiling ranked t p

theorem turned_error {n : ℕ} {e : PyError} : Turned deadline ceiling ranked n t (.error e) where
  going _ h := by cases h
  ended _ h := by cases h

theorem turned_ended {n : ℕ} {p : Progress d T} (h : Ended deadline ceiling ranked t p) :
    Turned deadline ceiling ranked n t (.ok (false, p)) where
  going _ hp := by cases hp
  ended _ hp := by
    obtain rfl := (Prod.mk.inj (Except.ok.inj hp)).2
    exact h

/-- A loop that is cut by the deadline. -/
theorem Ended.cut {p : Progress d T} (hcollected : (p.probed.map Outcome.item).Subperm ranked)
    (hwithin : p.probed.length ≤ ceiling) (hdeadline : deadline ≤ p.now)
    (hlate : Late deadline t) : Ended deadline ceiling ranked t p where
  collected := hcollected
  within := hwithin
  exhausted _ := hlate
  reason := .inl ⟨hlate, hdeadline⟩

variable {objective : Objective} {cons : Constraints}

/-- The clock is read between two steps of the loop. -/
theorem Going.read {p : Progress d T} {t' : Log d T} {r : T × Bool}
    (h : Going deadline ceiling ranked t p) (hread : Read deadline t p.now t' r) :
    Going deadline ceiling ranked t' { p with now := r.1 } where
  ranking := by rw [hread.submitted_eq]; exact h.ranking
  collected := by
    rw [hread.submitted_eq]
    rcases h.collected with hall | ⟨hsome, hdeadline, hlate⟩
    · exact .inl hall
    · exact .inr ⟨hsome, hdeadline.trans hread.le, hread.keeps hlate⟩
  within := by rw [hread.submitted_eq]; exact h.within
  unexhausted := h.unexhausted

theorem afterTranche_holds {n : ℕ} {p : Progress d T} (h : Going deadline ceiling ranked t p)
    (hn : p.rest.length < n) :
    (afterTranche d deadline objective cons ranked p).Holds (Admits deadline ceiling ranked)
      (Turned deadline ceiling ranked n) t := by
  unfold afterTranche
  split
  · exact turned_error
  next henough => exact turned_ended (h.ended (.inr (.inl (live_of_enough henough))))
  · refine Dialogue.holds_bind.mpr ((budgetHit_holds p.now).mono ?_)
    rintro t₁ ⟨now₁, hit⟩ hread
    dsimp only
    split
    next hcut =>
      obtain ⟨hdeadline, hlate⟩ := hread.late (Bool.and_eq_true_iff.mp hcut).1
      exact turned_ended (Ended.cut h.probed.1 h.probed.2 hdeadline hlate)
    · refine ⟨fun p' hp' => ?_, fun p' hp' => by cases hp'⟩
      obtain rfl := (Prod.mk.inj (Except.ok.inj hp')).2
      exact ⟨h.read hread, hn⟩

/-- Nothing has come of a tranche only when the deadline has passed. -/
theorem Collected.late_of_nil {now : T} {items : List Dict} (hne : items ≠ [])
    (h : Collected deadline t now items ([] : List (Outcome d))) :
    deadline ≤ now ∧ Late deadline t := by
  rcases h with h | ⟨-, hlate⟩
  · exact absurd h.nil_eq.symm hne
  · exact hlate

theorem nextTrancheSize_le (probed remaining ceiling : ℕ) (first : Bool) :
    nextTrancheSize probed remaining ceiling first ≤ maxInFlight ∧
      nextTrancheSize probed remaining ceiling first ≤ remaining ∧
      nextTrancheSize probed remaining ceiling first ≤ ceiling - probed := by
  unfold nextTrancheSize
  dsimp only
  split
  · exact ⟨Nat.zero_le _, Nat.zero_le _, Nat.zero_le _⟩
  · split
    · refine ⟨Nat.min_le_left _ _, ?_, ?_⟩
      · exact (Nat.min_le_right _ _).trans (Nat.min_le_left _ _)
      · exact (Nat.min_le_right _ _).trans (Nat.min_le_right _ _)
    · refine ⟨Nat.min_le_left _ _, ?_, ?_⟩
      · exact (Nat.min_le_right _ _).trans (Nat.min_le_left _ _)
      · exact (Nat.min_le_right _ _).trans (Nat.min_le_right _ _)

theorem tranche_holds {p : Progress d T} (h : Going deadline ceiling ranked t p)
    (hall : (p.probed.map Outcome.item).Perm (submitted t)) {take : ℕ} (hpos : take ≠ 0)
    (hfew : take ≤ maxInFlight) (hrest : take ≤ p.rest.length)
    (hwithin : take ≤ ceiling - p.probed.length) (hle : p.probed.length ≤ ceiling) :
    (tranche d deadline objective cons ranked p take).Holds (Admits deadline ceiling ranked)
      (Turned deadline ceiling ranked p.rest.length) t := by
  have hlength : (p.rest.take take).length = take := List.length_take_of_le hrest
  have hitems : p.rest.take take ≠ [] := by
    intro hnil
    rw [hnil] at hlength
    exact hpos hlength.symm
  have hcount : (submitted t ++ p.rest.take take).length ≤ ceiling := by
    have := hall.length_eq
    rw [List.length_map] at this
    rw [List.length_append, hlength]
    omega
  have hranking : submitted t ++ p.rest.take take ++ p.rest.drop take = ranked := by
    rw [List.append_assoc, List.take_append_drop]
    exact h.ranking
  have hdrop : (p.rest.drop take).length < p.rest.length := by
    rw [List.length_drop]
    omega
  unfold tranche
  refine Dialogue.holds_bind.mpr ((probeTranche_holds p.now _ hitems ⟨_, hranking⟩
    (hlength.symm ▸ hfew) hcount).mono ?_)
  rintro t₁ ⟨now₁, batch⟩ htried
  dsimp only
  split
  next hbatch =>
    -- only a deadline that has passed leaves nothing, so the next reading is past it
    subst hbatch
    obtain ⟨hdeadline, -⟩ := htried.collected.late_of_nil hitems
    refine Dialogue.holds_bind.mpr ((budgetHit_holds now₁).mono ?_)
    rintro t₂ ⟨now₂, hit⟩ hread
    dsimp only
    split
    next hlate =>
      obtain ⟨hdeadline, hpassed⟩ := hread.late hlate
      exact turned_ended (Ended.cut h.probed.1 h.probed.2 hdeadline hpassed)
    next hearly =>
      rw [Bool.not_eq_true] at hearly
      exact absurd (hdeadline.trans hread.le) (not_le.mpr (hread.early hearly).1)
  next hbatch =>
    have hhanded : submitted t₁ = submitted t ++ p.rest.take take := by
      rcases htried.handed_eq with hhanded | ⟨-, hnil, -⟩
      · exact hhanded
      · exact absurd hnil hbatch
    refine afterTranche_holds ?_ hdrop
    exact
      { ranking := by rw [hhanded]; exact hranking
        collected := by
          rw [hhanded, Collected, List.map_append]
          rcases htried.collected with hdone | ⟨hsome, hlate⟩
          · exact .inl (hall.append hdone)
          · exact .inr ⟨(hall.append_right _).subperm.trans ((List.subperm_append_left _).mpr hsome),
              hlate⟩
        within := by rw [hhanded]; exact hcount
        unexhausted := h.unexhausted }

/-- One turn of the loop. -/
theorem round_holds {p : Progress d T} (h : Going deadline ceiling ranked t p) :
    (round d deadline objective cons ceiling ranked p).Holds (Admits deadline ceiling ranked)
      (Turned deadline ceiling ranked p.rest.length) t := by
  unfold round
  split
  next hstop =>
    rcases hstop with hrest | hfull
    · exact turned_ended (h.ended (.inr (.inr (.inl hrest))))
    · exact turned_ended (h.ended (.inr (.inr (.inr hfull))))
  next hgo =>
  push Not at hgo
  refine Dialogue.holds_bind.mpr ((budgetHit_holds p.now).mono ?_)
  rintro t₁ ⟨now₁, hit⟩ hread
  dsimp only
  split
  next hlate =>
    obtain ⟨hdeadline, hpassed⟩ := hread.late hlate
    exact turned_ended (Ended.cut h.probed.1 h.probed.2 hdeadline hpassed)
  next hearly =>
  rw [Bool.not_eq_true] at hearly
  have h₁ := h.read hread
  have hall : (p.probed.map Outcome.item).Perm (submitted t₁) := by
    rcases h₁.collected with hall | ⟨-, hdeadline, -⟩
    · exact hall
    · exact absurd hdeadline (not_le.mpr (hread.early hearly).1)
  split
  · exact turned_error
  next henough => exact turned_ended (h₁.ended (.inr (.inl (live_of_enough henough))))
  · obtain ⟨hfew, hrest, hwithin⟩ :=
      nextTrancheSize_le p.probed.length p.rest.length ceiling p.first
    split
    next hzero =>
      exfalso
      have hpos := List.length_pos_of_ne_nil hgo.1
      have hleft := hgo.2
      simp only [nextTrancheSize, firstTranche, expandTranche] at hzero
      split_ifs at hzero <;> omega
    next hpos => exact tranche_holds h₁ hall hpos hfew hrest hwithin hgo.2.le

/-- The loop; `n` is enough for as many candidates. -/
theorem rounds_holds (n : ℕ) {p : Progress d T} (hn : p.rest.length ≤ n)
    (h : Going deadline ceiling ranked t p) :
    (rounds d deadline objective cons ceiling ranked n p).Holds (Admits deadline ceiling ranked)
      (fun t' r => ∀ p', r = .ok p' → Ended deadline ceiling ranked t' p') t := by
  induction n generalizing p t with
  | zero =>
      rintro p' hp'
      obtain rfl := Except.ok.inj hp'
      exact h.ended (.inr (.inr (.inl (List.length_eq_zero_iff.mp (Nat.le_zero.mp hn)))))
  | succ n ih =>
      refine Dialogue.holds_bind.mpr ((round_holds h).mono ?_)
      rintro t₁ (e | ⟨_ | _, p₁⟩) hturned
      · rintro p' ⟨⟩
      · rintro p' hp'
        obtain rfl := Except.ok.inj hp'
        exact hturned.ended _ rfl
      · obtain ⟨hgoing, hless⟩ := hturned.going p₁ rfl
        exact ih (by omega) hgoing

/-! ## The answer -/

theorem mem_probedUrls {probed : List (Outcome d)} {url : PyStr} :
    url ∈ probedUrls d probed ↔ url ≠ [] ∧ ∃ o ∈ probed, resourceUrl d.py o.item = url := by
  rw [probedUrls, List.mem_filterMap]
  constructor
  · rintro ⟨o, ho, hurl⟩
    rw [o.url_eq] at hurl
    dsimp only at hurl
    split at hurl
    · cases hurl
    next hne =>
      obtain rfl := Option.some.inj hurl
      exact ⟨hne, o, ho, rfl⟩
  · rintro ⟨hne, o, ho, rfl⟩
    refine ⟨o, ho, ?_⟩
    rw [o.url_eq]
    exact if_neg hne

/-- The evaluation is complete when every candidate with a URL has a result. -/
theorem evaluationComplete_iff {probed : List (Outcome d)} :
    evaluationComplete d ranked probed = true ↔ ∀ item ∈ ranked, resourceUrl d.py item ≠ [] →
      ∃ o ∈ probed, resourceUrl d.py o.item = resourceUrl d.py item := by
  rw [evaluationComplete, List.all_eq_true]
  refine forall₂_congr fun item _ => ?_
  rw [Bool.or_eq_true, List.isEmpty_iff, List.contains_iff_mem, mem_probedUrls]
  constructor
  · rintro (hnil | ⟨-, h⟩) hne
    · exact absurd hnil hne
    · exact h
  · intro h
    by_cases hnil : resourceUrl d.py item = []
    · exact .inl hnil
    · exact .inr ⟨hnil, h hnil⟩

theorem complete_of_perm {probed : List (Outcome d)}
    (h : (probed.map Outcome.item).Perm ranked) : evaluationComplete d ranked probed = true := by
  refine evaluationComplete_iff.mpr fun item hitem _ => ?_
  obtain ⟨o, ho, rfl⟩ := List.mem_map.mp (h.symm.subset hitem)
  exact ⟨o, ho, rfl⟩

theorem selectable_subset {probed : List (Outcome d)} {o : Outcome d}
    (h : o ∈ selectable d cons probed) : o ∈ probed ∧ flag "live" o.row = true := by
  unfold selectable at h
  dsimp only at h
  split at h
  · exact List.mem_filter.mp h
  · exact List.mem_filter.mp (List.mem_filter.mp h).1

theorem selectionSet_subset {probed : List (Outcome d)} {o : Outcome d}
    (h : o ∈ selectionSet d cons probed) : o ∈ probed ∧ flag "live" o.row = true := by
  unfold selectionSet at h
  dsimp only at h
  split at h
  · exact selectable_subset h
  · exact selectable_subset (List.mem_filter.mp h).1

variable {sorter : CmpSort.Sorter Dict PyError}

/-- A winner is a live result. -/
theorem winnerNow_mem {probed : List (Outcome d)} {w : Dict}
    (h : winnerNow d sorter objective cons ranked probed = .ok (some w)) :
    ∃ o ∈ probed, o.row = w ∧ flag "live" o.row = true := by
  obtain ⟨o, ho, hobj⟩ := List.mem_map.mp (pickWinner_mem h)
  obtain ⟨hmem, hlive⟩ := selectionSet_subset ((List.mem_insertionSort _).mp ho)
  exact ⟨o, hmem, Json.obj.inj hobj, hlive⟩

/-- The miss that goes with a stop. -/
def missOf : StopReason → Option MissReason
  | .probeBudgetExhausted => some .probeBudgetExhausted
  | .probeLimitReached => some .probeLimitReached
  | .constraintsUnmet => some .constraintsUnmet
  | .winnerSelected | .candidateSetExhausted => none

/-- What an answer says is what happened. -/
structure Truthful (cons : Constraints) (objective : Objective) (deadline : T) (ceiling : ℕ)
    (ranked : List Dict) (t : Log d T) (out : Routed d) : Prop where
  once : (out.probed.map Outcome.item).Subperm ranked
  within : out.probed.length ≤ ceiling
  complete_iff : out.evaluationComplete = true ↔ ∀ item ∈ ranked, resourceUrl d.py item ≠ [] →
    ∃ o ∈ out.probed, resourceUrl d.py o.item = resourceUrl d.py item
  won : out.stopReason = .winnerSelected ↔ out.winner.isSome = true
  winner : ∀ w, out.winner = some w → http200WinnerOk d w objective cons = .ok true ∧
    ∃ o ∈ out.probed, o.row = w
  limit : out.stopReason = .probeLimitReached →
    out.probed.length = ceiling ∧ out.evaluationComplete = false
  budget : out.stopReason = .probeBudgetExhausted →
    Late deadline t ∧ out.evaluationComplete = false
  emptied : out.stopReason = .candidateSetExhausted →
    out.evaluationComplete = true ∧ ∀ o ∈ out.probed, flag "live" o.row = false
  unmet : out.stopReason = .constraintsUnmet → ∃ o ∈ out.probed, flag "live" o.row = true
  miss : ∀ reason, missOf out.stopReason = some reason → out.missReason = reason

/-- The reasons, when the last one is never a fallback. -/
theorem stopReason_spec {won complete exhausted someLive : Bool} {probed : ℕ}
    (hfallback : won = false → complete = false → exhausted = false → someLive = false →
      ceiling ≤ probed) :
    (stopReason ceiling won complete exhausted someLive probed = .winnerSelected ↔ won = true) ∧
    (stopReason ceiling won complete exhausted someLive probed = .probeLimitReached →
      ceiling ≤ probed ∧ complete = false) ∧
    (stopReason ceiling won complete exhausted someLive probed = .probeBudgetExhausted →
      exhausted = true ∧ complete = false) ∧
    (stopReason ceiling won complete exhausted someLive probed = .candidateSetExhausted →
      complete = true ∧ someLive = false) ∧
    (stopReason ceiling won complete exhausted someLive probed = .constraintsUnmet →
      someLive = true) := by
  unfold stopReason
  by_cases hfull : ceiling ≤ probed
  · cases won <;> cases complete <;> cases exhausted <;> cases someLive <;> simp [hfull]
  · cases won <;> cases complete <;> cases exhausted <;> cases someLive <;>
      simp [hfull]
    exact absurd (hfallback rfl rfl rfl rfl) hfull

/-- The miss is the one of the stop, or the last result's. -/
theorem missReason_eq {complete exhausted someLive : Bool} {probed : List (Outcome d)}
    {reason : MissReason} (hempty : ranked = [] → complete = true ∧ someLive = false)
    (hfallback : complete = false → exhausted = false → someLive = false →
      ceiling ≤ probed.length)
    (h : missOf (stopReason ceiling false complete exhausted someLive probed.length) =
      some reason) : missReason d ceiling ranked complete exhausted someLive probed = reason := by
  unfold missReason
  dsimp only
  split
  next hnil =>
    obtain ⟨rfl, rfl⟩ := hempty hnil
    simp [stopReason, missOf] at h
  unfold stopReason at h
  by_cases hfull : ceiling ≤ probed.length
  · cases complete <;> cases exhausted <;> cases someLive <;> simp [hfull, missOf] at h <;>
      simp [hfull, h]
  · cases complete <;> cases exhausted <;> cases someLive <;> simp [hfull, missOf] at h <;>
      simp [hfull, h]
    exact absurd (hfallback rfl rfl rfl) hfull

/-- What follows the loop tells the truth about it. -/
theorem conclude_truthful {p : Progress d T} (h : Ended deadline ceiling ranked t p)
    {t' : Log d T} {r : T × Bool} (hread : Read deadline t p.now t' r) {out : Routed d}
    (hout : conclude d sorter objective cons ceiling ranked p r.2 = .ok out) :
    Truthful cons objective deadline ceiling ranked t' out := by
  obtain ⟨late, hlate, hout⟩ := bind_eq_ok.mp hout
  obtain ⟨winner, hwinner, rfl⟩ := map_eq_ok.mp hout
  obtain ⟨now?, hnow, hfinal⟩ := bind_eq_ok.mp hwinner
  have hexhausted : (p.exhausted || late) = true → Late deadline t' := by
    intro hor
    rcases Bool.or_eq_true_iff.mp hor with hp | rfl
    · exact hread.keeps (h.exhausted hp)
    · split at hlate
      next hhit => exact (hread.late (Bool.and_eq_true_iff.mp hhit).1).2
      · cases hlate
  have hlive : (∃ o ∈ p.probed, flag "live" o.row = true) ↔
      (p.probed.any fun o => flag "live" o.row) = true := by
    rw [List.any_eq_true]
  -- a run that is over in time has looked at every candidate, at as many as it may, or at
  -- one that is live
  have hfallback : evaluationComplete d ranked p.probed = false → (p.exhausted || late) = false →
      (p.probed.any fun o => flag "live" o.row) = false → ceiling ≤ p.probed.length := by
    intro hcomplete hnot hdead
    obtain ⟨hp, rfl⟩ := Bool.or_eq_false_iff.mp hnot
    rcases h.reason with ⟨-, hdeadline⟩ | hsome | hall | hfull
    · exfalso
      have hhit : r.2 = true := by
        by_contra hearly
        rw [Bool.not_eq_true] at hearly
        exact absurd (hdeadline.trans hread.le) (not_le.mpr (hread.early hearly).1)
      rw [hhit, hcomplete] at hlate
      obtain ⟨w?, hw, hnone⟩ := map_eq_ok.mp hlate
      cases w? with
      | none => cases hnone
      | some w =>
          obtain ⟨o, ho, -, hliveo⟩ := winnerNow_mem hw
          rw [hlive.mp ⟨o, ho, hliveo⟩] at hdead
          cases hdead
    · rw [hlive.mp hsome] at hdead
      cases hdead
    · rw [complete_of_perm hall] at hcomplete
      cases hcomplete
    · exact hfull
  obtain ⟨hwon, hlimit, hbudget, hemptied, hunmet⟩ := stopReason_spec
    fun (_ : winner.isSome = false) => hfallback
  exact
    { once := h.collected
      within := h.within
      complete_iff := evaluationComplete_iff
      won := hwon
      winner := by
        intro w hw
        obtain rfl : winner = some w := hw
        cases now? with
        | none => cases hfinal
        | some w' =>
            obtain ⟨ok, hok, hif⟩ := map_eq_ok.mp hfinal
            split at hif
            next htrue =>
              obtain rfl := Option.some.inj hif
              obtain ⟨o, ho, hrow, -⟩ := winnerNow_mem hnow
              exact ⟨htrue ▸ hok, o, ho, hrow⟩
            · cases hif
      limit := fun hstop => ⟨le_antisymm h.within (hlimit hstop).1, (hlimit hstop).2⟩
      budget := fun hstop => ⟨hexhausted (hbudget hstop).1, (hbudget hstop).2⟩
      emptied := by
        intro hstop
        obtain ⟨hcomplete, hdead⟩ := hemptied hstop
        refine ⟨hcomplete, fun o ho => ?_⟩
        by_contra hliveo
        rw [Bool.not_eq_false] at hliveo
        rw [hlive.mp ⟨o, ho, hliveo⟩] at hdead
        cases hdead
      unmet := fun hstop => hlive.mpr (hunmet hstop)
      miss := by
        intro reason hreason
        dsimp only at hreason ⊢
        have hlost : winner.isSome = false := by
          by_contra hsome
          rw [Bool.not_eq_false] at hsome
          rw [hwon.mpr hsome] at hreason
          cases hreason
        rw [hlost] at hreason
        refine missReason_eq ?_ hfallback hreason
        rintro rfl
        have hnil : p.probed = [] := by
          have := h.collected.length_le
          rw [List.length_map] at this
          exact List.length_eq_zero_iff.mp (Nat.le_zero.mp this)
        rw [hnil]
        exact ⟨rfl, rfl⟩ }

/-- The ceiling of a request is at most the server's. -/
theorem ceilingOf_le {py : Interp} {searchDepth maxCandidates : Json} {asked : Option ℤ}
    (h : ceilingOf py searchDepth maxCandidates asked = .ok ceiling) :
    1 ≤ ceiling ∧ ceiling ≤ probeCeiling := by
  obtain ⟨plan, hplan, rfl⟩ := map_eq_ok.mp h
  cases asked with
  | some n =>
      dsimp only [probeCeiling]
      omega
  | none =>
      obtain ⟨requested, -, rfl⟩ := map_eq_ok.mp hplan
      dsimp only
      split
      · exact ⟨Nat.le_max_left _ _, max_le (by decide) (Nat.min_le_right _ _)⟩
      · exact ⟨Nat.le_max_left _ _, max_le (by decide) (Nat.min_le_right _ _)⟩

theorem routeNeed_holds (start : T) :
    (routeNeed d sorter objective cons ceiling ranked deadline start).Holds
      (Admits deadline ceiling ranked) (fun t out => ∀ answer, out = .ok answer →
        Truthful cons objective deadline ceiling ranked t answer) [] := by
  have hstart : Going deadline ceiling ranked ([] : Log d T) (.start d ranked start) :=
    { ranking := List.nil_append _
      collected := .inl (List.Perm.refl _)
      within := Nat.zero_le _
      unexhausted := rfl }
  refine Dialogue.holds_bind.mpr ((rounds_holds ranked.length le_rfl hstart).mono ?_)
  rintro t (e | p) hended
  · rintro answer ⟨⟩
  · refine Dialogue.holds_bind.mpr ((budgetHit_holds p.now).mono ?_)
    rintro t' ⟨now, hit⟩ hread answer hanswer
    exact conclude_truthful (hended p rfl) hread hanswer

section Sample

/-- A candidate that nothing answers for. -/
def silent (item : Dict) : Outcome .plain := .stub .plain item "base" "weather" "no_402_envelope" ""

/-- A clock that stands still, and a pool whose probes fail, the last one first. -/
def silentPool : (q : Ask ℕ) → Answer .plain q
  | .clock last => ⟨last, le_rfl⟩
  | .alone item => ⟨silent item, rfl⟩
  | .submit _ => ()
  | .wait pending =>
      { finished := pending.reverse.map silent
        rest := []
        perm := by
          rw [List.append_nil, List.map_map]
          show (pending.reverse.map id).Perm pending
          rw [List.map_id]
          exact List.reverse_perm pending
        finished_ne := fun h hnil => h (by simpa using hnil) }

/-- Two candidates. -/
def twoSellers : List Dict :=
  [[("resource", .str "https://a.example/")], [("resource", .str "https://b.example/")]]

def sampleNeed : Talk .plain ℕ (Except PyError (Routed .plain)) :=
  routeNeed .plain (CmpSort.insertion _ _) .best .none 7 twoSellers 55 0

/-- Whether a dialogue has ended, and how. -/
def endsWith (check : Routed .plain → Bool) :
    Talk .plain ℕ (Except PyError (Routed .plain)) → Bool
  | .done (.ok out) => check out
  | .done (.error _) => false
  | .ask _ _ => false

theorem of_endsWith {check : Routed .plain → Bool}
    {x : Talk .plain ℕ (Except PyError (Routed .plain))} (h : endsWith check x = true) :
    ∃ out, x = .done (.ok out) ∧ check out = true := by
  cases x with
  | done r =>
      cases r with
      | error e => cases h
      | ok out => exact ⟨out, rfl, h⟩
  | ask q next => cases h

end Sample
end Signal402.RouteNeed
