import Signal402.Lib.Calendar
import Signal402.Lib.Tally
import Signal402.Pq.Canary
import Signal402.Pq.JobLifecycle

/-!
# The spend budget

The reservations ever granted keep to the caps of every UTC hour, day and month,
though old rows are pruned: `set_automatic_send_status` deletes only rows that
are older than any window that is still open (`spend_budget`).

* `budgetWindows` — `_budget_windows`, on the calendar of `Signal402.Lib.Calendar`.
* `grantsOf` — the reservations a run granted, whatever became of their rows.
* `Covered` — the invariant: from every start inside the retention time on, the
  rows of the table weigh at least as much as the history does.
-/

namespace Signal402.StoreCalls

open AnchorStore Canary Calendar Tally

/-! ## Windows -/

/-- The day number of 1 January 1970. -/
def epochDay : ℤ := 719163

/-- The day number of a time. -/
def dayOf (now : ℤ) : ℤ := now / 86400 + epochDay

/-- The start of a day. -/
def timeOf (day : ℤ) : ℤ := (day - epochDay) * 86400

/-- `_budget_windows`: the time of the day cut to its hour, its midnight, and the
midnight of the first of its month. -/
def budgetWindows : BudgetWindows where
  hour now := timeOf (dayOf now) + now % 86400 / 3600 * 3600
  day now := timeOf (dayOf now)
  month now := timeOf (monthStart (dayOf now))

theorem hour_eq (now : ℤ) : budgetWindows.hour now = now / 3600 * 3600 := by
  change ((now / 86400 + epochDay) - epochDay) * 86400 + now % 86400 / 3600 * 3600 = _
  omega

theorem day_eq (now : ℤ) : budgetWindows.day now = now / 86400 * 86400 := by
  change ((now / 86400 + epochDay) - epochDay) * 86400 = _
  omega

/-- A month starts at most 31 days before its times. -/
theorem month_bounds (now : ℤ) :
    budgetWindows.month now ≤ now ∧ now < budgetWindows.month now + 31 * 86400 := by
  have h := monthStart_bounds (dayOf now)
  change (monthStart (dayOf now) - epochDay) * 86400 ≤ now ∧
    now < (monthStart (dayOf now) - epochDay) * 86400 + 31 * 86400
  rw [dayOf] at h ⊢
  omega

/-- The UTC month of a time. -/
def monthOf (now : ℤ) : ℤ × ℕ := ((date (dayOf now)).year, (date (dayOf now)).month)

theorem month_eq {now now' : ℤ} (h : monthOf now' = monthOf now) :
    budgetWindows.month now' = budgetWindows.month now := by
  rw [monthOf, monthOf, Prod.mk.injEq] at h
  change timeOf (monthStart _) = timeOf (monthStart _)
  rw [monthStart_eq h.1 h.2]

/-! ## The history of reservations -/

/-- A reservation that was granted. -/
structure Grant where
  fee : ℤ
  now : ℤ
  deriving DecidableEq

/-- The reservation that a call was granted, if it was one. -/
def Transition.grant (t : Transition) : Option Grant :=
  match t.call, t.result with
  | .reserveAutomaticSend _ _ fee now _, .ok _ => some ⟨fee, now⟩
  | _, _ => none

/-- The reservations ever granted in a run. -/
def grantsOf (ts : List Transition) : List Grant := ts.filterMap Transition.grant

/-- The time that a reservation or a send status carries. -/
def Transition.times (t : Transition) : List ℤ :=
  match t.call with
  | .reserveAutomaticSend _ _ _ now _ => [now]
  | .setAutomaticSendStatus _ _ now => [now]
  | _ => []

/-- The times of the reservations and send statuses of a run. -/
def timesOf (ts : List Transition) : List ℤ := ts.flatMap Transition.times

/-- The caps of an hour, a day and a month. -/
structure Caps where
  hourly : ℕ
  daily : ℕ
  monthly : ℕ

/-- The budget of a reservation at a time. -/
def Caps.budget (caps : Caps) (now : ℤ) : Budget where
  hourStart := budgetWindows.hour now
  dayStart := budgetWindows.day now
  monthStart := budgetWindows.month now
  hourlyMax := caps.hourly
  dailyMax := caps.daily
  monthlyMax := caps.monthly

/-- A reservation has the windows of its time, and the caps. -/
def Transition.Within (caps : Caps) (t : Transition) : Prop :=
  match t.call with
  | .reserveAutomaticSend _ _ _ now b => b = caps.budget now
  | _ => True

/-! ## What a call does to the rows -/

section Steps

variable {w : ℤ → ℤ} {start : ℤ} {t : Transition}

/-- The weight of the rows attempted from a time on. -/
def rowsFrom (w : ℤ → ℤ) (start : ℤ) (s : Store) : ℤ :=
  total (fun send : Send => w send.fee) (fun send => start ≤ send.attemptedAt) s.sends

/-- The weight of the grants from a time on. -/
def grantsFrom (w : ℤ → ℤ) (start : ℤ) (ts : List Transition) : ℤ :=
  total (fun g : Grant => w g.fee) (fun g => start ≤ g.now) (grantsOf ts)

theorem sendCount_eq (s : Store) : s.sendCount start = rowsFrom (fun _ => 1) start s :=
  (total_one _).symm

theorem sendFees_eq (s : Store) : s.sendFees start = rowsFrom id start s := rfl

theorem rowsFrom_setStatus {n now : ℤ} {want : SendStatus} {s s' : Store}
    (h : SendStatusSet n now want s s') (hstart : now - automationRetention ≤ start) :
    rowsFrom w start s' = rowsFrom w start s := by
  rw [rowsFrom, h.sends, total_filter, Table.update, total_map, rowsFrom]
  · intro send
    split <;> rfl
  · intro send
    split <;> rfl
  · -- a row that is pruned was attempted before the start
    intro send _ hfrom
    simp only [decide_eq_true_eq, Bool.not_eq_true', decide_eq_false_iff_not] at hfrom ⊢
    omega

/-- What a call does to the rows of the budget: it adds the row of a grant, or
keeps the weight of every start that its own time still covers. -/
inductive BudgetChange (t : Transition) : Prop
  | granted {n fee now : ℤ} {expected : PyStr} {b : Budget}
      (hcall : t.call = .reserveAutomaticSend n expected fee now b)
      (hgrant : t.grant = some ⟨fee, now⟩) (h : Reservation n fee now expected b t.before t.after)
  | kept (hgrant : t.grant = none)
      (hrows : ∀ (w : ℤ → ℤ) (start : ℤ), (∀ x ∈ t.times, x - automationRetention ≤ start) →
        rowsFrom w start t.after = rowsFrom w start t.before)

theorem rowsFrom_congr {s s' : Store} (h : s'.sends = s.sends) :
    rowsFrom w start s' = rowsFrom w start s := by rw [rowsFrom, rowsFrom, h]

theorem Transition.Valid.budgetChange (h : t.Valid) : BudgetChange t := by
  obtain ⟨s, call, r, s'⟩ := t
  rcases h.outcome with ⟨⟨e, hraised⟩, hafter⟩ | ⟨hok, heffect⟩
  · dsimp only at hraised hafter
    subst hraised hafter
    exact .kept (by cases call <;> rfl) fun w start _ => rfl
  · dsimp only at hok heffect
    subst hok
    cases heffect with
    | agreed => exact .kept rfl fun w start _ => rfl
    | updated => exact .kept rfl fun w start _ => rfl
    | inserted => exact .kept rfl fun w start _ => rfl
    | missing => exact .kept rfl fun w start _ => rfl
    | discarded => exact .kept rfl fun w start _ => rfl
    | created h =>
        exact .kept rfl fun w start _ => rowsFrom_congr (by rw [jobsOnly_createAutomationJob h])
    | jobStatusSet _ h =>
        exact .kept rfl fun w start _ =>
          rowsFrom_congr (by rw [jobsOnly_setAutomationJobStatus h])
    | signAttempted h =>
        exact .kept rfl fun w start _ =>
          rowsFrom_congr (by rw [jobsOnly_recordAutomationSignAttempt h])
    | resigned h => exact .kept rfl fun w start _ => rowsFrom_congr (resign_of_ok h).sends
    | reserved h => exact .granted rfl rfl (reservation_of_ok h)
    | sendStatusSet _ h =>
        exact .kept rfl fun w start hstart =>
          rowsFrom_setStatus (sendStatusSet_of_ok h) (hstart _ List.mem_cons_self)

theorem rowsFrom_granted {n fee now : ℤ} {expected : PyStr} {b : Budget} {s s' : Store}
    (h : Reservation n fee now expected b s s') :
    rowsFrom w start s' = rowsFrom w start s + if start ≤ now then w fee else 0 := by
  rw [rowsFrom, h.sends, total_append, total_singleton, rowsFrom]
  simp only [decide_eq_true_eq]

theorem grantsOf_granted {ts : List Transition} {g : Grant} (h : t.grant = some g) :
    grantsOf (ts ++ [t]) = grantsOf ts ++ [g] := by
  rw [grantsOf, List.filterMap_append, List.filterMap_cons, h]
  rfl

theorem grantsOf_kept {ts : List Transition} (h : t.grant = none) :
    grantsOf (ts ++ [t]) = grantsOf ts := by
  rw [grantsOf, List.filterMap_append, List.filterMap_cons, h]
  exact List.append_nil _

theorem timesOf_snoc (ts : List Transition) : timesOf (ts ++ [t]) = timesOf ts ++ t.times := by
  rw [timesOf, List.flatMap_append, List.flatMap_singleton, timesOf]

end Steps

/-! ## The invariant -/

section Runs

variable {w : ℤ → ℤ} {s s' : Store} {ts : List Transition} {caps : Caps}

/-- From every start that the retention time of all calls so far covers, the rows
weigh at least as much as the grants. -/
def Covered (w : ℤ → ℤ) (ts : List Transition) (s : Store) : Prop :=
  ∀ start, (∀ x ∈ timesOf ts, x - automationRetention ≤ start) →
    grantsFrom w start ts ≤ rowsFrom w start s

theorem Covered.snoc {t : Transition} (h : Covered w ts t.before) (ht : t.Valid) :
    Covered w (ts ++ [t]) t.after := by
  intro start hstart
  rw [timesOf_snoc, List.forall_mem_append] at hstart
  have hbefore := h start hstart.1
  cases ht.budgetChange with
  | granted hcall hgrant hreserved =>
      rw [grantsFrom, grantsOf_granted hgrant, total_append, total_singleton,
        rowsFrom_granted hreserved]
      simp only [decide_eq_true_eq]
      exact Int.add_le_add hbefore (Int.le_refl _)
  | kept hgrant hrows =>
      rw [grantsFrom, grantsOf_kept hgrant, hrows w start hstart.2]
      exact hbefore

/-- The rows cover the grants in every run, when no row weighs less than nothing
at its start. -/
theorem Run.covered (h : Run s ts s') (hsends : ∀ send ∈ s.sends, 0 ≤ w send.fee) :
    Covered w ts s' := by
  induction h with
  | nil => exact fun start _ => total_nonneg hsends
  | snoc _ ht ih => exact ih.snoc ht

theorem Run.grant_fee (h : Run s ts s') : ∀ g ∈ grantsOf ts, 0 ≤ g.fee := by
  intro g hg
  obtain ⟨t, hmem, hgrant⟩ := List.mem_filterMap.mp hg
  cases (h.valid t hmem).budgetChange with
  | granted hcall hgrant' hreserved =>
      rw [hgrant'] at hgrant
      cases hgrant
      exact le_trans (by decide) hreserved.fee_pos
  | kept hgrant' =>
      rw [hgrant'] at hgrant
      cases hgrant

/-- **One window.**  The grants with a property of their time never weigh more than
the cap, when a reservation is granted only if the rows since the start of its
window weigh little enough, and times with the property have no earlier start. -/
theorem Run.window_capped (h : Run s ts s') (window : ℤ → ℤ) (q : ℤ → Bool) (cap : ℕ)
    (hweight : ∀ fee, 0 ≤ fee → 0 ≤ w fee)
    (hsends : ∀ send ∈ s.sends, 0 ≤ send.fee) (htimes : (timesOf ts).Pairwise (· ≤ ·))
    (hstart : ∀ now, now - automationRetention ≤ window now)
    (hwindow : ∀ now now', q now → q now' → window now ≤ now')
    (hcap : ∀ t ∈ ts, ∀ n fee now expected b,
      t.call = .reserveAutomaticSend n expected fee now b →
        Reservation n fee now expected b t.before t.after →
          rowsFrom w (window now) t.before + w fee ≤ cap) :
    total (fun g : Grant => w g.fee) (fun g => q g.now) (grantsOf ts) ≤ cap := by
  induction h with
  | nil => exact Int.natCast_nonneg cap
  | @snoc ts t hrun ht ih =>
      rw [timesOf_snoc, List.pairwise_append] at htimes
      have hbefore := ih htimes.1 fun t ht => hcap t (List.mem_append_left _ ht)
      cases ht.budgetChange with
      | kept hgrant =>
          rw [grantsOf_kept hgrant]
          exact hbefore
      | @granted n fee now expected b hcall hgrant hreserved =>
          rw [grantsOf_granted hgrant, total_append, total_singleton]
          dsimp only
          by_cases hq : q now
          · rw [if_pos hq]
            have hnow : now ∈ t.times := by
              rw [Transition.times, hcall]
              exact List.mem_cons_self
            have hcovered := hrun.covered (fun send hmem => hweight _ (hsends send hmem))
              (window now) fun x hx => le_trans
                (Int.sub_le_sub_right (htimes.2.2 x hx now hnow) _) (hstart now)
            have hlast := hcap t (List.mem_append_right _ List.mem_cons_self) n fee now expected b
              hcall hreserved
            have hmono : total (fun g : Grant => w g.fee) (fun g => q g.now) (grantsOf ts) ≤
                grantsFrom w (window now) ts := by
              refine total_mono (fun g hg => hweight _ (hrun.grant_fee g hg)) fun g _ hg => ?_
              exact decide_eq_true (hwindow now g.now hq hg)
            omega
          · rw [if_neg hq, Int.add_zero]
            exact hbefore

/-- The budget of a reservation of a run is the one of its time. -/
theorem budget_of_within {t : Transition} (h : t.Within caps) {n fee now : ℤ} {expected : PyStr}
    {b : Budget} (hcall : t.call = .reserveAutomaticSend n expected fee now b) :
    b = caps.budget now := by
  rw [Transition.Within, hcall] at h
  exact h

theorem Run.hour_capped (h : Run s ts s') (hsends : ∀ send ∈ s.sends, 0 ≤ send.fee)
    (hcaps : ∀ t ∈ ts, t.Within caps) (htimes : (timesOf ts).Pairwise (· ≤ ·)) (hour : ℤ) :
    (grantsOf ts).countP (fun g => g.now / 3600 = hour) ≤ caps.hourly := by
  have hcapped := h.window_capped (w := fun _ => 1) budgetWindows.hour
    (fun now => now / 3600 = hour) caps.hourly (fun _ _ => Int.one_nonneg) hsends htimes
    (fun now => ?_) (fun now now' hnow hnow' => ?_) fun t hmem n fee now expected b hcall hres => ?_
  · rw [total_one] at hcapped
    exact Int.ofNat_le.mp hcapped
  · rw [hour_eq, automationRetention]
    omega
  · rw [decide_eq_true_eq] at hnow hnow'
    rw [hour_eq]
    omega
  · have hcount := hres.hourly
    rw [budget_of_within (hcaps t hmem) hcall, sendCount_eq] at hcount
    exact hcount

theorem Run.day_capped (h : Run s ts s') (hsends : ∀ send ∈ s.sends, 0 ≤ send.fee)
    (hcaps : ∀ t ∈ ts, t.Within caps) (htimes : (timesOf ts).Pairwise (· ≤ ·)) (day : ℤ) :
    total Grant.fee (fun g => g.now / 86400 = day) (grantsOf ts) ≤ caps.daily := by
  refine h.window_capped (w := id) budgetWindows.day (fun now => now / 86400 = day) caps.daily
    (fun _ hfee => hfee) hsends htimes (fun now => ?_) (fun now now' hnow hnow' => ?_)
    fun t hmem n fee now expected b hcall hres => ?_
  · rw [day_eq, automationRetention]
    omega
  · rw [decide_eq_true_eq] at hnow hnow'
    rw [day_eq]
    omega
  · have hfees := hres.daily
    rw [budget_of_within (hcaps t hmem) hcall, sendFees_eq] at hfees
    exact hfees

theorem Run.month_capped (h : Run s ts s') (hsends : ∀ send ∈ s.sends, 0 ≤ send.fee)
    (hcaps : ∀ t ∈ ts, t.Within caps) (htimes : (timesOf ts).Pairwise (· ≤ ·)) (month : ℤ × ℕ) :
    total Grant.fee (fun g => monthOf g.now = month) (grantsOf ts) ≤ caps.monthly := by
  refine h.window_capped (w := id) budgetWindows.month (fun now => monthOf now = month)
    caps.monthly (fun _ hfee => hfee) hsends htimes (fun now => ?_)
    (fun now now' hnow hnow' => ?_) fun t hmem n fee now expected b hcall hres => ?_
  · -- a month is shorter than the retention time
    have hstart := month_bounds now
    rw [automationRetention]
    omega
  · rw [decide_eq_true_eq] at hnow hnow'
    rw [← month_eq (hnow'.trans hnow.symm)]
    exact (month_bounds now').1
  · have hfees := hres.monthly
    rw [budget_of_within (hcaps t hmem) hcall, sendFees_eq] at hfees
    exact hfees

/-- **The spend budget.**  In any run whose times never decrease, the reservations
granted in an hour are at most the hourly cap, and the fees of the reservations
granted in a day or a month at most its cap. -/
theorem spend_budget (h : Run s ts s') (hsends : ∀ send ∈ s.sends, 0 ≤ send.fee)
    (hcaps : ∀ t ∈ ts, t.Within caps) (htimes : (timesOf ts).Pairwise (· ≤ ·)) :
    (∀ hour, (grantsOf ts).countP (fun g => g.now / 3600 = hour) ≤ caps.hourly) ∧
      (∀ day, total Grant.fee (fun g => g.now / 86400 = day) (grantsOf ts) ≤ caps.daily) ∧
        ∀ month, total Grant.fee (fun g => monthOf g.now = month) (grantsOf ts) ≤ caps.monthly :=
  ⟨h.hour_capped hsends hcaps htimes, h.day_capped hsends hcaps htimes,
    h.month_capped hsends hcaps htimes⟩

end Runs

/-- A reservation that is confirmed, and pruned when it is confirmed again after 41
days. -/
def prunedCalls : List Call :=
  reserveCalls ++ [.setAutomaticSendStatus 1 "CONFIRMED" 1003,
    .setAutomaticSendStatus 1 "CONFIRMED" 3543403]

/-- The reservation counts, though its row is gone. -/
theorem spend_budget_run :
    let ts := transitions signedStore prunedCalls
    (after signedStore prunedCalls).sends = [] ∧ grantsOf ts = [⟨3000, 1002⟩] ∧
      (∀ hour, (grantsOf ts).countP (fun g => g.now / 3600 = hour) ≤ 12) ∧
        (∀ day, total Grant.fee (fun g => g.now / 86400 = day) (grantsOf ts) ≤ 500000) ∧
          ∀ month, total Grant.fee (fun g => monthOf g.now = month) (grantsOf ts) ≤ 10000000 := by
  have hwithin : ∀ t ∈ transitions signedStore prunedCalls,
      t.Within ⟨12, 500000, 10000000⟩ := by
    simp only [prunedCalls, reserveCalls, List.cons_append, List.nil_append, transitions,
      List.forall_mem_cons]
    exact ⟨trivial, trivial, rfl, trivial, trivial, List.forall_mem_nil _⟩
  refine ⟨by decide +kernel, by decide +kernel, ?_⟩
  exact spend_budget (run_transitions signedStore prunedCalls)
    (fun send hsend => absurd hsend List.not_mem_nil) hwithin (by decide +kernel)

end Signal402.StoreCalls
