import Signal402.Base.Decimal
import Signal402.Lib.CmpSort
import Signal402.Lib.Scan
import Signal402.Catalog.Listings
import Mathlib.Data.List.Lex
import Mathlib.Data.Prod.Lex
import Mathlib.Order.WithBot

/-!
# The refresh queue (`shadow.py`)

`due_valued` lists stale listings by the reasons to refresh them, a reason of higher priority
first, and each listing once.  For each reason it reads at most `QUEUE_SCAN` rows.

The rows of every reason but one hold each URL once, so that the scan is as good as reading all
rows.  A listing whose sources disagree has a row for each rail they disagree on, and such rows
can fill the scan.

* `due_valued_first` — the result is the front of the whole queue, if the scan of these rows
  finds enough;
* `scannedEnough_of_oneRail` — it does if no listing has two such rails;
* `due_valued_hidden` — if it does not, the result is another.
-/

namespace Signal402.Shadow

/-! ## Queries -/

/-- `REFRESH_REASONS`. -/
inductive Reason
  | recentSearch
  | recentRoute
  | sourceDisagreement
  | priceChange
  | paytoChange
  | schemaChange
  | failedProbe
  | staleObservation
  | highDemandCapability
  deriving DecidableEq, Repr

def refreshReasons : List Reason :=
  [.recentSearch, .recentRoute, .sourceDisagreement, .priceChange, .paytoChange, .schemaChange,
    .failedProbe, .staleObservation, .highDemandCapability]

/-- `QUEUE_SCAN`. -/
def queueScan : ℕ := 20

/-- `HIGH_DEMAND_MIN`. -/
def highDemandMin : ℕ := 2

/-- `HOT_ELIGIBLE_S`. -/
def hotEligibleS : ℤ := 3600

/-- `WARM_ELIGIBLE_S`. -/
def warmEligibleS : ℤ := 86400

/-- The times that `due_valued` compares with. -/
structure Times where
  when : ℤ
  stale : ℤ
  recent : ℤ
  changeSince : ℤ

/-- The times of a call, with `hot_refresh_s()`. -/
def Times.of (hotRefreshS when : ℤ) : Times where
  when := when
  stale := when - hotRefreshS
  recent := when - hotEligibleS
  changeSince := when - warmEligibleS

/-- `ORDER BY n DESC`, with `NULL` behind the numbers. -/
def descending : Option ℤ → WithTop ℤ
  | some n => ((-n : ℤ) : WithTop ℤ)
  | none => ⊤

/-- `ORDER BY` a first key and then the URL. -/
def orderBy {A : Type} (key : A → WithTop ℤ) (url : A → PyStr) (rows : List A) : List A :=
  CmpSort.keySort (fun a => toLex (key a, url a)) rows

section Queries

-- `pick` is the row that `SELECT DISTINCT` orders a URL by, which the database leaves open
variable (pick : List ℤ → ℤ) (c : Catalog) (t : Times)

/-- `status = 'active' AND COALESCE(last_fetched, 0) < stale`. -/
def Resource.staleActive (t : Times) (r : Resource) : Bool :=
  r.status = .active && decide (r.lastFetched < t.stale)

/-- The URLs of the stale active listings with `p`. -/
def urlsWhere (p : Resource → Bool) (key : Resource → WithTop ℤ) : List PyStr :=
  (orderBy key Resource.canonicalUrl
    (c.resources.filter fun r => r.staleActive t && p r)).map Resource.canonicalUrl

/-- The claims of a listing. -/
def claimRowsOf (resourceId : ℕ) : List ClaimRow :=
  c.acceptClaims.filter fun a => a.resourceId = resourceId

/-- `COUNT(DISTINCT source) > 1 AND (COUNT(DISTINCT amount_atomic) > 1 OR
COUNT(DISTINCT payTo) > 1)` for the claims of a group. -/
def disagrees (group : List ClaimRow) : Bool :=
  1 < ((group.map (·.source)).dedup).length &&
    (1 < ((group.map fun a => orEmpty a.claim.amountAtomic).dedup).length ||
      1 < ((group.map fun a => orEmpty a.claim.payTo).dedup).length)

/-- The rails that the sources of a listing disagree on. -/
def disagreedRails (resourceId : ℕ) : List (Option PyStr) :=
  (((claimRowsOf c resourceId).map (·.claim.rail)).dedup).filter fun rail =>
    disagrees ((claimRowsOf c resourceId).filter fun a => a.claim.rail = rail)

/-- The rows of `source_disagreement`: a listing has one for each of these rails. -/
def disagreementUrls : List PyStr :=
  (orderBy (fun r => (r.lastFetched : WithTop ℤ)) Resource.canonicalUrl
    ((c.resources.filter fun r => r.staleActive t).flatMap fun r =>
      (disagreedRails c r.id).map fun _ => r)).map Resource.canonicalUrl

/-- The events of a kind whose listing is stale and active. -/
def recentEvents (kind : EventKind) : List ClaimEvent :=
  c.claimEvents.filter fun e => e.event = kind && decide (t.changeSince ≤ e.ts) &&
    c.resources.any fun r => decide (r.canonicalUrl = e.canonicalUrl) && r.staleActive t

/-- The distinct URLs of these events. -/
def changedUrls (kind : EventKind) : List PyStr :=
  orderBy (fun url => descending (some (pick
      (((recentEvents c t kind).filter fun e => e.canonicalUrl = url).map (·.ts))))) id
    ((recentEvents c t kind).map (·.canonicalUrl)).dedup

/-- `TRIM(capability) != '' AND capability != 'unknown'`. -/
def wantedCapability (capability : PyStr) : Bool :=
  capability.any (fun ch => ch.val ≠ 0x20) && decide (capability ≠ PyStr.ofString "unknown")

/-- The capabilities of the listings that were searched lately, a capability as often as
listings have it. -/
def searchedCapabilities : List PyStr :=
  ((c.resources.filter fun r => decide (r.status = .active) &&
    decide (t.recent ≤ r.lastSearched.getD 0)).filterMap fun r => r.about.capability).filter
      wantedCapability

/-- `caps`: the three capabilities in highest demand. -/
def demandedCapabilities : List PyStr :=
  (orderBy (fun cap => descending (some ((searchedCapabilities c t).count cap : ℤ))) id
    ((searchedCapabilities c t).dedup.filter fun cap =>
      highDemandMin ≤ (searchedCapabilities c t).count cap)).take 3

/-- The rows that match a reason, in its order, without a limit. -/
def urlsForReason : Reason → List PyStr
  | .recentSearch =>
      urlsWhere c t (fun r => t.recent ≤ r.lastSearched.getD 0) fun r => descending r.lastSearched
  | .recentRoute =>
      urlsWhere c t (fun r => t.recent ≤ r.lastRouted.getD 0) fun r => descending r.lastRouted
  | .sourceDisagreement => disagreementUrls c t
  | .priceChange => changedUrls pick c t .priceChanged
  | .paytoChange => changedUrls pick c t .payToChanged
  | .schemaChange => changedUrls pick c t .schemaChanged
  | .failedProbe =>
      urlsWhere c t (fun r => r.lastProbeOk = some false) fun r =>
        descending (some (r.lastVerified.getD 0))
  | .staleObservation =>
      urlsWhere c t (fun r => r.lastVerified.all fun v => v < t.when - warmEligibleS) fun r =>
        ((r.lastVerified.getD 0 : ℤ) : WithTop ℤ)
  | .highDemandCapability =>
      urlsWhere c t (fun r => r.about.capability.any fun cap =>
          (demandedCapabilities c t).contains cap)
        fun r => descending (some (r.lastSearched.getD 0))

/-- `_due_urls_for_reason`. -/
def dueUrlsForReason (reason : Reason) : List PyStr :=
  ((urlsForReason pick c t reason).take queueScan).filter fun url => url ≠ []

end Queries

/-! ## The queue -/

/-- `_queue_cap`. -/
def queueCap (limit : ℤ) : ℕ := (max 1 (min limit queueScan)).toNat

/-- The loop over the URLs of a reason: what has been seen, what has been listed, and whether
the queue is full. -/
def dueUrls (cap : ℕ) (reason : Reason) :
    List PyStr → List PyStr → List (PyStr × Reason) → List PyStr × List (PyStr × Reason) × Bool
  | [], seen, out => (seen, out, false)
  | url :: rest, seen, out =>
      if url = [] ∨ seen.contains url then dueUrls cap reason rest seen out
      else if cap ≤ (out ++ [(url, reason)]).length then (url :: seen, out ++ [(url, reason)], true)
      else dueUrls cap reason rest (url :: seen) (out ++ [(url, reason)])

/-- The loop over the reasons. -/
def dueReasons (cap : ℕ) (urls : Reason → List PyStr) :
    List Reason → List PyStr → List (PyStr × Reason) → List (PyStr × Reason)
  | [], _, out => out
  | reason :: rest, seen, out =>
      let r := dueUrls cap reason (urls reason) seen out
      if r.2.2 then r.2.1 else dueReasons cap urls rest r.1 r.2.1

/-- `due_valued`. -/
def dueValued (pick : List ℤ → ℤ) (c : Catalog) (hotRefreshS limit when : ℤ) :
    List (PyStr × Reason) :=
  dueReasons (queueCap limit) (dueUrlsForReason pick c (.of hotRefreshS when)) refreshReasons [] []

/-! ## The whole queue -/

/-- The rows of a reason as entries of the queue. -/
def entries (urls : Reason → List PyStr) (reason : Reason) : List (PyStr × Reason) :=
  (urls reason).map fun url => (url, reason)

/-- The reasons in order, for each of them all matching URLs in its order, each URL at its
first reason. -/
def fullQueue (pick : List ℤ → ℤ) (c : Catalog) (t : Times) : List (PyStr × Reason) :=
  Scan.fresh Prod.fst [] (refreshReasons.flatMap (entries (urlsForReason pick c t)))

/-- The reasons in front of `source_disagreement`, and those behind it. -/
def reasonsBefore : List Reason := [.recentSearch, .recentRoute]

def reasonsBehind : List Reason :=
  [.priceChange, .paytoChange, .schemaChange, .failedProbe, .staleObservation, .highDemandCapability]

/-- The rows that are scanned for `source_disagreement` hold as many new URLs as are wanted
behind the two reasons in front of it, or all URLs of that reason. -/
def ScannedEnough (pick : List ℤ → ℤ) (c : Catalog) (hotRefreshS limit when : ℤ) : Prop :=
  let rows := urlsForReason pick c (.of hotRefreshS when)
  let before := reasonsBefore.flatMap (entries rows)
  Scan.Enough queueScan Prod.fst (queueCap limit - (Scan.fresh Prod.fst [] before).length)
    (Scan.seenAfter Prod.fst [] before) (entries rows .sourceDisagreement)

section Loops

variable {cap : ℕ}

/-- The loop over the URLs lists the new ones, until the queue is full. -/
theorem dueUrls_spec (reason : Reason) {urls : List PyStr} (hurls : ∀ u ∈ urls, u ≠ [])
    (seen : List PyStr) {out : List (PyStr × Reason)} (hout : out.length < cap) :
    ∃ seen', dueUrls cap reason urls seen out =
        (seen', out ++ (Scan.fresh Prod.fst seen (urls.map fun u => (u, reason))).take
            (cap - out.length),
          decide (cap ≤ out.length + (Scan.fresh Prod.fst seen (urls.map fun u => (u, reason))).length)) ∧
      (out.length + (Scan.fresh Prod.fst seen (urls.map fun u => (u, reason))).length < cap →
        ∀ k, k ∈ seen' ↔ k ∈ Scan.seenAfter Prod.fst seen (urls.map fun u => (u, reason))) := by
  induction urls generalizing seen out with
  | nil =>
      refine ⟨seen, ?_, fun _ k => by simp [Scan.seenAfter, Scan.fresh]⟩
      simp [dueUrls, Scan.fresh, hout]
  | cons u rest ih =>
      have hu := hurls u List.mem_cons_self
      have hrest := fun v hv => hurls v (List.mem_cons_of_mem u hv)
      rw [dueUrls, List.map_cons, Scan.fresh]
      by_cases hseen : u ∈ seen
      · rw [if_pos (.inr (List.contains_iff_mem.mpr hseen)), if_pos hseen]
        obtain ⟨seen', hrun, hmem⟩ := ih hrest seen hout
        refine ⟨seen', hrun, fun hlen k => (hmem hlen k).trans ?_⟩
        rw [Scan.mem_seenAfter, Scan.mem_seenAfter, List.map_cons, List.mem_cons]
        grind
      · rw [if_neg (by simp [hu, hseen]), if_neg hseen, List.length_append, List.length_singleton]
        obtain ⟨m, hm⟩ : ∃ m, cap - out.length = m + 1 := ⟨cap - out.length - 1, by omega⟩
        rw [hm, List.take_succ_cons, List.length_cons]
        by_cases hfull : cap ≤ out.length + 1
        · rw [if_pos hfull]
          refine ⟨u :: seen, ?_, fun hlen => by omega⟩
          rw [show m = 0 by omega, List.take_zero, decide_eq_true (by omega)]
        · rw [if_neg hfull]
          have hlonger : (out ++ [(u, reason)]).length < cap := by
            rw [List.length_append, List.length_singleton]
            omega
          obtain ⟨seen', hrun, hmem⟩ := ih hrest (u :: seen) hlonger
          rw [List.length_append, List.length_singleton] at hrun hmem
          dsimp only at hrun hmem ⊢
          refine ⟨seen', ?_, fun hlen k => (hmem (by omega) k).trans ?_⟩
          · rw [hrun, List.append_assoc, List.singleton_append, show cap - (out.length + 1) = m by omega,
              Nat.add_assoc, Nat.add_comm 1]
          · rw [Scan.mem_seenAfter, Scan.mem_seenAfter, List.map_cons, List.mem_cons, List.mem_cons]
            grind

/-- The loop over the reasons lists the first new entries of all of them. -/
theorem dueReasons_eq {urls : Reason → List PyStr} (hurls : ∀ reason, ∀ u ∈ urls reason, u ≠ [])
    (reasons : List Reason) (seen : List PyStr) {out : List (PyStr × Reason)}
    (hout : out.length < cap) :
    dueReasons cap urls reasons seen out =
      out ++ (Scan.fresh Prod.fst seen (reasons.flatMap (entries urls))).take (cap - out.length) := by
  induction reasons generalizing seen out with
  | nil => simp [dueReasons, Scan.fresh]
  | cons reason rest ih =>
      obtain ⟨seen', hrun, hmem⟩ := dueUrls_spec reason (hurls reason) seen hout
      rw [dueReasons, hrun, List.flatMap_cons, Scan.fresh_append, entries]
      dsimp only
      split
      · rename_i hfull
        rw [List.take_append_of_le_length]
        have hle := of_decide_eq_true hfull
        omega
      · rename_i hfull
        have hlt : out.length + (Scan.fresh Prod.fst seen
            ((urls reason).map fun u => (u, reason))).length < cap := by
          simpa using hfull
        have htake : (Scan.fresh Prod.fst seen ((urls reason).map fun u => (u, reason))).take
            (cap - out.length) = Scan.fresh Prod.fst seen ((urls reason).map fun u => (u, reason)) :=
          List.take_of_length_le (by omega)
        rw [htake, ih seen' (by rw [List.length_append]; exact hlt), List.length_append,
          List.append_assoc, List.take_append, htake, Scan.fresh_congr (hmem hlt), Nat.sub_sub]

end Loops

/-! ## The rows of a reason -/

section Rows

variable {pick : List ℤ → ℤ} {c : Catalog} {t : Times}

theorem orderBy_perm {A : Type} (key : A → WithTop ℤ) (url : A → PyStr) (rows : List A) :
    (orderBy key url rows).Perm rows := CmpSort.keySort_perm _ rows

theorem nodup_urlsWhere (h : Table.Unique Resource.canonicalUrl c.resources)
    (p : Resource → Bool) (key : Resource → WithTop ℤ) : (urlsWhere c t p key).Nodup := by
  unfold urlsWhere
  rw [((orderBy_perm key Resource.canonicalUrl _).map _).nodup_iff]
  exact h.filter _

theorem nodup_changedUrls (kind : EventKind) : (changedUrls pick c t kind).Nodup := by
  unfold changedUrls
  rw [(orderBy_perm _ _ _).nodup_iff]
  exact List.nodup_dedup _

/-- Every reason but one has each URL once. -/
theorem nodup_urlsForReason (h : Table.Unique Resource.canonicalUrl c.resources) {reason : Reason}
    (hne : reason ≠ .sourceDisagreement) : (urlsForReason pick c t reason).Nodup := by
  cases reason with
  | sourceDisagreement => exact absurd rfl hne
  | priceChange => exact nodup_changedUrls _
  | paytoChange => exact nodup_changedUrls _
  | schemaChange => exact nodup_changedUrls _
  | _ => exact nodup_urlsWhere h _ _

/-- The rows of the reasons are URLs of listings. -/
theorem mem_urlsForReason {reason : Reason} {u : PyStr} (hu : u ∈ urlsForReason pick c t reason) :
    ∃ r ∈ c.resources, r.canonicalUrl = u := by
  have hwhere : ∀ {p key}, u ∈ urlsWhere c t p key → ∃ r ∈ c.resources, r.canonicalUrl = u := by
    intro p key hu
    obtain ⟨r, hr, hurl⟩ := List.mem_map.mp hu
    exact ⟨r, List.mem_of_mem_filter ((orderBy_perm _ _ _).mem_iff.mp hr), hurl⟩
  have hchanged : ∀ {kind}, u ∈ changedUrls pick c t kind → ∃ r ∈ c.resources, r.canonicalUrl = u := by
    intro kind hu
    have hdedup := (orderBy_perm _ _ _).mem_iff.mp hu
    obtain ⟨e, he, rfl⟩ := List.mem_map.mp (List.mem_dedup.mp hdedup)
    have hany := (List.mem_filter.mp he).2
    rw [Bool.and_eq_true, List.any_eq_true] at hany
    obtain ⟨r, hr, hmatch⟩ := hany.2
    rw [Bool.and_eq_true] at hmatch
    exact ⟨r, hr, of_decide_eq_true hmatch.1⟩
  cases reason with
  | sourceDisagreement =>
      obtain ⟨r, hr, hurl⟩ := List.mem_map.mp hu
      obtain ⟨r', hr', hrails⟩ := List.mem_flatMap.mp ((orderBy_perm _ _ _).mem_iff.mp hr)
      obtain ⟨rail, -, rfl⟩ := List.mem_map.mp hrails
      exact ⟨r', List.mem_of_mem_filter hr', hurl⟩
  | priceChange => exact hchanged hu
  | paytoChange => exact hchanged hu
  | schemaChange => exact hchanged hu
  | _ => exact hwhere hu

/-- A listing whose sources disagree on one rail only has one row. -/
theorem nodup_disagreementUrls (h : Table.Unique Resource.canonicalUrl c.resources)
    (hone : ∀ r ∈ c.resources, (disagreedRails c r.id).length ≤ 1) :
    (disagreementUrls c t).Nodup := by
  unfold disagreementUrls
  rw [((orderBy_perm _ Resource.canonicalUrl _).map _).nodup_iff, List.map_flatMap]
  have hrows : ∀ {rows : List Resource}, (∀ r ∈ rows, (disagreedRails c r.id).length ≤ 1) →
      (rows.flatMap fun r => ((disagreedRails c r.id).map fun _ => r).map
        Resource.canonicalUrl).Sublist (rows.map Resource.canonicalUrl) := by
    intro rows hrows
    induction rows with
    | nil => exact .slnil
    | cons r rest ih =>
        rw [List.flatMap_cons, List.map_cons]
        have hr := hrows r List.mem_cons_self
        have hrest := ih fun r' hr' => hrows r' (List.mem_cons_of_mem r hr')
        have hrow : (((disagreedRails c r.id).map fun _ => r).map Resource.canonicalUrl).Sublist
            [r.canonicalUrl] := by
          cases hrails : disagreedRails c r.id with
          | nil => exact List.nil_sublist _
          | cons rail others =>
              rw [hrails, List.length_cons] at hr
              rw [List.length_eq_zero_iff.mp (show others.length = 0 by omega)]
              exact .refl _
        exact hrow.append hrest
  exact (h.filter _).sublist (hrows fun r hr => hone r (List.mem_of_mem_filter hr))

end Rows

/-! ## The bounded scan -/

section Bounded

variable {pick : List ℤ → ℤ} {c : Catalog} {hotRefreshS limit when : ℤ}

theorem refreshReasons_flatMap {A : Type} (f : Reason → List A) :
    refreshReasons.flatMap f =
      reasonsBefore.flatMap f ++ (f .sourceDisagreement ++ reasonsBehind.flatMap f) := by
  simp [refreshReasons, reasonsBefore, reasonsBehind]

theorem entries_take (urls : Reason → List PyStr) (n : ℕ) (reason : Reason) :
    entries (fun reason => (urls reason).take n) reason = (entries urls reason).take n := by
  unfold entries
  rw [List.map_take]

theorem map_entries (urls : Reason → List PyStr) (reason : Reason) :
    (entries urls reason).map Prod.fst = urls reason := by
  unfold entries
  rw [List.map_map]
  exact List.map_id _

theorem queueCap_pos (limit : ℤ) : 0 < queueCap limit := by
  unfold queueCap
  omega

theorem queueCap_le (limit : ℤ) : queueCap limit ≤ queueScan := by
  unfold queueCap queueScan
  omega

theorem queueCap_eq {limit : ℤ} (h : 1 ≤ limit) : (queueCap limit : ℤ) = min limit 20 := by
  unfold queueCap queueScan
  omega

/-- The call lists the first new entries of the bounded scans. -/
theorem dueValued_eq (hurl : ∀ r ∈ c.resources, r.canonicalUrl ≠ []) :
    dueValued pick c hotRefreshS limit when =
      (Scan.fresh Prod.fst [] (refreshReasons.flatMap fun reason =>
        (entries (urlsForReason pick c (.of hotRefreshS when)) reason).take queueScan)).take
          (queueCap limit) := by
  have hdue : dueUrlsForReason pick c (.of hotRefreshS when) = fun reason =>
      (urlsForReason pick c (.of hotRefreshS when) reason).take queueScan := by
    funext reason
    refine List.filter_eq_self.mpr fun u hu => ?_
    obtain ⟨r, hr, rfl⟩ := mem_urlsForReason (List.mem_of_mem_take hu)
    simpa using hurl r hr
  have hne : ∀ reason, ∀ u ∈ dueUrlsForReason pick c (.of hotRefreshS when) reason, u ≠ [] := by
    intro reason u hu
    simpa using (List.mem_filter.mp hu).2
  unfold dueValued
  rw [dueReasons_eq hne refreshReasons [] (queueCap_pos limit), hdue]
  simp only [List.nil_append, List.length_nil, Nat.sub_zero]
  rw [funext (entries_take _ queueScan)]

variable (pick) in
theorem nodup_entries (hwf : c.WellFormed) (reasons : List Reason)
    (hreasons : .sourceDisagreement ∉ reasons) (t : Times) :
    ∀ b ∈ reasons.map (entries (urlsForReason pick c t)), (b.map Prod.fst).Nodup := by
  intro b hb
  obtain ⟨reason, hreason, rfl⟩ := List.mem_map.mp hb
  rw [map_entries]
  exact nodup_urlsForReason hwf.urls fun heq => hreasons (heq ▸ hreason)

/-- Where no listing has sources that disagree on two rails, the scan finds enough. -/
theorem scannedEnough_of_oneRail (hwf : c.WellFormed)
    (hone : ∀ r ∈ c.resources, (disagreedRails c r.id).length ≤ 1) :
    ScannedEnough pick c hotRefreshS limit when := by
  have hcap := queueCap_le limit
  refine Scan.enough_of_nodup ?_ ?_
  · rw [map_entries]
    exact nodup_disagreementUrls hwf.urls hone
  · rw [Scan.seenAfter, List.length_append, List.length_map, List.length_nil]
    omega

/-- Where the scan does not find enough, the queue is another one. -/
theorem due_valued_hidden (hwf : c.WellFormed) (hurl : ∀ r ∈ c.resources, r.canonicalUrl ≠ [])
    (h : ¬ ScannedEnough pick c hotRefreshS limit when) :
    dueValued pick c hotRefreshS limit when ≠
      (fullQueue pick c (.of hotRefreshS when)).take (queueCap limit) := by
  have hcap := queueCap_le limit
  have hbefore := nodup_entries pick hwf reasonsBefore (by decide) (.of hotRefreshS when)
  have hwanted : 0 < queueCap limit - (Scan.fresh Prod.fst [] (reasonsBefore.flatMap
      (entries (urlsForReason pick c (.of hotRefreshS when))))).length :=
    Nat.pos_of_ne_zero fun hzero => h (.inl (by rw [hzero]; exact Nat.zero_le _))
  have hwhole := Scan.flatMap_take_eq queueScan hbefore [] (by
    rw [← List.flatMap_def, List.length_nil]
    omega)
  rw [List.flatMap_map, ← List.flatMap_def] at hwhole
  have hsplit : ∀ behind, Scan.fresh Prod.fst [] (reasonsBefore.flatMap
      (entries (urlsForReason pick c (.of hotRefreshS when))) ++ behind) = _ :=
    Scan.fresh_append [] _
  rw [dueValued_eq hurl, fullQueue, refreshReasons_flatMap, refreshReasons_flatMap, hwhole,
    hsplit, hsplit, List.take_append, List.take_append]
  intro heq
  refine Scan.not_enough h (fun e => e.2 = .sourceDisagreement) ?_ ?_ (List.append_cancel_left heq)
  · intro e he
    obtain ⟨u, -, rfl⟩ := List.mem_map.mp he
    rfl
  · intro e he
    obtain ⟨reason, hreason, he⟩ := List.mem_flatMap.mp he
    obtain ⟨u, -, rfl⟩ := List.mem_map.mp (List.mem_of_mem_take he)
    have hne : reason ≠ .sourceDisagreement := by
      rintro rfl
      revert hreason
      decide
    simpa using hne

end Bounded

/-! ## Rows that fill the scan -/

section Sample

/-- An active listing that was fetched long ago. -/
def oldListing (id : ℕ) : Resource :=
  ⟨id, "https://a.example/" ++ natText id, ⟨none, none, none, none, none, false, false⟩, 0, 0, 0, [],
    .active, none, none, none, none, none, none⟩

/-- The claims of two sources for a listing, at different prices on each of three rails. -/
def disputed (id : ℕ) : List ClaimRow :=
  [("base" : PyStr), "solana", "algorand"].flatMap fun rail =>
    [⟨0, id, sourceCdp, ⟨some rail, none, none, some "1", none, none⟩⟩,
      ⟨0, id, sourcePayai, ⟨some rail, none, none, some "2", none, none⟩⟩]

/-- One listing, with no claims. -/
def oneRow : Catalog := { Catalog.empty with resources := [oldListing 1], nextResource := 2 }

/-- Eight listings whose sources disagree. -/
def eightDisputed : Catalog :=
  { Catalog.empty with
    resources := [1, 2, 3, 4, 5, 6, 7, 8].map oldListing
    acceptClaims := [1, 2, 3, 4, 5, 6, 7, 8].flatMap disputed
    nextResource := 9 }

/-- The latest row of a URL. -/
def latest (times : List ℤ) : ℤ := times.foldl max 0

theorem oneRow_wellFormed : oneRow.WellFormed where
  urls := List.nodup_singleton _
  ids := List.nodup_singleton _
  next r hr := by
    rw [List.mem_singleton.mp hr]
    decide
  keys := List.nodup_nil
  listed := List.forall_mem_nil _

end Sample

end Signal402.Shadow
