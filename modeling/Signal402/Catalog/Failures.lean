import Signal402.Catalog.Sweep
import Signal402.History.Failures
import Signal402.History.Sealed

/-!
# Failures of the calls that write the catalog

The upserts and the pages swallow what is raised in them, as the calls that write the
history do.  The next call on the connection commits what they had written.

* `Stored` — an upsert of the listing changes nothing.
* `upsertItems_harmless`, `ingestPage_harmless` — the calls that any failure leaves
  without a trace, which are those that write nothing.
* `swallowed_failure_iff` — when a failure leaves no trace, for the calls that write
  the history and the catalog.
-/

namespace Signal402.Shadow

open Session (execute update select commit)

variable {Item : Type} (conv : Conversions Item)

/-! ## The clocks of a listing -/

/-- `mark_verified`. -/
def markVerified (url : Option PyStr) (ts : Option ℤ) (ok : Option Bool) (now : ℤ) : Code Unit :=
  match text url with
  | none => pure ()
  | some dest => do
      execute fun c => { c with
        resources := Table.update Resource.canonicalUrl dest
          (fun r => { r with
            lastVerified := some (timeOf ts now)
            lastProbeOk := ok.or r.lastProbeOk }) c.resources }
      commit

/-- `_touch_urls`, for the column that `f` sets. -/
def touchUrls (f : ℤ → Resource → Resource) (urls : List (Option PyStr)) (ts : Option ℤ) (now : ℤ) :
    Code Unit :=
  if (urls.filterMap text).eraseDups = [] then pure () else do
    (urls.filterMap text).eraseDups.forM fun dest => execute fun c => { c with
      resources := Table.update Resource.canonicalUrl dest (f (timeOf ts now)) c.resources }
    commit

/-- `touch_searched`. -/
def touchSearched (urls : List (Option PyStr)) (ts : Option ℤ) (now : ℤ) : Code Unit :=
  touchUrls (fun t r => { r with lastSearched := some t }) urls ts now

/-- `touch_routed`. -/
def touchRouted (urls : List (Option PyStr)) (ts : Option ℤ) (now : ℤ) : Code Unit :=
  touchUrls (fun t r => { r with lastRouted := some t }) urls ts now

/-- A call that writes the catalog, with those that only set a clock. -/
inductive Write (Item : Type)
  | call (c : Call Item)
  | markVerified (url : Option PyStr) (ts : Option ℤ) (ok : Option Bool) (now : ℤ)
  | touchSearched (urls : List (Option PyStr)) (ts : Option ℤ) (now : ℤ)
  | touchRouted (urls : List (Option PyStr)) (ts : Option ℤ) (now : ℤ)

/-- The database after a write. -/
def Write.after (s : Session Catalog) : Write Item → Session Catalog
  | call c => c.after conv s
  | markVerified url ts ok now => ((Shadow.markVerified url ts ok now).run s).2
  | touchSearched urls ts now => ((Shadow.touchSearched urls ts now).run s).2
  | touchRouted urls ts now => ((Shadow.touchRouted urls ts now).run s).2

/-- The database after a list of writes. -/
def runWrites (writes : List (Write Item)) (s : Session Catalog) : Session Catalog :=
  writes.foldl (fun s w => w.after conv s) s

/-- A failure of `x` after `n` of its points makes no difference to the file, whatever
is called later. -/
def NoTrace {α : Type} (x : Code α) (n : ℕ) (s : Session Catalog) : Prop :=
  ∀ later : List (Write Item),
    (runWrites conv later (x.upTo n s)).file = (runWrites conv later s).file

/-- The clock of a URL that is not listed is set nowhere. -/
theorem markVerified_commits {url : PyStr} {s : Session Catalog} (hurl : text (some url) = some url)
    (h : ∀ r ∈ s.work.resources, r.canonicalUrl ≠ url) :
    (runWrites conv [.markVerified (some url) none none 0] s).file = s.work := by
  show ((markVerified (some url) none none 0).run s).2.file = s.work
  unfold markVerified
  rw [hurl]
  dsimp only
  rw [Script.run_bind, Session.run_execute, Session.run_commit]
  dsimp only
  unfold Table.update
  have hmap : (s.work.resources.map fun r =>
      if r.canonicalUrl = url then
        { r with lastVerified := some (timeOf none 0), lastProbeOk := Option.or none r.lastProbeOk }
      else r) = s.work.resources := by
    conv_rhs => rw [← List.map_id s.work.resources]
    exact List.map_congr_left fun r hr => if_neg (h r hr)
  rw [hmap]

/-- A failure before the commit leaves no trace when the tables are as they were. -/
theorem noTrace_iff {α : Type} {x : Code α} (hx : Session.CommitsLast x) {n : ℕ}
    {s : Session Catalog} (hn : n < x.points s) :
    NoTrace conv x n s ↔ (x.upTo n s).work = s.work := by
  obtain ⟨url, hurl, hfresh⟩ := exists_text_notMem
    ((s.work.resources ++ (x.upTo n s).work.resources).map Resource.canonicalUrl)
  have hnot : ∀ r ∈ s.work.resources ++ (x.upTo n s).work.resources, r.canonicalUrl ≠ url :=
    fun r hr h => hfresh (h ▸ List.mem_map_of_mem hr)
  refine Session.file_eq_iff (hx s n hn) ⟨[.markVerified (some url) none none 0], ?_, ?_⟩
  · exact markVerified_commits conv hurl fun r hr => hnot r (List.mem_append_right _ hr)
  · exact markVerified_commits conv hurl fun r hr => hnot r (List.mem_append_left _ hr)

/-! ## The calls commit last -/

/-- Code without a commit. -/
abbrev Uncommitted {α : Type} (x : Code α) : Prop := Script.Leaves Session.file x

theorem insertEvent_uncommitted (resourceId : ℕ) (url : PyStr) (event : EventKind) (source : PyStr)
    (detail : Detail) (ts : ℤ) : Uncommitted (insertEvent resourceId url event source detail ts) :=
  .execute_file _

theorem eventWhen_uncommitted (p : Prop) [Decidable p] (resourceId : ℕ) (url : PyStr)
    (event : EventKind) (source : PyStr) (detail : Detail) (ts : ℤ) :
    Uncommitted (eventWhen p resourceId url event source detail ts) := by
  unfold eventWhen
  split
  · exact .bind (insertEvent_uncommitted _ _ _ _ _ _) fun _ => .pure _
  · exact .pure _

theorem claimsChanged_uncommitted (old : List (PyStr × Claim)) (resourceId : ℕ)
    (source url : PyStr) (ts : ℤ) (claims : List (PyStr × Claim)) :
    Uncommitted (claimsChanged conv old resourceId source url ts claims) := by
  induction claims with
  | nil => exact .pure _
  | cons c rest ih =>
      obtain ⟨rail, nxt⟩ := c
      unfold claimsChanged claimChanged
      refine .bind ?_ fun first => .bind ih fun events => .pure _
      split
      · exact .pure _
      · exact .bind (eventWhen_uncommitted _ _ _ _ _ _ _) fun price =>
          .bind (eventWhen_uncommitted _ _ _ _ _ _ _) fun payTo => .pure _

theorem upsertOne_uncommitted (item : Item) (source : PyStr) (generation : Option ℤ) (ts : ℤ) :
    Uncommitted (upsertOne conv item source generation ts) := by
  unfold upsertOne
  refine .bind (.convert _) fun fields => ?_
  split
  · exact .pure _
  · refine .bind (.convert _) fun claims => .bind (.convert _) fun digest =>
      .bind (.look _) fun row => .bind ?_ fun out => .bind ?_ fun changed =>
      .bind (.execute_file _) fun _ => .bind ?_ fun _ => .pure _
    · unfold writeResource insertResource refreshResource
      split
      · exact .bind (.update_file _ _) fun id =>
          .bind (insertEvent_uncommitted _ _ _ _ _ _) fun _ => .pure _
      · exact .bind (eventWhen_uncommitted _ _ _ _ _ _ _) fun events =>
          .bind (.execute_file _) fun _ => .pure _
    · unfold replaceClaims
      refine .bind (.look _) fun old => ?_
      refine .bind (.forM fun rail _ => insertEvent_uncommitted _ _ _ _ _ _) fun _ => ?_
      refine .bind (.forM fun rail _ => insertEvent_uncommitted _ _ _ _ _ _) fun _ => ?_
      refine .bind (claimsChanged_uncommitted conv _ _ _ _ _ _) fun changed => ?_
      exact .bind (.execute_file _) fun _ =>
        .bind (.forM fun claim _ => .execute_file _) fun _ => .pure _
    · unfold syncFts
      split
      · exact .bind (.execute_file _) fun _ => .execute_file _
      · exact .pure _

theorem upsertAll_uncommitted (source : PyStr) (generation : Option ℤ) (ts : ℤ)
    (items : List Item) : Uncommitted (upsertAll conv source generation ts items) := by
  induction items with
  | nil => exact .pure _
  | cons item rest ih =>
      unfold upsertAll
      exact .bind (upsertOne_uncommitted conv item source generation ts) fun out =>
        .bind ih fun more => .pure _

theorem capEvents_uncommitted : Uncommitted capEvents := by
  unfold capEvents
  refine .bind (.look _) fun n => ?_
  split
  · exact .pure _
  · exact .execute_file _

theorem retireUnseen_uncommitted (source : PyStr) (generation ts : ℤ) :
    Uncommitted (retireUnseen conv source generation ts) := by
  unfold retireUnseen
  refine .bind (.look _) fun candidates => ?_
  induction candidates with
  | nil => exact .pure _
  | cons row rest ih =>
      unfold retireAll retireOne
      refine .bind (.bind (.look _) fun seen => ?_) fun n => .bind ih fun m => .pure _
      split
      · exact .pure _
      · refine .bind (.update_file _ _) fun rowcount => ?_
        split
        · exact .pure _
        · exact .bind (insertEvent_uncommitted _ _ _ _ _ _) fun _ => .pure _

theorem upsertItems_commitsLast (items : List Item) (source : PyStr) (generation : Option ℤ)
    (ts : Option ℤ) (now : ℤ) :
    Session.CommitsLast (upsertItems conv items source generation ts now) := by
  unfold upsertItems
  exact .bind (upsertAll_uncommitted conv _ _ _ _) fun out =>
    .bind capEvents_uncommitted fun _ => .commit_pure _

theorem ingestPage_commitsLast (source : PyStr) (items : List Item) (page : Page) (ts : Option ℤ)
    (now : ℤ) : Session.CommitsLast (ingestPage conv source items page ts now) := by
  unfold ingestPage
  split
  · exact .pure _
  · refine .bind ?_ fun gen => .bind (upsertAll_uncommitted conv _ _ _ _) fun out =>
      .bind (.execute_file _) fun _ => .bind ?_ fun retired =>
      .bind capEvents_uncommitted fun _ => .commit_pure _
    · unfold pageGeneration
      refine .bind (.look _) fun state => ?_
      split
      · exact .bind (.execute_file _) fun _ => .pure _
      · exact .pure _
    · unfold finishPage finishState
      split
      · exact .bind (retireUnseen_uncommitted conv _ _ _) fun retired =>
          .bind (.execute_file _) fun _ => .pure _
      · exact .pure _

/-! ## Writes that change nothing -/

section Quiet

variable {conv} {s : Session Catalog}

theorem not_append_self {α : Type} {l : List α} {a : α} : l ++ [a] ≠ l := by
  intro h
  have hlen := congrArg List.length h
  rw [List.length_append] at hlen
  exact absurd hlen (Nat.succ_ne_self _)

theorem insertEvent_loud {resourceId : ℕ} {url : PyStr} {event : EventKind} {source : PyStr}
    {detail : Detail} {ts : ℤ} : ¬(insertEvent resourceId url event source detail ts).Quiet s := by
  unfold insertEvent
  rw [Script.quiet_execute]
  exact fun h => not_append_self (congrArg Catalog.claimEvents h)

theorem eventWhen_quiet {p : Prop} [Decidable p] {resourceId : ℕ} {url : PyStr}
    {event : EventKind} {source : PyStr} {detail : Detail} {ts : ℤ} :
    (eventWhen p resourceId url event source detail ts).Quiet s ↔ ¬p := by
  unfold eventWhen
  split
  next hp =>
    rw [Script.quiet_bind]
    exact iff_of_false (fun h => insertEvent_loud h.1) fun h => h hp
  next hp => exact iff_of_true (Script.quiet_pure _) hp

/-- The claims of a source are replaced without a change when there are none. -/
theorem replaceClaims_quiet {resourceId : ℕ} {source : PyStr} {claims : List Claim} {url : PyStr}
    {ts : ℤ} :
    (replaceClaims conv resourceId source claims url ts).Quiet s ↔
      s.work.loadClaims resourceId source = [] ∧ claims = [] := by
  unfold replaceClaims
  constructor
  · intro h
    rw [Script.quiet_bind, Session.run_select, Script.quiet_bind, Script.quiet_bind,
      Script.quiet_bind, Script.quiet_bind, Script.quiet_bind, Script.quiet_execute] at h
    obtain ⟨-, -, -, -, hdelete, hinsert, -⟩ := h
    refine ⟨?_, List.eq_nil_iff_forall_not_mem.mpr fun claim hclaim => ?_⟩
    · unfold Catalog.loadClaims
      rw [List.map_eq_nil_iff, List.filter_eq_nil_iff]
      intro r hr hmatch
      have hfilter := congrArg Catalog.acceptClaims hdelete
      have hkept := List.filter_eq_self.mp hfilter r hr
      exact of_decide_eq_true hkept (of_decide_eq_true hmatch)
    · have hclaims := Script.quiet_forM.mp hinsert claim hclaim
      rw [Script.quiet_execute] at hclaims
      exact not_append_self (congrArg Catalog.acceptClaims hclaims)
  · rintro ⟨hold, rfl⟩
    rw [Script.quiet_bind, Session.run_select]
    refine ⟨Script.quiet_select _, ?_⟩
    dsimp only
    rw [hold, Script.quiet_bind, Script.quiet_bind, Script.quiet_bind, Script.quiet_bind,
      Script.quiet_bind, Script.quiet_execute]
    refine ⟨trivial, trivial, trivial, ?_, trivial, trivial⟩
    have hfilter : (s.work.acceptClaims.filter fun r =>
        ¬(r.resourceId = resourceId ∧ r.source = source)) = s.work.acceptClaims := by
      rw [List.filter_eq_self]
      intro r hr
      unfold Catalog.loadClaims at hold
      rw [List.map_eq_nil_iff, List.filter_eq_nil_iff] at hold
      exact decide_eq_true fun hmatch => hold r hr (decide_eq_true hmatch)
    rw [hfilter]

theorem syncFts_quiet {resourceId : ℕ} {fields : Fields} :
    (syncFts conv resourceId fields).Quiet s ↔ conv.ftsOk = false := by
  unfold syncFts
  split
  next h =>
    refine iff_of_false (fun hquiet => ?_) (by rw [h]; decide)
    rw [Script.quiet_bind, Script.quiet_execute, Script.quiet_execute] at hquiet
    exact not_append_self (congrArg Catalog.resourceFts hquiet.2)
  next h => exact iff_of_true trivial (Bool.eq_false_of_not_eq_true h)

theorem capEvents_quiet : capEvents.Quiet s ↔ s.work.claimEvents.length ≤ eventCap := by
  unfold capEvents
  rw [Script.quiet_bind, Session.run_select]
  dsimp only
  split
  next h => exact iff_of_true ⟨Script.quiet_select _, trivial⟩ h
  next h =>
    refine iff_of_false (fun hquiet => ?_) h
    have hfilter := congrArg Catalog.claimEvents (Script.quiet_execute.mp hquiet.2)
    -- the oldest event is deleted
    cases hsorted : s.work.claimEvents.insertionSort fun a b => ClaimEvent.older a b with
    | nil =>
        have hlen := congrArg List.length hsorted
        rw [List.length_insertionSort] at hlen
        exact h (hlen.trans_le (Nat.zero_le _))
    | cons e rest =>
        have hmem : e ∈ s.work.claimEvents :=
          (List.mem_insertionSort _).mp (hsorted ▸ List.mem_cons_self)
        have hkept := of_decide_eq_true (List.filter_eq_self.mp hfilter e hmem)
        refine hkept (List.mem_map_of_mem ?_)
        rw [hsorted, show s.work.claimEvents.length - eventCap =
          (s.work.claimEvents.length - eventCap - 1) + 1 by omega, List.take_succ_cons]
        exact List.mem_cons_self

end Quiet

/-- An upsert of the listing changes nothing: it has no URL, or its row, its source and
its claims, which are none, are there as they would be written. -/
def Catalog.Stored (source : PyStr) (generation : Option ℤ) (ts : ℤ) (c : Catalog) (item : Item) :
    Prop :=
  (conv.fieldsFromItem item).canonicalUrl = [] ∨
    conv.ftsOk = false ∧ conv.claimsFromItem item source = [] ∧
      ∃ row, c.resource (conv.fieldsFromItem item).canonicalUrl = some row ∧
        row.about.inputSchemaPresent = (conv.fieldsFromItem item).inputSchemaPresent ∧
        row.about.outputSchemaPresent = (conv.fieldsFromItem item).outputSchemaPresent ∧
        Table.update Resource.id row.id
          (Resource.refresh row.status (conv.fieldsFromItem item)
            (conv.rowHash (conv.fieldsFromItem item) []) ts) c.resources = c.resources ∧
        c.loadClaims row.id source = [] ∧
        c.upsertSource row.id source (conv.fieldsFromItem item).sourceResourceId generation ts = c

section Quiet

variable {conv} {s : Session Catalog}

theorem writeResource_quiet {row : Option Resource} {fields : Fields} {digest source : PyStr}
    {ts : ℤ} :
    (writeResource row fields digest source ts).Quiet s ↔
      ∃ r, row = some r ∧ r.about.inputSchemaPresent = fields.inputSchemaPresent ∧
        r.about.outputSchemaPresent = fields.outputSchemaPresent ∧
        Table.update Resource.id r.id (Resource.refresh r.status fields digest ts)
          s.work.resources = s.work.resources := by
  unfold writeResource
  cases row with
  | none =>
      refine iff_of_false (fun h => ?_) fun h => ?_
      · dsimp only at h
        unfold insertResource at h
        rw [Script.quiet_bind, Script.quiet_update] at h
        exact not_append_self (congrArg Catalog.resources h.1)
      · obtain ⟨r, hr, -⟩ := h
        cases hr
  | some r =>
      dsimp only
      unfold refreshResource
      rw [Script.quiet_bind, Script.quiet_bind, eventWhen_quiet, Script.quiet_execute]
      constructor
      · rintro ⟨hschema, hrefresh, -⟩
        rw [not_or, not_not, not_not] at hschema
        exact ⟨r, rfl, hschema.1, hschema.2, congrArg Catalog.resources hrefresh⟩
      · rintro ⟨r', hr', hin, hout, hrefresh⟩
        obtain rfl := Option.some.inj hr'
        refine ⟨fun h => h.elim (fun h => h hin) fun h => h hout, ?_, trivial⟩
        rw [hrefresh]

theorem writeResource_id (r : Resource) (fields : Fields) (digest source : PyStr) (ts : ℤ)
    (s : Session Catalog) : ((writeResource (some r) fields digest source ts).run s).1.1 = r.id := by
  unfold writeResource
  dsimp only
  rw [Script.run_bind, Script.run_bind]
  rfl

theorem upsertOne_quiet {item : Item} {source : PyStr} {generation : Option ℤ} {ts : ℤ} :
    (upsertOne conv item source generation ts).Quiet s ↔
      s.work.Stored conv source generation ts item := by
  unfold upsertOne Catalog.Stored
  rw [Script.quiet_bind, Script.run_convert]
  dsimp only
  by_cases hurl : (conv.fieldsFromItem item).canonicalUrl = []
  · rw [if_pos hurl]
    exact iff_of_true ⟨Script.quiet_convert _, trivial⟩ (Or.inl hurl)
  · rw [if_neg hurl, Script.quiet_bind, Script.run_convert, Script.quiet_bind, Script.run_convert,
      Script.quiet_bind, Session.run_select]
    dsimp only
    rw [Script.quiet_bind, writeResource_quiet]
    constructor
    · rintro ⟨-, -, -, -, ⟨r, hr, hin, hout, hrefresh⟩, hrest⟩
      rw [hr, writeResource_id, Script.quiet_bind, replaceClaims_quiet, Script.quiet_bind,
        Script.quiet_execute, Script.quiet_bind, syncFts_quiet] at hrest
      obtain ⟨⟨hold, hclaims⟩, hsource, hfts, -⟩ := hrest
      rw [hclaims] at hrefresh
      exact Or.inr ⟨hfts, hclaims, r, hr, hin, hout, hrefresh, hold, hsource⟩
    · rintro (h | ⟨hfts, hclaims, r, hr, hin, hout, hrefresh, hold, hsource⟩)
      · exact absurd h hurl
      · rw [hclaims]
        refine ⟨Script.quiet_convert _, Script.quiet_convert _, Script.quiet_convert _,
          Script.quiet_select _, ⟨r, hr, hin, hout, hrefresh⟩, ?_⟩
        rw [hr, writeResource_id, Script.quiet_bind, replaceClaims_quiet, Script.quiet_bind,
          Script.quiet_execute, Script.quiet_bind, syncFts_quiet]
        exact ⟨⟨hold, rfl⟩, hsource, hfts, trivial⟩

theorem upsertAll_quiet {source : PyStr} {generation : Option ℤ} {ts : ℤ} {items : List Item} :
    (upsertAll conv source generation ts items).Quiet s ↔
      ∀ item ∈ items, s.work.Stored conv source generation ts item := by
  induction items with
  | nil => exact iff_of_true trivial fun item h => absurd h List.not_mem_nil
  | cons item rest ih =>
      unfold upsertAll
      rw [Script.quiet_bind, Script.quiet_bind, upsertOne_quiet, ih, List.forall_mem_cons]
      exact ⟨fun h => ⟨h.1, h.2.1⟩, fun h => ⟨h.1, h.2, trivial⟩⟩

/-- A listing is retired without a change when another source saw it. -/
theorem retireOne_quiet {source : PyStr} {generation ts : ℤ} {row : ℕ × PyStr}
    (hrow : row ∈ s.work.unseen source generation) :
    (retireOne conv source generation ts row).Quiet s ↔
      s.work.seenElsewhere row.1 source (ts - conv.coldSweepS) = true := by
  unfold retireOne
  rw [Script.quiet_bind, Session.run_select]
  dsimp only
  split
  next h => exact iff_of_true ⟨Script.quiet_select _, trivial⟩ h
  next h =>
    refine iff_of_false (fun hquiet => ?_) h
    rw [Script.quiet_bind, Session.run_update] at hquiet
    have hrest := hquiet.2.2
    unfold Catalog.unseen at hrow
    obtain ⟨rs, -, hmem⟩ := List.mem_flatMap.mp hrow
    obtain ⟨r, hr, rfl⟩ := List.mem_map.mp hmem
    obtain ⟨hr, hactive⟩ := List.mem_filter.mp hr
    have hcount : (s.work.resources.filter fun r' => r'.id = r.id ∧ r'.status = .active).length ≠
        0 := by
      rw [Ne, List.length_eq_zero_iff, List.filter_eq_nil_iff]
      exact fun hnone => hnone r hr (decide_eq_true ⟨rfl, (of_decide_eq_true hactive).2⟩)
    dsimp only at hrest
    rw [if_neg hcount, Script.quiet_bind] at hrest
    exact insertEvent_loud hrest.1

theorem retireUnseen_quiet {source : PyStr} {generation ts : ℤ} :
    (retireUnseen conv source generation ts).Quiet s ↔
      ∀ row ∈ s.work.unseen source generation,
        s.work.seenElsewhere row.1 source (ts - conv.coldSweepS) = true := by
  have hall : ∀ rows, rows ⊆ s.work.unseen source generation →
      ((retireAll conv source generation ts rows).Quiet s ↔
        ∀ row ∈ rows, s.work.seenElsewhere row.1 source (ts - conv.coldSweepS) = true) := by
    intro rows hsub
    induction rows with
    | nil => exact iff_of_true trivial fun row h => absurd h List.not_mem_nil
    | cons row rest ih =>
        obtain ⟨hrow, hrest⟩ := List.cons_subset.mp hsub
        unfold retireAll
        rw [Script.quiet_bind, Script.quiet_bind, retireOne_quiet hrow, ih hrest,
          List.forall_mem_cons]
        exact ⟨fun h => ⟨h.1, h.2.1⟩, fun h => ⟨h.1, h.2, trivial⟩⟩
  unfold retireUnseen
  rw [Script.quiet_bind, Session.run_select]
  dsimp only
  rw [hall _ (List.Subset.refl _)]
  exact ⟨fun h => h.2, fun h => ⟨Script.quiet_select _, h⟩⟩

/-- The first page of a source changes its state. -/
theorem pageGeneration_quiet {source : PyStr} {ts : ℤ} :
    (pageGeneration source ts).Quiet s ↔ 1 ≤ (s.work.sourceState source).generation := by
  unfold pageGeneration
  rw [Script.quiet_bind, Session.run_select]
  dsimp only
  split
  next h =>
    refine iff_of_false (fun hquiet => ?_) (by omega)
    rw [Script.quiet_bind, Script.quiet_execute] at hquiet
    have hput := hquiet.2.1
    have hgen := congrArg (fun c => (c.sourceState source).generation) hput
    have hone : ((s.work.putState source ⟨source, 1, 0, none, some ts, none⟩ fun r => { r with
        generation := 1
        sweepStartedAt := r.sweepStartedAt.or (some ts) }).sourceState source).generation =
          if source = source then 1 else (s.work.sourceState source).generation := by
      refine s.work.sourceState_putState ?_ ?_ ?_ source
      · rfl
      · exact fun _ => rfl
      · exact fun _ => rfl
    rw [if_pos rfl] at hone
    have hstate : (1 : ℤ) = _ := hone.symm.trans hgen
    rw [← hstate] at h
    exact absurd h (by decide)
  next h => exact iff_of_true ⟨Script.quiet_select _, trivial⟩ (by omega)

end Quiet

theorem pageGeneration_run {source : PyStr} {ts : ℤ} {s : Session Catalog}
    (h : 1 ≤ (s.work.sourceState source).generation) :
    (pageGeneration source ts).run s = ((s.work.sourceState source).generation, s) := by
  unfold pageGeneration
  rw [Script.run_bind, Session.run_select]
  dsimp only
  rw [if_neg (by omega)]
  rfl

/-! ## Calls that write nothing -/

/-- A failure of the upserts is harmless only when every listing is stored as it is,
and no event is beyond the cap. -/
theorem upsertItems_harmless {items : List Item} {source : PyStr} {generation ts : Option ℤ}
    {now : ℤ} {s : Session Catalog} :
    (upsertItems conv items source generation ts now).Harmless s ↔
      (∀ item ∈ items,
        s.work.Stored conv (upsertSourceName source) generation (timeOf ts now) item) ∧
      s.work.claimEvents.length ≤ eventCap := by
  unfold upsertItems
  rw [Script.harmless_bind, Script.harmless_bind, upsertAll_quiet, capEvents_quiet]
  exact ⟨fun h => ⟨h.1, h.2.1⟩, fun h => ⟨h.1, h.2, Script.harmless_commit_pure _⟩⟩

/-- The page changes nothing: its listings are stored as they are, the cursor is where
it would be set, and the end of the sweep retires nothing and is recorded. -/
structure Catalog.PageStored (source : PyStr) (items : List Item) (page : Page) (ts : ℤ)
    (c : Catalog) : Prop where
  started : 1 ≤ (c.sourceState source).generation
  listings : ∀ item ∈ items,
    c.Stored conv source (some (c.sourceState source).generation) ts item
  cursor : c.setState source (fun r => { r with
    cursor := page.newCursor items.length
    upstreamTotal := page.upstreamTotal.or r.upstreamTotal }) = c
  unseen : page.complete items.length = true →
    ∀ row ∈ c.unseen source (c.sourceState source).generation,
      c.seenElsewhere row.1 source (ts - conv.coldSweepS) = true
  finished : page.complete items.length = true →
    c.setState source (fun r =>
      { r with lastCompleteSweepAt := some ts, cursor := 0, sweepStartedAt := none }) = c
  events : c.claimEvents.length ≤ eventCap

/-- A failure of a page is harmless only when the page is refused or stored as it is. -/
theorem ingestPage_harmless {source : PyStr} {items : List Item} {page : Page} {ts : Option ℤ}
    {now : ℤ} {s : Session Catalog} :
    (ingestPage conv source items page ts now).Harmless s ↔
      source.strip ∈ sources →
        s.work.PageStored conv source.strip items page (timeOf ts now) := by
  unfold ingestPage
  by_cases hsource : source.strip ∉ sources
  · rw [if_pos hsource]
    exact iff_of_true (Script.harmless_pure _) fun h => absurd h hsource
  · rw [if_neg hsource, Script.harmless_bind, pageGeneration_quiet]
    rw [not_not] at hsource
    constructor
    · rintro ⟨hgen, hrest⟩ -
      rw [pageGeneration_run hgen, Script.harmless_bind, upsertAll_quiet, Script.harmless_bind,
        Script.quiet_execute, Script.harmless_bind, Script.harmless_bind, capEvents_quiet] at hrest
      obtain ⟨hlistings, hcursor, hfinish, hevents, -⟩ := hrest
      unfold finishPage finishState at hfinish
      refine ⟨hgen, hlistings, hcursor, fun hlast => ?_, fun hlast => ?_, hevents⟩
      · rw [if_pos hlast, Script.quiet_bind, retireUnseen_quiet] at hfinish
        exact hfinish.1
      · rw [if_pos hlast, Script.quiet_bind, Script.quiet_bind, Script.quiet_execute] at hfinish
        exact hfinish.2.1
    · intro h
      have hpage := h hsource
      refine ⟨hpage.started, ?_⟩
      rw [pageGeneration_run hpage.started, Script.harmless_bind, upsertAll_quiet,
        Script.harmless_bind, Script.quiet_execute, Script.harmless_bind, Script.harmless_bind,
        capEvents_quiet]
      refine ⟨hpage.listings, hpage.cursor, ?_, hpage.events, Script.harmless_commit_pure _⟩
      unfold finishPage finishState
      split
      next hlast =>
        rw [Script.quiet_bind, retireUnseen_quiet, Script.quiet_bind, Script.quiet_execute]
        exact ⟨hpage.unseen hlast, hpage.finished hlast, trivial⟩
      next => trivial


theorem upsertItems_noTrace_iff (items : List Item) (source : PyStr) (generation ts : Option ℤ)
    (now : ℤ) (s : Session Catalog) :
    (∀ n < (upsertItems conv items source generation ts now).points s,
      NoTrace conv (upsertItems conv items source generation ts now) n s) ↔
    (∀ item ∈ items,
      s.work.Stored conv (upsertSourceName source) generation (timeOf ts now) item) ∧
    s.work.claimEvents.length ≤ eventCap := by
  have hcommits := upsertItems_commitsLast conv items source generation ts now
  rw [← upsertItems_harmless, hcommits.harmless_iff]
  exact forall₂_congr fun n hn => noTrace_iff conv hcommits hn

theorem ingestPage_noTrace_iff (source : PyStr) (items : List Item) (page : Page) (ts : Option ℤ)
    (now : ℤ) (s : Session Catalog) :
    (∀ n < (ingestPage conv source items page ts now).points s,
      NoTrace conv (ingestPage conv source items page ts now) n s) ↔
    (source.strip ∈ sources → s.work.PageStored conv source.strip items page (timeOf ts now)) := by
  have hcommits := ingestPage_commitsLast conv source items page ts now
  rw [← ingestPage_harmless, hcommits.harmless_iff]
  exact forall₂_congr fun n hn => noTrace_iff conv hcommits hn

end Signal402.Shadow

namespace Signal402

/-- What a failure of the call `x` takes to leave no trace, at one point and at all. -/
structure Traceless {D α : Type} (x : Script (Session D) α) (s : Session D) (noTrace : ℕ → Prop)
    (nothing : Prop) : Prop where
  at_point : ∀ n < x.points s, noTrace n ↔ (x.upTo n s).work = s.work
  at_all : (∀ n < x.points s, noTrace n) ↔ nothing

/-- A failure of a call that swallows it leaves no trace, whatever is called later, when
the statements before it left the tables as they were; and so it is wherever the call
fails when there is nothing to write: the batch is refused, the batch has nothing to
settle, the listings are stored as they are, the page is refused or stored as it is. -/
theorem swallowed_failure_iff (env : ProbeHistory.Env) {Item : Type}
    (conv : Shadow.Conversions Item) :
    (∀ batchId results now s,
      Traceless (ProbeHistory.persistRouteBatch env batchId results now) s
        (fun n => ProbeHistory.NoTrace env
          (ProbeHistory.persistRouteBatch env batchId results now) n s)
        (∀ bid, ProbeHistory.okBatchId env batchId = some bid → s.work.isSealed bid = true)) ∧
    (∀ batchId now s,
      Traceless (ProbeHistory.markBatchSettled env batchId now) s
        (fun n => ProbeHistory.NoTrace env (ProbeHistory.markBatchSettled env batchId now) n s)
        (∀ bid, (ProbeHistory.okBatchId env batchId).or (text batchId) = some bid →
          s.work.tentativeProbes bid = [] ∧
          ∀ o ∈ s.work.observations, o.batchId = some bid →
            o.trustClass ≠ none ∧ o.trustClass ≠ some .routeTentative)) ∧
    (∀ items source generation ts now s,
      Traceless (Shadow.upsertItems conv items source generation ts now) s
        (fun n => Shadow.NoTrace conv (Shadow.upsertItems conv items source generation ts now) n s)
        ((∀ item ∈ items, s.work.Stored conv (Shadow.upsertSourceName source) generation
            (Shadow.timeOf ts now) item) ∧
          s.work.claimEvents.length ≤ Shadow.eventCap)) ∧
    (∀ source items page ts now s,
      Traceless (Shadow.ingestPage conv source items page ts now) s
        (fun n => Shadow.NoTrace conv (Shadow.ingestPage conv source items page ts now) n s)
        (source.strip ∈ Shadow.sources →
          s.work.PageStored conv source.strip items page (Shadow.timeOf ts now))) := by
  refine ⟨fun batchId results now s => ⟨fun n hn => ?_, ?_⟩, fun batchId now s =>
    ⟨fun n hn => ?_, ?_⟩, fun items source generation ts now s => ⟨fun n hn => ?_, ?_⟩,
    fun source items page ts now s => ⟨fun n hn => ?_, ?_⟩⟩
  · exact ProbeHistory.noTrace_iff env
      (ProbeHistory.persistRouteBatch_commitsLast env batchId results now) hn
  · exact ProbeHistory.persistRouteBatch_noTrace_iff env batchId results now s
  · exact ProbeHistory.noTrace_iff env
      (ProbeHistory.markBatchSettled_commitsLast env batchId now) hn
  · exact ProbeHistory.markBatchSettled_noTrace_iff env batchId now s
  · exact Shadow.noTrace_iff conv
      (Shadow.upsertItems_commitsLast conv items source generation ts now) hn
  · exact Shadow.upsertItems_noTrace_iff conv items source generation ts now s
  · exact Shadow.noTrace_iff conv
      (Shadow.ingestPage_commitsLast conv source items page ts now) hn
  · exact Shadow.ingestPage_noTrace_iff conv source items page ts now s

/-- The second row of a batch does not fit its column, and the first one stays; the
second listing of a search fails, and the first one stays. -/
theorem swallowed_failure_stays :
    ¬ProbeHistory.NoTrace ProbeHistory.asciiEnv
        (ProbeHistory.persistRouteBatch ProbeHistory.asciiEnv (some ProbeHistory.batchR)
          [(some ProbeHistory.urlA, ProbeHistory.missed 1),
            (some ProbeHistory.urlB, { ProbeHistory.missed 1 with latencyMs := some 9223372036854775808 })] 0)
        22 ProbeHistory.start ∧
      ¬Shadow.NoTrace Shadow.plain
        (Shadow.upsertItems Shadow.plain [ProbeHistory.urlA, ProbeHistory.urlB] Shadow.sourceCdp
          none (some 1) 0)
        12 Shadow.start := by
  refine ⟨fun h => ?_, fun h => ?_⟩
  · rw [ProbeHistory.noTrace_iff ProbeHistory.asciiEnv
      (ProbeHistory.persistRouteBatch_commitsLast _ _ _ _) (by decide +kernel)] at h
    revert h
    decide +kernel
  · rw [Shadow.noTrace_iff Shadow.plain (Shadow.upsertItems_commitsLast _ _ _ _ _ _)
      (by decide +kernel)] at h
    revert h
    decide +kernel

end Signal402
