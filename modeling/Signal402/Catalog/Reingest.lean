import Signal402.Base.JsonText
import Signal402.Base.Hex
import Signal402.Base.Decimal
import Signal402.Lib.CmpSort
import Signal402.Lib.Sha256
import Signal402.Catalog.Listings
import Mathlib.Data.List.Lex

/-!
# Upserting the same claims again (`shadow.py`)

`_upsert_one` compares the claims of a listing with the stored ones of the same source: the
rails as sets, and on each rail the first claims.  `row_hash` is taken over the description
of the listing and the claims, in sorted order.

Claims that come back as the same set raise no event for a rail and leave that set stored.
The amount and the recipient are those of the first claim of a rail, so there is no event
for them while the first claims agree; and the stored hash stays while the description stays
and the hash was that of this source.

* `reingest_quiet` — upserting the same claims again;
* `rowHash_perm` — the order of the claims does not enter the hash;
* `upsertOne_lastWritten` — an upsert leaves the hash of its source.
-/

namespace Signal402.Shadow

/-! ## The hash of a listing -/

/-- A claim as `row_hash` sorts it. -/
def acceptTuple (claim : Claim) : List PyStr :=
  [orEmpty claim.rail, orEmpty claim.network, orEmpty claim.asset, orEmpty claim.amountAtomic,
    orEmpty claim.payTo, orEmpty claim.facilitator]

/-- `accepts` of `row_hash`: tuples in order, text by text and code point by code point. -/
def sortedAccepts (claims : List Claim) : List (List PyStr) :=
  CmpSort.keySort id (claims.map acceptTuple)

/-- `blob` of `row_hash`, its keys in order. -/
def hashBlob (about : Description) (claims : List Claim) : Json :=
  .obj [("accepts", .arr ((sortedAccepts claims).map fun t => .arr (t.map .str))),
    ("capability", .str (orEmpty about.capability)),
    ("description", .str (orEmpty about.description)),
    ("in", .int (if about.inputSchemaPresent then 1 else 0)),
    ("method", .str (orEmpty about.method)),
    ("out", .int (if about.outputSchemaPresent then 1 else 0)),
    ("service_name", .str (orEmpty about.serviceName)),
    ("tags", .str (orEmpty about.tags))]

/-- `row_hash`; the blob holds nothing that has no text. -/
def rowHash (py : Interp) (about : Description) (claims : List Claim) : PyStr :=
  hexText (Sha256.sha256 (asciiBytes (((hashBlob about claims).dumps py).toOption.getD [])))

/-- The functions that read a listing, with `row_hash` as it is. -/
def Conversions.hashed {Item : Type} (conv : Conversions Item) (py : Interp) : Conversions Item :=
  { conv with rowHash := fun fields claims => Shadow.rowHash py fields.toDescription claims }

theorem sortedAccepts_perm {claims claims' : List Claim} (h : claims.Perm claims') :
    sortedAccepts claims = sortedAccepts claims' :=
  CmpSort.keySort_eq_of_perm id (h.map acceptTuple) fun _ _ _ _ => id

/-- The order of the claims does not enter the hash. -/
theorem rowHash_perm (py : Interp) (about : Description) {claims claims' : List Claim}
    (h : claims.Perm claims') : rowHash py about claims = rowHash py about claims' := by
  rw [rowHash, rowHash, hashBlob, hashBlob, sortedAccepts_perm h]

/-! ## The first claim of each rail -/

theorem mem_byRail {claims : List Claim} {rail : PyStr} {claim : Claim}
    (h : (rail, claim) ∈ byRail claims) : claim ∈ claims ∧ claim.rail = some rail := by
  induction claims with
  | nil => cases h
  | cons c rest ih =>
      rw [byRail] at h
      have hrest : (rail, claim) ∈ byRail rest → claim ∈ c :: rest ∧ claim.rail = some rail :=
        fun hmem => ⟨List.mem_cons_of_mem c (ih hmem).1, (ih hmem).2⟩
      cases hrail : c.rail with
      | none =>
          rw [hrail] at h
          exact hrest h
      | some r =>
          rw [hrail] at h
          dsimp only at h
          split at h
          · exact hrest h
          · rcases List.mem_cons.mp h with heq | hmem
            · cases heq
              exact ⟨List.mem_cons_self, hrail⟩
            · exact hrest (List.mem_of_mem_filter hmem)

/-- On each rail the first claims name the same amount and the same recipient. -/
def SameOffers (stored claims : List Claim) : Prop :=
  ∀ rail old new, (rail, old) ∈ byRail stored → (rail, new) ∈ byRail claims →
    orEmpty old.amountAtomic = orEmpty new.amountAtomic ∧ orEmpty old.payTo = orEmpty new.payTo

/-- Where no rail has two claims, the order of the claims makes no difference. -/
theorem sameOffers_of_one {stored claims : List Claim}
    (hone : ∀ a ∈ stored, ∀ b ∈ stored, a.rail = b.rail → a = b)
    (hset : ∀ c, c ∈ claims ↔ c ∈ stored) : SameOffers stored claims := by
  intro rail old new hold hnew
  obtain ⟨hold, hrail⟩ := mem_byRail hold
  obtain ⟨hnew, hrail'⟩ := mem_byRail hnew
  rw [hone old hold new ((hset new).mp hnew) (hrail.trans hrail'.symm)]
  exact ⟨rfl, rfl⟩

theorem mem_railsOf {claims : List Claim} {rail : PyStr} :
    rail ∈ railsOf claims ↔ rail ≠ [] ∧ ∃ c ∈ claims, c.rail = some rail := by
  simp [railsOf, and_comm]

/-- The same claims name the same rails. -/
theorem sortedDifference_eq_nil {claims claims' : List Claim} (h : ∀ c ∈ claims, c ∈ claims') :
    sortedDifference (railsOf claims) (railsOf claims') = [] := by
  have hfilter : ((railsOf claims).filter (· ∉ railsOf claims')) = [] := by
    rw [List.filter_eq_nil_iff]
    intro rail hrail
    obtain ⟨hne, c, hc, hrail⟩ := mem_railsOf.mp hrail
    have hmem : rail ∈ railsOf claims' := mem_railsOf.mpr ⟨hne, c, h c hc, hrail⟩
    simpa using hmem
  rw [sortedDifference, hfilter]
  rfl

/-! ## The claims of a source are replaced -/

/-- What code reports it records, in order, behind the events that are there. -/
def Recorded (x : Code (List EventKind)) : Prop :=
  ∀ s, (x.run s).2.work.claimEvents.map (·.event) =
    s.work.claimEvents.map (·.event) ++ (x.run s).1

namespace Recorded

theorem pure_nil : Recorded (pure []) := fun _ => (List.append_nil _).symm

theorem append {x y : Code (List EventKind)} (hx : Recorded x) (hy : Recorded y) :
    Recorded (x >>= fun a => y >>= fun b => pure (a ++ b)) := by
  intro s
  simp only [Script.run_bind, Script.run_pure]
  rw [hy, hx, List.append_assoc]

theorem eventWhen (p : Prop) [Decidable p] (resourceId : ℕ) (url : PyStr) (event : EventKind)
    (source : PyStr) (detail : Detail) (ts : ℤ) :
    Recorded (eventWhen p resourceId url event source detail ts) := by
  unfold Shadow.eventWhen
  split
  · intro s
    simp [insertEvent]
  · exact pure_nil

end Recorded

section Claims

variable {Item : Type} (conv : Conversions Item)

theorem claimsChanged_recorded (old : List (PyStr × Claim)) (resourceId : ℕ) (source url : PyStr)
    (ts : ℤ) (news : List (PyStr × Claim)) :
    Recorded (claimsChanged conv old resourceId source url ts news) := by
  induction news with
  | nil => exact .pure_nil
  | cons new rest ih =>
      obtain ⟨rail, nxt⟩ := new
      unfold claimsChanged
      refine .append ?_ ih
      unfold claimChanged
      split
      · exact .pure_nil
      · exact .append (.eventWhen _ _ _ _ _ _ _) (.eventWhen _ _ _ _ _ _ _)

/-- The comparison of the claims knows two kinds of events. -/
theorem mem_claimsChanged {old news : List (PyStr × Claim)} {resourceId : ℕ} {source url : PyStr}
    {ts : ℤ} {s : Session Catalog} {k : EventKind}
    (h : k ∈ ((claimsChanged conv old resourceId source url ts news).run s).1) :
    k = .priceChanged ∨ k = .payToChanged := by
  induction news generalizing s with
  | nil => cases h
  | cons new rest ih =>
      obtain ⟨rail, nxt⟩ := new
      have hwhen : ∀ {p : Prop} [Decidable p] {event : EventKind} {detail : Detail}
          {s : Session Catalog},
          k ∈ ((eventWhen p resourceId url event source detail ts).run s).1 → k = event := by
        intro p _ event detail s hmem
        unfold eventWhen at hmem
        split at hmem
        · exact List.mem_singleton.mp hmem
        · cases hmem
      rw [claimsChanged, Script.run_bind, Script.run_bind] at h
      rcases List.mem_append.mp h with hfirst | hrest
      · unfold claimChanged at hfirst
        split at hfirst
        · cases hfirst
        · rw [Script.run_bind, Script.run_bind] at hfirst
          rcases List.mem_append.mp hfirst with hprice | hpayTo
          · exact .inl (hwhen hprice)
          · exact .inr (hwhen hpayTo)
      · exact ih hrest

/-- Claims of the same amounts and recipients raise no event. -/
theorem claimsChanged_quiet {old news : List (PyStr × Claim)}
    (hsame : ∀ rail a b, (rail, a) ∈ old → (rail, b) ∈ news →
      orEmpty a.amountAtomic = orEmpty b.amountAtomic ∧ orEmpty a.payTo = orEmpty b.payTo)
    (resourceId : ℕ) (source url : PyStr) (ts : ℤ) (s : Session Catalog) :
    (claimsChanged conv old resourceId source url ts news).run s = ([], s) := by
  induction news generalizing s with
  | nil => rfl
  | cons new rest ih =>
      obtain ⟨rail, nxt⟩ := new
      have hfirst : (claimChanged conv (old.find? (·.1 = rail)) nxt resourceId source url rail ts).run s
          = ([], s) := by
        unfold claimChanged
        split
        · rfl
        · rename_i rail' prev hfind
          have hkey : rail' = rail := by simpa using List.find?_some hfind
          subst hkey
          obtain ⟨hamount, hpayTo⟩ := hsame rail' prev nxt (List.mem_of_find?_eq_some hfind)
            List.mem_cons_self
          rw [eventWhen, if_neg (by simpa using hamount), eventWhen,
            if_neg fun h => h.1 hpayTo]
          rfl
      have hrest := ih (fun rail a b ha hb => hsame rail a b ha (List.mem_cons_of_mem _ hb)) s
      rw [claimsChanged, Script.run_bind, hfirst, Script.run_bind, hrest]
      rfl

/-- The insertion of the new claims. -/
def insertClaims (resourceId : ℕ) (source : PyStr) (claims : List Claim) : Code PUnit :=
  claims.forM fun claim => Session.execute fun c => { c with
    acceptClaims := c.acceptClaims ++ [⟨c.nextClaim, resourceId, source, claim⟩]
    nextClaim := c.nextClaim + 1 }

theorem loadClaims_insertClaims (resourceId : ℕ) (source : PyStr) (claims : List Claim)
    (s : Session Catalog) (resourceId' : ℕ) (source' : PyStr) :
    ((insertClaims resourceId source claims).run s).2.work.loadClaims resourceId' source' =
      s.work.loadClaims resourceId' source' ++
        if resourceId' = resourceId ∧ source' = source then claims else [] := by
  unfold insertClaims
  induction claims generalizing s with
  | nil => simp
  | cons claim rest ih =>
      rw [Script.run_forM_cons, ih]
      by_cases hkey : resourceId' = resourceId ∧ source' = source
      · obtain ⟨rfl, rfl⟩ := hkey
        simp [Catalog.loadClaims]
      · have hne : ¬(resourceId = resourceId' ∧ source = source') :=
          fun h => hkey ⟨h.1.symm, h.2.symm⟩
        simp [Catalog.loadClaims, hkey, hne]

theorem insertClaims_leaves {γ : Type} {g : Catalog → γ}
    (hg : ∀ (c : Catalog) rows n, g { c with acceptClaims := rows, nextClaim := n } = g c)
    (resourceId : ℕ) (source : PyStr) (claims : List Claim) :
    (insertClaims resourceId source claims).Leaves fun s => g s.work :=
  .forM fun _ _ => Script.Leaves.execute fun c => hg c _ _

/-- The code leaves the claims it was given, and those of other listings and sources. -/
theorem loadClaims_replaceClaims (resourceId : ℕ) (source : PyStr) (claims : List Claim)
    (url : PyStr) (ts : ℤ) (s : Session Catalog) (resourceId' : ℕ) (source' : PyStr) :
    ((replaceClaims conv resourceId source claims url ts).run s).2.work.loadClaims resourceId' source' =
      if resourceId' = resourceId ∧ source' = source then claims
      else s.work.loadClaims resourceId' source' := by
  have hg : Eventless Catalog.acceptClaims := fun _ _ _ => rfl
  have hinsert : ∀ rails : List PyStr, ∀ event,
      (rails.forM fun rail => insertEvent resourceId url event source (.rail rail) ts).Leaves
        fun s => s.work.acceptClaims := fun rails event =>
    .forM fun rail _ => insertEvent_leaves hg _ _ _ _ _ _
  unfold replaceClaims
  simp only [Script.run_bind, Session.run_select, Session.run_execute, Script.run_pure]
  generalize hs₁ : ((sortedDifference (railsOf claims)
    (railsOf (s.work.loadClaims resourceId source))).forM fun rail =>
      insertEvent resourceId url .railAdded source (.rail rail) ts).run s = r₁
  generalize hs₂ : ((sortedDifference (railsOf (s.work.loadClaims resourceId source))
    (railsOf claims)).forM fun rail =>
      insertEvent resourceId url .railRemoved source (.rail rail) ts).run r₁.2 = r₂
  generalize hs₃ : (claimsChanged conv _ resourceId source url ts (byRail claims)).run r₂.2 = r₃
  have hkept : r₃.2.work.acceptClaims = s.work.acceptClaims := by
    rw [← hs₃, (claimsChanged_leaves conv hg _ _ _ _ _ _).run, ← hs₂, (hinsert _ _).run, ← hs₁,
      (hinsert _ _).run]
  change ((insertClaims resourceId source claims).run _).2.work.loadClaims resourceId' source' = _
  rw [loadClaims_insertClaims]
  unfold Catalog.loadClaims
  rw [List.filter_filter, hkept]
  by_cases hkey : resourceId' = resourceId ∧ source' = source
  · obtain ⟨rfl, rfl⟩ := hkey
    rw [if_pos ⟨rfl, rfl⟩, if_pos ⟨rfl, rfl⟩, List.filter_eq_nil_iff.mpr, List.map_nil,
      List.nil_append]
    intro r _
    simp
  · rw [if_neg hkey, if_neg hkey, List.append_nil]
    congr 1
    refine List.filter_congr fun r _ => ?_
    by_cases hr : r.resourceId = resourceId' ∧ r.source = source'
    · have hother : ¬(r.resourceId = resourceId ∧ r.source = source) := by
        rw [hr.1, hr.2]
        exact hkey
      simp [hr, hkey]
    · simp [hr]

/-- Claims that come back as the same set: what is reported is what the comparison of the
claims reports. -/
theorem replaceClaims_same {resourceId : ℕ} {source : PyStr} {claims : List Claim}
    {s : Session Catalog} (hset : ∀ c, c ∈ claims ↔ c ∈ s.work.loadClaims resourceId source)
    (url : PyStr) (ts : ℤ) :
    ((replaceClaims conv resourceId source claims url ts).run s).1 =
        ((claimsChanged conv (byRail (s.work.loadClaims resourceId source)) resourceId source url ts
          (byRail claims)).run s).1 ∧
      ((replaceClaims conv resourceId source claims url ts).run s).2.work.claimEvents =
        ((claimsChanged conv (byRail (s.work.loadClaims resourceId source)) resourceId source url ts
          (byRail claims)).run s).2.work.claimEvents := by
  unfold replaceClaims
  simp only [Script.run_bind, Session.run_select, Session.run_execute, Script.run_pure,
    sortedDifference_eq_nil fun c => (hset c).mp, sortedDifference_eq_nil fun c => (hset c).mpr,
    Script.run_forM_nil, List.map_nil, List.nil_append]
  refine ⟨trivial, ?_⟩
  exact (insertClaims_leaves (g := Catalog.claimEvents) (fun _ _ _ => rfl) resourceId source
    claims).run _

end Claims

/-! ## The listing comes again -/

section Upsert

variable {Item : Type} (conv : Conversions Item)

/-- An item of a stored listing: the schema flags are the stored ones, and the claims are the
same set as those that are stored from the source. -/
structure ComesAgain (c : Catalog) (row : Resource) (source : PyStr) (item : Item) : Prop where
  url : (conv.fieldsFromItem item).canonicalUrl ≠ []
  listed : c.resource (conv.fieldsFromItem item).canonicalUrl = some row
  input : row.about.inputSchemaPresent = (conv.fieldsFromItem item).inputSchemaPresent
  output : row.about.outputSchemaPresent = (conv.fieldsFromItem item).outputSchemaPresent
  claims : ∀ claim, claim ∈ conv.claimsFromItem item source ↔ claim ∈ c.loadClaims row.id source

/-- What an upsert of such an item leaves as it was, and what it reports. -/
structure Resent (row : Resource) (source : PyStr) (c : Catalog) (run : Upserted × Session Catalog) :
    Prop where
  rails : EventKind.railAdded ∉ run.1.events ∧ EventKind.railRemoved ∉ run.1.events
  recorded : run.2.work.claimEvents.map (·.event) = c.claimEvents.map (·.event) ++ run.1.events
  stored : ∀ claim, claim ∈ run.2.work.loadClaims row.id source ↔ claim ∈ c.loadClaims row.id source
  others : ∀ resourceId' source', ¬(resourceId' = row.id ∧ source' = source) →
    run.2.work.loadClaims resourceId' source' = c.loadClaims resourceId' source'

/-- No event for a price or a recipient. -/
def PricesQuiet (events : List EventKind) : Prop :=
  EventKind.priceChanged ∉ events ∧ EventKind.payToChanged ∉ events

/-- The stored hash is that of the stored description and the claims of the source: the source
wrote the row last. -/
def LastWritten (py : Interp) (c : Catalog) (row : Resource) (source : PyStr) : Prop :=
  row.rowHash = rowHash py row.about (c.loadClaims row.id source)

variable {conv} {c : Catalog} {row : Resource} {source : PyStr} {item : Item}

/-- The catalog once the row of the listing is refreshed. -/
def rewritten (conv : Conversions Item) (row : Resource) (source : PyStr) (item : Item) (ts : ℤ)
    (c : Catalog) : Catalog :=
  { c with
    resources := Table.update Resource.id row.id
      (Resource.refresh row.status (conv.fieldsFromItem item)
        (conv.rowHash (conv.fieldsFromItem item) (conv.claimsFromItem item source)) ts)
      c.resources }

/-- The row of a URL once it is refreshed. -/
theorem resource_refresh {url : PyStr} (hrow : c.resource url = some row) (fields : Fields)
    (digest : PyStr) (ts : ℤ) :
    Catalog.resource { c with
        resources := Table.update Resource.id row.id
          (Resource.refresh row.status fields digest ts) c.resources } url =
      some (Resource.refresh row.status fields digest ts row) := by
  refine (Catalog.lookup_updateId c.resources row.id
    (f := Resource.refresh row.status fields digest ts) (fun _ => rfl) _).trans ?_
  rw [show Table.lookup Resource.canonicalUrl c.resources _ = some row from hrow]
  exact congrArg some (if_pos rfl)

/-- The statements behind the claims write two other tables. -/
theorem finish_leaves (conv : Conversions Item) {γ : Type} {g : Catalog → γ}
    (hg : ∀ c rows fts, g { c with resourceSources := rows, resourceFts := fts } = g c)
    {resourceId : ℕ} {source : PyStr} {fields : Fields} {generation : Option ℤ} {ts : ℤ}
    (s : Session Catalog) :
    g ((syncFts conv resourceId fields).run ⟨s.file, Catalog.upsertSource resourceId source
      fields.sourceResourceId generation ts s.work⟩).2.work = g s.work := by
  have hsync : (syncFts conv resourceId fields).Leaves fun s => g s.work := by
    unfold syncFts
    split
    · exact Script.Leaves.bind (Script.Leaves.execute fun c => hg c c.resourceSources _) fun _ =>
        Script.Leaves.execute fun c => hg c c.resourceSources _
    · exact .pure _
  refine (hsync.run _).trans ?_
  dsimp only
  unfold Catalog.upsertSource
  split
  · exact hg s.work _ s.work.resourceFts
  · exact hg s.work _ s.work.resourceFts

/-- The row is refreshed, what the comparison of the claims reports is reported, and the claims
are replaced. -/
theorem upsertOne_again {s : Session Catalog} (h : ComesAgain conv s.work row source item)
    (generation : Option ℤ) (ts : ℤ) :
    ∃ s' changed, (upsertOne conv item source generation ts).run s =
        (⟨some row.id, changed, false⟩, s') ∧
      (∃ s₂, (claimsChanged conv (byRail (s.work.loadClaims row.id source)) row.id source
          (conv.fieldsFromItem item).canonicalUrl ts (byRail (conv.claimsFromItem item source))).run
            ⟨s.file, rewritten conv row source item ts s.work⟩ = (changed, s₂) ∧
        s'.work.claimEvents = s₂.work.claimEvents) ∧
      (∀ resourceId' source', s'.work.loadClaims resourceId' source' =
        if resourceId' = row.id ∧ source' = source then conv.claimsFromItem item source
        else s.work.loadClaims resourceId' source') ∧
      s'.work.resource (conv.fieldsFromItem item).canonicalUrl =
        some (Resource.refresh row.status (conv.fieldsFromItem item)
          (conv.rowHash (conv.fieldsFromItem item) (conv.claimsFromItem item source)) ts row) := by
  have hwrite : ∀ digest, (writeResource (some row) (conv.fieldsFromItem item) digest source ts).run s =
      ((row.id, [], false), ⟨s.file, { s.work with
        resources := Table.update Resource.id row.id
          (Resource.refresh row.status (conv.fieldsFromItem item) digest ts) s.work.resources }⟩) := by
    intro digest
    have hflags : ¬(row.about.inputSchemaPresent ≠ (conv.fieldsFromItem item).inputSchemaPresent ∨
        row.about.outputSchemaPresent ≠ (conv.fieldsFromItem item).outputSchemaPresent) := by
      rintro (hne | hne)
      · exact hne h.input
      · exact hne h.output
    simp only [writeResource, eventWhen, if_neg hflags]
    rfl
  unfold upsertOne
  rw [Script.run_bind, Script.run_convert]
  dsimp only
  rw [if_neg h.url]
  simp only [Script.run_bind, Script.run_convert, Session.run_select, Session.run_execute,
    Script.run_pure, h.listed, hwrite, List.nil_append]
  refine ⟨_, _, rfl, ?_⟩
  obtain ⟨hreported, hrecorded⟩ := replaceClaims_same conv
    (s := ⟨s.file, rewritten conv row source item ts s.work⟩) h.claims
    (conv.fieldsFromItem item).canonicalUrl ts
  refine ⟨⟨((claimsChanged conv (byRail (s.work.loadClaims row.id source)) row.id source
      (conv.fieldsFromItem item).canonicalUrl ts (byRail (conv.claimsFromItem item source))).run
        ⟨s.file, rewritten conv row source item ts s.work⟩).2, Prod.ext hreported.symm rfl, ?_⟩,
    fun resourceId' source' => ?_, ?_⟩
  · exact (finish_leaves conv (g := Catalog.claimEvents) (fun _ _ _ => rfl) _).trans hrecorded
  · refine (finish_leaves conv (g := fun c => c.loadClaims resourceId' source') (fun _ _ _ => rfl) _).trans ?_
    exact loadClaims_replaceClaims conv row.id source _ _ ts
      ⟨s.file, rewritten conv row source item ts s.work⟩ resourceId' source'
  · refine (finish_leaves conv (g := fun c => c.resource (conv.fieldsFromItem item).canonicalUrl)
      (fun _ _ _ => rfl) _).trans ?_
    rw [← resource_refresh h.listed]
    have hcore := (replaceClaims_aside conv row.id source (conv.claimsFromItem item source)
      (conv.fieldsFromItem item).canonicalUrl ts).run
        ⟨s.file, rewritten conv row source item ts s.work⟩
    exact (congrArg (fun c => Catalog.resource c (conv.fieldsFromItem item).canonicalUrl) hcore :)

/-- Upserting a listing whose claims from the source come back as the same set, in any order:
no rail is reported, every reported event is recorded and the set of claims stays.  Prices and
recipients are not reported while the first claims of each rail agree in them, and the hash
stays when the description and the claims do and the source wrote the row last. -/
theorem reingest_quiet (py : Interp) {s : Session Catalog}
    (h : ComesAgain conv s.work row source item) (generation : Option ℤ) (ts : ℤ) :
    let run := (upsertOne (conv.hashed py) item source generation ts).run s
    let claims := conv.claimsFromItem item source
    let stored := s.work.loadClaims row.id source
    Resent row source s.work run ∧
      (SameOffers stored claims → PricesQuiet run.1.events) ∧
      ((conv.fieldsFromItem item).toDescription = row.about → claims.Perm stored →
        LastWritten py s.work row source →
        (run.2.work.resource (conv.fieldsFromItem item).canonicalUrl).map Resource.rowHash =
          some row.rowHash) := by
  have h' : ComesAgain (conv.hashed py) s.work row source item := ⟨h.1, h.2, h.3, h.4, h.5⟩
  obtain ⟨s', changed, hrun, ⟨s₂, hchanged, hevents⟩, hload, hresource⟩ :=
    upsertOne_again h' generation ts
  change (claimsChanged (conv.hashed py) (byRail (s.work.loadClaims row.id source)) row.id source
    (conv.fieldsFromItem item).canonicalUrl ts (byRail (conv.claimsFromItem item source))).run
      ⟨s.file, rewritten (conv.hashed py) row source item ts s.work⟩ = (changed, s₂) at hchanged
  have hkinds : ∀ k ∈ changed, k = .priceChanged ∨ k = .payToChanged := by
    intro k hk
    rw [← show _ = changed from congrArg Prod.fst hchanged] at hk
    exact mem_claimsChanged (conv.hashed py) hk
  dsimp only
  rw [hrun]
  refine ⟨⟨⟨fun hadded => ?_, fun hremoved => ?_⟩, ?_, fun claim => ?_, fun id' source' hother => ?_⟩,
    fun hsame => ?_, fun habout hperm hlast => ?_⟩
  · rcases hkinds _ hadded with hk | hk <;> cases hk
  · rcases hkinds _ hremoved with hk | hk <;> cases hk
  · have hrecorded := claimsChanged_recorded (conv.hashed py)
      (byRail (s.work.loadClaims row.id source)) row.id source
      (conv.fieldsFromItem item).canonicalUrl ts (byRail (conv.claimsFromItem item source))
      ⟨s.file, rewritten (conv.hashed py) row source item ts s.work⟩
    rw [hchanged] at hrecorded
    rw [hevents]
    exact hrecorded
  · rw [hload, if_pos ⟨rfl, rfl⟩]
    exact h.claims claim
  · rw [hload, if_neg hother]
  · rw [claimsChanged_quiet (conv.hashed py) hsame] at hchanged
    cases hchanged
    exact ⟨List.not_mem_nil, List.not_mem_nil⟩
  · refine (congrArg (Option.map Resource.rowHash) hresource).trans (congrArg some ?_)
    show rowHash py (conv.fieldsFromItem item).toDescription (conv.claimsFromItem item source) = _
    rw [habout, rowHash_perm py row.about hperm]
    exact hlast.symm

/-- The row that is written has the description and the hash of the item. -/
theorem writeResource_row (s : Session Catalog) (fields : Fields) (digest source : PyStr) (ts : ℤ) :
    ∃ out s' row,
      (writeResource (s.work.resource fields.canonicalUrl) fields digest source ts).run s = (out, s') ∧
        s'.work.resource fields.canonicalUrl = some row ∧ row.id = out.1 ∧
        row.about = fields.toDescription ∧ row.rowHash = digest := by
  cases hrow : s.work.resource fields.canonicalUrl with
  | none =>
      refine ⟨_, _, ⟨s.work.nextResource, fields.canonicalUrl, fields.toDescription, ts, ts, ts,
        digest, .active, none, none, none, none, none, none⟩, rfl, ?_, rfl, rfl, rfl⟩
      refine (Table.lookup_append _ _ _).trans ?_
      rw [show Table.lookup Resource.canonicalUrl s.work.resources _ = none from hrow]
      simp [Table.lookup]
  | some row =>
      rw [writeResource, Script.run_bind]
      generalize hr : (eventWhen (row.about.inputSchemaPresent ≠ fields.inputSchemaPresent ∨
          row.about.outputSchemaPresent ≠ fields.outputSchemaPresent)
        row.id fields.canonicalUrl .schemaChanged source
        (.schema row.about.inputSchemaPresent fields.inputSchemaPresent
          row.about.outputSchemaPresent fields.outputSchemaPresent) ts).run s = r
      have hcore : r.2.work.core = s.work.core := by
        rw [← hr]
        exact (eventWhen_leaves eventless_core _ _ _ _ _ _ _).run s
      refine ⟨_, _, Resource.refresh row.status fields digest ts row, rfl, ?_, rfl, rfl, rfl⟩
      exact (congrArg (fun c : Catalog => Table.lookup Resource.canonicalUrl
        (Table.update Resource.id row.id (Resource.refresh row.status fields digest ts)
          c.resources) fields.canonicalUrl) hcore : _).trans (resource_refresh hrow fields digest ts)

/-- An upsert leaves the description, the claims and the hash of its own item. -/
theorem upsertOne_lastWritten (conv : Conversions Item) (py : Interp) (s : Session Catalog)
    (item : Item) (hurl : (conv.fieldsFromItem item).canonicalUrl ≠ []) (source : PyStr)
    (generation : Option ℤ) (ts : ℤ) :
    let c := ((upsertOne (conv.hashed py) item source generation ts).run s).2.work
    ∃ row, c.resource (conv.fieldsFromItem item).canonicalUrl = some row ∧
      row.about = (conv.fieldsFromItem item).toDescription ∧
      c.loadClaims row.id source = conv.claimsFromItem item source ∧ LastWritten py c row source := by
  intro c
  obtain ⟨out, s₁, row, hrun, hrow, hid, habout, hhash⟩ := writeResource_row s
    (conv.fieldsFromItem item)
    (rowHash py (conv.fieldsFromItem item).toDescription (conv.claimsFromItem item source)) source ts
  have hleft : ∀ {γ : Type} {g : Catalog → γ},
      (∀ c rows fts, g { c with resourceSources := rows, resourceFts := fts } = g c) →
      g c = g ((replaceClaims (conv.hashed py) out.1 source (conv.claimsFromItem item source)
        (conv.fieldsFromItem item).canonicalUrl ts).run s₁).2.work := by
    intro γ g hg
    show g ((upsertOne (conv.hashed py) item source generation ts).run s).2.work = _
    unfold upsertOne
    rw [Script.run_bind, Script.run_convert]
    dsimp only
    rw [if_neg (by exact hurl)]
    simp only [Script.run_bind, Script.run_convert, Session.run_select, Session.run_execute,
      Script.run_pure]
    have hrun' : (writeResource (s.work.resource ((conv.hashed py).fieldsFromItem item).canonicalUrl)
        ((conv.hashed py).fieldsFromItem item)
        ((conv.hashed py).rowHash ((conv.hashed py).fieldsFromItem item)
          ((conv.hashed py).claimsFromItem item source)) source ts).run s = (out, s₁) := hrun
    rw [hrun']
    exact finish_leaves (conv.hashed py) hg _
  have hload : c.loadClaims row.id source = conv.claimsFromItem item source := by
    refine (hleft (g := fun c => c.loadClaims row.id source) fun _ _ _ => rfl).trans ?_
    rw [hid, loadClaims_replaceClaims, if_pos ⟨rfl, rfl⟩]
  refine ⟨row, ?_, habout, hload, ?_⟩
  · refine (hleft (g := fun c => c.resource (conv.fieldsFromItem item).canonicalUrl)
      fun _ _ _ => rfl).trans (Eq.trans ?_ hrow)
    have hcore := (replaceClaims_aside (conv.hashed py) out.1 source (conv.claimsFromItem item source)
      (conv.fieldsFromItem item).canonicalUrl ts).run s₁
    exact (congrArg (fun c => Catalog.resource c (conv.fieldsFromItem item).canonicalUrl) hcore :)
  · rw [LastWritten, hhash, habout, hload]

end Upsert

/-! ## Claims that come back in another order -/

section Sample

/-- Items that are a description and claims, all of one listing. -/
def described : Conversions (Description × List Claim) where
  fieldsFromItem item := ⟨item.1, "https://a.example", none⟩
  claimsFromItem item _ := item.2
  rowHash _ _ := []
  paytoEqual a b _ := a == b
  ftsOk := true
  coldSweepS := 64800

def weather : Description := ⟨none, some "weather", none, none, none, false, false⟩

/-- A claim on the one rail of the sample. -/
def offer (amount : String) : Claim := ⟨some "base", none, none, some amount, some "0xab", none⟩

/-- The catalog with one listing, which has two claims on one rail. -/
def twoOffers : Session Catalog :=
  ((upsertOne (described.hashed .plain) (weather, [offer "1000", offer "2000"]) sourceCdp none 100).run
    ⟨.empty, .empty⟩).2

/-- The row of that listing. -/
def weatherRow : Resource :=
  ⟨1, "https://a.example", weather, 100, 100, 100,
    rowHash .plain weather [offer "1000", offer "2000"], .active, none, none, none, none, none, none⟩

theorem twoOffers_stored :
    twoOffers.work.loadClaims weatherRow.id sourceCdp = [offer "1000", offer "2000"] := by
  decide +kernel

theorem twoOffers_listed : twoOffers.work.resource "https://a.example" = some weatherRow := by
  decide +kernel

/-- The listing comes again as it was. -/
theorem reingest_quiet_twoOffers :
    let run := (upsertOne (described.hashed .plain) (weather, [offer "1000", offer "2000"])
      sourceCdp none 200).run twoOffers
    Resent weatherRow sourceCdp twoOffers.work run ∧ PricesQuiet run.1.events ∧
      (run.2.work.resource "https://a.example").map Resource.rowHash = some weatherRow.rowHash := by
  have hagain : ComesAgain described twoOffers.work weatherRow sourceCdp
      (weather, [offer "1000", offer "2000"]) := by
    refine ⟨by decide, twoOffers_listed, rfl, rfl, fun claim => ?_⟩
    rw [twoOffers_stored]
    rfl
  obtain ⟨hresent, hprices, hhash⟩ := reingest_quiet .plain hagain none 200
  rw [twoOffers_stored] at hprices hhash
  refine ⟨hresent, hprices fun rail old new hold hnew => ?_, hhash rfl (.refl _) ?_⟩
  · have hrail : byRail [offer "1000", offer "2000"] = [(PyStr.ofString "base", offer "1000")] := by
      decide
    change (rail, new) ∈ byRail [offer "1000", offer "2000"] at hnew
    rw [hrail] at hold hnew
    cases List.mem_singleton.mp hold
    cases List.mem_singleton.mp hnew
    exact ⟨rfl, rfl⟩
  · exact (congrArg (rowHash .plain weather) twoOffers_stored).symm

/-- The same claims in the other order raise an event; a new description changes the hash. -/
theorem same_claims_raise_event :
    (ComesAgain described twoOffers.work weatherRow sourceCdp (weather, [offer "2000", offer "1000"]) ∧
      ¬ PricesQuiet ((upsertOne (described.hashed .plain) (weather, [offer "2000", offer "1000"])
        sourceCdp none 200).run twoOffers).1.events) ∧
    (ComesAgain described twoOffers.work weatherRow sourceCdp
        ({ weather with description := some "forecast" }, [offer "1000", offer "2000"]) ∧
      (((upsertOne (described.hashed .plain)
          ({ weather with description := some "forecast" }, [offer "1000", offer "2000"])
          sourceCdp none 200).run twoOffers).2.work.resource "https://a.example").map
        Resource.rowHash ≠ some weatherRow.rowHash) := by
  refine ⟨⟨⟨by decide, twoOffers_listed, rfl, rfl, fun claim => ?_⟩, ?_⟩,
    ⟨by decide, twoOffers_listed, rfl, rfl, fun claim => ?_⟩, ?_⟩
  · rw [twoOffers_stored]
    simp [described, or_comm]
  · intro h
    exact h.1 (by decide +kernel)
  · rw [twoOffers_stored]
    rfl
  · decide +kernel

end Sample

end Signal402.Shadow
