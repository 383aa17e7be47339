import Signal402.Catalog.Shadow

/-!
# The catalog as sweeps see it

What sweeps read of the catalog and change in it: the status of a listing, the
generation and the time each source last saw it with, and the generation of each
source.  `Listings` is this abstract catalog, with total maps in place of tables,
and the code on the tables refines the operations on it.

* `upsertOne_listings` — an upsert sees the listing and makes it active.
* `retireUnseen_listings` — a completed sweep retires the listings that it did not
  see and that no other source saw since the cutoff.
* `WellFormed` — the keys of the tables, which every function keeps.
-/

namespace Signal402.Shadow

open Session (execute update select commit)

/-! ## The abstract catalog -/

/-- What is kept of the upserts of one listing from one source. -/
structure Seen where
  generation : Option ℤ
  lastSeen : ℤ
  deriving DecidableEq

/-- One more upsert; an upsert without a generation keeps the one before. -/
def Seen.again (old : Option Seen) (generation : Option ℤ) (ts : ℤ) : Seen :=
  ⟨generation.or (old.bind Seen.generation), ts⟩

/-- The listings by URL, what each source saw of them, and the sweep of each source. -/
@[ext] structure Listings where
  status : PyStr → Option Status
  seen : PyStr → PyStr → Option Seen
  generation : PyStr → ℤ

namespace Listings

variable (l : Listings)

/-- An upsert of `url` from `source`. -/
def upsert (url source : PyStr) (generation : Option ℤ) (ts : ℤ) : Listings where
  status u := if u = url then some .active else l.status u
  seen u s :=
    if u = url ∧ s = source then some (.again (l.seen u s) generation ts) else l.seen u s
  generation := l.generation

/-- The listing is one of `source`, which last saw it in another sweep or in none. -/
def Unseen (source : PyStr) (generation : ℤ) (u : PyStr) : Prop :=
  ∃ r, l.seen u source = some r ∧ r.generation ≠ some generation

/-- A source other than `source` that sweeps the listing saw it from `cutoff` on. -/
def SeenElsewhere (source : PyStr) (cutoff : ℤ) (u : PyStr) : Prop :=
  ∃ s r, s ≠ source ∧ l.seen u s = some r ∧ r.generation.isSome ∧ cutoff ≤ r.lastSeen

open Classical in
/-- The end of a sweep. -/
noncomputable def retire (source : PyStr) (generation cutoff : ℤ) : Listings where
  status u :=
    if l.status u = some .active ∧ l.Unseen source generation u ∧ ¬l.SeenElsewhere source cutoff u
    then some .retired else l.status u
  seen := l.seen
  generation := l.generation

theorem retire_status_pos {source : PyStr} {generation cutoff : ℤ} {u : PyStr}
    (hactive : l.status u = some .active) (hunseen : l.Unseen source generation u)
    (helse : ¬l.SeenElsewhere source cutoff u) :
    (l.retire source generation cutoff).status u = some .retired :=
  if_pos ⟨hactive, hunseen, helse⟩

theorem retire_status_neg {source : PyStr} {generation cutoff : ℤ} {u : PyStr}
    (h : ¬(l.status u = some .active ∧ l.Unseen source generation u ∧
      ¬l.SeenElsewhere source cutoff u)) :
    (l.retire source generation cutoff).status u = l.status u := if_neg h

/-- A source starts the sweep `n`. -/
def setGeneration (source : PyStr) (n : ℤ) : Listings where
  status := l.status
  seen := l.seen
  generation s := if s = source then n else l.generation s

end Listings

/-! ## The tables -/

/-- What a row of `resource_sources` keeps of the upserts. -/
def SourceRow.seen (row : SourceRow) : Seen := ⟨row.sourceGeneration, row.sourceLastSeen⟩

@[simp] theorem SourceRow.seeAgain_key (sid : Option PyStr) (generation : Option ℤ) (ts : ℤ)
    (r : SourceRow) : (r.seeAgain sid generation ts).key = r.key := rfl

@[simp] theorem Resource.refresh_id (prev : Status) (fields : Fields) (digest : PyStr) (ts : ℤ)
    (r : Resource) : (r.refresh prev fields digest ts).id = r.id := rfl

@[simp] theorem Resource.refresh_canonicalUrl (prev : Status) (fields : Fields) (digest : PyStr)
    (ts : ℤ) (r : Resource) :
    (r.refresh prev fields digest ts).canonicalUrl = r.canonicalUrl := rfl

@[simp] theorem Resource.retire_id (ts : ℤ) (r : Resource) : (r.retire ts).id = r.id := by
  unfold Resource.retire
  split <;> rfl

@[simp] theorem Resource.retire_canonicalUrl (ts : ℤ) (r : Resource) :
    (r.retire ts).canonicalUrl = r.canonicalUrl := by
  unfold Resource.retire
  split <;> rfl

namespace Catalog

/-- The abstract catalog of the tables. -/
def listings (c : Catalog) : Listings where
  status u := (c.resource u).map Resource.status
  seen u s := (c.resource u).bind fun r => (c.sourceRow r.id s).map SourceRow.seen
  generation s := (c.sourceState s).generation

/-- The keys of the tables, and no row of a source for a listing to come. -/
structure WellFormed (c : Catalog) : Prop where
  urls : Table.Unique Resource.canonicalUrl c.resources
  ids : Table.Unique Resource.id c.resources
  next : ∀ r ∈ c.resources, r.id < c.nextResource
  keys : Table.Unique SourceRow.key c.resourceSources
  listed : ∀ r ∈ c.resourceSources, r.resourceId < c.nextResource

/-- The tables that sweeps read. -/
def core (c : Catalog) : Catalog :=
  { c with acceptClaims := [], claimEvents := [], resourceFts := [], nextClaim := 0, nextEvent := 0 }

theorem wellFormed_core (c : Catalog) : c.core.WellFormed ↔ c.WellFormed :=
  ⟨fun h => ⟨h.urls, h.ids, h.next, h.keys, h.listed⟩,
    fun h => ⟨h.urls, h.ids, h.next, h.keys, h.listed⟩⟩

theorem listings_core (c : Catalog) : c.core.listings = c.listings := rfl

theorem WellFormed.congr {c c' : Catalog} (h : c.WellFormed) (hcore : c'.core = c.core) :
    c'.WellFormed := by
  rw [← wellFormed_core, hcore, wellFormed_core]
  exact h

theorem listings_congr {c c' : Catalog} (hcore : c'.core = c.core) : c'.listings = c.listings := by
  rw [← listings_core, hcore, listings_core]

theorem wellFormed_empty : empty.WellFormed where
  urls := List.nodup_nil
  ids := List.nodup_nil
  next := List.forall_mem_nil _
  keys := List.nodup_nil
  listed := List.forall_mem_nil _

end Catalog

/-! ## Code that sweeps do not see -/

/-- A run leaves the tables that sweeps read as they are. -/
abbrev Aside {α : Type} (x : Code α) : Prop := Script.Leaves (fun s => s.work.core) x

section Aside

variable {Item : Type} (conv : Conversions Item)

/-- A part of the catalog that the events do not enter. -/
def Eventless {γ : Type} (g : Catalog → γ) : Prop :=
  ∀ (c : Catalog) (events : List ClaimEvent) (n : ℕ),
    g { c with claimEvents := events, nextEvent := n } = g c

section Eventless

variable {γ : Type} {g : Catalog → γ} (hg : Eventless g)

include hg

theorem insertEvent_leaves (resourceId : ℕ) (url : PyStr) (event : EventKind) (source : PyStr)
    (detail : Detail) (ts : ℤ) :
    (insertEvent resourceId url event source detail ts).Leaves fun s => g s.work :=
  Script.Leaves.execute fun c => hg c _ _

theorem eventWhen_leaves (p : Prop) [Decidable p] (resourceId : ℕ) (url : PyStr)
    (event : EventKind) (source : PyStr) (detail : Detail) (ts : ℤ) :
    (eventWhen p resourceId url event source detail ts).Leaves fun s => g s.work := by
  unfold eventWhen
  split
  · exact Script.Leaves.bind (insertEvent_leaves hg _ _ _ _ _ _) fun _ => .pure _
  · exact .pure _

theorem claimChanged_leaves (prev : Option (PyStr × Claim)) (nxt : Claim) (resourceId : ℕ)
    (source url rail : PyStr) (ts : ℤ) :
    (claimChanged conv prev nxt resourceId source url rail ts).Leaves fun s => g s.work := by
  unfold claimChanged
  split
  · exact .pure _
  · exact Script.Leaves.bind (eventWhen_leaves hg _ _ _ _ _ _ _) fun price =>
      Script.Leaves.bind (eventWhen_leaves hg _ _ _ _ _ _ _) fun payTo => .pure _

theorem claimsChanged_leaves (old : List (PyStr × Claim)) (resourceId : ℕ) (source url : PyStr)
    (ts : ℤ) (claims : List (PyStr × Claim)) :
    (claimsChanged conv old resourceId source url ts claims).Leaves fun s => g s.work := by
  induction claims with
  | nil => exact .pure _
  | cons claim rest ih =>
      obtain ⟨rail, nxt⟩ := claim
      unfold claimsChanged
      exact Script.Leaves.bind (claimChanged_leaves conv hg _ _ _ _ _ _ _) fun first =>
        Script.Leaves.bind ih fun events => .pure _

end Eventless

theorem eventless_core : Eventless Catalog.core := fun _ _ _ => rfl

theorem capEvents_aside : Aside capEvents := by
  unfold capEvents
  refine Script.Leaves.bind (.look _) fun n => ?_
  split
  · exact .pure _
  · exact Script.Leaves.execute fun _ => rfl

theorem replaceClaims_aside (resourceId : ℕ) (source : PyStr) (claims : List Claim) (url : PyStr)
    (ts : ℤ) : Aside (replaceClaims conv resourceId source claims url ts) := by
  unfold replaceClaims
  refine Script.Leaves.bind (.look _) fun old => ?_
  refine Script.Leaves.bind (.forM fun rail _ => insertEvent_leaves eventless_core _ _ _ _ _ _) fun _ => ?_
  refine Script.Leaves.bind (.forM fun rail _ => insertEvent_leaves eventless_core _ _ _ _ _ _) fun _ => ?_
  refine Script.Leaves.bind (claimsChanged_leaves conv eventless_core _ _ _ _ _ _) fun changed => ?_
  refine Script.Leaves.bind (Script.Leaves.execute fun _ => rfl) fun _ => ?_
  exact Script.Leaves.bind (.forM fun claim _ => Script.Leaves.execute fun _ => rfl) fun _ => .pure _

theorem syncFts_aside (resourceId : ℕ) (fields : Fields) :
    Aside (syncFts conv resourceId fields) := by
  unfold syncFts
  split
  · exact Script.Leaves.bind (Script.Leaves.execute fun _ => rfl) fun _ => Script.Leaves.execute fun _ => rfl
  · exact .pure _

end Aside

/-! ## Upserts -/

section Upserts

variable {Item : Type} (conv : Conversions Item)

namespace Catalog

variable {c : Catalog}

theorem WellFormed.resource_id_lt (h : c.WellFormed) {u : PyStr} {r : Resource}
    (hr : c.resource u = some r) : r.id < c.nextResource := h.next r (Table.mem_of_lookup hr)

/-- A listing to come has no rows of sources. -/
theorem WellFormed.sourceRow_next (h : c.WellFormed) (source : PyStr) :
    c.sourceRow c.nextResource source = none := by
  refine Table.lookup_eq_none.mpr fun r hr hkey => ?_
  have hlt := h.listed r hr
  rw [show r.resourceId = c.nextResource from congrArg Prod.fst hkey] at hlt
  exact lt_irrefl _ hlt

theorem WellFormed.id_injective (h : c.WellFormed) {u u' : PyStr} {r r' : Resource}
    (hr : c.resource u = some r) (hr' : c.resource u' = some r') (hid : r.id = r'.id) : u = u' := by
  have hrow := h.ids.lookup_of_mem (Table.mem_of_lookup hr)
  have hrow' := h.ids.lookup_of_mem (Table.mem_of_lookup hr')
  rw [hid, hrow'] at hrow
  cases hrow
  exact (Table.lookup_key hr).symm.trans (Table.lookup_key hr')

theorem sourceRow_upsertSource (resourceId : ℕ) (source : PyStr) (sid : Option PyStr)
    (generation : Option ℤ) (ts : ℤ) (resourceId' : ℕ) (source' : PyStr) :
    ((c.upsertSource resourceId source sid generation ts).sourceRow resourceId' source').map
        SourceRow.seen =
      if resourceId' = resourceId ∧ source' = source then
        some (.again ((c.sourceRow resourceId source).map SourceRow.seen) generation ts)
      else (c.sourceRow resourceId' source').map SourceRow.seen := by
  unfold upsertSource
  split
  next hnone =>
    rw [sourceRow, Table.lookup_append]
    by_cases hkey : resourceId' = resourceId ∧ source' = source
    · obtain ⟨rfl, rfl⟩ := hkey
      rw [show Table.lookup SourceRow.key c.resourceSources (resourceId', source') = none
        from hnone, hnone]
      simp [Table.lookup, SourceRow.key, SourceRow.seen, Seen.again]
    · rw [if_neg hkey]
      have hne : ¬(resourceId = resourceId' ∧ source = source') := fun h => hkey ⟨h.1.symm, h.2.symm⟩
      simp [Table.lookup, SourceRow.key, hne, sourceRow]
  next row hrow =>
    rw [sourceRow, Table.lookup_update (SourceRow.seeAgain_key _ _ _)]
    by_cases hkey : resourceId' = resourceId ∧ source' = source
    · obtain ⟨rfl, rfl⟩ := hkey
      rw [if_pos rfl, if_pos ⟨rfl, rfl⟩, show Table.lookup SourceRow.key c.resourceSources
        (resourceId', source') = some row from hrow, hrow]
      rfl
    · rw [if_neg hkey, if_neg fun h => hkey ⟨congrArg Prod.fst h, congrArg Prod.snd h⟩]
      rfl

/-- A listing after the update of the row with an id. -/
theorem lookup_updateId (resources : List Resource) (rid : ℕ) {f : Resource → Resource}
    (hf : ∀ r, (f r).canonicalUrl = r.canonicalUrl) (u : PyStr) :
    Table.lookup Resource.canonicalUrl (Table.update Resource.id rid f resources) u =
      (Table.lookup Resource.canonicalUrl resources u).map fun r => if r.id = rid then f r else r := by
  unfold Table.update
  rw [Table.lookup_map]
  intro r
  split
  · exact hf r
  · rfl

theorem WellFormed.updateId (h : c.WellFormed) (rid : ℕ) {f : Resource → Resource}
    (hid : ∀ r, (f r).id = r.id) (hurl : ∀ r, (f r).canonicalUrl = r.canonicalUrl) :
    ({ c with resources := Table.update Resource.id rid f c.resources } : Catalog).WellFormed where
  urls := by
    refine h.urls.map fun r => ?_
    split
    · exact hurl r
    · rfl
  ids := h.ids.update hid
  next := by
    intro r hr
    obtain ⟨r', hr', rfl⟩ := List.mem_map.mp hr
    have hlt := h.next r' hr'
    split
    · rw [hid]
      exact hlt
    · exact hlt
  keys := h.keys
  listed := h.listed

end Catalog

/-- The row of a listing is written: it is the row `rid`, and active. -/
structure Written (c c' : Catalog) (url : PyStr) (rid : ℕ) : Prop where
  wellFormed : c'.WellFormed
  row : ∃ r, c'.resource url = some r ∧ r.id = rid ∧ r.status = .active
  others : ∀ u, u ≠ url → c'.resource u = c.resource u
  rows : c'.resourceSources = c.resourceSources
  states : c'.sourceStates = c.sourceStates
  known : ∀ r, c.resource url = some r → r.id = rid
  fresh : c.resource url = none → ∀ s, c.sourceRow rid s = none

theorem Written.congr {c c' c'' : Catalog} {url : PyStr} {rid : ℕ} (h : Written c c' url rid)
    (hcore : c''.core = c'.core) : Written c c'' url rid where
  wellFormed := h.wellFormed.congr hcore
  row := by
    obtain ⟨r, hr, hid, hstatus⟩ := h.row
    refine ⟨r, ?_, hid, hstatus⟩
    show c''.core.resource url = some r
    rw [hcore]
    exact hr
  others u hu := by
    show c''.core.resource u = c.resource u
    rw [hcore]
    exact h.others u hu
  rows := by
    show c''.core.resourceSources = c.resourceSources
    rw [hcore]
    exact h.rows
  states := by
    show c''.core.sourceStates = c.sourceStates
    rw [hcore]
    exact h.states
  known := h.known
  fresh := h.fresh

theorem written_insert {c : Catalog} (h : c.WellFormed) {url : PyStr} (hnone : c.resource url = none)
    {r : Resource} (hid : r.id = c.nextResource) (hurl : r.canonicalUrl = url)
    (hstatus : r.status = .active) :
    Written c { c with resources := c.resources ++ [r], nextResource := c.nextResource + 1 }
      url c.nextResource := by
  have hlookup : ∀ u, Table.lookup Resource.canonicalUrl (c.resources ++ [r]) u =
      if u = url then some r else c.resource u := by
    intro u
    rw [Table.lookup_append]
    by_cases hu : u = url
    · subst hu
      rw [show Table.lookup Resource.canonicalUrl c.resources u = none from hnone]
      simp [Table.lookup, hurl]
    · have hne : ¬url = u := fun h => hu h.symm
      simp [Table.lookup, hurl, hne, hu, Catalog.resource]
  refine ⟨⟨?_, ?_, ?_, h.keys, ?_⟩, ⟨r, ?_, hid, hstatus⟩, fun u hu => ?_, rfl, rfl, ?_, ?_⟩
  · refine h.urls.append ?_
    rw [hurl]
    exact hnone
  · refine h.ids.append (Table.lookup_eq_none.mpr fun r' hr' hkey => ?_)
    have hlt := h.next r' hr'
    rw [hkey, hid] at hlt
    exact lt_irrefl _ hlt
  · intro r' hr'
    rcases List.mem_append.mp hr' with hr' | hr'
    · exact Nat.lt_succ_of_lt (h.next r' hr')
    · rw [List.mem_singleton.mp hr', hid]
      exact Nat.lt_succ_self _
  · exact fun r' hr' => Nat.lt_succ_of_lt (h.listed r' hr')
  · exact (hlookup url).trans (if_pos rfl)
  · exact (hlookup u).trans (if_neg hu)
  · intro r' hr'
    rw [hnone] at hr'
    cases hr'
  · exact fun _ => h.sourceRow_next

theorem written_refresh {c : Catalog} (h : c.WellFormed) {url : PyStr} {row : Resource}
    (hrow : c.resource url = some row) {f : Resource → Resource} (hid : ∀ r, (f r).id = r.id)
    (hurl : ∀ r, (f r).canonicalUrl = r.canonicalUrl) (hstatus : ∀ r, (f r).status = .active) :
    Written c { c with resources := Table.update Resource.id row.id f c.resources } url row.id := by
  refine ⟨h.updateId row.id hid hurl, ⟨f row, ?_, hid row, hstatus row⟩, fun u hu => ?_, rfl, rfl,
    ?_, ?_⟩
  · refine (Catalog.lookup_updateId c.resources row.id hurl url).trans ?_
    rw [show Table.lookup Resource.canonicalUrl c.resources url = some row from hrow]
    exact congrArg some (if_pos rfl)
  · refine (Catalog.lookup_updateId c.resources row.id hurl u).trans ?_
    change (c.resource u).map _ = c.resource u
    cases hu' : c.resource u with
    | none => rfl
    | some r => exact congrArg some (if_neg fun heq => hu (h.id_injective hu' hrow heq))
  · intro r hr
    rw [hrow] at hr
    cases hr
    rfl
  · intro hnone
    rw [hrow] at hnone
    cases hnone

/-- Writing the row of a listing. -/
theorem writeResource_written {s : Session Catalog} (h : s.work.WellFormed) (fields : Fields)
    (digest source : PyStr) (ts : ℤ) :
    ∃ out s', (writeResource (s.work.resource fields.canonicalUrl) fields digest source ts).run s =
      (out, s') ∧ Written s.work s'.work fields.canonicalUrl out.1 := by
  unfold writeResource
  split
  next hnone =>
    refine ⟨_, _, rfl, ?_⟩
    exact (written_insert h hnone rfl rfl rfl).congr rfl
  next row hrow =>
    rw [Script.run_bind]
    have haside := (eventWhen_leaves eventless_core
      (row.about.inputSchemaPresent ≠ fields.inputSchemaPresent ∨
        row.about.outputSchemaPresent ≠ fields.outputSchemaPresent)
      row.id fields.canonicalUrl .schemaChanged source
      (.schema row.about.inputSchemaPresent fields.inputSchemaPresent
        row.about.outputSchemaPresent fields.outputSchemaPresent) ts).run s
    refine ⟨_, _, rfl, ?_⟩
    have hwork := written_refresh h hrow (Resource.refresh_id row.status fields digest ts)
      (Resource.refresh_canonicalUrl row.status fields digest ts) fun _ => rfl
    refine hwork.congr ?_
    -- the update works on the tables the event left as they were
    exact congrArg (fun c : Catalog =>
      ({ c with
        resources := Table.update Resource.id row.id
          (Resource.refresh row.status fields digest ts) c.resources } : Catalog)) haside

namespace Catalog

theorem core_upsertSource (c : Catalog) (rid : ℕ) (source : PyStr) (sid : Option PyStr)
    (generation : Option ℤ) (ts : ℤ) :
    (c.upsertSource rid source sid generation ts).core =
      c.core.upsertSource rid source sid generation ts := by
  unfold upsertSource
  rw [show c.core.sourceRow rid source = c.sourceRow rid source from rfl]
  split <;> rfl

theorem resource_upsertSource (c : Catalog) (rid : ℕ) (source : PyStr) (sid : Option PyStr)
    (generation : Option ℤ) (ts : ℤ) (u : PyStr) :
    (c.upsertSource rid source sid generation ts).resource u = c.resource u := by
  unfold upsertSource
  split <;> rfl

theorem sourceState_upsertSource (c : Catalog) (rid : ℕ) (source : PyStr) (sid : Option PyStr)
    (generation : Option ℤ) (ts : ℤ) (source' : PyStr) :
    (c.upsertSource rid source sid generation ts).sourceState source' = c.sourceState source' := by
  unfold upsertSource
  split <;> rfl

theorem WellFormed.upsertSource {c : Catalog} (h : c.WellFormed) {rid : ℕ}
    (hrid : rid < c.nextResource) (source : PyStr) (sid : Option PyStr) (generation : Option ℤ)
    (ts : ℤ) : (c.upsertSource rid source sid generation ts).WellFormed := by
  unfold Catalog.upsertSource
  split
  next hnone =>
    refine ⟨h.urls, h.ids, h.next, h.keys.append hnone, fun r hr => ?_⟩
    rcases List.mem_append.mp hr with hr | hr
    · exact h.listed r hr
    · rw [List.mem_singleton.mp hr]
      exact hrid
  next =>
    refine ⟨h.urls, h.ids, h.next, h.keys.update (SourceRow.seeAgain_key _ _ _), fun r hr => ?_⟩
    obtain ⟨r', hr', rfl⟩ := List.mem_map.mp hr
    have hlt := h.listed r' hr'
    split <;> exact hlt

end Catalog

/-- The listing is written and seen: the catalog after the upsert. -/
theorem Written.listings {c c' : Catalog} {url : PyStr} {rid : ℕ} (h : Written c c' url rid) (source : PyStr) (sid : Option PyStr) (generation : Option ℤ) (ts : ℤ) :
    (c'.upsertSource rid source sid generation ts).listings =
      c.listings.upsert url source generation ts := by
  obtain ⟨r, hr, hid, hstatus⟩ := h.row
  have hrows : ∀ s, c'.sourceRow rid s = c.sourceRow rid s := by
    intro s
    unfold Catalog.sourceRow
    rw [h.rows]
  unfold Catalog.listings Listings.upsert
  congr 1
  · funext u
    rw [Catalog.resource_upsertSource]
    by_cases hu : u = url
    · subst hu
      rw [hr, if_pos rfl, Option.map_some, hstatus]
    · rw [h.others u hu, if_neg hu]
  · funext u s
    dsimp only
    rw [Catalog.resource_upsertSource]
    by_cases hu : u = url
    · subst hu
      rw [hr, Option.bind_some, hid, Catalog.sourceRow_upsertSource, hrows, hrows]
      -- what the sources saw of the listing before, if it was listed
      have hold : ∀ s, (c.resource u).bind (fun r => (c.sourceRow r.id s).map SourceRow.seen) =
          (c.sourceRow rid s).map SourceRow.seen := by
        intro s
        cases hold : c.resource u with
        | none => rw [h.fresh hold s]; rfl
        | some r' => rw [Option.bind_some, h.known r' hold]
      rw [hold]
      by_cases hs : s = source
      · subst hs
        rw [if_pos ⟨rfl, rfl⟩, if_pos ⟨rfl, rfl⟩]
      · rw [if_neg fun h => hs h.2, if_neg fun h => hs h.2]
    · rw [if_neg fun h => hu h.1, h.others u hu]
      cases hold : c.resource u with
      | none => rw [Option.bind_none, Option.bind_none]
      | some r' =>
          rw [Option.bind_some, Option.bind_some, Catalog.sourceRow_upsertSource, if_neg]
          · unfold Catalog.sourceRow
            rw [h.rows]
          · rintro ⟨hrid, -⟩
            have hr' : c'.resource u = some r' := by rw [h.others u hu, hold]
            exact hu (h.wellFormed.id_injective hr' hr (hrid.trans hid.symm))
  · funext s
    dsimp only
    rw [Catalog.sourceState_upsertSource]
    unfold Catalog.sourceState
    rw [h.states]

/-- An upsert of a listing without a URL does nothing; any other sees the listing. -/
theorem upsertOne_listings {s : Session Catalog} (h : s.work.WellFormed) (item : Item)
    (source : PyStr) (generation : Option ℤ) (ts : ℤ) :
    ((upsertOne conv item source generation ts).run s).2.work.WellFormed ∧
      ((upsertOne conv item source generation ts).run s).2.work.listings =
        if (conv.fieldsFromItem item).canonicalUrl = [] then s.work.listings
        else s.work.listings.upsert (conv.fieldsFromItem item).canonicalUrl source generation ts := by
  unfold upsertOne
  rw [Script.run_bind, Script.run_convert]
  dsimp only
  split
  next => exact ⟨h, rfl⟩
  next =>
    simp only [Script.run_bind, Script.run_convert, Session.run_select, Session.run_execute,
      Script.run_pure]
    generalize conv.fieldsFromItem item = fields
    generalize conv.claimsFromItem item source = claims
    obtain ⟨out, s₁, hrun, hwritten⟩ :=
      writeResource_written h fields (conv.rowHash fields claims) source ts
    rw [hrun]
    dsimp only
    have hclaims := (replaceClaims_aside conv out.1 source claims fields.canonicalUrl ts).run s₁
    generalize ((replaceClaims conv out.1 source claims fields.canonicalUrl ts).run s₁).2 = s₂ at hclaims ⊢
    have hfts := (syncFts_aside conv out.1 fields).run { s₂ with
      work := Catalog.upsertSource out.1 source fields.sourceResourceId generation ts s₂.work }
    generalize ((syncFts conv out.1 fields).run _).2 = s₃ at hfts ⊢
    dsimp only at hclaims hfts
    have hcore : s₃.work.core =
        (s₁.work.upsertSource out.1 source fields.sourceResourceId generation ts).core := by
      rw [hfts, Catalog.core_upsertSource, hclaims, ← Catalog.core_upsertSource]
    obtain ⟨r, hr, hid, -⟩ := hwritten.row
    refine ⟨Catalog.WellFormed.congr ?_ hcore, ?_⟩
    · refine hwritten.wellFormed.upsertSource ?_ ..
      rw [← hid]
      exact hwritten.wellFormed.resource_id_lt hr
    · rw [Catalog.listings_congr hcore, hwritten.listings]

/-- The URLs of the listings of a batch that have one. -/
def urlsOf (items : List Item) : List PyStr :=
  (items.map fun item => (conv.fieldsFromItem item).canonicalUrl).filter (· ≠ [])

/-- A batch of upserts from one source. -/
def Listings.upsertAll (source : PyStr) (generation : Option ℤ) (ts : ℤ) (l : Listings)
    (urls : List PyStr) : Listings :=
  urls.foldl (fun l u => l.upsert u source generation ts) l

theorem upsertAll_listings (source : PyStr) (generation : Option ℤ) (ts : ℤ) (items : List Item)
    {s : Session Catalog} (h : s.work.WellFormed) :
    ((upsertAll conv source generation ts items).run s).2.work.WellFormed ∧
      ((upsertAll conv source generation ts items).run s).2.work.listings =
        s.work.listings.upsertAll source generation ts (urlsOf conv items) := by
  induction items generalizing s with
  | nil => exact ⟨h, rfl⟩
  | cons item rest ih =>
      unfold upsertAll
      rw [Script.run_bind, Script.run_bind]
      obtain ⟨hwork, hlistings⟩ := upsertOne_listings conv h item source generation ts
      obtain ⟨hwork', hlistings'⟩ := ih hwork
      refine ⟨hwork', hlistings'.trans ?_⟩
      rw [hlistings]
      unfold urlsOf
      rw [List.map_cons]
      split
      next hurl => rw [List.filter_cons_of_neg (by simpa using hurl)]
      next hurl => rw [List.filter_cons_of_pos (by simpa using hurl)]; rfl

end Upserts

/-! ## Completed sweeps -/

section Retiring

variable {Item : Type} (conv : Conversions Item)

namespace Catalog

variable (c : Catalog) (source : PyStr)

/-- One step of the loop over the unseen listings. -/
def retireRow (cutoff ts : ℤ) (c : Catalog) (rid : ℕ) : Catalog :=
  if c.seenElsewhere rid source cutoff then c else c.retire rid ts

/-- A row after the loop over the listings `ids`. -/
def retiredRow (cutoff ts : ℤ) (ids : List ℕ) (r : Resource) : Resource :=
  if r.id ∈ ids ∧ ¬c.seenElsewhere r.id source cutoff then r.retire ts else r

theorem retireRow_core (cutoff ts : ℤ) (rid : ℕ) :
    (retireRow source cutoff ts c rid).core = retireRow source cutoff ts c.core rid := by
  unfold retireRow
  rw [show c.core.seenElsewhere rid source cutoff = c.seenElsewhere rid source cutoff from rfl]
  split <;> rfl

@[simp] theorem retiredRow_canonicalUrl (cutoff ts : ℤ) (ids : List ℕ) (r : Resource) :
    (c.retiredRow source cutoff ts ids r).canonicalUrl = r.canonicalUrl := by
  unfold retiredRow
  split
  · exact r.retire_canonicalUrl ts
  · rfl

@[simp] theorem retiredRow_id (cutoff ts : ℤ) (ids : List ℕ) (r : Resource) :
    (c.retiredRow source cutoff ts ids r).id = r.id := by
  unfold retiredRow
  split
  · exact r.retire_id ts
  · rfl

/-- Retiring a row twice is retiring it once. -/
theorem retire_retire (ts : ℤ) (r : Resource) : (r.retire ts).retire ts = r.retire ts := by
  by_cases hr : r.status = .active
  · have hrow : r.retire ts = { r with status := .retired, retiredAt := some ts } := if_pos hr
    rw [hrow]
    rfl
  · rw [show r.retire ts = r from if_neg hr, show r.retire ts = r from if_neg hr]

theorem foldl_retireRow (cutoff ts : ℤ) (ids : List ℕ) :
    ids.foldl (retireRow source cutoff ts) c =
      { c with resources := c.resources.map (c.retiredRow source cutoff ts ids) } := by
  induction ids generalizing c with
  | nil =>
      have hid : c.retiredRow source cutoff ts [] = id := by
        funext r
        unfold retiredRow
        rw [if_neg fun h => List.not_mem_nil h.1]
        rfl
      rw [hid, List.map_id]
      rfl
  | cons rid rest ih =>
      rw [List.foldl_cons, ih]
      unfold retireRow
      by_cases hseen : c.seenElsewhere rid source cutoff = true
      · rw [if_pos hseen]
        congr 1
        refine List.map_congr_left fun r _ => ?_
        unfold retiredRow
        by_cases hr : r.id = rid
        · rw [hr, if_neg fun h => h.2 hseen, if_neg fun h => h.2 hseen]
        · simp only [List.mem_cons, hr, false_or]
      · rw [if_neg hseen]
        unfold retire Table.update
        congr 1
        dsimp only
        rw [List.map_map]
        refine List.map_congr_left fun r _ => ?_
        rw [Function.comp_apply]
        unfold retiredRow
        have hsame : ∀ rid', ({ c with resources := c.resources.map fun r =>
            if r.id = rid then r.retire ts else r } : Catalog).seenElsewhere rid' source cutoff =
              c.seenElsewhere rid' source cutoff := fun _ => rfl
        by_cases hr : r.id = rid
        · rw [if_pos hr, Resource.retire_id, hsame, retire_retire, hr]
          rw [if_pos (show rid ∈ rid :: rest ∧ _ from ⟨List.mem_cons_self, hseen⟩)]
          split <;> rfl
        · rw [if_neg hr, hsame]
          simp only [List.mem_cons, hr, false_or]

/-- An active listing is unseen in the tables as it is in the abstract catalog. -/
theorem mem_unseen {c : Catalog} (h : c.WellFormed) {u : PyStr} {r : Resource}
    (hr : c.resource u = some r) (hactive : r.status = .active) (generation : ℤ) :
    r.id ∈ (c.unseen source generation).map Prod.fst ↔ c.listings.Unseen source generation u := by
  unfold Listings.Unseen unseen
  have hseen : ∀ s, c.listings.seen u s = (c.sourceRow r.id s).map SourceRow.seen := by
    intro s
    show (c.resource u).bind _ = _
    rw [hr, Option.bind_some]
  rw [hseen]
  constructor
  · intro hmem
    obtain ⟨⟨rid, url⟩, hmem, rfl⟩ := List.mem_map.mp hmem
    obtain ⟨rs, hrs, hmem⟩ := List.mem_flatMap.mp hmem
    have hunseen := (List.mem_filter.mp hrs).2
    obtain ⟨r', hr', heq⟩ := List.mem_map.mp hmem
    obtain ⟨-, hid⟩ := List.mem_filter.mp hr'
    simp only [decide_eq_true_eq] at hunseen hid
    have hrid : r'.id = r.id := congrArg Prod.fst heq
    obtain ⟨rfl, hunseen⟩ := hunseen
    refine ⟨rs.seen, ?_, hunseen⟩
    rw [← hrid, hid.1]
    exact congrArg (Option.map SourceRow.seen) (h.keys.lookup_of_mem (List.mem_filter.mp hrs).1)
  · rintro ⟨seen, hrow, hunseen⟩
    obtain ⟨rs, hrs, rfl⟩ := Option.map_eq_some_iff.mp hrow
    have hkey := Table.lookup_key hrs
    refine List.mem_map.mpr ⟨(r.id, r.canonicalUrl), List.mem_flatMap.mpr ⟨rs, ?_, ?_⟩, rfl⟩
    · refine List.mem_filter.mpr ⟨Table.mem_of_lookup hrs, decide_eq_true ⟨?_, hunseen⟩⟩
      exact congrArg Prod.snd hkey
    · refine List.mem_map.mpr ⟨r, List.mem_filter.mpr ⟨Table.mem_of_lookup hr, ?_⟩, rfl⟩
      exact decide_eq_true ⟨(congrArg Prod.fst hkey).symm, hactive⟩

theorem seenElsewhere_iff {c : Catalog} (h : c.WellFormed) {u : PyStr} {r : Resource}
    (hr : c.resource u = some r) (cutoff : ℤ) :
    c.seenElsewhere r.id source cutoff ↔ c.listings.SeenElsewhere source cutoff u := by
  have hseen : ∀ s, c.listings.seen u s = (c.sourceRow r.id s).map SourceRow.seen := by
    intro s
    show (c.resource u).bind _ = _
    rw [hr, Option.bind_some]
  unfold seenElsewhere Listings.SeenElsewhere
  simp only [hseen, List.any_eq_true, Bool.and_eq_true, decide_eq_true_eq]
  constructor
  · rintro ⟨rs, hrs, ⟨⟨hid, hne⟩, hgen⟩, hcutoff⟩
    refine ⟨rs.source, rs.seen, hne, ?_, hgen, hcutoff⟩
    rw [← hid]
    exact congrArg (Option.map SourceRow.seen) (h.keys.lookup_of_mem hrs)
  · rintro ⟨s, seen, hne, hrow, hgen, hcutoff⟩
    obtain ⟨rs, hrs, rfl⟩ := Option.map_eq_some_iff.mp hrow
    have hkey := Table.lookup_key hrs
    refine ⟨rs, Table.mem_of_lookup hrs, ⟨⟨congrArg Prod.fst hkey, ?_⟩, hgen⟩, hcutoff⟩
    rw [show rs.source = s from congrArg Prod.snd hkey]
    exact hne

end Catalog

theorem retireOne_core (source : PyStr) (generation ts : ℤ) (row : ℕ × PyStr)
    (s : Session Catalog) :
    ((retireOne conv source generation ts row).run s).2.work.core =
      Catalog.retireRow source (ts - conv.coldSweepS) ts s.work.core row.1 := by
  rw [← Catalog.retireRow_core]
  unfold retireOne Catalog.retireRow
  rw [Script.run_bind, Session.run_select]
  dsimp only
  split
  · rfl
  · rw [Script.run_bind, Session.run_update]
    dsimp only
    split <;> rfl

theorem retireAll_core (source : PyStr) (generation ts : ℤ) (rows : List (ℕ × PyStr))
    (s : Session Catalog) :
    ((retireAll conv source generation ts rows).run s).2.work.core =
      (rows.map Prod.fst).foldl (Catalog.retireRow source (ts - conv.coldSweepS) ts) s.work.core := by
  induction rows generalizing s with
  | nil => rfl
  | cons row rest ih =>
      unfold retireAll
      rw [Script.run_bind, Script.run_bind, Script.run_pure, ih, retireOne_core]
      rfl

/-- A completed sweep retires the active listings of its source that it did not see
and no other source saw since the cutoff, and nothing else. -/
theorem retireUnseen_listings {s : Session Catalog} (h : s.work.WellFormed) (source : PyStr)
    (generation ts : ℤ) :
    ((retireUnseen conv source generation ts).run s).2.work.WellFormed ∧
      ((retireUnseen conv source generation ts).run s).2.work.listings =
        s.work.listings.retire source generation (ts - conv.coldSweepS) := by
  unfold retireUnseen
  rw [Script.run_bind, Session.run_select]
  dsimp only
  have hcore := retireAll_core conv source generation ts (s.work.unseen source generation) s
  generalize ((retireAll conv source generation ts _).run s).2 = s' at hcore ⊢
  rw [Catalog.foldl_retireRow] at hcore
  have hc := (Catalog.wellFormed_core s.work).mpr h
  have hwork : s'.work.core.WellFormed := by
    rw [hcore]
    refine ⟨hc.urls.map fun r => ?_, hc.ids.map fun r => ?_, ?_, hc.keys, hc.listed⟩
    · exact Catalog.retiredRow_canonicalUrl ..
    · exact Catalog.retiredRow_id ..
    · intro r hr
      obtain ⟨r', hr', rfl⟩ := List.mem_map.mp hr
      rw [Catalog.retiredRow_id]
      exact hc.next r' hr'
  refine ⟨(Catalog.wellFormed_core _).mp hwork, ?_⟩
  rw [← Catalog.listings_core, hcore]
  have hresource : ∀ u, (Table.lookup Resource.canonicalUrl (s.work.core.resources.map
      (s.work.core.retiredRow source (ts - conv.coldSweepS) ts
        ((s.work.unseen source generation).map Prod.fst))) u) =
      (s.work.resource u).map (s.work.core.retiredRow source (ts - conv.coldSweepS) ts
        ((s.work.unseen source generation).map Prod.fst)) :=
    fun u => Table.lookup_map (fun r => Catalog.retiredRow_canonicalUrl ..) _ u
  refine Listings.ext ?_ ?_ rfl
  · funext u
    refine (congrArg (Option.map Resource.status) (hresource u)).trans ?_
    have hstatus : s.work.listings.status u = (s.work.resource u).map Resource.status := rfl
    cases hr : s.work.resource u with
    | none =>
        rw [hr] at hstatus
        rw [Listings.retire_status_neg, hstatus]
        · rfl
        · rintro ⟨hactive, -⟩
          rw [hstatus] at hactive
          cases hactive
    | some r =>
        rw [hr, Option.map_some] at hstatus
        rw [Option.map_some, Option.map_some]
        have helse := Catalog.seenElsewhere_iff source h hr (ts - conv.coldSweepS)
        unfold Catalog.retiredRow
        rw [show s.work.core.seenElsewhere r.id source (ts - conv.coldSweepS) =
          s.work.seenElsewhere r.id source (ts - conv.coldSweepS) from rfl]
        by_cases hactive : r.status = .active
        · have hmem := Catalog.mem_unseen source h hr hactive generation
          by_cases hretire : s.work.listings.Unseen source generation u ∧
              ¬s.work.listings.SeenElsewhere source (ts - conv.coldSweepS) u
          · rw [if_pos ⟨hmem.mpr hretire.1, fun hseen => hretire.2 (helse.mp hseen)⟩,
              Listings.retire_status_pos _ (hstatus.trans (congrArg some hactive)) hretire.1
                hretire.2]
            exact congrArg some (congrArg Resource.status (if_pos hactive))
          · rw [if_neg fun hand => hretire ⟨hmem.mp hand.1, fun hseen => hand.2 (helse.mpr hseen)⟩,
              Listings.retire_status_neg _ fun hand => hretire hand.2, hstatus]
        · rw [Listings.retire_status_neg _ fun hand =>
            hactive (Option.some.inj (hstatus.symm.trans hand.1)), hstatus]
          split
          · exact congrArg some (congrArg Resource.status (if_neg hactive))
          · rfl
  · funext u source'
    show (Table.lookup Resource.canonicalUrl _ u).bind _ = (s.work.resource u).bind _
    rw [hresource]
    cases s.work.resource u with
    | none => rfl
    | some r =>
        rw [Option.map_some, Option.bind_some, Option.bind_some, Catalog.retiredRow_id]
        rfl

end Retiring

end Signal402.Shadow
