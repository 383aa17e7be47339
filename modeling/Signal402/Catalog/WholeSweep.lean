import Signal402.Catalog.Ingest
import Signal402.Catalog.Sweep

/-!
# What a completed sweep saw

Runs of `ingest_one_page` for any sources, with the upserts of searches between them.
A source whose catalog stays as it is during a sweep serves it by offset and limit,
with a limit of its own.

* `fetchPage_served` — what a page that was read says of its place in the catalog.
* `ingestOnePage_cases` — what one call does to the database.
* `Progress` — the listings before the cursor were seen by the sweep.
* `sweep_saw_all` — a sweep whose pages were read in full saw every listing.
* `sweep_oversize` — a page over the limit ends a sweep that has not.
-/

namespace Signal402.Shadow

open Session (execute update select commit)

variable {Item : Type} (out : Outside Item)

/-! ## The state of a source -/

section SourceStates

variable (conv : Conversions Item)

/-- Code that leaves the states of the sources as they are. -/
abbrev KeepsStates {α : Type} (x : Code α) : Prop := Script.Leaves (fun s => s.work.sourceStates) x

theorem Aside.keepsStates {α : Type} {x : Code α} (h : Aside x) : KeepsStates x := by
  induction x with
  | done a => exact trivial
  | point g next ih =>
      have hcore : ∀ s, (g s).work.core = s.work.core := h.1
      exact ⟨fun s => congrArg (fun c => c.sourceStates) (hcore s), fun s => ih s (h.2 s)⟩

theorem writeResource_keepsStates (row : Option Resource) (fields : Fields) (digest source : PyStr)
    (ts : ℤ) : KeepsStates (writeResource row fields digest source ts) := by
  unfold writeResource
  cases row with
  | none =>
      exact Script.Leaves.bind (Script.Leaves.stepLook fun _ => rfl) fun rid =>
        Script.Leaves.bind (Aside.keepsStates (insertEvent_leaves eventless_core _ _ _ _ _ _)) fun _ => .pure _
  | some row =>
      exact Script.Leaves.bind (Aside.keepsStates (eventWhen_leaves eventless_core _ _ _ _ _ _ _)) fun events =>
        Script.Leaves.bind (Script.Leaves.execute fun _ => rfl) fun _ => .pure _

theorem upsertOne_keepsStates (item : Item) (source : PyStr) (generation : Option ℤ) (ts : ℤ) :
    KeepsStates (upsertOne conv item source generation ts) := by
  unfold upsertOne
  refine Script.Leaves.bind (.convert _) fun fields => ?_
  split
  · exact .pure _
  · refine Script.Leaves.bind (.convert _) fun claims => ?_
    refine Script.Leaves.bind (.convert _) fun digest => ?_
    refine Script.Leaves.bind (.look _) fun row => ?_
    refine Script.Leaves.bind (writeResource_keepsStates row fields digest source ts) fun out => ?_
    refine Script.Leaves.bind (replaceClaims_aside conv _ _ _ _ _).keepsStates fun changed => ?_
    refine Script.Leaves.bind (Script.Leaves.execute fun c => ?_) fun _ => ?_
    · unfold Catalog.upsertSource
      split <;> rfl
    · exact Script.Leaves.bind (syncFts_aside conv _ _).keepsStates fun _ => .pure _

theorem upsertAll_keepsStates (source : PyStr) (generation : Option ℤ) (ts : ℤ) (items : List Item) :
    KeepsStates (upsertAll conv source generation ts items) := by
  induction items with
  | nil => exact .pure _
  | cons item rest ih =>
      exact Script.Leaves.bind (upsertOne_keepsStates conv item source generation ts) fun out =>
        Script.Leaves.bind ih fun more => .pure _

theorem retireOne_keepsStates (source : PyStr) (generation ts : ℤ) (row : ℕ × PyStr) :
    KeepsStates (retireOne conv source generation ts row) := by
  unfold retireOne
  refine Script.Leaves.bind (.look _) fun seen => ?_
  split
  · exact .pure _
  · refine Script.Leaves.bind (Script.Leaves.stepLook fun _ => rfl) fun rowcount => ?_
    split
    · exact .pure _
    · exact Script.Leaves.bind (Aside.keepsStates (insertEvent_leaves eventless_core _ _ _ _ _ _)) fun _ => .pure _

theorem retireUnseen_keepsStates (source : PyStr) (generation ts : ℤ) :
    KeepsStates (retireUnseen conv source generation ts) := by
  unfold retireUnseen
  refine Script.Leaves.bind (.look _) fun rows => ?_
  induction rows with
  | nil => exact .pure _
  | cons row rest ih =>
      exact Script.Leaves.bind (retireOne_keepsStates conv source generation ts row) fun n =>
        Script.Leaves.bind ih fun m => .pure _

theorem Catalog.sourceState_congr {c c' : Catalog} (h : c'.sourceStates = c.sourceStates)
    (s : PyStr) : c'.sourceState s = c.sourceState s := by
  unfold Catalog.sourceState
  rw [h]

/-- A row that is put is the update of the one before, or of the default. -/
theorem Catalog.sourceState_put (c : Catalog) {source : PyStr} {new : SourceState}
    {f : SourceState → SourceState} (hf : ∀ r, (f r).source = r.source)
    (hnew : new = f ⟨source, 0, 0, none, none, none⟩) (s : PyStr) :
    (c.putState source new f).sourceState s =
      if s = source then f (c.sourceState source) else c.sourceState s := by
  unfold Catalog.putState Catalog.sourceState
  have hsource : new.source = source := hnew ▸ hf _
  split
  next hnone =>
    rw [Table.lookup_append]
    by_cases hs : s = source
    · subst hs
      rw [if_pos rfl, hnone, Option.getD_none, ← hnew]
      simp [Table.lookup, hsource]
    · have hne : ¬source = s := fun h => hs h.symm
      rw [if_neg hs]
      simp [Table.lookup, hsource, hne]
  next row hrow =>
    dsimp only
    rw [Table.lookup_update hf]
    by_cases hs : s = source
    · subst hs
      rw [if_pos rfl, if_pos rfl, hrow]
      rfl
    · rw [if_neg hs, if_neg hs]

/-- A row that is there is updated; without one the default stays. -/
theorem Catalog.sourceState_set (c : Catalog) {source : PyStr} {f : SourceState → SourceState}
    (hf : ∀ r, (f r).source = r.source) (hrow : 1 ≤ (c.sourceState source).generation) (s : PyStr) :
    (c.setState source f).sourceState s =
      if s = source then f (c.sourceState source) else c.sourceState s := by
  unfold Catalog.setState Catalog.sourceState
  dsimp only
  rw [Table.lookup_update hf]
  by_cases hs : s = source
  · subst hs
    rw [if_pos rfl, if_pos rfl]
    unfold Catalog.sourceState at hrow
    cases hlookup : Table.lookup SourceState.source c.sourceStates s with
    | none =>
        rw [hlookup] at hrow
        exact absurd hrow (by simp)
    | some r => rfl
  · rw [if_neg hs, if_neg hs]

end SourceStates

/-! ## The calls of a step -/

section Calls

variable (conv : Conversions Item)

theorem sources_strip {s : PyStr} (hs : s ∈ sources) : s.strip = s := by
  simp only [sources, List.mem_cons, List.not_mem_nil, or_false] at hs
  rcases hs with rfl | rfl | rfl <;> decide +kernel

/-- The tables of the listings, the claims and the sources are the same. -/
structure Catalog.SameRows (c c' : Catalog) : Prop where
  resources : c'.resources = c.resources
  resourceSources : c'.resourceSources = c.resourceSources
  acceptClaims : c'.acceptClaims = c.acceptClaims

theorem Catalog.SameRows.refl (c : Catalog) : c.SameRows c := ⟨rfl, rfl, rfl⟩

theorem Catalog.putState_sameRows (c : Catalog) (source : PyStr) (new : SourceState)
    (f : SourceState → SourceState) : c.SameRows (c.putState source new f) := by
  unfold Catalog.putState
  split <;> exact ⟨rfl, rfl, rfl⟩

/-- The state of a source that begins a sweep. -/
def SourceState.begin (begun : ℤ) (r : SourceState) : SourceState :=
  { r with generation := r.generation + 1, cursor := 0, sweepStartedAt := some begun }

theorem beginSweep_state {s : PyStr} (hs : s ∈ sources) (begun : ℤ) (d : Session Catalog) :
    d.work.SameRows ((beginSweep s none begun).run d).2.work ∧
      ∀ s', ((beginSweep s none begun).run d).2.work.sourceState s' =
        if s' = s then (d.work.sourceState s).begin begun else d.work.sourceState s' := by
  unfold beginSweep
  rw [sources_strip hs, if_neg (not_not_intro hs), Script.run_bind, Session.run_select]
  refine ⟨d.work.putState_sameRows _ _ _, fun s' => ?_⟩
  exact Catalog.sourceState_put (f := fun r => { r with
    generation := (d.work.sourceState s).generation + 1
    cursor := 0
    sweepStartedAt := some begun }) d.work (fun _ => rfl) rfl s'

/-- The state of a source after a page of `n` listings. -/
def SourceState.advance (page : Page) (n : ℕ) (now : ℤ) (r : SourceState) : SourceState :=
  let r' := { r with
    cursor := page.newCursor n
    upstreamTotal := page.upstreamTotal.or r.upstreamTotal }
  if page.complete n then
    { r' with lastCompleteSweepAt := some now, cursor := 0, sweepStartedAt := none }
  else r'

@[simp] theorem SourceState.advance_generation (page : Page) (n : ℕ) (now : ℤ) (r : SourceState) :
    (r.advance page n now).generation = r.generation := by
  unfold SourceState.advance
  split <;> rfl

/-- Code whose effect on the states of the sources is `f`, for a source that has begun a
sweep before. -/
def StateEffect {α : Type} (s : PyStr) (x : Code α) (f : SourceState → SourceState) : Prop :=
  ∀ d : Session Catalog, 1 ≤ (d.work.sourceState s).generation →
    ∀ s', (x.run d).2.work.sourceState s' =
      if s' = s then f (d.work.sourceState s) else d.work.sourceState s'

theorem KeepsStates.effect {α : Type} {x : Code α} (h : KeepsStates x) (s : PyStr) :
    StateEffect s x id := by
  intro d _ s'
  have hkept := Catalog.sourceState_congr (h.run d) s'
  rw [hkept]
  split
  next hs => rw [hs]; rfl
  next => rfl

theorem StateEffect.bind {α β : Type} {s : PyStr} {x : Code α} {k : α → Code β}
    {f g : SourceState → SourceState} (hx : StateEffect s x f) (hk : ∀ a, StateEffect s (k a) g)
    (hf : ∀ r, (f r).generation = r.generation) : StateEffect s (x >>= k) fun r => g (f r) := by
  intro d hd s'
  rw [Script.run_bind]
  have hown := hx d hd s
  rw [if_pos rfl] at hown
  have hgen : 1 ≤ ((x.run d).2.work.sourceState s).generation := by
    rw [hown, hf]
    exact hd
  rw [hk (x.run d).1 (x.run d).2 hgen s', hown, hx d hd s']
  split <;> rfl

theorem setState_stateEffect (s : PyStr) {f : SourceState → SourceState}
    (hf : ∀ r, (f r).source = r.source) : StateEffect s (execute (Catalog.setState s f)) f :=
  fun d hd s' => d.work.sourceState_set hf hd s'

theorem finishState_stateEffect (s : PyStr) (now : ℤ) : StateEffect s (finishState s now) fun r =>
    { r with lastCompleteSweepAt := some now, cursor := 0, sweepStartedAt := none } :=
  setState_stateEffect s fun _ => rfl

/-- A page moves the cursor of its source, and ends the sweep when it is the last one. -/
theorem ingestPage_state {s : PyStr} (hs : s ∈ sources) (items : List Item) (page : Page) (now : ℤ)
    (d : Session Catalog) (hgen : 1 ≤ (d.work.sourceState s).generation) :
    (∃ r, ((ingestPage conv s items page none now).run d).1 = .ok r ∧
      r.complete = page.complete items.length) ∧
      ∀ s', ((ingestPage conv s items page none now).run d).2.work.sourceState s' =
        if s' = s then (d.work.sourceState s).advance page items.length now
        else d.work.sourceState s' := by
  have hpageGen : (pageGeneration s now).run d = ((d.work.sourceState s).generation, d) := by
    unfold pageGeneration
    rw [Script.run_bind, Session.run_select]
    dsimp only
    rw [if_neg (by omega)]
    rfl
  unfold ingestPage
  rw [sources_strip hs, if_neg (not_not_intro hs), Script.run_bind, show timeOf none now = now from rfl,
    hpageGen]
  refine ⟨?_, ?_⟩
  · simp only [Script.run_bind, Script.run_pure]
    exact ⟨_, rfl, rfl⟩
  have hfinish : StateEffect s
      (finishPage conv s (d.work.sourceState s).generation now (page.complete items.length))
      fun r => if page.complete items.length then
        { r with lastCompleteSweepAt := some now, cursor := 0, sweepStartedAt := none } else r := by
    unfold finishPage
    cases page.complete items.length with
    | false => exact KeepsStates.effect (.pure _) s
    | true =>
        exact (KeepsStates.effect (retireUnseen_keepsStates conv s _ now) s).bind (fun retired =>
          (finishState_stateEffect s now).bind
            (fun _ => KeepsStates.effect (.pure retired) s) fun _ => rfl) fun _ => rfl
  have hfinishGen : ∀ r : SourceState, (if page.complete items.length then
      { r with lastCompleteSweepAt := some now, cursor := 0, sweepStartedAt := none }
      else r).generation = r.generation := fun r => by split <;> rfl
  refine ((KeepsStates.effect (upsertAll_keepsStates conv s _ now items) s).bind (fun out =>
    (setState_stateEffect s (f := fun r => { r with
      cursor := page.newCursor items.length
      upstreamTotal := page.upstreamTotal.or r.upstreamTotal }) fun _ => rfl).bind (fun _ =>
    hfinish.bind (fun retired => (KeepsStates.effect capEvents_aside.keepsStates s).bind (fun _ =>
      (KeepsStates.effect (x := commit) ?_ s).bind (fun _ => KeepsStates.effect (.pure _) s)
        fun _ => rfl) fun _ => rfl) hfinishGen) fun _ => rfl) fun _ => rfl) d hgen
  exact Script.Leaves.commit

end Calls

/-! ## A catalog that is served -/

/-- A page of the catalog `up`: the listings from `offset` on, at most `limit` of them, with
its place in the catalog. -/
structure IsPage (payload : Json) (up : List Dict) (offset limit : ℕ) : Prop where
  items : itemsFromPayload payload = (up.drop offset).take limit
  pagination : ∃ d pag, payload = .obj d ∧ Dict.get d "pagination" = .obj pag ∧
    Dict.get pag "limit" = .int limit ∧ Dict.get pag "offset" = .int offset ∧
      Dict.get pag "total" = .int up.length

/-- What comes back for the page of a source at an offset has the property `P`. -/
def Answers (source : PyStr) (net : PyStr → Exchange) (P : ℕ → PyStr × Bytes → Prop) : Prop :=
  ∀ offset url reply, pageUrl out (catalogBase out source) pageSize (offset : ℕ) = .ok (some url) →
    openCatalog out net 2 url = .ok reply → P offset reply

/-- The answers are pages of `up`, under a limit of the server. -/
def Serves (up : List Dict) (source : PyStr) (net : PyStr → Exchange) : Prop :=
  Answers out source net fun offset reply => ∃ limit payload, 1 ≤ limit ∧ limit ≤ pageSize ∧
    out.loads reply.2 = .ok payload ∧ IsPage payload up offset limit

/-- The answer came from a URL off the allowlist. -/
def Blocked (reply : PyStr × Bytes) : Prop :=
  reply.1 ≠ [] ∧ catalogUrlAllowed out reply.1 = .ok false

/-- The answer is longer than the limit. -/
def Oversize (reply : PyStr × Bytes) : Prop := pageReadLimit < reply.2.length

/-- No answer is blocked or oversize. -/
def ReadsInFull (source : PyStr) (net : PyStr → Exchange) : Prop :=
  Answers out source net fun _ reply => ¬Blocked out reply ∧ ¬Oversize reply

variable {out}

theorem IsPage.parsePagination {payload : Json} {up : List Dict} {offset limit : ℕ}
    (h : IsPage payload up offset limit) (py : Interp) (requested : ℤ) :
    parsePagination py payload requested = .ok ⟨some limit, some offset, some up.length, true,
      lastPage (some limit) (some offset) (some up.length)
        ((up.drop offset).take limit).length⟩ := by
  obtain ⟨d, pag, hobj, hpag, hlimit, hoffset, htotal⟩ := h.pagination
  have hint : ∀ n : ℕ, nonnegInt py (.int n) = .ok (some (n : ℤ)) := by
    intro n
    exact congrArg Except.ok (if_pos (Int.natCast_nonneg n))
  unfold Shadow.parsePagination
  rw [h.items, hobj]
  simp only [Json.asObj?, Option.bind_some, hpag, hlimit, hoffset, htotal, hint]
  rfl

/-- A page within the page size: its step is the limit of the server, and it is the last one
when the catalog ends before the next. -/
theorem readPage_eq_ok {rail : PyStr} {payload : Json} {up : List Dict} {offset limit : ℕ}
    (h : IsPage payload up offset limit) (hpos : 1 ≤ limit) (hle : limit ≤ pageSize)
    {items : List Item} {page : Page} (hread : readPage out rail offset payload = .ok (items, page)) :
    ((up.drop offset).take limit).mapM (fun raw => out.slimItem raw rail) = .ok items ∧
      items.length = min limit (up.length - offset) ∧
      page = ⟨offset, decide (up.length ≤ offset + limit), some up.length, some limit⟩ := by
  unfold readPage at hread
  rw [h.parsePagination] at hread
  obtain ⟨pag, hpag, hread⟩ := bind_eq_ok.mp hread
  obtain ⟨slimmed, hslim, hread⟩ := map_eq_ok.mp hread
  cases hpag
  rw [h.items, List.take_of_length_le ((List.length_take_le _ _).trans hle)] at hslim
  have hlength : slimmed.length = min limit (up.length - offset) := by
    rw [← (forall₂_of_mapM_eq_ok hslim).length_eq, List.length_take, List.length_drop]
  obtain ⟨hitems, hpage⟩ := Prod.mk.inj hread
  subst hitems
  refine ⟨hslim, hlength, hpage.symm.trans ?_⟩
  have hstep : ∀ last n, stepOffset ⟨some limit, some offset, some up.length, true, last⟩ n = limit :=
    fun last n => if_pos (by omega)
  simp only [hstep, lastPage, hlength, List.length_take, List.length_drop, Option.getD_some]
  rw [if_neg (by omega : ¬(limit : ℤ) = 0)]
  refine congrArg (fun last => (⟨offset, last, some up.length, some limit⟩ : Page)) ?_
  -- the three tests for the last page agree
  by_cases hend : up.length ≤ offset + limit
  · have hreached : (up.length : ℤ) ≤ offset + limit := by omega
    simp [hend, hreached]
  · have hmin : min limit (up.length - offset) = limit := by omega
    have hzero : ¬limit = 0 := by omega
    have hlast : ¬(up.length : ℤ) ≤ offset + limit := by omega
    simp [hend, hmin, hzero, hlast]

/-- The URL of a page is built from that of the catalog, and allowed. -/
theorem pageUrl_eq {base url : PyStr} {limit offset : ℤ}
    (h : pageUrl out base limit offset = .ok (some url)) :
    ∃ parsed, out.url.urlparse base.strip = .ok parsed ∧
      url = out.url.urlunparse { parsed with
        query := out.url.urlencode (((out.url.parseQsl parsed.query).filter fun kv =>
          !dropQuery.contains (out.py.uni.lower kv.1)) ++
            ([("limit", intText limit), ("offset", intText offset)] : List (PyStr × PyStr))) } ∧
      catalogUrlAllowed out url = .ok true := by
  unfold pageUrl at h
  obtain ⟨allowed, -, h⟩ := bind_eq_ok.mp h
  by_cases hallowed : (!allowed) = true
  · rw [if_pos hallowed] at h
    cases h
  by_cases hbounds : limit < 1 ∨ offset < 0
  · rw [if_neg hallowed, if_pos hbounds] at h
    cases h
  rw [if_neg hallowed, if_neg hbounds] at h
  obtain ⟨parsed, hparsed, h⟩ := bind_eq_ok.mp h
  obtain ⟨built, hbuilt, h⟩ := map_eq_ok.mp h
  cases built with
  | true => cases h; exact ⟨parsed, hparsed, rfl, hbuilt⟩
  | false => cases h

theorem pageUrl_allowed {base url : PyStr} {limit offset : ℤ}
    (h : pageUrl out base limit offset = .ok (some url)) : catalogUrlAllowed out url = .ok true :=
  (pageUrl_eq h).elim fun _ h => h.2.2

/-- The page that is fetched from a catalog that is served and read in full. -/
theorem fetchPage_served {source rail : PyStr} {net : PyStr → Exchange} {up : List Dict}
    {offset : ℕ} (hserves : Serves out up source net) (hfull : ReadsInFull out source net)
    {items : List Item} {page : Page}
    (hfetch : fetchPage out rail (catalogBase out source) net offset = .ok (.page items page)) :
    ∃ limit : ℕ, 1 ≤ limit ∧
      ((up.drop offset).take limit).mapM (fun raw => out.slimItem raw rail) = .ok items ∧
      items.length = min limit (up.length - offset) ∧
      page = ⟨offset, decide (up.length ≤ offset + limit), some up.length, some limit⟩ := by
  unfold fetchPage at hfetch
  obtain ⟨url, hurl, hfetch⟩ := bind_eq_ok.mp hfetch
  cases url with
  | none => cases hfetch
  | some url =>
      have hallowed := pageUrl_allowed hurl
      dsimp only at hfetch
      have hpayload : ∀ payload, fetchCatalogPayload out net url pageReadLimit = .ok payload →
          ∃ limit, 1 ≤ limit ∧ limit ≤ pageSize ∧ IsPage payload up offset limit := by
        intro payload hpayload
        unfold fetchCatalogPayload at hpayload
        rw [hallowed] at hpayload
        obtain ⟨allowed, hok, hpayload⟩ := bind_eq_ok.mp hpayload
        cases hok
        rw [if_neg (by simp), if_neg (by unfold pageReadLimit; omega)] at hpayload
        obtain ⟨reply, hreply, hpayload⟩ := bind_eq_ok.mp hpayload
        obtain ⟨limit, payload', hpos, hle, hloads, hpage⟩ := hserves offset url reply hurl hreply
        obtain ⟨hblocked, hoversize⟩ := hfull offset url reply hurl hreply
        obtain ⟨final, hfinal, hpayload⟩ := bind_eq_ok.mp hpayload
        have hfinal : final = true := by
          cases final with
          | true => rfl
          | false =>
              refine absurd ⟨fun hnil => ?_, ?_⟩ hblocked
              · rw [if_pos hnil] at hfinal
                cases hfinal
              · by_cases hnil : reply.1 = []
                · rw [if_pos hnil] at hfinal
                  cases hfinal
                · rw [if_neg hnil] at hfinal
                  exact hfinal
        have hlength : reply.2.length ≤ pageReadLimit := Nat.le_of_not_lt hoversize
        rw [hfinal, List.take_of_length_le (by omega), if_neg (by simp),
          if_neg (by omega), hloads] at hpayload
        cases hpayload
        exact ⟨limit, hpos, hle, hpage⟩
      cases hread : fetchCatalogPayload out net url pageReadLimit with
      | error e =>
          rw [hread] at hfetch
          cases hfetch
      | ok payload =>
          rw [hread] at hfetch
          obtain ⟨⟨items', page'⟩, hpage, hfetch⟩ := map_eq_ok.mp hfetch
          cases hfetch
          obtain ⟨limit, hpos, hle, his⟩ := hpayload payload hread
          exact ⟨limit, hpos, readPage_eq_ok his hpos hle hpage⟩

/-! ## Runs -/

variable (out)

/-- What writes the catalog: a step of a sweep, or the upserts of a search. -/
inductive Event (Item : Type)
  | page (source : PyStr) (net : PyStr → Exchange) (begun now : ℤ)
  | search (items : List Item) (source : PyStr) (ts : Option ℤ) (now : ℤ)

/-- The database after an event. -/
def Event.after (d : Session Catalog) : Event Item → Session Catalog
  | page source net begun now => ((ingestOnePage out source net begun now).run d).2
  | search items source ts now => ((upsertItems out.conv items source none ts now).run d).2

/-- The database after a list of events. -/
def runEvents (events : List (Event Item)) (d : Session Catalog) : Session Catalog :=
  events.foldl (fun d e => e.after out d) d

/-- The event is a step of a sweep of `s`. -/
def Event.PageOf (s : PyStr) : Event Item → Prop
  | page source _ _ _ => source.strip = s
  | search .. => False

/-- What every event keeps of the states of the sources: a source at rest is at the start,
and a sweep that goes on has a generation. -/
structure Steady (c : Catalog) : Prop where
  keys : c.WellFormed
  rest : ∀ s, (c.sourceState s).sweepStartedAt = none → (c.sourceState s).cursor = 0
  going : ∀ s, (c.sourceState s).sweepStartedAt ≠ none → 1 ≤ (c.sourceState s).generation
  generation : ∀ s, 0 ≤ (c.sourceState s).generation
  cursor : ∀ s, 0 ≤ (c.sourceState s).cursor

theorem steady_start : Steady start.work where
  keys := Catalog.wellFormed_empty
  rest _ _ := rfl
  going _ h := absurd rfl h
  generation _ := le_rfl
  cursor _ := le_rfl

/-- One source gets a state that is as it should be. -/
theorem Steady.change {c c' : Catalog} (h : Steady c) (hkeys : c'.WellFormed) {s : PyStr}
    {new : SourceState}
    (hstates : ∀ s', c'.sourceState s' = if s' = s then new else c.sourceState s')
    (hrest : new.sweepStartedAt = none → new.cursor = 0) (hgen : 1 ≤ new.generation)
    (hcursor : 0 ≤ new.cursor) : Steady c' := by
  refine ⟨hkeys, fun s' => ?_, fun s' => ?_, fun s' => ?_, fun s' => ?_⟩ <;> rw [hstates s'] <;>
    by_cases hs : s' = s
  · rw [if_pos hs]; exact hrest
  · rw [if_neg hs]; exact h.rest s'
  · rw [if_pos hs]; exact fun _ => hgen
  · rw [if_neg hs]; exact h.going s'
  · rw [if_pos hs]; omega
  · rw [if_neg hs]; exact h.generation s'
  · rw [if_pos hs]; exact hcursor
  · rw [if_neg hs]; exact h.cursor s'

/-- The database when the page of `s` is fetched: a sweep is going on. -/
def opened (s : PyStr) (begun : ℤ) (d : Session Catalog) : Session Catalog :=
  if (d.work.sourceState s).sweepStartedAt = none then
    Call.after out.conv d (.beginSweep s none begun)
  else d

section Opened

variable {s : PyStr} (hs : s ∈ sources) (begun : ℤ) {d : Session Catalog} (h : Steady d.work)

theorem run_sweepState : (sweepState s begun).run d =
    ((opened out s begun d).work.sourceState s, opened out s begun d) := by
  unfold sweepState opened
  rw [Script.run_bind, Session.run_select]
  dsimp only
  by_cases hrest : (d.work.sourceState s).sweepStartedAt = none
  · rw [hrest, if_pos rfl, Option.isNone_none, if_pos rfl, Script.run_bind]
    rfl
  · rw [if_neg hrest, if_neg (by simpa using hrest)]
    rfl

include hs h in
theorem opened_spec : Steady (opened out s begun d).work ∧
    d.work.SameRows (opened out s begun d).work ∧
    ((opened out s begun d).work.sourceState s).sweepStartedAt ≠ none ∧
    ((opened out s begun d).work.sourceState s).cursor = (d.work.sourceState s).cursor ∧
    ∀ s', s' ≠ s → (opened out s begun d).work.sourceState s' = d.work.sourceState s' := by
  unfold opened
  by_cases hrest : (d.work.sourceState s).sweepStartedAt = none
  · rw [if_pos hrest]
    obtain ⟨hsame, hstates⟩ := beginSweep_state hs begun d
    have hkeys := (Call.after_listings out.conv h.keys (.beginSweep s none begun)).1
    have hown := hstates s
    rw [if_pos rfl] at hown
    have hgen := h.generation s
    refine ⟨h.change hkeys hstates (fun hnone => absurd hnone (by unfold SourceState.begin; simp)) ?_
      le_rfl, hsame, ?_, ?_, ?_⟩
    · show 1 ≤ (d.work.sourceState s).generation + 1
      omega
    · exact fun hnone => absurd ((congrArg SourceState.sweepStartedAt hown).symm.trans hnone) (by
        unfold SourceState.begin
        simp)
    · exact (congrArg SourceState.cursor hown).trans (h.rest s hrest).symm
    · exact fun s' hne => (hstates s').trans (if_neg hne)
  · rw [if_neg hrest]
    exact ⟨h, .refl _, hrest, rfl, fun _ _ => rfl⟩

end Opened

/-- The result says that the sweep is complete. -/
def Reports (r : Except PyError PageResult) : Prop := ∃ p, r = .ok p ∧ p.complete = true

/-- A call that gets to its fetch: the page at the cursor is stored on top of a sweep. -/
theorem run_ingestOnePage {source : PyStr} {d : Session Catalog} (net : PyStr → Exchange)
    (begun now : ℤ) (hfixture : ¬out.fixtureMode = true) (hs : source.strip ∈ sources)
    (hallowed : (if catalogBase out source.strip = [] then .ok false
      else catalogUrlAllowed out (catalogBase out source.strip)) = .ok true)
    (h : Steady d.work) :
    (ingestOnePage out source net begun now).run d =
      (storePage out source.strip now (fetchPage out (railForSource out.py source.strip)
        (catalogBase out source.strip) net (d.work.sourceState source.strip).cursor)).run
          (opened out source.strip begun d) := by
  obtain ⟨-, -, -, hcursor, -⟩ := opened_spec out hs begun h
  unfold ingestOnePage
  rw [if_neg hfixture, if_neg (not_not_intro hs), hallowed]
  dsimp only
  rw [Script.run_bind, run_sweepState out, hcursor]
  dsimp only
  rw [if_neg (Int.not_lt.mpr (h.cursor source.strip))]

/-- One call: nothing, the begin of a sweep, or a page on top of it. -/
theorem ingestOnePage_cases (source : PyStr) (net : PyStr → Exchange) (begun now : ℤ)
    {d : Session Catalog} (h : Steady d.work) :
    (((ingestOnePage out source net begun now).run d).2 = d ∧
      ¬Reports ((ingestOnePage out source net begun now).run d).1) ∨
    source.strip ∈ sources ∧
      ((((ingestOnePage out source net begun now).run d).2 = opened out source.strip begun d ∧
        ¬Reports ((ingestOnePage out source net begun now).run d).1) ∨
      ∃ items page, fetchPage out (railForSource out.py source.strip)
          (catalogBase out source.strip) net (d.work.sourceState source.strip).cursor =
            .ok (.page items page) ∧
        ((ingestOnePage out source net begun now).run d).2 =
          Call.after out.conv (opened out source.strip begun d)
            (.ingestPage source.strip items page none now) ∧
        (Reports ((ingestOnePage out source net begun now).run d).1 →
          page.complete items.length = true)) := by
  by_cases hfixture : out.fixtureMode = true
  · unfold ingestOnePage
    rw [if_pos hfixture]
    exact Or.inl ⟨rfl, fun ⟨p, hp, hc⟩ => by cases hp; cases hc⟩
  by_cases hs : source.strip ∉ sources
  · unfold ingestOnePage
    rw [if_neg hfixture, if_pos hs]
    exact Or.inl ⟨rfl, fun ⟨p, hp, hc⟩ => by cases hp; cases hc⟩
  replace hs := not_not.mp hs
  cases hallowed : (if catalogBase out source.strip = [] then .ok false
      else catalogUrlAllowed out (catalogBase out source.strip)) with
  | error e =>
      unfold ingestOnePage
      rw [if_neg hfixture, if_neg (not_not_intro hs), hallowed]
      exact Or.inl ⟨rfl, fun ⟨p, hp, hc⟩ => by cases hp⟩
  | ok allowed =>
  cases allowed with
  | false =>
      unfold ingestOnePage
      rw [if_neg hfixture, if_neg (not_not_intro hs), hallowed]
      exact Or.inl ⟨rfl, fun ⟨p, hp, hc⟩ => by cases hp; cases hc⟩
  | true =>
  refine Or.inr ⟨hs, ?_⟩
  obtain ⟨hsteady, -, hgoing, -⟩ := opened_spec out hs begun h
  rw [run_ingestOnePage out net begun now hfixture hs hallowed h]
  cases hfetch : fetchPage out (railForSource out.py source.strip)
      (catalogBase out source.strip) net (d.work.sourceState source.strip).cursor with
  | error e => exact Or.inl ⟨rfl, fun ⟨p, hp, hc⟩ => by cases hp⟩
  | ok fetched =>
      cases fetched with
      | failed error => exact Or.inl ⟨rfl, fun ⟨p, hp, hc⟩ => by cases hp; cases hc⟩
      | page items page =>
          obtain ⟨⟨r, hr, hcomplete⟩, -⟩ := ingestPage_state out.conv hs items page now
            (opened out source.strip begun d) (hsteady.going _ hgoing)
          refine Or.inr ⟨items, page, rfl, ?_, ?_⟩
          · unfold storePage
            rw [Script.run_bind]
            rfl
          · rintro ⟨p, hp, hc⟩
            unfold storePage at hp
            rw [Script.run_bind, hr] at hp
            cases hp
            rw [← hcomplete]
            exact hc

theorem Page.newCursor_nonneg (page : Page) (n : ℕ) : 0 ≤ page.newCursor n := by
  unfold Page.newCursor
  dsimp only
  split <;> omega

/-- A page that is stored on top of a sweep that goes on. -/
theorem Steady.ingest {d : Session Catalog} (h : Steady d.work) {s : PyStr} (hs : s ∈ sources)
    (hgoing : (d.work.sourceState s).sweepStartedAt ≠ none) (items : List Item) (page : Page)
    (now : ℤ) : Steady (Call.after out.conv d (.ingestPage s items page none now)).work := by
  have hgen := h.going s hgoing
  refine h.change (Call.after_listings out.conv h.keys _).1
    (ingestPage_state out.conv hs items page now d hgen).2 ?_ ?_ ?_
  · unfold SourceState.advance
    split
    · exact fun _ => rfl
    · exact fun hnone => absurd hnone hgoing
  · rw [SourceState.advance_generation]
    exact hgen
  · unfold SourceState.advance
    split
    · exact le_rfl
    · exact page.newCursor_nonneg items.length

theorem search_states (items : List Item) (source : PyStr) (ts : Option ℤ) (now : ℤ)
    (d : Session Catalog) (s : PyStr) :
    (Event.after out d (.search items source ts now)).work.sourceState s = d.work.sourceState s := by
  apply Catalog.sourceState_congr
  have hkeeps : KeepsStates (upsertItems out.conv items source none ts now) := by
    unfold upsertItems
    exact Script.Leaves.bind (upsertAll_keepsStates out.conv _ _ _ items) fun r =>
      Script.Leaves.bind capEvents_aside.keepsStates fun _ =>
        Script.Leaves.bind Script.Leaves.commit fun _ => .pure r
  exact hkeeps.run d

theorem Steady.after {d : Session Catalog} (h : Steady d.work) (e : Event Item) :
    Steady (e.after out d).work := by
  cases e with
  | page source net begun now =>
      show Steady ((ingestOnePage out source net begun now).run d).2.work
      rcases ingestOnePage_cases out source net begun now h with
        ⟨hrun, -⟩ | ⟨hs, ⟨hrun, -⟩ | ⟨items, page, -, hrun, -⟩⟩
      · rw [hrun]
        exact h
      · rw [hrun]
        exact (opened_spec out hs begun h).1
      · obtain ⟨hsteady, -, hgoing, -⟩ := opened_spec out hs begun h
        rw [hrun]
        exact hsteady.ingest out hs hgoing items page now
  | search items source ts now =>
      have hstates := search_states out items source ts now d
      have hkeys := (Call.after_listings out.conv h.keys (.upsertItems items source none ts now)).1
      refine ⟨hkeys, fun s => ?_, fun s => ?_, fun s => ?_, fun s => ?_⟩ <;> rw [hstates s]
      · exact h.rest s
      · exact h.going s
      · exact h.generation s
      · exact h.cursor s

theorem Steady.run {d : Session Catalog} (h : Steady d.work) (events : List (Event Item)) :
    Steady (runEvents out events d).work := by
  induction events generalizing d with
  | nil => exact h
  | cons e rest ih => exact ih (h.after out e)

/-! ## What a sweep has seen -/

section Seen

variable (conv : Conversions Item)

/-- The source saw the listing in the sweep that goes on, and it is active unless `R` says
why it is not. -/
def Saw (l : Listings) (R : PyStr → Prop) (s u : PyStr) : Prop :=
  (∃ r, l.seen u s = some r ∧ r.generation = some (l.sweep s)) ∧ (l.status u = some .active ∨ R u)

/-- A listing stays listed. -/
theorem Call.onListings_listed {l : Listings} {u : PyStr} (h : l.status u ≠ none) (c : Call Item) :
    (c.onListings conv l).status u ≠ none := by
  have hupsert : ∀ (l' : Listings) source generation ts urls, l'.status u ≠ none →
      (l'.upsertAll source generation ts urls).status u ≠ none := by
    intro l' source generation ts urls h'
    rw [Listings.upsertAll_status]
    split
    · simp
    · exact h'
  have hretire : ∀ (l' : Listings) source generation cutoff, l'.status u ≠ none →
      (l'.retire source generation cutoff).status u ≠ none := by
    intro l' source generation cutoff h'
    unfold Listings.retire
    dsimp only
    split
    · simp
    · exact h'
  cases c with
  | beginSweep source ts now =>
      unfold onListings
      dsimp only
      split <;> exact h
  | ingestPage source items page ts now =>
      unfold onListings
      dsimp only
      split
      · exact h
      · split
        · exact hretire _ _ _ _ (hupsert _ _ _ _ _ h)
        · exact hupsert _ _ _ _ _ h
  | upsertItem item source generation ts now => exact hupsert _ _ _ _ _ h
  | upsertItems items source generation ts now => exact hupsert _ _ _ _ _ h
  | completeSweep source ts now =>
      unfold onListings
      dsimp only
      split
      · exact h
      · exact hretire _ _ _ _ h

theorem Call.Completes.source_eq {c : Call Item} {s : PyStr} (h : c.Completes s) : c.source = s := by
  cases c with
  | beginSweep => exact h.elim
  | ingestPage => exact h.1
  | upsertItem => exact h.elim
  | upsertItems => exact h.elim
  | completeSweep => exact h.1

/-- A call that begins no sweep of `s` and gives no generation keeps what the sweep saw;
the end of a sweep of another source may retire it. -/
theorem Saw.call {l : Listings} {R R' : PyStr → Prop} {s u : PyStr} (h : Saw l R s u)
    {c : Call Item} (hbegins : ¬c.Begins s) (hgen : c.generation = none) (hR : R u → R' u)
    (helse : c.source ≠ s → l.status u = some .active →
      (c.onListings conv l).status u = some .retired → R' u) :
    Saw (c.onListings conv l) R' s u := by
  obtain ⟨⟨r, hr, hsweep⟩, hstatus⟩ := h
  have hkept : (∃ q ∈ [c], q.Upserts conv s u ∧ ∃ g, q.generation = some g ∧ g ≠ l.sweep s) ∨
      ∃ r, (c.onListings conv l).seen u s = some r ∧ r.generation = some (l.sweep s) :=
    kept_generation conv (fun b hb => List.mem_singleton.mp hb ▸ hbegins) hr hsweep
  have hseen : ∃ r, (c.onListings conv l).seen u s = some r ∧ r.generation = some (l.sweep s) := by
    refine hkept.resolve_left ?_
    rintro ⟨q, hq, -, g, hg, -⟩
    rw [List.mem_singleton.mp hq, hgen] at hg
    cases hg
  refine ⟨by rw [Call.onListings_sweep conv l hbegins]; exact hseen, ?_⟩
  rcases hstatus with hactive | hretired
  · cases hafter : (c.onListings conv l).status u with
    | none => exact absurd hafter (Call.onListings_listed conv (by rw [hactive]; simp) c)
    | some status =>
        cases status with
        | active => exact Or.inl rfl
        | retired =>
            right
            obtain ⟨s', hcompletes, ⟨r', hr', hunseen⟩, -⟩ :=
              c.onListings_retired conv l hactive hafter
            refine helse (fun hs => ?_) hactive hafter
            -- the sweep itself does not retire what it saw
            have hs' := hcompletes.source_eq.symm.trans hs
            subst hs'
            obtain ⟨q, hq, hqgen⟩ := hseen
            rw [hr'] at hq
            cases hq
            exact hunseen hqgen
  · exact Or.inr (hR hretired)

/-- What a page of the sweep upserts was seen by it. -/
theorem Saw.page {l : Listings} {s u : PyStr} {items : List Item} {page : Page} {now : ℤ}
    (hs : s ∈ sources) (hu : u ∈ urlsOf conv items) (R : PyStr → Prop) :
    Saw ((Call.ingestPage s items page none now).onListings conv l) R s u := by
  have hupserts : (Call.ingestPage s items page none now).Upserts conv s u := by
    refine ⟨sources_strip hs, ?_⟩
    show u ∈ if s.strip ∉ sources then [] else urlsOf conv items
    rw [sources_strip hs, if_neg (not_not_intro hs)]
    exact hu
  refine ⟨⟨_, (Call.onListings_seen conv l _ u s).trans (if_pos hupserts), ?_⟩,
    Or.inl (Call.onListings_active conv l hupserts)⟩
  rw [Call.onListings_sweep conv l (Call.not_begins_of_upserts conv hupserts)]
  have hcarried : (Call.ingestPage s items page none now).carried l = some (l.sweep s) := by
    show some (l.sweep s.strip) = some (l.sweep s)
    rw [sources_strip hs]
  rw [hcarried]
  rfl

end Seen

/-! ## The whole catalog -/

/-- Before the last of the events `done`, a step of another source's sweep retired the
listing. -/
def RetiredElsewhere (d : Session Catalog) (s : PyStr) (done : List (Event Item)) (u : PyStr) :
    Prop :=
  ∃ pre q post, done = pre ++ q :: post ∧ ¬q.PageOf s ∧
    (runEvents out pre d).work.status u = some .active ∧
    (q.after out (runEvents out pre d)).work.status u = some .retired

/-- The listings of `up` up to `k` were slimmed, and those with a URL were seen. -/
def SawUpTo (l : Listings) (R : PyStr → Prop) (s : PyStr) (up : List Dict) (k : ℕ) : Prop :=
  ∀ raw ∈ up.take k, ∃ item, out.slimItem raw (railForSource out.py s) = .ok item ∧
    ((out.conv.fieldsFromItem item).canonicalUrl = [] ∨
      Saw l R s (out.conv.fieldsFromItem item).canonicalUrl)

/-- A sweep that goes on has seen the listings before its cursor. -/
def Progress (c : Catalog) (R : PyStr → Prop) (s : PyStr) (up : List Dict) : Prop :=
  (c.sourceState s).sweepStartedAt ≠ none →
    SawUpTo out c.listings R s up (c.sourceState s).cursor.toNat

theorem SawUpTo.mono {l l' : Listings} {R R' : PyStr → Prop} {s : PyStr} {up : List Dict} {k : ℕ}
    (h : SawUpTo out l R s up k) (hsaw : ∀ u, Saw l R s u → Saw l' R' s u) :
    SawUpTo out l' R' s up k := by
  intro raw hraw
  obtain ⟨item, hitem, hurl⟩ := h raw hraw
  exact ⟨item, hitem, hurl.imp id (hsaw _)⟩

theorem Progress.mono {c : Catalog} {R R' : PyStr → Prop} {s : PyStr} {up : List Dict}
    (h : Progress out c R s up) (hR : ∀ u, R u → R' u) : Progress out c R' s up :=
  fun hgoing => (h hgoing).mono out fun u hsaw => ⟨hsaw.1, hsaw.2.imp id (hR u)⟩

/-- The page at the cursor was seen on top of what was seen before. -/
theorem SawUpTo.page {l : Listings} {R : PyStr → Prop} {s : PyStr} {up : List Dict} {k limit : ℕ}
    (h : SawUpTo out l R s up k) {items : List Item}
    (hitems : ((up.drop k).take limit).mapM (fun raw => out.slimItem raw (railForSource out.py s)) =
      .ok items)
    (hsaw : ∀ u ∈ urlsOf out.conv items, Saw l R s u) : SawUpTo out l R s up (k + limit) := by
  intro raw hraw
  rw [List.take_add, List.mem_append] at hraw
  rcases hraw with hraw | hraw
  · exact h raw hraw
  · obtain ⟨i, hi, hget⟩ := List.mem_iff_getElem.mp hraw
    have hpairs := forall₂_of_mapM_eq_ok hitems
    have hi' : i < items.length := hpairs.length_eq ▸ hi
    have hitem := hpairs.get hi hi'
    rw [List.get_eq_getElem, List.get_eq_getElem, hget] at hitem
    refine ⟨items[i], hitem, or_iff_not_imp_left.mpr fun hne => hsaw _ ?_⟩
    exact List.mem_filter.mpr ⟨List.mem_map.mpr ⟨_, List.getElem_mem hi', rfl⟩, by simpa using hne⟩

theorem Catalog.SameRows.status {c c' : Catalog} (h : c.SameRows c') (u : PyStr) :
    c'.status u = c.status u := by
  unfold Catalog.status Catalog.resource
  rw [h.resources]

/-- The begin of a sweep leaves what the others have seen; its own starts over. -/
theorem Progress.opened {d : Session Catalog} {R : PyStr → Prop} {s : PyStr} {up : List Dict}
    (h : Progress out d.work R s up) (hsteady : Steady d.work) {s' : PyStr} (hs' : s' ∈ sources)
    (begun : ℤ) : Progress out (Shadow.opened out s' begun d).work R s up := by
  obtain ⟨-, hrows, -, hcursor, hothers⟩ := opened_spec out hs' begun hsteady
  intro hgoing
  by_cases hs : s = s'
  · subst hs
    by_cases hrest : (d.work.sourceState s).sweepStartedAt = none
    · rw [hcursor, hsteady.rest s hrest]
      exact fun raw hraw => absurd hraw List.not_mem_nil
    · unfold Shadow.opened
      rw [if_neg hrest]
      exact h hrest
  · rw [hothers s hs] at hgoing ⊢
    refine (h hgoing).mono out fun u hsaw => ?_
    revert hrows
    unfold Shadow.opened
    split
    · intro hrows
      rw [(Call.after_listings out.conv hsteady.keys _).2]
      refine hsaw.call out.conv (fun hbegins => hs ?_) rfl id fun _ hactive hretired => ?_
      · exact hbegins.1.symm.trans (sources_strip hs')
      · have hsame : ((Call.beginSweep s' none begun).onListings out.conv d.work.listings).status u =
            d.work.listings.status u := by
          rw [← (Call.after_listings out.conv hsteady.keys _).2]
          exact hrows.status u
        rw [hsame, hactive] at hretired
        cases hretired
    · exact fun _ => hsaw

/-- What a page of another source, or a search, leaves of the progress of `s`. -/
theorem Progress.call {d : Session Catalog} {R R' : PyStr → Prop} {s : PyStr} {up : List Dict}
    (h : Progress out d.work R s up) (hsteady : Steady d.work) {c : Call Item}
    (hbegins : ¬c.Begins s) (hgen : c.generation = none) (hR : ∀ u, R u → R' u)
    (hstate : (c.after out.conv d).work.sourceState s = d.work.sourceState s)
    (helse : ∀ u, c.source ≠ s → d.work.status u = some .active →
      (c.after out.conv d).work.status u = some .retired → R' u) :
    Progress out (c.after out.conv d).work R' s up := by
  intro hgoing
  have hlistings := (Call.after_listings out.conv hsteady.keys c).2
  rw [hstate] at hgoing ⊢
  refine (h hgoing).mono out fun u hsaw => ?_
  rw [hlistings]
  refine hsaw.call out.conv hbegins hgen (hR u) fun hne hactive hretired => ?_
  refine helse u hne hactive ?_
  rw [← hlistings] at hretired
  exact hretired

/-- A page of the catalog of `s` that was read in full. -/
theorem Progress.ingest {d : Session Catalog} {R : PyStr → Prop} {s : PyStr} {up : List Dict}
    (h : Progress out d.work R s up) (hsteady : Steady d.work) (hs : s ∈ sources)
    (hgoing : (d.work.sourceState s).sweepStartedAt ≠ none) {net : PyStr → Exchange}
    (hserves : Serves out up s net) (hfull : ReadsInFull out s net) {items : List Item} {page : Page}
    (hfetch : fetchPage out (railForSource out.py s) (catalogBase out s) net
      (d.work.sourceState s).cursor = .ok (.page items page)) (now : ℤ) :
    Progress out (Call.after out.conv d (.ingestPage s items page none now)).work R s up ∧
      (page.complete items.length = true → SawUpTo out
        (Call.after out.conv d (.ingestPage s items page none now)).work.listings R s up
          up.length) := by
  obtain ⟨k, hk⟩ := Int.eq_ofNat_of_zero_le (hsteady.cursor s)
  rw [hk] at hfetch
  obtain ⟨limit, hpos, hitems, hlength, rfl⟩ := fetchPage_served hserves hfull hfetch
  have hbefore := h hgoing
  rw [hk] at hbefore
  have hlistings := (Call.after_listings out.conv hsteady.keys (.ingestPage s items
    ⟨k, decide (up.length ≤ k + limit), some up.length, some limit⟩ none now)).2
  have hafter : SawUpTo out (Call.after out.conv d (.ingestPage s items
      ⟨k, decide (up.length ≤ k + limit), some up.length, some limit⟩ none now)).work.listings
      R s up (k + limit) := by
    rw [hlistings]
    refine SawUpTo.page out (hbefore.mono out fun u hsaw => ?_) hitems fun u hu =>
      Saw.page out.conv hs hu R
    refine hsaw.call out.conv (fun hbegins => hbegins) rfl id fun hne _ _ => ?_
    exact absurd (sources_strip hs) hne
  have hcursor : Page.newCursor ⟨k, decide (up.length ≤ k + limit), some up.length, some limit⟩
      items.length = ((k + limit : ℕ) : ℤ) := by
    unfold Page.newCursor
    dsimp only
    rw [if_neg (by omega), if_neg (by omega)]
    omega
  have hcomplete : Page.complete ⟨k, decide (up.length ≤ k + limit), some up.length, some limit⟩
      items.length = decide (up.length ≤ k + limit) := by
    unfold Page.complete
    dsimp only
    rw [hcursor, show decide ((up.length : ℤ) ≤ ((k + limit : ℕ) : ℤ)) =
      decide (up.length ≤ k + limit) from decide_eq_decide.mpr (by omega)]
    exact Bool.or_self _
  refine ⟨fun hstill => ?_, fun hend => ?_⟩
  · have hstate := (ingestPage_state out.conv hs items
      ⟨k, decide (up.length ≤ k + limit), some up.length, some limit⟩ now d
      (hsteady.going s hgoing)).2 s
    rw [if_pos rfl] at hstate
    change (Call.after out.conv d (.ingestPage s items
      ⟨k, decide (up.length ≤ k + limit), some up.length, some limit⟩ none now)).work.sourceState s =
        _ at hstate
    rw [hstate] at hstill ⊢
    unfold SourceState.advance at hstill ⊢
    dsimp only at hstill ⊢
    rw [hcomplete] at hstill ⊢
    split at hstill
    · exact absurd rfl hstill
    next hend =>
      rw [if_neg hend, hcursor]
      exact hafter
  · rw [hcomplete] at hend
    intro raw hraw
    refine hafter raw ?_
    rw [List.take_length] at hraw
    rw [List.take_of_length_le (of_decide_eq_true hend)]
    exact hraw

/-- The fetch of the page at the cursor failed, was blocked or was oversize. -/
def Undelivered (source : PyStr) (net : PyStr → Exchange) (c : Catalog) : Prop :=
  ∃ url, pageUrl out (catalogBase out source) pageSize (c.sourceState source).cursor =
      .ok (some url) ∧
    ((∃ e, fetchCatalogPayload out net url pageReadLimit = .error e) ∨
      ∃ reply, openCatalog out net 2 url = .ok reply ∧ (Blocked out reply ∨ Oversize reply))

/-- A call that reports the sweep complete has seen all listings of `up`, and a call
whose fetch did not deliver changes no listing and leaves the cursor. -/
def SweepsWhole (s : PyStr) (up : List Dict) (d : Session Catalog) (events : List (Event Item)) :
    Prop :=
  ∀ done source net begun now later, events = done ++ .page source net begun now :: later →
    source.strip = s →
    (Reports ((ingestOnePage out source net begun now).run (runEvents out done d)).1 →
      SawUpTo out ((ingestOnePage out source net begun now).run (runEvents out done d)).2.work.listings
        (RetiredElsewhere out d s done) s up up.length) ∧
    (Undelivered out s net (runEvents out done d).work →
      (runEvents out done d).work.SameRows
          ((ingestOnePage out source net begun now).run (runEvents out done d)).2.work ∧
        (((ingestOnePage out source net begun now).run
            (runEvents out done d)).2.work.sourceState s).cursor =
          ((runEvents out done d).work.sourceState s).cursor)

/-- A page that does not come back in full stores nothing. -/
theorem Undelivered.not_page {s rail : PyStr} {net : PyStr → Exchange} {c : Catalog}
    (h : Undelivered out s net c) (hcursor : 0 ≤ (c.sourceState s).cursor)
    (hfull : ReadsInFull out s net) (items : List Item) (page : Page) :
    fetchPage out rail (catalogBase out s) net (c.sourceState s).cursor ≠ .ok (.page items page) := by
  obtain ⟨url, hurl, hfailed⟩ := h
  obtain ⟨k, hk⟩ := Int.eq_ofNat_of_zero_le hcursor
  intro hfetch
  unfold fetchPage at hfetch
  rw [hurl] at hfetch
  rcases hfailed with ⟨e, he⟩ | ⟨reply, hreply, hlost⟩
  · obtain ⟨url', hurl', hfetch⟩ := bind_eq_ok.mp hfetch
    cases hurl'
    dsimp only at hfetch
    rw [he] at hfetch
    cases hfetch
  · rw [hk] at hurl
    obtain ⟨hblocked, hoversize⟩ := hfull k url reply hurl hreply
    exact hlost.elim hblocked hoversize

/-- The progress of a sweep over one more event. -/
theorem Progress.after {d : Session Catalog} {s : PyStr} {up : List Dict}
    {done : List (Event Item)} {e : Event Item}
    (h : Progress out (runEvents out done d).work (RetiredElsewhere out d s done) s up)
    (hsteady : Steady d.work)
    (hserves : ∀ source net begun now, e = .page source net begun now → source.strip = s →
      Serves out up s net ∧ ReadsInFull out s net) :
    Progress out (runEvents out (done ++ [e]) d).work (RetiredElsewhere out d s (done ++ [e])) s up := by
  have hdone := hsteady.run out done
  have hlater : ∀ u, RetiredElsewhere out d s done u → RetiredElsewhere out d s (done ++ [e]) u := by
    rintro u ⟨pre, q, post, rfl, hq, hactive, hretired⟩
    exact ⟨pre, q, post ++ [e], by simp, hq, hactive, hretired⟩
  have hrun : runEvents out (done ++ [e]) d = e.after out (runEvents out done d) := by
    unfold runEvents
    rw [List.foldl_append]
    rfl
  have helse : ¬e.PageOf s → ∀ u, (runEvents out done d).work.status u = some .active →
      (e.after out (runEvents out done d)).work.status u = some .retired →
      RetiredElsewhere out d s (done ++ [e]) u :=
    fun he u hactive hretired => ⟨done, e, [], rfl, he, hactive, hretired⟩
  rw [hrun]
  cases e with
  | search items source ts now =>
      refine Progress.call out h hdone (c := .upsertItems items source none ts now)
        (fun hbegins => hbegins) rfl hlater ?_ fun u _ => helse id u
      exact search_states out items source ts now _ s
  | page source net begun now =>
      show Progress out ((ingestOnePage out source net begun now).run (runEvents out done d)).2.work
        _ s up
      change ¬source.strip = s → ∀ u, _ → ((ingestOnePage out source net begun now).run
        (runEvents out done d)).2.work.status u = some .retired → _ at helse
      rcases ingestOnePage_cases out source net begun now hdone with
        ⟨hrun, -⟩ | ⟨hs, ⟨hrun, -⟩ | ⟨items, page, hfetch, hrun, -⟩⟩
      · rw [hrun]
        exact h.mono out hlater
      · rw [hrun]
        exact (h.opened out hdone hs begun).mono out hlater
      · rw [hrun] at helse ⊢
        have hopened := h.opened out hdone hs begun
        obtain ⟨hsteady', hrows, hgoing, hcursor, -⟩ := opened_spec out hs begun hdone
        by_cases hown : source.strip = s
        · subst hown
          obtain ⟨hserves, hfull⟩ := hserves source net begun now rfl rfl
          rw [← hcursor] at hfetch
          exact (hopened.ingest out hsteady' hs hgoing hserves hfull hfetch now).1.mono out hlater
        · refine hopened.call out hsteady' (fun hbegins => hbegins) rfl hlater ?_
            fun u _ hactive hretired => helse hown u ((hrows.status u).symm.trans hactive) hretired
          have hstate := (ingestPage_state out.conv hs items page now
            (Shadow.opened out source.strip begun (runEvents out done d))
            (hsteady'.going _ hgoing)).2 s
          exact hstate.trans (if_neg fun heq => hown heq.symm)

/-- In every run, from any database that runs lead to, whose pages of `s` all come from the
catalog `up` and are read in full, sweeps of `s` see the whole catalog. -/
theorem sweep_saw_all (s : PyStr) (up : List Dict) (earlier events : List (Event Item))
    (hrest : ((runEvents out earlier start).work.sourceState s).sweepStartedAt = none)
    (hserves : ∀ source net begun now, .page source net begun now ∈ events → source.strip = s →
      Serves out up s net)
    (hfull : ∀ source net begun now, .page source net begun now ∈ events → source.strip = s →
      ReadsInFull out s net) :
    SweepsWhole out s up (runEvents out earlier start) events := by
  have hsteady := steady_start.run out earlier
  have hprogress : ∀ done later, events = done ++ later →
      Progress out (runEvents out done (runEvents out earlier start)).work
        (RetiredElsewhere out (runEvents out earlier start) s done) s up := by
    intro done
    induction done using List.reverseRecOn with
    | nil => exact fun later _ hgoing => absurd hrest hgoing
    | append_singleton done e ih =>
        intro later heq
        have hmem : e ∈ events := by rw [heq]; simp
        refine (ih (e :: later) (by rw [heq, List.append_assoc]; rfl)).after out hsteady ?_
        rintro source net begun now rfl hsource
        exact ⟨hserves source net begun now hmem hsource, hfull source net begun now hmem hsource⟩
  intro done source net begun now later heq hsource
  have hdone := hsteady.run out done
  have hmem : Event.page source net begun now ∈ events := by rw [heq]; simp
  have hserves := hserves source net begun now hmem hsource
  have hfull := hfull source net begun now hmem hsource
  have hsofar := hprogress done _ heq
  subst hsource
  rcases ingestOnePage_cases out source net begun now hdone with
    ⟨hrun, hreports⟩ | ⟨hs, ⟨hrun, hreports⟩ | ⟨items, page, hfetch, hrun, hcomplete⟩⟩
  · refine ⟨fun h => absurd h hreports, fun _ => ?_⟩
    rw [hrun]
    exact ⟨.refl _, rfl⟩
  · obtain ⟨-, hrows, -, hcursor, -⟩ := opened_spec out hs begun hdone
    refine ⟨fun h => absurd h hreports, fun _ => ?_⟩
    rw [hrun]
    exact ⟨hrows, hcursor⟩
  · refine ⟨fun h => ?_, fun h => ?_⟩
    · obtain ⟨hsteady', hrows, hgoing, hcursor, -⟩ := opened_spec out hs begun hdone
      rw [hrun]
      rw [← hcursor] at hfetch
      exact ((hsofar.opened out hdone hs begun).ingest out hsteady' hs hgoing hserves hfull hfetch
        now).2 (hcomplete h)
    · exact absurd hfetch (h.not_page out (hdone.cursor _) hfull items page)

/-! ## A page over the limit -/

/-- A body over the limit reads as an empty document. -/
theorem fetchCatalogPayload_oversize {net : PyStr → Exchange} {url : PyStr} {reply : PyStr × Bytes}
    (hurl : catalogUrlAllowed out url = .ok true) (hopen : openCatalog out net 2 url = .ok reply)
    (hfinal : catalogUrlAllowed out reply.1 = .ok true) (hoversize : Oversize reply) :
    fetchCatalogPayload out net url pageReadLimit = .ok (.obj []) := by
  unfold fetchCatalogPayload
  rw [hurl, hopen]
  show (if pageReadLimit < 1 then Except.ok (Json.obj []) else _) = _
  rw [if_neg (by unfold pageReadLimit; omega)]
  show Except.bind (if reply.1 = [] then Except.ok true else catalogUrlAllowed out reply.1) _ = _
  rw [hfinal, ite_self]
  have hlong : pageReadLimit < (reply.2.take (pageReadLimit + 1)).length := by
    rw [List.length_take]
    exact lt_min (Nat.lt_succ_self _) hoversize
  show (if pageReadLimit < (reply.2.take (pageReadLimit + 1)).length then Except.ok (Json.obj [])
    else _) = _
  rw [if_pos hlong]

/-- An empty document is taken for the end of the catalog, wherever the sweep is. -/
theorem fetchPage_oversize {source rail url : PyStr} {net : PyStr → Exchange}
    {reply : PyStr × Bytes} {offset : ℤ}
    (hurl : pageUrl out (catalogBase out source) pageSize offset = .ok (some url))
    (hopen : openCatalog out net 2 url = .ok reply)
    (hfinal : catalogUrlAllowed out reply.1 = .ok true) (hoversize : Oversize reply) :
    fetchPage out rail (catalogBase out source) net offset =
      .ok (.page [] ⟨offset, true, none, some 0⟩) := by
  have hempty := fetchCatalogPayload_oversize out (pageUrl_allowed hurl) hopen hfinal hoversize
  unfold fetchPage
  rw [hurl]
  simp only [Except.bind, hempty]
  rfl

section Sample

/-- The text of a document, as the bytes of its ASCII characters. -/
def asciiBytes (s : String) : Bytes := s.toList.map fun c => UInt8.ofNat c.toNat

/-- URLs of the form `https://host/path?query`. -/
def plainUrls : UrlLib where
  urlparse url :=
    let rest := url.drop 8
    let netloc := PyStr.beforeFirst (.ofChar '/') rest
    let path := rest.drop netloc.length
    .ok ⟨PyStr.beforeFirst (.ofChar ':') url, netloc, PyStr.beforeFirst (.ofChar '?') path, [],
      (path.dropWhile (· ≠ .ofChar '?')).drop 1, [], none, none, some netloc, .ok none⟩
  urlunparse p := p.scheme ++ ("://" : PyStr) ++ p.netloc ++ p.path ++ ("?" : PyStr) ++ p.query
  urljoin _ url := .ok url
  parseQsl _ := []
  urlencode kvs := (("&" : PyStr).intercalate (kvs.map fun kv => kv.1 ++ ("=" : PyStr) ++ kv.2))

/-- A catalog of one listing. -/
def oneListing : List Dict := [[("resource", .str listing)]]

def onePage : Json :=
  .obj [("items", .arr (oneListing.map .obj)),
    ("pagination", .obj [("limit", .int 100), ("offset", .int 0), ("total", .int 1)])]

def onePageBody : Bytes :=
  asciiBytes "\x7b\"items\":[\x7b\"resource\":\"https://a.example\"\x7d],\"pagination\":\x7b\"limit\":100,\"offset\":0,\"total\":1\x7d\x7d"

/-- A document with blanks after it is the document. -/
def plainOutside : Outside PyStr where
  py := ⟨⟨id, id, fun _ => false, fun _ => false⟩, fun _ => false, fun _ => none, fun _ => none,
    fun _ => []⟩
  url := plainUrls
  loads body :=
    if onePageBody.isPrefixOf body then .ok onePage else .error (.valueError "Expecting value")
  slimItem raw _ :=
    match Dict.get raw "resource" with
    | .str url => .ok url
    | _ => .ok []
  fixtureMode := false
  conv := plain

/-- The URL of the first page. -/
def firstPage : PyStr :=
  "https://api.cdp.coinbase.com/platform/v2/x402/discovery/resources?limit=100&offset=0"

/-- A server that has the first page, followed by some blanks. -/
def answersFirst (blanks : ℕ) (url : PyStr) : Exchange :=
  if url = firstPage then .answered url (onePageBody ++ List.replicate blanks 32)
  else .failed ⟨.osError, "HTTP Error 404"⟩

theorem pageUrl_firstPage :
    pageUrl plainOutside (catalogBase plainOutside sourceCdp) pageSize 0 = .ok (some firstPage) := by
  rfl

/-- No other page has that URL. -/
theorem eq_zero_of_pageUrl {offset : ℕ}
    (h : pageUrl plainOutside (catalogBase plainOutside sourceCdp) pageSize offset =
      .ok (some firstPage)) : offset = 0 := by
  obtain ⟨parsed, hparsed, hurl, -⟩ := pageUrl_eq h
  obtain ⟨parsed', hparsed', hurl', -⟩ := pageUrl_eq pageUrl_firstPage
  rw [hparsed] at hparsed'
  cases hparsed'
  -- the two URLs agree up to the number at their end
  have hquery := List.append_cancel_left (hurl.symm.trans hurl')
  have hparam := List.append_cancel_left (List.append_cancel_left hquery)
  have htext := List.append_cancel_left (List.append_cancel_right hparam)
  have hdigits : Nat.toDigits 10 offset = Nat.toDigits 10 0 :=
    List.map_injective_iff.mpr CodePoint.ofChar_injective htext
  rw [← Nat.ofDigitChars_ten_toDigits (n := offset), hdigits]
  rfl

theorem isPage_onePage : IsPage onePage oneListing 0 100 :=
  ⟨rfl, _, _, rfl, rfl, rfl, rfl, rfl⟩

theorem openCatalog_answersFirst {blanks : ℕ} {url : PyStr} {reply : PyStr × Bytes}
    (h : openCatalog plainOutside (answersFirst blanks) 2 url = .ok reply) :
    url = firstPage ∧ reply = (firstPage, onePageBody ++ List.replicate blanks 32) := by
  unfold openCatalog answersFirst at h
  by_cases hurl : url = firstPage
  · rw [if_pos hurl] at h
    cases h
    exact ⟨hurl, by rw [hurl]⟩
  · rw [if_neg hurl] at h
    cases h

theorem answersFirst_serves (blanks : ℕ) :
    Serves plainOutside oneListing sourceCdp (answersFirst blanks) := by
  intro offset url reply hurl hopen
  obtain ⟨rfl, rfl⟩ := openCatalog_answersFirst hopen
  obtain rfl := eq_zero_of_pageUrl hurl
  have hprefix : onePageBody.isPrefixOf (onePageBody ++ List.replicate blanks 32) = true := by
    rw [List.isPrefixOf_iff_prefix]
    exact List.prefix_append _ _
  have hloads : plainOutside.loads (onePageBody ++ List.replicate blanks 32) = .ok onePage := by
    show (if onePageBody.isPrefixOf (onePageBody ++ List.replicate blanks 32) = true then
      Except.ok onePage else Except.error (PyError.valueError "Expecting value")) = _
    rw [if_pos hprefix]
  exact ⟨100, onePage, by omega, le_rfl, hloads, isPage_onePage⟩

/-- The first page that is read in full: the sweep is complete and has seen the listing. -/
theorem sweep_saw_all_onePage : SweepsWhole plainOutside sourceCdp oneListing start
    [.page sourceCdp (answersFirst 0) 100 100] := by
  refine sweep_saw_all plainOutside sourceCdp oneListing [] _ rfl ?_ ?_
  · intro source net begun now hmem _
    cases List.mem_singleton.mp hmem
    exact answersFirst_serves 0
  · intro source net begun now hmem _
    cases List.mem_singleton.mp hmem
    intro offset url reply _ hopen
    obtain ⟨rfl, rfl⟩ := openCatalog_answersFirst hopen
    refine ⟨fun hblocked => ?_, ?_⟩
    · cases hblocked.2
    · rw [List.replicate_zero, List.append_nil]
      exact Nat.not_lt.mpr (by decide +kernel)

/-- A first page over the limit ends the sweep, which has seen nothing. -/
theorem sweep_oversize : ¬∀ (out : Outside PyStr) (s : PyStr) (up : List Dict)
    (earlier events : List (Event PyStr)),
    ((runEvents out earlier start).work.sourceState s).sweepStartedAt = none →
    (∀ source net begun now, .page source net begun now ∈ events → source.strip = s →
      Serves out up s net) →
    SweepsWhole out s up (runEvents out earlier start) events := by
  intro h
  have hwhole := h plainOutside sourceCdp oneListing []
    [.page sourceCdp (answersFirst pageReadLimit) 100 100] rfl fun source net begun now hmem _ => by
      cases List.mem_singleton.mp hmem
      exact answersFirst_serves pageReadLimit
  have hopen : openCatalog plainOutside (answersFirst pageReadLimit) 2 firstPage =
      .ok (firstPage, onePageBody ++ List.replicate pageReadLimit 32) := by
    unfold openCatalog answersFirst
    rw [if_pos rfl]
  have hlong : Oversize (firstPage, onePageBody ++ List.replicate pageReadLimit 32) := by
    unfold Oversize
    rw [List.length_append, List.length_replicate]
    have hpos : 0 < onePageBody.length := by decide +kernel
    omega
  have hfetch : fetchPage plainOutside (railForSource plainOutside.py sourceCdp)
      (catalogBase plainOutside sourceCdp) (answersFirst pageReadLimit) 0 =
        .ok (.page [] ⟨0, true, none, some 0⟩) :=
    fetchPage_oversize plainOutside pageUrl_firstPage hopen rfl hlong
  have hcdp : sourceCdp.strip = sourceCdp := sources_strip (by decide +kernel)
  have hrun : (ingestOnePage plainOutside sourceCdp (answersFirst pageReadLimit) 100 100).run start =
      _ := run_ingestOnePage plainOutside (answersFirst pageReadLimit) 100 100 (by decide)
    (by decide +kernel) rfl steady_start
  rw [hcdp, show (start.work.sourceState sourceCdp).cursor = 0 from rfl, hfetch] at hrun
  have hsaw := (hwhole [] sourceCdp (answersFirst pageReadLimit) 100 100 [] rfl hcdp).1
  rw [show runEvents plainOutside [] (runEvents plainOutside [] start) = start from rfl, hrun] at hsaw
  obtain ⟨item, hitem, hseen⟩ := hsaw ⟨_, rfl, rfl⟩ _ List.mem_cons_self
  cases hitem
  obtain ⟨⟨r, hr, -⟩, -⟩ := hseen.resolve_left (by decide +kernel)
  exact absurd (Option.isSome_iff_exists.mpr ⟨r, hr⟩) (by decide +kernel)

end Sample

end Signal402.Shadow
