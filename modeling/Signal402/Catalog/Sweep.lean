import Signal402.Catalog.Listings

/-!
# What a sweep retires

Runs of the calls that write the catalog, over any sources, from the empty
database.  Each call is reduced to its effect on the abstract catalog; what later
calls keep of an upsert is then one induction over them.

* `Call.after_listings` — the effect of a call.
* `Call.onListings_seen` — what a call changes of what a source saw.
* `kept_generation`, `kept_time` — what a run keeps of it.
* `completed_sweep_retires` — what the end of a sweep may retire.
-/

namespace Signal402.Shadow

open Session (execute update select commit)

variable {Item : Type}

/-- A call, with the clock it reads. -/
inductive Call (Item : Type)
  | beginSweep (source : PyStr) (ts : Option ℤ) (now : ℤ)
  | ingestPage (source : PyStr) (items : List Item) (page : Page) (ts : Option ℤ) (now : ℤ)
  | upsertItem (item : Option Item) (source : PyStr) (generation : Option ℤ) (ts : Option ℤ)
      (now : ℤ)
  | upsertItems (items : List Item) (source : PyStr) (generation : Option ℤ) (ts : Option ℤ)
      (now : ℤ)
  | completeSweep (source : PyStr) (ts : Option ℤ) (now : ℤ)

namespace Call

variable (conv : Conversions Item)

/-- The time a call works with. -/
def time : Call Item → ℤ
  | beginSweep _ ts now => timeOf ts now
  | ingestPage _ _ _ ts now => timeOf ts now
  | upsertItem _ _ _ ts now => timeOf ts now
  | upsertItems _ _ _ ts now => timeOf ts now
  | completeSweep _ ts now => timeOf ts now

/-- The database after a call. -/
def after (s : Session Catalog) : Call Item → Session Catalog
  | beginSweep source ts now => ((Shadow.beginSweep source ts now).run s).2
  | ingestPage source items page ts now => ((Shadow.ingestPage conv source items page ts now).run s).2
  | upsertItem item source generation ts now =>
      ((Shadow.upsertItem conv item source generation ts now).run s).2
  | upsertItems items source generation ts now =>
      ((Shadow.upsertItems conv items source generation ts now).run s).2
  | completeSweep source ts now => ((Shadow.completeSweep conv source ts now).run s).2

/-- The source whose listings a call writes. -/
def source : Call Item → PyStr
  | beginSweep source _ _ => source.strip
  | ingestPage source _ _ _ _ => source.strip
  | upsertItem _ source _ _ _ => upsertSourceName source
  | upsertItems _ source _ _ _ => upsertSourceName source
  | completeSweep source _ _ => source.strip

/-- The URLs a call upserts. -/
def urls : Call Item → List PyStr
  | beginSweep .. => []
  | ingestPage source items _ _ _ => if source.strip ∉ sources then [] else urlsOf conv items
  | upsertItem item _ _ _ _ => urlsOf conv item.toList
  | upsertItems items _ _ _ _ => urlsOf conv items
  | completeSweep .. => []

/-- The call upserts `u` from `source`. -/
def Upserts (c : Call Item) (source u : PyStr) : Prop := c.source = source ∧ u ∈ c.urls conv

/-- The call is a page. -/
def isPage : Call Item → Bool
  | ingestPage .. => true
  | _ => false

/-- The generation the caller gives. -/
def generation : Call Item → Option ℤ
  | upsertItem _ _ generation _ _ => generation
  | upsertItems _ _ generation _ _ => generation
  | _ => none

/-- The call begins a sweep of `source`. -/
def Begins (c : Call Item) (source : PyStr) : Prop :=
  match c with
  | beginSweep source' _ _ => source'.strip = source ∧ source ∈ sources
  | _ => False

/-- The call ends a sweep of `source`. -/
def Completes (c : Call Item) (source : PyStr) : Prop :=
  match c with
  | ingestPage source' items page _ _ =>
      source'.strip = source ∧ source ∈ sources ∧ page.complete items.length
  | completeSweep source' _ _ => source'.strip = source ∧ source ∈ sources
  | _ => False

end Call

/-- The database after a list of calls. -/
def runCalls (conv : Conversions Item) (calls : List (Call Item)) (s : Session Catalog) :
    Session Catalog := calls.foldl (fun s c => c.after conv s) s

/-- The database before the first call. -/
def start : Session Catalog := ⟨.empty, .empty⟩

/-- The generation of the sweep of a source that is going on; a first page starts
the sweep 1. -/
def Listings.sweep (l : Listings) (source : PyStr) : ℤ :=
  if l.generation source < 1 then 1 else l.generation source

/-! ## The effect of a call -/

section Effects

variable (conv : Conversions Item)

theorem Catalog.sourceState_putState (c : Catalog) {source : PyStr} {new : SourceState}
    {f : SourceState → SourceState} (hnew : new.source = source)
    (hf : ∀ r, (f r).source = r.source) (hgen : ∀ r, (f r).generation = new.generation)
    (source' : PyStr) :
    ((c.putState source new f).sourceState source').generation =
      if source' = source then new.generation else (c.sourceState source').generation := by
  unfold Catalog.putState Catalog.sourceState
  split
  next hnone =>
    rw [Table.lookup_append]
    by_cases hs : source' = source
    · subst hs
      rw [hnone, if_pos rfl]
      simp [Table.lookup, hnew]
    · have hne : ¬source = source' := fun h => hs h.symm
      rw [if_neg hs]
      simp [Table.lookup, hnew, hne]
  next row hrow =>
    dsimp only
    rw [Table.lookup_update hf]
    by_cases hs : source' = source
    · rw [if_pos hs, if_pos hs, hrow]
      exact hgen row
    · rw [if_neg hs, if_neg hs]

theorem Catalog.putState_listings (c : Catalog) {source : PyStr} {new : SourceState}
    {f : SourceState → SourceState} (hnew : new.source = source)
    (hf : ∀ r, (f r).source = r.source) (hgen : ∀ r, (f r).generation = new.generation) :
    (c.putState source new f).listings = c.listings.setGeneration source new.generation := by
  refine Listings.ext ?_ ?_ (funext (c.sourceState_putState hnew hf hgen))
  · unfold Catalog.putState
    split <;> rfl
  · unfold Catalog.putState
    split <;> rfl

theorem Catalog.WellFormed.putState {c : Catalog} (h : c.WellFormed) (source : PyStr)
    (new : SourceState) (f : SourceState → SourceState) :
    (c.putState source new f).WellFormed := by
  unfold Catalog.putState
  split
  · exact ⟨h.urls, h.ids, h.next, h.keys, h.listed⟩
  · exact ⟨h.urls, h.ids, h.next, h.keys, h.listed⟩

theorem Catalog.setState_listings (c : Catalog) {source : PyStr} {f : SourceState → SourceState}
    (hf : ∀ r, (f r).source = r.source) (hgen : ∀ r, (f r).generation = r.generation) :
    (c.setState source f).listings = c.listings := by
  refine Listings.ext rfl rfl (funext fun source' => ?_)
  show ((Table.lookup SourceState.source (Table.update SourceState.source source f
    c.sourceStates) source').getD _).generation = (c.sourceState source').generation
  unfold Catalog.sourceState
  rw [Table.lookup_update hf]
  by_cases hs : source' = source
  · subst hs
    rw [if_pos rfl]
    cases Table.lookup SourceState.source c.sourceStates source' with
    | none => rfl
    | some r => exact hgen r
  · rw [if_neg hs]

theorem Catalog.WellFormed.setState {c : Catalog} (h : c.WellFormed) (source : PyStr)
    (f : SourceState → SourceState) : (c.setState source f).WellFormed :=
  ⟨h.urls, h.ids, h.next, h.keys, h.listed⟩

/-- What a call does to the abstract catalog. -/
noncomputable def Call.onListings (l : Listings) : Call Item → Listings
  | beginSweep source _ _ =>
      if source.strip ∉ sources then l
      else l.setGeneration source.strip (l.generation source.strip + 1)
  | ingestPage source items page ts now =>
      if source.strip ∉ sources then l
      else
        let l' := (l.setGeneration source.strip (l.sweep source.strip)).upsertAll source.strip
          (some (l.sweep source.strip)) (timeOf ts now) (urlsOf conv items)
        if page.complete items.length then
          l'.retire source.strip (l.sweep source.strip) (timeOf ts now - conv.coldSweepS)
        else l'
  | upsertItem item source generation ts now =>
      l.upsertAll (upsertSourceName source) generation (timeOf ts now) (urlsOf conv item.toList)
  | upsertItems items source generation ts now =>
      l.upsertAll (upsertSourceName source) generation (timeOf ts now) (urlsOf conv items)
  | completeSweep source ts now =>
      if source.strip ∉ sources ∨ l.generation source.strip < 1 then l
      else l.retire source.strip (l.generation source.strip) (timeOf ts now - conv.coldSweepS)

/-- Code that keeps the keys and has the effect `f` on the abstract catalog. -/
def Effect {α : Type} (x : Code α) (f : Listings → Listings) : Prop :=
  ∀ s, s.work.WellFormed →
    (x.run s).2.work.WellFormed ∧ (x.run s).2.work.listings = f s.work.listings

theorem Effect.bind {α β : Type} {x : Code α} {k : α → Code β} {f g : Listings → Listings}
    (hx : Effect x f) (hk : ∀ a, Effect (k a) g) : Effect (x >>= k) fun l => g (f l) := by
  intro s hs
  rw [Script.run_bind]
  obtain ⟨hwork, hlistings⟩ := hx s hs
  obtain ⟨hwork', hlistings'⟩ := hk (x.run s).1 (x.run s).2 hwork
  refine ⟨hwork', ?_⟩
  rw [hlistings', hlistings]

theorem Effect.pure {α : Type} (a : α) : Effect (pure a : Code α) fun l => l :=
  fun _ hs => ⟨hs, rfl⟩

/-- Code that sweeps do not see has no effect. -/
theorem Aside.effect {α : Type} {x : Code α} (hx : Aside x) : Effect x fun l => l :=
  fun s hs => ⟨hs.congr (hx.run s), Catalog.listings_congr (hx.run s)⟩

theorem commit_effect : Effect commit fun l => l := Aside.effect .commit

theorem capEvents_effect : Effect capEvents fun l => l := capEvents_aside.effect

theorem upsertAll_effect (source : PyStr) (generation : Option ℤ) (ts : ℤ) (items : List Item) :
    Effect (upsertAll conv source generation ts items)
      fun l => l.upsertAll source generation ts (urlsOf conv items) :=
  fun _ hs => upsertAll_listings conv source generation ts items hs

/-- What `source_state` holds beside the generation has no effect. -/
theorem setState_effect (source : PyStr) {f : SourceState → SourceState}
    (hf : ∀ r, (f r).source = r.source) (hgen : ∀ r, (f r).generation = r.generation) :
    Effect (execute (Catalog.setState source f)) fun l => l :=
  fun s hs => ⟨hs.setState source f, s.work.setState_listings hf hgen⟩

theorem finishState_effect (source : PyStr) (ts : ℤ) : Effect (finishState source ts) fun l => l :=
  setState_effect source (fun _ => rfl) fun _ => rfl

theorem retireUnseen_effect (source : PyStr) (generation ts : ℤ) :
    Effect (retireUnseen conv source generation ts)
      fun l => l.retire source generation (ts - conv.coldSweepS) :=
  fun _ hs => retireUnseen_listings conv hs source generation ts

theorem finishPage_effect (source : PyStr) (generation ts : ℤ) (complete : Bool) :
    Effect (finishPage conv source generation ts complete) fun l =>
      if complete then l.retire source generation (ts - conv.coldSweepS) else l := by
  unfold finishPage
  cases complete with
  | false => exact Effect.pure 0
  | true =>
      exact (retireUnseen_effect conv source generation ts).bind fun retired =>
        (finishState_effect source ts).bind fun _ => Effect.pure retired

/-- The first page of a source starts the sweep 1; any other belongs to the sweep
that is going on. -/
theorem pageGeneration_listings {s : Session Catalog} (h : s.work.WellFormed) (source : PyStr)
    (ts : ℤ) :
    ∃ s', (pageGeneration source ts).run s = (s.work.listings.sweep source, s') ∧
      s'.work.WellFormed ∧ s'.work.listings =
        s.work.listings.setGeneration source (s.work.listings.sweep source) := by
  unfold pageGeneration Listings.sweep
  rw [Script.run_bind, Session.run_select]
  dsimp only
  rw [show s.work.listings.generation source = (s.work.sourceState source).generation from rfl]
  split
  · refine ⟨_, rfl, h.putState _ _ _, ?_⟩
    exact s.work.putState_listings rfl (fun _ => rfl) fun _ => rfl
  · refine ⟨s, rfl, h, Listings.ext rfl rfl (funext fun source' => ?_)⟩
    show (s.work.sourceState source').generation = if source' = source then _ else _
    split
    next hs => rw [hs]
    next => rfl

/-- A call keeps the keys and has its effect on the abstract catalog. -/
theorem Call.after_listings {s : Session Catalog} (h : s.work.WellFormed) (c : Call Item) :
    (c.after conv s).work.WellFormed ∧
      (c.after conv s).work.listings = c.onListings conv s.work.listings := by
  cases c with
  | beginSweep source ts now =>
      unfold after onListings Shadow.beginSweep
      dsimp only
      split
      · exact ⟨h, rfl⟩
      · rw [Script.run_bind, Session.run_select]
        exact ⟨h.putState _ _ _, s.work.putState_listings rfl (fun _ => rfl) fun _ => rfl⟩
  | ingestPage source items page ts now =>
      unfold after onListings Shadow.ingestPage
      dsimp only
      split
      · exact ⟨h, rfl⟩
      · rw [Script.run_bind]
        obtain ⟨s', hrun, hwork, hlistings⟩ :=
          pageGeneration_listings h source.strip (timeOf ts now)
        rw [hrun, ← hlistings]
        exact ((upsertAll_effect conv source.strip _ (timeOf ts now) items).bind fun out =>
          (setState_effect source.strip (f := fun r => { r with
            cursor := page.newCursor items.length
            upstreamTotal := page.upstreamTotal.or r.upstreamTotal }) (fun _ => rfl)
            fun _ => rfl).bind fun _ =>
          (finishPage_effect conv source.strip _ (timeOf ts now) _).bind fun retired =>
          capEvents_effect.bind fun _ => commit_effect.bind fun _ => Effect.pure _) s' hwork
  | upsertItem item source generation ts now =>
      unfold after onListings Shadow.upsertItem
      cases item with
      | none => exact ⟨h, rfl⟩
      | some item =>
          dsimp only
          refine (Effect.bind (f := fun l => l.upsertAll (upsertSourceName source) generation
            (timeOf ts now) (urlsOf conv [item])) ?_ fun out =>
            capEvents_effect.bind fun _ => commit_effect.bind fun _ => Effect.pure out) s h
          intro s hs
          obtain ⟨hwork, hlistings⟩ := upsertOne_listings conv hs item (upsertSourceName source)
            generation (timeOf ts now)
          refine ⟨hwork, hlistings.trans ?_⟩
          unfold urlsOf
          rw [List.map_singleton]
          split
          next hurl => rw [List.filter_cons_of_neg (by simpa using hurl)]; rfl
          next hurl => rw [List.filter_cons_of_pos (by simpa using hurl)]; rfl
  | upsertItems items source generation ts now =>
      unfold after onListings Shadow.upsertItems
      exact ((upsertAll_effect conv _ generation (timeOf ts now) items).bind fun out =>
        capEvents_effect.bind fun _ => commit_effect.bind fun _ => Effect.pure out) s h
  | completeSweep source ts now =>
      unfold after onListings Shadow.completeSweep
      dsimp only
      split
      next hs => rw [if_pos (Or.inl hs)]; exact ⟨h, rfl⟩
      next hs =>
        rw [Script.run_bind, Session.run_select]
        dsimp only
        rw [show s.work.listings.generation source.strip =
          (s.work.sourceState source.strip).generation from rfl]
        split
        next hgen => rw [if_pos (Or.inr hgen)]; exact ⟨h, rfl⟩
        next hgen =>
          rw [if_neg fun hor => hor.elim hs hgen]
          exact ((retireUnseen_effect conv source.strip _ (timeOf ts now)).bind
            fun retired => (finishState_effect source.strip (timeOf ts now)).bind fun _ =>
            capEvents_effect.bind fun _ => commit_effect.bind fun _ => Effect.pure _) s h

/-- Every run keeps the keys, and is a run of the effects. -/
theorem runCalls_listings {s : Session Catalog} (h : s.work.WellFormed) (calls : List (Call Item)) :
    (runCalls conv calls s).work.WellFormed ∧ (runCalls conv calls s).work.listings =
      calls.foldl (fun l c => c.onListings conv l) s.work.listings := by
  induction calls generalizing s with
  | nil => exact ⟨h, rfl⟩
  | cons c rest ih =>
      obtain ⟨hwork, hlistings⟩ := c.after_listings conv h
      obtain ⟨hwork', hlistings'⟩ := ih hwork
      refine ⟨hwork', hlistings'.trans ?_⟩
      rw [hlistings, List.foldl_cons]

end Effects

/-! ## What one call changes -/

section Changes

variable (conv : Conversions Item) (l : Listings)

/-- An upsert that repeats the one before changes nothing. -/
theorem Seen.again_again (old : Option Seen) (generation : Option ℤ) (ts : ℤ) :
    Seen.again (some (.again old generation ts)) generation ts = .again old generation ts := by
  unfold Seen.again
  cases generation <;> rfl

theorem Listings.upsertAll_seen (source : PyStr) (generation : Option ℤ) (ts : ℤ)
    (urls : List PyStr) (u s : PyStr) :
    (l.upsertAll source generation ts urls).seen u s =
      if s = source ∧ u ∈ urls then some (.again (l.seen u s) generation ts) else l.seen u s := by
  unfold Listings.upsertAll
  induction urls generalizing l with
  | nil => rw [if_neg fun h => List.not_mem_nil h.2]; rfl
  | cons url rest ih =>
      rw [List.foldl_cons, ih, show (l.upsert url source generation ts).seen u s =
        if u = url ∧ s = source then some (.again (l.seen u s) generation ts)
        else l.seen u s from rfl]
      by_cases hs : s = source <;> by_cases hu : u = url
      · simp [hs, hu, Seen.again_again]
      · simp [hs, hu]
      · simp [hs]
      · simp [hs]

theorem Listings.upsertAll_status (source : PyStr) (generation : Option ℤ) (ts : ℤ)
    (urls : List PyStr) (u : PyStr) :
    (l.upsertAll source generation ts urls).status u =
      if u ∈ urls then some .active else l.status u := by
  unfold Listings.upsertAll
  induction urls generalizing l with
  | nil => rw [if_neg List.not_mem_nil]; rfl
  | cons url rest ih =>
      rw [List.foldl_cons, ih]
      have hone : (l.upsert url source generation ts).status u =
          if u = url then some .active else l.status u := rfl
      by_cases hu : u = url
      · rw [hone, if_pos hu, ite_self, if_pos (hu ▸ List.mem_cons_self)]
      · rw [hone, if_neg hu]
        simp only [List.mem_cons, hu, false_or]

theorem Listings.upsertAll_generation (source : PyStr) (generation : Option ℤ) (ts : ℤ)
    (urls : List PyStr) :
    (l.upsertAll source generation ts urls).generation = l.generation := by
  unfold Listings.upsertAll
  induction urls generalizing l with
  | nil => rfl
  | cons url rest ih => exact ih _

/-- The generation that a call writes for what it upserts. -/
def Call.carried (c : Call Item) : Option ℤ :=
  if c.isPage then some (l.sweep c.source) else c.generation

open Classical in
/-- What a source saw of a listing changes by its upserts only. -/
theorem Call.onListings_seen (c : Call Item) (u s : PyStr) :
    (c.onListings conv l).seen u s =
      if c.Upserts conv s u then some (.again (l.seen u s) (c.carried l) c.time)
      else l.seen u s := by
  unfold Call.Upserts
  cases c with
  | beginSweep source ts now =>
      rw [if_neg fun h => List.not_mem_nil h.2]
      unfold onListings
      dsimp only
      split <;> rfl
  | ingestPage source items page ts now =>
      have hurls : Call.urls conv (ingestPage source items page ts now) =
        if source.strip ∉ sources then [] else urlsOf conv items := rfl
      unfold onListings
      dsimp only
      by_cases hsource : source.strip ∉ sources
      · rw [if_pos hsource] at hurls ⊢
        rw [if_neg fun h => List.not_mem_nil (hurls ▸ h.2)]
      · rw [if_neg hsource] at hurls
        have hseen := Listings.upsertAll_seen
          (l.setGeneration source.strip (l.sweep source.strip)) source.strip
          (some (l.sweep source.strip)) (timeOf ts now) (urlsOf conv items) u s
        rw [if_neg hsource]
        have hpage : (if page.complete items.length then
            ((l.setGeneration source.strip (l.sweep source.strip)).upsertAll source.strip
              (some (l.sweep source.strip)) (timeOf ts now) (urlsOf conv items)).retire source.strip
                (l.sweep source.strip) (timeOf ts now - conv.coldSweepS)
            else (l.setGeneration source.strip (l.sweep source.strip)).upsertAll source.strip
              (some (l.sweep source.strip)) (timeOf ts now) (urlsOf conv items)).seen u s =
            ((l.setGeneration source.strip (l.sweep source.strip)).upsertAll source.strip
              (some (l.sweep source.strip)) (timeOf ts now) (urlsOf conv items)).seen u s := by
          split <;> rfl
        rw [hpage, hseen]
        by_cases h : s = source.strip ∧ u ∈ urlsOf conv items
        · rw [if_pos h, if_pos ⟨h.1.symm, hurls.symm ▸ h.2⟩]
          rfl
        · rw [if_neg h, if_neg fun h' => h ⟨h'.1.symm, hurls ▸ h'.2⟩]
          rfl
  | upsertItem item source generation ts now =>
      unfold onListings
      rw [Listings.upsertAll_seen]
      by_cases h : s = upsertSourceName source ∧ u ∈ urlsOf conv item.toList
      · rw [if_pos h, if_pos ⟨h.1.symm, h.2⟩]
        rfl
      · rw [if_neg h, if_neg fun h' => h ⟨h'.1.symm, h'.2⟩]
  | upsertItems items source generation ts now =>
      unfold onListings
      rw [Listings.upsertAll_seen]
      by_cases h : s = upsertSourceName source ∧ u ∈ urlsOf conv items
      · rw [if_pos h, if_pos ⟨h.1.symm, h.2⟩]
        rfl
      · rw [if_neg h, if_neg fun h' => h ⟨h'.1.symm, h'.2⟩]
  | completeSweep source ts now =>
      rw [if_neg fun h => List.not_mem_nil h.2]
      unfold onListings
      dsimp only
      split <;> rfl

theorem Listings.sweep_setGeneration (source : PyStr) (n : ℤ) (s : PyStr) :
    (l.setGeneration source n).sweep s =
      if s = source then (if n < 1 then 1 else n) else l.sweep s := by
  unfold Listings.sweep
  rw [show (l.setGeneration source n).generation s =
    if s = source then n else l.generation s from rfl]
  split <;> rfl

/-- Only the begin of a sweep starts another one. -/
theorem Call.onListings_sweep {c : Call Item} {s : PyStr} (hc : ¬c.Begins s) :
    (c.onListings conv l).sweep s = l.sweep s := by
  have hset : ∀ source, (l.setGeneration source (l.sweep source)).sweep s = l.sweep s := by
    intro source
    rw [Listings.sweep_setGeneration]
    by_cases hs : s = source
    · subst hs
      rw [if_pos rfl]
      unfold Listings.sweep
      split <;> rfl
    · rw [if_neg hs]
  cases c with
  | beginSweep source ts now =>
      unfold onListings
      dsimp only
      split
      · rfl
      next hsource =>
        have hne : s ≠ source.strip := fun hs => hc ⟨hs.symm, hs ▸ not_not.mp hsource⟩
        rw [Listings.sweep_setGeneration, if_neg hne]
  | ingestPage source items page ts now =>
      unfold onListings
      dsimp only
      split
      · rfl
      · rw [← hset source.strip]
        unfold Listings.sweep
        split
        · rw [show ∀ (l : Listings) g t, (l.retire source.strip g t).generation = l.generation
            from fun _ _ _ => rfl, Listings.upsertAll_generation]
        · rw [Listings.upsertAll_generation]
  | upsertItem item source generation ts now =>
      unfold onListings Listings.sweep
      rw [Listings.upsertAll_generation]
  | upsertItems items source generation ts now =>
      unfold onListings Listings.sweep
      rw [Listings.upsertAll_generation]
  | completeSweep source ts now =>
      unfold onListings
      dsimp only
      split <;> rfl

/-- A call that ends a sweep begins none. -/
theorem Call.Completes.not_begins {c : Call Item} {s s' : PyStr} (h : c.Completes s) :
    ¬c.Begins s' := by
  cases c with
  | beginSweep => exact h.elim
  | ingestPage => exact id
  | upsertItem => exact id
  | upsertItems => exact id
  | completeSweep => exact id

/-- A page begins no sweep. -/
theorem Call.not_begins_of_upserts {c : Call Item} {s u s' : PyStr} (h : c.Upserts conv s u) :
    ¬c.Begins s' := by
  cases c with
  | beginSweep => exact absurd h.2 List.not_mem_nil
  | ingestPage => exact id
  | upsertItem => exact id
  | upsertItems => exact id
  | completeSweep => exact id

/-- Only the end of a sweep retires a listing: one that its source saw last in another
sweep or in none, and that no other source saw since the cutoff. -/
theorem Call.onListings_retired {c : Call Item} {u : PyStr} (hactive : l.status u = some .active)
    (hretired : (c.onListings conv l).status u = some .retired) :
    ∃ s, c.Completes s ∧ (c.onListings conv l).Unseen s (l.sweep s) u ∧
      ¬(c.onListings conv l).SeenElsewhere s (c.time - conv.coldSweepS) u := by
  have hupserts : ∀ source generation ts urls,
      (l.upsertAll source generation ts urls).status u = some .active := by
    intro source generation ts urls
    rw [Listings.upsertAll_status]
    split
    · rfl
    · exact hactive
  have hretire : ∀ (l' : Listings) source generation cutoff, l'.status u = some .active →
      (l'.retire source generation cutoff).status u = some .retired →
      (l'.retire source generation cutoff).Unseen source generation u ∧
        ¬(l'.retire source generation cutoff).SeenElsewhere source cutoff u := by
    intro l' source generation cutoff h h'
    by_contra hnot
    rw [l'.retire_status_neg fun hand => hnot hand.2, h] at h'
    cases h'
  cases c with
  | beginSweep source ts now =>
      have hsame : (onListings conv l (beginSweep source ts now)).status = l.status := by
        unfold onListings
        dsimp only
        split <;> rfl
      rw [hsame, hactive] at hretired
      cases hretired
  | ingestPage source items page ts now =>
      unfold onListings at hretired ⊢
      dsimp only at hretired ⊢
      by_cases hsource : source.strip ∉ sources
      · rw [if_pos hsource, hactive] at hretired
        cases hretired
      · rw [if_neg hsource] at hretired ⊢
        have hpage : ((l.setGeneration source.strip (l.sweep source.strip)).upsertAll source.strip
            (some (l.sweep source.strip)) (timeOf ts now) (urlsOf conv items)).status u =
              some .active := by
          rw [Listings.upsertAll_status]
          split
          · rfl
          · exact hactive
        by_cases hcomplete : page.complete items.length = true
        · rw [if_pos hcomplete] at hretired ⊢
          exact ⟨source.strip, ⟨rfl, not_not.mp hsource, hcomplete⟩,
            hretire _ _ _ _ hpage hretired⟩
        · rw [if_neg hcomplete, hpage] at hretired
          cases hretired
  | upsertItem item source generation ts now =>
      have hsame := hupserts (upsertSourceName source) generation (timeOf ts now)
        (urlsOf conv item.toList)
      rw [show (onListings conv l (upsertItem item source generation ts now)).status u =
        some .active from hsame] at hretired
      cases hretired
  | upsertItems items source generation ts now =>
      have hsame := hupserts (upsertSourceName source) generation (timeOf ts now)
        (urlsOf conv items)
      rw [show (onListings conv l (upsertItems items source generation ts now)).status u =
        some .active from hsame] at hretired
      cases hretired
  | completeSweep source ts now =>
      unfold onListings at hretired ⊢
      dsimp only at hretired ⊢
      by_cases hsource : source.strip ∉ sources ∨ l.generation source.strip < 1
      · rw [if_pos hsource, hactive] at hretired
        cases hretired
      · rw [if_neg hsource] at hretired ⊢
        rw [not_or] at hsource
        have hsweep : l.sweep source.strip = l.generation source.strip := if_neg hsource.2
        refine ⟨source.strip, ⟨rfl, not_not.mp hsource.1⟩, ?_⟩
        rw [hsweep]
        exact hretire _ _ _ _ hactive hretired

/-- What a call upserts is active after it. -/
theorem Call.onListings_active {c : Call Item} {s u : PyStr} (h : c.Upserts conv s u) :
    (c.onListings conv l).status u = some .active := by
  obtain ⟨hs, hu⟩ := h
  cases c with
  | beginSweep => exact absurd hu List.not_mem_nil
  | ingestPage source items page ts now =>
      have hurls : Call.urls conv (ingestPage source items page ts now) =
        if source.strip ∉ sources then [] else urlsOf conv items := rfl
      unfold onListings
      dsimp only
      by_cases hsource : source.strip ∉ sources
      · rw [hurls, if_pos hsource] at hu
        exact absurd hu List.not_mem_nil
      · rw [hurls, if_neg hsource] at hu
        rw [if_neg hsource]
        have hactive : ((l.setGeneration source.strip (l.sweep source.strip)).upsertAll source.strip
            (some (l.sweep source.strip)) (timeOf ts now) (urlsOf conv items)).status u =
              some .active := by
          rw [Listings.upsertAll_status, if_pos hu]
        split
        · -- the page itself saw the listing in this sweep
          refine (Listings.retire_status_neg _ fun hand => ?_).trans hactive
          obtain ⟨-, ⟨r, hr, hunseen⟩, -⟩ := hand
          rw [Listings.upsertAll_seen, if_pos ⟨rfl, hu⟩] at hr
          cases hr
          exact hunseen rfl
        · exact hactive
  | upsertItem item source generation ts now =>
      exact (Listings.upsertAll_status ..).trans (if_pos hu)
  | upsertItems items source generation ts now =>
      exact (Listings.upsertAll_status ..).trans (if_pos hu)
  | completeSweep => exact absurd hu List.not_mem_nil

end Changes

/-! ## What a run keeps -/

section Runs

variable (conv : Conversions Item)

/-- The abstract catalog after a list of calls. -/
noncomputable def Listings.run (l : Listings) (calls : List (Call Item)) : Listings :=
  calls.foldl (fun l c => c.onListings conv l) l

/-- A sweep goes on until another one begins. -/
theorem run_sweep {s : PyStr} (l : Listings) {later : List (Call Item)}
    (hbegins : ∀ b ∈ later, ¬b.Begins s) : (l.run conv later).sweep s = l.sweep s := by
  induction later generalizing l with
  | nil => rfl
  | cons c rest ih =>
      have hrest := ih (c.onListings conv l) fun b hb => hbegins b (List.mem_cons_of_mem c hb)
      exact hrest.trans (c.onListings_sweep conv l (hbegins c List.mem_cons_self))

/-- What was seen in a sweep that goes on stays seen in it, until an upsert from the
source gives another generation. -/
theorem kept_generation {s u : PyStr} {l : Listings} {later : List (Call Item)} {r : Seen}
    (hbegins : ∀ b ∈ later, ¬b.Begins s) (hr : l.seen u s = some r)
    (hgen : r.generation = some (l.sweep s)) :
    (∃ q ∈ later, q.Upserts conv s u ∧ ∃ g, q.generation = some g ∧ g ≠ l.sweep s) ∨
      ∃ r, (l.run conv later).seen u s = some r ∧ r.generation = some (l.sweep s) := by
  induction later generalizing l r with
  | nil => exact Or.inr ⟨r, hr, hgen⟩
  | cons c rest ih =>
      have hsweep := c.onListings_sweep conv l (hbegins c List.mem_cons_self)
      have hrest := fun b hb => hbegins b (List.mem_cons_of_mem c hb)
      by_cases hother : c.Upserts conv s u ∧ ∃ g, c.generation = some g ∧ g ≠ l.sweep s
      · exact Or.inl ⟨c, List.mem_cons_self, hother⟩
      · have hkept : ∃ r, (c.onListings conv l).seen u s = some r ∧
            r.generation = some ((c.onListings conv l).sweep s) := by
          rw [Call.onListings_seen, hsweep]
          by_cases hc : c.Upserts conv s u
          · rw [if_pos hc]
            refine ⟨_, rfl, ?_⟩
            rw [hr]
            unfold Seen.again Call.carried
            dsimp only
            split
            · rw [hc.1]
              rfl
            · cases hg : c.generation with
              | none => exact hgen
              | some g =>
                  by_contra hne
                  exact hother ⟨hc, g, hg, fun heq => hne (congrArg some heq)⟩
          · rw [if_neg hc]
            exact ⟨r, hr, hgen⟩
        obtain ⟨r', hr', hgen'⟩ := hkept
        have hih := ih hrest hr' hgen'
        rw [hsweep] at hih
        rcases hih with ⟨q, hq, hexcuse⟩ | hkept
        · exact Or.inl ⟨q, List.mem_cons_of_mem c hq, hexcuse⟩
        · exact Or.inr hkept

/-- A source that saw a listing in a sweep never forgets that it sweeps it. -/
theorem kept_swept {s u : PyStr} {l : Listings} (later : List (Call Item)) {r : Seen}
    (hr : l.seen u s = some r) (hgen : r.generation.isSome) :
    ∃ r, (l.run conv later).seen u s = some r ∧ r.generation.isSome := by
  induction later generalizing l r with
  | nil => exact ⟨r, hr, hgen⟩
  | cons c rest ih =>
      have hkept : ∃ r, (c.onListings conv l).seen u s = some r ∧ r.generation.isSome := by
        rw [Call.onListings_seen]
        split
        · refine ⟨_, rfl, ?_⟩
          rw [hr]
          unfold Seen.again
          rw [Option.isSome_or, Option.bind_some, hgen, Bool.or_true]
        · exact ⟨r, hr, hgen⟩
      obtain ⟨r', hr', hgen'⟩ := hkept
      exact ih hr' hgen'

/-- The time a source last saw a listing does not go back, in calls of later times. -/
theorem kept_time {s u : PyStr} {l : Listings} {later : List (Call Item)} {r : Seen} {t : ℤ}
    (htimes : ∀ c ∈ later, t ≤ c.time) (hr : l.seen u s = some r) (hlast : t ≤ r.lastSeen) :
    ∃ r, (l.run conv later).seen u s = some r ∧ t ≤ r.lastSeen := by
  induction later generalizing l r with
  | nil => exact ⟨r, hr, hlast⟩
  | cons c rest ih =>
      have hkept : ∃ r, (c.onListings conv l).seen u s = some r ∧ t ≤ r.lastSeen := by
        rw [Call.onListings_seen]
        split
        · exact ⟨_, rfl, htimes c List.mem_cons_self⟩
        · exact ⟨r, hr, hlast⟩
      obtain ⟨r', hr', hlast'⟩ := hkept
      exact ih (fun b hb => htimes b (List.mem_cons_of_mem c hb)) hr' hlast'

/-- The status of a listing. -/
def Catalog.status (c : Catalog) (u : PyStr) : Option Status := (c.resource u).map Resource.status

/-- The generation of the sweep of a source that is going on. -/
def Catalog.sweep (c : Catalog) (s : PyStr) : ℤ := c.listings.sweep s

/-- The end of a sweep of a source retires an active listing only if every upsert of it
from the source that carried the generation of this sweep since it began, each page of
the source among them, was followed by one that gives another generation, and if no
other source that sweeps the listing saw it within the cold-sweep window.  Nothing else
retires a listing, and an upserted one is active. -/
theorem completed_sweep_retires (calls : List (Call Item)) (c : Call Item)
    (htimes : (calls ++ [c]).Pairwise fun a b => a.time ≤ b.time) :
    (∀ u, (runCalls conv calls start).work.status u = some .active →
      (c.after conv (runCalls conv calls start)).work.status u = some .retired →
      ∃ s, c.Completes s ∧
        (∀ before p later, calls ++ [c] = before ++ p :: later → p.Upserts conv s u →
          (p.isPage ∨ p.generation = some ((runCalls conv calls start).work.sweep s)) →
          (∀ b ∈ later, ¬b.Begins s) →
          ∃ q ∈ later, q.Upserts conv s u ∧
            ∃ g, q.generation = some g ∧ g ≠ (runCalls conv calls start).work.sweep s) ∧
        ∀ s', s' ≠ s →
          (∃ p ∈ calls ++ [c], p.Upserts conv s' u ∧ (p.isPage ∨ p.generation.isSome)) →
          ∀ q ∈ calls ++ [c], q.Upserts conv s' u → q.time < c.time - conv.coldSweepS) ∧
    ∀ s u, c.Upserts conv s u →
      (c.after conv (runCalls conv calls start)).work.status u = some .active := by
  obtain ⟨hwork, hlistings⟩ := runCalls_listings (s := start) conv Catalog.wellFormed_empty calls
  have hafter := (c.after_listings conv hwork).2
  have hstatus : ∀ (c : Catalog) u, c.status u = c.listings.status u := fun _ _ => rfl
  simp only [hstatus, Catalog.sweep, hafter]
  -- the run up to any call, and on from it
  have hsplit : ∀ before p later, calls ++ [c] = before ++ p :: later →
      c.onListings conv (runCalls conv calls start).work.listings =
        (p.onListings conv (start.work.listings.run conv before)).run conv later := by
    intro before p later heq
    have hrun := congrArg (start.work.listings.run conv) heq
    unfold Listings.run at hrun
    rw [List.foldl_append, List.foldl_append, ← hlistings] at hrun
    exact hrun
  refine ⟨fun u hactive hretired => ?_, fun s u h => c.onListings_active conv _ h⟩
  obtain ⟨s, hcompletes, hunseen, helse⟩ := c.onListings_retired conv _ hactive hretired
  refine ⟨s, hcompletes, fun before p later heq hp hcarries hbegins => ?_,
    fun s' hs' hsweeps q hq hupserts => ?_⟩
  · have hfinal := hsplit before p later heq
    have hend := c.onListings_sweep conv (runCalls conv calls start).work.listings
      (show ¬c.Begins s from hcompletes.not_begins)
    -- the sweep that ends is the one that goes on when `p` upserts the listing
    have hsweep := p.onListings_sweep conv (start.work.listings.run conv before)
      (show ¬p.Begins s from Call.not_begins_of_upserts conv hp)
    have hsame := run_sweep conv (p.onListings conv (start.work.listings.run conv before)) hbegins
    rw [← hfinal, hend] at hsame
    have hcarried : p.carried (start.work.listings.run conv before) =
        some ((runCalls conv calls start).work.listings.sweep s) := by
      unfold Call.carried
      split
      · rw [hp.1, hsame, hsweep]
      next hpage => exact hcarries.resolve_left hpage
    have hseen := p.onListings_seen conv (start.work.listings.run conv before) u s
    rw [if_pos hp] at hseen
    rcases kept_generation conv hbegins hseen (by
      rw [← hsame]
      unfold Seen.again
      rw [hcarried]
      rfl) with hexcuse | ⟨r, hr, hgen⟩
    · rw [← hsame] at hexcuse
      exact hexcuse
    · -- still seen in the sweep, so not retired
      obtain ⟨r', hr', hunseen⟩ := hunseen
      rw [hfinal, hr] at hr'
      cases hr'
      rw [← hsame] at hgen
      exact absurd hgen hunseen
  · obtain ⟨p, hp, hsaw, hcarries⟩ := hsweeps
    obtain ⟨before, later, heq⟩ := List.append_of_mem hp
    have hseen := p.onListings_seen conv (start.work.listings.run conv before) u s'
    rw [if_pos hsaw] at hseen
    obtain ⟨r, hr, hgen⟩ := kept_swept conv later hseen (by
      unfold Seen.again Call.carried
      rw [Option.isSome_or]
      split
      · rfl
      next hpage => rw [hcarries.resolve_left hpage]; rfl)
    rw [← hsplit before p later heq] at hr
    obtain ⟨before', later', heq'⟩ := List.append_of_mem hq
    have hseen' := q.onListings_seen conv (start.work.listings.run conv before') u s'
    rw [if_pos hupserts] at hseen'
    rw [heq'] at htimes
    have hlater := (List.pairwise_cons.mp (List.pairwise_append.mp htimes).2.1).1
    obtain ⟨r', hr', hlast⟩ := kept_time conv hlater hseen' le_rfl
    rw [← hsplit before' q later' heq', hr] at hr'
    cases hr'
    by_contra hlate
    exact helse ⟨s', r, hs', hr, hgen, (not_lt.mp hlate).trans hlast⟩

end Runs

/-! ## A search during a sweep -/

/-- Listings that are their URL, without claims. -/
def plain : Conversions PyStr where
  fieldsFromItem url := ⟨⟨none, none, none, none, none, false, false⟩, url, none⟩
  claimsFromItem _ _ := []
  rowHash _ _ := []
  paytoEqual a b _ := a == b
  ftsOk := true
  coldSweepS := 64800

def listing : PyStr := "https://a.example"

/-- A listing that the second sweep of its source misses, and a search finds meanwhile. -/
def searched : List (Call PyStr) :=
  [.beginSweep sourceCdp (some 100) 100,
    .ingestPage sourceCdp [listing] ⟨0, true, none, none⟩ (some 100) 100,
    .beginSweep sourceCdp (some 200) 200,
    .upsertItems [listing] sourceCdp none (some 300) 300]

/-- The end of that sweep. -/
def ended : Call PyStr := .completeSweep sourceCdp (some 400) 400

theorem searched_timely : (searched ++ [ended]).Pairwise fun a b => a.time ≤ b.time := by
  decide

theorem searched_active : (runCalls plain searched start).work.status listing = some .active := by
  decide +kernel

theorem searched_retired :
    (ended.after plain (runCalls plain searched start)).work.status listing = some .retired := by
  decide +kernel

/-- What `completed_sweep_retires` says of this run. -/
theorem completed_sweep_retires_searched : ∃ s, ended.Completes s ∧
    ∀ s', s' ≠ s → (∃ p ∈ searched ++ [ended], p.Upserts plain s' listing ∧
        (p.isPage ∨ p.generation.isSome)) →
      ∀ q ∈ searched ++ [ended], q.Upserts plain s' listing →
        q.time < ended.time - plain.coldSweepS := by
  obtain ⟨s, hcompletes, -, helse⟩ :=
    (completed_sweep_retires plain searched ended searched_timely).1 listing searched_active
      searched_retired
  exact ⟨s, hcompletes, helse⟩

/-- A listing that was upserted from the source of a sweep after the sweep began is
retired by its end. -/
theorem retires_searched : ¬∀ (calls : List (Call PyStr)) (c : Call PyStr),
    ((calls ++ [c]).Pairwise fun a b => a.time ≤ b.time) → ∀ u,
      (runCalls plain calls start).work.status u = some .active →
      (c.after plain (runCalls plain calls start)).work.status u = some .retired →
      ∃ s, c.Completes s ∧
        (∀ before p later, calls ++ [c] = before ++ p :: later → p.Upserts plain s u →
          ∃ b ∈ later, b.Begins s) ∧
        ∀ s', s' ≠ s → ∀ q ∈ calls ++ [c], q.Upserts plain s' u →
          q.time < c.time - plain.coldSweepS := by
  intro h
  obtain ⟨s, hcompletes, hsince, -⟩ :=
    h searched ended searched_timely listing searched_active searched_retired
  have hs : sourceCdp.strip = s := hcompletes.1
  subst hs
  obtain ⟨b, hb, hbegins⟩ := hsince (searched.take 3)
    (.upsertItems [listing] sourceCdp none (some 300) 300) [ended] rfl
    ⟨by decide +kernel, by decide +kernel⟩
  rw [List.mem_singleton.mp hb] at hbegins
  exact hbegins

end Signal402.Shadow
