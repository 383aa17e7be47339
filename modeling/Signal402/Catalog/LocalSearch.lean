import Signal402.Lib.CmpSort
import Signal402.Lib.Scan
import Signal402.Catalog.Ingest
import Signal402.Catalog.Listings
import Mathlib.Data.Prod.Lex

/-!
# The search of the catalog (`shadow.py`)

`fts_search` lists what the catalog has for a need.  The database returns at most three times as
many rows as are wanted, and the rail of a row is looked at after that.

* `matching` — all rows that match a need, the one that was seen last first.
* `fts_search_scanned` — the result is the front of the listings on a requested rail among the
  rows that are returned; it is the front of all such listings exactly when the rows hold enough
  of them or nothing of them is left out.

The full-text match is a parameter, and so is the order of rows that were seen at the same time.
-/

namespace Signal402.Shadow

/-! ## The need -/

/-- `FTS_LIMIT`. -/
def ftsLimit : ℤ := 20

/-- `STOP` of `probe`. -/
def stopWords : List PyStr :=
  ["a", "an", "the", "of", "for", "to", "and", "or", "in", "on", "via", "any", "with", "from",
    "by", "at", "is", "it", "as", "be", "this", "that", "api", "http", "https", "www", "com",
    "get", "post"]

/-- `[A-Za-z0-9_]`. -/
def isTokenChar (ch : CodePoint) : Bool :=
  PyStr.isAlphaChar ch || PyStr.isDigitChar ch || ch.val == 0x5F

/-- `_FTS_TOKEN.findall`: the runs of at least two such characters. -/
def ftsTokens (text : PyStr) : List PyStr :=
  (text.splitOnP fun ch => !isTokenChar ch).filter fun token => 2 ≤ token.length

/-- `" ".join(text.split())`. -/
def collapse (text : PyStr) : PyStr :=
  List.intercalate " " ((text.splitOnP PyStr.isSpace).filter fun word => !word.isEmpty)

/-- The tokens that are searched for. -/
def searchTokens (need : PyStr) : List PyStr :=
  (ftsTokens need).filter fun token => !stopWords.contains (PyStr.lower token)

/-- `_fts_match`.  A token has no quotes to remove. -/
def ftsMatch (need : PyStr) : PyStr :=
  List.intercalate " OR " (((searchTokens need).take 8).map fun token => "\"" ++ token ++ "\"")

/-! ## The queries -/

section Queries

-- `fullText` is the full-text match of the database, `tie` its order of rows last seen at the
-- same time
variable (ftsOk : Bool) (fullText : PyStr → FtsRow → Bool) (tie : Resource → ℕ) (c : Catalog)

/-- `ORDER BY last_seen DESC`. -/
def lastSeenFirst (rows : List Resource) : List Resource :=
  CmpSort.keySort (fun r => toLex (-r.lastSeen, tie r)) rows

/-- The full-text query, without its limit. -/
def ftsRows (expr : PyStr) (includeRetired : Bool) : List Resource :=
  lastSeenFirst tie (c.resources.filter fun r =>
    (c.resourceFts.any fun f => f.rowid == r.id && fullText expr f) &&
      (includeRetired || r.status = .active))

/-- `LOWER(text) LIKE '%needle%'`; a needle has letters and digits only. -/
def likeText (needle text : PyStr) : Bool := PyStr.hasInfix (PyStr.lower text) needle

/-- The needle of a token, which has no `%`. -/
def likeNeedle (token : PyStr) : PyStr := (PyStr.lower token).filter fun ch => ch.val ≠ 0x5F

/-- The columns that `LIKE` looks at. -/
def Resource.likeColumns (r : Resource) : List PyStr :=
  [orEmpty r.about.serviceName, orEmpty r.about.description, orEmpty r.about.tags,
    orEmpty r.about.capability, r.canonicalUrl]

/-- The query of `_like_ids`, without its limit.  It is not made without tokens. -/
def likeRows (need : PyStr) : List Resource :=
  lastSeenFirst tie (c.resources.filter fun r => r.status = .active &&
    ((searchTokens need).take 4).any fun token => r.likeColumns.any (likeText (likeNeedle token)))

/-- The ids of `fts_search`: those of `LIKE`, where the full-text search finds none. -/
def searchIds (need : PyStr) (includeRetired : Bool) (limit : ℕ) : List ℕ :=
  let ids := if ftsOk && !(ftsMatch need).isEmpty then
      ((ftsRows fullText tie c (ftsMatch need) includeRetired).take limit).map Resource.id
    else []
  if ids.isEmpty then ((likeRows tie c need).take limit).map Resource.id else ids

/-- All rows that match a need, by the full-text search, or by `LIKE` where that finds none. -/
def matching (need : PyStr) (includeRetired : Bool) : List Resource :=
  if ftsOk && !(ftsMatch need).isEmpty &&
      !(ftsRows fullText tie c (ftsMatch need) includeRetired).isEmpty then
    ftsRows fullText tie c (ftsMatch need) includeRetired
  else likeRows tie c need

end Queries

/-! ## Items -/

/-- A string, or nothing if it is empty. -/
def filled (x : Option PyStr) : Option PyStr := x.filter fun text => !text.isEmpty

/-- A payment that an item accepts; the facilitator is the one of `extra`. -/
structure Accept where
  network : Option PyStr
  asset : Option PyStr
  amount : Option PyStr
  payTo : Option PyStr
  facilitator : Option PyStr
  deriving DecidableEq

def acceptOf (claim : Claim) : Accept :=
  ⟨filled claim.network, filled claim.asset, claim.amountAtomic, filled claim.payTo,
    filled claim.facilitator⟩

/-- The times of `_clocks`. -/
structure Clocks where
  discovery : ℤ
  claim : ℤ
  verification : Option ℤ
  deriving DecidableEq

/-- What `_reconstruct` returns.  Without accepted payments there is no `accepts`. -/
structure LocalItem where
  url : PyStr
  serviceName : Option PyStr
  description : Option PyStr
  capability : PyStr
  capabilitySource : PyStr
  tags : List PyStr
  inputSchemaPresent : Bool
  outputSchemaPresent : Bool
  primary : PyStr
  rails : List PyStr
  accepts : List Accept
  alsoOn : Option (List PyStr)
  clocks : Clocks
  deriving DecidableEq

/-- Rails in the order in which they come first. -/
def addRails (rails : List PyStr) : List PyStr → List PyStr
  | [] => rails
  | rail :: rest => addRails (if rails.contains rail then rails else rails ++ [rail]) rest

section Items

variable (py : Interp) (c : Catalog)

/-- The claims of a listing, from all sources. -/
def claimsFor (resourceId : ℕ) : List Claim :=
  (c.acceptClaims.filter fun row => row.resourceId = resourceId).map (·.claim)

/-- The rails of the claims of a listing, or else those of its sources. -/
def railsFor (resourceId : ℕ) : List PyStr :=
  let claimed := addRails [] ((claimsFor c resourceId).filterMap fun claim => filled claim.rail)
  if claimed.isEmpty then
    addRails [] ((c.resourceSources.filter fun row => row.resourceId = resourceId).map fun row =>
      railForSource py row.source)
  else claimed

/-- The item of a row. -/
def itemOf (r : Resource) : LocalItem :=
  let rails := railsFor py c r.id
  let primary := rails.headD "base"
  { url := r.canonicalUrl
    serviceName := r.about.serviceName
    description := r.about.description
    capability := (filled r.about.capability).getD "unknown"
    capabilitySource := "shadow"
    tags := ((orEmpty r.about.tags).splitOnP PyStr.isSpace).filter fun tag => !tag.isEmpty
    inputSchemaPresent := r.about.inputSchemaPresent
    outputSchemaPresent := r.about.outputSchemaPresent
    primary := primary
    rails := if rails.isEmpty then [primary] else rails
    accepts := ((claimsFor c r.id).map acceptOf).filter (· ≠ ⟨none, none, none, none, none⟩)
    alsoOn := if 1 < rails.length then some (rails.filter (· ≠ primary)) else none
    clocks := ⟨r.lastSeen, r.lastFetched, r.lastVerified⟩ }

/-- `_reconstruct`. -/
def reconstruct (resourceId : ℕ) : Option LocalItem :=
  (Table.lookup Resource.id c.resources resourceId).map (itemOf py c)

/-! ## The search -/

/-- `want`: the requested rails, if there are any. -/
def wantedRails (rails : List PyStr) : List PyStr :=
  (rails.map PyStr.strip).filter fun rail => !rail.isEmpty

/-- The item is on a requested rail, or no rail is requested. -/
def onRail (want : List PyStr) (item : LocalItem) : Bool :=
  want.isEmpty || item.rails.any want.contains

/-- The loop over the ids. -/
def collect (want : List PyStr) (cap : ℕ) : List ℕ → List PyStr → List LocalItem → List LocalItem
  | [], _, items => items
  | rid :: rest, seen, items =>
      match reconstruct py c rid with
      | none => collect want cap rest seen items
      | some item =>
          if item.url = [] ∨ seen.contains item.url then collect want cap rest seen items
          else if onRail want item then
            if cap ≤ (items ++ [item]).length then items ++ [item]
            else collect want cap rest (item.url :: seen) (items ++ [item])
          else collect want cap rest seen items

/-- `cap`. -/
def searchCap (limit : ℤ) : ℕ := (min (max limit 1) ftsLimit).toNat

/-- `fts_search`.  No `rails` is an empty list of them. -/
def ftsSearch (ftsOk : Bool) (fullText : PyStr → FtsRow → Bool) (tie : Resource → ℕ)
    (need : PyStr) (rails : List PyStr) (limit : ℤ) (includeRetired : Bool) : List LocalItem :=
  let q := collapse need
  if q.isEmpty then []
  else
    collect py c (wantedRails rails) (searchCap limit)
      (searchIds ftsOk fullText tie c q includeRetired (searchCap limit * 3)) [] []

end Items

/-! ## All listings for a need -/

section Found

variable {py : Interp} {c : Catalog} {ftsOk : Bool} {fullText : PyStr → FtsRow → Bool}
  {tie : Resource → ℕ}

/-- The items of all rows that match a need. -/
def found (py : Interp) (c : Catalog) (ftsOk : Bool) (fullText : PyStr → FtsRow → Bool)
    (tie : Resource → ℕ) (need : PyStr) (includeRetired : Bool) : List LocalItem :=
  (matching ftsOk fullText tie c (collapse need) includeRetired).map (itemOf py c)

/-- An item with a URL, on a requested rail. -/
def offered (want : List PyStr) (item : LocalItem) : Bool := !item.url.isEmpty && onRail want item

theorem matching_subset (need : PyStr) (includeRetired : Bool) {r : Resource}
    (hr : r ∈ matching ftsOk fullText tie c need includeRetired) : r ∈ c.resources := by
  rw [matching] at hr
  split at hr
  · exact List.mem_of_mem_filter ((CmpSort.keySort_perm _ _).mem_iff.mp hr)
  · exact List.mem_of_mem_filter ((CmpSort.keySort_perm _ _).mem_iff.mp hr)

/-- A query keeps the URLs apart. -/
theorem nodup_matching (hurls : Table.Unique Resource.canonicalUrl c.resources) (need : PyStr)
    (includeRetired : Bool) :
    ((matching ftsOk fullText tie c need includeRetired).map Resource.canonicalUrl).Nodup := by
  have hsorted : ∀ p : Resource → Bool,
      ((lastSeenFirst tie (c.resources.filter p)).map Resource.canonicalUrl).Nodup := by
    intro p
    rw [lastSeenFirst, ((CmpSort.keySort_perm _ _).map Resource.canonicalUrl).nodup_iff]
    exact hurls.filter p
  rw [matching]
  split
  · exact hsorted _
  · exact hsorted _

/-- The ids are those of the first matching rows. -/
theorem searchIds_eq {need : PyStr} {includeRetired : Bool} {limit : ℕ} (hlimit : 0 < limit) :
    searchIds ftsOk fullText tie c need includeRetired limit =
      ((matching ftsOk fullText tie c need includeRetired).take limit).map Resource.id := by
  rw [searchIds, matching]
  generalize ftsRows fullText tie c (ftsMatch need) includeRetired = rows
  cases hasked : ftsOk && !(ftsMatch need).isEmpty with
  | false => simp
  | true =>
      cases rows with
      | nil => simp
      | cons r rest =>
          obtain ⟨n, rfl⟩ : ∃ n, limit = n + 1 := ⟨limit - 1, by omega⟩
          simp

theorem reconstruct_row (hids : Table.Unique Resource.id c.resources) {r : Resource}
    (hr : r ∈ c.resources) : reconstruct py c r.id = some (itemOf py c r) := by
  rw [reconstruct, hids.lookup_of_mem hr, Option.map_some]

/-- The loop lists the items that are offered, each URL once, until the result is full. -/
theorem collect_eq (hids : Table.Unique Resource.id c.resources) (want : List PyStr) {cap : ℕ}
    {rows : List Resource} (hrows : ∀ r ∈ rows, r ∈ c.resources) (seen : List PyStr)
    {items : List LocalItem} (hroom : items.length < cap) :
    collect py c want cap (rows.map Resource.id) seen items =
      items ++ (Scan.fresh LocalItem.url seen ((rows.map (itemOf py c)).filter (offered want))).take
        (cap - items.length) := by
  induction rows generalizing seen items with
  | nil => simp [collect, Scan.fresh]
  | cons r rest ih =>
      have hrest := fun r' hr' => hrows r' (List.mem_cons_of_mem r hr')
      rw [List.map_cons, collect, reconstruct_row hids (hrows r List.mem_cons_self), List.map_cons]
      generalize itemOf py c r = item
      dsimp only
      by_cases hurl : item.url = []
      · rw [if_pos (.inl hurl), ih hrest seen hroom, List.filter_cons_of_neg (by simp [offered, hurl])]
      by_cases hrail : onRail want item = true
      · rw [List.filter_cons_of_pos (by simp [offered, hurl, hrail]), Scan.fresh]
        by_cases hseen : item.url ∈ seen
        · rw [if_pos (.inr (List.contains_iff_mem.mpr hseen)), if_pos hseen, ih hrest seen hroom]
        · obtain ⟨n, hn⟩ : ∃ n, cap - items.length = n + 1 := ⟨cap - items.length - 1, by omega⟩
          rw [if_neg (by simp [hurl, hseen]), if_pos hrail, if_neg hseen, hn, List.take_succ_cons,
            List.length_append, List.length_singleton]
          by_cases hfull : cap ≤ items.length + 1
          · rw [if_pos hfull, show n = 0 by omega, List.take_zero]
          · have hlonger : (items ++ [item]).length < cap := by
              rw [List.length_append, List.length_singleton]
              omega
            rw [if_neg hfull, ih hrest (item.url :: seen) hlonger, List.append_assoc,
              List.singleton_append, List.length_append, List.length_singleton,
              show cap - (items.length + 1) = n by omega]
      · rw [List.filter_cons_of_neg (by simp [offered, hrail]), if_neg hrail, ih hrest seen hroom,
          ite_self]

/-- Nothing matches an empty need. -/
theorem matching_nil (includeRetired : Bool) :
    matching ftsOk fullText tie c [] includeRetired = [] := by
  have htokens : searchTokens [] = [] := rfl
  have hnone : likeRows tie c [] = [] := by
    rw [likeRows, htokens]
    simp [lastSeenFirst, CmpSort.keySort]
  have hempty : (ftsMatch []).isEmpty = true := rfl
  rw [matching, hempty, hnone]
  simp

/-- The items of the rows that are read have different URLs. -/
theorem nodup_found (hurls : Table.Unique Resource.canonicalUrl c.resources) (need : PyStr)
    (includeRetired : Bool) :
    ((found py c ftsOk fullText tie need includeRetired).map LocalItem.url).Nodup := by
  rw [found, List.map_map]
  exact nodup_matching hurls (collapse need) includeRetired

theorem searchCap_pos (limit : ℤ) : 0 < searchCap limit := by
  rw [searchCap, ftsLimit]
  omega

/-- The search lists the first listings on a requested rail among the first matching rows,
three times as many as are wanted.  These are the first of all such listings exactly when the
rows hold as many as are wanted or none is left out. -/
theorem fts_search_scanned (hurls : Table.Unique Resource.canonicalUrl c.resources)
    (hids : Table.Unique Resource.id c.resources) (need : PyStr) (rails : List PyStr) (limit : ℤ)
    (includeRetired : Bool) :
    let all := found py c ftsOk fullText tie need includeRetired
    let onRails := List.filter (offered (wantedRails rails))
    let result := ftsSearch py c ftsOk fullText tie need rails limit includeRetired
    result = (onRails (all.take (searchCap limit * 3))).take (searchCap limit) ∧
      (result = (onRails all).take (searchCap limit) ↔
        searchCap limit ≤ (onRails (all.take (searchCap limit * 3))).length ∨
          ∀ item ∈ all.drop (searchCap limit * 3), offered (wantedRails rails) item = false) := by
  intro all onRails result
  have hcap := searchCap_pos limit
  have hresult : result = (onRails (all.take (searchCap limit * 3))).take (searchCap limit) := by
    show ftsSearch py c ftsOk fullText tie need rails limit includeRetired = _
    rw [ftsSearch]
    split
    · rename_i hblank
      have hall : all = [] := by
        show (matching ftsOk fullText tie c (collapse need) includeRetired).map _ = []
        rw [List.isEmpty_iff.mp hblank, matching_nil, List.map_nil]
      rw [hall]
      simp [onRails]
    · have hpart : (onRails (all.take (searchCap limit * 3))).Sublist all :=
        List.filter_sublist.trans (List.take_sublist _ _)
      have hread : ((onRails (all.take (searchCap limit * 3))).map LocalItem.url).Nodup :=
        (hpart.map LocalItem.url).nodup (nodup_found hurls need includeRetired)
      rw [searchIds_eq (by omega),
        collect_eq hids _ (fun r hr => matching_subset _ _ (List.mem_of_mem_take hr)) [] hcap,
        List.nil_append, List.length_nil, Nat.sub_zero, List.map_take]
      show (Scan.fresh LocalItem.url [] (onRails (all.take _))).take _ = _
      rw [Scan.fresh_of_nodup hread]
  refine ⟨hresult, ?_⟩
  rw [hresult]
  exact Scan.take_filter_take_iff

/-- Without a requested rail the bound on the rows hides nothing. -/
theorem fts_search_anyRail (hurls : Table.Unique Resource.canonicalUrl c.resources)
    (hids : Table.Unique Resource.id c.resources) (hurl : ∀ r ∈ c.resources, r.canonicalUrl ≠ [])
    (need : PyStr) (limit : ℤ) (includeRetired : Bool) :
    ftsSearch py c ftsOk fullText tie need [] limit includeRetired =
      (found py c ftsOk fullText tie need includeRetired).take (searchCap limit) := by
  have hall : ∀ item ∈ found py c ftsOk fullText tie need includeRetired,
      offered (wantedRails []) item = true := by
    intro item hitem
    obtain ⟨r, hr, rfl⟩ := List.mem_map.mp hitem
    have hne : (itemOf py c r).url ≠ [] := hurl r (matching_subset _ _ hr)
    simp [offered, onRail, wantedRails, hne]
  obtain ⟨hresult, -⟩ :=
    @fts_search_scanned py c ftsOk fullText tie hurls hids need [] limit includeRetired
  rw [hresult, List.filter_eq_self.mpr fun item hitem => hall item (List.mem_of_mem_take hitem),
    List.take_take, Nat.min_eq_left (by omega)]

end Found

/-! ## Listings of another rail -/

section Sample

/-- An active listing, that was last seen at `lastSeen`. -/
def weatherListing (id : ℕ) (lastSeen : ℤ) : Resource :=
  ⟨id, "https://a.example/" ++ natText id,
    ⟨some "weather", none, none, none, none, false, false⟩, 0, lastSeen, 0, [], .active, none, none,
    none, none, none, none⟩

def weatherFts (id : ℕ) : FtsRow :=
  ⟨id, "weather", [], [], [], "https://a.example/" ++ natText id⟩

/-- A listing on Base, and three listings on Solana that were seen after it. -/
def oneOnBase : Catalog :=
  { Catalog.empty with
    resources := [weatherListing 1 1, weatherListing 2 2, weatherListing 3 3, weatherListing 4 4]
    resourceSources := [⟨1, sourceCdp, none, none, 1⟩, ⟨2, sourcePayai, none, none, 2⟩,
      ⟨3, sourcePayai, none, none, 3⟩, ⟨4, sourcePayai, none, none, 4⟩]
    resourceFts := [1, 2, 3, 4].map weatherFts
    nextResource := 5 }

/-- The match of a row whose name is quoted in the expression. -/
def namesService (expr : PyStr) (row : FtsRow) : Bool :=
  expr.hasInfix ("\"" ++ row.serviceName ++ "\"")

/-- The listings for a need and rails, as one would want them. -/
def wantedFirst (c : Catalog) (need : PyStr) (rails : List PyStr) (limit : ℤ) : List LocalItem :=
  ((found Interp.plain c true namesService Resource.id need false).filter
    (offered (wantedRails rails))).take (min limit ftsLimit).toNat

/-- Two listings on Solana are the first of all. -/
theorem fts_search_scanned_oneOnBase :
    ftsSearch Interp.plain oneOnBase true namesService Resource.id "weather" ["solana"] 2 false =
      ((found Interp.plain oneOnBase true namesService Resource.id "weather" false).filter
        (offered (wantedRails ["solana"]))).take (searchCap 2) := by
  have hurls : Table.Unique Resource.canonicalUrl oneOnBase.resources := by
    unfold Table.Unique
    decide
  have hids : Table.Unique Resource.id oneOnBase.resources := by
    unfold Table.Unique
    decide
  refine (fts_search_scanned hurls hids "weather" ["solana"] 2 false).2.mpr (.inl ?_)
  decide +kernel

/-- The listing on Base is hidden behind those on Solana; and a limit of zero lists one. -/
theorem search_is_not_first_listings :
    ftsSearch Interp.plain oneOnBase true namesService Resource.id "weather" ["base"] 1 false ≠
        wantedFirst oneOnBase "weather" ["base"] 1 ∧
      ftsSearch Interp.plain oneOnBase true namesService Resource.id "weather" ["solana"] 0 false ≠
        wantedFirst oneOnBase "weather" ["solana"] 0 := by
  constructor
  · decide +kernel
  · decide +kernel

end Sample

end Signal402.Shadow
