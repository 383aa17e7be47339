import Signal402.Base.Url
import Signal402.Catalog.Shadow

/-!
# One page of a catalog

A sweep reads the catalog of a source page by page.  A page is fetched, its
listings are slimmed and upserted, and whether it was the last one is read off
what came back.

* `fetchCatalogPayload` — the request, its redirects and the limit on its body.
* `parsePagination` — what a page says about itself.
* `ingestOnePage` — one step of a sweep.

The transport is a parameter of each call; `Outside` holds what is the same for
all of them.
-/

namespace Signal402.Shadow

open Session (execute update select commit)

/-- `PAGE_SIZE`. -/
def pageSize : ℕ := 100

/-- `PAGE_READ_LIMIT`. -/
def pageReadLimit : ℕ := 1048576

/-- `CATALOGS`. -/
def catalogs : List (PyStr × PyStr) :=
  [("base", "https://api.cdp.coinbase.com/platform/v2/x402/discovery/resources"),
    ("solana", "https://facilitator.payai.network/discovery/resources"),
    ("algorand", "https://facilitator.goplausible.xyz/discovery/resources")]

/-- `_DROP_QUERY`. -/
def dropQuery : List PyStr :=
  ["limit", "offset", "page", "cursor", "query", "network", "urlsubstring"]

/-- `rail_for_source`. -/
def railForSource (py : Interp) (source : PyStr) : PyStr :=
  let name := py.uni.lower (PyStr.strip source)
  if name = sourceCdp then "base"
  else if name = sourcePayai then "solana"
  else if name = sourceGoplausible then "algorand"
  else "base"

/-- What a call works with besides the database and the network: the interpreter, the
decoding of a body, the slimming of a listing and the mode of the process. -/
structure Outside (Item : Type) where
  py : Interp
  url : UrlLib
  loads : Bytes → Except PyError Json
  slimItem : Dict → PyStr → Except PyError Item
  fixtureMode : Bool
  conv : Conversions Item

/-- One exchange with a server.  A redirect holds the URL that `urllib` takes from it and
that of the next request, if it makes one. -/
inductive Exchange
  | failed (e : PyError)
  | redirect (newurl : PyStr) (next : Option PyStr)
  | answered (final : PyStr) (body : Bytes)

variable {Item : Type} (out : Outside Item)

/-! ## The request -/

/-- `CATALOG_HOSTS`. -/
def catalogHosts : Except PyError (List PyStr) :=
  (catalogs.mapM fun c => out.url.urlparse c.2).map fun ps =>
    ps.map fun p => out.py.uni.lower (p.hostname.getD [])

/-- `catalog_url_allowed`. -/
def catalogUrlAllowed (url : PyStr) : Except PyError Bool :=
  (out.url.urlparse url.strip).bind fun parsed =>
    if parsed.scheme ≠ "https" ∨ parsed.netloc = [] then .ok false
    else if parsed.hasCredentials then .ok false
    else (catalogHosts out).map fun hosts =>
      !(parsed.host out.py).isEmpty && hosts.contains (parsed.host out.py)

/-- `page_url`. -/
def pageUrl (base : PyStr) (limit offset : ℤ) : Except PyError (Option PyStr) :=
  (catalogUrlAllowed out base.strip).bind fun allowed =>
    if !allowed then .ok none
    else if limit < 1 ∨ offset < 0 then .ok none
    else (out.url.urlparse base.strip).bind fun parsed =>
      let query := (out.url.parseQsl parsed.query).filter fun kv =>
        !dropQuery.contains (out.py.uni.lower kv.1)
      let paging : List (PyStr × PyStr) := [("limit", intText limit), ("offset", intText offset)]
      let built := out.url.urlunparse { parsed with query := out.url.urlencode (query ++ paging) }
      (catalogUrlAllowed out built).map fun allowed => if allowed then some built else none

/-- `ProbeBlocked`. -/
def probeBlocked (msg : String) : PyError := ⟨.exception, msg⟩

/-- The opener with `_CatalogRedirectHandler`, which may still follow `hops` redirects. -/
def openCatalog (net : PyStr → Exchange) : ℕ → PyStr → Except PyError (PyStr × Bytes)
  | hops, url =>
      match net url with
      | .failed e => .error e
      | .answered final body => .ok (final, body)
      | .redirect newurl next =>
          match hops with
          | 0 => .error (probeBlocked "too many catalog redirects")
          | hops + 1 =>
              ((out.url.urljoin url newurl).bind fun joined => catalogUrlAllowed out joined).bind
                fun allowed =>
                  if !allowed then .error (probeBlocked "catalog redirect not allowlisted")
                  else
                    match next with
                    | none => .error (probeBlocked "catalog redirect blocked")
                    | some next => openCatalog net hops next

/-- `_fetch_catalog_payload`. -/
def fetchCatalogPayload (net : PyStr → Exchange) (url : PyStr) (readLimit : ℕ) :
    Except PyError Json :=
  (catalogUrlAllowed out url).bind fun allowed =>
    if !allowed then .ok (.obj [])
    else if readLimit < 1 then .ok (.obj [])
    else
      (openCatalog out net 2 url).bind fun reply =>
        (if reply.1 = [] then .ok true else catalogUrlAllowed out reply.1).bind fun allowed =>
          if !allowed then .ok (.obj [])
          else if readLimit < (reply.2.take (readLimit + 1)).length then .ok (.obj [])
          else out.loads (reply.2.take (readLimit + 1))

/-! ## What a page says -/

/-- `_items_from_payload`. -/
def itemsFromPayload (payload : Json) : List Dict :=
  let raw := match payload with
    | .arr _ => payload
    | .obj d => (Dict.get d "items").or ((Dict.get d "resources").or (.arr []))
    | _ => .arr []
  match raw with
  | .arr items => items.filterMap Json.asObj?
  | _ => []

/-- `_nonneg_int`. -/
def nonnegInt (py : Interp) : Json → Except PyError (Option ℤ)
  | .int n => .ok (if 0 ≤ n then some n else none)
  | .float x => if PyFloat.zero.le x then x.toInt.map some else .ok none
  | .str s => if py.isDigit s.strip then (py.int s.strip).map some else .ok none
  | _ => .ok none

/-- What `parse_pagination` returns. -/
structure Pagination where
  limit : Option ℤ
  offset : Option ℤ
  total : Option ℤ
  hasPagination : Bool
  last : Bool

/-- Whether a page of `n` listings with these fields is the last one. -/
def lastPage (limit offset total : Option ℤ) (n : ℕ) : Bool :=
  if n = 0 then true
  else match total with
    | some total => decide (total ≤ offset.getD 0 + n)
    | none => match limit with
      | some limit => decide ((n : ℤ) < limit)
      | none => false

/-- `parse_pagination`. -/
def parsePagination (py : Interp) (payload : Json) (requestedLimit : ℤ) :
    Except PyError Pagination :=
  let n := (itemsFromPayload payload).length
  match payload.asObj?.bind fun d => (Dict.get d "pagination").asObj? with
  | some pag =>
      (nonnegInt py (Dict.get pag "limit")).bind fun limit =>
        (nonnegInt py (Dict.get pag "offset")).bind fun offset =>
          (nonnegInt py (Dict.get pag "total")).map fun total =>
            ⟨limit, offset, total, true, lastPage limit offset total n⟩
  | none => .ok ⟨none, none, none, false, decide ((n : ℤ) < requestedLimit)⟩

/-- `_step_offset`. -/
def stepOffset (pag : Pagination) (n : ℕ) : ℤ :=
  match pag.limit with
  | some step => if 0 < step then step else n
  | none => n

/-! ## One step of a sweep -/

/-- What `ingest_one_page` does after its fetch. -/
inductive Fetched (Item : Type)
  | failed (error : String)
  | page (items : List Item) (page : Page)

/-- The arguments of `ingest_page` for the payload of a page. -/
def readPage (rail : PyStr) (offset : ℤ) (payload : Json) : Except PyError (List Item × Page) :=
  (parsePagination out.py payload pageSize).bind fun pag =>
    (((itemsFromPayload payload).take pageSize).mapM fun raw => out.slimItem raw rail).map
      fun slimmed =>
        let n := slimmed.length
        let step := stepOffset pag n
        let reached := match pag.total with
          | some total => decide (total ≤ offset + max step n)
          | none => false
        (slimmed, ⟨offset, pag.last || reached || decide (n = 0), pag.total,
          some (if step = 0 then n else step)⟩)

/-- The fetch of a page. -/
def fetchPage (rail base : PyStr) (net : PyStr → Exchange) (offset : ℤ) :
    Except PyError (Fetched Item) :=
  (pageUrl out base pageSize offset).bind fun url =>
    match url with
    | none => .ok (.failed "not_allowlisted")
    | some url =>
        match fetchCatalogPayload out net url pageReadLimit with
        | .error _ => .ok (.failed "fetch_failed")
        | .ok payload => (readPage out rail offset payload).map fun p => .page p.1 p.2

/-- The state of the source, after a sweep was begun when none was going on. -/
def sweepState (source : PyStr) (begun : ℤ) : Code SourceState := do
  let state ← select fun c => c.sourceState source
  if state.sweepStartedAt.isNone then do
    let _ ← beginSweep source none begun
    select fun c => c.sourceState source
  else pure state

/-- What `ingest_one_page` returns. -/
inductive PageResult
  | skipped
  | failed (error : String)
  | ingested (page : Ingested)

/-- `result["complete"]`. -/
def PageResult.complete : PageResult → Bool
  | .ingested page => page.complete
  | _ => false

/-- The page that was fetched goes to the database. -/
def storePage (source : PyStr) (now : ℤ) (fetched : Except PyError (Fetched Item)) :
    Code (Except PyError PageResult) :=
  match fetched with
  | .error e => pure (.error e)
  | .ok (.failed error) => pure (.ok (.failed error))
  | .ok (.page items page) => do
      let result ← ingestPage out.conv source items page none now
      pure (.ok (match result with
        | .error error => .failed error
        | .ok page => .ingested page))

/-- The base URL of the catalog of a source. -/
def catalogBase (source : PyStr) : PyStr :=
  ((catalogs.find? fun c => c.1 = railForSource out.py source).map (·.2)).getD []

/-- `ingest_one_page`; `begun` and `now` are the clock when a sweep begins and when a page
is stored. -/
def ingestOnePage (source : PyStr) (net : PyStr → Exchange) (begun now : ℤ) :
    Code (Except PyError PageResult) :=
  if out.fixtureMode then pure (.ok .skipped)
  else if source.strip ∉ sources then pure (.ok (.failed "unknown_source"))
  else
    match if catalogBase out source.strip = [] then .ok false
      else catalogUrlAllowed out (catalogBase out source.strip) with
    | .error e => pure (.error e)
    | .ok false => pure (.ok (.failed "not_allowlisted"))
    | .ok true => do
        let state ← sweepState source.strip begun
        let offset := if state.cursor < 0 then 0 else state.cursor
        storePage out source.strip now
          (fetchPage out (railForSource out.py source.strip) (catalogBase out source.strip) net offset)

end Signal402.Shadow
