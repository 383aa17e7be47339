import Signal402.Base.Url
import Signal402.Lib.Dialogue
import Signal402.Probe.Envelope

/-!
# The unpaid probe of a URL (`probe.py`)

`probe_url` with everything under it: the resolution of a host and the filter of its
addresses, the opener with the redirect handler and the connection to a pinned address,
one request, and the GET with its POST fallback.  The network is the environment of a
dialogue: it may answer a question differently each time.

The functions of `urllib` and `ipaddress` are a parameter, `NetLib`.

* `checkedAddrs`, `pinHttpsTarget` — the addresses to pin.
* `openUrl` — the opener, over its redirects.
* `oneRequest`, `probeUrl` — the probe.
-/

namespace Signal402.Probe

/-- `MAX_REDIRECTS`. -/
def maxRedirects : ℕ := 2

/-! ## Addresses -/

/-- What `ipaddress` says about an address. -/
structure IpClass where
  isPrivate : Bool
  isLoopback : Bool
  isLinkLocal : Bool
  isMulticast : Bool
  isReserved : Bool
  isUnspecified : Bool
  isGlobal : Bool

/-- An address: its text, what it is, and what the IPv4 address is that it maps, if it is
an IPv6 address that maps one. -/
structure IpAddr where
  text : PyStr
  cls : IpClass
  mapped : Option IpClass

/-- `_ip_blocked`. -/
def ipBlocked (ip : IpAddr) : Bool :=
  let cls := ip.mapped.getD ip.cls
  cls.isPrivate || cls.isLoopback || cls.isLinkLocal || cls.isMulticast || cls.isReserved ||
    cls.isUnspecified || !cls.isGlobal

/-- `BLOCKED_HOSTS`. -/
def blockedHosts : List PyStr :=
  ["localhost", "localhost.localdomain", "ip6-localhost", "ip6-loopback", "metadata",
    "metadata.google.internal", "metadata.internal", "instance-data"]

/-- The endings of `_host_name_blocked`. -/
def blockedEndings : List PyStr := [".localhost", ".local", ".internal", ".localdomain"]

/-- `_host_name_blocked`. -/
def hostNameBlocked (host : PyStr) : Bool :=
  host.isEmpty || blockedHosts.contains host || blockedEndings.any fun s => s.isSuffixOf host

/-- An address to pin: `(ip, port) + extra`. -/
structure Pinned where
  ip : PyStr
  port : ℕ
  extra : List ℕ
  deriving DecidableEq

/-- The `sockaddr` of one row of `getaddrinfo`: nothing for an empty one, else its address
and what comes after the port. -/
abbrev AddrInfo := Option (PyStr × List ℕ)

/-- What `_getaddrinfo_timed` comes to; `failed` for an `OSError` or a timeout. -/
inductive Resolution
  | failed
  | raised (e : PyError)
  | infos (rows : List AddrInfo)

/-! ## Requests and responses -/

/-- A `urllib` request, with what the probe has put on it. -/
structure Request where
  fullUrl : PyStr
  method : PyStr
  data : Option Bytes
  ssrfHops : ℕ
  pinnedAddrs : List Pinned

structure Response where
  code : ℕ
  headers : List (PyStr × PyStr)
  body : Bytes

/-- Why a request fails: `ProbeBlocked`, an exception whose text or class speaks of a
timeout, or any other. -/
inductive Failure
  | blocked
  | timedOut
  | other
  deriving DecidableEq, Repr

/-- What `socket.create_connection` comes to. -/
inductive Dial
  | connected
  | osError (timedOut : Bool)

/-- What a probe asks of the network, and of the clock. -/
inductive Ask
  | resolve (host : PyStr) (port : ℕ)
  | expired
  | connect (req : Request) (ip : PyStr)
  | exchange (req : Request)
  | foreign (req : Request)

/-- The answers: of `exchange`, what TLS and HTTP on the connection come to; of `foreign`,
what another handler of `urllib` does with the request. -/
abbrev Answer : Ask → Type
  | .resolve _ _ => Resolution
  | .expired => Bool
  | .connect _ _ => Dial
  | .exchange _ => Except Failure Response
  | .foreign _ => Except Failure Response

/-- Code that talks to the network. -/
abbrev Talk := Dialogue Ask Answer

/-- `_getaddrinfo_timed`. -/
def resolve (host : PyStr) (port : ℕ) : Talk Resolution := Dialogue.query (Ask.resolve host port)

/-- `remaining_timeout(deadline) <= 0`. -/
def expired : Talk Bool := Dialogue.query Ask.expired

/-- `socket.create_connection`, for the request. -/
def connect (req : Request) (ip : PyStr) : Talk Dial := Dialogue.query (Ask.connect req ip)

/-- The request and its response, on the connection. -/
def exchange (req : Request) : Talk (Except Failure Response) := Dialogue.query (Ask.exchange req)

/-- The request, with a handler of another scheme. -/
def foreign (req : Request) : Talk (Except Failure Response) := Dialogue.query (Ask.foreign req)

/-- The functions of the standard library: `ip_address`, with nothing for a `ValueError`;
the `Host` that a request to a URL carries; the URL that `http_error_302` passes on to
`redirect_request`, with nothing where it leaves the response as it is; and the interpreter
with the depth of its JSON reader. -/
structure NetLib where
  py : Interp
  url : UrlLib
  ipAddress : PyStr → Option IpAddr
  hostHeader : PyStr → PyStr
  redirectTarget : PyStr → Response → Except Failure (Option PyStr)
  levels : ℕ

variable (net : NetLib)

/-! ## Resolution -/

/-- `_try_ip`. -/
def tryIp (host : PyStr) : Option IpAddr :=
  if host.strip.isEmpty then none else net.ipAddress host.strip

/-- The loop of `_checked_addrs`: every address must be public; one of each is kept. -/
def collectAddrs (port : ℕ) : List PyStr → List AddrInfo → Option (List Pinned)
  | _, [] => some []
  | _, none :: _ => none
  | seen, some (ip, extra) :: rest =>
      match net.ipAddress ip with
      | none => none
      | some addr =>
          if ipBlocked addr then none
          else if seen.contains ip then collectAddrs port seen rest
          else (collectAddrs port (ip :: seen) rest).map fun addrs => ⟨ip, port, extra⟩ :: addrs

/-- `addrs or None`. -/
def nonempty (addrs : List Pinned) : Option (List Pinned) := if addrs.isEmpty then none else some addrs

/-- `_checked_addrs`. -/
def checkedAddrs (host : PyStr) (port : ℕ) : Talk (Except PyError (Option (List Pinned))) :=
  if host.isEmpty then pure (.ok none)
  else if port = 0 ∨ 65535 < port then pure (.ok none)
  else
    match tryIp net host with
    | some literal =>
        if ipBlocked literal then pure (.ok none) else pure (.ok (some [⟨literal.text, port, []⟩]))
    | none =>
        if hostNameBlocked host then pure (.ok none)
        else do
          match ← resolve host port with
          | .failed => pure (.ok none)
          | .raised e => pure (.error e)
          | .infos rows => pure (.ok ((collectAddrs net port [] rows).bind nonempty))

/-- `pinned_addrs if pinned_addrs else _checked_addrs(host, port)`. -/
def pinnedOr (host : PyStr) (port : ℕ) (pinned : List Pinned) :
    Talk (Except PyError (Option (List Pinned))) :=
  if pinned.isEmpty then checkedAddrs net host port else pure (.ok (some pinned))

/-- `url_port`. -/
def urlPort (parsed : ParsedUrl) : Option ℕ :=
  match parsed.port with
  | .error _ => none
  | .ok none => some 443
  | .ok (some port) => if port < 1 ∨ 65535 < port then none else some port

/-- `_pin_https_target`. -/
def pinHttpsTarget (url : PyStr) : Talk (Except PyError (Option (PyStr × List Pinned))) :=
  let raw := url.strip
  if raw.isEmpty then pure (.ok none)
  else
    match net.url.urlparse raw with
    | .error e => pure (.error e)
    | .ok parsed =>
        let host := parsed.host net.py
        if parsed.scheme ≠ "https" ∨ parsed.netloc = [] ∨ parsed.hasCredentials then pure (.ok none)
        else if host.isEmpty || hostNameBlocked host then pure (.ok none)
        else
          match urlPort parsed with
          | none => pure (.ok none)
          | some port => do
              let addrs ← checkedAddrs net host port
              pure (addrs.map fun found => found.map fun addrs => (raw, addrs))

/-! ## The opener -/

/-- The loop of `_PinnedHTTPSConnection.connect`. -/
def dial (req : Request) : List Pinned → Option Failure → Talk (Except Failure Unit)
  | [], lastErr => pure (.error (lastErr.getD .blocked))
  | addr :: rest, _ => do
      match ← connect req addr.ip with
      | .connected => pure (.ok ())
      | .osError timedOut => dial req rest (some (if timedOut then .timedOut else .other))

/-- `existing.split(":")[0].strip("[]").lower()`. -/
def headerHost (existing : PyStr) : PyStr :=
  let bracket : CodePoint → Bool := fun c => c = .ofChar '[' || c = .ofChar ']'
  net.py.uni.lower ((((PyStr.beforeFirst (.ofChar ':') existing).dropWhile bracket).reverse.dropWhile
    bracket).reverse)

/-- `_PinnedHTTPSHandler.https_open`. -/
def httpsOpen (req : Request) : Talk (Except Failure Response) :=
  match net.url.urlparse req.fullUrl with
  | .error _ => pure (.error .other)
  | .ok parsed =>
      let hostname := parsed.host net.py
      if hostname.isEmpty then pure (.error .blocked)
      else
        match urlPort parsed with
        | none => pure (.error .blocked)
        | some port => do
            match ← pinnedOr net hostname port req.pinnedAddrs with
            | .error _ => pure (.error .other)
            | .ok none => pure (.error .blocked)
            | .ok (some addrs) =>
                let existing := net.hostHeader req.fullUrl
                if !existing.isEmpty && headerHost net existing != hostname then
                  pure (.error .blocked)
                else do
                  match ← dial req addrs none with
                  | .error e => pure (.error e)
                  | .ok () => exchange req

/-- What `redirect_request` comes to when it does not fail: the next request, or the
response as it is. -/
inductive Redirect
  | follow (next : Request)
  | stay

/-- `newurl.replace(" ", "%20")`. -/
def escapeSpaces (url : PyStr) : PyStr :=
  url.flatMap fun c => if c = .ofChar ' ' then ("%20" : PyStr) else [c]

/-- Whether `urllib` follows a redirect of this code. -/
def follows (code : ℕ) (method : PyStr) : Bool :=
  ([301, 302, 303, 307, 308].contains code && (method == "GET" || method == "HEAD")) ||
    ([301, 302, 303].contains code && method == "POST")

/-- `_SSRFRedirectHandler.redirect_request`. -/
def redirectRequest (req : Request) (code : ℕ) (newurl : PyStr) :
    Talk (Except Failure Redirect) :=
  if maxRedirects < req.ssrfHops + 1 then pure (.error .blocked)
  else
    match net.url.urljoin req.fullUrl newurl with
    | .error _ => pure (.error .other)
    | .ok joined => do
        match ← pinHttpsTarget net joined with
        | .error _ => pure (.error .other)
        | .ok none => pure (.error .blocked)
        | .ok (some pinned) =>
            if follows code req.method then
              pure (.ok (.follow
                { fullUrl := escapeSpaces newurl
                  method := if req.method = "HEAD" then "HEAD" else "GET"
                  data := none
                  ssrfHops := req.ssrfHops + 1
                  pinnedAddrs := pinned.2 }))
            else pure (.ok .stay)

/-- The handler of the scheme of a request. -/
def openOnce (req : Request) : Talk (Except Failure Response) :=
  match net.url.urlparse req.fullUrl with
  | .error _ => pure (.error .other)
  | .ok parsed =>
      if parsed.scheme = "https" then httpsOpen net req
      else if parsed.scheme = "http" then pure (.error .blocked)
      else foreign req

/-- `opener.open`, for so many requests at most: the response, and the URL it is from. -/
def openUrl : ℕ → Request → Talk (Except Failure (PyStr × Response))
  | 0, _ => pure (.error .blocked)
  | fuel + 1, req => do
      match ← openOnce net req with
      | .error e => pure (.error e)
      | .ok resp =>
          if [301, 302, 303, 307, 308].contains resp.code then
            match net.redirectTarget req.fullUrl resp with
            | .error e => pure (.error e)
            | .ok none => pure (.ok (req.fullUrl, resp))
            | .ok (some newurl) => do
                match ← redirectRequest net req resp.code newurl with
                | .error e => pure (.error e)
                | .ok .stay => pure (.ok (req.fullUrl, resp))
                | .ok (.follow next) => openUrl fuel next
          else pure (.ok (req.fullUrl, resp))

/-! ## The probe -/

/-- What `_one_request` returns, without the binding observation. -/
structure Snap where
  live : Bool
  status : Option ℕ
  has402Challenge : Bool
  payTo : Option PyStr
  missReason : Option Miss
  envelope : Option Dict

/-- A request that saw no response. -/
def Snap.unseen (reason : Miss) : Snap where
  live := false
  status := none
  has402Challenge := false
  payTo := none
  missReason := some reason
  envelope := none

/-- What `_one_request` makes of a response. -/
def readSnap (resp : Response) : Except PyError Snap :=
  let headers := headersMap net.py resp.headers
  (parseEnvelope net.py net.levels (some resp.code) headers resp.body).map fun (envelope, miss) =>
    let live := envelope.isSome && miss.isNone && resp.code == 402
    { live
      status := some resp.code
      has402Challenge := has402Challenge net.py (some resp.code) headers
      payTo := if live then envelope.bind (paytoFromEnvelope net.py) else none
      missReason := if live then none else some (miss.getD (missFromStatus (some resp.code)))
      envelope := if live then envelope else none }

/-- `_one_request`; no pinned addresses stand for `None`. -/
def oneRequest (url method : PyStr) (data : Option Bytes) (pinnedAddrs : List Pinned) :
    Talk (Except PyError Snap) := do
  if ← expired then pure (.ok (.unseen .probeTimeout))
  else
    match net.url.urlparse url with
    | .error e => pure (.error e)
    | .ok parsed =>
        match urlPort parsed with
        | none => pure (.ok (.unseen .ssrf))
        | some port =>
            if parsed.scheme ≠ "https" ∨ parsed.netloc = [] ∨ parsed.hasCredentials then
              pure (.ok (.unseen .ssrf))
            else do
              let host := parsed.host net.py
              match ← pinnedOr net host port pinnedAddrs with
              | .error e => pure (.error e)
              | .ok none => pure (.ok (.unseen .ssrf))
              | .ok (some addrs) =>
                  if host.isEmpty then pure (.ok (.unseen .ssrf))
                  else do
                    let req : Request := ⟨url, method, data, 0, addrs⟩
                    match ← openUrl net (maxRedirects + 1) req with
                    | .error .blocked => pure (.ok (.unseen .ssrf))
                    | .error .timedOut => pure (.ok (.unseen .probeTimeout))
                    | .error .other => pure (.ok (.unseen .no402Envelope))
                    | .ok (_, resp) => pure (readSnap net resp)

/-- What a catalog says of a listing: whether it needs a body, and whether it is to be
asked with POST. -/
structure CatalogSays where
  requiresBody : Bool
  declaresPost : Bool

/-- `_post_empty_justified`. -/
def postEmptyJustified (get : Snap) (item : CatalogSays) : Bool :=
  if get.live then false
  else if get.missReason = some .ssrf ∨ get.missReason = some .probeTimeout then false
  else if get.has402Challenge || get.status == some 402 then false
  else if get.status ≠ some 405 ∧ get.status ≠ some 501 then false
  else if item.requiresBody then false
  else item.declaresPost

/-- `_probe_entry`. -/
structure Entry where
  method : PyStr
  status : Option ℕ
  missReason : Option Miss

def probeEntry (method : PyStr) (snap : Snap) : Entry :=
  ⟨method, snap.status, if snap.live then none else snap.missReason⟩

/-- What `probe_url` reports of a URL. -/
structure Probed where
  url : PyStr
  live : Bool
  status : Option ℕ
  has402Challenge : Bool
  payTo : Option PyStr
  missReason : Option Miss
  probes : List Entry
  envelope : Option Dict

def Probed.ofSnap (url : PyStr) (snap : Snap) (probes : List Entry) : Probed where
  url := url
  live := snap.live
  status := snap.status
  has402Challenge := snap.has402Challenge
  payTo := snap.payTo
  missReason := snap.missReason
  probes := probes
  envelope := snap.envelope

/-- The reason of a probe that is not live. -/
def missOfProbe (get : Snap) (post : Option Snap) (item : CatalogSays) : Miss :=
  if get.missReason = some .ssrf then .ssrf
  else if get.missReason = some .probeTimeout ∧ post.isNone then .probeTimeout
  else if item.requiresBody then .unsafeToProbe
  else if (get.status = some 405 ∨ get.status = some 501) ∧ !(post.elim false Snap.live) then
    .no402Envelope
  else ((post.getD get).missReason).getD .probeTimeout

/-- The end of `probe_url`: the request that is live, and else the last. -/
def conclude (url : PyStr) (get : Snap) (post : Option Snap) (item : CatalogSays) : Probed :=
  let probes := probeEntry "GET" get :: (post.map (probeEntry "POST")).toList
  let winner := if get.live then get else post.getD get
  { url
    live := winner.live
    status := winner.status
    has402Challenge := winner.has402Challenge
    payTo := if winner.live then winner.payTo else none
    missReason := if winner.live then none else some (missOfProbe get post item)
    probes
    envelope := winner.envelope }

/-- The body of the fallback, `b"{}"`. -/
def emptyObject : Bytes := [0x7B, 0x7D]

/-- `probe_url`, outside the fixture mode. -/
def probeUrl (url : PyStr) (item : CatalogSays) : Talk (Except PyError Probed) := do
  if ← expired then
    pure (.ok (.ofSnap url (.unseen .probeTimeout) []))
  else
    match ← pinHttpsTarget net url with
    | .error e => pure (.error e)
    | .ok none => pure (.ok (.ofSnap url (.unseen .ssrf) []))
    | .ok (some (safe, addrs)) => do
        match ← oneRequest net safe "GET" none addrs with
        | .error e => pure (.error e)
        | .ok get =>
            if get.missReason = some .ssrf then
              pure (.ok (.ofSnap safe get [probeEntry "GET" get]))
            else if postEmptyJustified get item then do
              match ← oneRequest net safe "POST" (some emptyObject) addrs with
              | .error e => pure (.error e)
              | .ok post =>
                  -- the fallback follows a 405 or a 501, so a POST that is not live is told as one
                  let post := if post.live then post
                    else { post with missReason := some .no402Envelope }
                  pure (.ok (conclude safe get (some post) item))
            else pure (.ok (conclude safe get none item))

end Signal402.Probe
