import Signal402.Probe.Pin

/-!
# Probes connect only to vetted addresses

`Admits` is what a probe may ask of the network after what it has seen: a connection goes
to an address of a resolution of the host of the URL being requested, every address of
which passed the filter.

* `checkedAddrs_holds`, `pinHttpsTarget_holds` — what the filter establishes.
* `openUrl_holds` — each request of a redirect chain keeps to it.
* `probe_connects_vetted` — so whatever the network answers, every probe does.
-/

namespace Signal402.Probe

/-- What a probe has asked and was answered, the latest first. -/
abbrev Log := List (Dialogue.Exchange Ask Answer)

/-- Whether an exchange is a request. -/
def isRequest (e : Dialogue.Exchange Ask Answer) : Bool :=
  match e.1 with
  | .exchange _ => true
  | _ => false

/-- The number of requests sent. -/
def sent (t : Log) : ℕ := t.countP isRequest

variable (net : NetLib)

/-- A URL that may be requested: `https`, and without credentials. -/
def Requestable (url : PyStr) : Prop :=
  ∃ parsed, net.url.urlparse url = .ok parsed ∧ parsed.scheme = "https" ∧ parsed.netloc ≠ [] ∧
    parsed.hasCredentials = false

/-- The address of a public host: the host is that address, or a resolution of it gave
public addresses only, and this one among them. -/
def PublicAddr (t : Log) (host ip : PyStr) : Prop :=
  (∃ literal, tryIp net host = some literal ∧ ipBlocked literal = false ∧ literal.text = ip) ∨
    ∃ port rows, (⟨.resolve host port, Resolution.infos rows⟩ : Dialogue.Exchange Ask Answer) ∈ t ∧
      (∀ row ∈ rows, ∃ a extra addr, row = some (a, extra) ∧ net.ipAddress a = some addr ∧
        ipBlocked addr = false) ∧
      ∃ extra, some (ip, extra) ∈ rows

/-- An address that may be connected to for a URL. -/
def Vetted (t : Log) (url ip : PyStr) : Prop :=
  ∃ parsed, net.url.urlparse url = .ok parsed ∧ PublicAddr net t (parsed.host net.py) ip

/-- What a probe may ask after what it has seen. -/
def Admits (t : Log) : Ask → Prop
  | .resolve _ _ => True
  | .expired => True
  | .connect req ip =>
      Requestable net req.fullUrl ∧ req.ssrfHops ≤ maxRedirects ∧ Vetted net t req.fullUrl ip
  | .exchange req =>
      (∃ ip, (⟨.connect req ip, Dial.connected⟩ : Dialogue.Exchange Ask Answer) ∈ t) ∧
        sent t < 2 * (maxRedirects + 1)
  | .foreign _ => False

/-- What the parser makes of the URL of a redirect: `http_error_302` has joined it to the
URL of the request and escaped its spaces, so joining it again or escaping it again changes
neither its scheme nor its host. -/
structure NetLib.Lawful : Prop where
  rejoined : ∀ {base newurl joined : PyStr} {resp : Response} {parsed : ParsedUrl},
    net.redirectTarget base resp = .ok (some newurl) → net.url.urljoin base newurl = .ok joined →
    net.url.urlparse joined.strip = .ok parsed →
    ∃ parsed', net.url.urlparse (escapeSpaces newurl) = .ok parsed' ∧
      parsed'.scheme = parsed.scheme ∧ parsed'.netloc = parsed.netloc ∧
      parsed'.hasCredentials = parsed.hasCredentials ∧ parsed'.hostname = parsed.hostname

variable {net}

theorem PublicAddr.cons {t : Log} {host ip : PyStr} (e : Dialogue.Exchange Ask Answer)
    (h : PublicAddr net t host ip) : PublicAddr net (e :: t) host ip := by
  rcases h with h | ⟨port, rows, hmem, hrows⟩
  · exact .inl h
  · exact .inr ⟨port, rows, List.mem_cons_of_mem e hmem, hrows⟩

theorem Vetted.cons {t : Log} {url ip : PyStr} (e : Dialogue.Exchange Ask Answer)
    (h : Vetted net t url ip) : Vetted net (e :: t) url ip := by
  obtain ⟨parsed, hparsed, haddr⟩ := h
  exact ⟨parsed, hparsed, haddr.cons e⟩

/-- Addresses that may be connected to for a URL. -/
def AllVetted (net : NetLib) (t : Log) (url : PyStr) (addrs : List Pinned) : Prop :=
  ∀ a ∈ addrs, Vetted net t url a.ip

theorem AllVetted.cons {t : Log} {url : PyStr} {addrs : List Pinned}
    (e : Dialogue.Exchange Ask Answer) (h : AllVetted net t url addrs) :
    AllVetted net (e :: t) url addrs := fun a ha => (h a ha).cons e

/-! ## The filter -/

/-- The rows that `_checked_addrs` goes through are all public, and every address it keeps
is one of them. -/
theorem collectAddrs_eq_some {port : ℕ} {seen : List PyStr} {rows : List AddrInfo}
    {addrs : List Pinned} (h : collectAddrs net port seen rows = some addrs) :
    (∀ row ∈ rows, ∃ a extra addr, row = some (a, extra) ∧ net.ipAddress a = some addr ∧
      ipBlocked addr = false) ∧
    ∀ a ∈ addrs, ∃ extra, some (a.ip, extra) ∈ rows := by
  induction rows generalizing seen addrs with
  | nil =>
      cases h
      exact ⟨List.forall_mem_nil _, List.forall_mem_nil _⟩
  | cons row rest ih =>
      cases row with
      | none => cases h
      | some pair =>
          obtain ⟨ip, extra⟩ := pair
          rw [collectAddrs] at h
          cases haddr : net.ipAddress ip with
          | none =>
              rw [haddr] at h
              cases h
          | some addr =>
              rw [haddr] at h
              dsimp only at h
              by_cases hblocked : ipBlocked addr = true
              · rw [if_pos hblocked] at h
                cases h
              rw [if_neg hblocked] at h
              have hhead : ∃ a extra' addr, some (ip, extra) = some (a, extra') ∧
                  net.ipAddress a = some addr ∧ ipBlocked addr = false :=
                ⟨ip, extra, addr, rfl, haddr, Bool.eq_false_iff.mpr hblocked⟩
              by_cases hseen : seen.contains ip = true
              · rw [if_pos hseen] at h
                obtain ⟨hrows, hmem⟩ := ih h
                refine ⟨List.forall_mem_cons.mpr ⟨hhead, hrows⟩, fun a ha => ?_⟩
                obtain ⟨extra', hin⟩ := hmem a ha
                exact ⟨extra', List.mem_cons_of_mem _ hin⟩
              · rw [if_neg hseen] at h
                obtain ⟨kept, hkept, rfl⟩ := Option.map_eq_some_iff.mp h
                obtain ⟨hrows, hmem⟩ := ih hkept
                refine ⟨List.forall_mem_cons.mpr ⟨hhead, hrows⟩,
                  List.forall_mem_cons.mpr ⟨⟨extra, List.mem_cons_self⟩, fun a ha => ?_⟩⟩
                obtain ⟨extra', hin⟩ := hmem a ha
                exact ⟨extra', List.mem_cons_of_mem _ hin⟩

/-- What `_checked_addrs` leaves behind: it sent no request, and what it returns are public
addresses of the host. -/
def Checked (net : NetLib) (n : ℕ) (host : PyStr) (t : Log)
    (found : Except PyError (Option (List Pinned))) : Prop :=
  sent t = n ∧ ∀ addrs, found = .ok (some addrs) → addrs ≠ [] ∧
    ∀ a ∈ addrs, PublicAddr net t host a.ip

theorem checked_none {n : ℕ} {host : PyStr} {t : Log} (ht : sent t = n) :
    Checked net n host t (.ok none) := by
  refine ⟨ht, ?_⟩
  rintro addrs ⟨⟩

theorem checkedAddrs_holds (t : Log) (host : PyStr) (port : ℕ) :
    (checkedAddrs net host port).Holds (Admits net) (Checked net (sent t) host) t := by
  unfold checkedAddrs
  split
  · exact checked_none rfl
  split
  · exact checked_none rfl
  split
  next literal hliteral =>
    split
    · exact checked_none rfl
    next hpublic =>
      refine ⟨rfl, ?_⟩
      rintro addrs ⟨⟩
      exact ⟨List.cons_ne_nil _ _, List.forall_mem_singleton.mpr
        (.inl ⟨literal, hliteral, Bool.eq_false_iff.mpr hpublic, rfl⟩)⟩
  next =>
    split
    · exact checked_none rfl
    refine Dialogue.holds_query_bind.mpr ⟨trivial, fun answer => ?_⟩
    cases answer with
    | failed => exact checked_none rfl
    | raised e =>
        refine ⟨rfl, ?_⟩
        rintro addrs ⟨⟩
    | infos rows =>
        refine ⟨rfl, fun addrs haddrs => ?_⟩
        obtain ⟨kept, hkept, hne⟩ := Option.bind_eq_some_iff.mp (Except.ok.inj haddrs)
        rw [nonempty] at hne
        split at hne
        · cases hne
        next hempty =>
          cases hne
          obtain ⟨hrows, hmem⟩ := collectAddrs_eq_some hkept
          exact ⟨fun h => hempty (List.isEmpty_iff.mpr h), fun a ha =>
            .inr ⟨port, rows, List.mem_cons_self, hrows, hmem a ha⟩⟩

/-- The addresses a caller brings along, or those of the host. -/
theorem pinnedOr_holds {t : Log} {url : PyStr} {parsed : ParsedUrl} {pinned : List Pinned}
    (port : ℕ) (hparsed : net.url.urlparse url = .ok parsed) (h : AllVetted net t url pinned) :
    (pinnedOr net (parsed.host net.py) port pinned).Holds (Admits net)
      (fun t' found => sent t' = sent t ∧ ∀ addrs, found = .ok (some addrs) →
        addrs ≠ [] ∧ AllVetted net t' url addrs) t := by
  unfold pinnedOr
  split
  · refine (checkedAddrs_holds t (parsed.host net.py) port).mono fun t' found hfound => ?_
    refine ⟨hfound.1, fun addrs haddrs => ⟨(hfound.2 addrs haddrs).1, fun a ha => ?_⟩⟩
    exact ⟨parsed, hparsed, (hfound.2 addrs haddrs).2 a ha⟩
  next hne =>
    refine ⟨rfl, ?_⟩
    rintro addrs ⟨⟩
    exact ⟨fun hnil => hne (List.isEmpty_iff.mpr hnil), h⟩

/-- What `_pin_https_target` leaves behind: it returns a URL that may be requested, with
addresses that may be connected to for it. -/
theorem pinHttpsTarget_holds (t : Log) (url : PyStr) :
    (pinHttpsTarget net url).Holds (Admits net)
      (fun t' found => sent t' = sent t ∧ ∀ target, found = .ok (some target) →
        target.1 = url.strip ∧ Requestable net target.1 ∧ target.2 ≠ [] ∧
          AllVetted net t' target.1 target.2) t := by
  have hnone : ∀ {t' : Log}, sent t' = sent t → sent t' = sent t ∧ ∀ target : PyStr × List Pinned,
      (.ok none : Except PyError _) = .ok (some target) → target.1 = url.strip ∧
        Requestable net target.1 ∧ target.2 ≠ [] ∧ AllVetted net t' target.1 target.2 := by
    intro t' ht
    refine ⟨ht, ?_⟩
    rintro target ⟨⟩
  unfold pinHttpsTarget
  dsimp only
  split
  · exact hnone rfl
  split
  next e hparsed =>
    refine ⟨rfl, ?_⟩
    rintro target ⟨⟩
  next parsed hparsed =>
    split
    · exact hnone rfl
    next hshape =>
      split
      · exact hnone rfl
      split
      · exact hnone rfl
      next port hport =>
        rw [Dialogue.holds_bind]
        refine (checkedAddrs_holds t (parsed.host net.py) port).mono fun t' found hfound => ?_
        refine ⟨hfound.1, fun target htarget => ?_⟩
        obtain ⟨addrs?, rfl, hsome⟩ := map_eq_ok.mp htarget
        obtain ⟨addrs, rfl, rfl⟩ := Option.map_eq_some_iff.mp hsome
        obtain ⟨hne, hpublic⟩ := hfound.2 addrs rfl
        rw [not_or, not_or, not_not, Bool.not_eq_true] at hshape
        exact ⟨rfl, ⟨parsed, hparsed, hshape.1, hshape.2.1, hshape.2.2⟩, hne,
          fun a ha => ⟨parsed, hparsed, hpublic a ha⟩⟩

/-! ## The opener -/

/-- A request the opener may be given: its URL may be requested, it is not past the last
redirect, and its pinned addresses may be connected to. -/
structure Ready (net : NetLib) (t : Log) (req : Request) : Prop where
  requestable : Requestable net req.fullUrl
  hops : req.ssrfHops ≤ maxRedirects
  pinned : AllVetted net t req.fullUrl req.pinnedAddrs
  -- what is left of the two chains of requests
  room : sent t + (maxRedirects + 1 - req.ssrfHops) ≤ 2 * (maxRedirects + 1)

/-- The response of a request that could be made. -/
def Answered (net : NetLib) (t : Log) (resp : Response) : Prop :=
  ∃ req, (⟨.exchange req, Except.ok resp⟩ : Dialogue.Exchange Ask Answer) ∈ t ∧
    Requestable net req.fullUrl

theorem Answered.cons {t : Log} {resp : Response} (e : Dialogue.Exchange Ask Answer)
    (h : Answered net t resp) : Answered net (e :: t) resp := by
  obtain ⟨req, hmem, hreq⟩ := h
  exact ⟨req, List.mem_cons_of_mem e hmem, hreq⟩

/-- A connection goes to one of the addresses, one after the other. -/
theorem dial_holds {t : Log} {req : Request} {addrs : List Pinned} (lastErr : Option Failure)
    (hreq : Requestable net req.fullUrl) (hhops : req.ssrfHops ≤ maxRedirects)
    (h : AllVetted net t req.fullUrl addrs) :
    (dial req addrs lastErr).Holds (Admits net)
      (fun t' result => sent t' = sent t ∧ (result = .ok () →
        ∃ ip, (⟨.connect req ip, Dial.connected⟩ : Dialogue.Exchange Ask Answer) ∈ t')) t := by
  induction addrs generalizing t lastErr with
  | nil =>
      refine ⟨rfl, ?_⟩
      rintro ⟨⟩
  | cons addr rest ih =>
      refine Dialogue.holds_query_bind.mpr
        ⟨⟨hreq, hhops, h addr List.mem_cons_self⟩, fun answer => ?_⟩
      cases answer with
      | connected => exact ⟨rfl, fun _ => ⟨addr.ip, List.mem_cons_self⟩⟩
      | osError timedOut =>
          have hsent : sent (⟨.connect req addr.ip, .osError timedOut⟩ :: t) = sent t :=
            List.countP_cons_of_neg Bool.false_ne_true
          rw [← hsent]
          exact ih _ fun a ha => (h a (List.mem_cons_of_mem _ ha)).cons _

/-- What a request leaves behind: it was sent at most once. -/
def Opened (net : NetLib) (n : ℕ) (t : Log) (result : Except Failure Response) : Prop :=
  sent t ≤ n + 1 ∧ ∀ resp, result = .ok resp → Answered net t resp

theorem opened_error {n : ℕ} {t : Log} (e : Failure) (h : sent t ≤ n + 1) :
    Opened net n t (.error e) := by
  refine ⟨h, ?_⟩
  rintro resp ⟨⟩

theorem httpsOpen_holds {t : Log} {req : Request} (h : Ready net t req) :
    (httpsOpen net req).Holds (Admits net) (Opened net (sent t)) t := by
  have hlast := h.hops
  have hroom := h.room
  unfold httpsOpen
  split
  · exact opened_error _ (Nat.le_succ _)
  next parsed hparsed =>
    dsimp only
    split
    · exact opened_error _ (Nat.le_succ _)
    split
    · exact opened_error _ (Nat.le_succ _)
    next port hport =>
      rw [Dialogue.holds_bind]
      refine (pinnedOr_holds port hparsed h.pinned).mono fun t₁ found hfound => ?_
      obtain ⟨hsent, hfound⟩ := hfound
      split
      · exact opened_error _ (by omega)
      · exact opened_error _ (by omega)
      next addrs =>
        split
        · exact opened_error _ (by omega)
        rw [Dialogue.holds_bind]
        refine (dial_holds none h.requestable hlast (hfound addrs rfl).2).mono
          fun t₂ result hresult => ?_
        obtain ⟨hsent₂, hdialled⟩ := hresult
        split
        · exact opened_error _ (by omega)
        refine ⟨⟨hdialled rfl, by omega⟩, fun resp => ?_⟩
        have hcount : sent (⟨.exchange req, resp⟩ :: t₂) = sent t₂ + 1 := List.countP_cons_of_pos rfl
        refine ⟨by omega, ?_⟩
        rintro resp rfl
        exact ⟨req, List.mem_cons_self, h.requestable⟩

theorem openOnce_holds {t : Log} {req : Request} (h : Ready net t req) :
    (openOnce net req).Holds (Admits net) (Opened net (sent t)) t := by
  obtain ⟨parsed, hparsed, hscheme, -, -⟩ := h.requestable
  unfold openOnce
  rw [hparsed]
  dsimp only
  rw [if_pos hscheme]
  exact httpsOpen_holds h

/-- The next request of a redirect may be given to the opener. -/
theorem redirectRequest_holds (hnet : net.Lawful) {t : Log} {req : Request} {newurl : PyStr}
    {resp : Response} (htarget : net.redirectTarget req.fullUrl resp = .ok (some newurl))
    (hroom : sent t + (maxRedirects - req.ssrfHops) ≤ 2 * (maxRedirects + 1)) :
    (redirectRequest net req resp.code newurl).Holds (Admits net)
      (fun t' result => sent t' = sent t ∧ ∀ next, result = .ok (.follow next) →
        Ready net t' next ∧ next.ssrfHops = req.ssrfHops + 1) t := by
  have herror : ∀ {t' : Log} (e : Failure), sent t' = sent t → sent t' = sent t ∧
      ∀ next, (.error e : Except Failure Redirect) = .ok (.follow next) →
        Ready net t' next ∧ next.ssrfHops = req.ssrfHops + 1 := by
    intro t' e ht
    refine ⟨ht, ?_⟩
    rintro next ⟨⟩
  unfold redirectRequest
  split
  · exact herror _ rfl
  next hhops =>
    split
    · exact herror _ rfl
    next joined hjoined =>
      rw [Dialogue.holds_bind]
      refine (pinHttpsTarget_holds t joined).mono fun t' found hfound => ?_
      obtain ⟨hsent, hfound⟩ := hfound
      split
      · exact herror _ hsent
      · exact herror _ hsent
      next pinned =>
        split
        next hfollows =>
          refine ⟨hsent, ?_⟩
          rintro next ⟨⟩
          obtain ⟨hurl, hreq, -, hvetted⟩ := hfound pinned rfl
          obtain ⟨parsed, hparsed, hscheme, hnetloc, hcred⟩ := hreq
          rw [hurl] at hparsed
          obtain ⟨parsed', hparsed', hscheme', hnetloc', hcred', hhost'⟩ :=
            hnet.rejoined htarget hjoined hparsed
          have hsame : parsed'.host net.py = parsed.host net.py := by
            unfold ParsedUrl.host
            rw [hhost', hnetloc']
          refine ⟨⟨⟨parsed', hparsed', hscheme'.trans hscheme, hnetloc' ▸ hnetloc, hcred'.trans hcred⟩,
            Nat.not_lt.mp hhops, fun a ha => ?_, ?_⟩, rfl⟩
          · obtain ⟨parsed'', hparsed'', hpublic⟩ := hvetted a ha
            rw [hurl, hparsed] at hparsed''
            cases hparsed''
            refine ⟨parsed', hparsed', ?_⟩
            rw [hsame]
            exact hpublic
          · dsimp only
            omega
        next =>
          refine ⟨hsent, ?_⟩
          rintro next ⟨⟩

/-- A chain of requests: each is ready when it is opened, and no more of them are sent than
the redirects allow. -/
theorem openUrl_holds (hnet : net.Lawful) (fuel : ℕ) {t : Log} {req : Request}
    (h : Ready net t req) :
    (openUrl net fuel req).Holds (Admits net)
      (fun t' result => sent t' ≤ sent t + (maxRedirects + 1 - req.ssrfHops) ∧
        ∀ r, result = .ok r → Answered net t' r.2) t := by
  induction fuel generalizing t req with
  | zero =>
      refine ⟨Nat.le_add_right _ _, ?_⟩
      rintro r ⟨⟩
  | succ fuel ih =>
      have hhops := h.hops
      have hroom := h.room
      rw [openUrl, Dialogue.holds_bind]
      refine (openOnce_holds h).mono fun t₁ result hresult => ?_
      obtain ⟨hsent, hanswered⟩ := hresult
      have hhere : ∀ resp : Response, result = .ok resp →
          sent t₁ ≤ sent t + (maxRedirects + 1 - req.ssrfHops) ∧
            ∀ r, (.ok (req.fullUrl, resp) : Except Failure (PyStr × Response)) = .ok r →
              Answered net t₁ r.2 := by
        intro resp hresp
        refine ⟨by omega, ?_⟩
        rintro r ⟨⟩
        exact hanswered resp hresp
      have hfail : ∀ {t' : Log} (e : Failure), sent t' = sent t₁ →
          sent t' ≤ sent t + (maxRedirects + 1 - req.ssrfHops) ∧
            ∀ r, (.error e : Except Failure (PyStr × Response)) = .ok r → Answered net t' r.2 := by
        intro t' e ht'
        refine ⟨by omega, ?_⟩
        rintro r ⟨⟩
      split
      · exact hfail _ rfl
      next resp =>
        split
        next hcode =>
          split
          · exact hfail _ rfl
          · exact hhere resp rfl
          next newurl htarget =>
            rw [Dialogue.holds_bind]
            have hnext := redirectRequest_holds hnet htarget (t := t₁) (by omega)
            refine (hnext.keep (fun t => Answered net t resp) (hanswered resp rfl)
              fun e _ => Answered.cons e).mono fun t₂ next hnext => ?_
            obtain ⟨hresp, hsent₂, hready⟩ := hnext
            split
            · exact hfail _ hsent₂
            · refine ⟨by omega, ?_⟩
              rintro r ⟨⟩
              exact hresp
            next next =>
              obtain ⟨hnextReady, hnextHops⟩ := hready next rfl
              refine (ih hnextReady).mono fun t₃ r hr => ⟨?_, hr.2⟩
              have := hr.1
              omega
        next => exact hhere resp rfl

/-- The next request of a redirect has one more hop, and is not past the last. -/
theorem redirectRequest_hops (t : Log) (req : Request) (code : ℕ) (newurl : PyStr) :
    (redirectRequest net req code newurl).Holds (fun _ _ => True)
      (fun _ result => ∀ next, result = .ok (.follow next) →
        next.ssrfHops = req.ssrfHops + 1 ∧ next.ssrfHops ≤ maxRedirects) t := by
  unfold redirectRequest
  split
  · rintro next ⟨⟩
  next hhops =>
    split
    · rintro next ⟨⟩
    next joined hjoined =>
      rw [Dialogue.holds_bind]
      refine (Dialogue.holds_trivial _).mono fun t' found _ => ?_
      split
      · rintro next ⟨⟩
      · rintro next ⟨⟩
      next pinned =>
        split
        · rintro next ⟨⟩
          exact ⟨rfl, Nat.not_lt.mp hhops⟩
        · rintro next ⟨⟩

/-- The bound on the requests of a chain never ends it: the redirects do before. -/
theorem openUrl_succ {fuel : ℕ} {req : Request} (hhops : req.ssrfHops ≤ maxRedirects)
    (hfuel : maxRedirects < fuel + req.ssrfHops) :
    openUrl net (fuel + 1) req = openUrl net fuel req := by
  induction fuel generalizing req with
  | zero => omega
  | succ fuel ih =>
      rw [openUrl, openUrl]
      refine congrArg _ (funext fun result => ?_)
      split
      · rfl
      next resp =>
        split
        · split
          · rfl
          · rfl
          next newurl htarget =>
            refine Dialogue.bind_congr (t := []) ((redirectRequest_hops [] req resp.code newurl).mono
              fun t' result hresult => ?_)
            split
            · rfl
            · rfl
            next next =>
              obtain ⟨hnext, hlast⟩ := hresult next rfl
              exact ih hlast (by omega)
        · rfl

/-! ## The probe -/

/-- What a request of the probe leaves behind. -/
def Snapped (net : NetLib) (n : ℕ) (t : Log) (result : Except PyError Snap) : Prop :=
  sent t ≤ n + (maxRedirects + 1) ∧ ∀ snap, result = .ok snap → snap.live = true →
    ∃ resp, Answered net t resp ∧ resp.code = 402

theorem snapped_unseen {n : ℕ} {t : Log} (reason : Miss) (h : sent t ≤ n + (maxRedirects + 1)) :
    Snapped net n t (.ok (.unseen reason)) := by
  refine ⟨h, ?_⟩
  rintro snap ⟨⟩ ⟨⟩

theorem snapped_error {n : ℕ} {t : Log} (e : PyError) (h : sent t ≤ n + (maxRedirects + 1)) :
    Snapped net n t (.error e) := by
  refine ⟨h, ?_⟩
  rintro snap ⟨⟩

/-- A live snap is of a 402. -/
theorem code_of_readSnap {resp : Response} {snap : Snap} (h : readSnap net resp = .ok snap)
    (hlive : snap.live = true) : resp.code = 402 := by
  obtain ⟨r, -, rfl⟩ := map_eq_ok.mp h
  exact eq_of_beq (Bool.and_eq_true_iff.mp hlive).2

theorem oneRequest_holds (hnet : net.Lawful) {t : Log} {url method : PyStr}
    {data : Option Bytes} {pinned : List Pinned} (h : AllVetted net t url pinned)
    (hroom : sent t + (maxRedirects + 1) ≤ 2 * (maxRedirects + 1)) :
    (oneRequest net url method data pinned).Holds (Admits net) (Snapped net (sent t)) t := by
  refine Dialogue.holds_query_bind.mpr ⟨trivial, fun answer => ?_⟩
  have hsent₀ : sent (⟨.expired, answer⟩ :: t) = sent t := List.countP_cons_of_neg Bool.false_ne_true
  have h₀ : AllVetted net (⟨.expired, answer⟩ :: t) url pinned := h.cons _
  split
  · exact snapped_unseen _ (by omega)
  split
  · exact snapped_error _ (by omega)
  next parsed hparsed =>
    split
    · exact snapped_unseen _ (by omega)
    next port hport =>
      split
      · exact snapped_unseen _ (by omega)
      next hshape =>
        rw [not_or, not_or, not_not, Bool.not_eq_true] at hshape
        have hreq : Requestable net url := ⟨parsed, hparsed, hshape.1, hshape.2.1, hshape.2.2⟩
        rw [Dialogue.holds_bind]
        refine (pinnedOr_holds port hparsed h₀).mono fun t₁ found hfound => ?_
        obtain ⟨hsent₁, hfound⟩ := hfound
        split
        · exact snapped_error _ (by omega)
        · exact snapped_unseen _ (by omega)
        next addrs =>
          split
          · exact snapped_unseen _ (by omega)
          rw [Dialogue.holds_bind]
          have hready : Ready net t₁ ⟨url, method, data, 0, addrs⟩ :=
            ⟨hreq, Nat.zero_le _, (hfound addrs rfl).2, by dsimp only; omega⟩
          refine (openUrl_holds hnet (maxRedirects + 1) hready).mono fun t₂ result hresult => ?_
          obtain ⟨hsent₂, hanswered⟩ := hresult
          dsimp only at hsent₂
          split
          · exact snapped_unseen _ (by omega)
          · exact snapped_unseen _ (by omega)
          · exact snapped_unseen _ (by omega)
          next final resp =>
            refine ⟨by omega, fun snap hsnap hlive => ?_⟩
            exact ⟨resp, hanswered (final, resp) rfl, code_of_readSnap hsnap hlive⟩

/-- What the whole probe reports. -/
def Reported (net : NetLib) (t : Log) (result : Except PyError Probed) : Prop :=
  ∀ probed, result = .ok probed → probed.live = true → ∃ resp, Answered net t resp ∧ resp.code = 402

theorem probeUrl_holds (hnet : net.Lawful) (url : PyStr) (item : CatalogSays) :
    (probeUrl net url item).Holds (Admits net) (Reported net) [] := by
  have hraised : ∀ (t : Log) (e : PyError), Reported net t (.error e) := by
    rintro t e probed ⟨⟩
  refine Dialogue.holds_query_bind.mpr ⟨trivial, fun answer => ?_⟩
  split
  · rintro probed ⟨⟩ ⟨⟩
  rw [Dialogue.holds_bind]
  refine (pinHttpsTarget_holds _ url).mono fun t₁ found hfound => ?_
  obtain ⟨hsent₁, hfound⟩ := hfound
  have hzero : sent t₁ = 0 := hsent₁
  split
  · exact hraised _ _
  · rintro probed ⟨⟩ ⟨⟩
  next safe addrs =>
    obtain ⟨-, -, -, hvetted⟩ := hfound (safe, addrs) rfl
    rw [Dialogue.holds_bind]
    have hget : (oneRequest net safe "GET" none addrs).Holds _ (Snapped net (sent t₁)) t₁ :=
      oneRequest_holds hnet hvetted (by rw [hzero]; decide)
    refine (hget.keep (fun t => AllVetted net t safe addrs) hvetted
      fun e _ => AllVetted.cons e).mono fun t₂ result hresult => ?_
    obtain ⟨hvetted₂, hsent₂, hlive₂⟩ := hresult
    split
    · exact hraised _ _
    next get =>
      split
      next hssrf =>
        rintro probed ⟨⟩ hlive
        exact hlive₂ get rfl hlive
      split
      next hpost =>
        have hdead : get.live = false := by
          by_contra hlive
          rw [postEmptyJustified, if_pos (Bool.eq_true_of_not_eq_false hlive)] at hpost
          cases hpost
        rw [Dialogue.holds_bind]
        refine (oneRequest_holds hnet hvetted₂ (by omega)).mono fun t₃ result hresult => ?_
        split
        · exact hraised _ _
        next post =>
          rintro probed ⟨⟩ hlive
          refine hresult.2 post rfl ?_
          rw [conclude] at hlive
          simp only [hdead, Bool.false_eq_true, if_false, Option.getD_some] at hlive
          split at hlive
          next hpostLive => exact hpostLive
          next => exact hlive
      next =>
        rintro probed ⟨⟩ hlive
        refine hlive₂ get rfl ?_
        rw [conclude] at hlive
        simp only [Option.getD_none, ite_self] at hlive
        exact hlive

/-- Whatever the network answers, and to whatever URL, a probe connects only to an address
of a resolution of the host of the URL it is requesting, every address of which passed the
filter; it requests only `https` URLs without credentials, at most two redirects from the
first, and reports a URL as live only after a 402 of such a request. -/
theorem probe_connects_vetted (hnet : net.Lawful) (url : PyStr) (item : CatalogSays) :
    (∀ t req ip next,
      Dialogue.Reaches (probeUrl net url item) t (.ask (.connect req ip) next) →
        Requestable net req.fullUrl ∧ req.ssrfHops ≤ maxRedirects ∧ Vetted net t req.fullUrl ip) ∧
    (∀ t req next, Dialogue.Reaches (probeUrl net url item) t (.ask (.exchange req) next) →
      (∃ ip, (⟨.connect req ip, Dial.connected⟩ : Dialogue.Exchange Ask Answer) ∈ t) ∧
        sent t < 2 * (maxRedirects + 1)) ∧
    (∀ t req next, ¬ Dialogue.Reaches (probeUrl net url item) t (.ask (.foreign req) next)) ∧
    ∀ t probed, Dialogue.Reaches (probeUrl net url item) t (.done (.ok probed)) →
      probed.live = true → ∃ resp, Answered net t resp ∧ resp.code = 402 := by
  have h := probeUrl_holds hnet url item
  refine ⟨fun t req ip next hr => h.asked hr, fun t req next hr => h.asked hr,
    fun t req next hr => h.asked hr, fun t probed hr hlive => ?_⟩
  exact h.ended hr probed rfl hlive

section Sample

/-- URLs of the form `https://host/path`. -/
def plainUrl : UrlLib where
  urlparse url :=
    let netloc := PyStr.beforeFirst (.ofChar '/') (url.drop 8)
    .ok ⟨PyStr.beforeFirst (.ofChar ':') url, netloc, (url.drop 8).drop netloc.length, [], [], [],
      none, none, some netloc, .ok none⟩
  urlunparse p := p.scheme ++ ("://" : PyStr) ++ p.netloc ++ p.path
  urljoin _ url := .ok url
  parseQsl _ := []
  urlencode _ := []

def publicClass : IpClass := ⟨false, false, false, false, false, false, true⟩

def plainNet : NetLib where
  py := .plain
  url := plainUrl
  ipAddress s :=
    if s.all fun c => PyStr.isDigitChar c || c == .ofChar '.' then some ⟨s, publicClass, none⟩
    else none
  hostHeader url := PyStr.beforeFirst (.ofChar '/') (url.drop 8)
  redirectTarget _ resp :=
    .ok ((resp.headers.find? fun h => h.1 == ("location" : PyStr)).map fun h =>
      h.2.filter fun c => !PyStr.isSpace c)
  levels := 100

/-- A text without blanks. -/
def Solid (s : PyStr) : Prop := ∀ c ∈ s, PyStr.isSpace c = false

theorem dropWhile_solid {s : PyStr} (h : Solid s) : s.dropWhile PyStr.isSpace = s := by
  cases s with
  | nil => rfl
  | cons c rest => rw [List.dropWhile_cons_of_neg (by simp [h c List.mem_cons_self])]

theorem strip_solid {s : PyStr} (h : Solid s) : PyStr.strip s = s := by
  rw [PyStr.strip, dropWhile_solid h, dropWhile_solid fun c hc => h c (List.mem_reverse.mp hc),
    List.reverse_reverse]

theorem escapeSpaces_solid {s : PyStr} (h : Solid s) : escapeSpaces s = s := by
  unfold escapeSpaces
  induction s with
  | nil => rfl
  | cons c rest ih =>
      have hc : c ≠ .ofChar ' ' := by
        rintro rfl
        exact absurd (h _ List.mem_cons_self) (by decide)
      rw [List.flatMap_cons, if_neg hc, ih fun d hd => h d (List.mem_cons_of_mem c hd)]
      rfl

theorem plainNet_lawful : plainNet.Lawful where
  rejoined {base newurl joined resp parsed} htarget hjoined hparsed := by
    obtain ⟨h, -, rfl⟩ := Option.map_eq_some_iff.mp (Except.ok.inj htarget)
    cases hjoined
    have hsolid : Solid (h.2.filter fun c => !PyStr.isSpace c) := by
      intro c hc
      simpa using (List.mem_filter.mp hc).2
    rw [strip_solid hsolid] at hparsed
    rw [escapeSpaces_solid hsolid]
    exact ⟨parsed, hparsed, rfl, rfl, rfl, rfl⟩

/-- Two hosts, of which the first redirects to the second. -/
def twoHosts : (q : Ask) → Answer q
  | .resolve host _ =>
      if host = "a.example" then .infos [some ("93.184.216.34", [])]
      else .infos [some ("93.184.216.35", [])]
  | .expired => false
  | .connect _ _ => .connected
  | .exchange req =>
      if req.ssrfHops = 0 then .ok ⟨302, [("location", "https://b.example/paid")], []⟩
      else .ok ⟨404, [], []⟩
  | .foreign _ => .error .other

theorem probe_connects_vetted_redirect : ∃ t req next,
    Dialogue.Reaches (probeUrl plainNet "https://a.example/" ⟨false, false⟩) t
      (.ask (.connect req "93.184.216.35") next) ∧
    Vetted plainNet t "https://b.example/paid" "93.184.216.35" := by
  let x := probeUrl plainNet "https://a.example/" ⟨false, false⟩
  have hreach := Dialogue.reaches_play twoHosts 6 x
  obtain ⟨req, next, hurl, hat⟩ : ∃ req next, req.fullUrl = ("https://b.example/paid" : PyStr) ∧
      (Dialogue.play twoHosts 6 x).2 = .ask (.connect req "93.184.216.35") next :=
    ⟨_, _, rfl, rfl⟩
  rw [hat] at hreach
  refine ⟨_, req, next, hreach, ?_⟩
  rw [← hurl]
  exact ((probe_connects_vetted plainNet_lawful _ _).1 _ _ _ _ hreach).2.2

end Sample

end Signal402.Probe
