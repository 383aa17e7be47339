import Signal402.Base.JsonHooks
import Signal402.Route.Binding

/-!
# Terms that a binding names

What the checks of `route_binding.py` say about the values they let through.

* `same_of_canonical` — values with the same canonical JSON are equal.
* `same_readCanonical` — the entry that is returned equals the entry of the challenge.
* `verifyChallenge_eq_ok` — what a challenge that is accepted went through.
* `build_eq_ok` — what a binding was made of.
-/

namespace Signal402.RouteBinding

open Jcs Payment Select
open Sha256 (sha256)

/-- A Python value: a dictionary holds a key once. -/
def OneKey : Json → Prop
  | .obj d => (d.map Prod.fst).Nodup
  | _ => True

instance : DecidablePred OneKey
  | .obj d => inferInstanceAs (Decidable (d.map Prod.fst).Nodup)
  | .null => isTrue trivial
  | .bool _ => isTrue trivial
  | .int _ => isTrue trivial
  | .float _ => isTrue trivial
  | .str _ => isTrue trivial
  | .arr _ => isTrue trivial

/-- `OneKey` everywhere in a value of at most this depth. -/
def oneKeyWithin : ℕ → Json → Bool
  | 0, _ => false
  | n + 1, v => decide (OneKey v) && v.children.all (oneKeyWithin n)

theorem everywhere_of_within {n : ℕ} {v : Json} (h : oneKeyWithin n v = true) :
    v.Everywhere OneKey := by
  induction n generalizing v with
  | zero => cases h
  | succ n ih =>
      rw [oneKeyWithin, Bool.and_eq_true, decide_eq_true_iff, List.all_eq_true] at h
      exact .mk h.1 fun u hu => ih (h.2 u hu)

/-! ## Tests of one value -/

theorem eqStr_iff {x : Json} {s : PyStr} : x.eqStr s = true ↔ x = .str s := by
  cases x <;> simp [Json.eqStr]

theorem isInt_iff {n : ℤ} {x : Json} : isInt n x = true ↔ x = .int n := by
  cases x <;> simp [isInt]

theorem guarded_eq_ok {α : Type} {x : Except PyError α} {a : α} :
    guarded x = .ok a ↔ x = .ok a := by
  cases x with
  | ok b => rfl
  | error e =>
      constructor
      · intro h
        rw [guarded] at h
        split at h <;> cases h
      · intro h
        cases h

/-! ## Canonical JSON -/

/-- A value that the walk without floats lets through holds no float. -/
theorem walk_exact {n : ℕ} {v : Json} (hv : v.Everywhere OneKey)
    (h : walk false n v = .ok ()) : v.Everywhere Exact := by
  induction n generalizing v with
  | zero => cases h
  | succ n ih =>
      cases v with
      | float x => cases h
      | arr items =>
          rw [walk] at h
          refine .mk trivial fun u hu => ?_
          exact ih (hv.held hu) (forM_eq_ok.mp h u hu)
      | obj d =>
          rw [walk] at h
          refine .mk hv.here fun u hu => ?_
          obtain ⟨m, hm, rfl⟩ := List.mem_map.mp hu
          obtain ⟨-, -, hmember⟩ := bind_eq_ok.mp (forM_eq_ok.mp h m hm)
          exact ih (hv.member hm) hmember
      | _ => exact .scalar trivial rfl

section Canonical

variable {p : Platform} {v w : Json} {raw : Bytes}

theorem canonical_eq_ok : canonical p v = .ok raw ↔ walk false levels v = .ok () ∧
    canonicalize p.deps.py p.writer v = .ok raw ∧ raw.length ≤ maxJsonBytes := by
  rw [canonical, guarded_eq_ok, bind_eq_ok]
  constructor
  · rintro ⟨_, hwalk, h⟩
    obtain ⟨raw', hraw, h⟩ := bind_eq_ok.mp h
    split at h
    · cases h
    · cases h
      exact ⟨hwalk, hraw, not_lt.mp ‹_›⟩
  · rintro ⟨hwalk, hraw, hlength⟩
    refine ⟨(), hwalk, bind_eq_ok.mpr ⟨raw, hraw, ?_⟩⟩
    rw [if_neg (not_lt.mpr hlength)]

theorem digest_eq_ok {text : PyStr} :
    digest p v = .ok text ↔ ∃ raw, canonical p v = .ok raw ∧ hexText (sha256 raw) = text :=
  map_eq_ok

/-- Values with the same canonical JSON are equal. -/
theorem same_of_canonical (hv : v.Everywhere OneKey) (hw : w.Everywhere OneKey)
    (h : canonical p v = .ok raw) (h' : canonical p w = .ok raw) : Json.Same v w := by
  obtain ⟨hwalk, hraw, -⟩ := canonical_eq_ok.mp h
  obtain ⟨hwalk', hraw', -⟩ := canonical_eq_ok.mp h'
  exact same_of_canonicalize (walk_exact hv hwalk) (walk_exact hw hwalk') hraw hraw'

end Canonical

/-! ## Reading back -/

theorem rejectSeen_distinct {seen : List PyStr} {ps out : Dict} (h : rejectSeen seen ps = .ok out) :
    out = ps ∧ (ps.map Prod.fst).Nodup ∧ ∀ m ∈ ps, m.1 ∉ seen := by
  induction ps generalizing seen out with
  | nil =>
      cases h
      exact ⟨rfl, List.nodup_nil, List.forall_mem_nil _⟩
  | cons m rest ih =>
      obtain ⟨key, val⟩ := m
      rw [rejectSeen] at h
      split at h
      · cases h
      next hnew =>
        obtain ⟨kept, hkept, rfl⟩ := map_eq_ok.mp h
        obtain ⟨rfl, hnodup, hrest⟩ := ih hkept
        have hnot : key ∉ seen := fun hin => hnew (List.contains_iff_mem.mpr hin)
        refine ⟨rfl, ?_, ?_⟩
        · rw [List.map_cons, List.nodup_cons]
          refine ⟨fun hin => ?_, hnodup⟩
          obtain ⟨m, hm, hkey⟩ := List.mem_map.mp hin
          exact hrest m hm (hkey ▸ List.mem_cons_self)
        · exact List.forall_mem_cons.mpr
            ⟨hnot, fun m hm hin => hrest m hm (List.mem_cons_of_mem _ hin)⟩

/-- The reader of `json.loads` accepts more than the strict one. -/
theorem parseHooks_below : parseHooks.Below floatConstants.hooks where
  constant h := by cases h
  float h := h
  pairs h := by
    obtain ⟨out, hout, rfl⟩ := map_eq_ok.mp h
    obtain ⟨rfl, hnodup, -⟩ := rejectSeen_distinct hout
    show Except.ok (Json.obj (dictOfPairs out)) = .ok (.obj out)
    rw [dictOfPairs_eq hnodup]

theorem hooks_below_refl (h : Hooks) : h.Below h where
  constant hv := hv
  float hv := hv
  pairs hv := hv

theorem fits_mono {n m : ℕ} (hnm : n ≤ m) {v : Json} (h : v.fits n = true) : v.fits m = true := by
  induction n generalizing m v with
  | zero => exact Json.fits_of_scalar (by simpa [Json.fits] using h)
  | succ n ih =>
      obtain ⟨m, rfl⟩ : ∃ k, m = k + 1 := ⟨m - 1, by omega⟩
      rw [Json.fits, List.all_eq_true] at h ⊢
      exact fun u hu => ih (Nat.le_of_succ_le_succ hnm) (h u hu)

section Read

variable {p : Platform} {v w : Json}

/-- What is read back from canonical JSON equals the value. -/
theorem same_readCanonical (hv : v.Everywhere OneKey) (h : readCanonical p v = .ok w) :
    Json.Same v w := by
  obtain ⟨raw, hcanon, h⟩ := bind_eq_ok.mp h
  obtain ⟨hwalk, hraw, -⟩ := canonical_eq_ok.mp hcanon
  have hexact := walk_exact hv hwalk
  have hsound : v.Everywhere (Sound p.deps.py) := hexact.imp fun _ h => h.sound
  obtain ⟨t, ht, -⟩ := bind_eq_ok.mp hraw
  -- a reader with the levels of both reads what either reads
  have hfits : v.fits (max p.reader p.writer) = true :=
    fits_mono (le_max_right _ _) (writable_of_serialize hsound ht).2
  have hparse := parse_of_canonicalize hsound hraw hfits
  cases hdecode : utf8Decode raw with
  | none =>
      rw [hdecode] at h
      cases h
  | some text =>
      rw [hdecode] at h
      rw [parse, hdecode] at hparse
      change parseText _ text = _ at hparse
      rw [parseText] at hparse
      split at hparse
      · cases hparse
      cases hstrict : loadsWith parseHooks (max p.reader p.writer) text with
      | error e =>
          rw [hstrict] at hparse
          dsimp only at hparse
          split at hparse <;> cases hparse
      | ok u =>
          rw [hstrict] at hparse
          cases hparse
          have hloads := loadsWith_of_below parseHooks_below le_rfl hstrict
          have hread := loadsWith_of_below (hooks_below_refl _) (le_max_left _ p.writer) h
          cases hloads.symm.trans hread
          exact same_ordered hexact

/-- Equal dictionaries hold equal values under a key, and `None` under a missing one. -/
theorem same_get {d e : Dict} (h : Json.Same (.obj d) (.obj e)) (k : PyStr) :
    Json.Same (d.get k) (e.get k) := by
  rw [Dict.get, Dict.get]
  cases hv : d.get? k with
  | none =>
      cases h with
      | refl => exact hv ▸ .refl _
      | obj hkeys _ => exact (hkeys _).mp hv ▸ .refl _
  | some v =>
      cases hw : e.get? k with
      | none =>
          cases h with
          | refl => cases hv.symm.trans hw
          | obj hkeys _ => cases hv.symm.trans ((hkeys _).mpr hw)
      | some w => exact h.get? hv hw

/-- What equals a value that holds no others is that value. -/
theorem same_scalar (h : Json.Same v w) (hw : w.isContainer = false) : v = w :=
  (h.symm.eq_of_scalar hw).symm

theorem same_dict {d : Dict} (h : Json.Same v (.obj d)) :
    ∃ e, v = .obj e ∧ Json.Same (.obj e) (.obj d) := by
  cases h with
  | refl => exact ⟨d, rfl, .refl _⟩
  | obj hkeys hmember => exact ⟨_, rfl, .obj hkeys hmember⟩

/-- Equal envelopes have equal entries. -/
theorem same_acceptsOf {env env' : Dict} (h : Json.Same (.obj env) (.obj env')) :
    List.Forall₂ Json.Same (acceptsOf env) (acceptsOf env') := by
  have hsame := same_get h "accepts"
  unfold acceptsOf
  generalize env.get "accepts" = v, env'.get "accepts" = w at hsame ⊢
  cases hsame with
  | refl => exact List.forall₂_same.mpr fun v _ => .refl v
  | arr hlength hitem => exact Json.Same.forall₂ (.arr hlength hitem)
  | obj => exact .nil

theorem everywhere_get {q : Json → Prop} (hnull : q .null) {d : Dict}
    (h : (Json.obj d).Everywhere q) (k : PyStr) : (d.get k).Everywhere q := by
  rw [Dict.get]
  cases hv : d.get? k with
  | none => exact .scalar hnull rfl
  | some v => exact h.member (Dict.mem_of_get? hv)

end Read

/-! ## Challenges -/

section Challenges

variable {p : Platform}

theorem holdsAt_eq_true {now : ℤ} {observed expiry : Json} (h : holdsAt now observed expiry = true) :
    ∃ a b, observed = .int a ∧ expiry = .int b ∧ a ≤ now ∧ now < b := by
  unfold holdsAt at h
  split at h
  · rw [Bool.and_eq_true, decide_eq_true_iff, decide_eq_true_iff] at h
    exact ⟨_, _, rfl, rfl, h.1, h.2⟩
  · cases h

/-- What an accepted challenge went through. -/
structure Agrees (p : Platform) (b : Dict) (envelope url method : Json) (body : Bytes) (now : ℤ)
    (accept : Json) : Prop where
  times : ∃ observed expiry, b.get "observed_at" = .int observed ∧
    b.get "expires_at" = .int expiry ∧ observed ≤ now ∧ now < expiry ∧ expiry ≤ observed + maxTtl
  request : ∃ ctx, requestContext p url method body = .ok ctx ∧
    ctx.equals (b.get "request").dictOrEmpty = true
  quote : ∃ quote, digest p envelope = .ok quote ∧ b.get "quote_sha256" = .str quote
  valid : validateEnvelope p envelope = .ok ()
  entry : ∃ (index : ℕ) (entry : Json), b.get "selected_index" = .int index ∧
    (acceptsOf envelope.dictOrEmpty)[index]? = some entry ∧ readCanonical p entry = .ok accept

theorem validTimes_eq_true {observed expiry : ℤ}
    (h : validTimes (.int observed) (.int expiry) = true) : expiry ≤ observed + maxTtl := by
  rw [validTimes, Bool.and_eq_true, Bool.and_eq_true] at h
  exact of_decide_eq_true h.2

theorem validate_eq_ok {binding : Json} (h : validate p binding = .ok ()) :
    ∃ b : Dict, binding = .obj b ∧ validateContext p (b.get "request") = .ok () ∧
      validTimes (b.get "observed_at") (b.get "expires_at") = true ∧
      validIndex (b.get "selected_index") = true := by
  obtain ⟨raw, -, h⟩ := bind_eq_ok.mp h
  cases binding with
  | obj b =>
      change bindingFields p b = .ok () at h
      rw [bindingFields] at h
      split at h
      · cases h
      split at h
      · cases h
      obtain ⟨_, hcontext, h⟩ := bind_eq_ok.mp h
      split at h
      next hfields =>
        rw [Bool.and_eq_true, Bool.and_eq_true] at hfields
        exact ⟨b, rfl, hcontext, hfields.1.1, hfields.2⟩
      · cases h
  | _ => cases h

theorem validIndex_eq_true {v : Json} (h : validIndex v = true) :
    ∃ index : ℕ, v = .int index := by
  cases v with
  | int n =>
      rw [validIndex, Bool.and_eq_true] at h
      exact ⟨n.toNat, by rw [Int.toNat_of_nonneg (of_decide_eq_true h.1)]⟩
  | _ => cases h

theorem verifyChallenge_eq_ok {binding status envelope url method accept : Json} {body : Bytes}
    {now : ℤ} (h : verifyChallenge p binding status envelope url method body now = .ok accept) :
    status = .int 402 ∧ ∃ b : Dict, binding = .obj b ∧ Agrees p b envelope url method body now accept := by
  obtain ⟨_, hvalid, h⟩ := bind_eq_ok.mp h
  obtain ⟨b, rfl, -, htimes, hindex⟩ := validate_eq_ok hvalid
  have hfields : (Json.obj b).dictOrEmpty = b := rfl
  dsimp only at h
  rw [hfields] at h
  split at h
  · cases h
  next hholds =>
  rw [Bool.not_eq_true, Bool.not_eq_false'] at hholds
  obtain ⟨observed, expiry, hobserved, hexpiry, hfrom, huntil⟩ := holdsAt_eq_true hholds
  split at h
  · cases h
  next hstatus =>
  rw [Bool.not_eq_true, Bool.not_eq_false'] at hstatus
  obtain ⟨ctx, hctx, h⟩ := bind_eq_ok.mp h
  split at h
  · cases h
  next hequals =>
  rw [Bool.not_eq_true, Bool.not_eq_false'] at hequals
  obtain ⟨_, henvelope, h⟩ := bind_eq_ok.mp h
  obtain ⟨quote, hquote, h⟩ := bind_eq_ok.mp h
  split at h
  · cases h
  next hsame =>
  rw [Bool.not_eq_true, Bool.not_eq_false'] at hsame
  obtain ⟨index, hint⟩ := validIndex_eq_true hindex
  rw [hint] at h
  dsimp only at h
  rw [Int.toNat_natCast] at h
  rw [hobserved, hexpiry] at htimes
  cases hentry : (acceptsOf envelope.dictOrEmpty)[index]? with
  | none =>
      rw [hentry] at h
      cases h
  | some entry =>
      rw [hentry] at h
      exact ⟨isInt_iff.mp hstatus, b, rfl,
        { times := ⟨observed, expiry, hobserved, hexpiry, hfrom, huntil, validTimes_eq_true htimes⟩
          request := ⟨ctx, hctx, hequals⟩
          quote := ⟨quote, hquote, eqStr_iff.mp hsame⟩
          valid := henvelope
          entry := ⟨index, entry, hint, hentry, h⟩ }⟩

end Challenges

/-! ## Bindings -/

section Build

variable {p : Platform}

theorem observation_eq_ok {result obs : Dict} (h : observation result = .ok obs) :
    (result.get "binding_observation").dictOrEmpty = obs := by
  unfold observation at h
  split at h
  next hobs =>
    split at h
    · cases h
      rw [hobs]
      rfl
    · cases h
  · cases h

/-- The binding that a route gets. -/
def bindingOf (observed expiry : ℤ) (request : Json) (quote : PyStr) (index : ℕ) : Dict :=
  [("model", .str model), ("observed_at", .int observed), ("expires_at", .int expiry),
    ("request", request), ("quote_sha256", .str quote), ("selected_index", .int index)]

/-- What a binding was made of: a billable winner, the request it was observed for, the entry
of its envelope that is the selected payment, and the digest of the envelope. -/
theorem build_eq_ok {result body binding : Dict} {now : ℤ} (h : build p result body now = .ok binding) :
    billableWinner p.deps p.reader body 200 (.obj result) = true ∧
    ∃ (observed ttl : ℤ) (request : Json) (quote : PyStr) (index : ℕ),
      binding = bindingOf observed (observed + ttl) request quote index ∧
      request = (result.get "binding_observation").dictOrEmpty.get "request" ∧
      validateContext p request = .ok () ∧ result.get "url" = .str (urlOf request) ∧
      selectedIndex p (result.get "envelope") (result.get "selected_payment") = .ok index ∧
      digest p (result.get "envelope") = .ok quote ∧ ttlSeconds p = .ok ttl ∧
      observed ≤ now ∧ now < observed + ttl ∧
      (result.get "binding_observation").dictOrEmpty.get "observed_at" = .int observed ∧
      (result.get "binding_observation").dictOrEmpty.get "quote_sha256" = .str quote := by
  unfold build at h
  split at h
  · cases h
  next hwinner =>
  rw [Bool.not_eq_true, Bool.not_eq_false'] at hwinner
  split at h
  · cases h
  obtain ⟨obs, hobs, h⟩ := bind_eq_ok.mp h
  obtain ⟨_, hcontext, h⟩ := bind_eq_ok.mp h
  dsimp only at h
  split at h
  · cases h
  next hurl =>
  rw [Bool.not_eq_true, Bool.not_eq_false'] at hurl
  obtain ⟨index, hindex, h⟩ := bind_eq_ok.mp h
  obtain ⟨quote, hquote, h⟩ := bind_eq_ok.mp h
  split at h
  · cases h
  next hsame =>
  rw [Bool.not_eq_true, Bool.not_eq_false'] at hsame
  split at h
  · cases h
  split at h
  next observed hobserved =>
    obtain ⟨ttl, httl, h⟩ := bind_eq_ok.mp h
    split at h
    next htime =>
      cases h
      refine ⟨hwinner, observed, ttl, _, quote, index, ?_, ?_, hcontext, eqStr_iff.mp hurl,
        hindex, hquote, httl, htime.1, htime.2, ?_, ?_⟩
      · rw [bindingOf, eqStr_iff.mp hsame]
      · rw [observation_eq_ok hobs]
      · rw [observation_eq_ok hobs, hobserved]
      · rw [observation_eq_ok hobs, eqStr_iff.mp hsame]
    · cases h
  · cases h

/-- The entry that is selected is one of the envelope. -/
theorem selectedIndex_lt {env selected : Json} {index : ℕ}
    (h : selectedIndex p env selected = .ok index) :
    ∃ entry, (acceptsOf env.dictOrEmpty)[index]? = some entry ∧
      matchesAlone p env.dictOrEmpty selected entry = .ok true := by
  obtain ⟨_, -, h⟩ := bind_eq_ok.mp h
  split at h
  · cases h
  obtain ⟨found, hfound, h⟩ := bind_eq_ok.mp h
  split at h
  next accept place =>
    split at h
    · cases h
      obtain ⟨hin, hmatch⟩ := (mem_keepIf hfound).mp List.mem_cons_self
      exact ⟨accept, List.mk_mem_zipIdx_iff_getElem?.mp hin, hmatch⟩
    · cases h
  · cases h

end Build

end Signal402.RouteBinding
