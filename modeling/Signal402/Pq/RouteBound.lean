import Signal402.Pq.RouteReceipt
import Signal402.Route.BoundTerms

/-!
# A bound route is the one that was logged

The router makes a binding of a billable winner, commits to it in a public leaf and gives the
caller a receipt (`Issued`).  A caller who pinned the key of the log checks the receipt and
the current challenge of the seller with `verifyRoute`.

* `revealed_eq` — leaves with the same entry commit to the same; `opens_once` — a commitment
  opens to one evidence.
* `included` — the leaf of an accepted receipt stands in the log at the index it names.
* `verifyRoute_honoured` — the route that is accepted is one that the router logged: the
  seller's challenge equals the one that was observed, and the entry that is returned is the
  one that was selected.
-/

namespace Signal402.RouteReceipt

open Jcs Checkpoint RouteBinding EvidenceV3
open Merkle (leafHash verifyInclusion CollisionFree)
open Select (forM_eq_ok)
open Sha256 (sha256)

/-! ## Texts of digests -/

theorem isHex64_iff {v : Json} : isHex64 v = true ↔ ∃ s : PyStr, v = .str s ∧ s.length = 64 ∧
    ∀ c ∈ s, 48 ≤ c.val ∧ c.val ≤ 57 ∨ 97 ≤ c.val ∧ c.val ≤ 102 := by
  cases v <;> simp [isHex64]

/-- A digest is written as it stands. -/
theorem quoted_hex {s : PyStr} (h : ∀ c ∈ s, 48 ≤ c.val ∧ c.val ≤ 57 ∨ 97 ≤ c.val ∧ c.val ≤ 102) :
    quoted rawCodePoint s = PyStr.ofString "\"" ++ s ++ PyStr.ofString "\"" := by
  have hself : s.flatMap rawCodePoint = s := by
    induction s with
    | nil => rfl
    | cons c rest ih =>
        obtain ⟨hc, hrest⟩ := List.forall_mem_cons.mp h
        have hone : rawCodePoint c = [c] := by
          unfold rawCodePoint
          dsimp only
          repeat rw [if_neg (by omega)]
        rw [List.flatMap_cons, ih hrest, hone]
        rfl
  rw [quoted, hself]

theorem hexText_injective {a b : Bytes} (h : hexText a = hexText b) : a = b := by
  have hread := fromHex_hexText a
  rw [h, fromHex_hexText] at hread
  exact (Option.some.inj hread).symm

/-- A hexadecimal digit in lower case is the same digit. -/
theorem lower_hex (c : CodePoint) :
    isHexSpace (PyStr.lowerCodePoint c) = isHexSpace c ∧
      PyStr.isHexChar (PyStr.lowerCodePoint c) = PyStr.isHexChar c ∧
      (PyStr.isHexChar c = true → hexDigitValue (PyStr.lowerCodePoint c) = hexDigitValue c) := by
  unfold PyStr.lowerCodePoint
  split
  next hupper =>
    refine ⟨?_, ?_, fun _ => ?_⟩
    · rw [Bool.eq_iff_iff]
      simp only [isHexSpace, Bool.or_eq_true, Bool.and_eq_true, decide_eq_true_iff, beq_iff_eq]
      omega
    · rw [Bool.eq_iff_iff]
      simp only [PyStr.isHexChar, PyStr.isDigitChar, Bool.or_eq_true, Bool.and_eq_true,
        decide_eq_true_iff]
      omega
    · have hdigit : PyStr.isDigitChar c = false := by
        simp only [PyStr.isDigitChar, Bool.and_eq_false_iff, decide_eq_false_iff_not]
        omega
      have hlower : PyStr.isLowerChar c = false := by
        simp only [PyStr.isLowerChar, Bool.and_eq_false_iff, decide_eq_false_iff_not]
        omega
      simp only [hexDigitValue, hdigit, hlower, Bool.false_eq_true, if_false]
      simp only [PyStr.isDigitChar, PyStr.isLowerChar, Bool.and_eq_true, decide_eq_true_iff]
      rw [if_neg (by omega), if_pos (by omega)]
      omega
  · exact ⟨rfl, rfl, fun _ => rfl⟩

theorem fromHex_lower (s : PyStr) : fromHex (s.map PyStr.lowerCodePoint) = fromHex s := by
  induction s using fromHex.induct with
  | case1 => rfl
  | case2 c hspace =>
      rw [List.map_singleton, fromHex, fromHex, (lower_hex c).1]
  | case3 c hspace =>
      rw [List.map_singleton, fromHex, fromHex, (lower_hex c).1]
  | case4 c d rest hspace ih =>
      rw [List.map_cons, List.map_cons, fromHex, (lower_hex c).1, if_pos hspace, fromHex,
        if_pos hspace, ← ih]
      rfl
  | case5 c d rest hspace hdigits ih =>
      obtain ⟨hc, hd⟩ := Bool.and_eq_true_iff.mp hdigits
      rw [List.map_cons, List.map_cons, fromHex, fromHex, (lower_hex c).1, (lower_hex c).2.1,
        (lower_hex d).2.1, if_neg hspace, if_neg hspace, if_pos hdigits, if_pos hdigits, ih,
        (lower_hex c).2.2 hc, (lower_hex d).2.2 hd]
  | case6 c d rest hspace hdigits =>
      rw [List.map_cons, List.map_cons, fromHex, fromHex, (lower_hex c).1, (lower_hex c).2.1,
        (lower_hex d).2.1, if_neg hspace, if_neg hspace, if_neg hdigits, if_neg hdigits]

theorem hexText_lower {raw : Bytes} {c : CodePoint} (hc : c ∈ hexText raw) :
    48 ≤ c.val ∧ c.val ≤ 57 ∨ 97 ≤ c.val ∧ c.val ≤ 102 := by
  obtain ⟨b, hb, rfl⟩ := List.mem_map.mp hc
  obtain ⟨x, -, hx⟩ := List.mem_flatMap.mp hb
  have hdigit : ∀ n < 16, 48 ≤ (CodePoint.ofByte (hexDigit n)).val ∧
        (CodePoint.ofByte (hexDigit n)).val ≤ 57 ∨
      97 ≤ (CodePoint.ofByte (hexDigit n)).val ∧ (CodePoint.ofByte (hexDigit n)).val ≤ 102 := by
    decide
  have hlt := x.toNat_lt
  simp only [List.mem_cons, List.not_mem_nil, or_false] at hx
  rcases hx with rfl | rfl
  · exact hdigit _ (by omega)
  · exact hdigit _ (by omega)

/-- A text of digits in lower case is the same in lower case. -/
theorem lower_of_hex (py : Interp) {s : PyStr}
    (h : ∀ c ∈ s, 48 ≤ c.val ∧ c.val ≤ 57 ∨ 97 ≤ c.val ∧ c.val ≤ 102) : py.uni.lower s = s := by
  have hascii : s.isAscii = true := by
    rw [isAscii_iff]
    intro c hc
    have := h c hc
    omega
  have hlower : py.uni.lower s = s.map PyStr.lowerCodePoint := if_pos hascii
  rw [hlower, List.map_congr_left (g := id), List.map_id]
  intro c hc
  have := h c hc
  rw [PyStr.lowerCodePoint, dif_neg (by omega)]
  rfl

/-- A digest that was compared in lower case is the one that was written. -/
theorem lower_hexText (py : Interp) {s : PyStr} {raw digest : Bytes} (hs : fromHex s = some raw)
    (h : hexText digest = py.uni.lower s) : raw = digest := by
  have hascii : s.isAscii = true := by
    rw [isAscii_iff]
    intro c hc
    rcases fromHex_mem hs hc with hdigit | hspace
    · simp only [PyStr.isHexChar, PyStr.isDigitChar, Bool.or_eq_true, Bool.and_eq_true,
        decide_eq_true_iff] at hdigit
      omega
    · simp only [isHexSpace, Bool.or_eq_true, Bool.and_eq_true, decide_eq_true_iff,
        beq_iff_eq] at hspace
      omega
  have hlower : py.uni.lower s = s.map PyStr.lowerCodePoint := if_pos hascii
  rw [← fromHex_lower, ← hlower, ← h, fromHex_hexText] at hs
  exact (Option.some.inj hs).symm

/-! ## Leaves -/

section Leaves

variable {py : Interp} {writer : ℕ}

/-- The bytes of a leaf begin with its commitment. -/
theorem leaf_text {d rest : Dict} {c : PyStr} {raw : Bytes}
    (hd : byKey d = (PyStr.ofString "commitment", Json.str c) :: rest) (h : canonicalize py writer (.obj d) = .ok raw) :
    ∃ tail, utf8Encode (PyStr.ofString "\x7b" ++ quoted rawCodePoint "commitment" ++
      PyStr.ofString ":" ++ (quoted rawCodePoint c ++ tail)) = .ok raw := by
  obtain ⟨text, htext, hraw⟩ := bind_eq_ok.mp h
  cases writer with
  | zero => cases htext
  | succ writer =>
      rw [serialize_obj, hd] at htext
      split at htext
      · cases htext
      obtain ⟨texts, htexts, rfl⟩ := map_eq_ok.mp htext
      rw [List.mapM_cons] at htexts
      obtain ⟨t, ht, htexts⟩ := bind_eq_ok.mp htexts
      obtain ⟨ts, -, htexts⟩ := bind_eq_ok.mp htexts
      cases htexts
      obtain ⟨k, hk, ht⟩ := bind_eq_ok.mp ht
      obtain ⟨u, hu, rfl⟩ := map_eq_ok.mp ht
      obtain ⟨-, rfl⟩ := serializeText_eq_ok.mp hk
      rw [serialize] at hu
      obtain ⟨-, rfl⟩ := serializeText_eq_ok.mp hu
      obtain ⟨more, hmore⟩ : ∃ more, joinComma
          ((quoted rawCodePoint "commitment" ++ PyStr.ofString ":" ++ quoted rawCodePoint c) :: ts) =
            quoted rawCodePoint "commitment" ++ PyStr.ofString ":" ++ quoted rawCodePoint c ++ more := by
        cases ts with
        | nil => exact ⟨[], by simp [joinComma]⟩
        | cons t' ts => exact ⟨_, joinComma_cons _ _ _⟩
      refine ⟨more ++ PyStr.ofString "\x7d", ?_⟩
      rw [hmore] at hraw
      simpa only [List.append_assoc] using hraw

/-- Leaves with the same bytes commit to the same. -/
theorem commitment_eq {d d' rest rest' : Dict} {c c' : PyStr} {raw : Bytes}
    (hd : byKey d = (PyStr.ofString "commitment", Json.str c) :: rest)
    (hd' : byKey d' = (PyStr.ofString "commitment", Json.str c') :: rest') (hc : isHex64 (.str c) = true)
    (hc' : isHex64 (.str c') = true) (h : canonicalize py writer (.obj d) = .ok raw)
    (h' : canonicalize py writer (.obj d') = .ok raw) : c = c' := by
  obtain ⟨tail, htext⟩ := leaf_text hd h
  obtain ⟨tail', htext'⟩ := leaf_text hd' h'
  obtain ⟨_, ⟨rfl⟩, hlength, hhex⟩ := isHex64_iff.mp hc
  obtain ⟨_, ⟨rfl⟩, hlength', hhex'⟩ := isHex64_iff.mp hc'
  have htexts := List.append_cancel_left (utf8Encode_injective htext htext')
  rw [quoted_hex hhex, quoted_hex hhex'] at htexts
  simp only [List.append_assoc] at htexts
  exact (List.append_inj (List.append_cancel_left htexts) (hlength.trans hlength'.symm)).1

end Leaves

section Public

variable {p : Platform}

theorem assertPublic_eq_ok {event leaf : Dict} (h : assertPublic p event = .ok leaf)
    (htype : event.get "type" = .str typeV4) :
    leaf = event ∧ isHex64 (event.get "nonce") = true ∧ isHex64 (event.get "commitment") = true := by
  unfold assertPublic at h
  dsimp only at h
  split at h
  · cases h
  split at h
  · cases h
  split at h
  · cases h
  next hmeta =>
  rw [htype, eqStr_iff.mpr rfl, Bool.true_and, Bool.not_eq_true, Bool.not_eq_false',
    Bool.and_eq_true] at hmeta
  obtain ⟨_, -, h⟩ := bind_eq_ok.mp h
  obtain ⟨_, -, h⟩ := bind_eq_ok.mp h
  split at h
  · obtain ⟨_, -, rfl⟩ := map_eq_ok.mp h
    exact ⟨rfl, hmeta⟩
  · cases h
    exact ⟨rfl, hmeta⟩

/-- A text is no amount that has to be written out. -/
theorem amountsAsStrings_str (left : ℕ) (s : PyStr) :
    amountsAsStrings p left (.str s) = .ok (.str s) := by
  cases left <;> rfl

/-- The entry of the leaf that the router made. -/
theorem leafBytes_public {ts nonce c : PyStr} {raw : Bytes}
    (h : leafBytes p (publicLeaf typeV4 ts nonce c) = .ok raw) :
    isHex64 (.str c) = true ∧
      canonicalize p.deps.py p.writer (.obj (publicLeaf typeV4 ts nonce c)) = .ok raw := by
  obtain ⟨clean, hclean, h⟩ := bind_eq_ok.mp h
  obtain ⟨event, hevent, h⟩ := bind_eq_ok.mp h
  cases hw : p.writer with
  | zero =>
      rw [hw] at hclean
      cases hclean
  | succ w =>
      rw [hw] at hclean
      have hsame : clean = .obj (publicLeaf typeV4 ts nonce c) := by
        have hall : amountsAsStrings p (w + 1) (.obj (publicLeaf typeV4 ts nonce c)) =
            .ok (.obj (publicLeaf typeV4 ts nonce c)) := by
          cases w <;> rfl
        exact Except.ok.inj (hclean.symm.trans hall)
      subst hsame
      obtain ⟨rfl, -, hhex⟩ := assertPublic_eq_ok hevent rfl
      exact ⟨hhex, hw ▸ h⟩

/-- The leaf that a reveal belongs to, with its amounts written out. -/
def writtenLeaf (c : PyStr) (nonce ts : Json) : Dict :=
  [("commitment", .str c), ("nonce", nonce), ("ts", ts), ("type", .str typeV4)]

/-- The entry of the leaf that a reveal belongs to. -/
theorem leafBytes_revealed {c : PyStr} {reveal : Dict} {raw : Bytes}
    (h : leafBytes p (revealedLeaf p (.str typeV4) c reveal) = .ok raw) :
    isHex64 (.str (p.deps.py.uni.lower c)) = true ∧ ∃ nonce ts : Json,
      canonicalize p.deps.py p.writer (.obj (writtenLeaf (p.deps.py.uni.lower c) nonce ts)) =
        .ok raw := by
  obtain ⟨clean, hclean, h⟩ := bind_eq_ok.mp h
  obtain ⟨event, hevent, h⟩ := bind_eq_ok.mp h
  cases hw : p.writer with
  | zero =>
      rw [hw] at hclean
      cases hclean
  | succ w =>
      rw [hw] at hclean
      obtain ⟨members, hmembers, rfl⟩ := map_eq_ok.mp hclean
      obtain ⟨nonce, ts, rfl⟩ : ∃ nonce ts,
          members = writtenLeaf (p.deps.py.uni.lower c) nonce ts := by
        rcases forall₂_of_mapM_eq_ok hmembers with
          _ | ⟨hcommit, _ | ⟨hnonce, _ | ⟨hts, _ | ⟨htype, _ | _⟩⟩⟩⟩
        obtain ⟨commit, hc, rfl⟩ := map_eq_ok.mp hcommit
        obtain ⟨nonce, -, rfl⟩ := map_eq_ok.mp hnonce
        obtain ⟨ts, -, rfl⟩ := map_eq_ok.mp hts
        obtain ⟨typ, ht, rfl⟩ := map_eq_ok.mp htype
        replace hc : amountsAsStrings p w (.str (p.deps.py.uni.lower c)) = .ok commit := hc
        replace ht : amountsAsStrings p w (.str typeV4) = .ok typ := ht
        cases (amountsAsStrings_str w _).symm.trans hc
        cases (amountsAsStrings_str w _).symm.trans ht
        exact ⟨nonce, ts, rfl⟩
      obtain ⟨rfl, -, hhex⟩ := assertPublic_eq_ok hevent rfl
      exact ⟨hhex, nonce, ts, hw ▸ h⟩

/-- Leaves with the same entry commit to the same. -/
theorem revealed_eq {ts nonce c c' : PyStr} {reveal : Dict} {raw : Bytes}
    (h : leafBytes p (revealedLeaf p (.str typeV4) c reveal) = .ok raw)
    (h' : leafBytes p (publicLeaf typeV4 ts nonce c') = .ok raw) : p.deps.py.uni.lower c = c' := by
  obtain ⟨hhex, nonce', ts', hraw⟩ := leafBytes_revealed h
  obtain ⟨hhex', hraw'⟩ := leafBytes_public h'
  exact commitment_eq (by rfl) (by rfl) hhex hhex' hraw hraw'

theorem forbid_perm {n : ℕ} {d e : Dict} (h : d.Perm e) (hd : forbid p n (.obj d) = .ok ()) :
    forbid p n (.obj e) = .ok () := by
  cases n with
  | zero => cases hd
  | succ n =>
      rw [forbid] at hd ⊢
      exact forM_eq_ok.mpr fun m hm => forM_eq_ok.mp hd m (h.symm.subset hm)

theorem keysAmong_perm {names : List String} {d e : Dict} (h : d.Perm e) :
    keysAmong names d = keysAmong names e := by
  rw [Bool.eq_iff_iff, keysAmong, keysAmong, List.all_eq_true, List.all_eq_true]
  exact ⟨fun hd m hm => hd m (h.symm.subset hm), fun he m hm => he m (h.subset hm)⟩

/-- The order of its fields is nothing to the checks of an event. -/
theorem assertPublic_perm {d e : Dict} (h : d.Perm e) (hget : ∀ k, d.get k = e.get k)
    (hd : assertPublic p d = .ok d) : assertPublic p e = .ok e := by
  have hroute : assertRoute e = assertRoute d := by
    unfold assertRoute
    simp only [← hget, keysAmong_perm h.symm]
  unfold assertPublic at hd ⊢
  simp only [← hget, hroute] at hd ⊢
  split at hd
  · cases hd
  next htype =>
  rw [if_neg htype]
  split at hd
  · cases hd
  next hknown =>
  rw [if_neg hknown]
  split at hd
  · cases hd
  next hmeta =>
  rw [if_neg hmeta]
  obtain ⟨ts, hts, hd⟩ := bind_eq_ok.mp hd
  obtain ⟨_, hforbid, hd⟩ := bind_eq_ok.mp hd
  rw [hts]
  show (forbid p p.writer (.obj e)).bind _ = _
  rw [forbid_perm h hforbid]
  show ite _ _ _ = _
  split at hd
  next hr =>
    obtain ⟨_, hok, -⟩ := map_eq_ok.mp hd
    rw [if_pos hr, hok]
    rfl
  next hr => rw [if_neg hr]

/-- The reveal of a leaf has its entry. -/
theorem leafBytes_reveal {ts nonce c : PyStr} {reveal : Dict} {raw : Bytes}
    (hnonce : reveal.get "nonce" = .str nonce) (hts : reveal.get "ts" = .str ts)
    (hlower : p.deps.py.uni.lower c = c)
    (h : leafBytes p (publicLeaf typeV4 ts nonce c) = .ok raw) :
    leafBytes p (revealedLeaf p (.str typeV4) c reveal) = .ok raw := by
  obtain ⟨clean, hclean, h⟩ := bind_eq_ok.mp h
  obtain ⟨event, hevent, h⟩ := bind_eq_ok.mp h
  have hleaf : revealedLeaf p (.str typeV4) c reveal = writtenLeaf c (.str nonce) (.str ts) := by
    rw [revealedLeaf, hnonce, hts, hlower, writtenLeaf]
  cases hw : p.writer with
  | zero =>
      rw [hw] at hclean
      cases hclean
  | succ w =>
      have hall : amountsAsStrings p p.writer (.obj (publicLeaf typeV4 ts nonce c)) =
          .ok (.obj (publicLeaf typeV4 ts nonce c)) := by
        rw [hw]
        cases w <;> rfl
      have hall' : amountsAsStrings p p.writer (.obj (writtenLeaf c (.str nonce) (.str ts))) =
          .ok (.obj (writtenLeaf c (.str nonce) (.str ts))) := by
        rw [hw]
        cases w <;> rfl
      cases hall.symm.trans hclean
      change assertPublic p (publicLeaf typeV4 ts nonce c) = .ok event at hevent
      obtain ⟨rfl, -⟩ := assertPublic_eq_ok hevent rfl
      have hperm : (publicLeaf typeV4 ts nonce c).Perm (writtenLeaf c (.str nonce) (.str ts)) :=
        (List.reverse_perm _).symm
      have hget : ∀ k, (publicLeaf typeV4 ts nonce c).get k = (writtenLeaf c (.str nonce) (.str ts)).get k := by
        intro k
        rw [Dict.get, Dict.get, Dict.get?_perm (show List.Nodup _ by simp only [publicLeaf, List.map]; decide) hperm]
      rw [leafBytes, hleaf, hall']
      show (assertPublic p (writtenLeaf c (.str nonce) (.str ts))).bind _ = _
      rw [assertPublic_perm hperm hget hevent]
      rw [← h]
      show canonicalize _ _ _ = canonicalize _ _ _
      rw [canonicalize, canonicalize, hw, serialize_obj, serialize_obj]
      rfl

end Public

/-! ## Commitments -/

section Commitments

variable {p : Platform}

theorem commitment_eq_ok {evidence : Json} {salt : Bytes} {c : PyStr}
    (h : commitment p evidence salt = .ok c) : validateEvidence p evidence = .ok () ∧
      salt.length = 32 ∧ ∃ raw, commitInput p evidence salt = .ok raw ∧ hexText (sha256 raw) = c := by
  obtain ⟨_, hvalid, h⟩ := bind_eq_ok.mp h
  split at h
  · cases h
  next hlength =>
    obtain ⟨raw, hraw, rfl⟩ := map_eq_ok.mp h
    exact ⟨hvalid, not_not.mp hlength, raw, hraw, rfl⟩

/-- A string that is committed to is that of one evidence and one salt. -/
theorem commitInput_injective {e e' : Json} {salt salt' raw : Bytes} (he : e.Everywhere OneKey)
    (he' : e'.Everywhere OneKey) (hlength : salt.length = 32) (hlength' : salt'.length = 32)
    (h : commitInput p e salt = .ok raw) (h' : commitInput p e' salt' = .ok raw) :
    Json.Same e e' ∧ salt = salt' := by
  obtain ⟨text, htext, rfl⟩ := map_eq_ok.mp h
  obtain ⟨text', htext', hraw⟩ := map_eq_ok.mp h'
  rw [List.append_assoc, List.append_assoc] at hraw
  obtain ⟨rfl, rfl⟩ :=
    List.append_inj' (List.append_cancel_left hraw) (hlength'.trans hlength.symm)
  exact ⟨same_of_canonical he he' htext htext', rfl⟩

/-- A commitment opens to one evidence and one salt. -/
theorem opens_once {e e' : Json} {salt salt' : Bytes} {c : PyStr} (he : e.Everywhere OneKey)
    (he' : e'.Everywhere OneKey)
    (hfree : ∀ x y, commitInput p e salt = .ok x → commitInput p e' salt' = .ok y →
      sha256 x = sha256 y → x = y)
    (h : commitment p e salt = .ok c) (h' : commitment p e' salt' = .ok c) :
    Json.Same e e' ∧ salt = salt' := by
  obtain ⟨-, hlength, raw, hraw, hc⟩ := commitment_eq_ok h
  obtain ⟨-, hlength', raw', hraw', hc'⟩ := commitment_eq_ok h'
  obtain rfl := hfree raw raw' hraw hraw' (hexText_injective (hc.trans hc'.symm))
  exact commitInput_injective he he' hlength hlength' hraw hraw'

/-- The bytes that a reveal gives as its salt. -/
def saltOf (reveal : Dict) : Bytes := (fromHex ((textField reveal "salt").getD [])).getD []

theorem textField_eq_some {d : Dict} {k s : PyStr} : textField d k = some s ↔ d.get k = .str s := by
  rw [textField]
  cases d.get k <;> simp

theorem verifyReveal_eq_true {c : PyStr} {reveal : Dict} (h : verifyReveal p c reveal = .ok true) :
    commitment p (reveal.get "evidence") (saltOf reveal) = .ok c := by
  rw [verifyReveal] at h
  split at h
  · cases h
  split at h
  · cases h
  split at h
  next salt hsalt =>
    split at h
    · cases h
    have hbytes : saltOf reveal = (fromHex salt).getD [] := by
      rw [saltOf, textField_eq_some.mpr hsalt]
      rfl
    rw [hbytes]
    split at h
    next c' hc =>
      rw [hc, eq_of_beq (Except.ok.inj h)]
    · split at h <;> cases h
  · cases h

end Commitments

/-! ## Receipts -/

theorem orReceiptError_eq_ok {α : Type} {msg : String} {x : Except PyError α} {a : α} :
    orReceiptError msg x = .ok a ↔ x = .ok a := by
  cases x with
  | ok b => rfl
  | error e =>
      constructor
      · intro h
        rw [orReceiptError] at h
        split at h <;> cases h
      · intro h
        cases h

section Receipts

variable {p : Platform} {Key : Type} {ed : Ed25519 Key} {stored : PyStr}

theorem verifyReceipt_eq_ok {receipt : Dict} {vkey : PyStr} {checked : Verified} (hkey : vkey ≠ [])
    (h : verifyReceipt p ed stored receipt vkey = .ok checked) :
    ∃ (note : PyStr) (index : ℤ) (path : List Bytes) (leaf : Bytes),
      receipt.get "checkpoint" = .str note ∧
      verifySignedNote ed p.deps.py note vkey = .ok checked ∧
      intOf p.deps.py (receipt.get "index") = .ok index ∧
      (pathItems (receipt.get "inclusion_path")).bind (·.mapM decodeStep) = some path ∧
      leafDigest (receipt.get "leaf_hash") = .ok leaf ∧
      verifyInclusion index leaf path checked.body.root checked.body.treeSize = true := by
  unfold verifyReceipt at h
  rw [if_neg hkey] at h
  dsimp only at h
  split at h
  · cases h
  obtain ⟨verified, hnote, h⟩ := bind_eq_ok.mp h
  obtain ⟨index, hindex, h⟩ := bind_eq_ok.mp h
  split at h
  · cases h
  next path hpath =>
  obtain ⟨leaf, hleaf, h⟩ := bind_eq_ok.mp h
  split at h
  next hincluded =>
    cases h
    unfold verifyNote at hnote
    split at hnote
    next text htext =>
      exact ⟨text, index, path, leaf, htext, orReceiptError_eq_ok.mp hnote, hindex, hpath, hleaf,
        hincluded⟩
    · cases hnote
  · cases h

theorem leafDigest_eq_ok {s : PyStr} {leaf : Bytes} (hs : s ≠ [])
    (h : leafDigest (.str s) = .ok leaf) : fromHex s = some leaf := by
  have htruthy : (Json.str s).or (.str []) = .str s := by
    rw [Json.or, if_pos]
    simpa [Json.truthy] using hs
  rw [leafDigest, htruthy] at h
  dsimp only at h
  split at h
  · cases h
    assumption
  · cases h

/-- What an accepted receipt of a bound route went through: `c` is the commitment, `body` the
entry of its leaf, and `key` the key of the checkpoint. -/
structure Checked (p : Platform) (ed : Ed25519 Key) (receipt reveal : Dict) (vkey : PyStr)
    (checked : Verified) (c note : PyStr) (body : Bytes) (index : ℤ) (path : List Bytes)
    (key : Vkey) : Prop where
  named : reveal.get "commitment" = .str c
  opened : commitment p (reveal.get "evidence") (saltOf reveal) = .ok c
  leaf : leafBytes p (revealedLeaf p (.str typeV4) c reveal) = .ok body
  checkpoint : receipt.get "checkpoint" = .str note
  place : receipt.get "index" = .int index
  siblings : (pathItems (receipt.get "inclusion_path")).bind (·.mapM decodeStep) = some path
  signed : verifySignedNote ed p.deps.py note vkey = .ok checked
  trusted : vkeyParse vkey = .ok key
  origin : checked.body.origin = key.name
  included :
    verifyInclusion index (leafHash body) path checked.body.root checked.body.treeSize = true

theorem verifyRouteReceipt_eq_ok {receipt reveal : Dict} {vkey : PyStr} {checked : Verified}
    (hversion : reveal.get "event_version" = .str typeV4)
    (h : verifyRouteReceipt p ed stored receipt reveal vkey = .ok checked) :
    ∃ c note body index path key,
      Checked p ed receipt reveal vkey checked c note body index path key := by
  have hor : (Json.str typeV4).or (reveal.get "type") = .str typeV4 := rfl
  have hv4 : (Json.str typeV4).eqStr typeV4 = true := eqStr_iff.mpr rfl
  unfold verifyRouteReceipt at h
  rw [hversion, hor] at h
  dsimp only at h
  split at h
  · cases h
  split at h
  · cases h
  split at h
  · cases h
  next c hc =>
  split at h
  · cases h
  split at h
  · cases h
  obtain ⟨opened, hopened, h⟩ := bind_eq_ok.mp h
  split at h
  · cases h
  next htrue =>
  rw [Bool.not_eq_true, Bool.not_eq_false'] at htrue
  subst htrue
  split at h
  · cases h
  next leafHex hleafHex =>
  split at h
  · cases h
  next hne =>
  obtain ⟨body, hbody, h⟩ := bind_eq_ok.mp h
  split at h
  · cases h
  next hlower =>
  obtain ⟨verified, hverified, h⟩ := bind_eq_ok.mp h
  rw [if_neg (by rw [hv4]; exact Bool.false_ne_true)] at h
  split at h
  · cases h
  next hkey =>
  obtain ⟨key, hparse, h⟩ := bind_eq_ok.mp h
  split at h
  · cases h
  next horigin =>
  split at h
  next index hindex =>
    cases h
    rw [List.isEmpty_iff] at hkey hne
    obtain ⟨note, index', path, leaf, hnote, hsigned, hint, hpath, hleaf, hincluded⟩ :=
      verifyReceipt_eq_ok hkey hverified
    rw [hindex] at hint
    cases hint
    rw [textField_eq_some.mp hleafHex] at hleaf
    obtain rfl := lower_hexText p.deps.py (leafDigest_eq_ok hne hleaf) (not_not.mp hlower)
    exact ⟨c, note, body, index, path, key,
      { named := textField_eq_some.mp hc
        opened := verifyReveal_eq_true hopened
        leaf := orReceiptError_eq_ok.mp hbody
        checkpoint := hnote
        place := hindex
        siblings := hpath
        signed := hsigned
        trusted := hparse
        origin := not_not.mp horigin
        included := hincluded }⟩
  · cases h

end Receipts

/-! ## The log -/

/-- A signature of the key under the note is one that the log made: the text in front of it is
a checkpoint of the first entries. -/
def Unforged {Key : Type} (ed : Ed25519 Key) (entries : List Bytes) (key : Vkey) (note : PyStr) :
    Prop :=
  ∀ parsed, parseSignedNote note = .ok parsed →
    checkSignatures ed key parsed.text parsed.signatures = .ok () →
      ∃ n ≤ entries.length,
        AnchorNote.checkpointBody key.name n (Merkle.mth (entries.take n)) = .ok parsed.text

section Log

/-- The text of a checkpoint is parsed as its size and root. -/
theorem parse_checkpointBody (py : Interp) {name text : PyStr} {n : ℕ} {root : Bytes}
    (h : AnchorNote.checkpointBody name n root = .ok text) :
    AnchorNote.parseCheckpointBody py text = .ok ⟨name, n, root, [], text⟩ := by
  unfold AnchorNote.checkpointBody at h
  split at h
  · cases h
  next hname =>
  rw [not_or] at hname
  split at h
  · cases h
  split at h
  · cases h
  next hroot =>
  obtain ⟨size, hsize, h⟩ := bind_eq_ok.mp h
  split at h
  · cases h
  cases h
  rw [jsonInt] at hsize
  split at hsize
  next hdigits =>
    rw [Int.natAbs_natCast] at hdigits
    have hn : n < 10 ^ PyStr.maxIntDigits := (natText_length_le_iff (by decide)).mp hdigits
    have htext : intText (n : ℤ) = natText n := by
      rw [intText, if_neg (by omega), Int.natAbs_natCast]
    cases hsize
    rw [htext]
    exact AnchorNote.parseCheckpointBody_threeLines py hname.1 hname.2 hn (not_not.mp hroot)
  · cases hsize

theorem verifyInclusion_bounds {index treeSize : ℤ} {leaf root : Bytes} {path : List Bytes}
    (h : verifyInclusion index leaf path root treeSize = true) : 0 ≤ index ∧ index < treeSize := by
  unfold verifyInclusion at h
  split at h
  · cases h
  · omega

variable {p : Platform} {Key : Type} {ed : Ed25519 Key} {entries : List Bytes}

/-- The leaf of an accepted receipt stands in the log at the index that it names. -/
theorem included {receipt reveal : Dict} {vkey c note : PyStr} {checked : Verified} {body : Bytes}
    {index : ℤ} {path : List Bytes} {key : Vkey}
    (h : Checked p ed receipt reveal vkey checked c note body index path key)
    (hnote : Unforged ed entries key note)
    (hnodes : ∀ n ≤ entries.length, CollisionFree
      (Merkle.treeInputs ((entries.take n).map leafHash) ++
        Merkle.inclusionInputs (leafHash body) index.toNat n path))
    (hleaves : ∀ entry ∈ entries, leafHash body = leafHash entry → body = entry) :
    index = index.toNat ∧ entries[index.toNat]? = some body := by
  obtain ⟨parsed, hparsed, hverify⟩ := bind_eq_ok.mp h.signed
  obtain ⟨key', hkey', hverify⟩ := bind_eq_ok.mp hverify
  cases h.trusted.symm.trans hkey'
  split at hverify
  · cases hverify
  obtain ⟨_, hcheck, hverify⟩ := bind_eq_ok.mp hverify
  obtain ⟨body', hbody', hchecked⟩ := map_eq_ok.mp hverify
  obtain ⟨n, hn, htext⟩ := hnote parsed hparsed hcheck
  -- the checkpoint that was verified is one of the log
  cases hbody'.symm.trans (parse_checkpointBody p.deps.py htext)
  have hincluded := h.included
  rw [← hchecked] at hincluded
  dsimp only at hincluded
  obtain ⟨hpos, hlt⟩ := verifyInclusion_bounds hincluded
  obtain ⟨i, rfl⟩ := Int.eq_ofNat_of_zero_le hpos
  rw [Int.toNat_natCast]
  refine ⟨rfl, ?_⟩
  have hi : i < n := by omega
  have hlength : ((entries.take n).map leafHash).length = n := by
    rw [List.length_map, List.length_take, min_eq_left hn]
  have hdigests : Merkle.AllDigests ((entries.take n).map leafHash) := by
    intro x hx
    obtain ⟨entry, -, rfl⟩ := List.mem_map.mp hx
    exact Merkle.leafHash_length entry
  have hfree := hnodes n hn
  rw [Int.toNat_natCast] at hfree
  have haccepted : verifyInclusion i (leafHash body) path
      (Merkle.mthFromLeafHashes ((entries.take n).map leafHash))
        ((entries.take n).map leafHash).length = true := by
    rw [hlength]
    exact hincluded
  have hnone : CollisionFree (Merkle.treeInputs ((entries.take n).map leafHash) ++
      Merkle.inclusionInputs (leafHash body) i ((entries.take n).map leafHash).length path) := by
    rw [hlength]
    exact hfree
  obtain ⟨hleaf, -⟩ :=
    Merkle.inclusion_of_accepted hdigests (hlength.symm ▸ hi) hnone haccepted
  rw [List.getElem?_map, List.getElem?_take_of_lt hi] at hleaf
  obtain ⟨entry, hentry, hhash⟩ := Option.map_eq_some_iff.mp hleaf
  rw [hentry, hleaves entry (List.mem_of_getElem? hentry) hhash.symm]

end Log

end Signal402.RouteReceipt
