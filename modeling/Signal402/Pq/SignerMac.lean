import Signal402.Base.Decimal
import Signal402.Base.Hex
import Signal402.Base.Utf8
import Signal402.Lib.Lines
import Signal402.Route.StoredOutcome

/-!
# The MAC inputs of the signer protocol (`pq/signer_mainnet.py`)

The request is a list of `key=value` lines in the order of the keys, the response a list of
fields with their lengths in front.  The checkpoint of a request may have lines of its
own, and so may the texts of its hex nodes, since `bytes.fromhex` skips white space; but no
node has a `=`, and no other value a line end, so that everything behind the checkpoint is
found from the end of the text.
-/

namespace Signal402.SignerMac

open Replay (intValue)

def newline : CodePoint := CodePoint.ofChar '\n'

def equals : CodePoint := CodePoint.ofChar '='

def comma : CodePoint := CodePoint.ofChar ','

def signerProtocol : PyStr := "pq-anchor/3"

def requestVersion : ℤ := 3

def responseVersion : PyStr := "pq-anchor-response/1"

def hmacSizeVersion : PyStr := "1"

def hmacSizeRule : PyStr := "deterministic_falcon_envelope_estimate"

/-- `SignerClientError`, a `RuntimeError`. -/
def signerClientError (msg : String) : PyError := ⟨.runtimeError, msg⟩

/-! ## Policy -/

def policyKeys : List PyStr :=
  ["canonical_fee", "fee_per_byte", "fv", "last_round", "lv", "min_fee", "size_rule",
    "size_version", "snapshot_at"]

/-- What `narrow_policy` returns. -/
structure NarrowPolicy where
  canonicalFee : ℤ
  feePerByte : ℤ
  fv : ℤ
  lastRound : ℤ
  lv : ℤ
  minFee : ℤ
  sizeRule : PyStr
  sizeVersion : PyStr
  snapshotAt : ℤ
  deriving DecidableEq

section Requests

variable (py : Interp)

/-- `int(policy[key])`, with the exceptions that the source takes for a missing field. -/
def policyInt (policy : Dict) (key : PyStr) : Except PyError ℤ :=
  match intValue py (Dict.get policy key) with
  | .ok n => .ok n
  | .error e =>
      if e.cls.isA .typeError ∨ e.cls.isA .valueError then
        .error (signerClientError "policy field missing")
      else .error e

def narrowPolicy (policy : Json) : Except PyError NarrowPolicy :=
  match policy with
  | .obj policy =>
      if policyKeys.any fun key => (Dict.get policy key).isBlank then
        .error (signerClientError "policy field missing")
      else
        (policyInt py policy "last_round").bind fun lastRound =>
        (policyInt py policy "min_fee").bind fun minFee =>
        (policyInt py policy "fee_per_byte").bind fun feePerByte =>
        (policyInt py policy "fv").bind fun fv =>
        (policyInt py policy "lv").bind fun lv =>
        (policyInt py policy "canonical_fee").bind fun canonicalFee =>
        (policyInt py policy "snapshot_at").bind fun snapshotAt =>
          let sizeRule := py.str (Dict.get policy "size_rule")
          match Dict.get policy "size_version" with
          | .str sizeVersion =>
              if sizeVersion ≠ hmacSizeVersion then
                .error (signerClientError "policy field missing")
              else if lastRound < 1 ∨ fv < 1 ∨ lv < 1 then
                .error (signerClientError "policy field missing")
              else if minFee < 1 ∨ canonicalFee < 1 then
                .error (signerClientError "policy field missing")
              else if feePerByte < 0 ∨ snapshotAt < 1 then
                .error (signerClientError "policy field missing")
              else if sizeRule ≠ hmacSizeRule then
                .error (signerClientError "policy field missing")
              else .ok { canonicalFee, feePerByte, fv, lastRound, lv, minFee, sizeRule,
                         sizeVersion, snapshotAt }
          | _ => .error (signerClientError "policy field missing")
  | _ => .error (signerClientError "policy required")

/-! ## Hex nodes -/

/-- A root or a node of a proof: bytes, or a value that `str` makes a text of. -/
inductive HexValue
  | bytes (raw : Bytes)
  | value (x : Json)

/-- `_hex_node`. -/
def hexNode : HexValue → Except PyError PyStr
  | .bytes raw => .ok (hexText raw)
  | .value x =>
      let low := py.uni.lower (py.str x).strip
      let text := if PyStr.startsWith low "0x" then low.drop 2 else low
      if (fromHex text).isSome then .ok text else .error (signerClientError "invalid hex")

/-- A consistency proof: `None`, a text with commas, or a list. -/
inductive Nodes
  | none
  | text (s : PyStr)
  | list (nodes : List HexValue)

/-- The node texts that `_consistency_csv` joins. -/
def nodeTexts : Nodes → Except PyError (List PyStr)
  | .none => .ok []
  | .text s => ((s.splitOn comma).filter fun part => !part.isEmpty).mapM fun part =>
      hexNode py (.value (.str part))
  | .list nodes => nodes.mapM (hexNode py)

/-- `_consistency_csv`. -/
def consistencyCsv (nodes : Nodes) : Except PyError PyStr :=
  (nodeTexts py nodes).map fun texts => [comma].intercalate texts

/-! ## Requests -/

/-- The arguments of `canonical_bytes`. -/
structure Request where
  origin : Option PyStr
  treeSize : Json
  root : HexValue
  consistency : Nodes
  timestamp : Json
  requestId : Option PyStr
  checkpoint : Option PyStr
  policy : Json
  v : Json

/-- The fields of the MAC, in the order of `CANONICAL_KEYS`, which is sorted. -/
def canonicalFields (r : Request) (consistency root : PyStr) (timestamp treeSize : ℤ)
    (policy : NarrowPolicy) : List (PyStr × PyStr) :=
  [("canonical_fee", intText policy.canonicalFee),
    ("checkpoint", r.checkpoint.getD []),
    ("consistency", consistency),
    ("fee_per_byte", intText policy.feePerByte),
    ("fv", intText policy.fv),
    ("last_round", intText policy.lastRound),
    ("lv", intText policy.lv),
    ("min_fee", intText policy.minFee),
    ("origin", r.origin.getD []),
    ("request_id", r.requestId.getD []),
    ("root", root),
    ("size_rule", policy.sizeRule),
    ("size_version", policy.sizeVersion),
    ("snapshot_at", intText policy.snapshotAt),
    ("timestamp", intText timestamp),
    ("tree_size", intText treeSize),
    ("v", signerProtocol)]

/-- `"\n".join(parts) + "\n"`. -/
def macText (fields : List (PyStr × PyStr)) : PyStr :=
  [newline].intercalate (signerProtocol :: fields.map fun f => f.1 ++ equals :: f.2) ++ [newline]

def canonicalBytes (r : Request) : Except PyError Bytes :=
  (intValue py r.v).bind fun v =>
    if v ≠ requestVersion then .error (signerClientError "unsupported version")
    else
      (consistencyCsv py r.consistency).bind fun consistency =>
      (hexNode py r.root).bind fun root =>
      (intValue py r.timestamp).bind fun timestamp =>
      (intValue py r.treeSize).bind fun treeSize =>
      (narrowPolicy py r.policy).bind fun policy =>
        utf8Encode (macText (canonicalFields r consistency root timestamp treeSize policy))

end Requests

/-! ## Responses -/

/-- The arguments of `response_canonical_bytes`; their types are checked by the source. -/
structure Response where
  requestVersion : PyStr
  origin : PyStr
  requestHmac : PyStr
  requestId : PyStr
  checkpoint : PyStr
  treeSize : ℤ
  root : PyStr
  pqsig : PyStr
  signed : Bytes

/-- `_response_field`. -/
def responseField (key : PyStr) (value : Bytes) : Bytes :=
  Lines.field (fun n => asciiBytes (natText n)) (61 : UInt8) 58 10 (asciiBytes key) value

section Responses

variable (py : Interp)

def responseCanonicalBytes (r : Response) : Except PyError Bytes :=
  if r.requestVersion ≠ signerProtocol then .error (signerClientError "response hmac")
  else if r.treeSize < 0 ∨ 2 ^ 64 ≤ r.treeSize then .error (signerClientError "response hmac")
  else
    (utf8Encode r.checkpoint).bind fun checkpoint =>
    (utf8Encode r.origin).bind fun origin =>
    (utf8Encode r.pqsig).bind fun pqsig =>
    (asciiEncode (py.uni.lower r.requestHmac)).bind fun requestHmac =>
    (utf8Encode r.requestId).bind fun requestId =>
    (asciiEncode r.requestVersion).bind fun requestV =>
    (asciiEncode (py.uni.lower r.root)).bind fun root =>
    (asciiEncode (intText r.treeSize)).map fun treeSize =>
      asciiBytes responseVersion ++ [10] ++
        ([("checkpoint", checkpoint), ("origin", origin), ("pqsig", pqsig),
          ("request_hmac", requestHmac), ("request_id", requestId), ("request_v", requestV),
          ("root", root), ("signed", r.signed), ("tree_size", treeSize)] :
            List (String × Bytes)).flatMap fun f => responseField f.1 f.2

end Responses

/-! ## What the texts are free of -/

/-- A node has neither a mark nor a comma. -/
theorem hexNode_free {py : Interp} {x : HexValue} {t : PyStr} (h : hexNode py x = .ok t) :
    equals ∉ t ∧ comma ∉ t := by
  have hchars : ∀ c ∈ t, PyStr.isHexChar c = true ∨ isHexSpace c = true := by
    intro c hc
    cases x with
    | bytes raw =>
        obtain rfl := Except.ok.inj h
        exact .inl (hexText_mem hc)
    | value x =>
        simp only [hexNode] at h
        generalize (if PyStr.startsWith (py.uni.lower (py.str x).strip) "0x" then
          (py.uni.lower (py.str x).strip).drop 2 else py.uni.lower (py.str x).strip) = text at h
        split at h
        · rename_i hreads
          obtain ⟨raw, hraw⟩ := Option.isSome_iff_exists.mp hreads
          obtain rfl := Except.ok.inj h
          exact fromHex_mem hraw hc
        · cases h
  constructor
  · intro hc
    exact absurd (hchars equals hc) (by decide)
  · intro hc
    exact absurd (hchars comma hc) (by decide)

theorem nodeTexts_free {py : Interp} {nodes : Nodes} {texts : List PyStr}
    (h : nodeTexts py nodes = .ok texts) : ∀ t ∈ texts, equals ∉ t ∧ comma ∉ t := by
  intro t ht
  cases nodes with
  | none =>
      obtain rfl := Except.ok.inj h
      cases ht
  | text s =>
      obtain ⟨part, -, hpart⟩ := exists_of_mem_mapM h ht
      exact hexNode_free hpart
  | list nodes =>
      obtain ⟨node, -, hnode⟩ := exists_of_mem_mapM h ht
      exact hexNode_free hnode

theorem newline_notMem_intText (n : ℤ) : newline ∉ intText n := by
  have hdigits : newline ∉ natText n.natAbs := by
    intro h
    exact absurd (isDigitChar_of_mem_natText h) (by decide)
  rw [intText]
  split
  · intro h
    rcases List.mem_cons.mp h with h | h
    · exact absurd h (by decide)
    · exact hdigits h
  · exact hdigits

/-! ## Requests -/

/-- The text is the protocol and a row for each field. -/
theorem macText_eq (fields : List (PyStr × PyStr)) :
    macText fields = (signerProtocol ++ [newline]) ++
      fields.flatMap fun f => Lines.row equals newline f.1 f.2 := by
  have hjoin : ∀ (first : PyStr) (parts : List PyStr),
      [newline].intercalate (first :: parts) ++ [newline] =
        first ++ [newline] ++ parts.flatMap fun part => part ++ [newline] := by
    intro first parts
    induction parts generalizing first with
    | nil => simp
    | cons part parts ih =>
        rw [List.intercalate_cons_cons, List.append_assoc, ih, List.flatMap_cons,
          List.append_assoc, List.append_assoc]
  rw [macText, hjoin, List.flatMap_map]
  rfl

section Requests

variable (py : Interp)

/-- Two requests are the same up to what `canonical_bytes` normalizes: missing texts,
conversions to integers, the spelling of hex nodes, and the proof of no nodes, which is
spelled as the proof of one empty node. -/
structure SameRequest (r s : Request) : Prop where
  origin : r.origin.getD [] = s.origin.getD []
  requestId : r.requestId.getD [] = s.requestId.getD []
  checkpoint : r.checkpoint.getD [] = s.checkpoint.getD []
  treeSize : intValue py r.treeSize = intValue py s.treeSize
  timestamp : intValue py r.timestamp = intValue py s.timestamp
  version : intValue py r.v = intValue py s.v
  root : hexNode py r.root = hexNode py s.root
  policy : narrowPolicy py r.policy = narrowPolicy py s.policy
  consistency : nodeTexts py r.consistency = nodeTexts py s.consistency ∨
    ((nodeTexts py r.consistency = .ok [] ∨ nodeTexts py r.consistency = .ok [[]]) ∧
      (nodeTexts py s.consistency = .ok [] ∨ nodeTexts py s.consistency = .ok [[]]))

/-- What an accepted request is made of. -/
theorem canonicalBytes_eq_ok {r : Request} {raw : Bytes} (h : canonicalBytes py r = .ok raw) :
    ∃ texts root timestamp treeSize policy, intValue py r.v = .ok requestVersion ∧
      nodeTexts py r.consistency = .ok texts ∧ hexNode py r.root = .ok root ∧
      intValue py r.timestamp = .ok timestamp ∧ intValue py r.treeSize = .ok treeSize ∧
      narrowPolicy py r.policy = .ok policy ∧
      utf8Encode (macText (canonicalFields r ([comma].intercalate texts) root timestamp treeSize
        policy)) = .ok raw := by
  obtain ⟨v, hv, h⟩ := bind_eq_ok.mp h
  split at h
  · cases h
  rename_i hversion
  rw [not_not] at hversion
  obtain ⟨consistency, hconsistency, h⟩ := bind_eq_ok.mp h
  obtain ⟨root, hroot, h⟩ := bind_eq_ok.mp h
  obtain ⟨timestamp, htimestamp, h⟩ := bind_eq_ok.mp h
  obtain ⟨treeSize, htreeSize, h⟩ := bind_eq_ok.mp h
  obtain ⟨policy, hpolicy, h⟩ := bind_eq_ok.mp h
  obtain ⟨texts, htexts, rfl⟩ := map_eq_ok.mp hconsistency
  exact ⟨texts, root, timestamp, treeSize, policy, hversion ▸ hv, htexts, hroot, htimestamp,
    htreeSize, hpolicy, h⟩

/-- The policy texts that are no integers are fixed. -/
theorem narrowPolicy_texts {policy : Json} {narrow : NarrowPolicy}
    (h : narrowPolicy py policy = .ok narrow) :
    narrow.sizeRule = hmacSizeRule ∧ narrow.sizeVersion = hmacSizeVersion := by
  cases policy with
  | obj policy =>
      simp only [narrowPolicy] at h
      split at h
      · cases h
      obtain ⟨lastRound, -, h⟩ := bind_eq_ok.mp h
      obtain ⟨minFee, -, h⟩ := bind_eq_ok.mp h
      obtain ⟨feePerByte, -, h⟩ := bind_eq_ok.mp h
      obtain ⟨fv, -, h⟩ := bind_eq_ok.mp h
      obtain ⟨lv, -, h⟩ := bind_eq_ok.mp h
      obtain ⟨canonicalFee, -, h⟩ := bind_eq_ok.mp h
      obtain ⟨snapshotAt, -, h⟩ := bind_eq_ok.mp h
      generalize Dict.get policy "size_version" = version at h
      cases version with
      | str sizeVersion =>
          simp only [] at h
          split at h
          · cases h
          rename_i hversion
          split at h
          · cases h
          split at h
          · cases h
          split at h
          · cases h
          split at h
          · cases h
          rename_i hrule
          obtain rfl := Except.ok.inj h
          exact ⟨not_not.mp hrule, not_not.mp hversion⟩
      | null | bool _ | int _ | float _ | arr _ | obj _ => cases h
  | null | bool _ | int _ | float _ | str _ | arr _ => cases h

/-- Two fee lines behind the same key, with anything behind them. -/
theorem feeRow_injective {key fee fee' rest rest' : PyStr} (hfee : newline ∉ fee)
    (hfee' : newline ∉ fee')
    (h : Lines.row equals newline key fee ++ rest = Lines.row equals newline key fee' ++ rest') :
    fee = fee' ∧ rest = rest' := by
  simp only [Lines.row, List.append_assoc, List.cons_append, List.nil_append] at h
  have h := (List.cons.inj (List.append_cancel_left h)).2
  exact Lines.split_first hfee hfee' h

/-- The fields of two texts agree: the checkpoint is what stands between the fee and the
consistency proof, and everything behind it is read off from the end. -/
theorem canonicalFields_injective {r s : Request} {consistency consistency' root root' : PyStr}
    {timestamp timestamp' treeSize treeSize' : ℤ} {policy policy' : NarrowPolicy}
    (horigin : newline ∉ r.origin.getD []) (horigin' : newline ∉ s.origin.getD [])
    (hid : newline ∉ r.requestId.getD []) (hid' : newline ∉ s.requestId.getD [])
    (hnodes : equals ∉ consistency) (hnodes' : equals ∉ consistency')
    (hroot : equals ∉ root) (hroot' : equals ∉ root')
    (hpolicy : policy.sizeRule = hmacSizeRule ∧ policy.sizeVersion = hmacSizeVersion)
    (hpolicy' : policy'.sizeRule = hmacSizeRule ∧ policy'.sizeVersion = hmacSizeVersion)
    (h : macText (canonicalFields r consistency root timestamp treeSize policy) =
      macText (canonicalFields s consistency' root' timestamp' treeSize' policy')) :
    canonicalFields r consistency root timestamp treeSize policy =
      canonicalFields s consistency' root' timestamp' treeSize' policy' := by
  have hint : ∀ {key : PyStr} {m n : ℤ}, newline ∉ key →
      Lines.Apart equals newline key (intText m) (intText n) :=
    fun hkey => .inl ⟨hkey, newline_notMem_intText _, newline_notMem_intText _⟩
  have hrule : ∀ {key rule rule' : PyStr}, newline ∉ key → rule = hmacSizeRule →
      rule' = hmacSizeRule → Lines.Apart equals newline key rule rule' := by
    rintro key _ _ hkey rfl rfl
    exact .inl ⟨hkey, by decide, by decide⟩
  have hversion : ∀ {key version version' : PyStr}, newline ∉ key →
      version = hmacSizeVersion → version' = hmacSizeVersion →
      Lines.Apart equals newline key version version' := by
    rintro key _ _ hkey rfl rfl
    exact .inl ⟨hkey, by decide, by decide⟩
  -- The rows behind the checkpoint, each with its two values.
  let rows := List.zipWith (fun f g : PyStr × PyStr => (f.1, f.2, g.2))
    ((canonicalFields r consistency root timestamp treeSize policy).drop 2)
    ((canonicalFields s consistency' root' timestamp' treeSize' policy').drop 2)
  have hapart : ∀ q ∈ rows, Lines.Apart equals newline q.1 q.2.1 q.2.2 := by
    simp only [rows, canonicalFields, List.drop, List.zipWith, List.forall_mem_cons,
      List.not_mem_nil, false_implies, implies_true, and_true]
    exact ⟨.inr ⟨hnodes, hnodes'⟩, hint (by decide), hint (by decide), hint (by decide),
      hint (by decide), hint (by decide), .inl ⟨by decide, horigin, horigin'⟩,
      .inl ⟨by decide, hid, hid'⟩, .inr ⟨hroot, hroot'⟩, hrule (by decide) hpolicy.1 hpolicy'.1,
      hversion (by decide) hpolicy.2 hpolicy'.2, hint (by decide), hint (by decide),
      hint (by decide), .inl ⟨by decide, by decide, by decide⟩⟩
  rw [macText_eq, macText_eq] at h
  have hsplit : ((signerProtocol ++ [newline]) ++
        Lines.row equals newline "canonical_fee" (intText policy.canonicalFee) ++
        Lines.row equals newline "checkpoint" (r.checkpoint.getD [])) ++
      rows.flatMap (fun q => Lines.row equals newline q.1 q.2.1) =
    ((signerProtocol ++ [newline]) ++
        Lines.row equals newline "canonical_fee" (intText policy'.canonicalFee) ++
        Lines.row equals newline "checkpoint" (s.checkpoint.getD [])) ++
      rows.flatMap (fun q => Lines.row equals newline q.1 q.2.2) := by
    simpa only [rows, canonicalFields, List.drop, List.zipWith, List.flatMap_cons,
      List.flatMap_nil,
      List.append_assoc] using h
  have hends : ∀ (front key value : PyStr),
      (front ++ Lines.row equals newline key value).getLast? = some newline := by
    intro front key value
    rw [Lines.row, ← List.append_assoc, List.getLast?_concat]
  obtain ⟨hfront, hvalues⟩ := Lines.rows_injective (by decide) hapart (hends _ _ _)
    (hends _ _ _) hsplit
  simp only [List.append_assoc] at hfront
  obtain ⟨hfee, hcheckpoint⟩ := feeRow_injective (newline_notMem_intText _)
    (newline_notMem_intText _) (List.append_cancel_left (List.append_cancel_left hfront))
  have hcheckpoint : r.checkpoint.getD [] = s.checkpoint.getD [] :=
    (List.cons.inj (List.append_cancel_left (List.append_cancel_right hcheckpoint))).2
  simp only [rows, canonicalFields, List.drop, List.zipWith, List.forall_mem_cons,
    List.not_mem_nil, false_implies, implies_true, and_true] at hvalues
  simp only [canonicalFields, hfee, hcheckpoint, hvalues]

/-- Requests with one MAC input are the same request. -/
theorem canonicalBytes_injective {r s : Request} {raw : Bytes}
    (horigin : newline ∉ r.origin.getD []) (horigin' : newline ∉ s.origin.getD [])
    (hid : newline ∉ r.requestId.getD []) (hid' : newline ∉ s.requestId.getD [])
    (hr : canonicalBytes py r = .ok raw) (hs : canonicalBytes py s = .ok raw) :
    SameRequest py r s := by
  obtain ⟨texts, root, timestamp, treeSize, policy, hv, htexts, hroot, htimestamp, htreeSize,
    hpolicy, hraw⟩ := canonicalBytes_eq_ok py hr
  obtain ⟨texts', root', timestamp', treeSize', policy', hv', htexts', hroot', htimestamp',
    htreeSize', hpolicy', hraw'⟩ := canonicalBytes_eq_ok py hs
  have hjoined : ∀ {texts : List PyStr} {nodes : Nodes}, nodeTexts py nodes = .ok texts →
      equals ∉ [comma].intercalate texts := by
    intro texts nodes h hmem
    rcases Lines.mem_intercalate hmem with hmark | ⟨part, hpart, hmem⟩
    · exact absurd hmark (by decide)
    · exact (nodeTexts_free h part hpart).1 hmem
  have hfields := canonicalFields_injective horigin horigin' hid hid' (hjoined htexts)
    (hjoined htexts') (hexNode_free hroot).1 (hexNode_free hroot').1
    (narrowPolicy_texts py hpolicy) (narrowPolicy_texts py hpolicy')
    (utf8Encode_injective hraw hraw')
  simp only [canonicalFields, List.cons.injEq, Prod.mk.injEq, true_and, and_true,
    intText_injective.eq_iff] at hfields
  obtain ⟨hcanonicalFee, hcheckpoint, hconsistency, hfeePerByte, hfv, hlastRound, hlv, hminFee,
    horigins, hids, hroots, hsizeRule, hsizeVersion, hsnapshotAt, htimes, hsizes⟩ := hfields
  have hpolicies : policy = policy' := by
    cases policy
    cases policy'
    simp_all only
  exact
    { origin := horigins
      requestId := hids
      checkpoint := hcheckpoint
      treeSize := by rw [htreeSize, htreeSize', hsizes]
      timestamp := by rw [htimestamp, htimestamp', htimes]
      version := hv.trans hv'.symm
      root := by rw [hroot, hroot', hroots]
      policy := by rw [hpolicy, hpolicy', hpolicies]
      consistency := by
        have hsplit := Lines.intercalate_injective (fun t ht => (nodeTexts_free htexts t ht).2)
          (fun t ht => (nodeTexts_free htexts' t ht).2) hconsistency
        rw [htexts, htexts']
        simpa only [Except.ok.injEq] using hsplit }

end Requests

/-! ## Responses -/

/-- The lengths in front of the fields are told apart, and end before the colon. -/
theorem lengthText_injective : Function.Injective fun n => asciiBytes (natText n) := by
  intro m n h
  exact natText_injective (asciiBytes_injective (isAscii_of_isDecimal (isDecimal_natText m))
    (isAscii_of_isDecimal (isDecimal_natText n)) h)

theorem colon_notMem_lengthText (n : ℕ) : (58 : UInt8) ∉ asciiBytes (natText n) := by
  intro h
  obtain ⟨c, hc, hcolon⟩ := List.mem_map.mp h
  obtain ⟨hlow, hhigh⟩ := isDigitChar_iff.mp (isDigitChar_of_mem_natText hc)
  have hvalue := congrArg UInt8.toNat hcolon
  rw [toNat_ofNat (by omega)] at hvalue
  have h58 : (58 : UInt8).toNat = 58 := rfl
  omega

section Responses

variable (py : Interp)

/-- Two responses are the same up to the letter case of the hex fields. -/
structure SameResponse (r s : Response) : Prop where
  requestVersion : r.requestVersion = s.requestVersion
  origin : r.origin = s.origin
  requestHmac : py.uni.lower r.requestHmac = py.uni.lower s.requestHmac
  requestId : r.requestId = s.requestId
  checkpoint : r.checkpoint = s.checkpoint
  treeSize : r.treeSize = s.treeSize
  root : py.uni.lower r.root = py.uni.lower s.root
  pqsig : r.pqsig = s.pqsig
  signed : r.signed = s.signed

/-- What an accepted response is made of. -/
theorem responseCanonicalBytes_eq_ok {r : Response} {raw : Bytes}
    (h : responseCanonicalBytes py r = .ok raw) :
    ∃ checkpoint origin pqsig requestHmac requestId requestV root treeSize,
      r.requestVersion = signerProtocol ∧ utf8Encode r.checkpoint = .ok checkpoint ∧
      utf8Encode r.origin = .ok origin ∧ utf8Encode r.pqsig = .ok pqsig ∧
      asciiEncode (py.uni.lower r.requestHmac) = .ok requestHmac ∧
      utf8Encode r.requestId = .ok requestId ∧ asciiEncode r.requestVersion = .ok requestV ∧
      asciiEncode (py.uni.lower r.root) = .ok root ∧
      asciiEncode (intText r.treeSize) = .ok treeSize ∧
      asciiBytes responseVersion ++ [10] ++
        ([("checkpoint", checkpoint), ("origin", origin), ("pqsig", pqsig),
          ("request_hmac", requestHmac), ("request_id", requestId), ("request_v", requestV),
          ("root", root), ("signed", r.signed), ("tree_size", treeSize)] :
            List (String × Bytes)).flatMap (fun f => responseField f.1 f.2) = raw := by
  rw [responseCanonicalBytes] at h
  split at h
  · cases h
  rename_i hversion
  split at h
  · cases h
  obtain ⟨checkpoint, hcheckpoint, h⟩ := bind_eq_ok.mp h
  obtain ⟨origin, horigin, h⟩ := bind_eq_ok.mp h
  obtain ⟨pqsig, hpqsig, h⟩ := bind_eq_ok.mp h
  obtain ⟨requestHmac, hrequestHmac, h⟩ := bind_eq_ok.mp h
  obtain ⟨requestId, hrequestId, h⟩ := bind_eq_ok.mp h
  obtain ⟨requestV, hrequestV, h⟩ := bind_eq_ok.mp h
  obtain ⟨root, hroot, h⟩ := bind_eq_ok.mp h
  obtain ⟨treeSize, htreeSize, h⟩ := map_eq_ok.mp h
  exact ⟨checkpoint, origin, pqsig, requestHmac, requestId, requestV, root, treeSize,
    not_not.mp hversion, hcheckpoint, horigin, hpqsig, hrequestHmac, hrequestId, hrequestV,
    hroot, htreeSize, h⟩

/-- Responses with one MAC input are the same response. -/
theorem responseCanonicalBytes_injective {r s : Response} {raw : Bytes}
    (hr : responseCanonicalBytes py r = .ok raw) (hs : responseCanonicalBytes py s = .ok raw) :
    SameResponse py r s := by
  obtain ⟨checkpoint, origin, pqsig, requestHmac, requestId, requestV, root, treeSize, hversion,
    hcheckpoint, horigin, hpqsig, hhmac, hid, hv, hroot, hsize, hraw⟩ :=
    responseCanonicalBytes_eq_ok py hr
  obtain ⟨checkpoint', origin', pqsig', requestHmac', requestId', requestV', root', treeSize',
    hversion', hcheckpoint', horigin', hpqsig', hhmac', hid', hv', hroot', hsize', hraw'⟩ :=
    responseCanonicalBytes_eq_ok py hs
  let fields : List (Bytes × Bytes × Bytes) :=
    ([("checkpoint", checkpoint, checkpoint'), ("origin", origin, origin'),
      ("pqsig", pqsig, pqsig'), ("request_hmac", requestHmac, requestHmac'),
      ("request_id", requestId, requestId'), ("request_v", requestV, requestV'),
      ("root", root, root'), ("signed", r.signed, s.signed), ("tree_size", treeSize, treeSize')] :
        List (String × Bytes × Bytes)).map fun f => (asciiBytes f.1, f.2.1, f.2.2)
  have hsame := List.append_cancel_left (hraw.trans hraw'.symm)
  have hfields : fields.flatMap (fun f => Lines.field (fun n => asciiBytes (natText n)) 61 58 10 f.1 f.2.1) ++ [] =
      fields.flatMap (fun f => Lines.field (fun n => asciiBytes (natText n)) 61 58 10 f.1 f.2.2) ++ [] := by
    simpa only [fields, responseField, List.map_cons, List.map_nil, List.flatMap_cons,
      List.flatMap_nil, List.append_nil] using hsame
  obtain ⟨-, hvalues⟩ := Lines.fields_injective lengthText_injective colon_notMem_lengthText
    hfields
  simp only [fields, List.map_cons, List.map_nil, List.forall_mem_cons, List.not_mem_nil,
    false_implies, implies_true, and_true] at hvalues
  obtain ⟨rfl, rfl, rfl, rfl, rfl, -, rfl, hsigned, rfl⟩ := hvalues
  exact
    { requestVersion := hversion.trans hversion'.symm
      origin := utf8Encode_injective horigin horigin'
      requestHmac := asciiEncode_injective hhmac hhmac'
      requestId := utf8Encode_injective hid hid'
      checkpoint := utf8Encode_injective hcheckpoint hcheckpoint'
      treeSize := intText_injective (asciiEncode_injective hsize hsize')
      root := asciiEncode_injective hroot hroot'
      pqsig := utf8Encode_injective hpqsig hpqsig'
      signed := hsigned }

end Responses

/-- The inputs of the MACs are unambiguous. -/
theorem mac_inputs (py : Interp) :
    (∀ (r s : Request) (raw : Bytes), newline ∉ r.origin.getD [] → newline ∉ s.origin.getD [] →
      newline ∉ r.requestId.getD [] → newline ∉ s.requestId.getD [] →
      canonicalBytes py r = .ok raw → canonicalBytes py s = .ok raw → SameRequest py r s) ∧
    ∀ (r s : Response) (raw : Bytes), responseCanonicalBytes py r = .ok raw →
      responseCanonicalBytes py s = .ok raw → SameResponse py r s := by
  constructor
  · intro r s raw horigin horigin' hid hid' hr hs
    exact canonicalBytes_injective py horigin horigin' hid hid' hr hs
  · intro r s raw hr hs
    exact responseCanonicalBytes_injective py hr hs

end Signal402.SignerMac
