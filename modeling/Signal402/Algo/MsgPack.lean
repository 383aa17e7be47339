import Signal402.Base.Interp
import Signal402.Base.Utf8
import Signal402.Lib.BigEndian
import Mathlib.Data.List.Sort

/-!
# MessagePack as the Algorand transactions use it

The encoder and the decoder of transactions.  The decoder reads at positions of one
buffer.  A slice that leaves the buffer raises an `IndexError` here, where Python would
cut it short.  The decoder never takes such a slice, since it raises nothing but a
`ValueError`, so the two agree.
-/

namespace Signal402

/-- The values the encoder takes and the decoder returns. -/
inductive Msgpack
  | nil
  | bool (b : Bool)
  | int (n : ℤ)
  | str (s : PyStr)
  | bytes (b : Bytes)
  | list (items : List Msgpack)
  | dict (items : List (PyStr × Msgpack))
  deriving Repr

/-- A dictionary, in insertion order. -/
abbrev MsgDict := List (PyStr × Msgpack)

namespace Msgpack

mutual

/-- `v == w`. -/
def same : Msgpack → Msgpack → Bool
  | .nil, .nil => true
  | .bool a, .bool b => a == b
  | .bool a, .int n => n == if a then 1 else 0
  | .int n, .bool b => n == if b then 1 else 0
  | .int m, .int n => m == n
  | .str s, .str t => s == t
  | .bytes a, .bytes b => a == b
  | .list xs, .list ys => sameAll xs ys
  | .dict xs, .dict ys => xs.length == ys.length && sameItems xs ys
  | _, _ => false

/-- The lists hold equal values in the same places. -/
def sameAll : List Msgpack → List Msgpack → Bool
  | [], [] => true
  | x :: xs, y :: ys => same x y && sameAll xs ys
  | _, _ => false

/-- Every key has an equal value in the other dictionary. -/
def sameItems : MsgDict → MsgDict → Bool
  | [], _ => true
  | (k, v) :: rest, ys =>
      (match ys.find? fun m => m.1 == k with
        | some m => same v m.2
        | none => false) && sameItems rest ys

end

mutual

/-- How many levels of lists and dictionaries are open at the deepest value. -/
def depth : Msgpack → ℕ
  | .list items => depthAll items
  | .dict items => depthItems items
  | _ => 0

/-- The depth of a list, whose values are one level below it. -/
def depthAll : List Msgpack → ℕ
  | [] => 0
  | v :: rest => max (v.depth + 1) (depthAll rest)

/-- The depth of a dictionary, whose values are one level below it. -/
def depthItems : MsgDict → ℕ
  | [] => 0
  | (_, v) :: rest => max (v.depth + 1) (depthItems rest)

end

end Msgpack

/-! ## The encoder -/

section Encode

variable (py : Interp)

/-- `_mp_uint`. -/
def mpUint (n : ℤ) : Except PyError Bytes :=
  if n < 0 then .error (.valueError "negative integer")
  else if n < 128 then .ok (BigEndian.encode 1 n.toNat)
  else if n < 256 then .ok (0xCC :: BigEndian.encode 1 n.toNat)
  else if n < 65536 then .ok (0xCD :: BigEndian.encode 2 n.toNat)
  else if n < 2 ^ 32 then .ok (0xCE :: BigEndian.encode 4 n.toNat)
  -- `to_bytes` has eight bytes for the rest
  else if n < 2 ^ 64 then .ok (0xCF :: BigEndian.encode 8 n.toNat)
  else .error ⟨.overflowError, "int too big to convert"⟩

/-- `_mp_str`. -/
def mpStr (s : PyStr) : Except PyError Bytes :=
  (utf8Encode s).bind fun raw =>
    if raw.length < 32 then .ok (BigEndian.encode 1 (0xA0 + raw.length) ++ raw)
    else if raw.length < 256 then .ok (0xD9 :: BigEndian.encode 1 raw.length ++ raw)
    else .error (.valueError "string too long")

/-- `_mp_bin`. -/
def mpBin (b : Bytes) : Except PyError Bytes :=
  if b.length < 256 then .ok (0xC4 :: BigEndian.encode 1 b.length ++ b)
  else if b.length < 65536 then .ok (0xC5 :: BigEndian.encode 2 b.length ++ b)
  -- `to_bytes` has four bytes for the rest
  else if b.length < 2 ^ 32 then .ok (0xC6 :: BigEndian.encode 4 b.length ++ b)
  else .error ⟨.overflowError, "int too big to convert"⟩

/-- `_mp_array`. -/
def mpArray (items : List Bytes) : Except PyError Bytes :=
  if items.length < 16 then .ok (BigEndian.encode 1 (0x90 + items.length) ++ items.flatten)
  else if items.length < 65536 then
    .ok (0xDC :: BigEndian.encode 2 items.length ++ items.flatten)
  else .error (.valueError "array too long")

/-- The keys and values of `_mp_map`, one after another. -/
def mpPairs : List (PyStr × Bytes) → Except PyError Bytes
  | [] => .ok []
  | (key, val) :: rest =>
      (mpStr key).bind fun k => (mpPairs rest).map fun tail => k ++ val ++ tail

/-- `_mp_map`. -/
def mpMap (pairs : List (PyStr × Bytes)) : Except PyError Bytes :=
  if pairs.length < 16 then
    (mpPairs pairs).map fun out => BigEndian.encode 1 (0x80 + pairs.length) ++ out
  else if pairs.length < 65536 then
    (mpPairs pairs).map fun out => 0xDE :: BigEndian.encode 2 pairs.length ++ out
  else .error (.valueError "map too long")

/-- An element of a list: `_mp_bin(x) if isinstance(x, bytes) else _mp_uint(int(x))`. -/
def encodeItem : Msgpack → Except PyError Bytes
  | .bytes b => mpBin b
  | .int n => mpUint n
  | .bool b => mpUint (if b then 1 else 0)
  | .str s => (py.int s).bind mpUint
  | .nil | .list _ | .dict _ =>
      .error ⟨.typeError, "int() argument must be a string, a bytes-like object or a real number"⟩

/-- The entries in the order of their keys. -/
def sortedItems {α : Type} (items : List (PyStr × α)) : List (PyStr × α) :=
  items.insertionSort fun a b => PyStr.le a.1 b.1 = true

/-- The entries of a dictionary that are encoded, in the order of `sorted`.  An entry
that is `None` is skipped. -/
def keptItems {α : Type} (items : List (PyStr × Option α)) : List (PyStr × α) :=
  (sortedItems items).filterMap fun m => m.2.map fun x => (m.1, x)

/-- The loop over the sorted keys: the values are encoded in their order, up to the
first that raises. -/
def encodeItems (items : List (PyStr × Option (Except PyError Bytes))) : Except PyError Bytes :=
  ((keptItems items).mapM fun m : PyStr × Except PyError Bytes =>
    m.2.map fun x => (m.1, x)).bind mpMap

mutual

/-- What is made of a value: nothing for `None`. -/
def encodeValue : Msgpack → Option (Except PyError Bytes)
  | .nil => none
  | .bool b => some (.ok [if b then 0xC3 else 0xC2])
  | .int n => some (mpUint n)
  | .str s => some (mpStr s)
  | .bytes b => some (mpBin b)
  | .dict items => some (encodeItems (encodeValues items))
  | .list items => some ((items.mapM (encodeItem py)).bind mpArray)

/-- The values of a dictionary, each under its key. -/
def encodeValues : MsgDict → List (PyStr × Option (Except PyError Bytes))
  | [] => []
  | (key, val) :: rest => (key, encodeValue val) :: encodeValues rest

end

/-- `msgpack_encode`. -/
def msgpackEncode (d : MsgDict) : Except PyError Bytes := encodeItems (encodeValues py d)

end Encode

/-! ## The decoder -/

/-- `_MAX_MSGPACK_DEPTH`. -/
def maxMsgpackDepth : ℕ := 8

/-- `MAX_MSGPACK_BYTES`. -/
def maxMsgpackBytes : ℕ := 8192

section Decode

variable (str : Msgpack → PyStr) (strict : Bool) (buf : Bytes)

/-- `buf[i]`. -/
def byteAt (i : ℕ) : Except PyError ℕ :=
  if h : i < buf.length then .ok buf[i].toNat
  else .error ⟨.indexError, "index out of range"⟩

/-- `buf[i:j]`, which raises when it leaves the buffer. -/
def sliceAt (i j : ℕ) : Except PyError Bytes :=
  if j ≤ buf.length then .ok (slice buf i j) else .error ⟨.indexError, "slice out of range"⟩

/-- `_mp_need`. -/
def mpNeed (i n : ℕ) : Except PyError Unit :=
  if buf.length < i + n then .error (.valueError "truncated msgpack") else .ok ()

/-- `_mp_need(buf, i, 1 + w)` and the number in the `w` bytes after position `i`; the
source writes the one of a single byte as `buf[i + 1]`. -/
def mpNumber (i w : ℕ) : Except PyError ℕ :=
  (mpNeed buf i (1 + w)).bind fun _ => (sliceAt buf (i + 1) (i + 1 + w)).map BigEndian.decode

/-- `_mp_need(buf, i, n)` and the slice of `n` bytes from position `i`. -/
def mpBytes (i n : ℕ) : Except PyError Bytes :=
  (mpNeed buf i n).bind fun _ => sliceAt buf i (i + n)

/-- A number of `w` bytes that has to be at least `least` in strict mode. -/
def mpMinimal (i w least : ℕ) (msg : String) : Except PyError ℕ :=
  (mpNumber buf i w).bind fun n =>
    if strict ∧ n < least then .error (.valueError msg) else .ok n

/-- `_mp_read_uint`. -/
def mpReadUint (i : ℕ) : Except PyError (ℕ × ℕ) :=
  if buf.length ≤ i then .error (.valueError "truncated msgpack")
  else (byteAt buf i).bind fun b =>
    if b < 128 then .ok (b, i + 1)
    else if b = 0xCC then
      (mpMinimal strict buf i 1 128 "non-minimal msgpack int").map fun n => (n, i + 2)
    else if b = 0xCD then
      (mpMinimal strict buf i 2 256 "non-minimal msgpack int").map fun n => (n, i + 3)
    else if b = 0xCE then
      (mpMinimal strict buf i 4 65536 "non-minimal msgpack int").map fun n => (n, i + 5)
    else if b = 0xCF then
      (mpMinimal strict buf i 8 (2 ^ 32) "non-minimal msgpack int").map fun n => (n, i + 9)
    else .error (.valueError "unsupported msgpack int")

/-- `int.from_bytes(raw, "big", signed=True)` of `w` bytes that write `n`. -/
def signedOf (w n : ℕ) : ℤ := if 2 * n < 256 ^ w then n else n - 256 ^ w

/-- `_mp_read_sint`. -/
def mpReadSint (i : ℕ) : Except PyError (ℤ × ℕ) :=
  if buf.length ≤ i then .error (.valueError "truncated msgpack")
  else (byteAt buf i).bind fun b =>
    if 0xE0 ≤ b then .ok ((b : ℤ) - 256, i + 1)
    else if b = 0xD0 then (mpNumber buf i 1).map fun n => (signedOf 1 n, i + 2)
    else if b = 0xD1 then (mpNumber buf i 2).map fun n => (signedOf 2 n, i + 3)
    else if b = 0xD2 then (mpNumber buf i 4).map fun n => (signedOf 4 n, i + 5)
    else if b = 0xD3 then (mpNumber buf i 8).map fun n => (signedOf 8 n, i + 9)
    else .error (.valueError "unsupported msgpack int")

/-- `_mp_str_payload`. -/
def mpStrPayload (raw : Bytes) : Msgpack :=
  match utf8Decode raw with
  | some s => .str s
  | none => .bytes raw

/-- `_mp_map_key`; `str` is the text of a key that is neither text nor bytes. -/
def mpMapKey : Msgpack → Except PyError PyStr
  | .str [] => .error (.valueError "empty msgpack map key")
  | .str (c :: s) => .ok (c :: s)
  | key =>
      if strict then .error (.valueError "non-text msgpack map key")
      else
        match key with
        | .bytes raw =>
            match utf8Decode raw with
            | some s => .ok s
            | none => .error (.valueError "invalid msgpack map key")
        | _ => .ok (str key)

section Loops

variable (read : ℕ → Except PyError (Msgpack × ℕ))

/-- The loop of `_mp_read_map`, with the reader of the level below. -/
def mpMapLoop : ℕ → ℕ → MsgDict → Option PyStr → Except PyError (MsgDict × ℕ)
  | 0, i, out, _ => .ok (out, i)
  | n + 1, i, out, prev =>
      (read i).bind fun key =>
        (read key.2).bind fun val =>
          (mpMapKey str strict key.1).bind fun mapped =>
            if out.any fun m => m.1 == mapped then .error (.valueError "duplicate msgpack key")
            else if strict ∧ prev.any (PyStr.lt mapped ·) then
              .error (.valueError "unordered msgpack key")
            else mpMapLoop n val.2 (out ++ [(mapped, val.1)]) (some mapped)

/-- `_mp_read_map`. -/
def mpReadMap (i n : ℕ) : Except PyError (Msgpack × ℕ) :=
  (mpMapLoop str strict read n i [] none).map fun r => (.dict r.1, r.2)

/-- The loop of `_mp_read_array`, with the reader of the level below. -/
def mpArrayLoop : ℕ → ℕ → List Msgpack → Except PyError (List Msgpack × ℕ)
  | 0, i, items => .ok (items, i)
  | n + 1, i, items => (read i).bind fun val => mpArrayLoop n val.2 (items ++ [val.1])

/-- `_mp_read_array`. -/
def mpReadArray (i n : ℕ) : Except PyError (Msgpack × ℕ) :=
  (mpArrayLoop read n i []).map fun r => (.list r.1, r.2)

end Loops

/-- A form that strict mode refuses. -/
def mpForbidden {α : Type} (msg : String) (x : Except PyError α) : Except PyError α :=
  if strict then .error (.valueError msg) else x

/-- `_mp_read` at the depth `maxMsgpackDepth + 1 - left`: a value at a depth over the
limit has no level left.  A list or a dictionary checks the depth it was read at, which
its own reader has checked. -/
def mpRead : ℕ → ℕ → Except PyError (Msgpack × ℕ)
  | 0, _ => .error (.valueError "excessive msgpack nesting")
  | left + 1, i =>
      if buf.length ≤ i then .error (.valueError "truncated msgpack")
      else (byteAt buf i).bind fun b =>
        if b = 0xC0 then mpForbidden strict "msgpack nil forbidden" (.ok (.nil, i + 1))
        else if b = 0xC2 then mpForbidden strict "msgpack bool forbidden" (.ok (.bool false, i + 1))
        else if b = 0xC3 then mpForbidden strict "msgpack bool forbidden" (.ok (.bool true, i + 1))
        else if b < 128 ∨ b = 0xCC ∨ b = 0xCD ∨ b = 0xCE ∨ b = 0xCF then
          (mpReadUint strict buf i).map fun r => (.int r.1, r.2)
        else if 0xE0 ≤ b ∨ b = 0xD0 ∨ b = 0xD1 ∨ b = 0xD2 ∨ b = 0xD3 then
          mpForbidden strict "negative txn integer"
            ((mpReadSint buf i).map fun r => (.int r.1, r.2))
        else if 0xA0 ≤ b ∧ b ≤ 0xBF then
          (mpBytes buf (i + 1) (b - 0xA0)).map fun raw =>
            (mpStrPayload raw, i + 1 + (b - 0xA0))
        else if b = 0xD9 then
          (mpMinimal strict buf i 1 32 "non-minimal msgpack str").bind fun n =>
            (mpBytes buf (i + 2) n).map fun raw => (mpStrPayload raw, i + 2 + n)
        else if b = 0xDA then
          -- str16 holds bytes, whatever they spell
          (mpMinimal strict buf i 2 256 "non-minimal msgpack str").bind fun n =>
            (mpBytes buf (i + 3) n).map fun raw => (.bytes raw, i + 3 + n)
        else if b = 0xDB then
          mpForbidden strict "unproven msgpack form"
            ((mpNumber buf i 4).bind fun n =>
              (mpBytes buf (i + 5) n).map fun raw => (.bytes raw, i + 5 + n))
        else if b = 0xC4 then
          (mpNumber buf i 1).bind fun n =>
            (mpBytes buf (i + 2) n).map fun raw => (.bytes raw, i + 2 + n)
        else if b = 0xC5 then
          (mpMinimal strict buf i 2 256 "non-minimal msgpack bin").bind fun n =>
            (mpBytes buf (i + 3) n).map fun raw => (.bytes raw, i + 3 + n)
        else if b = 0xC6 then
          mpForbidden strict "unproven msgpack form"
            ((mpNumber buf i 4).bind fun n =>
              (mpBytes buf (i + 5) n).map fun raw => (.bytes raw, i + 5 + n))
        else if 0x80 ≤ b ∧ b ≤ 0x8F then
          mpReadMap str strict (fun j => mpRead left j) (i + 1) (b - 0x80)
        else if b = 0xDE then
          (mpMinimal strict buf i 2 16 "non-minimal msgpack map").bind fun n =>
            mpReadMap str strict (fun j => mpRead left j) (i + 3) n
        else if b = 0xDF then
          mpForbidden strict "unproven msgpack form"
            ((mpNumber buf i 4).bind fun n =>
              mpReadMap str strict (fun j => mpRead left j) (i + 5) n)
        else if 0x90 ≤ b ∧ b ≤ 0x9F then
          mpReadArray (fun j => mpRead left j) (i + 1) (b - 0x90)
        else if b = 0xDC then
          (mpMinimal strict buf i 2 16 "non-minimal msgpack array").bind fun n =>
            mpReadArray (fun j => mpRead left j) (i + 3) n
        else if b = 0xDD then
          mpForbidden strict "unproven msgpack form"
            ((mpNumber buf i 4).bind fun n => mpReadArray (fun j => mpRead left j) (i + 5) n)
        else .error (.valueError "unsupported msgpack type")

/-- `msgpack_decode`. -/
def msgpackDecode (raw : Bytes) : Except PyError MsgDict :=
  if maxMsgpackBytes < raw.length then .error (.valueError "msgpack too large")
  else (mpRead str strict raw (maxMsgpackDepth + 1) 0).bind fun r =>
    match r.1 with
    | .dict d => if r.2 ≠ raw.length then .error (.valueError "invalid msgpack map") else .ok d
    | _ => .error (.valueError "invalid msgpack map")

end Decode

end Signal402
