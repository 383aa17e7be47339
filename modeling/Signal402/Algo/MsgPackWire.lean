import Signal402.Algo.MsgPack

/-!
# What the strict decoder reads

A `Wire` is a value in the form it is written in: a byte string may stand in a bin form
or in one of the str forms.  `Wire.Strict` holds of the forms that the strict decoder
takes, at the number of levels left to it.

`At buf i bs` says that the bytes `bs` stand at position `i`, and `Reads P x` that `x`
raises nothing but a `ValueError` and returns what satisfies `P`.
-/

namespace Signal402

/-! ## Computations that raise nothing but a `ValueError` -/

/-- What it returns satisfies `P`, and what it raises is a `ValueError`. -/
def Reads {α : Type} (P : α → Prop) : Except PyError α → Prop
  | .ok a => P a
  | .error e => e.cls = .valueError

namespace Reads

variable {α β : Type} {P : α → Prop} {Q : β → Prop} {x : Except PyError α}

theorem ok {a : α} (h : P a) : Reads P (.ok a) := h

theorem valueError (msg : String) : Reads P (.error (.valueError msg)) := rfl

theorem bind {f : α → Except PyError β} (hx : Reads P x) (hf : ∀ a, P a → Reads Q (f a)) :
    Reads Q (x.bind f) := by
  cases x with
  | error e => exact hx
  | ok a => exact hf a hx

theorem map {f : α → β} (hx : Reads P x) (hf : ∀ a, P a → Q (f a)) : Reads Q (x.map f) := by
  cases x with
  | error e => exact hx
  | ok a => exact hf a hx

theorem ite {c : Prop} [Decidable c] {y : Except PyError α} (hx : c → Reads P x)
    (hy : ¬ c → Reads P y) : Reads P (if c then x else y) := by
  split
  · next h => exact hx h
  · next h => exact hy h

theorem mono {P' : α → Prop} (hx : Reads P x) (h : ∀ a, P a → P' a) : Reads P' x := by
  cases x with
  | error e => exact hx
  | ok a => exact h a hx

/-- What was returned satisfies the condition. -/
theorem of_ok {a : α} (hx : Reads P x) (h : x = .ok a) : P a := by
  rw [h] at hx
  exact hx

/-- It returns, or raises a `ValueError`. -/
theorem cases (hx : Reads P x) :
    (∃ a, x = .ok a ∧ P a) ∨ ∃ e, x = .error e ∧ e.cls = .valueError := by
  cases x with
  | error e => exact .inr ⟨e, rfl, hx⟩
  | ok a => exact .inl ⟨a, rfl, hx⟩

end Reads

/-! ## Positions of a buffer -/

/-- The bytes stand at the position. -/
def At (buf : Bytes) (i : ℕ) (bs : Bytes) : Prop :=
  ∃ pre post, buf = pre ++ bs ++ post ∧ pre.length = i

namespace At

variable {buf : Bytes} {i j n w : ℕ} {as bs : Bytes} {b : UInt8}

theorem le_length (h : At buf i bs) : i + bs.length ≤ buf.length := by
  obtain ⟨pre, post, rfl, rfl⟩ := h
  simp

theorem nil (h : i ≤ buf.length) : At buf i [] :=
  ⟨buf.take i, buf.drop i, by simp, by simp [h]⟩

theorem left (h : At buf i (as ++ bs)) : At buf i as := by
  obtain ⟨pre, post, hbuf, hpre⟩ := h
  exact ⟨pre, bs ++ post, by simp [hbuf], hpre⟩

theorem right (h : At buf i (as ++ bs)) : At buf (i + as.length) bs := by
  obtain ⟨pre, post, hbuf, hpre⟩ := h
  exact ⟨pre ++ as, post, by simp [hbuf], by simp [hpre]⟩

theorem append (ha : At buf i as) (hb : At buf (i + as.length) bs) : At buf i (as ++ bs) := by
  obtain ⟨pre, post, hbuf, hpre⟩ := ha
  obtain ⟨pre', post', hbuf', hpre'⟩ := hb
  -- the bytes before `bs` end with `as`
  have hsplit : pre ++ as ++ post = pre' ++ (bs ++ post') := by
    rw [← hbuf, hbuf', List.append_assoc]
  have hpost : pre ++ as = pre' ∧ post = bs ++ post' :=
    List.append_inj hsplit (by rw [List.length_append, hpre, hpre'])
  exact ⟨pre, post', by rw [hbuf, hpost.2]; simp, hpre⟩

/-- The bytes at the start that are as many as the buffer's are the buffer. -/
theorem eq_of_length (h : At buf 0 bs) (hlen : bs.length = buf.length) : bs = buf := by
  obtain ⟨pre, post, rfl, hpre⟩ := h
  have hpre : pre = [] := List.length_eq_zero_iff.mp hpre
  subst hpre
  have hpost : post = [] := by
    simp only [List.nil_append, List.length_append] at hlen
    exact List.length_eq_zero_iff.mp (by omega)
  simp [hpost]

theorem all (buf : Bytes) : At buf 0 buf := ⟨[], [], by simp, rfl⟩

theorem byteAt (h : At buf i (b :: bs)) : byteAt buf i = .ok b.toNat := by
  obtain ⟨pre, post, rfl, rfl⟩ := h
  simp [Signal402.byteAt]

theorem mpNeed (h : At buf i bs) (hn : n ≤ bs.length) : mpNeed buf i n = .ok () := by
  have hle := h.le_length
  exact if_neg (by omega)

theorem sliceAt (h : At buf i bs) (hj : j = i + bs.length) : sliceAt buf i j = .ok bs := by
  subst hj
  rw [Signal402.sliceAt, if_pos h.le_length]
  obtain ⟨pre, post, rfl, rfl⟩ := h
  rw [slice, List.append_assoc, List.take_append, List.drop_append]
  simp

theorem mpBytes (h : At buf i bs) (hn : n = bs.length) : mpBytes buf i n = .ok bs := by
  rw [Signal402.mpBytes, h.mpNeed (by omega)]
  exact h.sliceAt (by omega)

theorem mpNumber (h : At buf i (b :: BigEndian.encode w n ++ bs)) (hn : n < 256 ^ w) :
    mpNumber buf i w = .ok n := by
  have hneed : Signal402.mpNeed buf i (1 + w) = .ok () := h.mpNeed (by simp; omega)
  have hat : At buf (i + 1) (BigEndian.encode w n) := by
    rw [show b :: BigEndian.encode w n ++ bs = [b] ++ (BigEndian.encode w n ++ bs) from rfl] at h
    exact h.right.left
  rw [Signal402.mpNumber, hneed, Except.bind, hat.sliceAt (by simp), Except.map,
    BigEndian.decode_encode hn]

theorem mpMinimal {strict : Bool} {least : ℕ} {msg : String}
    (h : At buf i (b :: BigEndian.encode w n ++ bs)) (hn : n < 256 ^ w) (hleast : least ≤ n) :
    mpMinimal strict buf i w least msg = .ok n := by
  rw [Signal402.mpMinimal, h.mpNumber hn, Except.bind, if_neg]
  rintro ⟨-, hlt⟩
  omega

end At

section Read

variable {buf : Bytes} {strict : Bool} (i n w : ℕ)

/-- The byte at a position inside the buffer. -/
theorem exists_at (h : i < buf.length) : ∃ b, At buf i [b] ∧ byteAt buf i = .ok b.toNat := by
  have hat : At buf i [buf[i]] := by
    refine ⟨buf.take i, buf.drop (i + 1), ?_, by simp [h.le]⟩
    rw [List.append_assoc, List.singleton_append, List.getElem_cons_drop,
      List.take_append_drop]
  exact ⟨buf[i], hat, hat.byteAt⟩

theorem mpNeed_reads : Reads (fun _ => i + n ≤ buf.length) (mpNeed buf i n) := by
  unfold mpNeed
  split
  · exact Reads.valueError _
  · next h => exact Reads.ok (by omega)

theorem sliceAt_reads (h : i + n ≤ buf.length) :
    Reads (fun bs => bs.length = n ∧ At buf i bs) (sliceAt buf i (i + n)) := by
  rw [sliceAt, if_pos h]
  have hlen : (slice buf i (i + n)).length = n := by
    rw [slice_length]
    omega
  refine Reads.ok ⟨hlen, buf.take i, buf.drop (i + n), ?_, by simp; omega⟩
  rw [slice]
  have htake : buf.take i = (buf.take (i + n)).take i := by
    rw [List.take_take]
    congr 1
    omega
  rw [htake, List.take_append_drop, List.take_append_drop]

theorem mpBytes_reads :
    Reads (fun bs => bs.length = n ∧ At buf i bs) (mpBytes buf i n) :=
  (mpNeed_reads i n).bind fun _ h => sliceAt_reads i n h

theorem mpNumber_reads :
    Reads (fun n => n < 256 ^ w ∧ At buf (i + 1) (BigEndian.encode w n)) (mpNumber buf i w) := by
  apply (mpNeed_reads i (1 + w)).bind
  intro _ h
  apply (sliceAt_reads (i + 1) w (by omega)).map
  rintro bs ⟨rfl, hat⟩
  exact ⟨BigEndian.decode_lt bs, by rwa [BigEndian.encode_decode]⟩

theorem mpMinimal_reads (least : ℕ) (msg : String) :
    Reads (fun n => n < 256 ^ w ∧ At buf (i + 1) (BigEndian.encode w n) ∧
      (strict = true → least ≤ n)) (mpMinimal strict buf i w least msg) := by
  apply (mpNumber_reads i w).bind
  rintro n ⟨hn, hat⟩
  split
  · exact Reads.valueError _
  · next h =>
      refine Reads.ok ⟨hn, hat, fun hs => ?_⟩
      by_contra hlt
      exact h ⟨hs, by omega⟩

end Read

/-! ## The forms -/

/-- A value in the form it is written in. -/
inductive Wire
  | int (n : ℕ)
  /-- text in fixstr or str8 form -/
  | text (s : PyStr)
  /-- bytes in fixstr or str8 form that are no UTF-8 -/
  | raw (b : Bytes)
  /-- bytes in str16 form -/
  | long (b : Bytes)
  /-- bytes in bin8 or bin16 form -/
  | bin (b : Bytes)
  | array (items : List Wire)
  | map (items : List (PyStr × Wire))

/-- An unsigned integer in its shortest form. -/
def uintForm (n : ℕ) : Bytes :=
  if n < 128 then BigEndian.encode 1 n
  else if n < 256 then 0xCC :: BigEndian.encode 1 n
  else if n < 65536 then 0xCD :: BigEndian.encode 2 n
  else if n < 2 ^ 32 then 0xCE :: BigEndian.encode 4 n
  else 0xCF :: BigEndian.encode 8 n

/-- Bytes in fixstr or str8 form. -/
def strForm (raw : Bytes) : Bytes :=
  if raw.length < 32 then BigEndian.encode 1 (0xA0 + raw.length) ++ raw
  else 0xD9 :: BigEndian.encode 1 raw.length ++ raw

/-- Bytes in bin8 or bin16 form. -/
def binForm (b : Bytes) : Bytes :=
  if b.length < 256 then 0xC4 :: BigEndian.encode 1 b.length ++ b
  else 0xC5 :: BigEndian.encode 2 b.length ++ b

/-- The head of an array of `n` values. -/
def arrayHead (n : ℕ) : Bytes :=
  if n < 16 then BigEndian.encode 1 (0x90 + n) else 0xDC :: BigEndian.encode 2 n

/-- The head of a map of `n` entries. -/
def mapHead (n : ℕ) : Bytes :=
  if n < 16 then BigEndian.encode 1 (0x80 + n) else 0xDE :: BigEndian.encode 2 n

namespace Wire

mutual

/-- The bytes of the form. -/
def bytes : Wire → Bytes
  | .int n => uintForm n
  | .text s => strForm (utf8Bytes s)
  | .raw b => strForm b
  | .long b => 0xDA :: BigEndian.encode 2 b.length ++ b
  | .bin b => binForm b
  | .array items => arrayHead items.length ++ bytesAll items
  | .map items => mapHead items.length ++ bytesItems items

/-- The bytes of the values of an array. -/
def bytesAll : List Wire → Bytes
  | [] => []
  | w :: rest => bytes w ++ bytesAll rest

/-- The bytes of the keys and values of a map. -/
def bytesItems : List (PyStr × Wire) → Bytes
  | [] => []
  | (key, w) :: rest => strForm (utf8Bytes key) ++ (bytes w ++ bytesItems rest)

end

mutual

/-- The value that the form writes. -/
def value : Wire → Msgpack
  | .int n => .int n
  | .text s => .str s
  | .raw b => .bytes b
  | .long b => .bytes b
  | .bin b => .bytes b
  | .array items => .list (valueAll items)
  | .map items => .dict (valueItems items)

/-- The values of an array. -/
def valueAll : List Wire → List Msgpack
  | [] => []
  | w :: rest => value w :: valueAll rest

/-- The entries of a map. -/
def valueItems : List (PyStr × Wire) → MsgDict
  | [] => []
  | (key, w) :: rest => (key, value w) :: valueItems rest

end

/-- A key that the strict decoder takes. -/
structure Key (key : PyStr) : Prop where
  nonempty : key ≠ []
  text : key.any CodePoint.isSurrogate = false
  short : (utf8Bytes key).length < 256

/-- The forms that the strict decoder takes with `left` levels left. -/
def Strict : ℕ → Wire → Prop
  | 0, _ => False
  | _ + 1, .int n => n < 2 ^ 64
  | _ + 1, .text s => s.any CodePoint.isSurrogate = false ∧ (utf8Bytes s).length < 256
  | _ + 1, .raw b => utf8Decode b = none ∧ b.length < 256
  | _ + 1, .long b => 256 ≤ b.length ∧ b.length < 65536
  | _ + 1, .bin b => b.length < 65536
  | left + 1, .array items => items.length < 65536 ∧ ∀ w ∈ items, Strict left w
  | left + 1, .map items =>
      items.length < 65536 ∧ (items.map Prod.fst).Pairwise (fun k l => PyStr.lt k l = true) ∧
        ∀ m ∈ items, Key m.1 ∧ Strict left m.2

@[simp] theorem valueAll_eq (items : List Wire) : valueAll items = items.map value := by
  induction items with
  | nil => rfl
  | cons w rest ih => simp [valueAll, ih]

@[simp] theorem valueItems_eq (items : List (PyStr × Wire)) :
    valueItems items = items.map fun m => (m.1, m.2.value) := by
  induction items with
  | nil => rfl
  | cons m rest ih => simp [valueItems, ih]

@[simp] theorem bytesAll_eq (items : List Wire) : bytesAll items = (items.map bytes).flatten := by
  induction items with
  | nil => rfl
  | cons w rest ih => simp [bytesAll, ih]

end Wire

theorem uintForm_length (n : ℕ) : 0 < (uintForm n).length := by
  unfold uintForm
  split_ifs <;> simp

theorem strForm_length (raw : Bytes) : 0 < (strForm raw).length := by
  unfold strForm
  split_ifs <;> simp

theorem binForm_length (b : Bytes) : 0 < (binForm b).length := by
  unfold binForm
  split_ifs <;> simp

theorem arrayHead_length (n : ℕ) : 0 < (arrayHead n).length := by
  unfold arrayHead
  split_ifs <;> simp

theorem mapHead_length (n : ℕ) : 0 < (mapHead n).length := by
  unfold mapHead
  split_ifs <;> simp

/-- Every form takes a byte at least. -/
theorem Wire.bytes_length (w : Wire) : 0 < w.bytes.length := by
  cases w with
  | int n => exact uintForm_length n
  | text s => exact strForm_length _
  | raw b => exact strForm_length b
  | long b => simp [Wire.bytes]
  | bin b => exact binForm_length b
  | array items =>
      have h := arrayHead_length items.length
      rw [Wire.bytes, List.length_append]
      omega
  | map items =>
      have h := mapHead_length items.length
      rw [Wire.bytes, List.length_append]
      omega

end Signal402
