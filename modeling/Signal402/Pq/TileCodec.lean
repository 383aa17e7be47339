import Signal402.Lib.BigEndian
import Signal402.Pq.Tiles

/-!
# Reading entry bundles and hash tiles (`pq/tiles.py`)

The decoders of the two kinds of tile file, and that each is the inverse of its
encoder: what was encoded is read back, and what is read at all is the encoding
of what was read.  The index `i` of the entry loop only grows, which is why the
loop ends on every byte string.
-/

namespace Signal402.Tiles

open Merkle

/-- The loop `while i < len(raw)` of `decode_entry_bundle`. -/
def decodeEntryLoop (raw : Bytes) (i : ℕ) (out : List Bytes) : Except PyError (List Bytes) :=
  if i < raw.length then
    if i + 2 > raw.length then .error (.valueError "truncated entry length")
    else
      let n := BigEndian.decode (slice raw i (i + 2))
      if i + 2 + n > raw.length then .error (.valueError "truncated entry body")
      else decodeEntryLoop raw (i + 2 + n) (out ++ [slice raw (i + 2) (i + 2 + n)])
  else .ok out
termination_by raw.length - i

def decodeEntryBundle (data : Bytes) (expected : Option ℤ) : Except PyError (List Bytes) :=
  (decodeEntryLoop data 0 []).bind fun out =>
    if ∃ width ∈ expected, (out.length : ℤ) ≠ width then
      .error (.valueError "entry bundle width mismatch")
    else .ok out

/-- The list comprehension runs over the multiples of 32 below the length. -/
def decodeHashTile (data : Bytes) : Except PyError (List Bytes) :=
  if data.length = 0 ∨ data.length % hashSize ≠ 0 then
    .error (.valueError "tile length is not a multiple of 32")
  else
    let n := data.length / hashSize
    if n > tileWidth then .error (.valueError "tile wider than 256")
    else .ok ((List.range n).map fun i => slice data (hashSize * i) (hashSize * i + hashSize))

/-! ## The two length bytes -/

theorem decode_length_bytes {n : ℕ} (h : n ≤ maxEntryBytes) :
    BigEndian.decode [UInt8.ofNat (n / 256), UInt8.ofNat (n % 256)] = n := by
  simp only [maxEntryBytes] at h
  simp only [BigEndian.decode, List.length_cons, List.length_nil, UInt8.toNat_ofNat']
  omega

theorem length_bytes_decode (high low : UInt8) :
    BigEndian.decode [high, low] ≤ maxEntryBytes ∧
      UInt8.ofNat (BigEndian.decode [high, low] / 256) = high ∧
        UInt8.ofNat (BigEndian.decode [high, low] % 256) = low := by
  have hhigh := high.toNat_lt
  have hlow := low.toNat_lt
  have hvalue : BigEndian.decode [high, low] = high.toNat * 256 + low.toNat := by
    simp [BigEndian.decode]
  refine ⟨by rw [hvalue, maxEntryBytes]; omega, ?_, ?_⟩
  · rw [hvalue, show (high.toNat * 256 + low.toNat) / 256 = high.toNat by omega]
    simp
  · rw [hvalue, show (high.toNat * 256 + low.toNat) % 256 = low.toNat by omega]
    simp

/-- Two bytes remain at `i`. -/
theorem drop_of_two {raw : Bytes} {i : ℕ} (h : i + 2 ≤ raw.length) :
    ∃ high low, slice raw i (i + 2) = [high, low] ∧
      raw.drop i = high :: low :: raw.drop (i + 2) := by
  have hfirst := List.drop_eq_getElem_cons (l := raw) (i := i) (by omega)
  have hsecond := List.drop_eq_getElem_cons (l := raw) (i := i + 1) (by omega)
  refine ⟨_, _, ?_, by rw [hfirst, hsecond]⟩
  rw [slice_add, hfirst, hsecond]
  rfl

/-! ## Entry bundles -/

theorem encodeEntryBundle_cons {raw : Bytes} {rest : List Bytes} {data : Bytes} :
    encodeEntryBundle (raw :: rest) = .ok data ↔
      raw.length ≤ maxEntryBytes ∧ ∃ tail, encodeEntryBundle rest = .ok tail ∧
        data = UInt8.ofNat (raw.length / 256) :: UInt8.ofNat (raw.length % 256) ::
          (raw ++ tail) := by
  rw [encodeEntryBundle]
  split
  · simp only [reduceCtorEq, false_iff, not_and]
    omega
  · rename_i hlength
    simp only [map_eq_ok]
    constructor
    · rintro ⟨tail, htail, rfl⟩
      exact ⟨by omega, tail, htail, rfl⟩
    · rintro ⟨-, tail, htail, rfl⟩
      exact ⟨tail, htail, rfl⟩

theorem encodeEntryBundle_ok {entries : List Bytes}
    (h : ∀ entry ∈ entries, entry.length ≤ maxEntryBytes) :
    ∃ data, encodeEntryBundle entries = .ok data := by
  induction entries with
  | nil => exact ⟨[], rfl⟩
  | cons raw rest ih =>
      obtain ⟨tail, htail⟩ := ih fun entry hentry => h entry (List.mem_cons_of_mem _ hentry)
      exact ⟨_, encodeEntryBundle_cons.mpr ⟨h raw List.mem_cons_self, tail, htail, rfl⟩⟩

/-- Behind any prefix that was read already, the loop reads the encoded entries. -/
theorem decodeEntryLoop_encoded {entries : List Bytes} {data : Bytes}
    (h : encodeEntryBundle entries = .ok data) (before : Bytes) (out : List Bytes) :
    decodeEntryLoop (before ++ data) before.length out = .ok (out ++ entries) := by
  induction entries generalizing data before out with
  | nil =>
      obtain rfl : data = [] := by simpa [encodeEntryBundle] using h.symm
      rw [decodeEntryLoop]
      simp
  | cons raw rest ih =>
      obtain ⟨hraw, tail, htail, rfl⟩ := encodeEntryBundle_cons.mp h
      -- one round reads `raw`; the rest is read behind the longer prefix
      have hround := ih htail
        (before ++ [UInt8.ofNat (raw.length / 256), UInt8.ofNat (raw.length % 256)] ++ raw)
        (out ++ [raw])
      have hlength : slice (before ++ UInt8.ofNat (raw.length / 256) ::
          UInt8.ofNat (raw.length % 256) :: (raw ++ tail)) before.length (before.length + 2) =
          [UInt8.ofNat (raw.length / 256), UInt8.ofNat (raw.length % 256)] := by
        simp [slice, List.take_append]
      have hbody : slice (before ++ UInt8.ofNat (raw.length / 256) ::
          UInt8.ofNat (raw.length % 256) :: (raw ++ tail)) (before.length + 2)
          (before.length + 2 + raw.length) = raw := by
        rw [slice_add, ← List.drop_drop, List.drop_left]
        simp
      have hnext : (before ++ [UInt8.ofNat (raw.length / 256), UInt8.ofNat (raw.length % 256)] ++
          raw).length = before.length + 2 + raw.length := by
        simp
        omega
      rw [decodeEntryLoop, if_pos (by simp), if_neg (by simp)]
      simp only [hlength, decode_length_bytes hraw, hbody]
      rw [if_neg (by simp; omega)]
      rw [hnext] at hround
      simpa using hround

/-- What the loop accepts from `i` on is the encoding of the entries it adds. -/
theorem decodeEntryLoop_accepted {raw : Bytes} {i : ℕ} {out result : List Bytes}
    (h : decodeEntryLoop raw i out = .ok result) (hi : i ≤ raw.length) :
    ∃ entries, result = out ++ entries ∧ encodeEntryBundle entries = .ok (raw.drop i) := by
  fun_induction decodeEntryLoop raw i out with
  | case1 => simp at h
  | case2 => simp at h
  | case3 i out hmore htwo n hbody ih =>
      obtain ⟨entries, rfl, hentries⟩ := ih h (by omega)
      have htwo : i + 2 ≤ raw.length := by omega
      obtain ⟨high, low, hbytes, hdrop⟩ := drop_of_two htwo
      obtain ⟨hmax, hhigh, hlow⟩ := length_bytes_decode high low
      have hn : n = BigEndian.decode [high, low] := by rw [← hbytes]
      have hsize : (slice raw (i + 2) (i + 2 + n)).length = n := by
        rw [slice_length]
        omega
      refine ⟨slice raw (i + 2) (i + 2 + n) :: entries, by simp, ?_⟩
      apply encodeEntryBundle_cons.mpr
      refine ⟨by rw [hsize, hn]; exact hmax, _, hentries, ?_⟩
      rw [hsize, hdrop, hn, hhigh, hlow, ← hn]
      congr 2
      have hjoin := (List.take_append_drop n (raw.drop (i + 2))).symm
      rwa [List.drop_drop, ← slice_add] at hjoin
  | case4 i out hend =>
      obtain rfl : i = raw.length := by omega
      refine ⟨[], by simpa using h.symm, ?_⟩
      simp [encodeEntryBundle]

theorem decodeEntryLoop_error {raw : Bytes} {i : ℕ} {out : List Bytes} {e : PyError}
    (h : decodeEntryLoop raw i out = .error e) : ∃ message, e = .valueError message := by
  fun_induction decodeEntryLoop raw i out with
  | case1 => exact ⟨_, (Except.error.inj h).symm⟩
  | case2 => exact ⟨_, (Except.error.inj h).symm⟩
  | case3 i out hmore htwo n hbody ih => exact ih h
  | case4 => cases h

theorem decodeEntryBundle_eq_ok {data : Bytes} {expected : Option ℤ} {entries : List Bytes} :
    decodeEntryBundle data expected = .ok entries ↔
      encodeEntryBundle entries = .ok data ∧
        ∀ width ∈ expected, width = (entries.length : ℤ) := by
  rw [decodeEntryBundle, bind_eq_ok]
  constructor
  · rintro ⟨out, hout, hwidth⟩
    split at hwidth
    · cases hwidth
    · rename_i hexpected
      obtain rfl := Except.ok.inj hwidth
      obtain ⟨found, hfound, hencoded⟩ := decodeEntryLoop_accepted hout (Nat.zero_le _)
      obtain rfl : out = found := by simpa using hfound
      refine ⟨by simpa using hencoded, fun width hmem => ?_⟩
      by_contra hne
      exact hexpected ⟨width, hmem, fun h => hne h.symm⟩
  · rintro ⟨hencoded, hexpected⟩
    refine ⟨entries, by simpa using decodeEntryLoop_encoded hencoded [] [], if_neg ?_⟩
    rintro ⟨width, hmem, hne⟩
    exact hne (hexpected width hmem).symm

theorem decodeEntryBundle_error {data : Bytes} {expected : Option ℤ} {e : PyError}
    (h : decodeEntryBundle data expected = .error e) : ∃ message, e = .valueError message := by
  rw [decodeEntryBundle] at h
  cases hloop : decodeEntryLoop data 0 [] with
  | error e' =>
      rw [hloop] at h
      obtain rfl : e' = e := Except.error.inj h
      exact decodeEntryLoop_error hloop
  | ok out =>
      rw [hloop] at h
      simp only [Except.bind] at h
      split at h
      · exact ⟨_, (Except.error.inj h).symm⟩
      · cases h

/-! ## Hash tiles -/

theorem encodeHashTile_eq_ok {hashes : List Bytes} {data : Bytes} :
    encodeHashTile hashes = .ok data ↔
      1 ≤ hashes.length ∧ hashes.length ≤ tileWidth ∧
        (∀ h ∈ hashes, h.length = hashSize) ∧ data = hashes.flatten := by
  have hempty : hashes = [] ↔ ¬ 1 ≤ hashes.length := by
    rw [← List.length_eq_zero_iff]
    omega
  rw [encodeHashTile]
  split
  · rename_i hcount
    simp only [reduceCtorEq, false_iff, not_and]
    intro hone hmax
    rcases hcount with h | h
    · exact absurd hone (hempty.mp h)
    · omega
  · rename_i hcount
    push Not at hcount
    have hone : 1 ≤ hashes.length := by
      by_contra h
      exact hcount.1 (hempty.mpr h)
    split
    · rename_i hall
      simp only [List.all_eq_true, beq_iff_eq] at hall
      constructor
      · intro h
        exact ⟨hone, hcount.2, hall, (Except.ok.inj h).symm⟩
      · rintro ⟨-, -, -, rfl⟩
        rfl
    · rename_i hall
      simp only [List.all_eq_true, beq_iff_eq] at hall
      simp only [reduceCtorEq, false_iff, not_and]
      intro _ _ h
      exact absurd h hall

/-- Equal pieces of a string joined again. -/
theorem flatten_pieces (data : Bytes) (size n : ℕ) (h : data.length = size * n) :
    ((List.range n).map fun i => slice data (size * i) (size * i + size)).flatten = data := by
  suffices htaken : ∀ k, k ≤ n →
      ((List.range k).map fun i => slice data (size * i) (size * i + size)).flatten =
        data.take (size * k) by
    rw [htaken n le_rfl, ← h, List.take_length]
  intro k hk
  induction k with
  | zero => simp
  | succ k ih =>
      rw [List.range_succ, List.map_append, List.flatten_append, ih (by omega)]
      simp only [List.map_cons, List.map_nil, List.flatten_cons, List.flatten_nil,
        List.append_nil, slice_add]
      rw [Nat.mul_succ, List.take_add]

/-- The pieces of a string that was joined from pieces of that size. -/
theorem pieces_flatten (hashes : List Bytes) (size : ℕ) (h : ∀ x ∈ hashes, x.length = size) :
    (List.range hashes.length).map
      (fun i => slice hashes.flatten (size * i) (size * i + size)) = hashes := by
  induction hashes with
  | nil => rfl
  | cons first rest ih =>
      have hfirst : first.length = size := h first List.mem_cons_self
      rw [List.length_cons, List.range_succ_eq_map, List.map_cons, List.map_map]
      have htail := ih fun x hx => h x (List.mem_cons_of_mem _ hx)
      simp only [slice_add] at htail ⊢
      congr 1
      · simp [← hfirst]
      · refine Eq.trans (List.map_congr_left fun i _ => ?_) htail
        -- the pieces behind the first one are the pieces of the rest
        have hstart : size * (i + 1) = first.length + size * i := by
          rw [hfirst, Nat.mul_succ, Nat.add_comm]
        simp only [Function.comp, Nat.succ_eq_add_one, List.flatten_cons]
        rw [hstart, ← List.drop_drop, List.drop_left]

theorem length_flatten_of_eq {hashes : List Bytes} {size : ℕ}
    (h : ∀ x ∈ hashes, x.length = size) : hashes.flatten.length = size * hashes.length := by
  induction hashes with
  | nil => rfl
  | cons first rest ih =>
      rw [List.flatten_cons, List.length_append, h first List.mem_cons_self,
        ih fun x hx => h x (List.mem_cons_of_mem _ hx), List.length_cons, Nat.mul_succ, Nat.add_comm]

theorem decodeHashTile_eq_ok {data : Bytes} {hashes : List Bytes} :
    decodeHashTile data = .ok hashes ↔ encodeHashTile hashes = .ok data := by
  have hsize : 0 < hashSize := by decide
  rw [encodeHashTile_eq_ok, decodeHashTile]
  split
  · rename_i hlength
    simp only [reduceCtorEq, false_iff, not_and]
    rintro hone - hall rfl
    rw [length_flatten_of_eq hall] at hlength
    have hpos : 0 < hashSize * hashes.length := Nat.mul_pos hsize (by omega)
    rcases hlength with h | h
    · exact absurd h (Nat.ne_of_gt hpos)
    · exact absurd (Nat.mul_mod_right _ _) h
  · rename_i hlength
    push Not at hlength
    have hdata : data.length = hashSize * (data.length / hashSize) := by
      rw [Nat.mul_div_cancel' (Nat.dvd_of_mod_eq_zero hlength.2)]
    have hpos : 0 < data.length / hashSize := by
      rcases Nat.eq_zero_or_pos (data.length / hashSize) with h | h
      · rw [h] at hdata
        exact absurd (by omega) hlength.1
      · exact h
    have hpieces : ∀ x ∈ (List.range (data.length / hashSize)).map
        (fun i => slice data (hashSize * i) (hashSize * i + hashSize)), x.length = hashSize := by
      intro x hx
      obtain ⟨i, hi, rfl⟩ := List.mem_map.mp hx
      have hbound : hashSize * (i + 1) ≤ hashSize * (data.length / hashSize) :=
        Nat.mul_le_mul_left _ (List.mem_range.mp hi)
      rw [slice_length]
      rw [Nat.mul_add] at hbound
      omega
    simp only
    constructor
    · intro h
      split at h
      · cases h
      · rename_i hwidth
        obtain rfl := Except.ok.inj h
        simp only [List.length_map, List.length_range]
        exact ⟨hpos, by omega, hpieces, (flatten_pieces data _ _ hdata).symm⟩
    · rintro ⟨hone, hmax, hall, rfl⟩
      have hcount : hashes.flatten.length / hashSize = hashes.length := by
        rw [length_flatten_of_eq hall, Nat.mul_div_cancel_left _ hsize]
      rw [hcount, if_neg (by omega), pieces_flatten hashes _ hall]

theorem decodeHashTile_error {data : Bytes} {e : PyError} (h : decodeHashTile data = .error e) :
    ∃ message, e = .valueError message := by
  rw [decodeHashTile] at h
  split at h
  · exact ⟨_, (Except.error.inj h).symm⟩
  · simp only at h
    split at h
    · exact ⟨_, (Except.error.inj h).symm⟩
    · cases h

/-- A codec of the two: what it encodes is read back, it reads only encodings, and
it rejects everything else with a `ValueError`. -/
structure Inverse {α : Type*} (Valid : α → Prop) (encode : α → Except PyError Bytes)
    (decode : Bytes → Except PyError α) : Prop where
  read_back : ∀ value, Valid value →
    ∃ data, encode value = .ok data ∧ decode data = .ok value
  accepted : ∀ data value, decode data = .ok value → Valid value ∧ encode value = .ok data
  rejected : ∀ data, (∀ value, Valid value → encode value ≠ .ok data) →
    ∃ message, decode data = .error (.valueError message)

theorem inverse_of_eq_ok {α : Type*} {Valid : α → Prop} {encode : α → Except PyError Bytes}
    {decode : Bytes → Except PyError α}
    (hencode : ∀ value, Valid value → ∃ data, encode value = .ok data)
    (hvalid : ∀ value data, encode value = .ok data → Valid value)
    (hdecode : ∀ data value, decode data = .ok value ↔ encode value = .ok data)
    (herror : ∀ data e, decode data = .error e → ∃ message, e = .valueError message) :
    Inverse Valid encode decode where
  read_back value h := by
    obtain ⟨data, hdata⟩ := hencode value h
    exact ⟨data, hdata, (hdecode data value).mpr hdata⟩
  accepted data value h := by
    have hdata := (hdecode data value).mp h
    exact ⟨hvalid value data hdata, hdata⟩
  rejected data h := by
    cases hread : decode data with
    | ok value =>
        have hdata := (hdecode data value).mp hread
        exact absurd hdata (h value (hvalid value data hdata))
    | error e =>
        obtain ⟨message, rfl⟩ := herror data e hread
        exact ⟨message, rfl⟩

theorem entryBundle_valid {entries : List Bytes} {data : Bytes}
    (h : encodeEntryBundle entries = .ok data) : ∀ entry ∈ entries, entry.length < 65536 := by
  induction entries generalizing data with
  | nil => simp
  | cons raw rest ih =>
      obtain ⟨hraw, tail, htail, -⟩ := encodeEntryBundle_cons.mp h
      intro entry hentry
      rcases List.mem_cons.mp hentry with rfl | hrest
      · exact Nat.lt_succ_of_le hraw
      · exact ih htail entry hrest

/-- Entry bundles and hash tiles are bijective codecs; a bundle that is read at an
expected width has that many entries. -/
theorem tile_files_bijective :
    Inverse (fun entries : List Bytes => ∀ entry ∈ entries, entry.length < 65536)
        encodeEntryBundle (fun data => decodeEntryBundle data none) ∧
      (∀ (data : Bytes) (width : ℤ) (entries : List Bytes),
        decodeEntryBundle data (some width) = .ok entries ↔
          decodeEntryBundle data none = .ok entries ∧ width = entries.length) ∧
      (∀ (data : Bytes) (width : ℤ) (e : PyError),
        decodeEntryBundle data (some width) = .error e → ∃ message, e = .valueError message) ∧
      Inverse (fun hashes : List Bytes => 1 ≤ hashes.length ∧ hashes.length ≤ 256 ∧
          ∀ hash ∈ hashes, hash.length = 32) encodeHashTile decodeHashTile := by
  refine ⟨?_, ?_, fun data width e => decodeEntryBundle_error, ?_⟩
  · apply inverse_of_eq_ok
    · intro entries h
      exact encodeEntryBundle_ok fun entry hentry => Nat.le_of_lt_succ (h entry hentry)
    · exact fun entries data => entryBundle_valid
    · intro data entries
      rw [decodeEntryBundle_eq_ok]
      simp
    · exact fun data e => decodeEntryBundle_error
  · intro data width entries
    rw [decodeEntryBundle_eq_ok, decodeEntryBundle_eq_ok]
    simp
  · apply inverse_of_eq_ok
    · intro hashes h
      exact ⟨hashes.flatten, encodeHashTile_eq_ok.mpr ⟨h.1, h.2.1, h.2.2, rfl⟩⟩
    · intro hashes data h
      obtain ⟨hone, hmax, hall, -⟩ := encodeHashTile_eq_ok.mp h
      exact ⟨hone, hmax, hall⟩
    · exact fun data hashes => decodeHashTile_eq_ok
    · exact fun data e => decodeHashTile_error

end Signal402.Tiles
