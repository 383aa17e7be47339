import Signal402.Base.Python

/-!
# JSON values as Python holds them

The values `json.loads` builds: `None`, booleans, unbounded integers, floats,
strings, lists and dictionaries.  A Python string is a sequence of code points
that may contain lone surrogates, so it is not a Lean `String`; `PyStr.ofString`
embeds the literals of the source.  A dictionary keeps its members in insertion
order.
-/

namespace Signal402

/-- A Unicode code point, surrogates included. -/
abbrev CodePoint := Fin 0x110000

instance : LawfulBEq CodePoint := inferInstance

/-- The code point of a byte. -/
def CodePoint.ofByte (b : UInt8) : CodePoint := ⟨b.toNat, Nat.lt_trans b.toNat_lt (by decide)⟩

/-- Python `str`. -/
abbrev PyStr := List CodePoint

/-- The code point of a character. -/
def CodePoint.ofChar (c : Char) : CodePoint :=
  ⟨c.toNat, by
    have := c.valid
    simp only [UInt32.isValidChar, Nat.isValidChar] at this
    change c.val.toNat < 0x110000
    omega⟩

theorem CodePoint.ofChar_injective : Function.Injective CodePoint.ofChar := by
  intro a b h
  have hnat : a.toNat = b.toNat := Fin.mk.inj h
  exact Char.ext (UInt32.toNat_inj.mp hnat)

/-- A literal of the source. -/
def PyStr.ofString (s : String) : PyStr := s.toList.map CodePoint.ofChar

instance : Coe String PyStr := ⟨PyStr.ofString⟩

@[simp] theorem PyStr.ofString_inj {s t : String} :
    PyStr.ofString s = PyStr.ofString t ↔ s = t := by
  rw [PyStr.ofString, PyStr.ofString, List.map_inj_right fun _ _ h => CodePoint.ofChar_injective h,
    String.toList_inj]

/-- Python `float`, as the bits of an IEEE double. -/
structure PyFloat where
  bits : BitVec 64
  deriving DecidableEq, Repr

/-- A JSON value. -/
inductive Json
  | null
  | bool (b : Bool)
  | int (n : ℤ)
  | float (x : PyFloat)
  | str (s : PyStr)
  | arr (items : List Json)
  | obj (members : List (PyStr × Json))

/-- The members of a dictionary, in insertion order. -/
abbrev Dict := List (PyStr × Json)

namespace Dict

/-- `d.get(key)` without a default, with `none` for a missing key. -/
def get? (d : Dict) (key : PyStr) : Option Json :=
  match d with
  | [] => none
  | (k, v) :: rest => if k = key then some v else get? rest key

/-- `d.get(key)`: a missing key reads as `None`. -/
def get (d : Dict) (key : PyStr) : Json := (d.get? key).getD .null

/-- `d[key] = value`: in place when the key is there, at the end otherwise. -/
def set (d : Dict) (key : PyStr) (value : Json) : Dict :=
  match d with
  | [] => [(key, value)]
  | (k, v) :: rest => if k = key then (k, value) :: rest else (k, v) :: set rest key value

/-- `d.pop(key, None)`, for its effect. -/
def erase (d : Dict) (key : PyStr) : Dict := d.filter fun m => m.1 ≠ key

theorem get?_set (d : Dict) (key key' : PyStr) (value : Json) :
    (d.set key value).get? key' = if key = key' then some value else d.get? key' := by
  induction d with
  | nil => rfl
  | cons m rest ih =>
      obtain ⟨k, v⟩ := m
      rw [set]
      by_cases hk : k = key
      · subst hk
        rw [if_pos rfl, get?, get?]
        split <;> rfl
      · rw [if_neg hk, get?, get?, ih]
        by_cases hk' : k = key'
        · rw [if_pos hk', if_pos hk', if_neg (fun h => hk (hk'.trans h.symm))]
        · rw [if_neg hk', if_neg hk']

@[simp] theorem get_set_self (d : Dict) (key : PyStr) (value : Json) :
    (d.set key value).get key = value := by
  rw [get, get?_set, if_pos rfl]
  rfl

theorem get_set_of_ne (d : Dict) {key key' : PyStr} (value : Json) (h : key' ≠ key) :
    (d.set key value).get key' = d.get key' := by
  rw [get, get?_set, if_neg h.symm]
  rfl

end Dict

namespace Json

/-- The members, for a value that is a dictionary. -/
def asObj? : Json → Option Dict
  | obj members => some members
  | _ => none

/-- `x is True`. -/
def isTrue : Json → Bool
  | bool true => true
  | _ => false

/-- `x is False`. -/
def isFalse : Json → Bool
  | bool false => true
  | _ => false

/-- `x is None`. -/
def isNull : Json → Bool
  | null => true
  | _ => false

/-- `type(x) is bool`. -/
def isBool : Json → Bool
  | bool _ => true
  | _ => false

/-- `x == s` for a string `s`. -/
def eqStr (x : Json) (s : PyStr) : Bool :=
  match x with
  | str t => t == s
  | _ => false

end Json

end Signal402
