import Mathlib.Data.Rat.Init
import Mathlib.Data.List.Basic

/-!
# JSON values as a script sees them

An object is its list of properties, looked up by the first entry of a name; `set` puts a
value where the name stands, or at the end. A spread copies the *own properties* of any
value: the entries of an object, the items of an array and the code units of a string
under their indices, nothing of the rest. `member` is the optional chaining that goes with
it, and never fails.

Strings are lists of UTF-16 code units, which is what a spread takes them apart into.
-/

namespace Js

/-- A string: its UTF-16 code units. -/
abbrev Str := List UInt16

def utf16 (c : Char) : Str :=
  if c.val < 0x10000 then [c.val.toUInt16]
  else
    [(0xD800 + (c.val - 0x10000) / 0x400).toUInt16,
      (0xDC00 + (c.val - 0x10000) % 0x400).toUInt16]

def str (s : String) : Str := s.toList.flatMap utf16

inductive Value where
  | null
  | bool (b : Bool)
  | num (value : ℚ)
  | str (units : Str)
  | arr (items : List Value)
  | obj (fields : List (String × Value))

abbrev Fields := List (String × Value)

namespace Fields

def get : Fields → String → Option Value
  | [], _ => none
  | (name, value) :: rest, key => if name = key then some value else get rest key

def set : Fields → String → Value → Fields
  | [], key, value => [(key, value)]
  | (name, old) :: rest, key, value =>
    if name = key then (name, value) :: rest else (name, old) :: set rest key value

@[simp] theorem get_nil (key : String) : get [] key = none := rfl

@[simp] theorem get_cons (name key : String) (value : Value) (rest : Fields) :
    get ((name, value) :: rest) key = if name = key then some value else get rest key := rfl

@[simp] theorem get_set (f : Fields) (name key : String) (value : Value) :
    (f.set name value).get key = if name = key then some value else f.get key := by
  induction f with
  | nil => simp [set]
  | cons entry rest ih =>
    obtain ⟨other, old⟩ := entry
    unfold set
    by_cases hname : other = name
    · subst hname
      simp only [if_true, get_cons]
      split_ifs <;> rfl
    · simp only [hname, if_false, get_cons, ih]
      by_cases hkey : other = key
      · subst hkey; simp [Ne.symm hname]
      · simp [hkey]

end Fields

namespace Value

/-- Whether a condition takes the value for true. -/
def truthy : Value → Bool
  | null => false
  | bool b => b
  | num value => value ≠ 0
  | str units => units ≠ []
  | arr _ | obj _ => true

/-- The own enumerable properties. -/
def properties : Value → Fields
  | obj fields => fields
  | arr items => items.zipIdx.map fun (item, i) => (toString i, item)
  | str units => units.zipIdx.map fun (unit, i) => (toString i, .str [unit])
  | null | bool _ | num _ => []

end Value

/-- White space and line ends, as `trim` takes them: a no-break space and a byte order mark
    are, a next-line control (`U+0085`) is not. -/
def isSpace (unit : UInt16) : Bool :=
  (0x0009 ≤ unit && unit ≤ 0x000D) || (0x2000 ≤ unit && unit ≤ 0x200A) ||
    decide (unit ∈ ([0x0020, 0x00A0, 0x1680, 0x2028, 0x2029, 0x202F, 0x205F, 0x3000, 0xFEFF] :
      List UInt16))

/-- `s.trim()`. -/
def trim (s : Str) : Str := ((s.dropWhile isSpace).reverse.dropWhile isSpace).reverse

/-- `v.trim()`: a `TypeError` of anything but a string. -/
def Value.trim : Value → Option Str
  | .str units => some (Js.trim units)
  | _ => none

/-- `{ ...v }`, where `v` may be undefined. -/
def spread : Option Value → Fields
  | none => []
  | some v => v.properties

/-- `v?.[key]`. -/
def member (v : Option Value) (key : String) : Option Value := (spread v).get key

@[simp] theorem member_obj (fields : Fields) (key : String) :
    member (some (.obj fields)) key = fields.get key := rfl

/-- `v || other`. -/
def orElse (v : Option Value) (other : Value) : Value := (v.filter Value.truthy).getD other

def includes (allowed : List Str) (s : Str) : Bool := decide (s ∈ allowed)

/-- `allowed.includes(v)` for any value, with the string it found. -/
def oneOf (allowed : List Str) : Option Value → Option Str
  | some (.str s) => if includes allowed s then some s else none
  | _ => none

theorem oneOf_str {allowed : List Str} {s : Str} (h : s ∈ allowed) :
    oneOf allowed (some (.str s)) = some s := if_pos (decide_eq_true h)

theorem oneOf_mem {allowed : List Str} {v : Option Value} {s : Str}
    (h : oneOf allowed v = some s) : s ∈ allowed := by
  unfold oneOf at h
  split at h
  · split_ifs at h with hmem
    cases h
    exact of_decide_eq_true hmem
  · cases h

theorem getD_oneOf_mem {allowed : List Str} {s : Str} (h : s ∈ allowed) (v : Option Value) :
    (oneOf allowed v).getD s ∈ allowed := by
  cases hv : oneOf allowed v with
  | none => exact h
  | some found => exact oneOf_mem hv

/-- A value that `|| ""` has been through. -/
def Settled (v : Value) : Prop := v = .str [] ∨ v.truthy = true

theorem orElse_settled (v : Option Value) : Settled (orElse v (.str [])) := by
  unfold orElse
  cases hv : v.filter Value.truthy with
  | none => exact .inl rfl
  | some found => exact .inr (Option.filter_eq_some_iff.mp hv).2

/-- A second `|| ""` changes nothing. -/
theorem Settled.orElse {v : Value} (h : Settled v) : orElse (some v) (.str []) = v := by
  rcases h with rfl | htrue
  · rfl
  · simp [Js.orElse, Option.filter, htrue]

theorem settled_str (s : Str) : Settled (.str s) := by
  by_cases h : s = []
  · exact .inl (by rw [h])
  · exact .inr (by simp [Value.truthy, h])

end Js
