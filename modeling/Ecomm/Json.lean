import Mathlib.Data.List.Basic
import Mathlib.Data.Nat.Notation
import Mathlib.Data.Rat.Defs

/-! JSON values as the services handle them: the result of `JSON.parse`, with
property access, object spread and what `JSON.stringify` keeps. -/

namespace Ecomm

/-- What `Number` makes of a text. -/
inductive JsNumber where
  | nan
  | infinite
  | finite (x : ℚ)

/-- `overflow` is a number literal beyond the doubles, parsed as an infinity. -/
inductive Json where
  | null
  | bool (b : Bool)
  | num (x : ℚ)
  | overflow
  | str (s : String)
  | arr (xs : List Json)
  | obj (fields : List (String × Json))

namespace Json

abbrev Fields := List (String × Json)

/-- `{ ...fields, key: value }`: an existing property keeps its place. -/
def setField (key : String) (value : Json) : Fields → Fields
  | [] => [(key, value)]
  | (k, v) :: fs => if k = key then (k, value) :: fs else (k, v) :: setField key value fs

theorem lookup_setField_self (key : String) (value : Json) (fs : Fields) :
    (setField key value fs).lookup key = some value := by
  induction fs with
  | nil => simp [setField]
  | cons f fs ih =>
    obtain ⟨k, v⟩ := f
    by_cases h : k = key
    · simp [setField, h]
    · have hk : (key == k) = false := by simpa using Ne.symm h
      simp [setField, h, List.lookup_cons, ih, hk]

theorem lookup_setField_other {key other : String} (value : Json) (h : other ≠ key) (fs : Fields) :
    (setField key value fs).lookup other = fs.lookup other := by
  induction fs with
  | nil => simp [setField, h]
  | cons f fs ih =>
    obtain ⟨k, v⟩ := f
    by_cases hk : k = key
    · subst hk
      have ho : (other == k) = false := by simpa using h
      simp [setField, List.lookup_cons, ho]
    · simp [setField, hk, List.lookup_cons, ih]

/-- Own enumerable properties, as `{ ...value }` copies them. Those of a string are
its code points here, and its UTF-16 units in JavaScript. -/
def spread : Json → Fields
  | obj fields => fields
  | arr xs => xs.zipIdx.map (fun x => (toString x.2, x.1))
  | str s => s.toList.zipIdx.map (fun c => (toString c.2, .str c.1.toString))
  | _ => []

/-- Reading a property of anything but `null`; a missing one is undefined. -/
def get (key : String) : Json → Option Json
  | obj fields => fields.lookup key
  | _ => none

theorem index_ne {key : String} {c : Char} (hc : c ∈ key.toList) (hd : c.isDigit = false) (n : Nat) :
    toString n ≠ key := by
  intro he
  have hmem : c ∈ Nat.toDigits 10 n := by
    rw [← Nat.toList_repr, show n.repr = key from he]
    exact hc
  rw [Nat.isDigit_of_mem_toDigits (by decide) (by decide) hmem] at hd
  cases hd

theorem lookup_map_index {α : Type} {xs : List α} {f : α → String} {g : α → Json} {key : String}
    (h : ∀ x ∈ xs, f x ≠ key) : (xs.map (fun x => (f x, g x))).lookup key = none := by
  induction xs with
  | nil => rfl
  | cons x xs ih =>
    have hx : (key == f x) = false := by simpa using (h x List.mem_cons_self).symm
    simp only [List.map_cons, List.lookup_cons, hx]
    exact ih (fun y hy => h y (List.mem_cons_of_mem _ hy))

/-- A spread copies what can be read under a key that is no index. -/
theorem lookup_spread {key : String} (h : ∀ n : Nat, toString n ≠ key) (v : Json) :
    v.spread.lookup key = v.get key := by
  cases v with
  | obj fields => rfl
  | arr xs => exact lookup_map_index (fun x _ => h x.2)
  | str s => exact lookup_map_index (fun x _ => h x.2)
  | null | bool _ | num _ | overflow => rfl

mutual

/-- Conversion to text throws on an object that has a `toString` of its own,
which cannot be a function. -/
def convertible : Json → Bool
  | obj fields => (fields.lookup "toString").isNone
  | arr xs => convertibleAll xs
  | _ => true

def convertibleAll : List Json → Bool
  | [] => true
  | x :: xs => convertible x && convertibleAll xs

end

mutual

/-- The value that parsing `JSON.stringify(v)` gives back: infinities become `null`. -/
def stringified : Json → Json
  | null => null
  | bool b => bool b
  | num x => num x
  | overflow => null
  | str s => str s
  | arr xs => arr (stringifiedAll xs)
  | obj fields => obj (stringifiedFields fields)

def stringifiedAll : List Json → List Json
  | [] => []
  | x :: xs => stringified x :: stringifiedAll xs

def stringifiedFields : List (String × Json) → List (String × Json)
  | [] => []
  | (k, v) :: fs => (k, stringified v) :: stringifiedFields fs

end

theorem lookup_stringifiedFields (key : String) (fs : Fields) :
    (stringifiedFields fs).lookup key = (fs.lookup key).map stringified := by
  induction fs with
  | nil => rfl
  | cons f fs ih =>
    obtain ⟨k, v⟩ := f
    simp only [stringifiedFields, List.lookup_cons, ih]
    cases key == k <;> rfl

theorem get_stringified_str {key s : String} {v : Json} (h : v.get key = some (.str s)) :
    v.stringified.get key = some (.str s) := by
  cases v with
  | obj fields =>
    simp only [get] at h
    simp [stringified, get, lookup_stringifiedFields, h]
  | null | bool _ | num _ | overflow | str _ | arr _ => cases h

end Json

end Ecomm
