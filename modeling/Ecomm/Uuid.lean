import Mathlib.Data.Nat.Notation
import Mathlib.Tactic.Ring

/-! The `uuid` type of PostgreSQL: what its input function accepts and what its
output function prints. Identifiers reach the services as text. -/

namespace Ecomm

abbrev Uuid := BitVec 128

instance : LawfulBEq Uuid := inferInstance

def hexValue (c : Char) : Option Nat :=
  if '0' ≤ c ∧ c ≤ '9' then some (c.toNat - 48)
  else if 'a' ≤ c ∧ c ≤ 'f' then some (c.toNat - 87)
  else if 'A' ≤ c ∧ c ≤ 'F' then some (c.toNat - 55)
  else none

def skipHyphen : List Char → List Char
  | '-' :: cs => cs
  | cs => cs

/-- Read `n` more bytes; a hyphen may follow every second byte but the last. -/
def uuidBytes : Nat → Nat → List Char → Option (Nat × List Char)
  | 0, acc, cs => some (acc, cs)
  | n + 1, acc, a :: b :: cs =>
    match hexValue a, hexValue b with
    | some x, some y =>
      uuidBytes n (acc * 256 + (x * 16 + y)) (if n % 2 = 0 ∧ 0 < n then skipHyphen cs else cs)
    | _, _ => none
  | _ + 1, _, _ => none

/-- `uuid_in`: hexadecimal digits of either case, optional hyphens and braces. -/
def uuidIn (s : String) : Option Uuid :=
  match s.toList with
  | '{' :: cs =>
    match uuidBytes 16 0 cs with
    | some (u, ['}']) => some (BitVec.ofNat 128 u)
    | _ => none
  | cs =>
    match uuidBytes 16 0 cs with
    | some (u, []) => some (BitVec.ofNat 128 u)
    | _ => none

def hexDigit (n : Nat) : Char :=
  if n < 10 then Char.ofNat (48 + n) else Char.ofNat (87 + n)

/-- The lowest `n` bytes of `u`, with the hyphens of the standard form. -/
def uuidChars : Nat → Nat → List Char
  | 0, _ => []
  | n + 1, u =>
    let byte := u / 256 ^ n % 256
    hexDigit (byte / 16) :: hexDigit (byte % 16) ::
      (if n = 12 ∨ n = 10 ∨ n = 8 ∨ n = 6 then '-' :: uuidChars n u else uuidChars n u)

/-- `uuid_out`: the text in which the driver returns a uuid column. -/
def uuidOut (u : Uuid) : String := String.ofList (uuidChars 16 u.toNat)

theorem hexValue_hexDigit {n : Nat} (h : n < 16) : hexValue (hexDigit n) = some n := by
  have hall : ∀ n < 16, hexValue (hexDigit n) = some n := by decide
  exact hall n h

theorem hexDigit_ne_hyphen {n : Nat} (h : n < 16) : hexDigit n ≠ '-' := by
  have hall : ∀ n < 16, hexDigit n ≠ '-' := by decide
  exact hall n h

theorem skipHyphen_uuidChars (n u : Nat) : skipHyphen (uuidChars n u) = uuidChars n u := by
  cases n with
  | zero => rfl
  | succ n =>
    have hd : hexDigit (u / 256 ^ n % 256 / 16) ≠ '-' := hexDigit_ne_hyphen (by omega)
    simp only [uuidChars]
    unfold skipHyphen
    split
    · next he => exact absurd (List.cons.inj he).1 hd
    · rfl

theorem uuidBytes_uuidChars (n acc u : Nat) :
    uuidBytes n acc (uuidChars n u) = some (acc * 256 ^ n + u % 256 ^ n, []) := by
  induction n generalizing acc with
  | zero => simp [uuidBytes, uuidChars, Nat.mod_one]
  | succ n ih =>
    have hx := hexValue_hexDigit (n := u / 256 ^ n % 256 / 16) (by omega)
    have hy := hexValue_hexDigit (n := u / 256 ^ n % 256 % 16) (by omega)
    have hrest : (if n % 2 = 0 ∧ 0 < n then
        skipHyphen (if n = 12 ∨ n = 10 ∨ n = 8 ∨ n = 6 then '-' :: uuidChars n u else uuidChars n u)
      else if n = 12 ∨ n = 10 ∨ n = 8 ∨ n = 6 then '-' :: uuidChars n u else uuidChars n u) =
        uuidChars n u := by
      by_cases hd : n = 12 ∨ n = 10 ∨ n = 8 ∨ n = 6
      · have hn : n % 2 = 0 ∧ 0 < n := by omega
        simp only [hd, hn, if_true, and_self, skipHyphen]
      · simp only [hd, if_false, skipHyphen_uuidChars, ite_self]
    simp only [uuidChars, uuidBytes, hx, hy, hrest, ih]
    have hbyte : u / 256 ^ n % 256 / 16 * 16 + u / 256 ^ n % 256 % 16 = u / 256 ^ n % 256 := by
      omega
    have hmod : u % 256 ^ (n + 1) = u % 256 ^ n + 256 ^ n * (u / 256 ^ n % 256) := by
      rw [pow_succ, Nat.mod_mul]
    rw [hbyte, hmod]
    congr 2
    ring

/-- The server reads back every uuid that it prints. -/
theorem uuidIn_uuidOut (u : Uuid) : uuidIn (uuidOut u) = some u := by
  have hbytes : uuidBytes 16 0 (uuidChars 16 u.toNat) = some (u.toNat, []) := by
    rw [uuidBytes_uuidChars, Nat.mod_eq_of_lt (by exact u.isLt)]
    simp
  have hbrace : ∀ cs, uuidChars 16 u.toNat ≠ '{' :: cs := by
    intro cs he
    have hh := (List.cons.inj he).1
    have hx := hexValue_hexDigit (n := u.toNat / 256 ^ 15 % 256 / 16) (by omega)
    rw [hh] at hx
    cases hx
  unfold uuidIn uuidOut
  rw [String.toList_ofList]
  split
  · next cs he => exact absurd he (hbrace cs)
  · simp [hbytes]

example : uuidIn "{0000000000000000-0000-00000000002A}" = some 42 := by decide

end Ecomm
