import Mathlib.Data.Nat.Notation

/-! `Date.prototype.toISOString` on times at or after the epoch, in
milliseconds. -/

namespace Ecomm

def maxTime : Nat := 8640000000000000

def padLeft (n : Nat) (s : String) : String := String.ofList (List.replicate (n - s.length) '0') ++ s

/-- Year, month and day of a day counted from 1970-01-01, by 400 year eras
that start on 1 March of year 0. -/
def civilFromDays (days : Nat) : Nat × Nat × Nat :=
  let z := days + 719468
  let era := z / 146097
  let doe := z % 146097
  let yoe := (doe - doe / 1460 + doe / 36524 - doe / 146096) / 365
  let doy := doe - (365 * yoe + yoe / 4 - yoe / 100)
  let mp := (5 * doy + 2) / 153
  let day := doy - (153 * mp + 2) / 5 + 1
  let month := if mp < 10 then mp + 3 else mp - 9
  (yoe + era * 400 + (if month ≤ 2 then 1 else 0), month, day)

/-- `none` is the `RangeError` of an invalid date. -/
def toISOString (ms : Nat) : Option String :=
  if ms ≤ maxTime then
    let (year, month, day) := civilFromDays (ms / 86400000)
    let y := if year ≤ 9999 then padLeft 4 (toString year) else "+" ++ padLeft 6 (toString year)
    let t := ms % 86400000
    some (y ++ "-" ++ padLeft 2 (toString month) ++ "-" ++ padLeft 2 (toString day) ++ "T" ++
      padLeft 2 (toString (t / 3600000)) ++ ":" ++ padLeft 2 (toString (t / 60000 % 60)) ++ ":" ++
      padLeft 2 (toString (t / 1000 % 60)) ++ "." ++ padLeft 3 (toString (t % 1000)) ++ "Z")
  else none

example : toISOString 1772618400000 = some "2026-03-04T10:00:00.000Z" := by decide

end Ecomm
