import CallThunk.Toml.Scan
import CallThunk.Numeral

/-!
# Dates in TOML

A date, a time of day, or both; only both together may have an offset from universal time. A date
must exist in the calendar, and a minute may have a leap second.
-/

namespace CallThunk.Toml.Scan

/-- Takes a number of a fixed count of digits that lies between two bounds. -/
def fixed (count low high : Nat) : Scan Nat := fun cs =>
  match Numeral.value? 10 (cs.take count) with
  | some n =>
    if count ≤ cs.length ∧ low ≤ n ∧ n ≤ high then some (n, cs.drop count) else none
  | none => none

def isLeapYear (year : Nat) : Bool :=
  year % 4 = 0 && (year % 100 ≠ 0 || year % 400 = 0)

def daysIn (year month : Nat) : Nat :=
  if month = 2 then (if isLeapYear year then 29 else 28)
  else if month = 4 ∨ month = 6 ∨ month = 9 ∨ month = 11 then 30
  else 31

/-- Takes a calendar date. -/
def day : Scan PUnit := do
  let year ← fixed 4 0 9999
  char '-'
  let month ← fixed 2 1 12
  char '-'
  discard (fixed 2 1 (daysIn year month))

/-- Takes a time of day, with any number of digits for parts of a second. -/
def time : Scan PUnit := do
  discard (fixed 2 0 23)
  char ':'
  discard (fixed 2 0 59)
  char ':'
  discard (fixed 2 0 60)
  if ← eat "." then
    discard (charThat Char.isDigit)
    discard (run Char.isDigit)

/-- Takes an offset from universal time. -/
def offset : Scan PUnit := do
  let c ← charThat fun c => c = 'Z' || c = 'z' || c = '+' || c = '-'
  if c = '+' || c = '-' then
    discard (fixed 2 0 23)
    char ':'
    discard (fixed 2 0 59)

/-- Takes a date, a time or both. -/
def date : Scan PUnit := do
  if (← optional day).isNone then
    time
  else
    discard <| optional do
      discard (charThat fun c => c = 'T' || c = 't' || c = ' ')
      time
      discard (optional offset)

end CallThunk.Toml.Scan
