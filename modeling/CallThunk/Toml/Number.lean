import CallThunk.Toml.Basic
import CallThunk.Toml.Scan
import CallThunk.Text.Split
import CallThunk.Ieee.Reading

/-!
# Numbers in TOML

Single underscores may stand between digits. Decimal numbers have no leading zeros; only unsigned
integers are written in other bases. Integers fit 64 bits, and a float that would round to positive
infinity is refused.
-/

namespace CallThunk.Toml.Scan

/-- Takes digits of a base, with single underscores between them; the underscores are dropped. -/
def digits (base : Nat) : Scan (List Char) := do
  let cs ← run fun c => (Numeral.digitIn? base c).isSome || c = '_'
  if (Text.split '_' cs).all fun piece => !piece.isEmpty then
    return cs.filter (· ≠ '_')
  fail

/-- The integer that digits write, if it fits. -/
def integerOf (base : Nat) (negative : Bool) (digits : List Char) : Scan Node :=
  match Numeral.value? base digits with
  | some n =>
    let z : Int := if negative then -n else n
    if -2 ^ 63 ≤ z ∧ z < 2 ^ 63 then return .integer z else fail
  | none => fail

/-- Takes a sign, and says whether it is a minus sign. -/
def sign : Scan Bool := do
  if ← eat "-" then
    return true
  discard (eat "+")
  return false

/-- Takes an exponent, if one comes next. -/
def exponent? : Scan (Option Int) := do
  if !(← eat "e") && !(← eat "E") then
    return none
  let negative ← sign
  match Numeral.value? 10 (← digits 10) with
  | some n => return some (if negative then -n else n)
  | none => fail

/-- Takes digits behind a point, if one comes next. -/
def fraction? : Scan (Option (List Char)) := do
  if ← eat "." then
    return some (← digits 10)
  return none

/-- Takes a decimal integer or float behind its sign. -/
def decimal (negative : Bool) : Scan Node := do
  let whole ← digits 10
  if 1 < whole.length ∧ whole.head? = some '0' then
    fail
  let fraction ← fraction?
  let exponent ← exponent?
  if fraction.isNone ∧ exponent.isNone then
    integerOf 10 negative whole
  else
    let fraction := fraction.getD []
    match Numeral.value? 10 (whole ++ fraction) with
    | some n =>
      let double := Ieee.Format.double
      let bits := double.ofDecimal negative n (exponent.getD 0 - fraction.length)
      if bits = double.infinity false then
        fail
      else return .float
    | none => fail

/-- Takes a number. -/
def number : Scan Node := do
  if ← eat "0x" then
    integerOf 16 false (← digits 16)
  else if ← eat "0o" then
    integerOf 8 false (← digits 8)
  else if ← eat "0b" then
    integerOf 2 false (← digits 2)
  else
    let negative ← sign
    if ← eat "inf" then
      return .float
    else if ← eat "nan" then
      return .float
    else
      decimal negative

end CallThunk.Toml.Scan
