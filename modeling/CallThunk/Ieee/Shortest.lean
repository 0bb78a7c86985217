import CallThunk.Ieee.Format
import CallThunk.Numeral

/-!
# Shortest decimals

A finite float is written with the fewest digits that read back to it; of the decimals with that
many digits the nearest to the float is taken, and of two equally near ones the larger in magnitude.
The reals that read back to `m · 2 ^ e` form an interval around it, closed when `m` is even.

`Format.positional` never uses an exponent and leaves out the point of whole numbers;
`Format.scientificBeyond` keeps `.0` there and turns to an exponent outside of 1e-5 to 1e16.
-/

namespace CallThunk.Ieee

/-- The decimal `digits · 10 ^ exponent`. -/
structure Decimal where
  digits : Nat
  exponent : Int
  deriving DecidableEq

/-- The reals that read back to one float, as quarters of its last place over a common denominator:
`low ≤ value ≤ high` when closed, both strict otherwise. -/
structure RoundingInterval where
  low : Nat
  value : Nat
  high : Nat
  den : Nat
  closed : Bool

namespace RoundingInterval

/-- The interval around a positive magnitude `m · 2 ^ e`. The gap below a power of two is half as
wide as the one above, unless the next smaller float is subnormal. -/
def ofMagnitude (f : Format) (m : Nat) (e : Int) : RoundingInterval :=
  let q := e - 2
  let scale := 2 ^ q.toNat
  let below := if m = 2 ^ f.fractionBits ∧ f.leastExponent < e then 1 else 2
  { low := (4 * m - below) * scale
    value := 4 * m * scale
    high := (4 * m + 2) * scale
    den := 2 ^ (-q).toNat
    closed := m % 2 = 0 }

/-- Whether the decimal `d · 10 ^ x` lies in the interval. -/
def holds (i : RoundingInterval) (d : Nat) (x : Int) : Bool :=
  let p := d * i.den * 10 ^ x.toNat
  let scale := 10 ^ (-x).toNat
  if i.closed then i.low * scale ≤ p ∧ p ≤ i.high * scale
  else i.low * scale < p ∧ p < i.high * scale

/-- The digits of the grid `10 ^ x` just below the value and whether the value is past the middle
of the step (a tie counts as past). -/
def gridPoint (i : RoundingInterval) (x : Int) : Nat × Bool :=
  let num := i.value * 10 ^ (-x).toNat
  let den := i.den * 10 ^ x.toNat
  (num / den, den ≤ 2 * (num % den))

/-- The decimal on the grid `10 ^ x` that reads back and is nearest to the value. -/
def onGrid? (i : RoundingInterval) (x : Int) : Option Nat :=
  let (d, past) := i.gridPoint x
  match i.holds d x, i.holds (d + 1) x with
  | true, true => some (if past then d + 1 else d)
  | true, false => some d
  | false, true => some (d + 1)
  | false, false => none

/-- The number of zeros between the point and the first nonzero digit of a value below one. -/
def leadingZeros (i : RoundingInterval) : Nat :=
  ((List.range 400).find? fun k => i.den ≤ i.value * 10 ^ (k + 1)).getD 0

/-- The number of decimal digits before the point of the value; for a value below one, minus the
number of zeros behind the point. -/
def integerDigits (i : RoundingInterval) : Int :=
  let whole := i.value / i.den
  if whole = 0 then -(i.leadingZeros : Int) else (Nat.toDigits 10 whole).length

/-- The first grid, from coarse to fine, on which some decimal reads back. -/
def search (i : RoundingInterval) (k : Int) : (attempts n : Nat) → Decimal
  | 0, n => ⟨(i.gridPoint (k - n)).1, k - n⟩
  | attempts + 1, n =>
    match i.onGrid? (k - n) with
    | some d => ⟨d, k - n⟩
    | none => i.search k attempts (n + 1)

end RoundingInterval

/-- Drops trailing zeros. -/
def Decimal.trimZeros : (fuel : Nat) → Decimal → Decimal
  | 0, d => d
  | fuel + 1, d =>
    if d.digits ≠ 0 ∧ d.digits % 10 = 0 then trimZeros fuel ⟨d.digits / 10, d.exponent + 1⟩ else d

namespace Format

/-- The shortest decimal that reads back to a positive magnitude. Seventeen digits always do. -/
def shortest (f : Format) (m : Nat) (e : Int) : Decimal :=
  let i := RoundingInterval.ofMagnitude f m e
  (i.search i.integerDigits 20 1).trimZeros 20

end Format

namespace Decimal

/-- Written without an exponent; `fraction` digits stand behind the point at least. -/
def positional (d : Decimal) (fraction : Nat) : String :=
  let text := Numeral.decimal d.digits
  if 0 ≤ d.exponent then
    text ++ String.ofList (List.replicate d.exponent.toNat '0') ++
      (if fraction = 0 then "" else "." ++ String.ofList (List.replicate fraction '0'))
  else
    let places := (-d.exponent).toNat
    let padded := text.toList.leftpad (places + 1) '0'
    String.ofList (padded.take (padded.length - places)) ++ "." ++
      String.ofList (padded.drop (padded.length - places))

/-- Written with one digit before the point and an exponent. -/
def scientific (d : Decimal) : String :=
  let text := (Numeral.decimal d.digits).toList
  let exponent := d.exponent + text.length - 1
  String.ofList (text.take 1) ++
    (if text.length = 1 then "" else "." ++ String.ofList (text.drop 1)) ++
    "e" ++ Numeral.signed exponent

/-- The exponent of the leading digit. -/
def magnitude (d : Decimal) : Int :=
  d.exponent + (Numeral.decimal d.digits).length - 1

end Decimal

namespace Format

/-- The text of a bit pattern, never with an exponent. -/
def positional (f : Format) (bits : Nat) : String :=
  match f.decode bits with
  | .nan => "NaN"
  | .infinite negative => if negative then "-inf" else "inf"
  | .finite negative m e =>
    (if negative then "-" else "") ++
      (if m = 0 then "0" else (f.shortest m e).positional 0)

/-- The text of a bit pattern that marks whole numbers with `.0` and takes an exponent for
magnitudes below 1e-4 or from 1e16 on. -/
def scientificBeyond (f : Format) (bits : Nat) : String :=
  match f.decode bits with
  | .nan => "NaN"
  | .infinite negative => if negative then "-inf" else "inf"
  | .finite negative m e =>
    (if negative then "-" else "") ++
      (if m = 0 then "0.0"
      else
        let d := f.shortest m e
        if -4 ≤ d.magnitude ∧ d.magnitude < 16 then d.positional 1 else d.scientific)

end Format

end CallThunk.Ieee
