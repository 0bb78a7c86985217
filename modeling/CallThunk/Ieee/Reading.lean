import CallThunk.Ieee.Format
import CallThunk.Numeral

/-!
# Reading decimals

A float literal is an optional sign and then `inf`, `infinity` or `nan` in any case, or digits with
an optional point and an optional exponent, where digits may be missing on one side of the point
but not on both. The value is rounded once, to the nearest float with ties to even.
-/

namespace CallThunk.Ieee

/-- Why a text is no float. -/
inductive LiteralError where
  | empty
  | invalid
  deriving DecidableEq

def LiteralError.message : LiteralError → String
  | .empty => "cannot parse float from empty string"
  | .invalid => "invalid float literal"

/-- The unsigned decimal `digits · 10 ^ exponent` of a literal, or a special value. -/
inductive Literal where
  | decimal (digits : Nat) (exponent : Int)
  | infinity
  | nan
  deriving DecidableEq

namespace Literal

/-- Reads an optional sign. -/
def splitSign : List Char → Bool × List Char
  | '-' :: cs => (true, cs)
  | '+' :: cs => (false, cs)
  | cs => (false, cs)

/-- Reads the exponent behind the digits: nothing, or `e` with an optional sign and digits. -/
def exponent? : List Char → Option Int
  | [] => some 0
  | c :: cs =>
    if c = 'e' ∨ c = 'E' then
      let (negative, digits) := splitSign cs
      if digits.isEmpty then none
      else (Numeral.value? 10 digits).map fun n => if negative then -(n : Int) else n
    else none

/-- Reads digits with an optional point, and an exponent. -/
def number? (cs : List Char) : Option Literal :=
  let whole := cs.takeWhile Char.isDigit
  let rest := cs.dropWhile Char.isDigit
  let (fraction, rest) := match rest with
    | '.' :: rest => (rest.takeWhile Char.isDigit, rest.dropWhile Char.isDigit)
    | rest => ([], rest)
  if whole.isEmpty ∧ fraction.isEmpty then none
  else do
    let digits ← Numeral.value? 10 (whole ++ fraction)
    let exponent ← exponent? rest
    some (.decimal digits (exponent - fraction.length))

/-- Reads an unsigned literal. -/
def read? (cs : List Char) : Option Literal :=
  let word := String.ofList (cs.map Char.toLower)
  if word = "nan" then some .nan
  else if word = "inf" ∨ word = "infinity" then some .infinity
  else number? cs

end Literal

namespace Format

/-- The pattern nearest to `digits · 10 ^ exponent`. Exponents far beyond the format's range decide
the result without any arithmetic. -/
def ofDecimal (f : Format) (negative : Bool) (digits : Nat) (exponent : Int) : Nat :=
  if digits = 0 then f.zero negative
  else
    let leading : Int := exponent + (Nat.toDigits 10 digits).length
    if leading > 400 then f.infinity negative
    else if leading < -400 then f.zero negative
    else if 0 ≤ exponent then f.roundRatio negative (digits * 10 ^ exponent.toNat) 1
    else f.roundRatio negative digits (10 ^ (-exponent).toNat)

/-- The bit pattern that a text writes. -/
def read (f : Format) (text : String) : Except LiteralError Nat :=
  if text.isEmpty then .error .empty
  else
    let (negative, cs) := Literal.splitSign text.toList
    match Literal.read? cs with
    | none => .error .invalid
    | some .nan => .ok (f.quietNaN negative)
    | some .infinity => .ok (f.infinity negative)
    | some (.decimal digits exponent) => .ok (f.ofDecimal negative digits exponent)

end Format

end CallThunk.Ieee
