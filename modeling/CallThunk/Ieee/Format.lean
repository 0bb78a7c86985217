import CallThunk.Ty.Basic

/-!
# Binary interchange formats

A float is a bit pattern. `Format.decode` reads one as a signed dyadic number `m · 2 ^ e`, an
infinity or a NaN, and `Format.roundRatio` gives the pattern nearest to a quotient of naturals, ties
going to the even pattern. Everything is exact arithmetic on natural numbers.
-/

namespace CallThunk.Ieee

/-- The shape of a binary interchange format. -/
structure Format where
  fractionBits : Nat
  exponentBits : Nat
  deriving DecidableEq

/-- What a bit pattern stands for. -/
inductive Datum where
  | nan
  | infinite (negative : Bool)
  | finite (negative : Bool) (mantissa : Nat) (exponent : Int)
  deriving DecidableEq

namespace Format

def single : Format := ⟨23, 8⟩

def double : Format := ⟨52, 11⟩

/-- Number of bits of a pattern. -/
def width (f : Format) : Nat := f.fractionBits + f.exponentBits + 1

/-- The exponent field of infinities and NaNs. -/
def topExponent (f : Format) : Nat := 2 ^ f.exponentBits - 1

/-- The exponent of the last place of subnormal numbers. -/
def leastExponent (f : Format) : Int :=
  2 - (2 ^ (f.exponentBits - 1) : Nat) - (f.fractionBits : Int)

def signBit (f : Format) (negative : Bool) : Nat :=
  if negative then 2 ^ (f.fractionBits + f.exponentBits) else 0

def isNegative (f : Format) (bits : Nat) : Bool :=
  bits.testBit (f.fractionBits + f.exponentBits)

def fractionField (f : Format) (bits : Nat) : Nat := bits % 2 ^ f.fractionBits

def exponentField (f : Format) (bits : Nat) : Nat :=
  bits / 2 ^ f.fractionBits % 2 ^ f.exponentBits

/-- What a bit pattern stands for. -/
def decode (f : Format) (bits : Nat) : Datum :=
  let fraction := f.fractionField bits
  let exponent := f.exponentField bits
  if exponent = f.topExponent then
    if fraction = 0 then .infinite (f.isNegative bits) else .nan
  else if exponent = 0 then
    .finite (f.isNegative bits) fraction f.leastExponent
  else
    .finite (f.isNegative bits) (2 ^ f.fractionBits + fraction) (f.leastExponent + exponent - 1)

def infinity (f : Format) (negative : Bool) : Nat :=
  f.signBit negative + f.topExponent * 2 ^ f.fractionBits

def zero (f : Format) (negative : Bool) : Nat := f.signBit negative

/-- The bit that marks a quiet NaN. -/
def quietBit (f : Format) : Nat := 2 ^ (f.fractionBits - 1)

/-- The quiet NaN without payload. -/
def quietNaN (f : Format) (negative : Bool) : Nat := f.infinity negative + f.quietBit

def isNaN (f : Format) (bits : Nat) : Bool := f.decode bits = .nan

/-- Whether a pattern is a zero of either sign. -/
def isZero (f : Format) (bits : Nat) : Bool :=
  bits = f.zero false || bits = f.zero true

/-- The bits of a magnitude `m · 2 ^ e` whose exponent is as small as the precision allows, or of
infinity when it is too large. -/
def pack (f : Format) (negative : Bool) (m : Nat) (e : Int) : Nat :=
  let hidden := 2 ^ f.fractionBits
  let (m, e) := if m = 2 * hidden then (hidden, e + 1) else (m, e)
  if m < hidden then f.signBit negative + m
  else
    let field := (e - f.leastExponent + 1).toNat
    if f.topExponent ≤ field then f.infinity negative
    else f.signBit negative + field * hidden + (m - hidden)

/-- The quotient rounded to the nearest natural number, a half going to the even one. -/
def divNearestEven (num den : Nat) : Nat :=
  let q := num / den
  let r := num % den
  if 2 * r < den then q
  else if 2 * r > den then q + 1
  else if q % 2 = 0 then q else q + 1

/-- The largest `k` with `2 ^ k ≤ num / den`, for positive arguments. -/
def log2Ratio (num den : Nat) : Int :=
  let k : Int := (num.log2 : Int) - den.log2
  let fits := if 0 ≤ k then den * 2 ^ k.toNat ≤ num else den ≤ num * 2 ^ (-k).toNat
  if fits then k else k - 1

/-- The pattern nearest to `num / den`, a tie going to the even one. -/
def roundRatio (f : Format) (negative : Bool) (num den : Nat) : Nat :=
  if num = 0 then f.zero negative
  else
    let e := max f.leastExponent (log2Ratio num den - f.fractionBits)
    let m := if 0 ≤ e then divNearestEven num (den * 2 ^ e.toNat)
      else divNearestEven (num * 2 ^ (-e).toNat) den
    f.pack negative m e

end Format

end CallThunk.Ieee

namespace CallThunk.FloatKind

/-- The interchange format of a float kind. -/
def format : FloatKind → Ieee.Format
  | f32 => .single
  | f64 => .double

end CallThunk.FloatKind
