import CallThunk.Ieee.Format

/-!
# Float arithmetic on bit patterns

Sums, products and fused products are computed exactly and rounded once, to nearest with ties to
even. An operation on NaNs gives the first of them made quiet; one without a result gives the
negative quiet NaN.
-/

namespace CallThunk.Ieee.Format

/-- The first NaN operand, made quiet. -/
def firstNaN? (f : Format) (operands : List Nat) : Option Nat :=
  (operands.find? f.isNaN).map (· ||| f.quietBit)

/-- The result of an operation that has none. -/
def invalid (f : Format) : Nat := f.quietNaN true

/-- The pattern nearest to the dyadic number `z · 2 ^ e`; a zero gets the sign given. -/
def roundDyadic (f : Format) (zeroNegative : Bool) (z e : Int) : Nat :=
  if z = 0 then f.zero zeroNegative
  else f.roundRatio (z < 0) (z.natAbs * 2 ^ e.toNat) (2 ^ (-e).toNat)

/-- A magnitude with its sign. -/
def signedMantissa (negative : Bool) (m : Nat) : Int := if negative then -(m : Int) else m

/-- `a · b + c`, rounded once. -/
def mulAdd (f : Format) (a b c : Nat) : Nat :=
  match f.firstNaN? [a, b, c] with
  | some nan => nan
  | none =>
    match f.decode a, f.decode b, f.decode c with
    | .infinite sa, .infinite sb, .infinite sc =>
      if (sa != sb) = sc then f.infinity sc else f.invalid
    | .infinite sa, .finite sb mb _, .infinite sc =>
      if mb = 0 ∨ (sa != sb) ≠ sc then f.invalid else f.infinity sc
    | .finite sa ma _, .infinite sb, .infinite sc =>
      if ma = 0 ∨ (sa != sb) ≠ sc then f.invalid else f.infinity sc
    | .infinite sa, .infinite sb, .finite .. => f.infinity (sa != sb)
    | .infinite sa, .finite sb mb _, .finite .. =>
      if mb = 0 then f.invalid else f.infinity (sa != sb)
    | .finite sa ma _, .infinite sb, .finite .. =>
      if ma = 0 then f.invalid else f.infinity (sa != sb)
    | .finite .., .finite .., .infinite sc => f.infinity sc
    | .finite sa ma ea, .finite sb mb eb, .finite sc mc ec =>
      let product := signedMantissa (sa != sb) (ma * mb)
      let addend := signedMantissa sc mc
      let e := min (ea + eb) ec
      let sum := product * 2 ^ (ea + eb - e).toNat + addend * 2 ^ (ec - e).toNat
      f.roundDyadic ((sa != sb) && sc && ma * mb = 0 && mc = 0) sum e
    | _, _, _ => f.invalid

/-- The pattern of one. -/
def one (f : Format) : Nat := (2 ^ (f.exponentBits - 1) - 1) * 2 ^ f.fractionBits

/-- `a + b`, rounded once. -/
def add (f : Format) (a b : Nat) : Nat := f.mulAdd a f.one b

/-- `a · b`, rounded once. -/
def mul (f : Format) (a b : Nat) : Nat := f.mulAdd a b (f.zero true)

/-- The pattern nearest to an integer. -/
def ofInt (f : Format) (z : Int) : Nat := f.roundDyadic false z 0

/-- The integer part, toward zero, clamped to a range; zero for NaN. -/
def toInt (f : Format) (least greatest : Int) (bits : Nat) : Int :=
  match f.decode bits with
  | .nan => 0
  | .infinite negative => if negative then least else greatest
  | .finite negative m e =>
    let whole := m * 2 ^ e.toNat / 2 ^ (-e).toNat
    max least (min greatest (signedMantissa negative whole))

/-- The same number in another format; a NaN keeps the leading bits of its payload and is quiet. -/
def convert (f g : Format) (bits : Nat) : Nat :=
  match f.decode bits with
  | .nan =>
    let fraction := f.fractionField bits * 2 ^ g.fractionBits / 2 ^ f.fractionBits
    (g.infinity (f.isNegative bits) + fraction) ||| g.quietBit
  | .infinite negative => g.infinity negative
  | .finite negative m e => g.roundDyadic negative (signedMantissa negative m) e

end CallThunk.Ieee.Format
