/-!
# Numerals

How numbers are written: sizes and counts in decimal, addresses in lower-case hexadecimal without
padding, bytes as two hexadecimal digits. `Numeral.value` reads digits of any base back.
-/

-- A power of numbers is the core one, whichever instances of powers are in scope.
attribute [instance (high), default_instance 20000] instPowNat

namespace CallThunk.Numeral

/-- A natural number in decimal. -/
def decimal (n : Nat) : String := toString n

/-- An integer in decimal, with a minus sign when negative. -/
def signed (z : Int) : String :=
  if z < 0 then "-" ++ decimal z.natAbs else decimal z.natAbs

/-- A natural number in hexadecimal. -/
def hex (n : Nat) : String := "0x" ++ String.ofList (Nat.toDigits 16 n)

/-- The lower-case hexadecimal digits of a number, padded with zeros to a width. -/
def hexPadded (width n : Nat) : String :=
  String.ofList ((Nat.toDigits 16 n).leftpad width '0')

/-- A byte as two hexadecimal digits. -/
def hexByte (b : UInt8) : String := hexPadded 2 b.toNat

/-- The value of one digit character, of either case. -/
def digit? (c : Char) : Option Nat :=
  if '0' ≤ c ∧ c ≤ '9' then some (c.toNat - '0'.toNat)
  else if 'a' ≤ c ∧ c ≤ 'z' then some (c.toNat - 'a'.toNat + 10)
  else if 'A' ≤ c ∧ c ≤ 'Z' then some (c.toNat - 'A'.toNat + 10)
  else none

/-- The value of one digit of a base. -/
def digitIn? (base : Nat) (c : Char) : Option Nat :=
  (digit? c).filter (· < base)

/-- The number that a list of digits of a base writes, the most significant digit first. -/
def value? (base : Nat) (digits : List Char) : Option Nat :=
  digits.foldlM (fun acc c => (digitIn? base c).map (base * acc + ·)) 0

end CallThunk.Numeral
