import CallThunk.Numeral

/-!
# Reading integers

An integer is an optional sign and at least one digit. A minus sign is allowed only where negative
numbers are. Digits are taken from left to right, and the first one that is no digit, or that leads
out of the range, decides the error.
-/

namespace CallThunk.Numeral

/-- Why a text is no integer of a range. -/
inductive IntegerError where
  | empty
  | invalidDigit
  | tooLarge
  | tooSmall
  deriving DecidableEq

def IntegerError.message : IntegerError → String
  | empty => "cannot parse integer from empty string"
  | invalidDigit => "invalid digit found in string"
  | tooLarge => "number too large to fit in target type"
  | tooSmall => "number too small to fit in target type"

/-- A range of integers that contains zero. -/
structure Range where
  low : Int
  high : Int
  deriving DecidableEq

namespace Range

/-- The numbers that fit a number of bits. -/
def unsigned (width : Nat) : Range := ⟨0, 2 ^ width - 1⟩

/-- The numbers that fit a number of bits in two's complement. -/
def twosComplement (width : Nat) : Range := ⟨-2 ^ (width - 1), 2 ^ (width - 1) - 1⟩

/-- Appends digits to a number, away from zero. -/
def readDigits (range : Range) (base : Nat) (negative : Bool) :
    (read : Int) → List Char → Except IntegerError Int
  | read, [] => .ok read
  | read, c :: cs =>
    match digitIn? base c with
    | none => .error .invalidDigit
    | some d =>
      let next := if negative then base * read - d else base * read + d
      if range.high < next then .error .tooLarge
      else if next < range.low then .error .tooSmall
      else readDigits range base negative next cs

/-- The integer that a text writes in a base. -/
def read (range : Range) (base : Nat) (cs : List Char) : Except IntegerError Int :=
  match cs with
  | [] => .error .empty
  | ['+'] | ['-'] => .error .invalidDigit
  | '+' :: digits => range.readDigits base false 0 digits
  | '-' :: digits =>
    if range.low < 0 then range.readDigits base true 0 digits else .error .invalidDigit
  | digits => range.readDigits base false 0 digits

end Range

end CallThunk.Numeral
