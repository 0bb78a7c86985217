import CallThunk.Value.Basic
import CallThunk.Ty.Printer
import CallThunk.Numeral.Integer
import CallThunk.Ieee.Reading

/-!
# Reading values

How the arguments of a call are written: `true` and `false`, integers in decimal, float literals,
and addresses in hexadecimal with or without `0x`. Nothing else has a written form.
-/

namespace CallThunk

open Numeral (IntegerError Range)

/-- The range of an integer kind. -/
def IntKind.range (kind : IntKind) : Range :=
  if kind.isSigned then .twosComplement kind.width else .unsigned kind.width

namespace Value

/-- Why a text is no value of its type. -/
inductive LiteralError where
  | bool
  | integer (error : IntegerError)
  | float (error : Ieee.LiteralError)
  deriving DecidableEq

def LiteralError.message : LiteralError → String
  | bool => "provided string was not `true` or `false`"
  | integer error => error.message
  | float error => error.message

/-- Why a text cannot be read as a value. -/
inductive ReadError where
  | invalid (text : String) (ty : Ty) (cause : LiteralError)
  /-- Values of this type have no written form. -/
  | unwritable (ty : Ty)
  deriving DecidableEq

namespace ReadError

def message : ReadError → String
  | invalid text ty _ => "`" ++ text ++ "` is not a valid " ++ ty.text
  | unwritable ty => "cannot pass a " ++ ty.text ++ " from the command line"

/-- What lies behind an error. -/
def cause? : ReadError → Option String
  | invalid _ _ cause => some cause.message
  | unwritable _ => none

end ReadError

/-- Drops `0x` from the front. -/
def withoutHexMark : List Char → List Char
  | '0' :: 'x' :: digits => digits
  | digits => digits

/-- The integer of a literal. -/
def readInteger (range : Range) (base : Nat) (cs : List Char) : Except LiteralError Int :=
  (range.read base cs).mapError .integer

/-- Reads a value of a type that has a written form. -/
def literal? (text : String) : Ty → Option (Except LiteralError Value)
  | .bool => some <|
    if text = "true" then .ok (.bool true)
    else if text = "false" then .ok (.bool false)
    else .error .bool
  | .int kind => some <|
    (readInteger kind.range 10 text.toList).map fun z => .int kind (BitVec.ofInt _ z)
  | .float kind => some <|
    ((kind.format.read text).mapError .float).map fun bits => .float kind (BitVec.ofNat _ bits)
  | .pointer pointee => some <|
    (readInteger (.unsigned 64) 16 (withoutHexMark text.toList)).map fun z =>
      .pointer pointee (UInt64.ofNat z.toNat)
  | .void | .function .. | .record _ => none

/-- Reads a value of a type. -/
def read (ty : Ty) (text : String) : Except ReadError Value :=
  match literal? text ty with
  | some outcome => outcome.mapError (.invalid text ty)
  | none => .error (.unwritable ty)

end Value

end CallThunk
