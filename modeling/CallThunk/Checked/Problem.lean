import CallThunk.Ty.Printer
import CallThunk.Diagnostic

/-!
# Problems of a unit

What the checker reports, as causes with their wording. Three of them are warnings.
-/

namespace CallThunk.Checked

/-- A problem in a parsed unit. -/
inductive Problem where
  | definedTwice (name : String)
  | badAlignment (name : String) (align : UInt32)
  | fieldTwice (name : String)
  | recordTooLarge (name : String)
  | voidField
  | voidParam
  | recordByValue (record : String)
  | unstoredResult (record : String)
  | unknownType (name : String)
  | noFunction
  | manyFunctions
  | paramCount (found : Nat)
  | paramNotPointer (ty : Ty)
  | voidLocal (name : String)
  | notAssignable
  | unknownValue (name : String)
  | notPointerCast (source target : Ty)
  | notCallable (ty : Ty)
  | arity (fixed : Nat) (variadic : Bool) (found : Nat)
  | notStructPointer (ty : Ty)
  | unknownField (field record : String)
  | mismatch (expected found : Ty)
  | implicitConversion (source target : Ty)
  | unusedResult
  | unreachable
  deriving DecidableEq

namespace Problem

def severity : Problem → Severity
  | implicitConversion .. | unusedResult | unreachable => .warning
  | _ => .error

open Numeral in
def message : Problem → String
  | definedTwice name => "type `" ++ name ++ "` is defined twice"
  | badAlignment name align =>
    "alignment of `" ++ name ++ "` must be a power of two, found " ++ decimal align.toNat
  | fieldTwice name => "field `" ++ name ++ "` is already declared"
  | recordTooLarge name => "record `" ++ name ++ "` is too large"
  | voidField => "field cannot have type `void`"
  | voidParam => "parameter cannot have type `void`"
  | recordByValue record => "aggregate `" ++ record ++ "` cannot be passed by value"
  | unstoredResult record =>
    "a returned `" ++ record ++ "` must be assigned to a field of type `" ++ record ++ "`"
  | unknownType name => "unknown type `" ++ name ++ "`"
  | noFunction => "wrapper unit defines no function"
  | manyFunctions => "wrapper unit must define exactly one function"
  | paramCount found =>
    "wrapper function must take exactly one parameter, found " ++ decimal found
  | paramNotPointer ty => "wrapper parameter must be a pointer, found `" ++ ty.text ++ "`"
  | voidLocal name => "`" ++ name ++ "` would have type `void`"
  | notAssignable => "only struct fields can be assigned"
  | unknownValue name => "cannot find value `" ++ name ++ "`"
  | notPointerCast source target =>
    "cannot cast `" ++ source.text ++ "` as `" ++ target.text ++
      "`; only pointer casts are allowed"
  | notCallable ty => "`" ++ ty.text ++ "` is not a function pointer"
  | arity fixed variadic found =>
    "this function takes " ++ (if variadic then "at least " else "") ++ decimal fixed ++
      " argument" ++ (if fixed = 1 then "" else "s") ++ " but " ++ decimal found ++
      " argument" ++ (if found = 1 then " was" else "s were") ++ " supplied"
  | notStructPointer ty =>
    "field access requires a pointer to a struct, found `" ++ ty.text ++ "`"
  | unknownField field record => "no field `" ++ field ++ "` on type `" ++ record ++ "`"
  | mismatch expected found =>
    "mismatched types: expected `" ++ expected.text ++ "`, found `" ++ found.text ++ "`"
  | implicitConversion source target =>
    "implicit conversion from `" ++ source.text ++ "` to `" ++ target.text ++ "`"
  | unusedResult => "expression result is unused"
  | unreachable => "unreachable statement"

def hint : Problem → Option String
  | recordByValue record => some ("pass `*" ++ record ++ "` instead")
  | unknownType _ => some "declare it with `opaque Name: size N, align N;`"
  | _ => none

def diagnostic (p : Problem) (span : Option Source.Span) : Diagnostic :=
  { severity := p.severity, message := p.message, span, hint := p.hint }

end Problem

end CallThunk.Checked
