import CallThunk.Ty.Basic
import CallThunk.Text.Blank
import CallThunk.Text.Split

/-!
# Reading types and signatures

Types are read from the names that wrapper source has for them, with any number of `*` in front.
A signature is `ret(A, B, ...)`. Blanks around types and after a `*` do not count, and neither do
empty places between commas.
-/

namespace CallThunk

/-- The types that need no declaration, by their names in wrapper source. -/
def Ty.builtin? (name : String) : Option Ty :=
  match name with
  | "void" => some .void
  | "bool" => some .bool
  | "i8" => some (.int .i8)
  | "i16" => some (.int .i16)
  | "i32" => some (.int .i32)
  | "i64" => some (.int .i64)
  | "u8" => some (.int .u8)
  | "u16" => some (.int .u16)
  | "u32" => some (.int .u32)
  | "u64" => some (.int .u64)
  | "f32" => some (.float .f32)
  | "f64" => some (.float .f64)
  | "ptr" => some .untypedPointer
  | _ => none

/-- Why a text is no type or no signature. -/
inductive SpellingError where
  | unknownType (name : String)
  /-- There is no opening parenthesis. -/
  | noParameters (text : String)
  /-- The last character is no closing parenthesis. -/
  | unclosed (text : String)
  /-- A parameter follows `...`. -/
  | behindVariadic
  deriving DecidableEq

def SpellingError.message : SpellingError → String
  | unknownType name => "unknown type `" ++ name ++ "`"
  | noParameters text => "expected `ret(params)`, found `" ++ text ++ "`"
  | unclosed text => "missing `)` in `" ++ text ++ "`"
  | behindVariadic => "`...` must come last"

open Text (isBlank trimEnd trim split)

namespace Ty

/-- Reads a type with no blanks at its end. -/
def readTrimmed : List Char → Except SpellingError Ty
  | [] => .error (.unknownType "")
  | c :: cs =>
    if isBlank c then readTrimmed cs
    else if c = '*' then (readTrimmed cs).map .pointer
    else
      let name := String.ofList (c :: cs)
      match builtin? name with
      | some ty => .ok ty
      | none => .error (.unknownType name)

/-- Reads a type. -/
def read (cs : List Char) : Except SpellingError Ty := readTrimmed (trimEnd cs)

end Ty

namespace Signature

/-- Reads parameters that are not empty, with `...` allowed in the last place. -/
def readParams : List (List Char) → Except SpellingError (List Ty × Bool)
  | [] => .ok ([], false)
  | p :: ps =>
    if p = ['.', '.', '.'] then
      if ps.isEmpty then .ok ([], true) else .error .behindVariadic
    else do
      let ty ← Ty.read p
      let (tys, variadic) ← readParams ps
      return (ty :: tys, variadic)

/-- Reads a signature: the result ends at the first parenthesis, the parameters end at the last
character that is no blank. -/
def read (text : String) : Except SpellingError Signature := do
  let cs := text.toList
  match cs.dropWhile (· ≠ '(') with
  | [] => throw (.noParameters text)
  | _ :: behind =>
    let behind := trimEnd behind
    if behind.getLast? ≠ some ')' then
      throw (.unclosed text)
    let ret ← Ty.read (cs.takeWhile (· ≠ '('))
    let pieces := (split ',' behind.dropLast).map trim
    let (params, variadic) ← readParams (pieces.filter (!·.isEmpty))
    return ⟨ret, params, variadic⟩

end Signature

/-- Reads the signature of the function at an address. -/
def Callee.read (text : String) (address : UInt64) : Except SpellingError Callee := do
  return ⟨← Signature.read text, address⟩

end CallThunk
