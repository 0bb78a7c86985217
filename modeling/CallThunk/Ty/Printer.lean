import CallThunk.Ty.Basic

/-!
# Spelling of types

Types are written as wrapper source spells them: `ptr` for the untyped pointer, `*T` for any other
one, `fn(A, B, ...) -> R` for functions with the result left out when there is none.
-/

namespace CallThunk

mutual
/-- The spelling of a type in wrapper source. -/
def Ty.text : Ty → String
  | .void => "void"
  | .bool => "bool"
  | .int kind => kind.name
  | .float kind => kind.name
  | .pointer pointee => if pointee.isVoid then "ptr" else "*" ++ pointee.text
  | .function ret params variadic =>
    "fn(" ++ String.intercalate ", " (Ty.texts params ++ if variadic then ["..."] else []) ++ ")" ++
      (if ret.isVoid then "" else " -> " ++ ret.text)
  | .record r => r.name
/-- The spellings of a list of types. -/
def Ty.texts : List Ty → List String
  | [] => []
  | t :: ts => t.text :: Ty.texts ts
end

end CallThunk
