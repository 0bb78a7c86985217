import CallThunk.Ty.Basic

/-!
# Conversions between types

How a value of one type becomes a value of another at a call or a store. Types that denote the same
address convert silently, a change of integer kind or of pointee draws a warning.
-/

namespace CallThunk

/-- How one type converts to another. -/
inductive Conversion where
  | identity
  | implicit
  | incompatible
  deriving DecidableEq

/-- Whether a pointer to `pointee` converts silently to and from a function type. -/
def Ty.pointsTo (pointee function : Ty) : Bool := pointee.isVoid || pointee = function

def Ty.convertTo (source target : Ty) : Conversion :=
  if source = target then .identity
  else
    match source, target with
    | .int _, .int _ => .implicit
    | .pointer a, .pointer b => if a.isVoid || b.isVoid then .identity else .implicit
    | .pointer pointee, .function .. => if pointee.pointsTo target then .identity else .incompatible
    | .function .., .pointer pointee => if pointee.pointsTo source then .identity else .incompatible
    | _, _ => .incompatible

end CallThunk
