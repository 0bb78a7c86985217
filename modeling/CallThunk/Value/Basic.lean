import CallThunk.Ty.Basic
import CallThunk.Ieee.Format

/-!
# Values

The typed values that go into a call and come out of it. Integers and floats are bit patterns of
the width of their kind, so NaN payloads and signed zeros survive. Two equalities are kept apart:
equality of values compares bits, `Value.equal` compares floats as numbers.
-/

namespace CallThunk

/-- A value passed to or returned from a function. -/
inductive Value where
  /-- The result of a function that returns nothing. -/
  | void
  | bool (b : Bool)
  | int (kind : IntKind) (bits : BitVec kind.width)
  | float (kind : FloatKind) (bits : BitVec kind.width)
  /-- A target address together with what it points at. -/
  | pointer (pointee : Ty) (address : UInt64)
  /-- The bytes of an aggregate, which may be more or fewer than its type asks for. -/
  | aggregate (record : RecordTy) (bytes : List UInt8)

namespace Value

/-- Whether two values have the same kind and the same bits. -/
def same : Value → Value → Bool
  | void, void => true
  | bool a, bool b => a == b
  | int k a, int k' b => k = k' && a.toNat = b.toNat
  | float k a, float k' b => k = k' && a.toNat = b.toNat
  | pointer p a, pointer p' b => p = p' && a = b
  | aggregate r a, aggregate r' b => r = r' && a = b
  | _, _ => false

theorem same_iff (a b : Value) : a.same b ↔ a = b := by
  cases a <;> cases b <;> simp [same]
  all_goals
    intro h
    subst h
    simp [BitVec.toNat_eq]

instance : DecidableEq Value := fun a b => decidable_of_iff _ (same_iff a b)

/-- Equality in which floats compare as numbers: a NaN equals nothing and the two zeros are
equal. -/
def equal : Value → Value → Bool
  | float .f32 a, float .f32 b => floatEqual .single a.toNat b.toNat
  | float .f64 a, float .f64 b => floatEqual .double a.toNat b.toNat
  | a, b => a = b
where
  floatEqual (f : Ieee.Format) (a b : Nat) : Bool :=
    !f.isNaN a && !f.isNaN b && (a = b || f.isZero a && f.isZero b)

/-- The type of a value. -/
def ty : Value → Ty
  | void => .void
  | bool _ => .bool
  | int kind _ => .int kind
  | float kind _ => .float kind
  | pointer pointee _ => .pointer pointee
  | aggregate record _ => .record record

/-- The type of the argument slot that a value occupies. Aggregates travel by reference, and a
pointer to a function already is the function's slot type. -/
def slotTy : Value → Ty
  | aggregate record _ => .pointer (.record record)
  | pointer (.function ret params variadic) _ => .function ret params variadic
  | v => v.ty

/-- The short name of a value's kind. -/
def kindName : Value → String
  | void => "void"
  | bool _ => "bool"
  | int kind _ => kind.name
  | float kind _ => kind.name
  | pointer .. => "pointer"
  | aggregate .. => "aggregate"

/-- The number that an integer pattern of a kind stands for. -/
def intValue (kind : IntKind) (bits : BitVec kind.width) : Int :=
  if kind.isSigned then bits.toInt else bits.toNat

/-- The number that an integer value stands for. -/
def integer? : Value → Option Int
  | int kind bits => some (intValue kind bits)
  | _ => none

end Value

end CallThunk
