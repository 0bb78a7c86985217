/-!
# Semantic types

The types of arguments, results and pointees as a debugger's type system sees them. A type carries
no layout of its own: only an aggregate knows its size and alignment, because nothing else about it
is ever interpreted.
-/

namespace CallThunk

/-- The fixed-width integer kinds. -/
inductive IntKind where
  | i8 | i16 | i32 | i64 | u8 | u16 | u32 | u64
  deriving DecidableEq

namespace IntKind

/-- Width in bytes. -/
def bytes : IntKind → Nat
  | i8 | u8 => 1
  | i16 | u16 => 2
  | i32 | u32 => 4
  | i64 | u64 => 8

/-- Width in bits. -/
def width (kind : IntKind) : Nat := 8 * kind.bytes

def isSigned : IntKind → Bool
  | i8 | i16 | i32 | i64 => true
  | u8 | u16 | u32 | u64 => false

def name : IntKind → String
  | i8 => "i8"
  | i16 => "i16"
  | i32 => "i32"
  | i64 => "i64"
  | u8 => "u8"
  | u16 => "u16"
  | u32 => "u32"
  | u64 => "u64"

end IntKind

/-- The binary interchange float kinds. -/
inductive FloatKind where
  | f32 | f64
  deriving DecidableEq

namespace FloatKind

/-- Width in bytes. -/
def bytes : FloatKind → Nat
  | f32 => 4
  | f64 => 8

/-- Width in bits. -/
def width (kind : FloatKind) : Nat := 8 * kind.bytes

def name : FloatKind → String
  | f32 => "f32"
  | f64 => "f64"

end FloatKind

/-- An aggregate whose contents are never interpreted. It crosses a call by reference: an argument
slot holds the address of its bytes. -/
structure RecordTy where
  name : String
  size : UInt32
  align : UInt32
  deriving DecidableEq

/-- A semantic type. A pointer to `void` is the untyped pointer, and a function type already
denotes a pointer to code. -/
inductive Ty where
  | void
  | bool
  | int (kind : IntKind)
  | float (kind : FloatKind)
  | pointer (pointee : Ty)
  | function (ret : Ty) (params : List Ty) (variadic : Bool)
  | record (record : RecordTy)

mutual
/-- Whether two types are the same type. -/
def Ty.same : Ty → Ty → Bool
  | .void, .void | .bool, .bool => true
  | .int a, .int b => a = b
  | .float a, .float b => a = b
  | .pointer a, .pointer b => a.same b
  | .function r ps v, .function r' ps' v' => r.same r' && Ty.sameList ps ps' && v == v'
  | .record a, .record b => a = b
  | _, _ => false
/-- Whether two lists hold the same types in the same order. -/
def Ty.sameList : List Ty → List Ty → Bool
  | [], [] => true
  | a :: as, b :: bs => a.same b && Ty.sameList as bs
  | _, _ => false
end

mutual
theorem Ty.same_iff : (a b : Ty) → (a.same b ↔ a = b)
  | .pointer a, b => by
    cases b <;> simp [Ty.same, Ty.same_iff a]
  | .function r ps v, b => by
    cases b <;> simp [Ty.same, Ty.same_iff r, Ty.sameList_iff ps, and_assoc]
  | .void, b | .bool, b | .int _, b | .float _, b | .record _, b => by
    cases b <;> simp [Ty.same]
theorem Ty.sameList_iff : (as bs : List Ty) → (Ty.sameList as bs ↔ as = bs)
  | [], bs => by cases bs <;> simp [Ty.sameList]
  | a :: as, bs => by
    cases bs <;> simp [Ty.sameList, Ty.same_iff a, Ty.sameList_iff as]
end

instance : DecidableEq Ty := fun a b => decidable_of_iff _ (Ty.same_iff a b)

namespace Ty

/-- The untyped pointer. -/
abbrev untypedPointer : Ty := .pointer .void

def isVoid : Ty → Bool
  | void => true
  | _ => false

def isPointer : Ty → Bool
  | pointer _ => true
  | _ => false

/-- Bools, integers, floats and pointers: what fits a register. -/
def isScalar : Ty → Bool
  | bool | int _ | float _ | pointer _ => true
  | void | function .. | record _ => false

end Ty

/-- The type of a callable function. -/
structure Signature where
  ret : Ty
  params : List Ty
  variadic : Bool
  deriving DecidableEq

namespace Signature

/-- The function type with this signature. -/
def ty (signature : Signature) : Ty :=
  .function signature.ret signature.params signature.variadic

end Signature

/-- The function a caller is bound to: its type and its entry address in the target. -/
structure Callee where
  signature : Signature
  address : UInt64
  deriving DecidableEq

end CallThunk
