import CallThunk.Value.Basic
import CallThunk.Target
import CallThunk.Ty.Printer

/-!
# Images of values in target memory

`encode` gives the bytes of a scalar or pointer for a target, `decode` reads the bytes of a slot of
some type. Addresses take the target's pointer size, for which only 2, 4 and 8 bytes have an image.
Both are pure; where aggregates are placed is not their business.

`admits` says which values a slot of some type takes: those of its type, except that an untyped
pointer converts to and from every pointer and every function.
-/

namespace CallThunk

/-- Why a value does not fit the slot it was given. -/
inductive Mismatch where
  | wrongType (index : Nat) (expected found : Ty)
  | wrongCount (expected found : Nat)
  | addressTooWide (address : UInt64) (pointerSize : UInt32)
  | wrongSize (ty : Ty) (expected : UInt32) (found : Nat)
  | wrongAggregate (record : String) (expected : UInt32) (found : Nat)
  | unrepresentable (ty : Ty)
  deriving DecidableEq

open Numeral in
def Mismatch.message : Mismatch → String
  | wrongType index expected found =>
    "argument " ++ decimal index ++ ": expected `" ++ expected.text ++ "`, found `" ++ found.text ++
      "`"
  | wrongCount expected found =>
    "expected " ++ decimal expected ++ " arguments, found " ++ decimal found
  | addressTooWide address pointerSize =>
    "address " ++ hex address.toNat ++ " does not fit in a " ++ decimal pointerSize.toNat ++
      "-byte pointer"
  | wrongSize ty expected found =>
    "`" ++ ty.text ++ "` takes " ++ decimal found ++ " bytes but its slot holds " ++
      decimal expected.toNat
  | wrongAggregate record expected found =>
    "aggregate `" ++ record ++ "` has " ++ decimal found ++ " bytes, expected " ++
      decimal expected.toNat
  | unrepresentable ty => "cannot represent a value of type `" ++ ty.text ++ "` in a slot"

namespace Target

/-- Whether addresses have an image of this many bytes. -/
def isPointerWidth (size : UInt32) : Bool := size = 2 || size = 4 || size = 8

/-- The image of an address, which must fit the target's pointers. -/
def addressImage (target : Target) (address : UInt64) : Except Mismatch (List UInt8) :=
  let size := target.pointerSize
  if isPointerWidth size ∧ address.toNat < 256 ^ size.toNat then
    .ok (target.order.image size.toNat address.toNat)
  else .error (.addressTooWide address size)

end Target

namespace Value

/-- The image of a scalar or pointer; aggregates and `void` have none. -/
def encode (target : Target) : Value → Except Mismatch (List UInt8)
  | bool b => .ok [if b then 1 else 0]
  | int kind bits => .ok (target.order.image kind.bytes bits.toNat)
  | float kind bits => .ok (target.order.image kind.bytes bits.toNat)
  | pointer _ address => target.addressImage address
  | void => .error (.unrepresentable .void)
  | aggregate record _ => .error (.unrepresentable (.record record))

/-- The number that a word of exactly `count` bytes holds. -/
def decodeWord (target : Target) (ty : Ty) (count : Nat) (bytes : List UInt8) :
    Except Mismatch Nat :=
  if bytes.length = count then .ok (target.order.value bytes)
  else .error (.wrongSize ty (UInt32.ofNat count) bytes.length)

/-- The address that the bytes of a slot hold. -/
def addressOf (target : Target) (ty : Ty) (bytes : List UInt8) : Except Mismatch UInt64 :=
  if Target.isPointerWidth target.pointerSize then
    (decodeWord target ty target.pointerSize.toNat bytes).map UInt64.ofNat
  else .error (.wrongSize ty target.pointerSize bytes.length)

/-- The value of the bytes of a slot. Any nonzero byte is a true bool, and a function's slot holds
a pointer to that function. -/
def decode (target : Target) (ty : Ty) (bytes : List UInt8) : Except Mismatch Value :=
  match ty with
  | .void => .ok .void
  | .bool => (decodeWord target ty 1 bytes).map fun n => .bool (n != 0)
  | .int kind =>
    (decodeWord target ty kind.bytes bytes).map fun n => .int kind (BitVec.ofNat _ n)
  | .float kind =>
    (decodeWord target ty kind.bytes bytes).map fun n => .float kind (BitVec.ofNat _ n)
  | .pointer pointee => (addressOf target ty bytes).map (.pointer pointee)
  | .function .. => (addressOf target ty bytes).map (.pointer ty)
  | .record record =>
    if bytes.length = record.size.toNat then .ok (.aggregate record bytes)
    else .error (.wrongAggregate record.name record.size bytes.length)

end Value

namespace Ty

/-- Whether a value of a type may be stored in a slot. -/
def admits (slot value : Ty) : Bool :=
  slot = value ||
    match slot, value with
    | pointer s, pointer v => s.isVoid || v.isVoid
    | function .., pointer pointee => pointee.isVoid || pointee = slot
    | pointer pointee, function .. => pointee.isVoid
    | _, _ => false

end Ty

namespace Value

/-- Checks the argument at an index against its slot: its type, and the size of an aggregate. -/
def fitSlot (index : Nat) (slot : Ty) (value : Value) : Except Mismatch Unit :=
  if slot.admits value.slotTy then
    match value with
    | aggregate record bytes =>
      if bytes.length = record.size.toNat then .ok ()
      else .error (.wrongAggregate record.name record.size bytes.length)
    | _ => .ok ()
  else .error (.wrongType index slot value.slotTy)

end Value

end CallThunk
