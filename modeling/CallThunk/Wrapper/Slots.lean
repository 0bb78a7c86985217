import CallThunk.Value.Basic
import CallThunk.Numeral

/-!
# Slots of the argument struct

A call passes everything through one struct: the function pointer comes first, then one slot for
each argument, then the result unless there is none. The model says which slots there are and what
they hold; where they lie is up to the compiler.
-/

namespace CallThunk

/-- What a slot holds. -/
inductive SlotRole where
  | callee
  /-- The argument at a position, counted from zero. -/
  | argument (index : Nat)
  | result
  deriving DecidableEq

/-- A field of the argument struct. -/
structure Slot where
  role : SlotRole
  ty : Ty
  deriving DecidableEq

namespace SlotRole

/-- The name of a slot's field in wrapper source. -/
def field : SlotRole → String
  | callee => "fn_ptr"
  | argument index => "arg_" ++ Numeral.decimal index
  | result => "return_value"

end SlotRole

def Slot.field (slot : Slot) : String := slot.role.field

/-- The slots of an argument struct: those of a signature with explicit argument types. -/
structure StructModel where
  signature : Signature
  argumentTys : List Ty
  deriving DecidableEq

namespace StructModel

/-- The model whose argument slots are typed after values. -/
def ofValues (signature : Signature) (args : List Value) : StructModel :=
  ⟨signature, args.map Value.slotTy⟩

/-- The model whose argument slots are the declared parameters. -/
def ofSignature (signature : Signature) : StructModel := ⟨signature, signature.params⟩

def calleeSlot (model : StructModel) : Slot := ⟨.callee, model.signature.ty⟩

def inputSlots (model : StructModel) : List Slot :=
  model.argumentTys.mapIdx fun i ty => ⟨.argument i, ty⟩

def arity (model : StructModel) : Nat := model.argumentTys.length

def resultSlot? (model : StructModel) : Option Slot :=
  if model.signature.ret.isVoid then none else some ⟨.result, model.signature.ret⟩

/-- All slots in the order of the struct. -/
def slots (model : StructModel) : List Slot :=
  model.calleeSlot :: model.inputSlots ++ model.resultSlot?.toList

end StructModel

end CallThunk
