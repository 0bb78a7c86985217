import CallThunk.Wrapper.Slots
import CallThunk.Record.Layout
import CallThunk.Ty.Printer
import CallThunk.Text.Column

/-!
# Layout of the argument struct

Offsets are never computed twice: the compiler lays the struct out, and `StructLayout.recover` reads
that layout back from its records and checks it against the model before any byte is written.
-/

namespace CallThunk

/-- Why a layout does not fit the model. -/
inductive LayoutError where
  | noRecord (name : String)
  | noField (field : String)
  | wrongFieldType (field : String) (expected found : Ty)
  | wrongPointerSize (size pointerSize : UInt32)
  | outside (field : String) (offset size structSize : UInt32)
  | overlap (first second : String)
  deriving DecidableEq

open Numeral in
def LayoutError.message : LayoutError → String
  | noRecord name => "compiled wrapper has no record named `" ++ name ++ "`"
  | noField field => "argument struct has no field `" ++ field ++ "`"
  | wrongFieldType field expected found =>
    "field `" ++ field ++ "` has type `" ++ found.text ++ "`, expected `" ++ expected.text ++ "`"
  | wrongPointerSize size pointerSize =>
    "function pointer slot is " ++ decimal size.toNat ++ " bytes, target pointers are " ++
      decimal pointerSize.toNat
  | outside field offset size structSize =>
    "field `" ++ field ++ "` at offset " ++ decimal offset.toNat ++ " (+" ++ decimal size.toNat ++
      ") lies outside the " ++ decimal structSize.toNat ++ "-byte struct"
  | overlap first second => "fields `" ++ first ++ "` and `" ++ second ++ "` overlap"

/-- Where one slot lies inside the argument struct. -/
structure SlotPlace where
  offset : UInt32
  size : UInt32
  align : UInt32
  deriving DecidableEq

/-- One past the last byte. -/
def SlotPlace.stop (slot : SlotPlace) : Nat := slot.offset.toNat + slot.size.toNat

/-- The layout of an argument struct. -/
structure StructLayout where
  size : UInt32
  align : UInt32
  function : SlotPlace
  arguments : List SlotPlace
  result : Option SlotPlace
  deriving DecidableEq

namespace StructLayout

/-- All slots in the order of the struct. -/
def slots (layout : StructLayout) : List SlotPlace :=
  layout.function :: layout.arguments ++ layout.result.toList

/-- The slot at an index: the function pointer, the arguments, then the result if there is one. -/
def slot? (layout : StructLayout) (index : Nat) : Option SlotPlace := layout.slots[index]?

def countSlots (layout : StructLayout) : Nat := layout.slots.length

/-! ## Listing -/

def row (name offset size align : String) : String :=
  Text.alignLeft 14 name ++ " " ++ Text.alignRight 6 offset ++ " " ++ Text.alignRight 5 size ++
    " " ++ Text.alignRight 6 align ++ "\n"

def slotRow (role : SlotRole) (slot : SlotPlace) : String :=
  row role.field (Numeral.decimal slot.offset.toNat) (Numeral.decimal slot.size.toNat)
    (Numeral.decimal slot.align.toNat)

def text (layout : StructLayout) : String :=
  "size " ++ Numeral.decimal layout.size.toNat ++ ", align " ++
    Numeral.decimal layout.align.toNat ++ "\n" ++
    row "slot" "offset" "size" "align" ++ slotRow .callee layout.function ++
    String.join (layout.arguments.mapIdx fun i slot => slotRow (.argument i) slot) ++
    String.join (layout.result.toList.map (slotRow .result))

/-! ## Recovering a layout -/

/-- A slot with the place of its field. -/
structure Placed where
  role : SlotRole
  layout : SlotPlace

/-- The place of one slot: the field of its name must have its type and lie inside the struct, and
the function pointer must have the size of a pointer. -/
def place (pointerSize : UInt32) (record : PlacedRecord) (slot : Slot) :
    Except LayoutError Placed := do
  let some field := record.field? slot.field
    | throw (.noField slot.field)
  if field.ty ≠ slot.ty then
    throw (.wrongFieldType slot.field slot.ty field.ty)
  let layout : SlotPlace := ⟨field.offset, field.size, field.align⟩
  if record.size.toNat < layout.stop then
    throw (.outside slot.field layout.offset layout.size record.size)
  if slot.role = .callee ∧ layout.size ≠ pointerSize then
    throw (.wrongPointerSize layout.size pointerSize)
  return ⟨slot.role, layout⟩

/-- Fails at the first two neighbours that overlap. -/
def requireDisjoint : List Placed → Except LayoutError PUnit
  | a :: b :: rest =>
    if b.layout.offset.toNat < a.layout.stop then .error (.overlap a.role.field b.role.field)
    else requireDisjoint (b :: rest)
  | _ => .ok ()

/-- The layout that the record of an argument struct gives to the slots of a model. -/
def recover (records : List PlacedRecord) (structName : String) (model : StructModel)
    (pointerSize : UInt32) : Except LayoutError StructLayout := do
  let some record := records.find? (·.name = structName)
    | throw (.noRecord structName)
  let function ← place pointerSize record model.calleeSlot
  let arguments ← model.inputSlots.mapM (place pointerSize record)
  let result ← model.resultSlot?.mapM (place pointerSize record)
  let placed := function :: arguments ++ result.toList
  requireDisjoint (placed.mergeSort fun a b => a.layout.offset ≤ b.layout.offset)
  return {
    size := record.size
    align := record.align
    function := function.layout
    arguments := arguments.map Placed.layout
    result := result.map Placed.layout }

end StructLayout

end CallThunk
