import CallThunk.Wrapper.Slots
import CallThunk.Ty.Printer
import CallThunk.Ty.Records

/-!
# Wrapper source

A wrapper takes the address of the argument struct, calls through its function pointer with every
argument slot in order and stores the result into the result slot. Its source declares all records
it mentions, so it needs nothing from a debugger's type system.
-/

namespace CallThunk

/-- The source of a wrapper with the names it defines. -/
structure WrapperSource where
  text : String
  functionName : String
  structName : String
  deriving DecidableEq

namespace WrapperSource

/-- Letters, digits and underscores; any other character becomes an underscore, and no name at all
becomes `anon`. -/
def identifierPart (name : String) : String :=
  if name.isEmpty then "anon"
  else String.ofList (name.toList.map fun c => if c.isAlphanum || c = '_' then c else '_')

/-- The records that the slots of a model mention. -/
def records (model : StructModel) : List RecordTy :=
  Ty.addRecordsList (model.slots.map Slot.ty) []

def opaqueLine (r : RecordTy) : String :=
  "opaque " ++ r.name ++ ": size " ++ Numeral.decimal r.size.toNat ++ ", align " ++
    Numeral.decimal r.align.toNat ++ ";\n"

def fieldLine (slot : Slot) : String := "    " ++ slot.field ++ ": " ++ slot.ty.text ++ ",\n"

/-- The call through the function pointer. -/
def callText (model : StructModel) : String :=
  "args." ++ model.calleeSlot.field ++ "(" ++
    String.intercalate ", " (model.inputSlots.map fun slot => "args." ++ slot.field) ++ ")"

/-- The statement that calls and keeps the result. -/
def callLine (model : StructModel) : String :=
  "    " ++
    (match model.resultSlot? with
    | some slot => "args." ++ slot.field ++ " = "
    | none => "") ++ callText model ++ ";\n"

/-- The source of the wrapper of a model, under a name. -/
def ofModel (name : String) (model : StructModel) : WrapperSource :=
  let suffix := identifierPart name
  let functionName := "__fncall_wrapper_" ++ suffix
  let structName := "__fncall_args_" ++ suffix
  let declarations := (records model).map opaqueLine
  let text :=
    "// call wrapper for `" ++ suffix ++ "`: " ++ model.signature.ty.text ++ "\n" ++
    String.join declarations ++ (if declarations.isEmpty then "" else "\n") ++
    "struct " ++ structName ++ " \x7b\n" ++ String.join (model.slots.map fieldLine) ++ "\x7d\n\n" ++
    "fn " ++ functionName ++ "(input: ptr) \x7b\n" ++
    "    let args = input as *" ++ structName ++ ";\n" ++
    callLine model ++ "\x7d\n"
  ⟨text, functionName, structName⟩

end WrapperSource

end CallThunk
