import CallThunk.Call.Caller
import CallThunk.Text.Quoted
import CallThunk.Ieee.Shortest

/-!
# Descriptions

One-line descriptions of callers, activations, loaded wrappers and contexts, with their parts by
name, for a user who looks into a session. Where parts are left out, two dots say so.
-/

namespace CallThunk.Description

open Numeral (decimal signed hex)
open Text (quoted)

/-- A name with named parts. -/
def parts (name : String) (fields : List (String × String)) (complete : Bool := true) : String :=
  let shown := fields.map fun (field, value) => field ++ ": " ++ value
  name ++ " \x7b " ++ String.intercalate ", " (if complete then shown else shown ++ [".."]) ++
    " \x7d"

/-- A name with one part in parentheses. -/
def wrapped (name value : String) : String := name ++ "(" ++ value ++ ")"

def items (values : List String) : String := "[" ++ String.intercalate ", " values ++ "]"

def option : Option String → String
  | some value => wrapped "Some" value
  | none => "None"

def flag (b : Bool) : String := if b then "true" else "false"

def word (n : UInt32) : String := decimal n.toNat

/-- A kind's name with a capital letter. -/
def capital (name : String) : String :=
  String.ofList (match name.toList with
    | c :: cs => c.toUpper :: cs
    | [] => [])

/-! ## Types and values -/

def recordTy (r : RecordTy) : String :=
  parts "RecordType" [("name", quoted r.name), ("size", word r.size), ("align", word r.align)]

mutual
def ty : Ty → String
  | .void => "Void"
  | .bool => "Bool"
  | .int kind => wrapped "Int" (capital kind.name)
  | .float kind => wrapped "Float" (capital kind.name)
  | .pointer pointee => wrapped "Pointer" (ty pointee)
  | .function ret params variadic =>
    wrapped "Function" (parts "FunctionType"
      [("ret", ty ret), ("params", items (tys params)), ("variadic", flag variadic)])
  | .record r => wrapped "Record" (recordTy r)
def tys : List Ty → List String
  | [] => []
  | t :: ts => ty t :: tys ts
end

def value : Value → String
  | .void => "Void"
  | .bool b => wrapped "Bool" (flag b)
  | .int kind bits => wrapped (capital kind.name) (signed (Value.intValue kind bits))
  | .float kind bits =>
    wrapped (capital kind.name) (kind.format.scientificBeyond bits.toNat)
  | .pointer pointee address =>
    parts "Pointer" [("pointee", ty pointee), ("address", decimal address.toNat)]
  | .aggregate record bytes =>
    parts "Aggregate"
      [("record", recordTy record), ("bytes", items (bytes.map fun b => decimal b.toNat))]

/-! ## Layouts -/

def slotPlace (slot : SlotPlace) : String :=
  parts "SlotLayout"
    [("offset", word slot.offset), ("size", word slot.size), ("align", word slot.align)]

def structLayout (layout : StructLayout) : String :=
  parts "ArgumentStructLayout"
    [("size", word layout.size), ("align", word layout.align),
      ("function", slotPlace layout.function),
      ("arguments", items (layout.arguments.map slotPlace)),
      ("ret", option (layout.result.map slotPlace))]

def placedField (f : PlacedField) : String :=
  parts "FieldLayout"
    [("name", quoted f.name), ("ty", ty f.ty), ("offset", word f.offset), ("size", word f.size),
      ("align", word f.align)]

def placedRecord (r : PlacedRecord) : String :=
  parts "RecordLayout"
    [("name", quoted r.name), ("size", word r.size), ("align", word r.align),
      ("fields", items (r.fields.map placedField))]

/-! ## Parts of a session -/

def loadedWrapper (c : LoadedWrapper) : String :=
  parts "CompiledWrapper"
    [("function_name", quoted c.functionName), ("entry", hex c.entry.toNat),
      ("records", items (c.records.map placedRecord)), ("owns_code", flag c.hasCode)] false

def compiled (caller : Caller) : String :=
  option (caller.ready?.map fun r => loadedWrapper r.compiled)

def callee (c : Callee) : String :=
  parts "FunctionSignature"
    [("return_type", ty c.signature.ret), ("params", items (tys c.signature.params)),
      ("variadic", flag c.signature.variadic), ("address", decimal c.address.toNat)]

/-- The name of a caller's status. -/
def status : CallerStatus → String
  | .new => "Uninitialized"
  | .ready _ => "Ready"
  | .failed .. => "CompileFailed"

def caller (c : Caller) : String :=
  parts "FunctionCaller"
    [("name", quoted c.name), ("signature", callee c.callee), ("state", status c.status),
      ("layout", option (c.ready?.map fun r => structLayout r.layout))] false

/-- The name of an activation's stage. -/
def stage : Stage → String
  | .prepared => "StructPrepared"
  | .written => "ArgumentsWritten"
  | .running => "Executing"
  | .completed => "Completed"
  | .interrupted => "ExecutionFailed"

def activation (a : Activation) : String :=
  parts "CallRecord"
    [("struct_address", hex a.structAddress.toNat), ("owns_struct", flag a.ownsStruct),
      ("side_allocations", items (a.sides.map fun s => decimal s.toNat)),
      ("arguments", items (a.arguments.map value)), ("result", option (a.result.map value)),
      ("state", stage a.stage)] false

def target (t : Target) : String :=
  let order := match t.order with
    | .little => "Little"
    | .big => "Big"
  parts "TargetInfo" [("pointer_size", word t.pointerSize), ("byte_order", order)]

def context {ω : Type} (ctx : Context ω) : String :=
  parts "ExecutionContext" [("target", target ctx.target)] false

end CallThunk.Description
