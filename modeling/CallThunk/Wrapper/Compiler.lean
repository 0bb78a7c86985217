import CallThunk.Source.Parser
import CallThunk.Checked.Check
import CallThunk.Machine.Lowering
import CallThunk.Wrapper.Source
import CallThunk.Target

/-!
# Wrapper compilers

A compiler turns wrapper source into a loaded wrapper and reports every problem; it gives none when
it reports an error. `layoutOnly` stops after checking and works for every target, `native` lowers
the body to code for the machine this library runs calls on.
-/

namespace CallThunk

open Source (SourceUnit)

/-- Why a checked unit has no native code. -/
inductive NativeError where
  | targetMismatch (target host : Target)
  | unsupported (error : Machine.LoweringError)
  deriving DecidableEq

def NativeError.message : NativeError → String
  | targetMismatch target host =>
    "target (" ++ target.text ++ ") does not match the host ISA (" ++ host.text ++ ")"
  | unsupported error => "unsupported in generated code: " ++ error.message

/-- How much a native compiler optimizes. -/
inductive Optimization where
  | none | speed | speedAndSize
  deriving DecidableEq

/-- Settings of a native compiler. They change neither the code before optimization nor any
report. -/
structure NativeOptions where
  optLevel : Optimization := .speed
  /-- Verify the code of every wrapper. -/
  verify : Bool := true
  deriving DecidableEq

/-- A compiled wrapper: its records, and its code if the compiler made any. -/
structure LoadedWrapper where
  functionName : String
  /-- Entry address of the wrapper in the target; zero if it cannot be run. -/
  entry : UInt64
  records : List PlacedRecord
  code : Option Machine.Code
  deriving DecidableEq

namespace LoadedWrapper

def record? (compiled : LoadedWrapper) (name : String) : Option PlacedRecord :=
  compiled.records.find? (·.name = name)

/-- The listing of the code. -/
def listing (compiled : LoadedWrapper) : String :=
  (compiled.code.map Machine.Code.text).getD ""

def hasCode (compiled : LoadedWrapper) : Bool := compiled.code.isSome

end LoadedWrapper

namespace Compiler

/-- Parses a source and lets the type system revise it. -/
def front (types : TypeSystem) (source : String) :
    Option (SourceUnit × Diagnostics) × Diagnostics :=
  match SourceUnit.parse source with
  | (none, reports) => (none, reports)
  | (some unit, reports) => (some (types.transform unit), reports)

/-- Checks wrappers and lays out records, without code. -/
def layoutOnly (types : TypeSystem) (target : Target) (source : String) :
    Option LoadedWrapper × Diagnostics :=
  match front types source with
  | (none, reports) => (none, reports)
  | (some (unit, revision), reports) =>
    let (checked, problems) := Checked.check ⟨target.pointerSize, types.external?⟩ unit
    (checked.map fun u => ⟨u.wrapper.name, 0, u.records, none⟩, reports ++ revision ++ problems)

/-- An error of the native compiler as a report. -/
def nativeReport (e : NativeError) : Diagnostics :=
  [{ severity := .error, message := e.message }]

/-- Compiles wrappers to code that is entered at an address. The type system's errors end the
compilation, and the target must be the host. -/
def native (entry : UInt64) (types : TypeSystem) (target : Target) (source : String) :
    Option LoadedWrapper × Diagnostics :=
  match front types source with
  | (none, reports) => (none, reports)
  | (some (unit, revision), reports) =>
    let reports := reports ++ revision
    if revision.errorCount > 0 then (none, reports)
    else if target ≠ .host then
      (none, reports ++ nativeReport (.targetMismatch target .host))
    else
      match Checked.check ⟨target.pointerSize, types.external?⟩ unit with
      | (none, problems) => (none, reports ++ problems)
      | (some checked, problems) =>
        match Machine.Code.ofFunction checked.wrapper with
        | .ok code =>
          (some ⟨checked.wrapper.name, entry, checked.records, some code⟩, reports ++ problems)
        | .error e => (none, reports ++ problems ++ nativeReport (.unsupported e))

end Compiler

end CallThunk
