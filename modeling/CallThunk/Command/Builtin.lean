import CallThunk.Host.Function
import CallThunk.Ty.Printer
import CallThunk.Text.Column

/-!
# Builtin functions

The functions of the host that can be called from the command line.
-/

namespace CallThunk.Command

/-- A function that can be called from the command line. -/
structure Builtin where
  function : HostFunction
  about : String

namespace Builtin

def all : List Builtin :=
  [⟨.add, "wrapping sum of two i32"⟩, ⟨.mulAdd, "a * b + c"⟩, ⟨.scale, "an i64 scaled by an f32"⟩,
    ⟨.isEven, "whether an i64 is even"⟩, ⟨.noop, "does nothing"⟩]

def find? (name : String) : Option Builtin := all.find? (·.function.name = name)

/-- A line of the table of builtin functions. -/
def row (builtin : Builtin) : String :=
  Text.alignLeft 10 builtin.function.name ++ " " ++
    Text.alignLeft 32 builtin.function.signature.ty.text ++ " " ++ builtin.about ++ "\n"

/-- The table of builtin functions. -/
def table : String := String.join (all.map row)

end Builtin

end CallThunk.Command
