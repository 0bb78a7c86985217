import CallThunk.Process.Context

/-!
# Activations

An activation is the state of one call. It owns the argument struct if the struct was allocated for
it, and always the side buffers that carry aggregates. Owned memory is freed when the activation is
released or, failing that, when it is let go, and freeing goes on after a failure.
-/

namespace CallThunk

/-- The progress of one call. -/
inductive Stage where
  | prepared
  | written
  | running
  | completed
  | interrupted
  deriving DecidableEq

/-- One call of a caller. -/
structure Activation where
  structAddress : UInt64
  /-- Whether the struct was allocated for this activation. -/
  ownsStruct : Bool
  /-- The buffers that hold aggregate arguments, in the order of their allocation. -/
  sides : List UInt64 := []
  /-- The values last written. -/
  arguments : List Value := []
  /-- The value last fetched. -/
  result : Option Value := none
  stage : Stage := .prepared
  deriving DecidableEq

namespace Activation

variable {ω : Type}

/-- Frees addresses in order, each of them also after a failure, and gives the first failure. -/
def freeEach (ctx : Context ω) : List UInt64 → StateM ω (Except MemoryFault PUnit)
  | [] => return .ok ()
  | address :: rest => do
    let first ← (ctx.free address).run
    let others ← freeEach ctx rest
    match first with
    | .ok _ => return others
    | .error e => return .error e

/-- Frees all that an activation owns and gives what is left of it, which owns nothing. A struct
that cannot be freed is the failure reported, before any failure of a side buffer. -/
def freeAll (ctx : Context ω) (activation : Activation) :
    StateM ω (Except MemoryFault PUnit × Activation) := do
  let sides ← freeEach ctx activation.sides
  let left := { activation with sides := [] }
  if left.ownsStruct then
    let left := { left with ownsStruct := false }
    match ← (ctx.free left.structAddress).run with
    | .ok _ => return (sides, left)
    | .error e => return (.error e, left)
  else
    return (sides, left)

/-- Lets an activation go, which frees what it still owns and forgets failures. -/
def drop (ctx : Context ω) (activation : Activation) : StateM ω PUnit := do
  let _ ← activation.freeAll ctx

/-- Frees all that an activation owns before it lets go of what is left. -/
def release (ctx : Context ω) (activation : Activation) : Service ω PUnit := ExceptT.mk do
  let (result, left) ← activation.freeAll ctx
  left.drop ctx
  return result

end Activation

end CallThunk
