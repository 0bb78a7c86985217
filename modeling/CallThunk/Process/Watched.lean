import CallThunk.Process.Context

/-!
# Watched processes

A watched process passes everything on to the process it watches, but lets allocations and frees
fail where it is told to, one by one. It keeps account of all addresses that were to be freed.
-/

namespace CallThunk

/-- A process under watch. -/
structure Watched (ω : Type) where
  process : ω
  /-- Which of the next allocations fail; those behind the list are passed on. -/
  failingAllocations : List Bool := []
  /-- Which of the next frees fail; those behind the list are passed on. -/
  failingFrees : List Bool := []
  /-- The addresses that were to be freed, the last one first. -/
  frees : List UInt64 := []

namespace Watched

variable {ω : Type}

/-- Runs an operation of the process. -/
def pass {α : Type} (operation : StateM ω α) : StateM (Watched ω) α := fun w =>
  let (a, process) := operation.run w.process
  (a, { w with process })

def allocate (ctx : Context ω) (size align : UInt64) : Service (Watched ω) UInt64 :=
  ExceptT.mk fun w =>
    let left := { w with failingAllocations := w.failingAllocations.tail }
    if w.failingAllocations.headD false then (.error (.allocationFailed size), left)
    else (pass (ctx.allocate size align).run).run left

def free (ctx : Context ω) (address : UInt64) : Service (Watched ω) PUnit :=
  ExceptT.mk fun w =>
    let left := { w with failingFrees := w.failingFrees.tail, frees := address :: w.frees }
    if w.failingFrees.headD false then (.error (.invalidFree address), left)
    else (pass (ctx.free address).run).run left

end Watched

/-- The context of a process under watch. -/
def Context.watched {ω : Type} (ctx : Context ω) : Context (Watched ω) where
  target := ctx.target
  allocate := Watched.allocate ctx
  free := Watched.free ctx
  read address length := ExceptT.mk (Watched.pass (ctx.read address length).run)
  write address bytes := ExceptT.mk (Watched.pass (ctx.write address bytes).run)
  run plan := Watched.pass (ctx.run plan)
  compile source := Watched.pass (ctx.compile source)

end CallThunk
