import CallThunk.Call.Caller

/-!
# Sessions

A session drives one caller: it keeps the activations that were prepared and all diagnostics, and
its user may use the memory of the process as well. Activations are named by the order in which they
were made; the name of one that was released or dropped is never used again.
-/

namespace CallThunk

/-- What the user of a session can do. -/
inductive Action where
  | compile
  | prepare (place : StructPlace)
  | insert (place : StructPlace)
  | write (activation : Nat) (args : List Value)
  | read (activation : Nat)
  | plan (activation : Nat) (options : RunOptions)
  | run (activation : Nat) (options : RunOptions)
  | fetch (activation : Nat)
  | release (activation : Nat)
  | drop (activation : Nat)
  | call (options : RunOptions)
  | callWith (args : List Value) (place : StructPlace) (options : RunOptions)
  | allocateMemory (size align : UInt64)
  | freeMemory (address : UInt64)
  | readMemory (address : UInt64) (length : Nat)
  | writeMemory (address : UInt64) (bytes : List UInt8)

/-- What an action gives. -/
inductive Outcome where
  | done
  /-- The number of errors of a compilation. -/
  | errors (count : Nat)
  /-- The name of a new activation. -/
  | activation (index : Nat)
  | value (v : Value)
  | values (vs : List Value)
  | plan (p : Plan)
  | address (a : UInt64)
  | bytes (bs : List UInt8)
  | failed (error : CallError)
  | memoryFailed (error : MemoryFault)
  /-- There is no activation of that name, or no longer. -/
  | noActivation

/-- The state of a session. -/
structure Session (ω : Type) where
  caller : Caller
  world : ω
  activations : List (Option Activation) := []
  reports : Diagnostics := []

namespace Session

variable {ω : Type}

/-- The outcome of an operation that may fail. -/
def outcome {α : Type} (f : α → Outcome) : Except CallError α → Outcome
  | .ok a => f a
  | .error e => .failed e

/-- Runs an operation on the state of the context. -/
def onWorld {α : Type} (operation : StateM ω α) : StateM (Session ω) α := fun s =>
  let (a, world) := operation.run s.world
  (a, { s with world })

/-- Runs an operation that reports. -/
def reporting {α : Type} (operation : StateM (Caller.Reporting ω) α) : StateM (Session ω) α :=
  fun s =>
    let (a, after) := operation.run ⟨s.world, s.reports⟩
    (a, { s with world := after.world, reports := after.reports })

/-- Runs an operation that reports and may change the caller. -/
def onCaller {α : Type} (operation : StateM (Caller.Reporting ω) (α × Caller)) :
    StateM (Session ω) α := do
  let (a, caller) ← reporting operation
  modify fun s => { s with caller }
  return a

/-- Runs an operation on a live activation. -/
def onActivation {α : Type} (index : Nat) (f : α → Outcome) (operation : Caller.OnActivation ω α) :
    StateM (Session ω) Outcome := fun s =>
  match s.activations[index]?.join with
  | none => (.noActivation, s)
  | some activation =>
    let (result, activation, world) := operation.run.run (activation, s.world)
    (outcome f result, { s with world, activations := s.activations.set index (some activation) })

/-- Looks at a live activation. -/
def withActivation (index : Nat) (f : Activation → StateM (Session ω) Outcome) :
    StateM (Session ω) Outcome := do
  match (← get).activations[index]?.join with
  | none => return .noActivation
  | some activation => f activation

/-- Takes a live activation away; it is gone whatever its release gives. -/
def endActivation (index : Nat) (f : Activation → StateM ω Outcome) : StateM (Session ω) Outcome :=
  withActivation index fun activation => do
    modify fun s => { s with activations := s.activations.set index none }
    onWorld (f activation)

/-- Keeps a new activation. -/
def keep (result : Except CallError Activation) : StateM (Session ω) Outcome := do
  match result with
  | .error e => return .failed e
  | .ok activation =>
    let index := (← get).activations.length
    modify fun s => { s with activations := s.activations ++ [some activation] }
    return .activation index

/-- A memory service, as an action. -/
def onMemory {α : Type} (f : α → Outcome) (service : Service ω α) : StateM (Session ω) Outcome := do
  match ← onWorld service.run with
  | .ok a => return f a
  | .error e => return .memoryFailed e

/-- One action. -/
def step (ctx : Context ω) (action : Action) : StateM (Session ω) Outcome := do
  let caller := (← get).caller
  match action with
  | .compile => return .errors (← onCaller (caller.compile ctx))
  | .prepare place => keep (← onWorld (caller.prepare ctx place).run)
  | .insert place => keep (← reporting (caller.insert ctx place))
  | .write index args => onActivation index (fun _ => .done) (caller.write ctx args)
  | .read index => withActivation index fun activation =>
    return outcome .values (← onWorld (caller.read ctx activation).run)
  | .plan index options => withActivation index fun activation =>
    return outcome .plan (caller.plan activation options)
  | .run index options => onActivation index .value (caller.run ctx options)
  | .fetch index => onActivation index .value (caller.fetch ctx)
  | .release index => endActivation index fun activation =>
    return outcome (fun _ => .done) (← (Caller.release ctx activation).run)
  | .drop index => endActivation index fun activation => do
    activation.drop ctx
    return .done
  | .call options => return outcome .value (← onCaller (caller.call ctx options))
  | .callWith args place options =>
    return outcome .value (← onCaller (caller.callWith ctx args place options))
  | .allocateMemory size align => onMemory .address (ctx.allocate size align)
  | .freeMemory address => onMemory (fun _ => .done) (ctx.free address)
  | .readMemory address length => onMemory .bytes (ctx.read address length)
  | .writeMemory address bytes => onMemory (fun _ => .done) (ctx.write address bytes)

end Session

end CallThunk
