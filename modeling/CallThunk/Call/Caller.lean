import CallThunk.Call.Activation
import CallThunk.Wrapper.Layout
import CallThunk.Value.Image

/-!
# Callers

A caller is bound to one function. Compiling it compiles its wrapper and recovers the layout of the
argument struct, once and for all. Each call then runs on an activation of its own: the struct is
prepared, arguments are written, the plan is run and the result is fetched, and at the end the
activation is released. Operations on activations never change the caller.
-/

namespace CallThunk

/-- Where the argument struct of a call lies. -/
inductive StructPlace where
  /-- Memory of the caller's user, which is never freed. -/
  | given (address : UInt64)
  /-- Memory allocated for the activation. -/
  | fresh
  deriving DecidableEq

/-- Why a call could not be prepared, run or decoded. -/
inductive CallError where
  | compilation (errors : Nat)
  | layout (error : LayoutError)
  | mismatch (error : Mismatch)
  | memory (error : MemoryFault)
  | stopped (stop : Stop)
  | notReady
  | notWritten
  | notCompleted
  deriving DecidableEq

def CallError.message : CallError → String
  | compilation errors =>
    "wrapper failed to compile with " ++ Numeral.decimal errors ++ " error(s)"
  | layout error => "argument struct layout: " ++ error.message
  | mismatch error => "argument mismatch: " ++ error.message
  | memory error => "target memory access failed: " ++ error.message
  | stopped stop => "execution interrupted: " ++ stop.text
  | notReady => "the caller has not been compiled"
  | notWritten => "arguments have not been written to the call struct"
  | notCompleted => "the call has not completed"

/-- What a compiled caller knows. -/
structure Ready where
  compiled : LoadedWrapper
  layout : StructLayout
  target : Target
  deriving DecidableEq

/-- The life of a caller: it is compiled at most once and stays as that leaves it. -/
inductive CallerStatus where
  | new
  | ready (r : Ready)
  | failed (errors : Nat) (failure : CallError)
  deriving DecidableEq

/-- Calls one function in the target. -/
structure Caller where
  name : String
  callee : Callee
  defaultArguments : List Value
  model : StructModel
  source : WrapperSource
  status : CallerStatus := .new
  deriving DecidableEq

namespace Caller

variable {ω : Type}

/-- The caller whose argument slots follow values, which are its default arguments. -/
def ofValues (name : String) (callee : Callee) (args : List Value) : Caller :=
  let model := StructModel.ofValues callee.signature args
  { name, callee, defaultArguments := args, model, source := .ofModel name model }

/-- The caller whose argument slots are the declared parameters. It has no default arguments. -/
def ofSignature (name : String) (callee : Callee) : Caller :=
  let model := StructModel.ofSignature callee.signature
  { name, callee, defaultArguments := [], model, source := .ofModel name model }

/-- The number of errors of the last attempt to compile. -/
def errorCount (caller : Caller) : Nat :=
  match caller.status with
  | .failed errors _ => errors
  | _ => 0

def ready? (caller : Caller) : Option Ready :=
  match caller.status with
  | .ready r => some r
  | _ => none

/-- The compiled state, or why there is none. -/
def ready (caller : Caller) : Except CallError Ready :=
  match caller.status with
  | .ready r => .ok r
  | .failed _ failure => .error failure
  | .new => .error .notReady

/-! ## Compiling -/

/-- The state of a context with the diagnostics reported so far. -/
structure Reporting (ω : Type) where
  world : ω
  reports : Diagnostics

/-- Runs a service of the context. -/
def onWorld {α : Type} (service : StateM ω α) : StateM (Reporting ω) α := fun s =>
  let (a, world) := service.run s.world
  (a, { s with world })

/-- Reports an error. -/
def report (message : String) : StateM (Reporting ω) PUnit :=
  modify fun s => { s with reports := s.reports.addError message }

/-- The status that a compilation leads to, with the reports of its own. -/
def settle (caller : Caller) (target : Target) (compiled : Option LoadedWrapper) (errors : Nat) :
    CallerStatus × List String :=
  match compiled, errors with
  | some compiled, 0 =>
    match StructLayout.recover compiled.records caller.source.structName caller.model
        target.pointerSize with
    | .ok layout => (.ready ⟨compiled, layout, target⟩, [])
    | .error e =>
      (.failed 1 (.layout e), ["cannot recover argument struct layout: " ++ e.message])
  | none, 0 =>
    (.failed 1 (.compilation 1), ["wrapper for `" ++ caller.name ++ "` failed to compile"])
  | _, errors => (.failed errors (.compilation errors), [])

/-- Compiles the wrapper and recovers the layout of the struct; gives the number of errors. A ready
caller has none and a failed one keeps its number, and neither compiles again. -/
def compile (ctx : Context ω) (caller : Caller) : StateM (Reporting ω) (Nat × Caller) := do
  match caller.status with
  | .ready _ => return (0, caller)
  | .failed errors _ =>
    report ("wrapper for `" ++ caller.name ++ "` already failed to compile; not retrying")
    return (errors, caller)
  | .new =>
    let (compiled, reports) ← onWorld (ctx.compile caller.source)
    modify fun s => { s with reports := s.reports ++ reports }
    let (status, messages) := caller.settle ctx.target compiled reports.errorCount
    messages.forM report
    let caller := { caller with status }
    return (caller.errorCount, caller)

/-! ## One call -/

/-- A memory service whose failures are failures of the call. -/
def access {α : Type} (service : Service ω α) : ExceptT CallError (StateM ω) α :=
  ExceptT.mk (Except.mapError .memory <$> service.run)

/-- Allocates or adopts the struct of a call. Adopted memory must hold the whole struct. -/
def prepare (ctx : Context ω) (caller : Caller) (place : StructPlace) :
    ExceptT CallError (StateM ω) Activation := do
  let r ← liftExcept caller.ready
  match place with
  | .given address =>
    let _ ← access (ctx.read address r.layout.size.toNat)
    return { structAddress := address, ownsStruct := false }
  | .fresh =>
    let address ← access (ctx.allocate r.layout.size.toUInt64 r.layout.align.toUInt64)
    return { structAddress := address, ownsStruct := true }
where
  liftExcept {α : Type} (x : Except CallError α) : ExceptT CallError (StateM ω) α :=
    ExceptT.mk (pure x)

/-- What is written for an argument. -/
inductive ArgumentImage where
  /-- The bytes of a scalar or pointer, for the slot itself. -/
  | word (bytes : List UInt8)
  /-- The bytes of an aggregate, for a side buffer of its alignment. -/
  | side (bytes : List UInt8) (align : UInt32)
  deriving DecidableEq

/-- Checks the argument at an index against its slot and gives what is to be written. -/
def argumentImage (target : Target) (index : Nat) (slot : Ty) (layout : SlotPlace) (value : Value) :
    Except Mismatch ArgumentImage := do
  value.fitSlot index slot
  match value with
  | .aggregate record bytes => return .side bytes record.align
  | scalar =>
    let bytes ← scalar.encode target
    if bytes.length ≠ layout.size.toNat then
      throw (.wrongSize slot layout.size bytes.length)
    return .word bytes

/-- The images of arguments, from an index on, each with its slot's place. -/
def argumentImages (target : Target) :
    (index : Nat) → List Ty → List SlotPlace → List Value →
      Except Mismatch (List (SlotPlace × ArgumentImage))
  | index, slot :: slots, layout :: layouts, value :: values => do
    let image ← argumentImage target index slot layout value
    let images ← argumentImages target (index + 1) slots layouts values
    return (layout, image) :: images
  | _, _, _, _ => return []

/-- The images of the callee's address and of all arguments; fails before anything is written. -/
def images (caller : Caller) (r : Ready) (args : List Value) :
    Except Mismatch (List UInt8 × List (SlotPlace × ArgumentImage)) := do
  if args.length ≠ caller.model.arity then
    throw (.wrongCount caller.model.arity args.length)
  let arguments ← argumentImages r.target 0 caller.model.argumentTys r.layout.arguments args
  let function ← r.target.addressImage caller.callee.address
  return (function, arguments)

/-- An operation on one activation and the state of the context. -/
abbrev OnActivation (ω : Type) := ExceptT CallError (StateM (Activation × ω))

/-- A memory service, in an operation on an activation. -/
def service {α : Type} (s : Service ω α) : OnActivation ω α :=
  ExceptT.mk fun (activation, world) =>
    let (a, world) := s.run.run world
    (a.mapError .memory, (activation, world))

/-- Changes the activation. -/
def update (f : Activation → Activation) : OnActivation ω PUnit :=
  modify fun (activation, world) => (f activation, world)

/-- Frees the side buffers of the arguments before. -/
def freeSides (ctx : Context ω) : OnActivation ω PUnit := do
  let sides := (← get).1.sides
  update fun activation => { activation with sides := [] }
  service (ExceptT.mk (Activation.freeEach ctx sides))

/-- The address of a slot. -/
def slotAddress (activation : Activation) (slot : SlotPlace) : UInt64 :=
  activation.structAddress + slot.offset.toUInt64

def writeSlot (ctx : Context ω) (slot : SlotPlace) (bytes : List UInt8) : OnActivation ω PUnit := do
  let activation := (← get).1
  service (ctx.write (slotAddress activation slot) bytes)

/-- Allocates and fills a side buffer, which the activation owns from its allocation on. -/
def newSide (ctx : Context ω) (bytes : List UInt8) (align : UInt32) : OnActivation ω UInt64 := do
  let address ← service (ctx.allocate (UInt64.ofNat bytes.length) align.toUInt64)
  update fun activation => { activation with sides := activation.sides ++ [address] }
  service (ctx.write address bytes)
  return address

/-- Writes one argument: an aggregate to a side buffer, whose address goes to the slot. -/
def writeArgument (ctx : Context ω) (target : Target) (slot : SlotPlace) :
    ArgumentImage → OnActivation ω PUnit
  | .word bytes => writeSlot ctx slot bytes
  | .side bytes align => do
    let address ← newSide ctx bytes align
    match target.addressImage address with
    | .ok image => writeSlot ctx slot image
    | .error e => throw (.mismatch e)

/-- Writes arguments in order. -/
def writeAll (ctx : Context ω) (target : Target) :
    List (SlotPlace × ArgumentImage) → OnActivation ω PUnit
  | [] => return ()
  | (slot, image) :: rest => do
    writeArgument ctx target slot image
    writeAll ctx target rest

/-- Writes the callee's address and the arguments into the struct. Every argument is checked before
anything is written; from then on the arguments before are gone, whatever happens. -/
def write (ctx : Context ω) (caller : Caller) (args : List Value) : OnActivation ω PUnit := do
  let r ← liftExcept caller.ready
  let (function, arguments) ← liftExcept ((caller.images r args).mapError .mismatch)
  update fun activation => { activation with stage := .prepared, arguments := [] }
  freeSides ctx
  writeSlot ctx r.layout.function function
  writeAll ctx r.target arguments
  update fun activation => { activation with stage := .written, arguments := args }
where
  liftExcept {α : Type} (x : Except CallError α) : OnActivation ω α := ExceptT.mk (pure x)

/-- The value of one argument slot. The slot of an aggregate that was written leads to the bytes of
that aggregate. -/
def readArgument (ctx : Context ω) (target : Target) (activation : Activation) (slot : Ty)
    (layout : SlotPlace) (written : Option Value) : ExceptT CallError (StateM ω) Value := do
  let bytes ← access (ctx.read (slotAddress activation layout) layout.size.toNat)
  match written, Value.decode target slot bytes with
  | some (.aggregate ty _), .ok (.pointer _ address) =>
    return .aggregate ty (← access (ctx.read address ty.size.toNat))
  | _, .ok value => return value
  | _, .error e => throw (.mismatch e)

/-- The values of argument slots in order. -/
def readAll (ctx : Context ω) (target : Target) (activation : Activation) :
    List Ty → List SlotPlace → List Value → ExceptT CallError (StateM ω) (List Value)
  | slot :: slots, layout :: layouts, written => do
    let value ← readArgument ctx target activation slot layout written.head?
    let values ← readAll ctx target activation slots layouts written.tail
    return value :: values
  | _, _, _ => return []

/-- Reads the arguments back from a written struct. -/
def read (ctx : Context ω) (caller : Caller) (activation : Activation) :
    ExceptT CallError (StateM ω) (List Value) := do
  match caller.ready with
  | .error e => throw e
  | .ok r =>
    if activation.stage = .prepared then
      throw .notWritten
    readAll ctx r.target activation caller.model.argumentTys r.layout.arguments activation.arguments

/-- The plan that runs the wrapper on a written activation. -/
def plan (caller : Caller) (activation : Activation) (options : RunOptions) :
    Except CallError Plan := do
  let r ← caller.ready
  if activation.stage = .prepared then
    throw .notWritten
  return {
    functionName := caller.name
    wrapperEntry := r.compiled.entry
    structAddress := activation.structAddress
    functionAddress := caller.callee.address
    options }

/-- Decodes the result of a completed call; a function without a result gives `void`. -/
def fetch (ctx : Context ω) (caller : Caller) : OnActivation ω Value := do
  let activation := (← get).1
  match caller.ready with
  | .error e => throw e
  | .ok r =>
    if activation.stage ≠ .completed then
      throw .notCompleted
    let value ← match r.layout.result, caller.model.resultSlot? with
      | some layout, some slot => do
        let bytes ← service (ctx.read (slotAddress activation layout) layout.size.toNat)
        match Value.decode r.target slot.ty bytes with
        | .ok value => pure value
        | .error e => throw (.mismatch e)
      | _, _ => pure .void
    update fun activation => { activation with result := some value }
    return value

/-- Runs a plan on a thread. -/
def runPlan (ctx : Context ω) (p : Plan) : OnActivation ω Stop :=
  ExceptT.mk fun (activation, world) =>
    let (stop, world) := (ctx.run p).run world
    (.ok stop, (activation, world))

/-- Runs a written activation to its end and fetches the result. -/
def run (ctx : Context ω) (caller : Caller) (options : RunOptions) : OnActivation ω Value := do
  match caller.plan (← get).1 options with
  | .error e => throw e
  | .ok p =>
    update fun activation => { activation with stage := .running }
    let stop ← runPlan ctx p
    unless stop.isCompleted do
      update fun activation => { activation with stage := .interrupted }
      throw (.stopped stop)
    update fun activation => { activation with stage := .completed }
    fetch ctx caller

/-- Frees all that an activation owns. -/
def release (ctx : Context ω) (activation : Activation) : ExceptT CallError (StateM ω) PUnit :=
  access (activation.release ctx)

/-! ## Whole calls -/

/-- Prepares a struct and writes the default arguments. An activation that cannot be written is
dropped. -/
def prepareDefault (ctx : Context ω) (caller : Caller) (place : StructPlace) :
    StateM ω (Except CallError Activation) := do
  match ← (caller.prepare ctx place).run with
  | .error e => return .error e
  | .ok activation => fun world =>
    match (caller.write ctx caller.defaultArguments).run.run (activation, world) with
    | (.ok _, activation, world) => (.ok activation, world)
    | (.error e, activation, world) => (.error e, ((activation.drop ctx).run world).2)

/-- Prepares a struct with the default arguments in it, and reports a failure. -/
def insert (ctx : Context ω) (caller : Caller) (place : StructPlace) :
    StateM (Reporting ω) (Except CallError Activation) := do
  let outcome ← onWorld (caller.prepareDefault ctx place)
  if let .error e := outcome then
    report ("cannot set up call to `" ++ caller.name ++ "`: " ++ e.message)
  return outcome

/-- One call on an activation of its own, which is gone afterwards. A failure to free it after the
call is forgotten. -/
def callAlone (ctx : Context ω) (caller : Caller) (args : List Value) (place : StructPlace)
    (options : RunOptions) : StateM ω (Except CallError Value) := do
  match ← (caller.prepare ctx place).run with
  | .error e => return .error e
  | .ok activation => fun world =>
    let operation : OnActivation ω Value := do
      caller.write ctx args
      caller.run ctx options
    match operation.run.run (activation, world) with
    | (.ok value, activation, world) => (.ok value, ((release ctx activation).run.run world).2)
    | (.error e, activation, world) => (.error e, ((activation.drop ctx).run world).2)

/-- Compiles if needed, then calls with explicit arguments; reports a failure of the call. -/
def callWith (ctx : Context ω) (caller : Caller) (args : List Value) (place : StructPlace)
    (options : RunOptions) : StateM (Reporting ω) (Except CallError Value × Caller) := do
  let (errors, caller) ← caller.compile ctx
  if errors > 0 then
    match caller.status with
    | .failed _ failure => return (.error failure, caller)
    | _ => return (.error (.compilation errors), caller)
  let outcome ← onWorld (caller.callAlone ctx args place options)
  if let .error e := outcome then
    report ("call to `" ++ caller.name ++ "` failed: " ++ e.message)
  return (outcome, caller)

/-- Compiles if needed, then calls with the default arguments on a new struct. -/
def call (ctx : Context ω) (caller : Caller) (options : RunOptions) :
    StateM (Reporting ω) (Except CallError Value × Caller) :=
  caller.callWith ctx caller.defaultArguments .fresh options

end Caller

end CallThunk
