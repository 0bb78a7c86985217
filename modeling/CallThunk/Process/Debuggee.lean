import CallThunk.Process.Context
import CallThunk.Host.Function

/-!
# Debuggees

Two processes that calls can run against. A sparse one is a pure stand-in for targets of any data
model; the host is the process that native wrappers run in. Both can be made to run out of memory or
to refuse to free. Threads replay scripted stops first and then run the wrapper itself.
-/

namespace CallThunk

/-- Ways in which a process can be made to fail. -/
structure Faults where
  /-- The number of allocations that are still passed on, if they are limited. -/
  allocationsLeft : Option Nat := none
  freeFails : Bool := false

/-- The state of a debugged process with its thread. -/
structure Debuggee where
  memory : Memory
  faults : Faults := {}
  /-- The stops that the thread replays. -/
  script : List Stop := []
  /-- The plans run so far, in order. -/
  plans : List Plan := []
  /-- The native wrappers, by their entry address. -/
  code : List (UInt64 × Machine.Code) := []

namespace Debuggee

/-! ## Memory -/

/-- How a process hands out memory. -/
abbrev Allocator := Memory → (size align : UInt64) → Option (UInt64 × Memory)

/-- Sparse processes hand out any size. -/
def sparseAllocator : Allocator := Memory.allocate?

/-- The host's addresses have 47 bits: it refuses sizes and alignments beyond them. It gives one
byte at least. -/
def hostAllocator : Allocator := fun m size align =>
  if size.toNat < 2 ^ 47 ∧ align.toNat < 2 ^ 47 then m.allocate? (max size 1) align else none

/-- A memory service that changes memory or fails. -/
def onMemory {α : Type} (error : MemoryFault) (f : Memory → Option (α × Memory)) :
    Service Debuggee α :=
  ExceptT.mk fun d =>
    match f d.memory with
    | some (a, memory) => (.ok a, { d with memory })
    | none => (.error error, d)

/-- Allocates, unless no allocations are left; an attempt that fails counts as well. -/
def allocate (allocator : Allocator) (size align : UInt64) : Service Debuggee UInt64 := do
  let d ← get
  match d.faults.allocationsLeft with
  | some 0 => throw (.allocationFailed size)
  | some (left + 1) => set { d with faults := { d.faults with allocationsLeft := some left } }
  | none => pure ()
  onMemory (.allocationFailed size) (allocator · size align)

def free (address : UInt64) : Service Debuggee PUnit := do
  if (← get).faults.freeFails then
    throw (.invalidFree address)
  onMemory (.invalidFree address) fun m => (m.free? address).map ((), ·)

def read (address : UInt64) (length : Nat) : Service Debuggee (List UInt8) :=
  onMemory (.unmapped address length) fun m => (m.read? address length).map (·, m)

def write (address : UInt64) (bytes : List UInt8) : Service Debuggee PUnit :=
  onMemory (.unmapped address bytes.length) fun m => (m.write? address bytes).map ((), ·)

/-! ## Running -/

/-- Runs the wrapper of a plan on the calling thread. Options are ignored, because nothing can
interrupt a direct call. -/
def runWrapper (plan : Plan) : StateM Debuggee Stop := fun d =>
  if plan.wrapperEntry = 0 then (.aborted "wrapper has no entry point", d)
  else if plan.structAddress = 0 then (.aborted "argument struct address is null", d)
  else
    match d.code.lookup plan.wrapperEntry with
    | some code =>
      let frame := code.run HostFunction.callees plan.structAddress d.memory.contents
      (.completed, { d with memory := { d.memory with contents := frame.contents } })
    | none => (.signal 11 "SIGSEGV", d)

/-- The next stop of a script and the stops behind it; breakpoints are skipped when they are to be
ignored. -/
def nextStop? (ignoreBreakpoints : Bool) : List Stop → Option (Stop × List Stop)
  | [] => none
  | stop :: rest =>
    if ignoreBreakpoints && stop.isBreakpoint then nextStop? ignoreBreakpoints rest
    else some (stop, rest)

/-- Runs a plan: the script is replayed first, then the wrapper itself runs. -/
def run (plan : Plan) : StateM Debuggee Stop := do
  modify fun d => { d with plans := d.plans ++ [plan] }
  match nextStop? plan.options.ignoreBreakpoints (← get).script with
  | some (stop, rest) =>
    modify fun d => { d with script := rest }
    return stop
  | none =>
    modify fun d => { d with script := [] }
    runWrapper plan

/-! ## Compiling -/

/-- The compilers that a debuggee can be given. -/
inductive CompilerChoice where
  | layoutOnly
  | native (options : NativeOptions)
  /-- Reports what it is told to, and gives a wrapper if it is to succeed. -/
  | scripted (warnings errors : List String) (succeeds : Bool) (entry : UInt64)
      (records : List PlacedRecord)

/-- The entry address of the next native wrapper. -/
def nextEntry (d : Debuggee) : UInt64 := UInt64.ofNat (0x600000 + 4096 * d.code.length)

/-- Keeps the code of a wrapper at its entry. -/
def install (compiled : Option LoadedWrapper) (d : Debuggee) : Debuggee :=
  match compiled.bind fun c => c.code.map (c.entry, ·) with
  | some entry => { d with code := entry :: d.code }
  | none => d

def compile (choice : CompilerChoice) (target : Target) (source : WrapperSource) :
    StateM Debuggee (Option LoadedWrapper × Diagnostics) := fun d =>
  match choice with
  | .layoutOnly => (Compiler.layoutOnly .selfContained target source.text, d)
  | .native _ =>
    let outcome := Compiler.native d.nextEntry .selfContained target source.text
    (outcome, d.install outcome.1)
  | .scripted warnings errors succeeds entry records =>
    let reports (severity : Severity) (texts : List String) : Diagnostics :=
      texts.map fun message => { severity, message }
    let compiled : LoadedWrapper := ⟨source.functionName, entry, records, none⟩
    ((if succeeds then some compiled else none,
      reports .warning warnings ++ reports .error errors), d)

/-! ## Contexts -/

def context (target : Target) (allocator : Allocator) (choice : CompilerChoice) :
    Context Debuggee where
  target
  allocate := allocate allocator
  free
  read
  write
  run
  compile := compile choice target

/-- A sparse process of a data model. -/
def sparse (target : Target) (choice : CompilerChoice) : Context Debuggee :=
  context target sparseAllocator choice

/-- The process that native wrappers run in. -/
def host (choice : CompilerChoice) : Context Debuggee :=
  context .host hostAllocator choice

/-- The address at which a sparse process starts to allocate, unless it is told another. -/
def sparseBase : UInt64 := 0x10000000

/-- The address at which the host starts to allocate. -/
def hostBase : UInt64 := 0x7f0000000000

end Debuggee

end CallThunk
