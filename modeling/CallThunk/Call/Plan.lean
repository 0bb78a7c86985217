import CallThunk.Numeral

/-!
# Call plans

What a thread is asked to run, with which options, and why it stopped.
-/

namespace CallThunk

/-- How a call should be run. -/
structure RunOptions where
  /-- Restore the thread's state if the call stops early. -/
  unwindOnError : Bool := true
  /-- Keep running through breakpoints inside the callee. -/
  ignoreBreakpoints : Bool := false
  /-- Give up after this many milliseconds. -/
  timeoutMs : Option UInt64 := none
  /-- Let other threads run if the call blocks. -/
  tryAllThreads : Bool := true
  deriving DecidableEq

namespace RunOptions

/-- The timeout in seconds and nanoseconds. -/
def timeout? (options : RunOptions) : Option (Nat × Nat) :=
  options.timeoutMs.map fun ms => (ms.toNat / 1000, ms.toNat % 1000 * 1000000)

end RunOptions

/-- A unit of work for a thread: run the wrapper on a prepared struct. -/
structure Plan where
  /-- Name of the called function. -/
  functionName : String
  wrapperEntry : UInt64
  structAddress : UInt64
  functionAddress : UInt64
  options : RunOptions
  deriving DecidableEq

/-- Why a thread stopped. -/
inductive Stop where
  /-- The wrapper returned. -/
  | completed
  | breakpoint (address : UInt64)
  | signal (number : Int) (name : String)
  | timedOut
  | exited (status : Int)
  /-- The plan was abandoned. -/
  | aborted (reason : String)
  deriving DecidableEq

namespace Stop

def isCompleted : Stop → Bool
  | completed => true
  | _ => false

def isBreakpoint : Stop → Bool
  | breakpoint _ => true
  | _ => false

open Numeral in
def text : Stop → String
  | completed => "completed"
  | breakpoint address => "hit breakpoint at " ++ hex address.toNat
  | signal number name => "received signal " ++ name ++ " (" ++ signed number ++ ")"
  | timedOut => "timed out"
  | exited status => "process exited with status " ++ signed status
  | aborted reason => "aborted: " ++ reason

end Stop

end CallThunk
