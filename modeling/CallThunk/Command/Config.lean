import CallThunk.Toml.Document
import CallThunk.Call.Plan
import CallThunk.Wrapper.Compiler

/-!
# Configuration

A configuration is a TOML document with the tables `call` and `codegen`. Everything may be left out,
and entries of the two tables that mean nothing are passed over. A group of settings can also be
written as an array, whose elements are the settings in order; a date counts as a table without any
setting.
-/

namespace CallThunk.Command

/-- Settings of the command. -/
structure Config where
  call : RunOptions := {}
  codegen : NativeOptions := {}
  deriving DecidableEq

namespace Config

open Toml (Node Entries)

/-- The settings of given names in a value, where they are present. -/
def settings? (names : List String) : Node → Option (List (Option Node))
  | .table _ entries => some (names.map fun name => entries.lookup name)
  | .date => some (names.map fun _ => none)
  | .array elements => some (names.mapIdx fun i _ => elements[i]?)
  | .tables elements =>
    some (names.mapIdx fun i _ => elements[i]?.map (Node.table .header))
  | _ => none

/-- Reads a setting, which takes its default when it is absent. -/
def setting {α : Type} (default : α) (read : Node → Option α) : Option Node → Option α
  | none => some default
  | some value => read value

def flag? : Node → Option Bool
  | .boolean b => some b
  | _ => none

/-- A number of milliseconds. -/
def milliseconds? : Node → Option (Option UInt64)
  | .integer z => if 0 ≤ z then some (some (UInt64.ofNat z.toNat)) else none
  | _ => none

def optLevelOfName? : String → Option Optimization
  | "none" => some .none
  | "speed" => some .speed
  | "speed_and_size" => some .speedAndSize
  | _ => none

/-- An optimization level: its name, or a table with the name as its only key and nothing in it. -/
def optLevel? : Node → Option Optimization
  | .string name => optLevelOfName? name
  | .table _ [(name, .table _ [])] => optLevelOfName? name
  | .table _ [(name, .array [])] => optLevelOfName? name
  | _ => none

def callOptions? (value : Node) : Option RunOptions := do
  let names := ["unwind_on_error", "ignore_breakpoints", "timeout_ms", "try_all_threads"]
  let d : RunOptions := {}
  match ← settings? names value with
  | [unwind, ignore, timeout, threads] =>
    return {
      unwindOnError := ← setting d.unwindOnError flag? unwind
      ignoreBreakpoints := ← setting d.ignoreBreakpoints flag? ignore
      timeoutMs := ← setting d.timeoutMs milliseconds? timeout
      tryAllThreads := ← setting d.tryAllThreads flag? threads }
  | _ => none

def codegenOptions? (value : Node) : Option NativeOptions := do
  let d : NativeOptions := {}
  match ← settings? ["opt_level", "verify"] value with
  | [level, verify] =>
    return {
      optLevel := ← setting d.optLevel optLevel? level
      verify := ← setting d.verify flag? verify }
  | _ => none

/-- The configuration in a root table, which has no other entries. -/
def ofEntries? (entries : Entries) : Option Config := do
  if entries.any fun (key, _) => key ≠ "call" && key ≠ "codegen" then
    none
  return {
    call := ← setting {} callOptions? (entries.lookup "call")
    codegen := ← setting {} codegenOptions? (entries.lookup "codegen") }

/-- Reads a configuration. -/
def read (text : String) : Option Config := Toml.read text >>= ofEntries?

end Config

end CallThunk.Command
