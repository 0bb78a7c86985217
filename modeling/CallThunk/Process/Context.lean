import CallThunk.Process.Memory
import CallThunk.Call.Plan
import CallThunk.Wrapper.Compiler

/-!
# What a call runs against

A context bundles the services of a debugged process, its threads and its compiler. They share a
state `ω`, which every service may change, also when it fails.
-/

namespace CallThunk

/-- A memory service: it changes the state and may fail. -/
abbrev Service (ω α : Type) := ExceptT MemoryFault (StateM ω) α

/-- The process, thread and compiler that calls run against. -/
structure Context (ω : Type) where
  target : Target
  /-- Allocates a number of bytes with an alignment. -/
  allocate : (size align : UInt64) → Service ω UInt64
  free : (address : UInt64) → Service ω PUnit
  read : (address : UInt64) → (length : Nat) → Service ω (List UInt8)
  write : (address : UInt64) → List UInt8 → Service ω PUnit
  /-- Runs a plan on a thread until it stops. -/
  run : Plan → StateM ω Stop
  /-- Compiles wrapper source, with reports. -/
  compile : WrapperSource → StateM ω (Option LoadedWrapper × Diagnostics)

end CallThunk
