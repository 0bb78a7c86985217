import CallThunk.Record.Layout
import CallThunk.Numeral

/-!
# Target memory

Memory is a total map from addresses to bytes together with the regions in which access is allowed.
`Memory.allocate?` takes addresses from a range that only grows and leaves one byte between
neighbours, so live regions never touch and a freed address never comes back. Every access must lie
inside one live region.
-/

namespace CallThunk

/-- Why a memory operation failed. -/
inductive MemoryFault where
  | unmapped (address : UInt64) (length : Nat)
  | allocationFailed (size : UInt64)
  | invalidFree (address : UInt64)
  deriving DecidableEq

open Numeral in
def MemoryFault.message : MemoryFault → String
  | unmapped address length =>
    "cannot access " ++ decimal length ++ " bytes at " ++ hex address.toNat ++ ": not mapped"
  | allocationFailed size =>
    "failed to allocate " ++ decimal size.toNat ++ " bytes in the target"
  | invalidFree address => hex address.toNat ++ " is not the start of a live allocation"

/-! ## Bytes -/

/-- The byte at every address. -/
abbrev Contents := UInt64 → UInt8

namespace Contents

def zero : Contents := fun _ => 0

/-- The bytes from an address on; addresses wrap at 2^64. -/
def read (c : Contents) (address : UInt64) (length : Nat) : List UInt8 :=
  (List.range length).map fun i => c (address + UInt64.ofNat i)

/-- Changes the bytes from an address on; addresses wrap at 2^64. -/
def write (c : Contents) (address : UInt64) (bytes : List UInt8) : Contents := fun a =>
  (bytes[(a - address).toNat]?).getD (c a)

end Contents

/-! ## Regions -/

/-- A range of addresses that was allocated as one. -/
structure Region where
  start : UInt64
  size : Nat
  deriving DecidableEq

namespace Region

/-- Whether a range of bytes lies inside the region. -/
def covers (r : Region) (address : UInt64) (length : Nat) : Bool :=
  r.start ≤ address && address.toNat + length ≤ r.start.toNat + r.size

end Region

/-- The memory of a process. -/
structure Memory where
  /-- No region reaches this address or one behind it. -/
  next : UInt64
  live : List Region
  freed : List Region
  contents : Contents

namespace Memory

/-- Memory without regions; the first one starts at `base` or just behind it. -/
def ofBase (base : UInt64) : Memory := ⟨base, [], [], .zero⟩

/-- The live region that holds a range of bytes. -/
def region? (m : Memory) (address : UInt64) (length : Nat) : Option Region :=
  m.live.find? (·.covers address length)

/-- Takes the next free range of a size and an alignment, which must be a power of two or zero. The
new bytes are zero. -/
def allocate? (m : Memory) (size align : UInt64) : Option (UInt64 × Memory) :=
  let align := max align.toNat 1
  let start := alignUp m.next.toNat align
  let next := start + max size.toNat 1 + 1
  if isPowerOfTwo align && next < UInt64.size then
    let address := UInt64.ofNat start
    some (address,
      { m with
        next := UInt64.ofNat next
        live := ⟨address, size.toNat⟩ :: m.live
        contents := fun a => if (a - address).toNat < size.toNat then 0 else m.contents a })
  else none

/-- Gives up the live region that starts at an address. -/
def free? (m : Memory) (address : UInt64) : Option Memory :=
  match m.live.find? (·.start = address) with
  | some region =>
    some { m with live := m.live.filter (·.start ≠ address), freed := region :: m.freed }
  | none => none

/-- Reads a range inside one live region. -/
def read? (m : Memory) (address : UInt64) (length : Nat) : Option (List UInt8) :=
  if (m.region? address length).isSome then some (m.contents.read address length) else none

/-- Writes a range inside one live region. -/
def write? (m : Memory) (address : UInt64) (bytes : List UInt8) : Option Memory :=
  if (m.region? address bytes.length).isSome then
    some { m with contents := m.contents.write address bytes }
  else none

end Memory

end CallThunk
