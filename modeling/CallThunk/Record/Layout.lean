import CallThunk.Ty.Basic

/-!
# Record layouts

Where the fields of a record lie. Fields are placed in the order of their declaration, each at the
least multiple of its alignment that is not below the end of the field before; the size is the least
multiple of the record's alignment that is not below the last end. Sizes and offsets are 32-bit
numbers, so `Placement.add?` and `Placement.finish?` fail when one does not fit.
-/

namespace CallThunk

/-- A field inside a laid-out record. -/
structure PlacedField where
  name : String
  ty : Ty
  offset : UInt32
  size : UInt32
  align : UInt32
  deriving DecidableEq

/-- A laid-out record. One of which only size and alignment are known has no fields. -/
structure PlacedRecord where
  name : String
  size : UInt32
  align : UInt32
  fields : List PlacedField
  deriving DecidableEq

namespace PlacedRecord

def field? (record : PlacedRecord) (name : String) : Option PlacedField :=
  record.fields.find? (·.name = name)

/-- The semantic type of a record. -/
def recordTy (record : PlacedRecord) : RecordTy := ⟨record.name, record.size, record.align⟩

end PlacedRecord

/-- The 32-bit word of a natural number, if it fits. -/
def word32? (n : Nat) : Option UInt32 :=
  if n < UInt32.size then some (UInt32.ofNat n) else none

/-- The least multiple of `max align 1` that is not below a number. -/
def alignUp (n align : Nat) : Nat :=
  let a := max align 1
  (n + a - 1) / a * a

/-- Whether a number is a power of two. -/
def isPowerOfTwo (n : Nat) : Bool := n ≠ 0 && n = 2 ^ n.log2

/-- The fields placed so far. The end is missing once it does not fit 32 bits. -/
structure Placement where
  fields : List PlacedField
  stop : Option UInt32
  align : UInt32

namespace Placement

def empty : Placement := ⟨[], some 0, 1⟩

/-- Places one more field, unless its offset does not fit 32 bits. -/
def add? (p : Placement) (name : String) (ty : Ty) (size align : UInt32) : Option Placement := do
  let stop ← p.stop
  let offset ← word32? (alignUp stop.toNat align.toNat)
  return {
    fields := p.fields ++ [⟨name, ty, offset, size, align⟩]
    stop := word32? (offset.toNat + size.toNat)
    align := max p.align align }

/-- The record of the placed fields, unless its size does not fit 32 bits. -/
def finish? (p : Placement) (name : String) : Option PlacedRecord := do
  let stop ← p.stop
  let size ← word32? (alignUp stop.toNat p.align.toNat)
  return ⟨name, size, p.align, p.fields⟩

end Placement

/-! ## Tables of records -/

/-- The records of a unit in the order in which they became known. -/
abbrev RecordTable := List PlacedRecord

namespace RecordTable

def find? (table : RecordTable) (name : String) : Option PlacedRecord :=
  List.find? (·.name = name) table

def contains (table : RecordTable) (name : String) : Bool :=
  table.any (·.name = name)

/-- Adds a record; it takes the place of earlier ones of its name as well. -/
def insert (table : RecordTable) (record : PlacedRecord) : RecordTable :=
  table.map (fun r => if r.name = record.name then record else r) ++ [record]

end RecordTable

end CallThunk
