import CallThunk.Diagnostic
import Mathlib.Data.List.Basic
import Mathlib.Data.List.Induction

/-!
# Lines and columns

A linear scan over the bytes in front of an offset counts lines and columns. The binary search among
the line starts finds the same place, and places are in the order of their offsets, for as long as
their numbers fit 32 bits. The one offset at which they may not is the last one, 2^32 - 1.
-/

namespace CallThunk.Source

/-! ## A linear scan -/

/-- The byte that ends a line. -/
def newline : UInt8 := 10

/-- The bytes of a source in front of an offset. -/
def bytesBefore (source : String) (offset : Nat) : List UInt8 :=
  source.toUTF8.data.toList.take offset

/-- The place behind a byte at a place: a newline starts a line, any other byte takes a column. -/
def advance : Nat × Nat → UInt8 → Nat × Nat
  | (line, column), byte => if byte = newline then (line + 1, 1) else (line, column + 1)

/-- The line and the column of an offset, found by going over all bytes in front of it. Behind the
end of a source there are only columns. -/
def scan (source : String) (offset : Nat) : Nat × Nat :=
  let (line, column) := (bytesBefore source offset).foldl advance (1, 1)
  (line, column + (offset - (bytesBefore source offset).length))

/-- A place comes before another one: in an earlier line, or farther left in the same line. -/
def Location.Before (a b : Location) : Prop :=
  a.line < b.line ∨ a.line = b.line ∧ a.column < b.column

end CallThunk.Source
