import CallThunk.Numeral

/-!
# Places in source text

Spans are byte ranges. `LineTable.locate` turns a byte offset into a line and a column, both counted
from one in 32 bits, by a binary search among the offsets at which lines start.
-/

namespace CallThunk.Source

/-- A byte range; the end is exclusive. -/
structure Span where
  start : Nat
  stop : Nat
  deriving DecidableEq

namespace Span

/-- The least span around two spans. -/
def merge (a b : Span) : Span := ⟨min a.start b.start, max a.stop b.stop⟩

def text (s : Span) : String := Numeral.decimal s.start ++ ".." ++ Numeral.decimal s.stop

end Span

/-- A line and a column, counted from one; columns count bytes. -/
structure Location where
  line : UInt32
  column : UInt32
  deriving DecidableEq

def Location.text (l : Location) : String :=
  Numeral.decimal l.line.toNat ++ ":" ++ Numeral.decimal l.column.toNat

/-- The offsets at which the lines of a source start, in order. -/
structure LineTable where
  starts : Array Nat

namespace LineTable

/-- The offsets just behind the newlines of a text that begins at an offset. -/
def lineStarts : (offset : Nat) → List Char → List Nat
  | _, [] => []
  | offset, c :: cs =>
    let next := offset + c.utf8Size
    if c = '\n' then next :: lineStarts next cs else lineStarts next cs

def ofSource (source : String) : LineTable := ⟨(0 :: lineStarts 0 source.toList).toArray⟩

/-- The number of entries at the front of `xs[lo:hi]` that are at most `bound`, added to `lo`, for
ascending entries: halves the range until it is empty. -/
def countUpTo (xs : Array Nat) (bound lo hi : Nat) : Nat :=
  if lo < hi then
    let mid := (lo + hi) / 2
    if xs.getD mid 0 ≤ bound then countUpTo xs bound (mid + 1) hi
    else countUpTo xs bound lo mid
  else lo
termination_by hi - lo

/-- The place of an offset; offsets past the end count on in the last line. Numbers wrap at 2^32. -/
def locate (table : LineTable) (offset : Nat) : Location :=
  let line := countUpTo table.starts offset 0 table.starts.size - 1
  ⟨UInt32.ofNat (line + 1), UInt32.ofNat (offset - table.starts.getD line 0 + 1)⟩

end LineTable

end CallThunk.Source
