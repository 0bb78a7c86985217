/-!
# Ranges of characters

A property of characters is a table: the code points that have it, as ranges with both ends
included. A table in normal form ascends and has gaps between its ranges, so that no property has
two tables.
-/

namespace CallThunk.Text

def inRanges (ranges : List (Nat × Nat)) (c : Char) : Bool :=
  ranges.any fun (low, high) => low ≤ c.toNat && c.toNat ≤ high

/-- Whether no range is empty and each begins behind a gap after the one before. -/
def ascending : List (Nat × Nat) → Bool
  | (low, high) :: (next, last) :: rest =>
    low ≤ high && high + 1 < next && ascending ((next, last) :: rest)
  | [(low, high)] => low ≤ high
  | [] => true

end CallThunk.Text
