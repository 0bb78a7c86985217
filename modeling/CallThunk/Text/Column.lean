/-!
# Columns of text

Padding to a column width, counted in characters. A text that is already wider stays as it is.
-/

namespace CallThunk.Text

/-- A number of blanks. -/
def blanks (n : Nat) : String := String.ofList (List.replicate n ' ')

/-- Pads on the left, so that the text ends at the column. -/
def alignRight (width : Nat) (s : String) : String := blanks (width - s.length) ++ s

/-- Pads on the right, so that the text starts at the column. -/
def alignLeft (width : Nat) (s : String) : String := s ++ blanks (width - s.length)

end CallThunk.Text
