/-!
# Splitting text

The pieces of a text between separators. There is always one piece more than separators.
-/

namespace CallThunk.Text

/-- The pieces between the occurrences of a separator. -/
def split (separator : Char) : List Char → List (List Char)
  | [] => [[]]
  | c :: cs =>
    if c = separator then [] :: split separator cs
    else
      match split separator cs with
      | piece :: pieces => (c :: piece) :: pieces
      | [] => [[c]]

end CallThunk.Text
