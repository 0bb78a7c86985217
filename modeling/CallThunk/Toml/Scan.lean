/-!
# Scanning TOML

A scanner takes a prefix of the characters that are left, or fails. Blanks are spaces and tabs, a
line ends with a line feed that may follow a carriage return, and control characters appear nowhere
else.
-/

namespace CallThunk.Toml

/-- Scanners of TOML text. -/
abbrev Scan := StateT (List Char) Option

namespace Scan

def fail {α : Type} : Scan α := fun _ => none

/-- The next character, if there is one; it is left in place. -/
def peek : Scan (Option Char) := fun cs => some (cs.head?, cs)

/-- Takes a character that satisfies a condition. -/
def charThat (p : Char → Bool) : Scan Char := fun cs =>
  match cs with
  | c :: rest => if p c then some (c, rest) else none
  | [] => none

/-- Takes one given character. -/
def char (c : Char) : Scan PUnit := discard (charThat (· = c))

/-- Takes a given text. -/
def word (text : String) : Scan PUnit := text.toList.forM char

/-- Takes the longest run of characters that satisfy a condition. -/
def run (p : Char → Bool) : Scan (List Char) := fun cs => some (cs.takeWhile p, cs.dropWhile p)

/-- Takes a given text if it comes next. -/
def eat (text : String) : Scan Bool := fun cs =>
  if text.toList.isPrefixOf cs then some (true, cs.drop text.length) else some (false, cs)

/-- Tries a scanner, and takes nothing if it fails. -/
def optional {α : Type} (scan : Scan α) : Scan (Option α) := fun cs =>
  match scan cs with
  | some (a, rest) => some (some a, rest)
  | none => some (none, cs)

/-! ## Lines -/

def isBlank (c : Char) : Bool := c = ' ' || c = '\t'

/-- Whether a character is no control character, tabs aside. -/
def isText (c : Char) : Bool := c = '\t' || (0x20 ≤ c.toNat && c.toNat ≠ 0x7f)

def blanks : Scan PUnit := discard (run isBlank)

/-- Takes the end of a line. -/
def newline : Scan PUnit := do
  let _ ← eat "\r"
  char '\n'

/-- Takes a comment, if one comes next, up to the end of its line. -/
def comment : Scan PUnit := do
  if ← eat "#" then
    discard (run isText)

/-- Takes the rest of a line that holds nothing but blanks and a comment. -/
def lineEnd : Scan PUnit := do
  blanks
  comment
  if (← peek).isSome then
    newline

/-- Takes blanks and line ends. -/
def blankLines : (budget : Nat) → Scan PUnit
  | 0 => return ()
  | budget + 1 => do
    blanks
    if (← optional newline).isSome then
      blankLines budget

/-- Takes blanks, line ends and comments. A comment ends with its line. -/
def layout : (budget : Nat) → Scan PUnit
  | 0 => return ()
  | budget + 1 => do
    blanks
    if (← peek) = some '#' then
      comment
      newline
      layout budget
    else if (← optional newline).isSome then
      layout budget

/-- The number of characters that are left. It bounds how often any part can repeat. -/
def remaining : Scan Nat := fun cs => some (cs.length, cs)

end Scan

end CallThunk.Toml
