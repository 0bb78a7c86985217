import CallThunk.Toml.Scan
import CallThunk.Numeral

/-!
# Text in TOML

Text stands between double quotes, where a backslash escapes, or between single quotes, where
nothing does. Three quotes open a text over many lines: a line end right behind them does not count,
and one or two quotes may stand anywhere in it, also in front of the closing ones.
-/

namespace CallThunk.Toml.Scan

/-- Takes a code point of a number of hexadecimal digits. -/
def codePoint (digits : Nat) : Scan Char := fun cs =>
  match Numeral.value? 16 (cs.take digits) with
  | some n =>
    if digits ≤ cs.length ∧ n.isValidChar then some (Char.ofNat n, cs.drop digits) else none
  | none => none

/-- Takes what follows a backslash. -/
def escaped : Scan Char := do
  match ← charThat fun _ => true with
  | 'b' => return '\x08'
  | 't' => return '\t'
  | 'n' => return '\n'
  | 'f' => return '\x0c'
  | 'r' => return '\r'
  | '"' => return '"'
  | '\\' => return '\\'
  | 'u' => codePoint 4
  | 'U' => codePoint 8
  | _ => fail

/-- Takes text up to its closing quote, on one line. -/
def lineText (quote : Char) (escapes : Bool) : (budget : Nat) → Scan (List Char)
  | 0 => fail
  | budget + 1 => do
    let c ← charThat isText
    if c = quote then
      return []
    let c ← if escapes && c = '\\' then escaped else pure c
    return c :: (← lineText quote escapes budget)

/-- Takes a backslash, if one comes next, and what it stands for: a character, or nothing when only
blanks stand between it and the end of the line. -/
def escape? : Scan (Option (List Char)) := do
  if ← eat "\\" then
    if (← optional (do blanks; newline)).isSome then
      blankLines (← remaining)
      return some []
    return some [← escaped]
  return none

/-- Takes text up to three closing quotes, over any number of lines. -/
def linesText (quote : Char) (escapes : Bool) : (budget : Nat) → Scan (List Char)
  | 0 => fail
  | budget + 1 => do
    let quotes ← run (· = quote)
    if 6 ≤ quotes.length then
      fail
    if 3 ≤ quotes.length then
      return quotes.drop 3
    let escape ← if escapes then escape? else pure none
    let piece ← match escape with
      | some cs => pure cs
      | none =>
        if (← optional newline).isSome then pure ['\n']
        else do pure [← charThat isText]
    return quotes ++ piece ++ (← linesText quote escapes budget)

/-- Takes a text on one line. -/
def quoted : Scan String := do
  let budget ← remaining
  if ← eat "\"" then
    return String.ofList (← lineText '"' true budget)
  char '\''
  return String.ofList (← lineText '\'' false budget)

/-- Takes a text of any form. -/
def text : Scan String := do
  let budget ← remaining
  if ← eat "\"\"\"" then
    discard (optional newline)
    return String.ofList (← linesText '"' true budget)
  if ← eat "'''" then
    discard (optional newline)
    return String.ofList (← linesText '\'' false budget)
  quoted

end CallThunk.Toml.Scan
