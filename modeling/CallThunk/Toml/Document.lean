import CallThunk.Toml.Text
import CallThunk.Toml.Number
import CallThunk.Toml.Date

/-!
# Reading TOML documents

A document starts with the entries of its root and goes on with sections, each behind a header.
Every entry of a section goes into the table of its header. Values nest less than 80 deep, and keys
have less than 80 parts.
-/

namespace CallThunk.Toml

namespace Scan

/-- The nesting and the number of parts that are too much. -/
def depthLimit : Nat := 80

def isKeyChar (c : Char) : Bool := c.isAlphanum || c = '-' || c = '_'

/-- Takes one part of a key. -/
def simpleKey : Scan String := do
  let c ← peek
  if c = some '"' ∨ c = some '\'' then
    quoted
  else
    let cs ← run isKeyChar
    if cs.isEmpty then fail else return String.ofList cs

/-- Takes the parts of a key, with points between them. -/
def keyParts : (budget : Nat) → Scan (List String)
  | 0 => fail
  | budget + 1 => do
    blanks
    let part ← simpleKey
    blanks
    if ← eat "." then
      return part :: (← keyParts budget)
    return [part]

/-- Takes a key. -/
def key : Scan (List String) := keyParts (depthLimit - 1)

/-- Takes a key with its value. -/
def entry (value : Scan Node) : Scan (List String × Node) := do
  let path ← key
  char '='
  blanks
  return (path, ← value)

/-- Takes the elements of an array, behind its opening bracket. A comma may follow the last one. -/
def elements (value : Scan Node) : (budget : Nat) → Scan (List Node)
  | 0 => fail
  | budget + 1 => do
    layout (← remaining)
    if ← eat "]" then
      return []
    let v ← value
    layout (← remaining)
    if ← eat "," then
      return v :: (← elements value budget)
    char ']'
    return [v]

/-- Takes entries between braces, all on one line, with nothing behind the last one. -/
def entriesInBraces (value : Scan Node) (entries : Entries) : (budget : Nat) → Scan Entries
  | 0 => fail
  | budget + 1 => do
    let (path, v) ← entry value
    blanks
    match entries.insert v path with
    | none => fail
    | some entries =>
      if ← eat "," then
        entriesInBraces value entries budget
      else
        char '\x7d'
        return entries

/-- Takes a table in braces, behind the opening one. -/
def braces (value : Scan Node) : Scan Node := do
  blanks
  if ← eat "\x7d" then
    return .table .braces []
  return .table .braces (← entriesInBraces value [] (← remaining))

/-- Takes a value that holds no others. -/
def scalar : Scan Node := do
  match ← peek with
  | some '"' | some '\'' => return .string (← text)
  | some 't' => do
    word "true"
    return .boolean true
  | some 'f' => do
    word "false"
    return .boolean false
  | _ =>
    if (← optional date).isSome then return .date
    else number

/-- Takes a value; arrays and tables in braces nest at most as deep as given. -/
def value : (depth : Nat) → Scan Node
  | 0 => scalar
  | depth + 1 => do
    if ← eat "[" then
      return .array (← elements (value depth) (← remaining))
    else if ← eat "\x7b" then
      braces (value depth)
    else
      scalar

/-! ## Sections -/

/-- Takes entries, one on a line, up to a header or the end. -/
def entryLines : (budget : Nat) → Scan (List (List String × Node))
  | 0 => return []
  | budget + 1 => do
    blanks
    match ← peek with
    | none | some '[' => return []
    | some '#' | some '\n' | some '\r' => do
      lineEnd
      entryLines budget
    | some _ => do
      let pair ← entry (value (depthLimit - 1))
      lineEnd
      return pair :: (← entryLines budget)

end Scan

/-- A header with the entries behind it. -/
structure Section where
  /-- Whether the header adds a table to an array. -/
  isElement : Bool
  path : List String
  entries : List (List String × Node)

namespace Scan

/-- Takes a header and its entries. -/
def sectionLines (budget : Nat) : Scan Section := do
  let isElement ← eat "[["
  if !isElement then
    char '['
  let path ← key
  word (if isElement then "]]" else "]")
  lineEnd
  return ⟨isElement, path, ← entryLines budget⟩

/-- Takes sections up to the end. -/
def sections (lines : Nat) : (budget : Nat) → Scan (List Section)
  | 0 => fail
  | budget + 1 => do
    if (← peek).isNone then
      return []
    let first ← sectionLines lines
    return first :: (← sections lines budget)

end Scan

/-- Adds entries to a table in order. -/
def Entries.insertAll (pairs : List (List String × Node)) (entries : Entries) : Option Entries :=
  pairs.foldlM (fun entries (path, value) => entries.insert value path) entries

/-- Adds a section to the root. -/
def Section.addTo (root : Entries) (s : Section) : Option Entries :=
  let fill : Entries → Option Entries := Entries.insertAll s.entries
  root.alter (if s.isElement then openElement fill else openTable fill) s.path

/-- The root table of a document. A byte order mark in front does not count. -/
def read (document : String) : Option Entries := do
  let cs := match document.toList with
    | '\ufeff' :: cs => cs
    | cs => cs
  let budget := cs.length + 1
  let (head, rest) ← Scan.entryLines budget cs
  let (sections, _) ← Scan.sections budget budget rest
  let root ← Entries.insertAll head []
  sections.foldlM Section.addTo root

end CallThunk.Toml
