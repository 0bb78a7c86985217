/-!
# TOML documents

A document is a tree of tables. Besides its entries a table remembers what brought it into being,
because that decides how it may grow: a table of a header or of braces is complete once it has been
written, a table that only stood on the way to another one may still get a header, and a table of
dotted keys takes more dotted keys.
-/

namespace CallThunk.Toml

/-- What brought a table into being. -/
inductive Origin where
  /-- A header of its own. -/
  | header
  /-- The header of a table inside it. -/
  | implied
  /-- A dotted key. -/
  | dotted
  /-- Braces. -/
  | braces
  deriving DecidableEq

/-- A value of a document. Floats and dates are kept without their contents. -/
inductive Node where
  | string (s : String)
  | integer (z : Int)
  | float
  | boolean (b : Bool)
  | date
  | array (elements : List Node)
  | table (origin : Origin) (entries : List (String × Node))
  /-- An array of the tables under equal headers. -/
  | tables (elements : List (List (String × Node)))

/-- The entries of a table, with distinct keys, in the order of their appearance. -/
abbrev Entries := List (String × Node)

namespace Entries

/-- Replaces the entry of a key, or adds one. -/
def put (key : String) (value : Node) : Entries → Entries
  | [] => [(key, value)]
  | (k, v) :: rest => if k = key then (k, value) :: rest else (k, v) :: put key value rest

/-- Changes the last table of an array of tables. -/
def changeLast (change : Entries → Option Entries) : List Entries → Option (List Entries)
  | [] => none
  | [last] => (change last).map ([·])
  | first :: rest => (changeLast change rest).map (first :: ·)

/-- Adds a value under a dotted key. The tables on the way come from dotted keys or are new; only
the one that gets the value must not be merely implied. -/
def insert (value : Node) : (path : List String) → Entries → Option Entries
  | [], _ => none
  | [key], entries =>
    match entries.lookup key with
    | none => some (entries.put key value)
    | some _ => none
  | key :: path, entries =>
    match entries.lookup key with
    | none => do
      let inner ← insert value path []
      return entries.put key (.table .dotted inner)
    | some (.table .dotted inner) => do
      let inner ← insert value path inner
      return entries.put key (.table .dotted inner)
    | some (.table .implied inner) =>
      if path.length = 1 then none
      else do
        let inner ← insert value path inner
        return entries.put key (.table .implied inner)
    | some (.tables elements) =>
      if path.length = 1 then none
      else do
        let elements ← changeLast (insert value path) elements
        return entries.put key (.tables elements)
    | some _ => none

/-- Changes what lies under the path of a header; it may be nothing. Tables on the way that do not
exist yet are implied, and an array of tables stands for its last one. -/
def alter (change : Option Node → Option Node) : (path : List String) → Entries → Option Entries
  | [], _ => none
  | [key], entries => do
    let value ← change (entries.lookup key)
    return entries.put key value
  | key :: path, entries =>
    match entries.lookup key with
    | none => do
      let inner ← alter change path []
      return entries.put key (.table .implied inner)
    | some (.table .braces _) => none
    | some (.table origin inner) => do
      let inner ← alter change path inner
      return entries.put key (.table origin inner)
    | some (.tables elements) => do
      let elements ← changeLast (alter change path) elements
      return entries.put key (.tables elements)
    | some _ => none

end Entries

/-- The value at a table header: a new table, or one that was only implied before. -/
def openTable (fill : Entries → Option Entries) : Option Node → Option Node
  | none => (fill []).map (.table .header)
  | some (.table .implied inner) => (fill inner).map (.table .header)
  | some _ => none

/-- The value at the header of an array's element: the array with a new table at its end. -/
def openElement (fill : Entries → Option Entries) : Option Node → Option Node
  | none => (fill []).map (.tables [·])
  | some (.tables elements) => (fill []).map fun table => .tables (elements ++ [table])
  | some _ => none

end CallThunk.Toml
