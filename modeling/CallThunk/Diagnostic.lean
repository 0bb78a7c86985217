import CallThunk.Source.Span

/-!
# Diagnostics

Everything that goes wrong in a compilation or a call is reported as a diagnostic. A list of
diagnostics only grows at its end; nothing is printed here.
-/

namespace CallThunk

open Source (Span LineTable)

/-- How serious a diagnostic is. -/
inductive Severity where
  | remark | warning | error
  deriving DecidableEq

def Severity.text : Severity → String
  | remark => "note"
  | warning => "warning"
  | error => "error"

/-- A report on wrapper source or on a call. -/
structure Diagnostic where
  severity : Severity
  message : String
  /-- The place in the wrapper source, when the problem has one. -/
  span : Option Span := none
  /-- How to mend the problem. -/
  hint : Option String := none
  deriving DecidableEq

def Diagnostic.text (d : Diagnostic) : String :=
  d.severity.text ++ ": " ++ d.message ++
    match d.hint with
    | some hint => " (hint: " ++ hint ++ ")"
    | none => ""

/-- The diagnostics of one compilation or call, in the order of their reports. -/
abbrev Diagnostics := List Diagnostic

namespace Diagnostics

/-- Reports an error without a place. -/
def addError (ds : Diagnostics) (message : String) : Diagnostics :=
  ds ++ [{ severity := .error, message }]

/-- Extends the message of the last diagnostic, if there is one. -/
def extendLast (ds : Diagnostics) (text : String) : Diagnostics :=
  match ds.getLast? with
  | some last => ds.dropLast ++ [{ last with message := last.message ++ text }]
  | none => ds

def count (ds : Diagnostics) (severity : Severity) : Nat :=
  ds.countP (·.severity = severity)

def errorCount (ds : Diagnostics) : Nat := count ds .error

def warningCount (ds : Diagnostics) : Nat := count ds .warning

/-- One diagnostic on a line of its own, led by its place when the source is known. -/
def renderLine (table : Option LineTable) (d : Diagnostic) : String :=
  match table, d.span with
  | some table, some span => (table.locate span.start).text ++ ": " ++ d.text ++ "\n"
  | _, _ => d.text ++ "\n"

/-- All diagnostics, one on a line. -/
def render (ds : Diagnostics) (source : Option String) : String :=
  String.join (ds.map (renderLine (source.map LineTable.ofSource)))

end Diagnostics

end CallThunk
