import CallThunk.Command.Arguments
import CallThunk.Command.Builtin
import CallThunk.Command.Config
import CallThunk.Command.Files
import CallThunk.Ty.Reader
import CallThunk.Value.Printer
import CallThunk.Value.Reader
import CallThunk.Process.Debuggee
import CallThunk.Call.Caller

/-!
# Running commands

A command writes to its output and to its error stream, and may fail. A failure is reported on the
error stream behind everything else, with its cause when it has one.
-/

namespace CallThunk.Command

/-- Why a command failed. -/
structure Failure where
  message : String
  cause : Option String := none
  deriving DecidableEq

def Failure.text (failure : Failure) : String :=
  "Error: " ++ failure.message ++ "\n" ++
    match failure.cause with
    | some cause => "\nCaused by:\n    " ++ cause ++ "\n"
    | none => ""

/-- What a command has written. -/
structure Streams where
  output : String := ""
  errors : String := ""
  deriving DecidableEq

/-- What a run of the program leaves behind. -/
structure Exit where
  status : UInt32
  streams : Streams
  deriving DecidableEq

/-- A command in progress. -/
abbrev Run := ExceptT Failure (StateM Streams)

def write (text : String) : Run PUnit :=
  modify fun s => { s with output := s.output ++ text }

def warn (text : String) : Run PUnit :=
  modify fun s => { s with errors := s.errors ++ text }

def fail {α : Type} (message : String) : Run α := throw { message }

/-! ## Parts of commands -/

/-- Reads a signature for a function that is nowhere in memory. -/
def readCallee (text : String) : Run Callee :=
  match Callee.read text 0 with
  | .ok callee => return callee
  | .error e => fail e.message

/-- The data model of a named target; the host is none of them. -/
def readTarget (name : String) : Run (Option Target) :=
  match name with
  | "host" => return none
  | "32le" => return some ⟨4, .little⟩
  | "32be" => return some ⟨4, .big⟩
  | "64le" => return some ⟨8, .little⟩
  | "64be" => return some ⟨8, .big⟩
  | _ => fail ("unknown target `" ++ name ++ "`; expected host, 32le, 32be, 64le or 64be")

/-- Reads as many values as there are parameters. -/
def argumentValues (name : String) (params : List Ty) (args : List String) : Run (List Value) := do
  if args.length ≠ params.length then
    fail ("`" ++ name ++ "` takes " ++ Numeral.decimal params.length ++ " argument(s) but " ++
      Numeral.decimal args.length ++ " were given")
  (params.zip args).mapM fun (ty, text) =>
    match Value.read ty text with
    | .ok value => return value
    | .error e => throw ⟨e.message, e.cause?⟩

/-- Writes reports to the error stream. -/
def warnAll (reports : Diagnostics) (source : Option String) : Run PUnit :=
  warn (reports.render source)

/-- Compiles a caller; reports go to the error stream, and errors are a failure. -/
def compile (ctx : Context Debuggee) (caller : Caller) (world : Debuggee) :
    Run (Caller × Debuggee) := do
  let ((errors, caller), after) := (caller.compile ctx).run ⟨world, []⟩
  warnAll after.reports (some caller.source.text)
  if errors > 0 then
    fail ("wrapper for `" ++ caller.name ++ "` failed to compile with " ++ Numeral.decimal errors ++
      " error(s)")
  return (caller, after.world)

/-- A process in which nothing has happened yet. -/
def freshHost : Debuggee := { memory := .ofBase Debuggee.hostBase }

/-! ## Commands -/

def printWrapper (signature name : String) : Run PUnit := do
  let callee ← readCallee signature
  write (Caller.ofSignature name callee).source.text

def printLayout (config : Config) (signature target : String) (listing : Bool) : Run PUnit := do
  let callee ← readCallee signature
  let ctx ← match ← readTarget target with
    | none => pure (Debuggee.host (.native config.codegen))
    | some target => do
      if listing then
        fail "--ir needs the host target"
      pure (Debuggee.sparse target .layoutOnly)
  let (caller, _) ← compile ctx (Caller.ofSignature "f" callee) freshHost
  match caller.ready? with
  | none => fail "compiled caller has no layout"
  | some ready =>
    write ("target " ++ ctx.target.text ++ "\n")
    write ready.layout.text
    if listing then
      write ("\n" ++ ready.compiled.listing)

def runBuiltin (config : Config) (name : String) (args : List String) (options : RunOptions) :
    Run PUnit := do
  match Builtin.find? name with
  | none => fail ("unknown builtin `" ++ name ++ "` (see `fncall builtins`)")
  | some builtin =>
    let callee := builtin.function.callee
    let values ← argumentValues name callee.signature.params args
    let ctx := Debuggee.host (.native config.codegen)
    let (caller, world) ← compile ctx (Caller.ofValues name callee values) freshHost
    let ((result, _), after) := (caller.call ctx options).run ⟨world, []⟩
    warnAll after.reports none
    match result with
    | .ok value => write (value.text ++ "\n")
    | .error e => fail e.message

/-- Runs a task. -/
def Task.run (config : Config) : Task → Run PUnit
  | .wrapper signature name => printWrapper signature name
  | .layout signature target listing => printLayout config signature target listing
  | .call name args ignoreBreakpoints timeoutMs =>
    runBuiltin config name args
      { config.call with
        ignoreBreakpoints := config.call.ignoreBreakpoints || ignoreBreakpoints
        timeoutMs := timeoutMs.or config.call.timeoutMs }
  | .builtins => write Builtin.table

/-! ## The program -/

/-- Where a configuration comes from. -/
inductive ConfigSource where
  /-- No configuration was named. -/
  | standard
  | text (content : String)
  | unreadable (path : String) (error : FileError)
  deriving DecidableEq

/-- What is found at a path, if one was named. -/
def ConfigSource.find (read : String → Except FileError String) : Option String → ConfigSource
  | none => standard
  | some path =>
    match read path with
    | .ok content => text content
    | .error e => unreadable path e

/-- Reads the configuration. -/
def ConfigSource.load : ConfigSource → Run Config
  | standard => return {}
  | text content =>
    match Config.read content with
    | some config => return config
    | none => fail "failed to parse configuration"
  | unreadable path e =>
    throw ⟨"failed to read " ++ path ++ ": " ++ e.message, some e.message⟩

/-- Runs an invocation with its configuration, which is read before anything else. -/
def Invocation.run (invocation : Invocation) (source : ConfigSource) : Exit :=
  let run : Run PUnit := do
    let config ← source.load
    invocation.task.run config
  match run.run.run {} with
  | (.ok _, streams) => ⟨0, streams⟩
  | (.error failure, streams) => ⟨1, { streams with errors := streams.errors ++ failure.text }⟩

def versionText : String := "fncall 0.3.0\n"

def helpText : String :=
  "Call functions through synthesized wrappers\n\n" ++
  "Usage: fncall [OPTIONS] <COMMAND>\n\n" ++
  "Commands:\n" ++
  "  wrapper <SIGNATURE> [--name <NAME>]\n" ++
  "  layout <SIGNATURE> [--target <TARGET>] [--ir]\n" ++
  "  call <BUILTIN> [ARGS]... [--ignore-breakpoints] [--timeout-ms <TIMEOUT_MS>]\n" ++
  "  builtins\n\n" ++
  "Options:\n" ++
  "  -v, --verbose...       Log more\n" ++
  "      --config <CONFIG>  Configuration file\n" ++
  "  -h, --help             Print help\n" ++
  "  -V, --version          Print version\n"

/-- What is left behind when there is nothing to run. -/
def Detour.exit : Detour → Exit
  | version => ⟨0, { output := versionText }⟩
  | help => ⟨0, { output := helpText }⟩
  | usage error => ⟨2, { errors := "error: " ++ error.message ++ "\n" }⟩

end CallThunk.Command
