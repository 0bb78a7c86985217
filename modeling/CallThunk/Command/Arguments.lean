import CallThunk.Numeral.Integer

/-!
# Command lines

A command line is read from left to right, at two levels: options up to the name of a command, then
the options and operands of that command. The first word that cannot be used decides the error, and
a request for help or for the version ends the reading where it stands. A word that starts with a
minus sign is an option, unless it is a lone `-` or stands behind `--`.
-/

namespace CallThunk.Command

/-- Why a command line cannot be used. -/
inductive UsageError where
  | unknownOption (text : String)
  | missingValue (option : String)
  | unexpectedValue (option : String)
  | invalidValue (option value : String)
  | repeatedOption (option : String)
  | unexpectedOperand (text : String)
  | missingOperand (name : String)
  | unknownCommand (name : String)
  | missingCommand
  deriving DecidableEq

def UsageError.message : UsageError → String
  | unknownOption text => "unexpected argument '" ++ text ++ "' found"
  | missingValue option => "a value is required for '--" ++ option ++ "' but none was supplied"
  | unexpectedValue option => "the option '--" ++ option ++ "' takes no value"
  | invalidValue option value => "invalid value '" ++ value ++ "' for '--" ++ option ++ "'"
  | repeatedOption option => "the option '--" ++ option ++ "' cannot be used multiple times"
  | unexpectedOperand text => "unexpected argument '" ++ text ++ "' found"
  | missingOperand name => "the required argument <" ++ name ++ "> was not provided"
  | unknownCommand name => "unrecognized subcommand '" ++ name ++ "'"
  | missingCommand => "a subcommand is required"

/-- Why there is nothing to run. -/
inductive Detour where
  | version
  | help
  | usage (error : UsageError)
  deriving DecidableEq

/-! ## Words -/

/-- The role of a word. -/
inductive Word where
  /-- Everything behind it is an operand. -/
  | separator
  /-- An option by its name, with the text behind the equals sign. -/
  | long (name : String) (value : Option String)
  /-- Options by their letters. -/
  | short (letters : List Char)
  | operand (text : String)
  deriving DecidableEq

def Word.ofString (text : String) : Word :=
  match text.toList with
  | ['-', '-'] => .separator
  | '-' :: '-' :: cs =>
    let value := match cs.dropWhile (· ≠ '=') with
      | _ :: value => some (String.ofList value)
      | [] => none
    .long (String.ofList (cs.takeWhile (· ≠ '='))) value
  | '-' :: c :: cs => .short (c :: cs)
  | _ => .operand text

/-! ## Options -/

/-- What an option does. -/
inductive OptionKind where
  /-- It is there or not. -/
  | flag
  /-- It may be there any number of times. -/
  | counter
  /-- It takes a value that satisfies a condition. -/
  | value (accepts : String → Bool)
  | detour (d : Detour)

/-- An option of a level. -/
structure OptionSpec where
  name : String
  kind : OptionKind
  letter : Option Char := none

/-- A level of a command line. -/
structure Level where
  options : List OptionSpec
  /-- The commands that end the level, if operands are commands. -/
  commands : List String := []
  /-- How many operands there may be; none stands for any number. -/
  mostOperands : Option Nat := some 0

/-- What a level holds. -/
structure Found where
  flags : List String := []
  values : List (String × String) := []
  operands : List String := []

/-- A step of reading. -/
abbrev Reading := Except Detour

def misuse {α : Type} (error : UsageError) : Reading α := .error (.usage error)

namespace Found

/-- Takes an option without a value. -/
def addFlag (found : Found) (option : OptionSpec) : Reading Found :=
  match option.kind with
  | .flag =>
    if option.name ∈ found.flags then misuse (.repeatedOption option.name)
    else .ok { found with flags := option.name :: found.flags }
  | .counter => .ok found
  | .value _ => misuse (.missingValue option.name)
  | .detour d => .error d

/-- Takes an option with its value. -/
def addValue (found : Found) (option : OptionSpec) (value : String) : Reading Found :=
  match option.kind with
  | .value accepts =>
    if (found.values.lookup option.name).isSome then misuse (.repeatedOption option.name)
    else if accepts value then .ok { found with values := (option.name, value) :: found.values }
    else misuse (.invalidValue option.name value)
  | _ => misuse (.unexpectedValue option.name)

/-- Takes letters of options, one after another. -/
def addLetters (level : Level) (found : Found) (letters : List Char) : Reading Found :=
  letters.foldlM (fun found letter =>
    match level.options.find? (·.letter = some letter) with
    | some option => found.addFlag option
    | none => misuse (.unknownOption ("-" ++ letter.toString))) found

/-- Takes an operand. -/
def addOperand (level : Level) (found : Found) (text : String) : Reading Found :=
  if level.mostOperands.all (found.operands.length < ·) then
    .ok { found with operands := found.operands ++ [text] }
  else misuse (.unexpectedOperand text)

/-- Whether an option waits for the next word. -/
def waits (option : OptionSpec) : Bool :=
  match option.kind with
  | .value _ => true
  | _ => false

/-- Takes the words of a level; gives the words from the name of a command on. -/
def take (level : Level) : Found → List String → Reading (Found × List String)
  | found, [] => .ok (found, [])
  | found, word :: words =>
    match Word.ofString word with
    | .separator => do
      let found ← words.foldlM (addOperand level) found
      return (found, [])
    | .short letters => do
      let found ← found.addLetters level letters
      take level found words
    | .operand text =>
      if !level.commands.isEmpty then .ok (found, word :: words)
      else do
        let found ← found.addOperand level text
        take level found words
    | .long name value => do
      match level.options.find? (·.name = name), value with
      | none, _ => misuse (.unknownOption word)
      | some option, some value =>
        let found ← found.addValue option value
        take level found words
      | some option, none =>
        if waits option then
          match words with
          | next :: words =>
            match Word.ofString next with
            | .operand value =>
              let found ← found.addValue option value
              take level found words
            | _ => misuse (.missingValue option.name)
          | [] => misuse (.missingValue option.name)
        else
          let found ← found.addFlag option
          take level found words

end Found

/-! ## Commands -/

/-- What a command line asks for. -/
inductive Task where
  /-- Print the wrapper of a signature. -/
  | wrapper (signature name : String)
  /-- Print the layout of a signature's struct on a target, perhaps with the code. -/
  | layout (signature target : String) (listing : Bool)
  /-- Call a builtin function. -/
  | call (builtin : String) (args : List String) (ignoreBreakpoints : Bool)
      (timeoutMs : Option UInt64)
  /-- Print the builtin functions. -/
  | builtins
  deriving DecidableEq

/-- A usable command line. -/
structure Invocation where
  /-- The path of a configuration. -/
  config : Option String
  task : Task
  deriving DecidableEq

/-- Reads a number of milliseconds. -/
def milliseconds? (text : String) : Option UInt64 :=
  match (Numeral.Range.unsigned 64).read 10 text.toList with
  | .ok z => some (UInt64.ofNat z.toNat)
  | .error _ => none

/-- The options of every level. Logs can be asked for, but nothing writes any. -/
def sharedOptions : List OptionSpec :=
  [⟨"verbose", .counter, some 'v'⟩, ⟨"config", .value (!·.isEmpty), none⟩,
    ⟨"help", .detour .help, some 'h'⟩]

def commandNames : List String := ["wrapper", "layout", "call", "builtins"]

def rootLevel : Level where
  options := ⟨"version", .detour .version, some 'V'⟩ :: sharedOptions
  commands := commandNames

/-- The level of a command. -/
def levelOf (command : String) : Level :=
  let (options, mostOperands) : List OptionSpec × Option Nat := match command with
    | "wrapper" => ([⟨"name", .value fun _ => true, none⟩], some 1)
    | "layout" => ([⟨"target", .value fun _ => true, none⟩, ⟨"ir", .flag, none⟩], some 1)
    | "call" =>
      ([⟨"ignore-breakpoints", .flag, none⟩,
        ⟨"timeout-ms", .value (milliseconds? · |>.isSome), none⟩],
        none)
    | _ => ([], some 0)
  { options := options ++ sharedOptions, mostOperands }

/-- The task of a command with its options and operands. -/
def Task.ofFound (command : String) (found : Found) : Reading Task :=
  match command, found.operands with
  | "wrapper", [signature] => .ok (.wrapper signature ((found.values.lookup "name").getD "f"))
  | "layout", [signature] =>
    .ok (.layout signature ((found.values.lookup "target").getD "host") ("ir" ∈ found.flags))
  | "call", builtin :: args =>
    .ok (.call builtin args ("ignore-breakpoints" ∈ found.flags)
      ((found.values.lookup "timeout-ms").bind milliseconds?))
  | "call", [] => misuse (.missingOperand "BUILTIN")
  | "builtins", _ => .ok .builtins
  | _, _ => misuse (.missingOperand "SIGNATURE")

/-- Reads a command line. A configuration named behind the command wins over one in front of it. -/
def Invocation.read (words : List String) : Reading Invocation := do
  let (root, behind) ← Found.take rootLevel {} words
  match behind with
  | [] => misuse .missingCommand
  | "help" :: rest =>
    match rest with
    | [] => throw .help
    | name :: more =>
      if (name ∈ "help" :: commandNames) ∧ more = [] then throw .help
      else misuse (.unknownCommand name)
  | command :: words =>
    if command ∉ commandNames then
      misuse (.unknownCommand command)
    let (found, _) ← Found.take (levelOf command) {} words
    let task ← Task.ofFound command found
    return ⟨(found.values.lookup "config").or (root.values.lookup "config"), task⟩

end CallThunk.Command
