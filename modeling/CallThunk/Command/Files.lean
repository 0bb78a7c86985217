import CallThunk.Numeral
import CallThunk.Text.Split

/-!
# Files

Where the command finds its configuration: a tree of files, in which a path leads from the root or,
without a leading slash, from a working directory to a file. Names may be 255 bytes long and paths
4095. An empty name and a single dot stay where they are, two dots go up, and the root is above
itself.
-/

namespace CallThunk.Command

/-- Why a path leads to no text. -/
inductive FileError where
  | missing
  | denied
  | notDirectory
  | isDirectory
  | nameTooLong
  | notText
  /-- Any other reason, in the system's words. -/
  | other (reason : String)
  deriving DecidableEq

namespace FileError

/-- A reason with the number that the system gives it. -/
def numbered (reason : String) (number : Nat) : String :=
  reason ++ " (os error " ++ Numeral.decimal number ++ ")"

def message : FileError → String
  | missing => numbered "No such file or directory" 2
  | denied => numbered "Permission denied" 13
  | notDirectory => numbered "Not a directory" 20
  | isDirectory => numbered "Is a directory" 21
  | nameTooLong => numbered "File name too long" 36
  | notText => "stream did not contain valid UTF-8"
  | other reason => reason

end FileError

/-- A file with its text, or a directory with its entries by name. -/
inductive FileTree where
  | file (content : String)
  | directory (entries : List (String × FileTree))

namespace FileTree

/-- The longest name and the longest path in bytes. -/
def longestName : Nat := 255
def longestPath : Nat := 4095

/-- Follows names from a node whose parents are given, the nearest one first. -/
def follow (node : FileTree) (parents : List FileTree) : List String → Except FileError FileTree
  | [] => .ok node
  | name :: names =>
    match node with
    | file _ => .error .notDirectory
    | directory entries =>
      if name = "" ∨ name = "." then follow node parents names
      else if name = ".." then
        match parents with
        | parent :: older => follow parent older names
        | [] => follow node [] names
      else if longestName < name.utf8ByteSize then .error .nameTooLong
      else
        match entries.lookup name with
        | some child => follow child (node :: parents) names
        | none => .error .missing

/-- The names on a path. -/
def names (path : String) : List String := (Text.split '/' path.toList).map String.ofList

/-- Reads the file that a path leads to from the root, or from a directory with a path of its own.
-/
def read (root : FileTree) (working path : String) : Except FileError String :=
  if path.isEmpty then .error .missing
  else if longestPath < path.utf8ByteSize then .error .nameTooLong
  else
    let start := if path.startsWith "/" then [] else names working
    match root.follow [] (start ++ names path) with
    | .ok (file content) => .ok content
    | .ok (directory _) => .error .isDirectory
    | .error e => .error e

end FileTree

end CallThunk.Command
