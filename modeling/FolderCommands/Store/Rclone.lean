import FolderCommands.Store.Basic
import FolderCommands.Text.Blank

/-!
# A store behind a tool

A store that is reached by running the tool `rclone`, which prints one name to a line and copies
files. Names of directories may carry a slash at the end.
-/

namespace FolderCommands

/-- How a run of the tool ended. -/
structure Completed where
  /-- The exit code, unless a signal ended the tool. -/
  code : Option Nat
  output : List UInt8
  errors : List UInt8
deriving DecidableEq, Repr

/-- A tool that can be run with arguments; it may change the world. -/
abbrev Tool (ρ : Type) := List String → StateM (World ρ) (Except FileFault Completed)

namespace Rclone

variable {ρ : Type}

/-- How the tool calls a folder. -/
def spec (remote : String) (path : RemotePath) : String :=
  remote ++ ":" ++ path.text

/-- The arguments that list a folder. -/
def listArguments (remote : String) (directories : Bool) (dir : RemotePath) : List String :=
  ["lsf", "--max-depth", "1", if directories then "--dirs-only" else "--files-only",
    spec remote dir]

/-- The arguments that copy from a folder. -/
def copyArguments (remote : String) (source : RemotePath) (localDir : String) : List String :=
  ["copy", "--max-depth", "1", spec remote source, localDir]

/-- The name on one line of a listing; empty on a blank line. -/
def lineName (line : List Char) : List Char :=
  Text.dropEndWhile (· = '/') (Text.trim line)

/-- The names in a listing. -/
def parseListing (output : String) : List String :=
  (((Text.lines output.toList).map lineName).filter (!·.isEmpty)).map String.ofList

/-- Starts the tool, unless an argument cannot be handed to it. -/
def start (tool : Tool ρ) (args : List String) : StateM (World ρ) (Except FileFault Completed) :=
  if args.any fun arg ↦ arg.toList.contains '\x00' then pure (.error .zeroInArgument)
  else tool args

/-- Runs the tool and gives what it has printed. -/
def run (tool : Tool ρ) (operation : String) (path : RemotePath) (args : List String) :
    Action ρ String := fun w ↦
  let fail (message : String) : Except Error String :=
    .error (.remote operation path.text message)
  match start tool args w with
  | (.error fault, w) => (fail ("failed to run rclone: " ++ fault.message), w)
  | (.ok done, w) =>
    if done.code = some 0 then (.ok (Text.decodeLossy done.output), w)
    else
      let code := match done.code with
        | some code => toString code
        | none => "-1"
      (fail ("rclone exited with " ++ code ++ ": " ++
        Text.trimmed (Text.decodeLossy done.errors)), w)

/-- Lists a folder. -/
def list (tool : Tool ρ) (remote : String) (directories : Bool) (dir : RemotePath) :
    Action ρ (List String) := do
  return parseListing (← run tool "list" dir (listArguments remote directories dir))

end Rclone

open Rclone in
/-- The store that the tool knows under a name. -/
def rcloneStore {ρ : Type} (tool : Tool ρ) (remote : String) : Store ρ where
  listFiles := list tool remote false
  listDirectories := list tool remote true
  downloadFile dir name localDir := do
    let source := dir.join name
    Action.change (·.makeDirectories localDir) FileFault.toError
    let _ ← run tool "download" source (copyArguments remote source localDir)
    let target := LocalPath.join localDir name
    if (← get).disk.holds target then return target
    else throw (.remote "download" source.text "file not found")
  downloadDirectory dir localDir := do
    Action.change (·.makeDirectories localDir) FileFault.toError
    let _ ← run tool "download" dir (copyArguments remote dir localDir)
  description := "rclone:" ++ remote

end FolderCommands
