import FolderCommands.Files.LocalPath
import FolderCommands.Files.Tree
import FolderCommands.Text.Blank
import FolderCommands.Text.Utf8

/-!
# The local file system

A tree of files with a working directory, and the operations of the system on it. A path is
followed step by step; every step but the last must lead to a directory.
-/

namespace FolderCommands

/-- Why the system refuses an operation. -/
inductive FileFault where
  | notFound
  | permissionDenied
  | alreadyExists
  | notDirectory
  | isDirectory
  | nameTooLong
  | zeroInName
  | zeroInArgument
  | notRegular
  | notText
deriving DecidableEq, Repr

namespace FileFault

/-- The text of a fault. -/
def message : FileFault → String
  | notFound => "No such file or directory (os error 2)"
  | permissionDenied => "Permission denied (os error 13)"
  | alreadyExists => "File exists (os error 17)"
  | notDirectory => "Not a directory (os error 20)"
  | isDirectory => "Is a directory (os error 21)"
  | nameTooLong => "File name too long (os error 36)"
  | zeroInName => "file name contained an unexpected NUL byte"
  | zeroInArgument => "nul byte found in provided data"
  | notRegular => "the source path is neither a regular file nor a symlink to a regular file"
  | notText => "stream did not contain valid UTF-8"

end FileFault

/-- A directory for files that are needed for a while. -/
structure Scratch where
  path : String
  location : Location
deriving DecidableEq, Repr

/-- A file system. -/
structure Disk where
  tree : Tree := {}
  workingDirectory : Location := []
deriving DecidableEq, Repr

namespace Disk

abbrev Result := Except FileFault

/-- Passes if there is a directory at a location. -/
def requireDirectory (d : Disk) (loc : Location) : Result Unit :=
  match d.tree.get? loc with
  | none => .error .notFound
  | some .directory => .ok ()
  | some (.file _) => .error .notDirectory

/-- Where steps from a location lead; nothing need be there yet. -/
def follow (d : Disk) : Location → List String → Result Location
  | loc, [] => .ok loc
  | loc, name :: rest => do
    d.requireDirectory loc
    if name = "." then follow d loc rest
    else if name = ".." then follow d loc.dropLast rest
    else if 255 < Text.byteLength name.toList then .error .nameTooLong
    else follow d (loc ++ [name]) rest

/-- Where a path leads. -/
def resolve (d : Disk) (path : String) : Result Location :=
  if path.toList.contains '\x00' then .error .zeroInName
  else if path.isEmpty then .error .notFound
  else d.follow (if LocalPath.isAbsolute path then [] else d.workingDirectory)
    (LocalPath.steps path)

/-- What is at a path. -/
def entry (d : Disk) (path : String) : Result (Location × Entry) := do
  let loc ← d.resolve path
  match d.tree.get? loc with
  | some e => .ok (loc, e)
  | none => .error .notFound

/-- Whether there is anything at a path. -/
def holds (d : Disk) (path : String) : Bool :=
  (d.entry path).toOption.isSome

/-- Whether there is a directory at a path. -/
def isDirectory (d : Disk) (path : String) : Bool :=
  (d.entry path).toOption.any (·.2.isDirectory)

/-- What is directly inside a directory. -/
def readDirectory (d : Disk) (path : String) : Result (List (String × Entry)) := do
  match ← d.entry path with
  | (loc, .directory) => .ok (d.tree.children loc)
  | (_, .file _) => .error .notDirectory

/-- The content of a file. -/
def readFile (d : Disk) (path : String) : Result (List UInt8) := do
  match ← d.entry path with
  | (_, .file content) => .ok content
  | (_, .directory) => .error .isDirectory

/-- The content of a file as text. -/
def readText (d : Disk) (path : String) : Result String := do
  match Text.decode? (← d.readFile path) with
  | some text => .ok text
  | none => .error .notText

/-- Puts a file at a path, or replaces one. -/
def writeFile (d : Disk) (path : String) (content : List UInt8) : Result Disk := do
  let loc ← d.resolve path
  if d.tree.isDirectory loc then .error .isDirectory
  else .ok { d with tree := d.tree.put loc (.file content) }

/-- Makes a directory; a slash at the end of the path does not matter. -/
def makeDirectory (d : Disk) (path : String) : Result Disk := do
  let bare := String.ofList (Text.dropEndWhile (· = '/') path.toList)
  let loc ← d.resolve (if bare.isEmpty then path else bare)
  match d.tree.get? loc with
  | some _ => .error .alreadyExists
  | none =>
    d.requireDirectory loc.dropLast
    .ok { d with tree := d.tree.put loc .directory }

/-- Makes a directory unless it is there. -/
def ensureDirectory (d : Disk) (path : String) : Result Disk :=
  match d.makeDirectory path with
  | .ok d => .ok d
  | .error fault => if fault = .alreadyExists && d.isDirectory path then .ok d else .error fault

/-- Makes the first of some directories that can be made; the paths go outwards. The result tells
which were passed over because a directory around them is missing, outermost first. -/
def makeOutermost (d : Disk) : List String → List String → Result (Disk × List String)
  | [], missing => .ok (d, missing)
  | path :: rest, missing =>
    match d.ensureDirectory path with
    | .ok d => .ok (d, missing)
    | .error .notFound => makeOutermost d rest (path :: missing)
    | .error fault => .error fault

/-- Makes a directory and the directories around it that are missing. -/
def makeDirectories (d : Disk) (path : String) : Result Disk := do
  if (LocalPath.parent? path).isNone then .ok d
  else
    let (d, missing) ← d.makeOutermost (path :: LocalPath.parents path) []
    missing.foldlM ensureDirectory d

/-- Copies a file to a path. -/
def copyFile (d : Disk) (source target : String) : Result Disk := do
  match ← d.entry source with
  | (_, .file content) => d.writeFile target content
  | (_, .directory) => .error .notRegular

/-- Removes what is at a location and everything below it. -/
def removeAt (d : Disk) (loc : Location) : Disk :=
  { d with tree := d.tree.remove loc }

/-- A name with that start that nothing inside a location has. -/
def freshName (d : Disk) (loc : Location) (start : String) : String :=
  let taken := (d.tree.children loc).map (·.1)
  let candidates := (List.range (taken.length + 1)).map fun n ↦ start ++ toString n
  (candidates.find? fun name ↦ !taken.contains name).getD start

/-- Removes everything inside a directory. -/
def clearDirectory (d : Disk) (path : String) : Result Disk := do
  match ← d.entry path with
  | (loc, .directory) =>
    .ok ((d.tree.children loc).foldl (fun d child ↦ d.removeAt (loc ++ [child.1])) d)
  | (_, .file _) => .error .notDirectory

/-- The path by which the working directory does not matter. -/
def absolute (d : Disk) (path : String) : String :=
  if LocalPath.isAbsolute path then path
  else LocalPath.join (LocalPath.ofComponents (d.workingDirectory ≠ []) d.workingDirectory) path

/-- Makes a directory of a fresh name inside another. -/
def makeScratch (d : Disk) (inside start : String) : Result (Scratch × Disk) := do
  match ← d.entry (if inside.isEmpty then "." else inside) with
  | (loc, .directory) =>
    let name := d.freshName loc start
    .ok (⟨LocalPath.join (d.absolute inside) name, loc ++ [name]⟩,
      { d with tree := d.tree.put (loc ++ [name]) .directory })
  | (_, .file _) => .error .notDirectory

end Disk

end FolderCommands
