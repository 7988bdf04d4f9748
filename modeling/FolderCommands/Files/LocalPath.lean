import FolderCommands.Text.Lines

/-!
# Local paths

Paths of the local file system as they are written. Joining an absolute path replaces what it is
joined to.
-/

namespace FolderCommands.LocalPath

def isAbsolute (path : String) : Bool :=
  path.toList.head? == some '/'

/-- The path `child` as seen from `base`. -/
def join (base child : String) : String :=
  if isAbsolute child || base.isEmpty then child
  else if base.toList.getLast? = some '/' then base ++ child
  else base ++ "/" ++ child

/-- The path below `base` through all of the names. -/
def joinAll (base : String) (names : List String) : String :=
  names.foldl join base

/-- The steps that the system takes along a path. A slash at the end asks for a directory, as a
step to `.` does. -/
def steps (path : String) : List String :=
  let pieces := Text.split '/' path
  let names := pieces.filter (· ≠ "")
  if pieces.getLast? = some "" && !names.isEmpty then names ++ ["."] else names

/-- The names of a path without those that stay where they are; a first `.` counts. -/
def components (path : String) : List String :=
  match Text.split '/' path with
  | "." :: rest => "." :: rest.filter fun s ↦ s ≠ "" && s ≠ "."
  | pieces => pieces.filter fun s ↦ s ≠ "" && s ≠ "."

/-- The path of some components. -/
def ofComponents (isAbsolute : Bool) (names : List String) : String :=
  (if isAbsolute then "/" else "") ++ Text.joinWith "/" names

/-- The path one component up; the root and the empty path have none. -/
def parent? (path : String) : Option String :=
  match components path with
  | [] => none
  | names => some (ofComponents (isAbsolute path) names.dropLast)

/-- The paths around a path, from the inside out, without the root and the empty path. -/
def parents (path : String) : List String :=
  let names := components path
  (List.range names.length).reverse.tail.map fun n ↦
    ofComponents (isAbsolute path) (names.take (n + 1))

end FolderCommands.LocalPath
