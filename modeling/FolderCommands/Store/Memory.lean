import FolderCommands.Store.Basic

/-!
# A store in memory

A store over a tree, in which listings keep the order of the tree. Calls on chosen paths can be
made to fail before they do anything.
-/

namespace FolderCommands

/-- A call that fails. -/
structure StoreFault where
  /-- The name of the operation. -/
  operation : String
  /-- The text of the path. -/
  path : String
  error : Error
deriving DecidableEq

namespace MemoryStore

variable {ρ : Type}

/-- Fails if the first fault for an operation on a path says so. -/
def guarded (faults : List StoreFault) (operation : String) (path : RemotePath)
    (action : Action ρ α) : Action ρ α :=
  match faults.find? fun fault ↦ fault.operation == operation && fault.path == path.text with
  | some fault => throw fault.error
  | none => action

/-- What is directly inside a folder. -/
def inside (tree : Tree) (operation : String) (dir : RemotePath) :
    Except Error (List (String × Entry)) :=
  if tree.isDirectory dir.segments then .ok (tree.children dir.segments)
  else .error (.remote operation dir.text "not found")

/-- The names of the directories, or of the files, directly inside a folder. -/
def names (tree : Tree) (directories : Bool) (dir : RemotePath) : Except Error (List String) :=
  (inside tree "list" dir).map fun entries ↦
    (entries.filter fun (_, e) ↦ e.isDirectory == directories).map (·.1)

/-- Makes a directory for a download. -/
def prepare (localDir : String) : Action ρ Unit :=
  .change (·.makeDirectories localDir) FileFault.toError

/-- Writes a file of a download. -/
def save (localDir name : String) (content : List UInt8) : Action ρ Unit :=
  .change (·.writeFile (LocalPath.join localDir name) content) FileFault.toError

/-- The content of a file of a folder. -/
def content (tree : Tree) (dir : RemotePath) (name : String) : Except Error (List UInt8) := do
  let entries ← inside tree "download" dir
  match entries.lookup name with
  | some (.file content) => .ok content
  | _ => .error (.remote "download" (dir.join name).text "not found")

end MemoryStore

open MemoryStore in
/-- The store over a tree. -/
def memoryStore {ρ : Type} (tree : Tree) (faults : List StoreFault) : Store ρ where
  listFiles dir := guarded faults "list_files" dir (.ofExcept (names tree false dir))
  listDirectories dir :=
    guarded faults "list_directories" dir (.ofExcept (names tree true dir))
  downloadFile dir name localDir := guarded faults "download_file" (dir.join name) do
    let bytes ← Action.ofExcept (content tree dir name)
    prepare localDir
    save localDir name bytes
    return LocalPath.join localDir name
  downloadDirectory dir localDir := guarded faults "download_directory" dir do
    prepare localDir
    for (name, e) in ← Action.ofExcept (inside tree "download" dir) do
      match e with
      | .file bytes => save localDir name bytes
      | .directory => pure ()
  description := "memory"

end FolderCommands
