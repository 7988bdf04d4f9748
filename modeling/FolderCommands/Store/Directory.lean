import FolderCommands.Store.Basic

/-!
# A store in a local directory

Folders are the directories below a root, and listings are in the order of the names.
-/

namespace FolderCommands

namespace DirectoryStore

variable {ρ : Type}

/-- The local path of a folder. -/
def place (root : String) (dir : RemotePath) : String :=
  LocalPath.joinAll root dir.segments

/-- The names of the directories, or of the files, directly inside a folder, in order. -/
def names (root : String) (directories : Bool) (dir : RemotePath) (d : Disk) :
    Disk.Result (List String) :=
  (d.readDirectory (place root dir)).map fun entries ↦
    ((entries.filter fun (_, e) ↦ e.isDirectory == directories).map (·.1)).mergeSort
      fun a b ↦ a ≤ b

/-- Copies files of a folder one after the other. -/
def copyAll (root : String) (dir : RemotePath) (localDir : String) : List String → Action ρ Unit
  | [] => pure ()
  | name :: rest => do
    Action.change
      (·.copyFile (LocalPath.join (place root dir) name) (LocalPath.join localDir name))
      (FileFault.during "download" (dir.join name))
    copyAll root dir localDir rest

end DirectoryStore

open DirectoryStore in
/-- The store below a local directory. -/
def directoryStore {ρ : Type} (root : String) : Store ρ where
  listFiles dir := .look (names root false dir) (FileFault.during "list" dir)
  listDirectories dir := .look (names root true dir) (FileFault.during "list" dir)
  downloadFile dir name localDir := do
    Action.change (·.makeDirectories localDir) FileFault.toError
    let target := LocalPath.join localDir name
    Action.change (·.copyFile (LocalPath.join (place root dir) name) target)
      (FileFault.during "download" (dir.join name))
    return target
  downloadDirectory dir localDir := do
    Action.change (·.makeDirectories localDir) FileFault.toError
    copyAll root dir localDir
      (← Action.look (names root false dir) (FileFault.during "list" dir))
  description := "local:" ++ root

end FolderCommands
