import FolderCommands.Manifest.Basic
import FolderCommands.Store.Request

/-!
# Support files

The files of a folder, its manifest apart, are copied into a directory below the support
directory. They go through a directory of their own that is removed at the end.
-/

namespace FolderCommands.Support

variable {ρ : Type}

/-- Where support files go. Slashes in front of the target do not matter. -/
def destination (supportDirectory targetDirectory : String) : String :=
  LocalPath.join supportDirectory
    (String.ofList (targetDirectory.toList.dropWhile (· = '/')))

/-- What is copied of a listing: the files, except a manifest. -/
def published (entries : List (String × Entry)) : List String :=
  (entries.filter fun (name, e) ↦ name ≠ Manifest.baseName && !e.isDirectory).map (·.1)

/-- Copies files from one directory into another. -/
def copyAll (source target : String) : List String → Action ρ Unit
  | [] => pure ()
  | name :: names => do
    Action.change (·.copyFile (LocalPath.join source name) (LocalPath.join target name))
      FileFault.toError
    copyAll source target names

/-- Copies what is published of a directory into another, which is made if it is missing. -/
def publish (source target : String) : Action ρ Unit := do
  Action.change (·.makeDirectories target) FileFault.toError
  let entries ← Action.look (·.readDirectory source) FileFault.toError
  copyAll source target (published entries)

/-- Copies the support files of a folder to `target`. -/
def transfer (store : Store ρ) (scratchRoot : String) (folder : RemotePath) (target : String) :
    Inquiry ρ Unit :=
  .withScratch scratchRoot "support" fun staging ↦ do
    store.askDirectory folder staging
    Inquiry.act (publish staging target)

end FolderCommands.Support
