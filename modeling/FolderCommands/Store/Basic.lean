import FolderCommands.Error
import FolderCommands.Files.Disk

/-!
# Content stores

A content store lists the files and directories directly inside a folder and copies files from
there to the local disk. Stores act on a world: the local disk and whatever is outside of it, such
as the state of a remote service.
-/

namespace FolderCommands

/-- The local disk and what is outside of it. -/
structure World (ρ : Type) where
  disk : Disk
  outside : ρ

/-- What may change the world and fail. -/
abbrev Action (ρ : Type) := ExceptT Error (StateM (World ρ))

namespace Action

variable {ρ : Type}

/-- Fails if `x` has failed. -/
def ofExcept (x : Except Error α) : Action ρ α :=
  fun w ↦ (x, w)

/-- Looks at the disk. -/
def look (f : Disk → Disk.Result α) (wrap : FileFault → Error) : Action ρ α :=
  fun w ↦ ((f w.disk).mapError wrap, w)

/-- Changes the disk, unless that fails, with a result. -/
def update (f : Disk → Disk.Result (α × Disk)) (wrap : FileFault → Error) : Action ρ α :=
  fun w ↦ match f w.disk with
    | .ok (a, disk) => (.ok a, { w with disk })
    | .error fault => (.error (wrap fault), w)

/-- Changes the disk, unless that fails. -/
def change (f : Disk → Disk.Result Disk) (wrap : FileFault → Error) : Action ρ Unit :=
  update (fun d ↦ (f d).map ((), ·)) wrap

end Action

/-- A failure of the local file system. -/
def FileFault.toError (fault : FileFault) : Error :=
  .io fault.message

/-- A failure of the local file system during an operation of a store. -/
def FileFault.during (operation : String) (path : RemotePath) (fault : FileFault) : Error :=
  .remote operation path.text fault.message

/-- A content store. -/
structure Store (ρ : Type) where
  /-- The names of the files directly inside a folder. -/
  listFiles : RemotePath → Action ρ (List String)
  /-- The names of the directories directly inside a folder. -/
  listDirectories : RemotePath → Action ρ (List String)
  /-- Copies a file of a folder into a local directory and gives its path there. -/
  downloadFile : RemotePath → String → String → Action ρ String
  /-- Copies the files directly inside a folder into a local directory. -/
  downloadDirectory : RemotePath → String → Action ρ Unit
  description : String

end FolderCommands
