import FolderCommands.Run.Request
import FolderCommands.Store.Basic

/-!
# Content work

The work that a run leaves to a delegate: stories are built, page files moved and pages updated
elsewhere.
-/

namespace FolderCommands

/-- A piece of content work. -/
inductive Work where
  | story (request : ContentRequest)
  | moveFiles (folder : RemotePath) (targetDirectory : String)
  | page (folder : RemotePath) (file : String)
deriving DecidableEq

/-- The folder that the work is about. -/
def Work.folder : Work → RemotePath
  | story request => request.folder
  | moveFiles folder _ | page folder _ => folder

/-- Does content work. -/
abbrev Delegate (ρ : Type) := Work → Action ρ Unit

/-- The delegate that takes every piece of work and does nothing. -/
def Delegate.idle {ρ : Type} : Delegate ρ :=
  fun _ ↦ pure ()

end FolderCommands
