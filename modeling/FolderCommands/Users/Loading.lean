import FolderCommands.Store.Basic
import FolderCommands.Users.Registry

/-!
# Loading the registry

The users document is copied from a folder of a content store and read. Whatever goes wrong on the
way is an error of the configuration.
-/

namespace FolderCommands.Registry

variable {ρ : Type}

/-- Copies the users document of a folder into a local directory. -/
def fetch (store : Store ρ) (folder : RemotePath) (localDir : String) : Action ρ String :=
  fun w ↦
    let (result, w) := store.downloadFile folder documentName localDir w
    (result.mapError fun error ↦
      .config ("cannot fetch users document: " ++ error.message), w)

/-- Loads the registry from a folder. -/
def load (store : Store ρ) (folder : RemotePath) (localDir : String) : Action ρ Registry := do
  let path ← fetch store folder localDir
  let text ← Action.look (·.readText path) fun fault ↦
    .config ("cannot read " ++ path ++ ": " ++ fault.message)
  Action.ofExcept (parse text)

end FolderCommands.Registry
