import FolderCommands.Config
import FolderCommands.Store.Basic

/-!
# Loading a configuration

A configuration that cannot be read is an error of the configuration, not of the file system.
-/

namespace FolderCommands.Config

variable {ρ : Type}

/-- Loads a configuration from a file. -/
def load (path : String) : Action ρ Config := do
  let text ← Action.look (·.readText path) fun fault ↦
    .config ("cannot read " ++ path ++ ": " ++ fault.message)
  Action.ofExcept (parse text)

end FolderCommands.Config
