import FolderCommands.Run.Report
import FolderCommands.Store.Basic

/-!
# Saving reports

A report is saved under the identifier of its run, in a directory that is made if it is missing.
-/

namespace FolderCommands.Report

variable {ρ : Type}

/-- Saves a report in a directory and gives the path of the file. -/
def save (report : Report) (dir : String) : Action ρ String := do
  let path := LocalPath.join dir report.fileName
  Action.change (·.makeDirectories dir) FileFault.toError
  Action.change (·.writeFile path (Text.encode report.fileText)) FileFault.toError
  return path

end FolderCommands.Report
