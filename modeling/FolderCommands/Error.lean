import FolderCommands.RemotePath

/-!
# Errors

One constructor per cause. Only a failure of content work can be isolated; every other cause
ends the run.
-/

namespace FolderCommands

/-- Why an operation failed. -/
inductive Error where
  | manifestMissing (folder : String)
  | manifestInvalid (folder : String) (diagnostics : List String)
  | unknownCommandSet (name : String)
  | unknownCommand (commandSet command : String)
  | unsupportedCommand (commandSet command : String)
  | missingAttribute (command attr : String)
  | invalidFolder (folder reason : String)
  | invalidFolderType (folder folderType : String)
  | content (folder message : String)
  | remote (operation path message : String)
  | config (message : String)
  | io (message : String)
  | yaml (message : String)
  | json (message : String)
  | other (message : String)
deriving DecidableEq

namespace Error

/-- The text of an error. -/
def message : Error → String
  | manifestMissing folder => "No command manifest found in folder '" ++ folder ++ "'"
  | manifestInvalid folder diagnostics =>
    "Invalid command manifest in folder '" ++ folder ++ "': " ++ Text.joinWith "; " diagnostics
  | unknownCommandSet name => "Unknown command_set '" ++ name ++ "'"
  | unknownCommand commandSet command =>
    "Command '" ++ command ++ "' is not allowed in command_set '" ++ commandSet ++ "'"
  | unsupportedCommand commandSet command =>
    "Command '" ++ command ++ "' has no handler in command_set '" ++ commandSet ++ "'"
  | missingAttribute command attr =>
    "Command '" ++ command ++ "' requires attribute '" ++ attr ++ "'"
  | invalidFolder folder reason =>
    "Folder '" ++ folder ++ "' is not a plain child path: " ++ reason
  | invalidFolderType folder folderType =>
    "Unrecognized folder_type '" ++ folderType ++ "' for folder '" ++ folder ++ "'"
  | content folder message => "Content processing failed in '" ++ folder ++ "': " ++ message
  | remote operation path message =>
    "Remote " ++ operation ++ " failed for '" ++ path ++ "': " ++ message
  | config message => "Configuration error: " ++ message
  | io message => "IO error: " ++ message
  | yaml message => "YAML error: " ++ message
  | json message => "JSON error: " ++ message
  | other message => message

/-- Whether the failure is confined to the content of one folder. -/
def isRecoverable : Error → Bool
  | content .. => true
  | _ => false

/-- Whether the failure ends the work on everything around it. -/
def isFatal (e : Error) : Bool :=
  !e.isRecoverable

/-- A failure while materializing or transforming `folder`. -/
def inContentOf (folder : RemotePath) (message : String) : Error :=
  content folder.text message

end Error

end FolderCommands
