import FolderCommands.Error
import FolderCommands.Manifest.Record

/-!
# Commands

A record becomes a command of the kind that its handler asks for. Folders are below the current
folder: a segment that would leave it is refused when the command is built.
-/

namespace FolderCommands

/-- How a child folder is processed. -/
inductive FolderType where
  | siteContent
  | story
deriving DecidableEq, Repr

namespace FolderType

/-- The folder type that a text names; otherwise the folded text. -/
def ofText (text : String) : Except String FolderType :=
  let folded := foldedName text
  if folded = "site_content" ∨ folded = "site-content" then .ok siteContent
  else if folded = "story" then .ok story
  else .error folded

/-- The name of a folder type in data. -/
def name : FolderType → String
  | siteContent => "site_content"
  | story => "story"

/-- The name of a folder type in messages. -/
def title : FolderType → String
  | siteContent => "SiteContent"
  | story => "Story"

end FolderType

/-- A command that can be run. -/
inductive Command where
  | identity (person : Option String) (sendLog : Bool)
  | changeFolder (folder : String)
  | singleFolder (folder : String) (folderType : FolderType)
  | all
  | processStory
  | moveFiles (targetDirectory : String)
  | moveSupportFiles (targetDirectory : String)
  | updatePages
deriving DecidableEq, Repr

namespace Command

/-- The value of an attribute that must not be blank. -/
def required (record : CommandRecord) (command attr : String) : Except Error String :=
  match record.text? attr with
  | some value =>
    if Text.allBlank value then .error (.missingAttribute command attr) else .ok value
  | none => .error (.missingAttribute command attr)

/-- The first part of a folder that would leave the current folder. -/
def leavingPart? (folder : String) : Option String :=
  ((Text.split '/' folder).map Text.trimmed).find? fun part ↦ part == "." || part == ".."

/-- The value of the attribute `folder`, which names something below the current folder. -/
def childFolder (record : CommandRecord) (command : String) : Except Error String := do
  let folder ← required record command "folder"
  match leavingPart? folder with
  | some part => .error (.invalidFolder folder ("'" ++ part ++ "' segments are not allowed"))
  | none => .ok folder

/-- The command that a record asks for when run by a handler. -/
def ofRecord (handler : Handler) (record : CommandRecord) : Except Error Command :=
  let command := record.command?.getD ""
  match handler with
  | .identity =>
    .ok (.identity ((record.text? "person").filter (!Text.allBlank ·))
      ((record.flag? "send_log").getD false))
  | .changeFolder => (childFolder record command).map .changeFolder
  | .singleFolder => do
    let folder ← childFolder record command
    let folderType ← required record command "folder_type"
    match FolderType.ofText folderType with
    | .ok folderType => .ok (.singleFolder folder folderType)
    | .error folded => .error (.invalidFolderType folder folded)
  | .all => .ok .all
  | .processStory => .ok .processStory
  | .moveFiles => (required record command "target_directory").map .moveFiles
  | .moveSupportFiles => (required record command "target_directory").map .moveSupportFiles
  | .updatePages => .ok .updatePages

/-- The name of a command in manifests. -/
def name : Command → String
  | identity .. => "identity"
  | changeFolder _ => "change_folder"
  | singleFolder .. => "process_single_folder"
  | all => "all"
  | processStory => "story"
  | moveFiles _ | moveSupportFiles _ => "move_files"
  | updatePages => "process_pages"

/-- What runs a command. -/
def handler : Command → Handler
  | identity .. => .identity
  | changeFolder _ => .changeFolder
  | singleFolder .. => .singleFolder
  | all => .all
  | processStory => .processStory
  | moveFiles _ => .moveFiles
  | moveSupportFiles _ => .moveSupportFiles
  | updatePages => .updatePages

/-- How a command is shown. -/
def display : Command → String
  | identity person sendLog =>
    "identity (person=" ++ person.getD "-" ++ ", send_log=" ++
      (if sendLog then "true" else "false") ++ ")"
  | changeFolder folder => "change_folder " ++ folder
  | singleFolder folder folderType =>
    "process_single_folder " ++ folder ++ " (" ++ folderType.title ++ ")"
  | moveFiles target | moveSupportFiles target => "move_files -> " ++ target
  | command => command.name

end Command

end FolderCommands
