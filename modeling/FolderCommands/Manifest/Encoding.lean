import FolderCommands.Data.Decode
import FolderCommands.Manifest.Basic

/-!
# Manifests as data

How command sets, folder types, commands and manifests are written as data and read back. A
command carries the name of its kind under `command` beside its own fields.
-/

namespace FolderCommands

open Decode

/-- Reads a location. -/
def RemotePath.decode (d : Datum) : Result RemotePath :=
  (Decode.text d).map .ofText

/-- Writes a location. -/
def RemotePath.encode (p : RemotePath) : Datum :=
  .string p.text

/-- Reads a command set. -/
def CommandSet.decode (f : Format) : Datum → Result CommandSet :=
  variant f CommandSet.name CommandSet.every

/-- Writes a command set. -/
def CommandSet.encode (set : CommandSet) : Datum :=
  .string set.name

/-- Reads a folder type. -/
def FolderType.decode (f : Format) : Datum → Result FolderType :=
  variant f FolderType.name [.siteContent, .story]

/-- Writes a folder type. -/
def FolderType.encode (t : FolderType) : Datum :=
  .string t.name

namespace Handler

/-- Every handler. -/
def every : List Handler :=
  [identity, changeFolder, singleFolder, all, processStory, moveFiles, moveSupportFiles,
    updatePages]

/-- The name of a handler's commands in data. -/
def kind : Handler → String
  | identity => "identity"
  | changeFolder => "change_folder"
  | singleFolder => "single_folder"
  | all => "all"
  | processStory => "process_story"
  | moveFiles => "move_files"
  | moveSupportFiles => "move_support_files"
  | updatePages => "update_pages"

end Handler

namespace Command

/-- Writes a command. -/
def encode : Command → Datum
  | identity person sendLog => .object [("command", .string "identity"),
      ("person", .ofOption person), ("send_log", .bool sendLog)]
  | changeFolder folder =>
    .object [("command", .string "change_folder"), ("folder", .string folder)]
  | singleFolder folder folderType => .object [("command", .string "single_folder"),
      ("folder", .string folder), ("folder_type", folderType.encode)]
  | all => .object [("command", .string "all")]
  | processStory => .object [("command", .string "process_story")]
  | moveFiles target =>
    .object [("command", .string "move_files"), ("target_directory", .string target)]
  | moveSupportFiles target =>
    .object [("command", .string "move_support_files"), ("target_directory", .string target)]
  | updatePages => .object [("command", .string "update_pages")]

/-- The fields of a command of any kind, as far as they have been read. -/
structure Draft where
  person : Option (Option String) := none
  sendLog : Option Bool := none
  folder : Option String := none
  folderType : Option FolderType := none
  targetDirectory : Option String := none

namespace Draft

def personField : RecordField Draft :=
  .of "person" false (optional Decode.text) (·.person) fun a d ↦ { d with person := some a }

def sendLogField : RecordField Draft :=
  .of "send_log" false flag (·.sendLog) fun a d ↦ { d with sendLog := some a }

def folderField : RecordField Draft :=
  .of "folder" false Decode.text (·.folder) fun a d ↦ { d with folder := some a }

def folderTypeField : RecordField Draft :=
  .of "folder_type" false (FolderType.decode .jsonVariant) (·.folderType)
    fun a d ↦ { d with folderType := some a }

def targetField : RecordField Draft :=
  .of "target_directory" false Decode.text (·.targetDirectory)
    fun a d ↦ { d with targetDirectory := some a }

end Draft

open Draft

/-- Reads the fields of a command of a known kind. -/
def decodeFields (h : Handler) (d : Datum) : Result Command :=
  let read (title : String) (fields : List (RecordField Draft)) : Result Draft :=
    draft .jsonVariant ("struct variant Command::" ++ title) fields {} d
  match h with
  | .identity => do
    let r ← read "Identity" [personField, sendLogField]
    .ok (identity (r.person.getD none) (← require "send_log" r.sendLog))
  | .changeFolder => do
    let r ← read "ChangeFolder" [folderField]
    .ok (changeFolder (← require "folder" r.folder))
  | .singleFolder => do
    let r ← read "SingleFolder" [folderField, folderTypeField]
    let folder ← require "folder" r.folder
    .ok (singleFolder folder (← require "folder_type" r.folderType))
  | .all => .ok all
  | .processStory => .ok processStory
  | .moveFiles => do
    let r ← read "MoveFiles" [targetField]
    .ok (moveFiles (← require "target_directory" r.targetDirectory))
  | .moveSupportFiles => do
    let r ← read "MoveSupportFiles" [targetField]
    .ok (moveSupportFiles (← require "target_directory" r.targetDirectory))
  | .updatePages => .ok updatePages

/-- Whether an entry holds the kind of a command. -/
def isKindEntry (entry : Datum × Datum) : Bool :=
  match entry.1 with
  | .string s => s == "command"
  | _ => false

/-- Reads the kind of a command. -/
def decodeKind (d : Datum) : Result Handler := do
  variantNamed Handler.kind Handler.every (← textAs "variant identifier" d)

/-- Reads a command from a map, or from a sequence that starts with its kind. -/
def decode : Datum → Result Command
  | .map entries =>
    match entries.find? isKindEntry with
    | none => .error (.missingField "command")
    | some (_, kind) => do
      decodeFields (← decodeKind kind) (.map (entries.filter (!isKindEntry ·)))
  | .sequence [] => .error (.missingField "command")
  | .sequence (kind :: ds) => do decodeFields (← decodeKind kind) (.sequence ds)
  | d => .error (.invalidType d "internally tagged enum Command")

end Command

namespace CommandRecord

/-- Reads a record. -/
def decode : Datum → Result CommandRecord
  | .map entries => .ok ⟨Datum.toYamlEntries entries⟩
  | d => .error (.invalidType d "a YAML mapping")

/-- Writes a record. -/
def encode (r : CommandRecord) : Datum :=
  .map (Datum.ofYamlEntries r.entries)

end CommandRecord

namespace Manifest

/-- A manifest of which not every field has been read. -/
structure Draft where
  commandSet : Option CommandSet := none
  records : Option (List CommandRecord) := none

/-- The fields of a manifest. -/
def fields (f : Format) : List (RecordField Draft) :=
  [.of "command_set" false (CommandSet.decode f) (·.commandSet)
      fun a d ↦ { d with commandSet := some a },
    .of "commands" false (items CommandRecord.decode) (·.records)
      fun a d ↦ { d with records := some a }]

/-- Reads a manifest from data. -/
def decode (f : Format) (d : Datum) : Result Manifest := do
  let r ← draft f "struct Manifest" (fields f) {} d
  let set ← require "command_set" r.commandSet
  .ok ⟨set, ← require "commands" r.records⟩

/-- Writes a manifest as data. -/
def encode (m : Manifest) : Datum :=
  .object [("command_set", m.commandSet.encode),
    ("commands", .sequence (m.records.map CommandRecord.encode))]

end Manifest

end FolderCommands
