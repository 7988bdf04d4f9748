import FolderCommands.Grammar.Validation
import FolderCommands.Manifest.Command

/-!
# Manifests

A manifest is the command set of a folder and the commands to run there. Its text is checked line
by line first; only the meaningful part of an accepted text is read as YAML.
-/

namespace FolderCommands

/-- The command set of a folder and its command records. -/
structure Manifest where
  commandSet : CommandSet
  records : List CommandRecord

namespace Manifest

/-- The name of the manifest of a folder. -/
def baseName : String :=
  "commands.txt"

/-- The name of the manifest of an operator with that mark. -/
def fileName (mark : String) : String :=
  mark ++ baseName

/-- The names of the commands; empty where there is none. -/
def commandNames (m : Manifest) : List String :=
  m.records.map fun record ↦ record.command?.getD ""

/-- The documents of a text without an empty last one. -/
def documents (text : String) : Except Yaml.Fault (List Yaml.Value) :=
  (Yaml.documents text).map fun docs ↦
    if docs.getLast?.any (·.isNull) then docs.dropLast else docs

/-- The records of the documents after the header, of which the first is number `number`. -/
def recordsOf (folder : String) (number : Nat) :
    List Yaml.Value → Except Error (List CommandRecord)
  | [] => .ok []
  | .mapping entries :: docs => do
    .ok (⟨entries⟩ :: (← recordsOf folder (number + 1) docs))
  | _ :: _ =>
    .error (.manifestInvalid folder ["document " ++ toString number ++ " is not a mapping"])

/-- The first attribute that the command of a record may not carry. -/
def foreignKey? (set : CommandSet) (record : CommandRecord) : Option (CommandSpec × String) :=
  match record.command?.bind set.command? with
  | none => none
  | some spec => (record.attributeKeys.find? (!spec.allows ·)).map fun key ↦ (spec, key)

/-- Fails at the first record that carries a foreign attribute. -/
def checkKeys (folder : String) (set : CommandSet) (number : Nat) :
    List CommandRecord → Except Error Unit
  | [] => .ok ()
  | record :: records =>
    match foreignKey? set record with
    | none => checkKeys folder set (number + 1) records
    | some (spec, key) =>
      .error (.manifestInvalid folder
        ["document " ++ toString number ++ ": '" ++ key ++ "' is not valid in command '" ++
          spec.name ++ "'"])

/-- The command set that a header document names. -/
def headerSet (folder : String) (header : Yaml.Value) : Except Error CommandSet :=
  match (header.get? "command_set").bind (·.asString?) with
  | none => .error (.manifestInvalid folder ["document 0 has no command_set"])
  | some name => match CommandSet.find? name with
    | some set => .ok set
    | none => .error (.unknownCommandSet (Text.trimmed name))

/-- The manifest that the documents of a text form. -/
def ofDocuments (folder : String) : List Yaml.Value → Except Error Manifest
  | [] => .error (.manifestInvalid folder ["manifest is empty"])
  | header :: docs => do
    let set ← headerSet folder header
    let records ← recordsOf folder 1 docs
    checkKeys folder set 1 records
    .ok ⟨set, records⟩

/-- Reads the manifest of a folder. All errors of the line check are reported together. -/
def parse (source folder : String) : Except Error Manifest :=
  let validation := Grammar.validate source
  if validation.hasErrors then
    .error (.manifestInvalid folder (validation.errors.map (·.display)))
  else match documents validation.meaningful with
    | .error fault =>
      .error (.manifestInvalid folder ["YAML error: " ++ fault.message])
    | .ok docs => ofDocuments folder docs

end Manifest

end FolderCommands
