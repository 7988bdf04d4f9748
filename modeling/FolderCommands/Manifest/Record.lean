import FolderCommands.Catalog
import FolderCommands.Text.Lines
import FolderCommands.Yaml.Document

/-!
# Command records

A command record is the mapping of one document of a manifest: the key `command` and the
attributes. Attributes are read as text or as truth values whatever scalars they were written as.
-/

namespace FolderCommands

/-- One command document of a manifest. -/
structure CommandRecord where
  entries : List (Yaml.Value × Yaml.Value)

namespace CommandRecord

/-- The text of a scalar; nothing else has one. -/
def scalarText? : Yaml.Value → Option String
  | .string s => some s
  | .bool b => some (if b then "true" else "false")
  | .number n => some n.text
  | _ => none

/-- The text of an attribute. The scalars of a sequence are joined by commas. -/
def text? (record : CommandRecord) (key : String) : Option String :=
  match Yaml.Value.find? key record.entries with
  | some (.sequence items) => some (Text.joinWith "," (items.filterMap scalarText?))
  | some value => scalarText? value
  | none => none

/-- The truth value of an attribute; the strings `true`, `yes` and `1` are true as well. -/
def flag? (record : CommandRecord) (key : String) : Option Bool :=
  match Yaml.Value.find? key record.entries with
  | some (.bool b) => some b
  | some (.number n) => some (n = .int 1)
  | some (.string s) => some (["true", "yes", "1"].contains (foldedName s))
  | _ => none

/-- The name of the command, trimmed and in lower case. -/
def command? (record : CommandRecord) : Option String :=
  (record.text? "command").map foldedName

/-- The keys of the attributes, in the order of the document. -/
def attributeKeys (record : CommandRecord) : List String :=
  (record.entries.filterMap fun (key, _) ↦ key.asString?).filter (· ≠ "command")

/-- Reads a record from a text of its own. -/
def ofText (text : String) : Except Yaml.Fault CommandRecord :=
  (Yaml.singleMapping text).map fun entries ↦ ⟨entries⟩

end CommandRecord

end FolderCommands
