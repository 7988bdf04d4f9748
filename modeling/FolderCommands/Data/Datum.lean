import FolderCommands.Decimal.Layout
import FolderCommands.Yaml.Value

/-!
# Data

The data that a document of any format holds, before it is read as something in particular. The
entries of a map keep their order, because the order decides which of two faults is reported.
-/

namespace FolderCommands

/-- Data of any format. -/
inductive Datum where
  | null
  | bool (b : Bool)
  | int (n : Int)
  | float (x : Decimal.Binary64)
  | string (s : String)
  | sequence (items : List Datum)
  | map (entries : List (Datum × Datum))
deriving Inhabited

namespace Datum

/-- A map with names as keys. -/
def object (fields : List (String × Datum)) : Datum :=
  map (fields.map fun (name, value) ↦ (string name, value))

/-- A string or null. -/
def ofOption : Option String → Datum
  | some s => string s
  | none => null

/-- A sequence of strings. -/
def ofStrings (items : List String) : Datum :=
  sequence (items.map string)

mutual

/-- The data of a YAML value; tags do not matter. -/
def ofYaml : Yaml.Value → Datum
  | .null => null
  | .bool b => bool b
  | .number (.int n) => int n
  | .number (.float x) => float x
  | .string s => string s
  | .sequence items => sequence (ofYamlItems items)
  | .mapping entries => map (ofYamlEntries entries)
  | .tagged _ v => ofYaml v

def ofYamlItems : List Yaml.Value → List Datum
  | [] => []
  | v :: vs => ofYaml v :: ofYamlItems vs

def ofYamlEntries : List (Yaml.Value × Yaml.Value) → List (Datum × Datum)
  | [] => []
  | (k, v) :: vs => (ofYaml k, ofYaml v) :: ofYamlEntries vs

end

mutual

/-- The YAML value of data. -/
def toYaml : Datum → Yaml.Value
  | null => .null
  | bool b => .bool b
  | int n => .number (.int n)
  | float x => .number (.float x)
  | string s => .string s
  | sequence items => .sequence (toYamlItems items)
  | map entries => .mapping (toYamlEntries entries)

def toYamlItems : List Datum → List Yaml.Value
  | [] => []
  | v :: vs => toYaml v :: toYamlItems vs

def toYamlEntries : List (Datum × Datum) → List (Yaml.Value × Yaml.Value)
  | [] => []
  | (k, v) :: vs => (toYaml k, toYaml v) :: toYamlEntries vs

end

end Datum

end FolderCommands
