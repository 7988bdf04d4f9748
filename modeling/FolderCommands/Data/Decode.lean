import FolderCommands.Data.Datum
import FolderCommands.Text.Lines
import FolderCommands.Text.Quoted

/-!
# Reading data as records

A record is read from a map by name or from a sequence by position. Entries are taken in the order
of the data and the first fault is reported; fields that are missing are noticed at the end.
Unknown names are passed over.
-/

namespace FolderCommands.Decode

/-- What is peculiar to a format. -/
structure Format where
  /-- How a null is called in messages. -/
  nullName : String
  /-- How a float is written in messages. -/
  floats : Decimal.Layout
  /-- What a sequence for a record should have had if it has more items than it needs; absent
  if items may be left over. The argument is the number of items needed. -/
  leftover : Option (Nat → String)
  /-- Whether an empty map may stand for the value of a plain variant. -/
  emptyMapIsUnit : Bool

namespace Format

/-- JSON documents. -/
def json : Format :=
  ⟨"null", .compact, some fun _ ↦ "fewer elements in array", false⟩

/-- What is left of a JSON document once the name of a variant has been taken out. -/
def jsonVariant : Format :=
  ⟨"null", .compact,
    some fun n ↦ toString n ++ (if n = 1 then " element" else " elements") ++ " in sequence", true⟩

/-- TOML documents. -/
def toml : Format :=
  ⟨"unit value", .plain, none, false⟩

/-- YAML documents. -/
def yaml : Format :=
  ⟨"unit value", .plain, none, false⟩

end Format

/-- Why data cannot be read. -/
inductive Fault where
  | invalidType (found : Datum) (expected : String)
  | invalidValue (found : Datum) (expected : String)
  | invalidLength (count : Nat) (expected : String)
  | missingField (name : String)
  | duplicateField (name : String)
  | unknownVariant (name : String) (known : List String)
  /-- A text that is not what it should be, with the reason. -/
  | malformed (reason : String)

/-- How found data is called in messages. -/
def Format.describe (f : Format) : Datum → String
  | .null => f.nullName
  | .bool b => "boolean `" ++ (if b then "true" else "false") ++ "`"
  | .int n => "integer `" ++ toString n ++ "`"
  | .float x => "floating point `" ++ f.floats.write x ++ "`"
  | .string s => "string " ++ Text.quoted s
  | .sequence _ => "sequence"
  | .map _ => "map"

/-- The names that would have been right. -/
def alternatives (known : List String) : String :=
  match known.map fun name ↦ "`" ++ name ++ "`" with
  | [] => "there are no variants"
  | [a] => "expected " ++ a
  | [a, b] => "expected " ++ a ++ " or " ++ b
  | names => "expected one of " ++ Text.joinWith ", " names

/-- The text of a fault. -/
def Fault.message (f : Format) : Fault → String
  | invalidType found expected =>
    "invalid type: " ++ f.describe found ++ ", expected " ++ expected
  | invalidValue found expected =>
    "invalid value: " ++ f.describe found ++ ", expected " ++ expected
  | invalidLength count expected =>
    "invalid length " ++ toString count ++ ", expected " ++ expected
  | missingField name => "missing field `" ++ name ++ "`"
  | duplicateField name => "duplicate field `" ++ name ++ "`"
  | unknownVariant name known => "unknown variant `" ++ name ++ "`, " ++ alternatives known
  | malformed reason => reason

abbrev Result := Except Fault

/-! ## Single values -/

/-- Reads a string that is called `expected` in messages. -/
def textAs (expected : String) : Datum → Result String
  | .string s => .ok s
  | d => .error (.invalidType d expected)

def text : Datum → Result String :=
  textAs "a string"

/-- Reads the text of a local path. -/
def localPath : Datum → Result String :=
  textAs "path string"

def flag : Datum → Result Bool
  | .bool b => .ok b
  | d => .error (.invalidType d "a boolean")

/-- Reads what may be null. -/
def optional (read : Datum → Result α) : Datum → Result (Option α)
  | .null => .ok none
  | d => (read d).map some

/-- Reads a sequence. -/
def items (read : Datum → Result α) : Datum → Result (List α)
  | .sequence ds => ds.mapM read
  | d => .error (.invalidType d "a sequence")

/-- Reads a map from names. -/
def table (read : Datum → Result α) : Datum → Result (List (String × α))
  | .map entries => entries.mapM fun (key, value) ↦ do
    let name ← text key
    .ok (name, ← read value)
  | d => .error (.invalidType d "a map")

/-- The variant of that name. -/
def variantNamed (name : α → String) (all : List α) (s : String) : Result α :=
  match all.find? fun a ↦ name a == s with
  | some a => .ok a
  | none => .error (.unknownVariant s (all.map name))

/-- Reads a plain variant: its name, or a map from its name to null. -/
def variant (f : Format) (name : α → String) (all : List α) : Datum → Result α
  | .string s => variantNamed name all s
  | .map [(key, value)] => do
    let a ← variantNamed name all (← textAs "variant identifier" key)
    match value with
    | .null => .ok a
    | .map [] => if f.emptyMapIsUnit then .ok a else .error (.invalidType (.map []) "unit")
    | d => .error (.invalidType d "unit")
  | .map entries => .error (.invalidValue (.map entries) "map with a single key")
  | d => .error (.invalidType d "string or map")

/-! ## Records -/

/-- A field of a record of which `δ` is the draft. -/
structure RecordField (δ : Type) where
  name : String
  /-- Reads the value into a draft. -/
  read : Datum → δ → Result δ
  isSet : δ → Bool
  /-- Whether a sequence may end before the field. -/
  hasDefault : Bool

/-- A field that holds its value as an option. -/
def RecordField.of (name : String) (hasDefault : Bool) (read : Datum → Result α)
    (get : δ → Option α) (set : α → δ → δ) : RecordField δ :=
  ⟨name, fun d draft ↦ (read d).map (set · draft), fun draft ↦ (get draft).isSome, hasDefault⟩

/-- Takes an entry into a draft. -/
def readEntry (fields : List (RecordField δ)) (draft : δ) (entry : Datum × Datum) : Result δ := do
  let name ← textAs "field identifier" entry.1
  match fields.find? fun field ↦ field.name == name with
  | none => .ok draft
  | some field =>
    if field.isSet draft then .error (.duplicateField name) else field.read entry.2 draft

/-- How many elements a record has. -/
def elements (title : String) (count : Nat) : String :=
  title ++ " with " ++ toString count ++ (if count = 1 then " element" else " elements")

/-- Takes the items of a sequence into a draft, in the order of the fields; `done` fields of
`count` have been read. -/
def readItems (title : String) (count : Nat) :
    Nat → List (RecordField δ) → List Datum → δ → Result (δ × List Datum)
  | _, [], ds, draft => .ok (draft, ds)
  | done, field :: fields, [], draft =>
    if field.hasDefault then readItems title count (done + 1) fields [] draft
    else .error (.invalidLength done (elements title count))
  | done, field :: fields, d :: ds, draft => do
    let draft ← field.read d draft
    readItems title count (done + 1) fields ds draft

/-- Reads the draft of a record. -/
def draft (f : Format) (title : String) (fields : List (RecordField δ)) (empty : δ) :
    Datum → Result δ
  | .map entries => entries.foldlM (readEntry fields) empty
  | .sequence ds => do
    let (draft, rest) ← readItems title fields.length 0 fields ds empty
    match f.leftover with
    | some expected =>
      if rest.isEmpty then .ok draft
      else .error (.invalidLength ds.length (expected fields.length))
    | none => .ok draft
  | d => .error (.invalidType d title)

/-- The value of a field that must be there. -/
def require (name : String) : Option α → Result α
  | some a => .ok a
  | none => .error (.missingField name)

end FolderCommands.Decode
