import FolderCommands.Error
import FolderCommands.Manifest.Basic
import FolderCommands.User

/-!
# The registry of users

The known operators in the order in which their names first occur. A repeated name keeps the place
of the first record and the content of the last, so names are unique. A list of names that matches
nobody stands for the administrators.
-/

namespace FolderCommands

/-- The known operators. -/
structure Registry where
  users : List User := []
deriving DecidableEq, Repr

namespace Registry

/-- Puts a user in the place of one of the same name, else at the end. -/
def put (u : User) : List User → List User
  | [] => [u]
  | v :: vs => if v.name = u.name then u :: vs else v :: put u vs

/-- The registry of some records. -/
def ofList (records : List User) : Registry :=
  ⟨records.foldl (fun users u ↦ put u users) []⟩

/-- The user of that name. -/
def get? (r : Registry) (name : String) : Option User :=
  r.users.find? fun u ↦ u.name == name

/-- The administrators. -/
def admins (r : Registry) : List User :=
  r.users.filter (·.isAdmin)

/-- The names in a list of names that is separated by commas. -/
def namesIn (names : String) : List String :=
  ((Text.split ',' names).map Text.trimmed).filter (· ≠ "")

/-- Adds a user unless one of that name is there. -/
def addNew (users : List User) (u : User) : List User :=
  if users.any fun v ↦ v.name == u.name then users else users ++ [u]

/-- The users of which a list of names speaks, each once. -/
def named (r : Registry) (names : String) : List User :=
  ((namesIn names).filterMap r.get?).foldl addNew []

/-- The users that a list of names stands for. -/
def resolve (r : Registry) (names : String) : List User :=
  let users := r.named names
  if users.isEmpty then r.admins else users

/-- The name of the users document. -/
def documentName : String :=
  "config_users.yaml"

/-- Whether a value is a mapping, its tags apart. -/
def isMapping (v : Yaml.Value) : Bool :=
  match v.untagged with
  | .mapping _ => true
  | _ => false

/-- Reads the entry number `position`. -/
def readEntry (position : Nat) (v : Yaml.Value) : Except Error User :=
  if isMapping v then
    match User.decode .yaml (.ofYaml v) with
    | .ok u => .ok u
    | .error fault =>
      .error (.config ("user entry " ++ toString position ++ ": " ++ fault.message .yaml))
  else .error (.config ("user entry " ++ toString position ++ " is not a mapping"))

/-- Reads an entry behind the records that have been read. -/
def readNext (records : List User) (v : Yaml.Value) : Except Error (List User) := do
  .ok (records ++ [← readEntry records.length v])

/-- Reads a document behind the records that have been read: it is empty, a sequence of entries or
one entry. -/
def readDocument (records : List User) : Yaml.Value → Except Error (List User)
  | .null => .ok records
  | .sequence items => items.foldlM readNext records
  | doc => readNext records doc

/-- The registry of some documents. -/
def ofDocuments (docs : List Yaml.Value) : Except Error Registry :=
  (docs.foldlM readDocument []).map ofList

/-- Reads a users document. -/
def parse (text : String) : Except Error Registry :=
  match Manifest.documents text with
  | .error fault => .error (.config (documentName ++ ": " ++ fault.message))
  | .ok docs => ofDocuments docs

end Registry

end FolderCommands
