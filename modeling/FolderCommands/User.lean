import FolderCommands.Data.Decode

/-!
# Users

One known operator of the system, and how it is written in documents.
-/

namespace FolderCommands

/-- A known operator. -/
structure User where
  name : String
  emailAddress : String := ""
  mailLogs : Bool := false
  isAdmin : Bool := false
deriving DecidableEq, Repr

namespace User

/-- A user of which not every field has been read. -/
structure Draft where
  name : Option String := none
  emailAddress : Option String := none
  mailLogs : Option Bool := none
  isAdmin : Option Bool := none

/-- The fields of a user; only the name must be there. -/
def fields : List (Decode.RecordField Draft) :=
  [.of "name" false Decode.text (·.name) fun a d ↦ { d with name := some a },
    .of "emailAddress" true Decode.text (·.emailAddress)
      fun a d ↦ { d with emailAddress := some a },
    .of "mailLogs" true Decode.flag (·.mailLogs) fun a d ↦ { d with mailLogs := some a },
    .of "isAdmin" true Decode.flag (·.isAdmin) fun a d ↦ { d with isAdmin := some a }]

/-- Reads a user. -/
def decode (f : Decode.Format) (d : Datum) : Decode.Result User := do
  let draft ← Decode.draft f "struct UserRecord" fields {} d
  let name ← Decode.require "name" draft.name
  .ok ⟨name, draft.emailAddress.getD "", draft.mailLogs.getD false, draft.isAdmin.getD false⟩

/-- Writes a user. -/
def encode (u : User) : Datum :=
  .object [("name", .string u.name), ("emailAddress", .string u.emailAddress),
    ("mailLogs", .bool u.mailLogs), ("isAdmin", .bool u.isAdmin)]

end User

end FolderCommands
