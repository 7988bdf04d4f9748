import FolderCommands.Manifest.Encoding
import FolderCommands.User

/-!
# The session of a run

What a run keeps track of: where it is, who asked to be identified, which folders were processed
and which failures were isolated. Identities, folders and failures are only ever added at the end.
-/

namespace FolderCommands

/-- Where a run is. -/
structure Traversal where
  topFolder : RemotePath
  currentFolder : RemotePath
deriving DecidableEq

namespace Traversal

/-- The start of a run. -/
def start (top : RemotePath) : Traversal :=
  ⟨top, top⟩

/-- Moves the top of the run down, and the current folder with it. -/
def changeFolder (t : Traversal) (folder : String) : Traversal :=
  start (t.topFolder.join folder)

/-- Goes to a folder below the current one. -/
def enter (t : Traversal) (folder : String) : Traversal :=
  { t with currentFolder := t.currentFolder.join folder }

end Traversal

/-- One identity command that has been run. -/
structure Identity where
  folder : RemotePath
  person : Option String
  sendLog : Bool
  users : List User
deriving DecidableEq

/-- A content failure that was isolated. -/
structure FolderFailure where
  folder : String
  error : String
deriving DecidableEq, Repr

/-- The state of a run. -/
structure Session where
  traversal : Traversal
  /-- In the order of their execution. -/
  identities : List Identity := []
  /-- The folders whose manifest was executed, in order. -/
  visited : List RemotePath := []
  failures : List FolderFailure := []
  /-- The deepest folder that raised the error under way. -/
  failedFolder : Option RemotePath := none
deriving DecidableEq

namespace Session

/-- The session at the start of a run. -/
def start (top : RemotePath) : Session :=
  { traversal := .start top }

/-- The persons who asked for the log, in order and with repeats. -/
def logRequests (s : Session) : List String :=
  (s.identities.filter (·.sendLog)).filterMap (·.person)

/-- Adds a user unless one of that name is there. -/
def addRecipient (users : List User) (u : User) : List User :=
  if users.any fun v ↦ v.name == u.name then users else users ++ [u]

/-- The users who get the log, each once. -/
def recipients (s : Session) : List User :=
  ((s.identities.filter (·.sendLog)).flatMap (·.users)).foldl addRecipient []

end Session

open Decode

namespace Identity

/-- An identity of which not every field has been read. -/
structure Draft where
  folder : Option RemotePath := none
  person : Option (Option String) := none
  sendLog : Option Bool := none
  users : Option (List User) := none

/-- The fields of an identity. -/
def fields (f : Format) : List (RecordField Draft) :=
  [.of "folder" false RemotePath.decode (·.folder) fun a d ↦ { d with folder := some a },
    .of "person" false (optional Decode.text) (·.person) fun a d ↦ { d with person := some a },
    .of "send_log" false flag (·.sendLog) fun a d ↦ { d with sendLog := some a },
    .of "users" false (items (User.decode f)) (·.users) fun a d ↦ { d with users := some a }]

/-- Reads an identity. -/
def decode (f : Format) (d : Datum) : Result Identity := do
  let r ← draft f "struct IdentityEntry" (fields f) {} d
  let folder ← require "folder" r.folder
  let sendLog ← require "send_log" r.sendLog
  .ok ⟨folder, r.person.getD none, sendLog, ← require "users" r.users⟩

/-- Writes an identity. -/
def encode (i : Identity) : Datum :=
  .object [("folder", i.folder.encode), ("person", .ofOption i.person),
    ("send_log", .bool i.sendLog), ("users", .sequence (i.users.map User.encode))]

end Identity

namespace FolderFailure

/-- A failure of which not every field has been read. -/
structure Draft where
  folder : Option String := none
  error : Option String := none

/-- The fields of a failure. -/
def fields : List (RecordField Draft) :=
  [.of "folder" false Decode.text (·.folder) fun a d ↦ { d with folder := some a },
    .of "error" false Decode.text (·.error) fun a d ↦ { d with error := some a }]

/-- Reads a failure. -/
def decode (f : Format) (d : Datum) : Result FolderFailure := do
  let r ← draft f "struct FolderFailure" fields {} d
  let folder ← require "folder" r.folder
  .ok ⟨folder, ← require "error" r.error⟩

/-- Writes a failure. -/
def encode (failure : FolderFailure) : Datum :=
  .object [("folder", .string failure.folder), ("error", .string failure.error)]

end FolderFailure

end FolderCommands
