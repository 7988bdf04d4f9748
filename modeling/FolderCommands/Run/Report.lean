import FolderCommands.Data.Json
import FolderCommands.Run.Session
import FolderCommands.Time.Rfc3339
import FolderCommands.Uuid

/-!
# Reports

The outcome of a run, its summary in one line and its form as a document.
-/

namespace FolderCommands

/-- How a run ended. -/
inductive RunStatus where
  | completed
  | completedWithErrors
  | aborted
deriving DecidableEq, Repr

namespace RunStatus

/-- Every status. -/
def every : List RunStatus :=
  [completed, completedWithErrors, aborted]

/-- The name of a status in data. -/
def name : RunStatus → String
  | completed => "completed"
  | completedWithErrors => "completed_with_errors"
  | aborted => "aborted"

/-- The name of a status in a summary. -/
def title : RunStatus → String
  | completed => "completed"
  | completedWithErrors => "completed with errors"
  | aborted => "aborted"

end RunStatus

/-- The outcome of a run. -/
structure Report where
  runId : Uuid
  startedAt : Instant
  finishedAt : Instant
  status : RunStatus
  topFolder : String
  /-- The folders whose manifest was executed, in order. -/
  visited : List String
  failures : List FolderFailure
  /-- The error that aborted the run. -/
  error : Option String
  /-- The folder that raised it. -/
  failedFolder : Option String
  logRequests : List String
deriving DecidableEq

namespace Report

def isSuccess (r : Report) : Bool :=
  r.status != .aborted

/-- The time a run took: whole seconds toward zero, and the milliseconds that count upwards. -/
def elapsed (r : Report) : String :=
  let nanos := r.finishedAt.since r.startedAt
  let seconds := nanos.tdiv 1000000000
  let milliseconds := nanos.tdiv 1000000 % 1000
  toString seconds ++ "." ++ Rfc3339.padded 3 milliseconds.toNat

/-- The summary in front of the time. -/
def headline (r : Report) : String :=
  "Run " ++ r.status.title ++ ": " ++ toString r.visited.length ++ " folder(s) processed, " ++
    toString r.failures.length ++ " failure(s)"

/-- The summary of a run. -/
def summary (r : Report) : String :=
  r.headline ++ " in " ++ r.elapsed ++ "s"

open Decode

/-- Reads a timestamp. -/
def decodeInstant (d : Datum) : Result Instant := do
  match Rfc3339.parse (← textAs "an RFC 3339 formatted date and time string" d) with
  | .ok t => .ok t
  | .error fault => .error (.malformed fault.message)

/-- Reads an identifier. -/
def decodeUuid (d : Datum) : Result Uuid := do
  match Uuid.parse (← textAs "a UUID string" d) with
  | .ok u => .ok u
  | .error fault => .error (.malformed ("UUID parsing failed: " ++ fault.message))

/-- A report of which not every field has been read. -/
structure Draft where
  runId : Option Uuid := none
  startedAt : Option Instant := none
  finishedAt : Option Instant := none
  status : Option RunStatus := none
  topFolder : Option String := none
  visited : Option (List String) := none
  failures : Option (List FolderFailure) := none
  error : Option (Option String) := none
  failedFolder : Option (Option String) := none
  logRequests : Option (List String) := none

/-- The fields of a report. -/
def fields (f : Format) : List (RecordField Draft) :=
  [.of "run_id" false decodeUuid (·.runId) fun a d ↦ { d with runId := some a },
    .of "started_at" false decodeInstant (·.startedAt) fun a d ↦ { d with startedAt := some a },
    .of "finished_at" false decodeInstant (·.finishedAt) fun a d ↦ { d with finishedAt := some a },
    .of "status" false (variant f RunStatus.name RunStatus.every) (·.status)
      fun a d ↦ { d with status := some a },
    .of "top_folder" false Decode.text (·.topFolder) fun a d ↦ { d with topFolder := some a },
    .of "visited" false (items Decode.text) (·.visited) fun a d ↦ { d with visited := some a },
    .of "failures" false (items (FolderFailure.decode f)) (·.failures)
      fun a d ↦ { d with failures := some a },
    .of "error" false (optional Decode.text) (·.error) fun a d ↦ { d with error := some a },
    .of "failed_folder" true (optional Decode.text) (·.failedFolder)
      fun a d ↦ { d with failedFolder := some a },
    .of "log_requests" false (items Decode.text) (·.logRequests)
      fun a d ↦ { d with logRequests := some a }]

/-- Reads a report. -/
def decode (f : Format) (d : Datum) : Result Report := do
  let r ← draft f "struct RunReport" (fields f) {} d
  let runId ← require "run_id" r.runId
  let startedAt ← require "started_at" r.startedAt
  let finishedAt ← require "finished_at" r.finishedAt
  let status ← require "status" r.status
  let topFolder ← require "top_folder" r.topFolder
  let visited ← require "visited" r.visited
  let failures ← require "failures" r.failures
  let logRequests ← require "log_requests" r.logRequests
  .ok ⟨runId, startedAt, finishedAt, status, topFolder, visited, failures, r.error.getD none,
    r.failedFolder.getD none, logRequests⟩

/-- Writes a report. -/
def encode (r : Report) : Datum :=
  .object [("run_id", .string r.runId.text), ("started_at", .string (Rfc3339.render r.startedAt)),
    ("finished_at", .string (Rfc3339.render r.finishedAt)), ("status", .string r.status.name),
    ("top_folder", .string r.topFolder), ("visited", .ofStrings r.visited),
    ("failures", .sequence (r.failures.map FolderFailure.encode)), ("error", .ofOption r.error),
    ("failed_folder", .ofOption r.failedFolder), ("log_requests", .ofStrings r.logRequests)]

/-- The name of the file of a report. -/
def fileName (r : Report) : String :=
  "run-" ++ r.runId.text ++ ".json"

/-- The text of the file of a report. -/
def fileText (r : Report) : String :=
  Json.render r.encode

end Report

end FolderCommands
