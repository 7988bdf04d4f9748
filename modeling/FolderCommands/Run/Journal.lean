import FolderCommands.Run.Session
import FolderCommands.Run.Work
import FolderCommands.Store.Request

/-!
# The journal of a run

What happens in a run, in order, each event with the session at that moment. Nothing is ever
removed from a journal.
-/

namespace FolderCommands

/-- What happens in a run. -/
inductive Event where
  /-- The folders have been set to the top. -/
  | begun
  /-- The run goes down from the current folder to `child`. -/
  | descended (child : RemotePath)
  /-- The processing of a folder starts. -/
  | entered (folder : RemotePath)
  /-- The manifest of a folder has been read. -/
  | loaded (folder : RemotePath) (manifest : Manifest)
  /-- Every record of the manifest of a folder has become a command. -/
  | planned (folder : RemotePath) (commandSet : CommandSet) (commands : List Command)
  | started (command : Command)
  | ended (command : Command)
  /-- The processing of a folder is over, well or not. -/
  | left (folder : RemotePath)
  /-- The run is back in the folder from which it went down to `child`. -/
  | returned (child : RemotePath)
  | asked (request : Request)
  | delegated (work : Work)
  /-- An error arises. -/
  | raised (error : Error)
  /-- An error of `child` has been kept from the folders around it. -/
  | isolated (child : RemotePath) (error : Error)

/-- An event and the session at that moment. -/
structure Note where
  event : Event
  session : Session

/-- The notes of a run, earliest first. -/
abbrev Journal := List Note

namespace Journal

/-- Where the notes of one kind of event are picked out, what is found is what such a note tells. -/
theorem mem_filterMap {α : Type} {pick : Note → Option α} {tell : α → Event} {journal : Journal}
    {a : α} (hpick : ∀ note a, pick note = some a ↔ note.event = tell a) :
    a ∈ journal.filterMap pick ↔ ∃ s, ⟨tell a, s⟩ ∈ journal := by
  rw [List.mem_filterMap]
  constructor
  · rintro ⟨⟨event, s⟩, hmem, hnote⟩
    obtain rfl : event = tell a := (hpick _ _).1 hnote
    exact ⟨s, hmem⟩
  · rintro ⟨s, hmem⟩
    exact ⟨_, hmem, (hpick _ _).2 rfl⟩

/-- The requests to stores. -/
def requests (journal : Journal) : List Request :=
  journal.filterMap fun note ↦
    match note.event with
    | .asked request => some request
    | _ => none

theorem mem_requests {journal : Journal} {request : Request} :
    request ∈ journal.requests ↔ ∃ s, ⟨.asked request, s⟩ ∈ journal := by
  apply mem_filterMap
  rintro ⟨event, s⟩ _
  cases event <;> simp

/-- The content work that was delegated. -/
def work (journal : Journal) : List Work :=
  journal.filterMap fun note ↦
    match note.event with
    | .delegated work => some work
    | _ => none

theorem mem_work {journal : Journal} {work : Work} :
    work ∈ journal.work ↔ ∃ s, ⟨.delegated work, s⟩ ∈ journal := by
  apply mem_filterMap
  rintro ⟨event, s⟩ _
  cases event <;> simp

/-- The commands that were started. -/
def started (journal : Journal) : List Command :=
  journal.filterMap fun note ↦
    match note.event with
    | .started command => some command
    | _ => none

theorem mem_started {journal : Journal} {command : Command} :
    command ∈ journal.started ↔ ∃ s, ⟨.started command, s⟩ ∈ journal := by
  apply mem_filterMap
  rintro ⟨event, s⟩ _
  cases event <;> simp

/-- The errors in the order in which they arose. -/
def raised (journal : Journal) : List Error :=
  journal.filterMap fun note ↦
    match note.event with
    | .raised error => some error
    | _ => none

end Journal

end FolderCommands
