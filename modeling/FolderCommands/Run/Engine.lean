import FolderCommands.Manifest.Loading
import FolderCommands.Manifest.Plan
import FolderCommands.Run.Report
import FolderCommands.Run.Step
import FolderCommands.Run.Support
import FolderCommands.Users.Registry

/-!
# The traversal

A run starts in the top folder. There, as in every folder that it goes down to, the manifest is
loaded, all of its records become commands, and the commands are run in order. Going down always
ends in the folder where it started. A failure of content work is confined to the child of the
innermost `all` around it; every other error ends the run. How deep folders may be nested in each
other is limited by a number.
-/

namespace FolderCommands

/-- The settings of an engine. -/
structure EngineOptions where
  /-- What stands in front of the name of the top folder's manifest. -/
  mark : String := ""
  /-- Where the engine makes its scratch directories. -/
  scratchRoot : String
  supportDirectory : String
  outputs : OutputPaths := {}
  /-- Whether support files stay where they are. -/
  dryRun : Bool := false
deriving DecidableEq

/-- All that a run needs. -/
structure Engine (ρ : Type) where
  /-- The directory through which manifests are fetched. -/
  scratch : Scratch
  store : Store ρ
  users : Registry
  delegate : Delegate ρ
  options : EngineOptions

namespace Engine

variable {ρ : Type}

/-- Makes an engine with a scratch directory of its own. -/
def create (store : Store ρ) (users : Registry) (delegate : Delegate ρ)
    (options : EngineOptions) : Action ρ (Engine ρ) := do
  return ⟨← Manifest.openScratch options.scratchRoot, store, users, delegate, options⟩

/-- Removes the scratch directory of an engine. -/
def close (e : Engine ρ) : Action ρ Unit :=
  fun w ↦ (.ok (), { w with disk := w.disk.removeAt e.scratch.location })

/-- The child folder that `all` passes over. -/
def ignoredFolder : String :=
  "ignore"

/-- Whether a file is a page: neither the notes on a folder nor a manifest. -/
def isPage (file : String) : Bool :=
  file ≠ "meta.txt" && file ≠ Manifest.baseName

/-- The error of a path that is not below the top folder. -/
def escapeError (folder : RemotePath) (child : String) : Error :=
  .invalidFolder child ("leaves the traversal root from '" ++ folder.text ++ "'")

/-- An error as a failure of the content of a folder; one that is such a failure stays. -/
def contentError (folder : RemotePath) (error : Error) : Error :=
  if error.isRecoverable then error else .inContentOf folder error.message

/-! ## Content work -/

/-- Hands work to the delegate. -/
def handOver (e : Engine ρ) (work : Work) : Run ρ Unit := do
  Run.note (.delegated work)
  Run.act (e.delegate work)

/-- Hands over the pages of a folder one after the other. -/
def updateEach (e : Engine ρ) (folder : RemotePath) : List String → Run ρ Unit
  | [] => pure ()
  | file :: files => do
    e.handOver (.page folder file)
    e.updateEach folder files

/-- Has every page of a folder updated. -/
def updatePages (e : Engine ρ) (folder : RemotePath) : Run ρ Unit := do
  let files ← Run.inquire (e.store.askFiles folder)
  e.updateEach folder (files.filter isPage)

/-- Copies the support files of a folder, unless the run is a dry one. -/
def transferSupport (e : Engine ρ) (folder : RemotePath) (targetDirectory : String) :
    Run ρ Unit :=
  if e.options.dryRun then pure ()
  else
    Run.inquire (Support.transfer e.store e.options.scratchRoot folder
      (Support.destination e.options.supportDirectory targetDirectory))

/-- Runs content work of a folder. Whatever fails there is a failure of the folder's content. -/
def inContent (folder : RemotePath) (part : Run ρ Unit) : Run ρ Unit :=
  (part.mapError (contentError folder)).raising

/-! ## Going down -/

/-- Processes a child of the current folder by `inner` and comes back. -/
def descend (inner : Run ρ Unit) (child : String) : Run ρ Unit := do
  let here := (← Run.session).traversal.currentFolder
  let top := (← Run.session).traversal.topFolder
  if (here.join child).isDescendantOf top then
    Run.note (.descended (here.join child))
    Run.updateSession fun s ↦ { s with traversal := s.traversal.enter child }
    inner.andFinally do
      Run.updateSession fun s ↦
        { s with traversal := { s.traversal with currentFolder := here } }
      Run.note (.returned (here.join child))
  else (Run.fail (escapeError here child)).raising

/-- Keeps the failure of a child's content from the folder around it. -/
def isolate (parent : RemotePath) (child : String) (part : Run ρ Unit) : Run ρ Unit := do
  match ← part.outcome with
  | .error (.failed error) =>
    if error.isRecoverable then
      Run.updateSession fun s ↦
        { s with
          failedFolder := none
          failures := s.failures ++ [⟨(parent.join child).text, error.message⟩] }
      Run.note (.isolated (parent.join child) error)
    else Run.fail error
  | result => Run.resume result

/-- Goes down to children of the folder `parent` one after the other. -/
def descendEach (inner : Run ρ Unit) (parent : RemotePath) : List String → Run ρ Unit
  | [] => pure ()
  | child :: children => do
    if child ≠ ignoredFolder then isolate parent child (descend inner child)
    descendEach inner parent children

/-- Goes down to every child of the current folder. -/
def descendAll (e : Engine ρ) (inner : Run ρ Unit) : Run ρ Unit := do
  let parent := (← Run.session).traversal.currentFolder
  let children ← (Run.inquire (e.store.askDirectories parent)).raising
  descendEach inner parent children

/-! ## Commands -/

/-- Moves the top folder down. -/
def changeFolder (child : String) : Run ρ Unit := do
  let top := (← Run.session).traversal.topFolder
  if (top.join child).isDescendantOf top then
    Run.updateSession fun s ↦ { s with traversal := s.traversal.changeFolder child }
  else (Run.fail (escapeError top child)).raising

/-- Adds an identity of the current folder. -/
def identify (e : Engine ρ) (person : Option String) (sendLog : Bool) : Run ρ Unit :=
  Run.updateSession fun s ↦
    let users := (person.map e.users.resolve).getD []
    { s with identities := s.identities ++ [⟨s.traversal.currentFolder, person, sendLog, users⟩] }

/-- Runs a command; folders below are processed by `inner`. -/
def execute (e : Engine ρ) (inner : Run ρ Unit) (command : Command) : Run ρ Unit := do
  let folder := (← Run.session).traversal.currentFolder
  match command with
  | .identity person sendLog => e.identify person sendLog
  | .changeFolder child => changeFolder child
  | .singleFolder child _ => descend inner child
  | .all => e.descendAll inner
  | .processStory =>
    inContent folder (e.handOver (.story ⟨folder, e.options.scratchRoot, e.options.outputs⟩))
  | .moveFiles target => inContent folder (e.handOver (.moveFiles folder target))
  | .moveSupportFiles target => inContent folder (e.transferSupport folder target)
  | .updatePages => inContent folder (e.updatePages folder)

/-- Runs commands in order up to the first that fails. -/
def executeEach (e : Engine ρ) (inner : Run ρ Unit) : List Command → Run ρ Unit
  | [] => pure ()
  | command :: commands => do
    Run.note (.started command)
    (e.execute inner command).andFinally (Run.note (.ended command))
    e.executeEach inner commands

/-! ## Folders -/

/-- The command set of a folder and its commands. -/
def plan (e : Engine ρ) (folder : RemotePath) (mark : String) :
    Run ρ (CommandSet × List Command) := do
  let manifest ← (Run.inquire (Manifest.load e.store e.scratch.path folder mark)).raising
  Run.note (.loaded folder manifest)
  match Plan.ofRecords manifest.commandSet manifest.records with
  | .ok commands => return (manifest.commandSet, commands)
  | .error error => (Run.fail error).raising

/-- Loads the manifest of the current folder and runs its commands. -/
def executeManifest (e : Engine ρ) (inner : Run ρ Unit) (mark : String) : Run ρ Unit := do
  let folder := (← Run.session).traversal.currentFolder
  let (set, commands) ← e.plan folder mark
  Run.updateSession fun s ↦ { s with visited := s.visited ++ [folder] }
  Run.note (.planned folder set commands)
  e.executeEach inner commands

/-- Takes a folder as the one that failed, unless a folder below it has been taken. -/
def blame (folder : RemotePath) (s : Session) : Session :=
  { s with failedFolder := s.failedFolder.or (some folder) }

/-- Processes the current folder; folders below are processed by `inner`. -/
def processFolder (e : Engine ρ) (inner : Run ρ Unit) (mark : String) : Run ρ Unit := do
  let folder := (← Run.session).traversal.currentFolder
  Run.note (.entered folder)
  ((e.executeManifest inner mark).onError fun _ ↦ Run.updateSession (blame folder)).andFinally
    (Run.note (.left folder))

/-- Processes the current folder, with at most `limit` folders nested in each other. -/
def process (e : Engine ρ) : Nat → String → Run ρ Unit
  | 0, _ => fun s ↦ (.error .tooDeep, s)
  | limit + 1, mark => e.processFolder (e.process limit "") mark

/-- Processes the top folder. -/
def processTop (e : Engine ρ) (limit : Nat) : Run ρ Unit := do
  Run.updateSession fun s ↦
    { s with traversal := .start s.traversal.topFolder, failedFolder := none }
  Run.note .begun
  e.process limit e.options.mark

/-! ## Runs -/

/-- What identifies a run, and when it was. -/
structure Occasion where
  runId : Uuid
  startedAt : Instant
  finishedAt : Instant
deriving DecidableEq

/-- How a run ended that left some failures. -/
def status (error : Option Error) (failures : List FolderFailure) : RunStatus :=
  if error.isSome then .aborted
  else if failures.isEmpty then .completed
  else .completedWithErrors

/-- The report of a run that left a session. -/
def report (occasion : Occasion) (top : RemotePath) (error : Option Error) (s : Session) :
    Report where
  runId := occasion.runId
  startedAt := occasion.startedAt
  finishedAt := occasion.finishedAt
  status := status error s.failures
  topFolder := top.text
  visited := s.visited.map (·.text)
  failures := s.failures
  error := error.map (·.message)
  failedFolder := s.failedFolder.map (·.text)
  logRequests := s.logRequests

/-- Runs from the top folder of the session. There is no report if folders are nested too deep. -/
def run (e : Engine ρ) (limit : Nat) (occasion : Occasion) (s : RunState ρ) :
    Option Report × RunState ρ :=
  let top := s.session.traversal.topFolder
  match e.processTop limit s with
  | (.ok (), s) => (some (report occasion top none s.session), s)
  | (.error (.failed error), s) => (some (report occasion top (some error) s.session), s)
  | (.error .tooDeep, s) => (none, s)

end Engine

end FolderCommands
