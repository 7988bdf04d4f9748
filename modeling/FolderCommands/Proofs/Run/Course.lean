import FolderCommands.Run.Engine

/-!
# The course of a run

The traversal as a relation: what a stage of it notes, how it ends and which session it leaves.
Each constructor is one way on, with the guard that the engine checks. Stores and delegates enter
only through what they answer in worlds where `W` holds, so one relation speaks about all of them.
That the engine keeps to this relation is proved apart.
-/

namespace FolderCommands

/-- The notes of events during which the session stays as it is. -/
def Journal.during (s : Session) (events : List Event) : Journal :=
  events.map (⟨·, s⟩)

namespace Session

/-- The session at the start of a run. -/
def opened (s : Session) : Session :=
  { s with traversal := .start s.traversal.topFolder, failedFolder := none }

/-- The session in a child of the current folder. -/
def entering (s : Session) (child : String) : Session :=
  { s with traversal := s.traversal.enter child }

/-- The session back in a folder. -/
def backIn (s : Session) (folder : RemotePath) : Session :=
  { s with traversal := { s.traversal with currentFolder := folder } }

/-- The session in which a folder counts as visited. -/
def visiting (s : Session) (folder : RemotePath) : Session :=
  { s with visited := s.visited ++ [folder] }

/-- The session after the failure of a child has been kept from its parent. -/
def isolating (s : Session) (child : RemotePath) (error : Error) : Session :=
  { s with
    failedFolder := none
    failures := s.failures ++ [⟨child.text, error.message⟩] }

end Session

namespace Engine

variable {ρ : Type}

/-- What the traversal is about for a while. -/
inductive Stage where
  /-- The current folder is processed. -/
  | folder (mark : String)
  | commands (commands : List Command)
  | command (command : Command)
  /-- The run goes down to a child of the current folder and comes back. -/
  | descent (child : String)
  /-- The run goes down to children of `parent` one after the other. -/
  | children (parent : RemotePath) (names : List String)

/-- What loading a manifest comes to in some world, and what the store is asked for. -/
def Loads (e : Engine ρ) (W : World ρ → Prop) (folder : RemotePath) (mark : String)
    (result : Except Error Manifest) (requests : List Request) : Prop :=
  ∃ world, W world ∧ ∃ after : Inquired ρ,
    Manifest.load e.store e.scratch.path folder mark { world } = (result, after) ∧
      after.requests = requests

/-- What listing the directories of a folder comes to in some world. -/
def Lists (e : Engine ρ) (W : World ρ → Prop) (folder : RemotePath)
    (result : Except Error (List String)) : Prop :=
  ∃ world, W world ∧ (e.store.listDirectories folder world).1 = result

/-- The events of the content work of a command, as far as the work has come. -/
inductive ContentEvents (e : Engine ρ) (folder : RemotePath) : Command → List Event → Prop
  | story : ContentEvents e folder .processStory
      [.delegated (.story ⟨folder, e.options.scratchRoot, e.options.outputs⟩)]
  | files (target : String) : ContentEvents e folder (.moveFiles target)
      [.delegated (.moveFiles folder target)]
  | support (target : String) : ContentEvents e folder (.moveSupportFiles target)
      [.asked (.downloadDirectory folder)]
  /-- In a dry run, or if there is no directory to go through. -/
  | noSupport (target : String) : ContentEvents e folder (.moveSupportFiles target) []
  | pages (files : List String) (h : ∀ file ∈ files, isPage file = true) :
      ContentEvents e folder .updatePages
        (.asked (.listFiles folder) :: files.map fun file ↦ .delegated (.page folder file))

/-- Why the current folder is not executed, and what is noted until then. -/
inductive Refuses (e : Engine ρ) (W : World ρ → Prop) (mark : String) (s : Session) :
    List Event → Error → Prop
  | unloaded {error : Error} {requests : List Request}
      (h : e.Loads W s.traversal.currentFolder mark (.error error) requests) :
      Refuses e W mark s (requests.map .asked) error
  | unplanned {manifest : Manifest} {error : Error} {requests : List Request}
      (h : e.Loads W s.traversal.currentFolder mark (.ok manifest) requests)
      (hplan : Plan.ofRecords manifest.commandSet manifest.records = .error error) :
      Refuses e W mark s
        (requests.map .asked ++ [.loaded s.traversal.currentFolder manifest]) error

/-- The errors that arise in a stage itself, and what is noted until then. -/
inductive Raises (e : Engine ρ) (W : World ρ → Prop) (s : Session) :
    Stage → List Event → Error → Prop
  | descent {child : String}
      (h : ¬ (s.traversal.currentFolder.join child).isDescendantOf s.traversal.topFolder) :
      Raises e W s (.descent child) [] (escapeError s.traversal.currentFolder child)
  | changeFolder {child : String}
      (h : ¬ (s.traversal.topFolder.join child).isDescendantOf s.traversal.topFolder) :
      Raises e W s (.command (.changeFolder child)) [] (escapeError s.traversal.topFolder child)
  | listing {error : Error} (h : e.Lists W s.traversal.currentFolder (.error error)) :
      Raises e W s (.command .all) [.asked (.listDirectories s.traversal.currentFolder)] error
  | content {command : Command} {events : List Event} {error : Error}
      (h : e.ContentEvents s.traversal.currentFolder command events) :
      Raises e W s (.command command) events (contentError s.traversal.currentFolder error)

/-- The session after a folder has been processed with some result. -/
def afterwards (folder : RemotePath) : Except Stop Unit → Session → Session
  | .error (.failed _), s => blame folder s
  | _, s => s

/-- What a stage may note from a session on, how it may end and with which session, if at most
`limit` folders are nested in each other. -/
inductive Course (e : Engine ρ) (W : World ρ → Prop) :
    Nat → Stage → Session → Journal → Except Stop Unit → Session → Prop
  | tooDeep {mark : String} {s : Session} :
      Course e W 0 (.folder mark) s [] (.error .tooDeep) s
  | raised {limit : Nat} {stage : Stage} {s : Session} {events : List Event} {error : Error}
      (h : e.Raises W s stage events error) :
      Course e W limit stage s (Journal.during s (events ++ [.raised error]))
        (.error (.failed error)) s
  | refused {limit : Nat} {mark : String} {s : Session} {events : List Event} {error : Error}
      (h : e.Refuses W mark s events error) :
      Course e W (limit + 1) (.folder mark) s
        (Journal.during s (.entered s.traversal.currentFolder :: events ++ [.raised error]) ++
          [⟨.left s.traversal.currentFolder, blame s.traversal.currentFolder s⟩])
        (.error (.failed error)) (blame s.traversal.currentFolder s)
  | executed {limit : Nat} {mark : String} {s s' : Session} {manifest : Manifest}
      {requests : List Request} {commands : List Command} {notes : Journal}
      {result : Except Stop Unit}
      (h : e.Loads W s.traversal.currentFolder mark (.ok manifest) requests)
      (hplan : Plan.ofRecords manifest.commandSet manifest.records = .ok commands)
      (hcommands : Course e W limit (.commands commands)
        (s.visiting s.traversal.currentFolder) notes result s') :
      Course e W (limit + 1) (.folder mark) s
        (Journal.during s (.entered s.traversal.currentFolder :: requests.map .asked ++
            [.loaded s.traversal.currentFolder manifest]) ++
          ⟨.planned s.traversal.currentFolder manifest.commandSet commands,
            s.visiting s.traversal.currentFolder⟩ :: notes ++
          [⟨.left s.traversal.currentFolder, afterwards s.traversal.currentFolder result s'⟩])
        result (afterwards s.traversal.currentFolder result s')
  | done {limit : Nat} {s : Session} : Course e W limit (.commands []) s [] (.ok ()) s
  | next {limit : Nat} {s s' s'' : Session} {command : Command} {commands : List Command}
      {notes notes' : Journal} {result : Except Stop Unit}
      (h : Course e W limit (.command command) s notes (.ok ()) s')
      (hrest : Course e W limit (.commands commands) s' notes' result s'') :
      Course e W limit (.commands (command :: commands)) s
        (⟨.started command, s⟩ :: notes ++ ⟨.ended command, s'⟩ :: notes') result s''
  | stopped {limit : Nat} {s s' : Session} {command : Command} {commands : List Command}
      {notes : Journal} {stop : Stop}
      (h : Course e W limit (.command command) s notes (.error stop) s') :
      Course e W limit (.commands (command :: commands)) s
        (⟨.started command, s⟩ :: notes ++ [⟨.ended command, s'⟩]) (.error stop) s'
  | identity {limit : Nat} {s : Session} {person : Option String} {sendLog : Bool} :
      Course e W limit (.command (.identity person sendLog)) s [] (.ok ())
        { s with
          identities := s.identities ++ [⟨s.traversal.currentFolder, person, sendLog,
            (person.map e.users.resolve).getD []⟩] }
  | changeFolder {limit : Nat} {s : Session} {child : String}
      (h : (s.traversal.topFolder.join child).isDescendantOf s.traversal.topFolder) :
      Course e W limit (.command (.changeFolder child)) s [] (.ok ())
        { s with traversal := s.traversal.changeFolder child }
  | content {limit : Nat} {s : Session} {command : Command} {events : List Event}
      (h : e.ContentEvents s.traversal.currentFolder command events) :
      Course e W limit (.command command) s (Journal.during s events) (.ok ()) s
  | singleFolder {limit : Nat} {s s' : Session} {child : String} {folderType : FolderType}
      {notes : Journal} {result : Except Stop Unit}
      (h : Course e W limit (.descent child) s notes result s') :
      Course e W limit (.command (.singleFolder child folderType)) s notes result s'
  | all {limit : Nat} {s s' : Session} {names : List String} {notes : Journal}
      {result : Except Stop Unit} (h : e.Lists W s.traversal.currentFolder (.ok names))
      (hchildren : Course e W limit (.children s.traversal.currentFolder names) s notes result s') :
      Course e W limit (.command .all) s
        (⟨.asked (.listDirectories s.traversal.currentFolder), s⟩ :: notes) result s'
  | descent {limit : Nat} {s s' : Session} {child : String} {notes : Journal}
      {result : Except Stop Unit}
      (h : (s.traversal.currentFolder.join child).isDescendantOf s.traversal.topFolder)
      (hfolder : Course e W limit (.folder "") (s.entering child) notes result s') :
      Course e W limit (.descent child) s
        (⟨.descended (s.traversal.currentFolder.join child), s⟩ :: notes ++
          [⟨.returned (s.traversal.currentFolder.join child),
            s'.backIn s.traversal.currentFolder⟩])
        result (s'.backIn s.traversal.currentFolder)
  | noChild {limit : Nat} {s : Session} {parent : RemotePath} :
      Course e W limit (.children parent []) s [] (.ok ()) s
  | ignored {limit : Nat} {s s' : Session} {parent : RemotePath} {names : List String}
      {notes : Journal} {result : Except Stop Unit}
      (h : Course e W limit (.children parent names) s notes result s') :
      Course e W limit (.children parent (ignoredFolder :: names)) s notes result s'
  | child {limit : Nat} {s s' s'' : Session} {parent : RemotePath} {name : String}
      {names : List String} {notes notes' : Journal} {result : Except Stop Unit}
      (hname : name ≠ ignoredFolder) (h : Course e W limit (.descent name) s notes (.ok ()) s')
      (hrest : Course e W limit (.children parent names) s' notes' result s'') :
      Course e W limit (.children parent (name :: names)) s (notes ++ notes') result s''
  | isolated {limit : Nat} {s s' s'' : Session} {parent : RemotePath} {name : String}
      {names : List String} {notes notes' : Journal} {error : Error} {result : Except Stop Unit}
      (hname : name ≠ ignoredFolder)
      (h : Course e W limit (.descent name) s notes (.error (.failed error)) s')
      (herror : error.isRecoverable = true)
      (hrest : Course e W limit (.children parent names) (s'.isolating (parent.join name) error)
        notes' result s'') :
      Course e W limit (.children parent (name :: names)) s
        (notes ++ ⟨.isolated (parent.join name) error,
          s'.isolating (parent.join name) error⟩ :: notes') result s''
  | childStopped {limit : Nat} {s s' : Session} {parent : RemotePath} {name : String}
      {names : List String} {notes : Journal} {stop : Stop} (hname : name ≠ ignoredFolder)
      (h : Course e W limit (.descent name) s notes (.error stop) s')
      (hstop : ∀ error, stop = .failed error → error.isRecoverable = false) :
      Course e W limit (.children parent (name :: names)) s notes (.error stop) s'

end Engine

end FolderCommands
