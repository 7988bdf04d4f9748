import FolderCommands.Proofs.Run.Accounting
import FolderCommands.Proofs.Run.Memory
import FolderCommands.Proofs.Users.Resolution

/-!
# Who gets the log

Every identity command of a run is recorded when it is executed, and no failure takes a record back.
So those who get the log of a run can be told from its commands alone: they are the users for whom
the identity commands ask, resolved one command after the other, each user once.
-/

namespace FolderCommands

/-- The person for whom a command asks for the log. -/
def Command.logPerson? : Command → Option String
  | .identity person true => person
  | _ => none

/-- The persons for whom the commands of a run ask for the log, in order and with repeats. -/
def Journal.logPersons (journal : Journal) : List String :=
  journal.started.filterMap Command.logPerson?

namespace Engine

variable {ρ : Type} {e : Engine ρ} {W : World ρ → Prop}

/-! ## What identity commands record -/

/-- What is recorded of the command that a note tells of, if it is an identity command. -/
def identity? (e : Engine ρ) (note : Note) : Option Identity :=
  match note.event with
  | .started (.identity person sendLog) =>
    some ⟨note.session.traversal.currentFolder, person, sendLog,
      (person.map e.users.resolve).getD []⟩
  | _ => none

/-- The note in front of a stage from a session on, if the stage is a single command. -/
def Stage.front (s : Session) : Stage → Journal
  | .command c => [⟨.started c, s⟩]
  | _ => []

theorem filterMap_identity?_of_isInert {notes : Journal} (h : ∀ note ∈ notes, note.event.isInert) :
    notes.filterMap e.identity? = [] := by
  rw [List.filterMap_eq_nil_iff]
  rintro ⟨event, s⟩ hnote
  have hevent := h _ hnote
  cases event <;> first | rfl | cases hevent

theorem filterMap_identity?_raised {s : Session} {events : List Event} {error : Error}
    (h : ∀ event ∈ events, event.isInert) :
    (Journal.during s (events ++ [.raised error])).filterMap e.identity? = [] := by
  have hsplit : Journal.during s (events ++ [.raised error]) =
      Journal.during s events ++ [⟨.raised error, s⟩] := List.map_append
  rw [hsplit, List.filterMap_append, filterMap_identity?_of_isInert (isInert_during h)]
  rfl

theorem ContentEvents.front {folder : RemotePath} {command : Command} {events : List Event}
    (h : e.ContentEvents folder command events) (s : Session) :
    ((Stage.command command).front s).filterMap e.identity? = [] := by
  cases h <;> rfl

theorem Raises.front {s : Session} {stage : Stage} {events : List Event} {error : Error}
    (h : e.Raises W s stage events error) : (stage.front s).filterMap e.identity? = [] := by
  cases h with
  | descent | changeFolder | listing => rfl
  | content hcontent => exact hcontent.front s

theorem identities_afterwards (folder : RemotePath) (result : Except Stop Unit) (s : Session) :
    (afterwards folder result s).identities = s.identities := by
  rcases result with (_ | _) | _ <;> rfl

/-- Whether what is recorded from one session to another is what some notes tell. -/
def Records (e : Engine ρ) (s : Session) (notes : Journal) (s' : Session) : Prop :=
  s'.identities = s.identities ++ notes.filterMap e.identity?

section

variable {s s' s'' : Session} {notes notes' : Journal}

theorem Records.append (h : e.Records s notes s') (h' : e.Records s' notes' s'') :
    e.Records s (notes ++ notes') s'' := by
  unfold Records at *
  rw [h', h, List.filterMap_append, List.append_assoc]

theorem records_of_silent (hnotes : notes.filterMap e.identity? = [])
    (hs : s'.identities = s.identities) : e.Records s notes s' := by
  unfold Records
  rw [hnotes, hs, List.append_nil]

end

/-- A stage records exactly its identity commands, however it ends. -/
theorem Course.records {limit : Nat} {stage : Stage} {s s' : Session} {notes : Journal}
    {result : Except Stop Unit} (h : e.Course W limit stage s notes result s') :
    e.Records s (stage.front s ++ notes) s' := by
  -- The note that starts a command stands in front of the notes of the command itself.
  induction h with
  | tooDeep | done | noChild | changeFolder => exact records_of_silent rfl rfl
  | raised h =>
    apply records_of_silent _ rfl
    rw [List.filterMap_append, h.front, filterMap_identity?_raised h.isInert, List.nil_append]
  | refused h =>
    rename_i s events error
    have hinert : ∀ event ∈ Event.entered s.traversal.currentFolder :: events, event.isInert :=
      List.forall_mem_cons.2 ⟨rfl, h.isInert⟩
    exact (records_of_silent (filterMap_identity?_raised hinert) rfl).append
      (records_of_silent rfl rfl)
  | executed h hplan hcommands ih =>
    rename_i s s' manifest requests commands notes result
    have hinert := isInert_planned s (s.visiting s.traversal.currentFolder)
      s.traversal.currentFolder manifest requests commands
    have hplanned : e.Records s _ (s.visiting s.traversal.currentFolder) :=
      records_of_silent (filterMap_identity?_of_isInert hinert) rfl
    have hall := hplanned.append ih
    rw [List.append_assoc] at hall
    exact hall.append (records_of_silent rfl (identities_afterwards _ result s'))
  | next h hrest ih ihrest =>
    rename_i s s' s'' command commands notes notes' result
    have hended : e.Records s' (⟨.ended command, s'⟩ :: notes') s'' := ihrest
    exact ih.append hended
  | stopped h ih => exact ih.append (records_of_silent rfl rfl)
  | identity => exact rfl
  | content h =>
    apply records_of_silent _ rfl
    rw [List.filterMap_append, h.front, filterMap_identity?_of_isInert (isInert_during h.isInert),
      List.nil_append]
  | singleFolder h ih | ignored h ih | all h hchildren ih => exact ih
  | descent h hfolder ih => exact ih.append (records_of_silent rfl rfl)
  | child hname h hrest ih ihrest => exact ih.append ihrest
  | isolated hname h herror hrest ih ihrest =>
    rename_i s s' s'' parent name names notes notes' error result
    have hisolated : e.Records s' (⟨.isolated (parent.join name) error,
        s'.isolating (parent.join name) error⟩ :: notes') s'' := ihrest
    exact ih.append hisolated
  | childStopped hname h hstop ih => exact ih

/-- A run records exactly its identity commands, in the order in which they are executed. -/
theorem identities_processTop (limit : Nat) (w : World ρ) (s : Session) :
    (e.processTop limit { world := w, session := s }).2.session.identities =
      s.identities ++ (e.journal limit w s).filterMap e.identity? := by
  obtain ⟨notes, hcourse, hjournal, -⟩ := follows_process e.lasts_true limit e.options.mark
    { world := w, session := s.opened, journal := [⟨.begun, s.opened⟩] } trivial
  rw [← processTop_apply] at hcourse hjournal
  have hnotes : e.journal limit w s = ⟨.begun, s.opened⟩ :: notes := hjournal
  rw [hnotes]
  exact hcourse.records

/-! ## Those who get the log -/

/-- The identity commands that ask for the log have recorded the persons for whom they ask, and the
users for whom these stand. -/
theorem filter_sendLog_filterMap_identity? (e : Engine ρ) (notes : Journal) :
    let asking := (notes.filterMap e.identity?).filter (·.sendLog)
    asking.filterMap (·.person) = notes.logPersons ∧
      asking.flatMap (·.users) = notes.logPersons.flatMap e.users.resolve := by
  induction notes with
  | nil => exact ⟨rfl, rfl⟩
  | cons note notes ih =>
    obtain ⟨event, s⟩ := note
    cases event with
    | started command =>
      cases command with
      | identity person sendLog =>
        match person, sendLog with
        | _, false => exact ih
        | none, true => exact ih
        | some person, true =>
          exact ⟨congrArg (person :: ·) ih.1, congrArg (e.users.resolve person ++ ·) ih.2⟩
      | _ => exact ih
    | _ => exact ih

theorem addRecipient_eq_addNew : Session.addRecipient = Registry.addNew := by
  funext users u
  rfl

theorem recipients_eq_foldl {s : Session} {notes : Journal}
    (hs : s.identities = notes.filterMap e.identity?) :
    s.recipients = (notes.logPersons.flatMap e.users.resolve).foldl Registry.addNew [] := by
  rw [Session.recipients, hs, (filter_sendLog_filterMap_identity? e notes).2,
    addRecipient_eq_addNew]

theorem logRequests_eq {s : Session} {notes : Journal}
    (hs : s.identities = notes.filterMap e.identity?) : s.logRequests = notes.logPersons := by
  rw [Session.logRequests, hs, (filter_sendLog_filterMap_identity? e notes).1]

theorem logRequests_run {limit : Nat} {occasion : Occasion} {s : RunState ρ} {report : Report}
    (h : (e.run limit occasion s).1 = some report) :
    report.logRequests = (e.run limit occasion s).2.session.logRequests := by
  rw [run_snd]
  unfold run at h
  split at h <;> cases h <;> simp only [*, Engine.report]

/-- In a run of an engine with the registry of some records, the users who get the log have
different names and are users of the registry. They are those for whom the identity commands ask
that have been executed, resolved command by command in the order of their execution, each user
at the first place, whatever became of the folders of the commands and of the run. The report lists
the persons as they were asked for. -/
theorem recipients_run {records : List User} (h : e.users = .ofList records) (limit : Nat)
    (occasion : Occasion) (w : World ρ) (top : RemotePath) :
    let final := e.run limit occasion { world := w, session := .start top }
    let persons := final.2.journal.logPersons
    (final.2.session.recipients.map (·.name)).Nodup ∧
    (∀ u ∈ final.2.session.recipients, u ∈ e.users.users) ∧
    final.2.session.recipients = (persons.flatMap e.users.resolve).eraseDups ∧
    ∀ report, final.1 = some report → report.logRequests = persons := by
  intro final persons
  have hidentities : final.2.session.identities = final.2.journal.filterMap e.identity? := by
    change (e.run limit occasion _).2.session.identities = _
    rw [run_snd, identities_processTop]
    rfl
  have husers : persons.flatMap e.users.resolve ⊆ e.users.users := by
    intro u hu
    obtain ⟨person, -, hperson⟩ := List.mem_flatMap.1 hu
    rw [h] at hperson ⊢
    exact Registry.resolve_subset records person hperson
  have hinj : Set.InjOn User.name {u | u ∈ persons.flatMap e.users.resolve} := by
    rw [h] at husers ⊢
    exact Registry.injOn_name husers
  have hrecipients : final.2.session.recipients = (persons.flatMap e.users.resolve).eraseDups :=
    (recipients_eq_foldl hidentities).trans (Registry.foldl_addNew hinj)
  refine ⟨?_, fun u hu ↦ ?_, hrecipients, fun report hreport ↦ ?_⟩
  · rw [hrecipients, map_eraseDups hinj]
    exact nodup_eraseDups _
  · rw [hrecipients, List.mem_eraseDups] at hu
    exact husers hu
  · rw [logRequests_run hreport]
    exact logRequests_eq hidentities

/-- The story of `t/a` fails after the log has been asked for there. -/
def askingForLogs : Engine Unit :=
  { answering
      [(["t"], "command_set: content\n---\ncommand: all\n"),
        (["t", "a"], "command_set: story\n---\ncommand: identity\nperson: sam,x,don\n" ++
          "send_log: true\n---\ncommand: story\n")]
      fun _ ↦ .error (.other "no document")
    with users := .ofList Registry.threeUsers }

def askingForLogsRun : Option Report × RunState Unit :=
  askingForLogs.run 2 ⟨.ofNat 1, ⟨0, 0, 0⟩, ⟨0, 0, 1⟩⟩
    { world := .withScratch, session := .start (.ofText "t") }

/-- Those who are known get the log, in the order in which they are named and not in that of the
registry. -/
theorem recipients_run_askingForLogs :
    askingForLogs.users = .ofList Registry.threeUsers ∧
      askingForLogsRun.2.session.failures.map (·.folder) = ["t/a"] ∧
      askingForLogsRun.2.session.recipients.map (·.name) = ["sam", "don"] ∧
      askingForLogsRun.1.map (·.logRequests) = some ["sam,x,don"] := by
  have husers : askingForLogs.users = .ofList Registry.threeUsers := rfl
  have hrun : askingForLogsRun.2.session.failures.map (·.folder) = ["t/a"] ∧
      askingForLogsRun.1.isSome = true ∧
      askingForLogsRun.2.journal.logPersons = ["sam,x,don"] := by
    decide +kernel
  obtain ⟨hfailures, hreport, hpersons⟩ := hrun
  obtain ⟨report, hsome⟩ := Option.isSome_iff_exists.1 hreport
  obtain ⟨-, -, hrecipients, hrequests⟩ := recipients_run husers 2
    ⟨.ofNat 1, ⟨0, 0, 0⟩, ⟨0, 0, 1⟩⟩ .withScratch (.ofText "t")
  rw [← askingForLogsRun, hpersons] at hrecipients
  rw [← askingForLogsRun, hpersons] at hrequests
  refine ⟨husers, hfailures, ?_, ?_⟩
  · rw [hrecipients]
    decide +kernel
  · rw [hsome, Option.map_some, hrequests report hsome]

end Engine

end FolderCommands
