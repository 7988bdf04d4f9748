import FolderCommands.Proofs.Plan
import FolderCommands.Proofs.Run.Adherence
import FolderCommands.Proofs.Run.Memory

/-!
# Where content work belongs

Content work is done for the folder that was entered last, by a command of the manifest that was
read last. No part of the traversal checks this. It is so because of the catalog: a command set
with content work has no command that leads to another folder, so from the moment at which the
folder counts as visited nothing comes between the folder and its content work.
-/

namespace FolderCommands

/-! ## Handlers of a command set -/

/-- Whether commands that it runs are content work. -/
def Handler.isContent : Handler → Bool
  | .processStory | .moveFiles | .moveSupportFiles | .updatePages => true
  | .identity | .changeFolder | .singleFolder | .all => false

/-- What runs the commands of a command set. -/
def CommandSet.handlers (set : CommandSet) : List Handler :=
  set.commands.map (·.handler)

/-- Next to content work a command set has identities only. -/
theorem CommandSet.isContent_or_eq_identity {set : CommandSet} {handler other : Handler}
    (h : handler ∈ set.handlers) (hcontent : handler.isContent) (hother : other ∈ set.handlers) :
    other.isContent ∨ other = .identity := by
  have hevery : ∀ set ∈ every, ∀ handler ∈ set.handlers, handler.isContent →
      ∀ other ∈ set.handlers, other.isContent ∨ other = .identity := by decide
  exact hevery set set.mem_every handler h hcontent other hother

/-- Content work of a kind is in the table of one command set only. -/
theorem CommandSet.eq_of_mem_handlers {set other : CommandSet} {handler : Handler}
    (h : handler ∈ set.handlers) (hcontent : handler.isContent) (hother : handler ∈ other.handlers) :
    other = set := by
  have hevery : ∀ set ∈ every, ∀ handler ∈ set.handlers, handler.isContent →
      ∀ other ∈ every, handler ∈ other.handlers → other = set := by decide
  exact hevery set set.mem_every handler h hcontent other other.mem_every hother

theorem Command.handler_of_map {α : Type} {x : Except Error α} {f : α → Command}
    {handler : Handler} {command : Command} (hf : ∀ a, (f a).handler = handler)
    (h : x.map f = .ok command) : command.handler = handler := by
  cases x with
  | error error => cases h
  | ok a =>
    cases h
    exact hf a

theorem Command.handler_of_ofRecord {handler : Handler} {record : CommandRecord}
    {command : Command} (h : ofRecord handler record = .ok command) :
    command.handler = handler := by
  cases handler with
  | identity | all | processStory | updatePages =>
    cases h
    rfl
  | changeFolder | moveFiles | moveSupportFiles => exact handler_of_map (fun _ ↦ rfl) h
  | singleFolder =>
    simp only [ofRecord] at h
    cases hfolder : childFolder record (record.command?.getD "") with
    | error error =>
      rw [hfolder] at h
      cases h
    | ok folder =>
      cases htype : required record (record.command?.getD "") "folder_type" with
      | error error =>
        rw [hfolder, htype] at h
        cases h
      | ok text =>
        rw [hfolder, htype] at h
        simp only [bind, Except.bind] at h
        split at h
        · cases h
          rfl
        · cases h

/-- A plan has commands of the command set only. -/
theorem Plan.handler_mem_handlers {set : CommandSet} {records : List CommandRecord}
    {commands : List Command} (h : ofRecords set records = .ok commands) {command : Command}
    (hmem : command ∈ commands) : command.handler ∈ set.handlers := by
  have hconverted : .ok command ∈ records.map (convert set) := by
    rw [map_convert_of_ofRecords h]
    exact List.mem_map_of_mem hmem
  obtain ⟨record, -, hrecord⟩ := List.mem_map.1 hconverted
  rw [convert] at hrecord
  split at hrecord
  · cases hrecord
  · split at hrecord
    · cases hrecord
    · rename_i spec hspec
      rw [Command.handler_of_ofRecord hrecord]
      exact List.mem_map_of_mem (List.mem_of_find?_eq_some hspec)

/-! ## What a run was last about -/

/-- What a run was last about. -/
structure Scene where
  /-- The folder entered last. -/
  entered : Option RemotePath := none
  /-- The manifest read last, and its folder. -/
  loaded : Option (RemotePath × Manifest) := none
  /-- The command started last. -/
  started : Option Command := none

namespace Scene

/-- The scene after a note. -/
def next (scene : Scene) (note : Note) : Scene :=
  match note.event with
  | .entered folder => { scene with entered := some folder }
  | .loaded folder manifest => { scene with loaded := some (folder, manifest) }
  | .started command => { scene with started := some command }
  | _ => scene

/-- The scene after some notes. -/
def after (scene : Scene) (notes : Journal) : Scene :=
  notes.foldl next scene

/-- What holds of every note and the scene after it. -/
def Throughout (Q : Scene → Note → Prop) : Scene → Journal → Prop
  | _, [] => True
  | scene, note :: notes => Q (scene.next note) note ∧ (scene.next note).Throughout Q notes

variable {Q : Scene → Note → Prop} {scene : Scene} {notes notes' : Journal}

@[simp]
theorem after_cons (scene : Scene) (note : Note) (notes : Journal) :
    scene.after (note :: notes) = (scene.next note).after notes := rfl

@[simp]
theorem after_append (scene : Scene) (notes notes' : Journal) :
    scene.after (notes ++ notes') = (scene.after notes).after notes' :=
  List.foldl_append

theorem throughout_append : scene.Throughout Q (notes ++ notes') ↔
    scene.Throughout Q notes ∧ (scene.after notes).Throughout Q notes' := by
  induction notes generalizing scene with
  | nil => simp [Throughout, after]
  | cons note notes ih => simp [Throughout, ih, and_assoc]

theorem Throughout.at_note {before after : Journal} {note : Note}
    (h : scene.Throughout Q (before ++ note :: after)) :
    Q (scene.after (before ++ [note])) note := by
  rw [after_append]
  exact (throughout_append.1 h).2.1

theorem throughout_of_forall (h : ∀ note ∈ notes, ∀ scene, Q scene note) :
    scene.Throughout Q notes := by
  induction notes generalizing scene with
  | nil => trivial
  | cons note notes ih =>
    obtain ⟨hnote, hrest⟩ := List.forall_mem_cons.1 h
    exact ⟨hnote _, ih hrest⟩

/-- Whether a note tells of another folder, manifest or command. -/
def changes (note : Note) : Bool :=
  match note.event with
  | .entered _ | .loaded .. | .started _ => true
  | _ => false

theorem after_of_not_changes (h : ∀ note ∈ notes, changes note = false) :
    scene.after notes = scene := by
  induction notes with
  | nil => rfl
  | cons note notes ih =>
    obtain ⟨hnote, hrest⟩ := List.forall_mem_cons.1 h
    have hnext : scene.next note = scene := by
      obtain ⟨event, s⟩ := note
      cases event <;> first | rfl | cases hnote
    rw [after_cons, hnext]
    exact ih hrest

/-- What holds in a scene of notes that leave it as it is. -/
theorem throughout_of_not_changes (h : ∀ note ∈ notes, changes note = false ∧ Q scene note) :
    scene.Throughout Q notes := by
  induction notes with
  | nil => trivial
  | cons note notes ih =>
    obtain ⟨⟨hchanges, hnote⟩, hrest⟩ := List.forall_mem_cons.1 h
    have hnext : scene.after [note] = scene := after_of_not_changes (by simpa)
    change scene.next note = scene at hnext
    rw [Throughout, hnext]
    exact ⟨hnote, ih hrest⟩

end Scene

/-! ## Content work -/

/-- The folder and the handler of the content work that a note tells of. A transfer of support
files counts from the start of its command, for in a dry run it asks for nothing. -/
def Note.content? (note : Note) : Option (RemotePath × Handler) :=
  match note.event with
  | .delegated (.story request) => some (request.folder, .processStory)
  | .delegated (.moveFiles folder _) => some (folder, .moveFiles)
  | .delegated (.page folder _) => some (folder, .updatePages)
  | .asked (.downloadDirectory folder) => some (folder, .moveSupportFiles)
  | .started command =>
    if command.handler.isContent then
      some (note.session.traversal.currentFolder, command.handler)
    else none
  | _ => none

theorem Note.isContent_of_content? {note : Note} {folder : RemotePath} {handler : Handler}
    (h : note.content? = some (folder, handler)) : handler.isContent := by
  simp only [content?] at h
  obtain ⟨event, s⟩ := note
  split at h
  case h_5 command =>
    split at h
    · rename_i hcommand
      cases h
      exact hcommand
    · cases h
  case h_6 => cases h
  all_goals
    cases h
    rfl

namespace Engine

variable {ρ : Type} {e : Engine ρ} {W : World ρ → Prop}

/-- Whether a run stands in a folder whose manifest it executes: nothing was entered, visited or
read since. -/
structure StandsIn (e : Engine ρ) (W : World ρ → Prop) (scene : Scene) (s : Session)
    (manifest : Manifest) (commands : List Command) : Prop where
  entered : scene.entered = some s.traversal.currentFolder
  visited : s.visited.getLast? = some s.traversal.currentFolder
  loaded : scene.loaded = some (s.traversal.currentFolder, manifest)
  loads : ∃ mark requests, e.Loads W s.traversal.currentFolder mark (.ok manifest) requests
  planned : Plan.ofRecords manifest.commandSet manifest.records = .ok commands

/-- Whether content work that a note tells of belongs there: it is for the folder where the run
stands, by a command of the manifest of that folder. -/
def Belongs (e : Engine ρ) (W : World ρ → Prop) (scene : Scene) (note : Note) : Prop :=
  ∀ folder handler, note.content? = some (folder, handler) →
    note.session.traversal.currentFolder = folder ∧
    ∃ manifest commands, e.StandsIn W scene note.session manifest commands ∧
      ∃ command ∈ commands, scene.started = some command ∧ command.handler = handler

theorem belongs_of_content?_eq_none {scene : Scene} {note : Note} (h : note.content? = none) :
    e.Belongs W scene note := by
  intro folder handler hcontent
  rw [h] at hcontent
  cases hcontent

theorem StandsIn.of_eq {scene scene' : Scene} {s s' : Session} {manifest : Manifest}
    {commands : List Command} (h : e.StandsIn W scene s manifest commands)
    (hentered : scene'.entered = scene.entered) (hloaded : scene'.loaded = scene.loaded)
    (htraversal : s'.traversal = s.traversal) (hvisited : s'.visited = s.visited) :
    e.StandsIn W scene' s' manifest commands where
  entered := by rw [hentered, htraversal, h.entered]
  visited := by rw [hvisited, htraversal, h.visited]
  loaded := by rw [hloaded, htraversal, h.loaded]
  loads := by
    rw [htraversal]
    exact h.loads
  planned := h.planned

/-- Next to content work the commands of a manifest are identities only. -/
theorem StandsIn.isContent_or_eq_identity {scene : Scene} {s : Session} {manifest : Manifest}
    {commands : List Command} (h : e.StandsIn W scene s manifest commands)
    {command other : Command} (hmem : command ∈ commands) (hcontent : command.handler.isContent)
    (hother : other ∈ commands) : other.handler.isContent ∨ other.handler = .identity :=
  CommandSet.isContent_or_eq_identity (Plan.handler_mem_handlers h.planned hmem) hcontent
    (Plan.handler_mem_handlers h.planned hother)

/-- Where the content work of a stage belongs, if there is some. -/
def Suits (e : Engine ρ) (W : World ρ → Prop) (scene : Scene) (s : Session) : Stage → Prop
  | .commands commands => (∃ command ∈ commands, command.handler.isContent) →
    ∃ manifest before, e.StandsIn W scene s manifest (before ++ commands)
  | .command command => command.handler.isContent →
    ∃ manifest commands, e.StandsIn W scene s manifest commands ∧ command ∈ commands ∧
      scene.started = some command
  | .folder _ | .descent _ | .children .. => True

namespace ContentEvents

variable {folder : RemotePath} {command : Command} {events : List Event}

theorem isContent (h : e.ContentEvents folder command events) : command.handler.isContent := by
  cases h <;> rfl

theorem not_changes (h : e.ContentEvents folder command events) (s : Session) :
    ∀ note ∈ Journal.during s events, Scene.changes note = false := by
  cases h <;> simp [Journal.during, Scene.changes]

theorem content?_eq (h : e.ContentEvents folder command events) (s : Session) :
    ∀ note ∈ Journal.during s events,
      note.content? = none ∨ note.content? = some (folder, command.handler) := by
  cases h <;> simp [Journal.during, Note.content?, Command.handler]

theorem belongs {scene : Scene} {s : Session}
    (h : e.ContentEvents s.traversal.currentFolder command events)
    (hsuits : e.Suits W scene s (.command command)) :
    scene.Throughout (e.Belongs W) (Journal.during s events) := by
  obtain ⟨manifest, commands, hstands, hmem, hstarted⟩ := hsuits h.isContent
  refine Scene.throughout_of_not_changes fun note hnote ↦ ⟨h.not_changes s note hnote, ?_⟩
  intro folder handler hcontent
  have hsession : note.session = s := by
    obtain ⟨event, -, rfl⟩ := List.mem_map.1 hnote
    rfl
  rcases h.content?_eq s note hnote with hnone | hsome
  · rw [hnone] at hcontent
    cases hcontent
  · rw [hsome] at hcontent
    cases hcontent
    rw [hsession]
    exact ⟨rfl, manifest, commands, hstands, command, hmem, hstarted, rfl⟩

end ContentEvents

/-- Content work and identities lead nowhere else. -/
theorem Course.stays {limit : Nat} {command : Command} {s s' : Session} {notes : Journal}
    {result : Except Stop Unit} (h : e.Course W limit (.command command) s notes result s')
    (hcommand : command.handler.isContent ∨ command.handler = .identity) :
    s'.traversal = s.traversal ∧ s'.visited = s.visited ∧
      ∀ note ∈ notes, Scene.changes note = false := by
  cases h with
  | raised h =>
    refine ⟨rfl, rfl, ?_⟩
    cases h with
    | content h =>
      rw [Journal.during, List.map_append]
      exact List.forall_mem_append.2 ⟨h.not_changes s, by simp [Scene.changes]⟩
    | changeFolder | listing => simp [Command.handler, Handler.isContent] at hcommand
  | identity => exact ⟨rfl, rfl, by simp⟩
  | content h => exact ⟨rfl, rfl, h.not_changes s⟩
  | changeFolder | singleFolder | all => simp [Command.handler, Handler.isContent] at hcommand

theorem content?_of_loads (hW : e.Lasts W) (s : Session) {folder : RemotePath} {mark : String}
    {result : Except Error Manifest} {requests : List Request}
    (h : e.Loads W folder mark result requests) :
    ∀ note ∈ Journal.during s (requests.map .asked),
      Scene.changes note = false ∧ note.content? = none := by
  intro note hnote
  simp only [Journal.during, List.map_map, List.mem_map] at hnote
  obtain ⟨request, hrequest, rfl⟩ := hnote
  rcases h.asked hW request hrequest with rfl | rfl <;> exact ⟨rfl, rfl⟩

theorem Refuses.content? (hW : e.Lasts W) {mark : String} {s : Session} {events : List Event}
    {error : Error} (h : e.Refuses W mark s events error) :
    ∀ note ∈ Journal.during s events, note.content? = none := by
  cases h with
  | unloaded h => exact fun note hnote ↦ (content?_of_loads hW s h note hnote).2
  | unplanned h hplan =>
    rw [Journal.during, List.map_append]
    exact List.forall_mem_append.2
      ⟨fun note hnote ↦ (content?_of_loads hW s h note hnote).2, by simp [Note.content?]⟩

/-- The run stands in a folder whose manifest has become a plan. -/
theorem standsIn_planned (hW : e.Lasts W) {scene : Scene} {mark : String} {s : Session}
    {manifest : Manifest} {requests : List Request} {commands : List Command}
    (h : e.Loads W s.traversal.currentFolder mark (.ok manifest) requests)
    (hplan : Plan.ofRecords manifest.commandSet manifest.records = .ok commands) :
    e.StandsIn W (scene.after (Journal.during s (.entered s.traversal.currentFolder ::
      requests.map .asked ++ [.loaded s.traversal.currentFolder manifest])))
      (s.visiting s.traversal.currentFolder) manifest commands := by
  have hrequests (scene : Scene) :
      scene.after (Journal.during s (requests.map .asked)) = scene :=
    Scene.after_of_not_changes fun note hnote ↦ (content?_of_loads hW s h note hnote).1
  simp only [Journal.during, List.map_cons, List.map_append, Scene.after_cons,
    Scene.after_append] at hrequests ⊢
  rw [hrequests]
  exact ⟨rfl, List.getLast?_concat, rfl, ⟨mark, requests, h⟩, hplan⟩

/-! ## One command after the other -/

section Commands

variable {scene : Scene} {s : Session} {command : Command} {commands : List Command}

/-- A command that is started belongs where its folder is. -/
theorem Suits.started (h : e.Suits W scene s (.commands (command :: commands))) :
    e.Suits W (scene.next ⟨.started command, s⟩) s (.command command) := by
  intro hcontent
  obtain ⟨manifest, before, hstands⟩ := h ⟨command, List.mem_cons_self, hcontent⟩
  exact ⟨manifest, _, hstands.of_eq rfl rfl rfl rfl, by simp, rfl⟩

theorem Suits.belongs_started (h : e.Suits W scene s (.commands (command :: commands))) :
    e.Belongs W (scene.next ⟨.started command, s⟩) ⟨.started command, s⟩ := by
  intro folder handler hcontent
  simp only [Note.content?] at hcontent
  split at hcontent
  · rename_i hcommand
    cases hcontent
    obtain ⟨manifest, commands, hstands, hmem, hstarted⟩ := h.started hcommand
    exact ⟨rfl, manifest, commands, hstands, command, hmem, hstarted, rfl⟩
  · cases hcontent

/-- After a command the ones behind it still have their folder around them. -/
theorem Suits.ended (h : e.Suits W scene s (.commands (command :: commands))) {limit : Nat}
    {s' : Session} {notes : Journal} {result : Except Stop Unit}
    (hcourse : e.Course W limit (.command command) s notes result s') :
    e.Suits W (((scene.next ⟨.started command, s⟩).after notes).next ⟨.ended command, s'⟩) s'
      (.commands commands) := by
  rintro ⟨other, hmem, hcontent⟩
  obtain ⟨manifest, before, hstands⟩ := h ⟨other, List.mem_cons_of_mem _ hmem, hcontent⟩
  obtain ⟨htraversal, hvisited, hnotes⟩ := hcourse.stays
    (hstands.isContent_or_eq_identity (List.mem_append_right _ (List.mem_cons_of_mem _ hmem))
      hcontent (List.mem_append_right _ List.mem_cons_self))
  refine ⟨manifest, before ++ [command], ?_⟩
  rw [List.append_assoc, List.singleton_append, Scene.after_of_not_changes hnotes]
  exact hstands.of_eq rfl rfl htraversal hvisited

end Commands

/-! ## Runs -/

/-- All along a stage content work belongs where the run is. -/
theorem Course.belongs (hW : e.Lasts W) {limit : Nat} {stage : Stage} {s s' : Session}
    {notes : Journal} {result : Except Stop Unit}
    (h : e.Course W limit stage s notes result s') (scene : Scene)
    (hsuits : e.Suits W scene s stage) : scene.Throughout (e.Belongs W) notes := by
  have hnone {scene : Scene} {notes : Journal} (h : ∀ note ∈ notes, note.content? = none) :
      scene.Throughout (e.Belongs W) notes :=
    Scene.throughout_of_forall fun note hnote _ ↦ belongs_of_content?_eq_none (h note hnote)
  induction h generalizing scene with
  | tooDeep | done | identity | changeFolder | noChild => trivial
  | @raised limit stage s events error h =>
    rw [Journal.during, List.map_append]
    refine Scene.throughout_append.2 ⟨?_, hnone (by simp [Note.content?])⟩
    cases h with
    | descent | changeFolder => trivial
    | listing h => exact hnone (by simp [Note.content?])
    | content h => exact h.belongs hsuits
  | refused h =>
    refine hnone ?_
    simp only [Journal.during, List.map_append, List.map_cons, List.cons_append, List.map_nil,
      List.forall_mem_append, List.forall_mem_cons]
    exact ⟨rfl, ⟨h.content? hW, rfl, by simp⟩, rfl, by simp⟩
  | @executed limit mark s s' manifest requests commands notes result h hplan hcommands ih =>
    rw [List.append_assoc]
    refine Scene.throughout_append.2 ⟨hnone ?_, ?_⟩
    · simp only [Journal.during, List.map_append, List.map_cons, List.map_nil,
        List.forall_mem_append, List.forall_mem_cons]
      exact ⟨⟨rfl, fun note hnote ↦ (content?_of_loads hW s h note hnote).2⟩, rfl, by simp⟩
    · refine ⟨belongs_of_content?_eq_none rfl, ?_⟩
      refine Scene.throughout_append.2 ⟨ih _ fun _ ↦ ?_, hnone (by simp [Note.content?])⟩
      exact ⟨manifest, [], standsIn_planned hW h hplan⟩
  | next h hrest ih ihrest =>
    refine Scene.throughout_append.2 ⟨⟨hsuits.belongs_started, ih _ hsuits.started⟩, ?_⟩
    exact ⟨belongs_of_content?_eq_none rfl, ihrest _ (hsuits.ended h)⟩
  | stopped h ih =>
    refine Scene.throughout_append.2 ⟨⟨hsuits.belongs_started, ih _ hsuits.started⟩, ?_⟩
    exact hnone (by simp [Note.content?])
  | content h => exact h.belongs hsuits
  | singleFolder h ih => exact ih scene trivial
  | all h hchildren ih => exact ⟨belongs_of_content?_eq_none rfl, ih _ trivial⟩
  | descent h hfolder ih =>
    refine ⟨belongs_of_content?_eq_none rfl, ?_⟩
    exact Scene.throughout_append.2 ⟨ih _ trivial, hnone (by simp [Note.content?])⟩
  | ignored h ih => exact ih scene trivial
  | child hname h hrest ih ihrest =>
    exact Scene.throughout_append.2 ⟨ih scene trivial, ihrest _ trivial⟩
  | isolated hname h herror hrest ih ihrest =>
    exact Scene.throughout_append.2
      ⟨ih scene trivial, belongs_of_content?_eq_none rfl, ihrest _ trivial⟩
  | childStopped hname h hstop ih => exact ih scene trivial

/-- Content work is done where the run is, in the folder that was visited, entered and read last,
by a command of its manifest, and the command set of this manifest is the only one with such a
command. -/
theorem content_of_folder_entered_last (limit : Nat) (w : World ρ) (s : Session)
    {before after : Journal} {note : Note} {folder : RemotePath} {handler : Handler}
    (hsplit : e.journal limit w s = before ++ note :: after)
    (hcontent : note.content? = some (folder, handler)) :
    note.session.traversal.currentFolder = folder ∧ note.session.visited.getLast? = some folder ∧
      (Scene.after {} (before ++ [note])).entered = some folder ∧
      ∃ manifest commands command,
        (Scene.after {} (before ++ [note])).loaded = some (folder, manifest) ∧
        Plan.ofRecords manifest.commandSet manifest.records = .ok commands ∧
        command ∈ commands ∧ (Scene.after {} (before ++ [note])).started = some command ∧
        command.handler = handler ∧ ∀ set : CommandSet, handler ∈ set.handlers ↔
          set = manifest.commandSet := by
  have hbelongs : Scene.Throughout (e.Belongs fun _ ↦ True) {} (e.journal limit w s) := by
    obtain ⟨notes, s', hcourse, hjournal⟩ := exists_course e.lasts_true limit w s trivial
    rw [hjournal]
    exact ⟨belongs_of_content?_eq_none rfl, hcourse.belongs e.lasts_true _ trivial⟩
  rw [hsplit] at hbelongs
  obtain ⟨rfl, manifest, commands, hstands, command, hmem, hstarted, rfl⟩ :=
    hbelongs.at_note folder handler hcontent
  have hhandler := Plan.handler_mem_handlers hstands.planned hmem
  refine ⟨rfl, hstands.visited, hstands.entered, manifest, commands, command, hstands.loaded,
    hstands.planned, hmem, hstarted, rfl, fun set ↦ ⟨?_, ?_⟩⟩
  · exact CommandSet.eq_of_mem_handlers hhandler (Note.isContent_of_content? hcontent)
  · rintro rfl
    exact hhandler

/-- The folder `t` goes down to the story `t/a`, and `t/a` has its story built. -/
def withStory : Engine Unit :=
  overManifests
    [(["t"], "command_set: content
---
command: identity
---
" ++
      "command: process_single_folder
folder: a
folder_type: story
---
command: identity
"),
    (["t", "a"], "command_set: story
---
command: identity
---
command: story
")]

theorem content_of_folder_entered_last_withStory :
    ∃ before note after,
      withStory.journal 2 .withScratch (.start (.ofText "t")) = before ++ note :: after ∧
      note.content? = some (.ofText "t/a", .processStory) ∧
      note.session.traversal.currentFolder = .ofText "t/a" ∧
      note.session.visited.getLast? = some (.ofText "t/a") := by
  have hwork : .story ⟨.ofText "t/a", "/tmp", {}⟩ ∈
      (withStory.journal 2 .withScratch (.start (.ofText "t"))).work := by
    decide +kernel
  obtain ⟨s, hmem⟩ := Journal.mem_work.1 hwork
  obtain ⟨before, after, hsplit⟩ := List.append_of_mem hmem
  obtain ⟨hcurrent, hvisited, -⟩ := content_of_folder_entered_last 2 _ _ hsplit rfl
  exact ⟨before, _, after, hsplit, rfl, hcurrent, hvisited⟩

end Engine

end FolderCommands
