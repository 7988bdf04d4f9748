import FolderCommands.Proofs.Plan
import FolderCommands.Proofs.Run.Backing
import FolderCommands.Proofs.Run.Memory

/-!
# Invalid folders are not executed in part

A folder whose manifest does not load, or has a record that does not form a command, is left as it
was entered: nothing is asked but what it takes to load the manifest, no work is handed over, and
the session keeps all but the folder to blame. The other way round, a command that is run comes
from a manifest every record of which has become a command, and its folder is visited by then.
-/

namespace FolderCommands.Engine

variable {ρ : Type} {e : Engine ρ} {W : World ρ → Prop}

/-! ## Refused folders -/

/-- Loading the manifest of the current folder. -/
def loading (e : Engine ρ) (mark : String) (s : RunState ρ) :
    Except Error Manifest × Inquired ρ :=
  Manifest.load e.store e.scratch.path s.session.traversal.currentFolder mark { world := s.world }

/-- Whether the current folder is invalid: its manifest does not load, or some record of it, at
any place, does not form a command. -/
def isInvalid (e : Engine ρ) (mark : String) (s : RunState ρ) : Bool :=
  match (e.loading mark s).1 with
  | .error _ => true
  | .ok manifest => manifest.records.any fun record ↦
      !(Plan.convert manifest.commandSet record).isOk

/-- What may be noted of a folder that is not executed. -/
def IsOfLoading (folder : RemotePath) (mark : String) : Event → Prop
  | .asked request => request = .listFiles folder ∨
      request = .downloadFile folder (Manifest.fileName mark)
  | .delegated _ | .started _ | .planned .. | .descended _ => False
  | _ => True

theorem Loads.isOfLoading {folder : RemotePath} {mark : String}
    {result : Except Error Manifest} {requests : List Request}
    (h : e.Loads W folder mark result requests) (hW : e.Lasts W) :
    ∀ event ∈ requests.map Event.asked, IsOfLoading folder mark event := by
  intro event hevent
  obtain ⟨request, hrequest, rfl⟩ := List.mem_map.1 hevent
  exact h.asked hW request hrequest

theorem Refuses.isOfLoading {mark : String} {s : Session} {events : List Event} {error : Error}
    (h : e.Refuses W mark s events error) (hW : e.Lasts W) :
    ∀ event ∈ events, IsOfLoading s.traversal.currentFolder mark event := by
  cases h with
  | unloaded h => exact h.isOfLoading hW
  | unplanned h hplan =>
    intro event hevent
    rcases List.mem_append.1 hevent with hasked | hloaded
    · exact h.isOfLoading hW event hasked
    · rw [List.mem_singleton.1 hloaded]
      trivial

/-- There is no plan for an invalid folder. -/
theorem exists_plan_error {mark : String} {s : RunState ρ} (h : e.isInvalid mark s) :
    ∃ stop s', e.plan s.session.traversal.currentFolder mark s = (.error stop, s') ∧
      s'.world = (e.loading mark s).2.world := by
  rw [plan_apply]
  simp only [isInvalid, loading] at h ⊢
  rcases hload : Manifest.load e.store e.scratch.path s.session.traversal.currentFolder mark
    { world := s.world } with ⟨error | manifest, after⟩
  · exact ⟨_, _, rfl, rfl⟩
  · rw [hload] at h
    obtain ⟨record, hmem, hrecord⟩ := List.any_eq_true.1 h
    obtain ⟨first, hfirst⟩ := Plan.exists_ofRecords_error hmem (by simpa using hrecord)
    simp only [hfirst]
    exact ⟨_, _, rfl, rfl⟩

/-- Processing an invalid folder fails and leaves the state as loading does, but for the folder to
blame and notes of the loading. -/
theorem process_of_isInvalid (limit : Nat) {mark : String} {s : RunState ρ}
    (h : e.isInvalid mark s) :
    ∃ error notes, e.process (limit + 1) mark s =
      (.error (.failed error),
        { world := (e.loading mark s).2.world
          session := blame s.session.traversal.currentFolder s.session
          journal := s.journal ++ notes }) ∧
      ∀ note ∈ notes, IsOfLoading s.session.traversal.currentFolder mark note.event := by
  let folder := s.session.traversal.currentFolder
  have hentered : e.isInvalid mark (s.noted (.entered folder)) := h
  obtain ⟨stop, s', hplan, hworld⟩ := exists_plan_error hentered
  obtain ⟨events, error, hrefuses, rfl, hpasses⟩ := plan_refused e.lasts_true trivial hplan
  have hsession : s'.session = s.session := hpasses.session
  refine ⟨error, Journal.during s.session (.entered folder :: events ++ [.raised error]) ++
    [⟨.left folder, blame folder s.session⟩], ?_, ?_⟩
  · change e.processFolder (e.process limit "") mark s = _
    rw [processFolder_of_plan_error e _ hplan]
    simp only [RunState.noted, RunState.updated, afterwards, hsession, hworld, hpasses.journal]
    simp [Journal.during, folder, loading]
  · intro note hnote
    rcases List.mem_append.1 hnote with hduring | hleft
    · obtain ⟨event, hevent, rfl⟩ := List.mem_map.1 hduring
      simp only [List.cons_append, List.mem_cons, List.mem_append, List.not_mem_nil, or_false]
        at hevent
      rcases hevent with rfl | hevent | rfl
      · trivial
      · exact hrefuses.isOfLoading e.lasts_true event hevent
      · trivial
    · rw [List.mem_singleton.1 hleft]
      trivial

theorem work_eq_nil_of_isOfLoading {folder : RemotePath} {mark : String} {notes : Journal}
    (h : ∀ note ∈ notes, IsOfLoading folder mark note.event) : notes.work = [] := by
  rw [List.eq_nil_iff_forall_not_mem]
  intro work hwork
  obtain ⟨s, hmem⟩ := Journal.mem_work.1 hwork
  exact h _ hmem

theorem requests_of_isOfLoading {folder : RemotePath} {mark : String} {notes : Journal}
    (h : ∀ note ∈ notes, IsOfLoading folder mark note.event) :
    ∀ request ∈ notes.requests, request = .listFiles folder ∨
      request = .downloadFile folder (Manifest.fileName mark) := by
  intro request hrequest
  obtain ⟨s, hmem⟩ := Journal.mem_requests.1 hrequest
  exact h _ hmem

/-! ## Commands that are run -/

/-- No command is run on part of a manifest: a folder with an invalid manifest is left as it was
entered, and a command that is run comes from a plan for every record of the manifest of a folder
that has been visited. -/
theorem no_partial_execution (e : Engine ρ) :
    (∀ (limit : Nat) (mark : String) (s : RunState ρ), e.isInvalid mark s →
      ∃ error notes, e.process (limit + 1) mark s =
        (.error (.failed error),
          { world := (e.loading mark s).2.world
            session := blame s.session.traversal.currentFolder s.session
            journal := s.journal ++ notes }) ∧
        notes.work = [] ∧
        (∀ request ∈ notes.requests,
          request = .listFiles s.session.traversal.currentFolder ∨
            request = .downloadFile s.session.traversal.currentFolder (Manifest.fileName mark)) ∧
        ∀ note ∈ notes, ∀ command, note.event ≠ .started command) ∧
    ∀ (limit : Nat) (w : World ρ) (s : Session) (before after : Journal) (note : Note)
      (command : Command), e.journal limit w s = before ++ note :: after →
      note.event = .started command →
      ∃ (a : Activation) (rest : List Activation) (manifest : Manifest) (commands : List Command),
        ((Place.start s).after before).active = a :: rest ∧
        a.manifest = some manifest ∧
        (∃ mark requests, e.Loads (fun _ ↦ True) a.folder mark (.ok manifest) requests) ∧
        manifest.records.map (Plan.convert manifest.commandSet) = commands.map .ok ∧
        command ∈ commands ∧ a.opening.visited ++ [a.folder] <+: note.session.visited := by
  constructor
  · intro limit mark s h
    obtain ⟨error, notes, hprocess, hnotes⟩ := process_of_isInvalid limit h
    refine ⟨error, notes, hprocess, work_eq_nil_of_isOfLoading hnotes,
      requests_of_isOfLoading hnotes, ?_⟩
    intro note hmem command hstarted
    have hloading := hnotes note hmem
    rw [hstarted] at hloading
    exact hloading
  · intro limit w s before after note command hjournal hstarted
    have halong := e.journal_along limit w s
    rw [hjournal] at halong
    obtain ⟨hbefore, hturn, -⟩ := Place.throughout_append.1 halong
    have hbacked := hbefore.invariant isBacked_next (by simp [Place.start])
    cases hturn <;> cases hstarted
    rename_i a rest commands hactive hcommands hmem
    have ha := hbacked a (by rw [hactive]; exact List.mem_cons_self ..)
    obtain ⟨manifest, hmanifest, hplan⟩ := ha.planned commands hcommands
    exact ⟨a, rest, manifest, commands, hactive, hmanifest, ha.loaded manifest hmanifest,
      Plan.map_convert_of_ofRecords hplan, hmem, ha.visited commands hcommands⟩

/-- The folder `t` is executed. Of the two records of `t/a` below it, the second forms no command. -/
def halfInvalid : Engine Unit := .overManifests [
  (["t"], "command_set: content\n---\ncommand: all\n"),
  (["t", "a"], "command_set: story\n---\ncommand: story\n---\ncommand: paint\n")]

theorem no_partial_execution_halfInvalid :
    (∃ error notes, (halfInvalid.process 1 ""
        { world := .withScratch, session := .start (.ofText "t/a") }).1 = .error (.failed error) ∧
      (halfInvalid.process 1 ""
        { world := .withScratch, session := .start (.ofText "t/a") }).2.journal = notes ∧
      notes.work = []) ∧
    ∃ (note : Note) (command : Command) (folder : RemotePath),
      note ∈ halfInvalid.journal 2 .withScratch (.start (.ofText "t")) ∧
        note.event = .started command ∧ folder ∈ note.session.visited := by
  obtain ⟨hrefused, hstarted⟩ := no_partial_execution halfInvalid
  constructor
  · obtain ⟨error, notes, hprocess, hwork, -⟩ := hrefused 0 ""
      { world := .withScratch, session := .start (.ofText "t/a") } (by decide +kernel)
    exact ⟨error, notes, by rw [hprocess], by rw [hprocess, List.nil_append], hwork⟩
  · have hall : Command.all ∈
        (halfInvalid.journal 2 .withScratch (.start (.ofText "t"))).started := by
      decide +kernel
    obtain ⟨s, hmem⟩ := Journal.mem_started.1 hall
    obtain ⟨before, after, hsplit⟩ := List.append_of_mem hmem
    obtain ⟨a, -, -, -, -, -, -, -, -, hvisited⟩ :=
      hstarted 2 .withScratch (.start (.ofText "t")) before after _ .all hsplit rfl
    refine ⟨_, .all, a.folder, hmem, rfl, hvisited.subset ?_⟩
    exact List.mem_append_right _ (List.mem_singleton_self _)

end FolderCommands.Engine
