import FolderCommands.Proofs.Run.Course
import FolderCommands.Proofs.Run.Steps

/-!
# The engine applied to a state

One equation for each function of the traversal: its outcome and the state after it, in terms of
the parts that it runs.
-/

namespace FolderCommands

namespace RunState

variable {ρ : Type}

/-- The state after an inquiry. -/
def inquired (s : RunState ρ) (after : Inquired ρ) : RunState ρ :=
  { s with
    world := after.world
    journal := s.journal ++ Journal.during s.session (after.requests.map .asked) }

end RunState

namespace Run

variable {ρ α : Type}

theorem inquire_apply (inquiry : Inquiry ρ α) (s : RunState ρ) :
    inquire inquiry s = ((inquiry { world := s.world }).1.mapError .failed,
      s.inquired (inquiry { world := s.world }).2) := by
  simp only [inquire, RunState.inquired, Journal.during, List.map_map]
  rfl

theorem act_apply (action : Action ρ α) (s : RunState ρ) :
    act action s = ((action s.world).1.mapError .failed,
      { s with world := (action s.world).2 }) := rfl

end Run

namespace Engine

open Run

variable {ρ : Type}

theorem inContent_apply (folder : RemotePath) (part : Run ρ Unit) (s : RunState ρ) :
    inContent folder part s = match part s with
      | (.error (.failed error), s') => (.error (.failed (contentError folder error)),
          s'.noted (.raised (contentError folder error)))
      | (result, s') => (result, s') := by
  simp only [inContent, raising_apply, mapError, bind_apply, outcome_apply]
  rcases part s with ⟨(error | _) | _, s'⟩ <;> rfl

theorem descend_apply (inner : Run ρ Unit) (child : String) (s : RunState ρ) :
    descend inner child s =
      let here := s.session.traversal.currentFolder
      let started := (s.noted (.descended (here.join child))).updated (·.entering child)
      if (here.join child).isDescendantOf s.session.traversal.topFolder then
        ((inner started).1,
          ((inner started).2.updated (·.backIn here)).noted (.returned (here.join child)))
      else
        (.error (.failed (escapeError here child)),
          s.noted (.raised (escapeError here child))) := by
  simp only [descend, bind_apply, session_apply]
  split
  · simp only [bind_apply, note_apply, updateSession_apply]
    rw [andFinally_apply]
    · rfl
    · simp only [bind_apply, note_apply, updateSession_apply]
      rfl
  · rw [raising_fail_apply]

theorem isolate_apply (parent : RemotePath) (child : String) (part : Run ρ Unit)
    (s : RunState ρ) :
    isolate parent child part s = match part s with
      | (.error (.failed error), s') =>
        if error.isRecoverable then
          (.ok (), (s'.updated (·.isolating (parent.join child) error)).noted
            (.isolated (parent.join child) error))
        else (.error (.failed error), s')
      | (result, s') => (result, s') := by
  simp only [isolate, bind_apply, outcome_apply]
  rcases part s with ⟨(error | _) | _, s'⟩
  · simp only
    split <;> rfl
  · rfl
  · rfl

theorem descendEach_cons_apply (inner : Run ρ Unit) (parent : RemotePath) (child : String)
    (children : List String) (s : RunState ρ) :
    descendEach inner parent (child :: children) s =
      if child = ignoredFolder then descendEach inner parent children s
      else match isolate parent child (descend inner child) s with
        | (.ok (), s') => descendEach inner parent children s'
        | (.error stop, s') => (.error stop, s') := by
  by_cases h : child = ignoredFolder
  · simp only [descendEach, h, ne_eq, not_true_eq_false, if_false, if_true]
  · simp only [descendEach, h, ne_eq, not_false_eq_true, if_true, if_false, bind_apply]
    rcases isolate parent child (descend inner child) s with ⟨_ | _, _⟩ <;> rfl

theorem descendAll_apply (e : Engine ρ) (inner : Run ρ Unit) (s : RunState ρ) :
    e.descendAll inner s =
      let parent := s.session.traversal.currentFolder
      let asked := s.noted (.asked (.listDirectories parent))
      match e.store.listDirectories parent s.world with
      | (.ok names, world) => descendEach inner parent names { asked with world }
      | (.error error, world) =>
        (.error (.failed error), RunState.noted { asked with world } (.raised error)) := by
  simp only [descendAll, bind_apply, session_apply, raising_apply, inquire_apply,
    Store.askDirectories, Inquiry.ask]
  rcases e.store.listDirectories s.session.traversal.currentFolder s.world with ⟨_ | _, world⟩ <;>
    rfl

theorem changeFolder_apply (child : String) (s : RunState ρ) :
    changeFolder child s =
      let top := s.session.traversal.topFolder
      if (top.join child).isDescendantOf top then
        (.ok (), s.updated fun session ↦
          { session with traversal := session.traversal.changeFolder child })
      else (.error (.failed (escapeError top child)),
        s.noted (.raised (escapeError top child))) := by
  simp only [changeFolder, bind_apply, session_apply]
  split
  · rfl
  · rw [raising_fail_apply]

theorem executeEach_cons_apply (e : Engine ρ) (inner : Run ρ Unit) (command : Command)
    (commands : List Command) (s : RunState ρ) :
    e.executeEach inner (command :: commands) s =
      match e.execute inner command (s.noted (.started command)) with
      | (.ok (), s') => e.executeEach inner commands (s'.noted (.ended command))
      | (.error stop, s') => (.error stop, s'.noted (.ended command)) := by
  simp only [executeEach, bind_apply, note_apply]
  rw [andFinally_apply _ _ _ _ (note_apply _ _)]
  rcases e.execute inner command (s.noted (.started command)) with ⟨_ | _, s'⟩ <;> rfl

theorem plan_apply (e : Engine ρ) (folder : RemotePath) (mark : String) (s : RunState ρ) :
    e.plan folder mark s =
      match Manifest.load e.store e.scratch.path folder mark { world := s.world } with
      | (.error error, after) => (.error (.failed error), (s.inquired after).noted (.raised error))
      | (.ok manifest, after) =>
        let loaded := (s.inquired after).noted (.loaded folder manifest)
        match Plan.ofRecords manifest.commandSet manifest.records with
        | .ok commands => (.ok (manifest.commandSet, commands), loaded)
        | .error error => (.error (.failed error), loaded.noted (.raised error)) := by
  simp only [plan, bind_apply, raising_apply, inquire_apply, note_apply]
  rcases Manifest.load e.store e.scratch.path folder mark { world := s.world } with
    ⟨error | manifest, after⟩
  · rfl
  · have hloaded : (Except.ok manifest).mapError Stop.failed = .ok manifest := rfl
    simp only [hloaded]
    cases Plan.ofRecords manifest.commandSet manifest.records with
    | ok commands => rfl
    | error error => simp only [raising_fail_apply]

theorem executeManifest_apply (e : Engine ρ) (inner : Run ρ Unit) (mark : String)
    (s : RunState ρ) :
    e.executeManifest inner mark s =
      let folder := s.session.traversal.currentFolder
      match e.plan folder mark s with
      | (.ok (set, commands), s') => e.executeEach inner commands
          ((s'.updated (·.visiting folder)).noted (.planned folder set commands))
      | (.error stop, s') => (.error stop, s') := by
  simp only [executeManifest, bind_apply, session_apply]
  rcases e.plan s.session.traversal.currentFolder mark s with ⟨_ | ⟨_, _⟩, _⟩ <;> rfl

theorem processFolder_apply (e : Engine ρ) (inner : Run ρ Unit) (mark : String) (s : RunState ρ) :
    e.processFolder inner mark s =
      let folder := s.session.traversal.currentFolder
      let (result, s') := e.executeManifest inner mark (s.noted (.entered folder))
      (result, (s'.updated (afterwards folder result)).noted (.left folder)) := by
  simp only [processFolder, bind_apply, session_apply, note_apply]
  rw [andFinally_apply _ _ _ _ (note_apply _ _)]
  simp only [onError, bind_apply, outcome_apply]
  rcases e.executeManifest inner mark _ with ⟨(error | _) | _, s'⟩ <;> rfl

/-- A folder without a plan is over at once. -/
theorem processFolder_of_plan_error (e : Engine ρ) (inner : Run ρ Unit) {mark : String}
    {s s' : RunState ρ} {stop : Stop}
    (h : e.plan s.session.traversal.currentFolder mark
      (s.noted (.entered s.session.traversal.currentFolder)) = (.error stop, s')) :
    e.processFolder inner mark s = (.error stop,
      (s'.updated (afterwards s.session.traversal.currentFolder (.error stop))).noted
        (.left s.session.traversal.currentFolder)) := by
  have hentered : (s.noted (.entered s.session.traversal.currentFolder)).session = s.session := rfl
  simp only [processFolder_apply, executeManifest_apply, hentered, h]

theorem processFolder_of_plan_ok (e : Engine ρ) (inner : Run ρ Unit) {mark : String}
    {s s' : RunState ρ} {set : CommandSet} {commands : List Command}
    (h : e.plan s.session.traversal.currentFolder mark
      (s.noted (.entered s.session.traversal.currentFolder)) = (.ok (set, commands), s')) :
    e.processFolder inner mark s =
      let folder := s.session.traversal.currentFolder
      let executed := e.executeEach inner commands
        ((s'.updated (·.visiting folder)).noted (.planned folder set commands))
      (executed.1, (executed.2.updated (afterwards folder executed.1)).noted (.left folder)) := by
  have hentered : (s.noted (.entered s.session.traversal.currentFolder)).session = s.session := rfl
  simp only [processFolder_apply, executeManifest_apply, hentered, h]
  rfl

end Engine

end FolderCommands
