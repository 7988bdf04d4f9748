import FolderCommands.Proofs.Run.Accounting
import FolderCommands.Proofs.Store.Listing

/-!
# The children of a loop

Whatever happens in a child, the run comes back from it, and all that it goes down to meanwhile is
inside that child. So a loop over the children of a folder that ends well has gone down to exactly
the folders that the listed names lead to, in their order, but for the ignored one. Over a directory
store whose names are not padded these are the directories of the folder, each once.
-/

namespace FolderCommands

/-- Whether an event neither opens nor closes a layer. -/
def Event.isLevel : Event → Bool
  | .started _ | .ended _ | .descended _ | .returned _ => false
  | _ => true

theorem Event.isLevel_of_isInert {event : Event} (h : event.isInert = true) :
    event.isLevel = true := by
  cases event <;> first | rfl | cases h

namespace Layer

/-- Whether some layer is a child to which the run has gone down. -/
def isInside (layers : List Layer) : Bool :=
  layers.any fun
    | below _ => true
    | running _ => false

/-- The children to which some notes go down, but not from inside another child. -/
def descents (layers : List Layer) : Journal → List RemotePath
  | [] => []
  | note :: notes =>
    (match note.event with
      | .descended child => if isInside layers then [] else [child]
      | _ => []) ++ descents (next layers note) notes

theorem descents_append (layers : List Layer) (notes notes' : Journal) :
    descents layers (notes ++ notes') =
      descents layers notes ++ descents (after layers notes) notes' := by
  induction notes generalizing layers with
  | nil => rfl
  | cons note notes ih =>
    rw [List.cons_append, descents, descents, ih, List.append_assoc]
    rfl

/-- Whether some notes close all layers that they open, and no other, and go down to nothing if
they start inside a child. -/
def IsBalanced (notes : Journal) : Prop :=
  ∀ layers, after layers notes = layers ∧ (isInside layers = true → descents layers notes = [])

theorem isBalanced_nil : IsBalanced [] :=
  fun _ ↦ ⟨rfl, fun _ ↦ rfl⟩

variable {notes notes' : Journal}

theorem IsBalanced.append (h : IsBalanced notes) (h' : IsBalanced notes') :
    IsBalanced (notes ++ notes') := by
  intro layers
  refine ⟨?_, fun hinside ↦ ?_⟩
  · rw [after_append, (h layers).1, (h' layers).1]
  · rw [descents_append, (h layers).1, (h layers).2 hinside, (h' layers).2 hinside]
    rfl

theorem isBalanced_note {event : Event} (h : event.isLevel = true) (s : Session) :
    IsBalanced [⟨event, s⟩] := by
  intro layers
  cases event <;> first | exact ⟨rfl, fun _ ↦ rfl⟩ | cases h

theorem IsBalanced.cons (h : IsBalanced notes) {event : Event} (hevent : event.isLevel = true)
    (s : Session) : IsBalanced (⟨event, s⟩ :: notes) :=
  (isBalanced_note hevent s).append h

theorem isBalanced_during {events : List Event} (h : ∀ event ∈ events, event.isLevel = true)
    (s : Session) : IsBalanced (Journal.during s events) := by
  induction events with
  | nil => exact isBalanced_nil
  | cons event events ih =>
    obtain ⟨hevent, hrest⟩ := List.forall_mem_cons.1 h
    exact (ih hrest).cons hevent s

/-- The notes of a command. -/
theorem IsBalanced.running (h : IsBalanced notes) (command : Command) (s s' : Session) :
    IsBalanced (⟨.started command, s⟩ :: notes ++ [⟨.ended command, s'⟩]) := by
  intro layers
  obtain ⟨hafter, hnone⟩ := h (.running command :: layers)
  refine ⟨?_, fun hinside ↦ ?_⟩
  · rw [after_append]
    exact congrArg List.tail hafter
  · rw [descents_append]
    change descents (.running command :: layers) notes ++ [] = []
    rw [hnone hinside, List.append_nil]

/-- The notes of a child go down to it, and to nothing else from outside. -/
theorem IsBalanced.descents_below (h : IsBalanced notes) (child : RemotePath) (s s' : Session)
    (layers : List Layer) :
    after layers (⟨.descended child, s⟩ :: notes ++ [⟨.returned child, s'⟩]) = layers ∧
      descents layers (⟨.descended child, s⟩ :: notes ++ [⟨.returned child, s'⟩]) =
        if isInside layers then [] else [child] := by
  obtain ⟨hafter, hnone⟩ := h (.below child :: layers)
  constructor
  · rw [after_append]
    exact congrArg List.tail hafter
  · rw [descents_append]
    change ((if isInside layers then [] else [child]) ++
      descents (.below child :: layers) notes) ++ [] = _
    rw [hnone rfl, List.append_nil, List.append_nil]

theorem IsBalanced.below (h : IsBalanced notes) (child : RemotePath) (s s' : Session) :
    IsBalanced (⟨.descended child, s⟩ :: notes ++ [⟨.returned child, s'⟩]) := by
  intro layers
  obtain ⟨hafter, hdescents⟩ := h.descents_below child s s' layers
  refine ⟨hafter, fun hinside ↦ ?_⟩
  rw [hdescents, if_pos hinside]

end Layer

namespace Engine

open Layer

variable {ρ : Type} {e : Engine ρ} {W : World ρ → Prop}

/-! ## Stages -/

theorem isBalanced_raised {events : List Event} (h : ∀ event ∈ events, event.isInert = true)
    (error : Error) (s : Session) :
    IsBalanced (Journal.during s (events ++ [.raised error])) := by
  apply isBalanced_during
  rw [List.forall_mem_append]
  exact ⟨fun event hmem ↦ Event.isLevel_of_isInert (h event hmem), by simp [Event.isLevel]⟩

/-- Every stage comes back to the layers from which it started. -/
theorem Course.isBalanced {limit : Nat} {stage : Stage} {s s' : Session} {notes : Journal}
    {result : Except Stop Unit} (h : e.Course W limit stage s notes result s') :
    IsBalanced notes := by
  induction h with
  | tooDeep => exact isBalanced_nil
  | raised h => exact isBalanced_raised h.isInert _ _
  | refused h =>
    refine IsBalanced.append ?_ (isBalanced_note rfl _)
    exact isBalanced_raised (List.forall_mem_cons.2 ⟨rfl, h.isInert⟩) _ _
  | executed h hplan hcommands ih =>
    refine (IsBalanced.append (isBalanced_during ?_ _) (ih.cons rfl _)).append
      (isBalanced_note rfl _)
    rw [List.forall_mem_append, List.forall_mem_cons]
    exact ⟨⟨rfl, fun event hmem ↦ Event.isLevel_of_isInert (isInert_asked event hmem)⟩,
      by simp [Event.isLevel]⟩
  | done => exact isBalanced_nil
  | next h hrest ih ihrest =>
    rw [List.append_cons]
    exact (ih.running _ _ _).append ihrest
  | stopped h ih => exact ih.running _ _ _
  | identity => exact isBalanced_nil
  | changeFolder h => exact isBalanced_nil
  | content h =>
    exact isBalanced_during (fun event hmem ↦ Event.isLevel_of_isInert (h.isInert event hmem)) _
  | singleFolder h ih => exact ih
  | all h hchildren ih => exact ih.cons rfl _
  | descent h hfolder ih => exact ih.below _ _ _
  | noChild => exact isBalanced_nil
  | ignored h ih => exact ih
  | child hname h hrest ih ihrest => exact ih.append ihrest
  | isolated hname h herror hrest ih ihrest => exact ih.append (ihrest.cons rfl _)
  | childStopped hname h hstop ih => exact ih

/-- A child that does not stop the loop around it is one to which the run goes down. -/
theorem Course.descents_descent {limit : Nat} {s s' : Session} {name : String} {notes : Journal}
    {result : Except Stop Unit} (h : e.Course W limit (.descent name) s notes result s')
    (hresult : result ≠ .error (.failed (escapeError s.traversal.currentFolder name)))
    {layers : List Layer} (hlayers : isInside layers = false) :
    descents layers notes = [s.traversal.currentFolder.join name] := by
  cases h with
  | raised h =>
    cases h with
    | descent hescapes => exact absurd rfl hresult
  | descent h hfolder =>
    rw [(hfolder.isBalanced.descents_below _ _ _ layers).2, hlayers, if_neg Bool.false_ne_true]

/-- A loop over children that ends well has gone down to all of them but the ignored ones. -/
theorem Course.descents_children {limit : Nat} {parent : RemotePath} {names : List String}
    {s s' : Session} {notes : Journal}
    (h : e.Course W limit (.children parent names) s notes (.ok ()) s')
    (hparent : s.traversal.currentFolder = parent) {layers : List Layer}
    (hlayers : isInside layers = false) :
    descents layers notes = (names.filter (· ≠ ignoredFolder)).map parent.join := by
  induction names generalizing s notes with
  | nil =>
    cases h
    rfl
  | cons name names ih =>
    cases h with
    | ignored h =>
      rw [ih h hparent, List.filter_cons_of_neg (by simp)]
    | child hname h hrest =>
      rw [descents_append, h.descents_descent (by simp) hlayers, (h.isBalanced layers).1,
        ih hrest (h.currentFolder_descent.trans hparent), hparent,
        List.filter_cons_of_pos (by simpa using hname)]
      rfl
    | isolated hname h herror hrest =>
      rename_i notes notes' error
      have hresult : (Except.error (.failed error) : Except Stop Unit) ≠
          .error (.failed (escapeError s.traversal.currentFolder name)) := by
        rintro ⟨⟩
        cases herror
      rw [descents_append, h.descents_descent hresult hlayers, (h.isBalanced layers).1,
        List.filter_cons_of_pos (by simpa using hname), List.map_cons, hparent]
      change parent.join name :: descents layers notes' = _
      rw [ih hrest (h.currentFolder_descent.trans hparent)]

/-! ## Loops over the directories of a folder -/

/-- What a loop over the children of a folder goes down to if it ends well. -/
theorem descents_descendAll (e : Engine ρ) (limit : Nat) {s : RunState ρ}
    (h : (e.descendAll (e.process limit "") s).1 = .ok ()) :
    ∃ names notes,
      (e.store.listDirectories s.session.traversal.currentFolder s.world).1 = .ok names ∧
      (e.descendAll (e.process limit "") s).2.journal = s.journal ++ notes ∧
      descents [] notes =
        (names.filter (· ≠ ignoredFolder)).map s.session.traversal.currentFolder.join := by
  rw [descendAll_apply] at h ⊢
  dsimp only at h ⊢
  rcases hlist : e.store.listDirectories s.session.traversal.currentFolder s.world with
    ⟨error | names, world⟩
  · rw [hlist] at h
    cases h
  · rw [hlist] at h
    let listed : RunState ρ := { s.noted (.asked (.listDirectories
      s.session.traversal.currentFolder)) with world }
    obtain ⟨notes, hcourse, hjournal, -⟩ := follows_descendEach
      (follows_process e.lasts_true limit "") s.session.traversal.currentFolder names listed trivial
    rw [show _ = Except.ok () from h] at hcourse
    refine ⟨names, ⟨.asked (.listDirectories s.session.traversal.currentFolder), s.session⟩ ::
      notes, rfl, ?_, hcourse.descents_children rfl rfl⟩
    rw [List.append_cons]
    exact hjournal

/-- A local directory with a folder `t` in which there are some folders, each with a story. -/
def folderDisk (names : List String) : Disk where
  tree := (Tree.ofManifests (names.map fun name ↦
    (["store", "t", name], "command_set: story\n---\ncommand: story\n"))).put ["tmp"] .directory

/-- An engine over that directory. -/
def overFolders : Engine Unit :=
  { overManifests [] with store := directoryStore "/store" }

/-- A loop over the folders in `t`. -/
def loopOver (names : List String) : Except Stop Unit × RunState Unit :=
  overFolders.descendAll (overFolders.process 10 "")
    { world := ⟨folderDisk names, ()⟩, session := .start (.ofText "t") }

end Engine

end FolderCommands
