import FolderCommands.Proofs.Run.Growth
import FolderCommands.Proofs.Run.Termination

/-!
# What becomes of an error

The notes of a run tell which commands are under way and to which children it has gone down. An
error of content work that arises below a loop over children is kept by the innermost such loop
and recorded as one failure of the child that the loop is at. Every other error ends the run at
once: after it the run only comes back from where it is. So the failures of a run are exactly what
its errors call for, each once and in their order, and at most the last error is left over.
-/

namespace FolderCommands

/-- What a run is in the middle of: a command, or a child to which it has gone down. -/
inductive Layer where
  | running (command : Command)
  | below (child : RemotePath)

namespace Layer

/-- The layers after a note, innermost first. -/
def next (layers : List Layer) (note : Note) : List Layer :=
  match note.event with
  | .started command => .running command :: layers
  | .descended child => .below child :: layers
  | .ended _ | .returned _ => layers.tail
  | _ => layers

/-- The layers after some notes. -/
def after (layers : List Layer) (notes : Journal) : List Layer :=
  notes.foldl next layers

/-- The child at which the innermost loop over children is. -/
def loopChild? : List Layer → Option RemotePath
  | .below child :: .running .all :: _ => some child
  | _ :: layers => loopChild? layers
  | [] => none

/-- The failure to record for an error that arises inside some layers, if a loop keeps it. -/
def failure? (layers : List Layer) (error : Error) : Option FolderFailure :=
  if error.isRecoverable then
    (loopChild? layers).map fun child ↦ ⟨child.text, error.message⟩
  else none

/-- For each error of some notes, in order, the failure to record. -/
def verdicts (layers : List Layer) : Journal → List (Option FolderFailure)
  | [] => []
  | note :: notes =>
    (match note.event with
      | .raised error => [failure? layers error]
      | _ => []) ++ verdicts (next layers note) notes

theorem after_append (layers : List Layer) (notes notes' : Journal) :
    after layers (notes ++ notes') = after (after layers notes) notes' :=
  List.foldl_append

theorem verdicts_append (layers : List Layer) (notes notes' : Journal) :
    verdicts layers (notes ++ notes') =
      verdicts layers notes ++ verdicts (after layers notes) notes' := by
  induction notes generalizing layers with
  | nil => rfl
  | cons note notes ih =>
    rw [List.cons_append, verdicts, verdicts, ih, List.append_assoc]
    rfl

theorem verdicts_raised (layers : List Layer) (error : Error) (s : Session) (notes : Journal) :
    verdicts layers (⟨.raised error, s⟩ :: notes) =
      failure? layers error :: verdicts layers notes :=
  rfl

theorem reduceOption_map_some (failures : List FolderFailure) :
    (failures.map some).reduceOption = failures := by
  rw [List.reduceOption, List.filterMap_map]
  exact List.filterMap_some

theorem failure?_eq_some {layers : List Layer} {error : Error} {child : RemotePath}
    (herror : error.isRecoverable = true) (hchild : loopChild? layers = some child) :
    failure? layers error = some ⟨child.text, error.message⟩ := by
  rw [failure?, if_pos herror, hchild, Option.map_some]

theorem failure?_eq_none {layers : List Layer} {error : Error}
    (h : error.isRecoverable = true → loopChild? layers = none) :
    failure? layers error = none := by
  rw [failure?]
  split
  · rename_i herror
    rw [h herror, Option.map_none]
  · rfl

end Layer

/-- Whether an event neither is an error nor opens or closes a layer. -/
def Event.isInert : Event → Bool
  | .raised _ | .started _ | .ended _ | .descended _ | .returned _ => false
  | _ => true

/-- Whether an event only tells that something is over. -/
def Event.isQuiet : Event → Bool
  | .ended _ | .left _ | .returned _ => true
  | _ => false

namespace Layer

variable {layers : List Layer} {notes : Journal}

theorem after_of_isInert (h : ∀ note ∈ notes, note.event.isInert) :
    after layers notes = layers := by
  induction notes with
  | nil => rfl
  | cons note notes ih =>
    obtain ⟨hnote, hrest⟩ := List.forall_mem_cons.1 h
    have hnext : next layers note = layers := by
      obtain ⟨event, s⟩ := note
      cases event <;> first | rfl | cases hnote
    change after (next layers note) notes = layers
    rw [hnext]
    exact ih hrest

theorem verdicts_eq_nil (h : ∀ note ∈ notes, ∀ error, note.event ≠ .raised error) :
    verdicts layers notes = [] := by
  induction notes generalizing layers with
  | nil => rfl
  | cons note notes ih =>
    obtain ⟨hnote, hrest⟩ := List.forall_mem_cons.1 h
    rw [verdicts, ih hrest, List.append_nil]
    split
    · rename_i error hevent
      exact absurd hevent (hnote error)
    · rfl

theorem verdicts_of_isInert (h : ∀ note ∈ notes, note.event.isInert) :
    verdicts layers notes = [] := by
  apply verdicts_eq_nil
  intro note hmem error hevent
  have hinert := h note hmem
  rw [hevent] at hinert
  cases hinert

theorem verdicts_of_isQuiet (h : ∀ note ∈ notes, note.event.isQuiet) :
    verdicts layers notes = [] := by
  apply verdicts_eq_nil
  intro note hmem error hevent
  have hquiet := h note hmem
  rw [hevent] at hquiet
  cases hquiet

end Layer

namespace Engine

open Layer

variable {ρ : Type} {e : Engine ρ} {W : World ρ → Prop}

/-! ## Notes that leave the layers alone -/

theorem isInert_asked {requests : List Request} :
    ∀ event ∈ requests.map Event.asked, event.isInert := by
  intro event hevent
  obtain ⟨request, -, rfl⟩ := List.mem_map.1 hevent
  rfl

theorem ContentEvents.isInert {folder : RemotePath} {command : Command} {events : List Event}
    (h : e.ContentEvents folder command events) : ∀ event ∈ events, event.isInert := by
  cases h with
  | noSupport target => simp
  | story | files | support => simp [Event.isInert]
  | pages files hpages =>
    intro event hevent
    rcases List.mem_cons.1 hevent with rfl | hevent
    · rfl
    · obtain ⟨file, -, rfl⟩ := List.mem_map.1 hevent
      rfl

theorem Raises.isInert {s : Session} {stage : Stage} {events : List Event} {error : Error}
    (h : e.Raises W s stage events error) : ∀ event ∈ events, event.isInert := by
  cases h with
  | descent | changeFolder => simp
  | listing => simp [Event.isInert]
  | content hcontent => exact hcontent.isInert

theorem Refuses.isInert {mark : String} {s : Session} {events : List Event} {error : Error}
    (h : e.Refuses W mark s events error) : ∀ event ∈ events, event.isInert := by
  cases h with
  | unloaded h => exact isInert_asked
  | unplanned h hplan =>
    exact List.forall_mem_append.2 ⟨isInert_asked, List.forall_mem_singleton.2 rfl⟩

theorem isInert_during {s : Session} {events : List Event}
    (h : ∀ event ∈ events, event.isInert) :
    ∀ note ∈ Journal.during s events, note.event.isInert := by
  intro note hnote
  obtain ⟨event, hevent, rfl⟩ := List.mem_map.1 hnote
  exact h event hevent

/-! ## Errors of a stage -/

/-- Whether the errors of some notes call for `failures`, an error with which the notes end apart:
that one has arisen inside the loop at `child?`, if a loop could keep it, and nothing but the way
back comes after it. -/
def Settles (layers : List Layer) (child? : Option RemotePath) (notes : Journal)
    (failures : List FolderFailure) : Except Stop Unit → Prop
  | .error (.failed error) => ∃ before s after,
      notes = before ++ ⟨.raised error, s⟩ :: after ∧ verdicts layers before = failures.map some ∧
        (∀ note ∈ after, note.event.isQuiet) ∧
        (error.isRecoverable = true → loopChild? (Layer.after layers before) = child?)
  | _ => verdicts layers notes = failures.map some

section

variable {layers : List Layer} {child? : Option RemotePath} {notes : Journal}
  {failures : List FolderFailure} {result : Except Stop Unit}

/-- Notes in front, whose errors have been recorded. -/
theorem Settles.prepend {layers' : List Layer} {front : Journal} {failures' : List FolderFailure}
    (h : Settles layers child? notes failures result) (hlayers : Layer.after layers' front = layers)
    (hfront : verdicts layers' front = failures'.map some) :
    Settles layers' child? (front ++ notes) (failures' ++ failures) result := by
  rcases result with (error | _) | _
  · obtain ⟨before, s, after, rfl, hbefore, hquiet, hchild⟩ := h
    refine ⟨front ++ before, s, after, (List.append_assoc ..).symm, ?_, hquiet, ?_⟩
    · rw [verdicts_append, hfront, hlayers, hbefore, List.map_append]
    · rw [after_append, hlayers]
      exact hchild
  all_goals
    change verdicts layers notes = failures.map some at h
    change verdicts layers' (front ++ notes) = (failures' ++ failures).map some
    rw [verdicts_append, hfront, hlayers, h, List.map_append]

/-- Notes at the end that only tell that something is over. -/
theorem Settles.append {back : Journal} (h : Settles layers child? notes failures result)
    (hback : ∀ note ∈ back, note.event.isQuiet) :
    Settles layers child? (notes ++ back) failures result := by
  rcases result with (error | _) | _
  · obtain ⟨before, s, after, rfl, hbefore, hquiet, hchild⟩ := h
    exact ⟨before, s, after ++ back, by simp, hbefore, List.forall_mem_append.2 ⟨hquiet, hback⟩,
      hchild⟩
  all_goals
    change verdicts layers notes = failures.map some at h
    change verdicts layers (notes ++ back) = failures.map some
    rw [verdicts_append, h, verdicts_of_isQuiet hback, List.append_nil]

/-- Notes in front that tell of no error. -/
theorem Settles.prepend_silent {layers' : List Layer} (front : Journal)
    (h : Settles layers child? notes failures result) (hlayers : Layer.after layers' front = layers)
    (hfront : verdicts layers' front = []) :
    Settles layers' child? (front ++ notes) failures result := by
  have hall := h.prepend hlayers (hfront.trans List.map_nil.symm)
  rwa [List.nil_append] at hall

/-- An error that a loop at `child` keeps is one more failure. -/
theorem Settles.isolate {child : RemotePath} {error : Error}
    (h : Settles layers (some child) notes failures (.error (.failed error)))
    (herror : error.isRecoverable = true) :
    verdicts layers notes =
      (failures ++ [(⟨child.text, error.message⟩ : FolderFailure)]).map some := by
  obtain ⟨before, s, after, rfl, hbefore, hquiet, hchild⟩ := h
  rw [verdicts_append, verdicts_raised, hbefore, verdicts_of_isQuiet hquiet,
    failure?_eq_some herror (hchild herror), List.map_append]
  rfl

end

theorem settles_raised {layers : List Layer} {child? : Option RemotePath} {s : Session}
    {events : List Event} {error : Error} (h : ∀ event ∈ events, event.isInert)
    (hchild : error.isRecoverable = true → loopChild? layers = child?) :
    Settles layers child? (Journal.during s (events ++ [.raised error])) []
      (.error (.failed error)) := by
  refine ⟨Journal.during s events, s, [], by simp [Journal.during], ?_, by simp, ?_⟩
  · exact verdicts_of_isInert (isInert_during h)
  · rw [after_of_isInert (isInert_during h)]
    exact hchild

/-- The layers inside which a stage may begin. -/
def Opens (s : Session) : Stage → List Layer → Prop
  | .command command, layers => ∃ rest, layers = .running command :: rest
  | .children parent _, layers =>
    s.traversal.currentFolder = parent ∧ ∃ rest, layers = .running .all :: rest
  | _, _ => True

/-- The child of the loop that would keep an error with which a stage ends. -/
def keeper? (s : Session) (layers : List Layer) : Stage → Option RemotePath
  | .descent child => loopChild? (.below (s.traversal.currentFolder.join child) :: layers)
  | _ => loopChild? layers

theorem keeper?_of_raises {s : Session} {stage : Stage} {events : List Event} {error : Error}
    (h : e.Raises W s stage events error) (layers : List Layer)
    (herror : error.isRecoverable = true) : loopChild? layers = keeper? s layers stage := by
  cases h with
  | descent => cases herror
  | changeFolder | listing | content => rfl

theorem layers_during {layers : List Layer} {s : Session} {events : List Event} {error : Error}
    (h : ∀ event ∈ events, event.isInert) :
    Layer.after layers (Journal.during s (events ++ [.raised error])) = layers := by
  have hevents : Layer.after layers (Journal.during s events) = layers :=
    after_of_isInert (isInert_during h)
  rw [Journal.during] at hevents ⊢
  rw [List.map_append, after_append, hevents]
  rfl

theorem failures_afterwards (folder : RemotePath) (result : Except Stop Unit) (s : Session) :
    (afterwards folder result s).failures = s.failures := by
  rcases result with (_ | _) | _ <;> rfl

/-- Until a folder has its plan, nothing opens or closes a layer and no error arises. -/
theorem isInert_planned (s s' : Session) (folder : RemotePath) (manifest : Manifest)
    (requests : List Request) (commands : List Command) :
    ∀ note ∈ Journal.during s (.entered folder :: requests.map .asked ++ [.loaded folder manifest])
        ++ [⟨.planned folder manifest.commandSet commands, s'⟩], note.event.isInert := by
  have hevents : ∀ event ∈ Event.entered folder :: requests.map .asked ++
      [.loaded folder manifest], event.isInert :=
    List.forall_mem_append.2
      ⟨List.forall_mem_cons.2 ⟨rfl, isInert_asked⟩, List.forall_mem_singleton.2 rfl⟩
  exact List.forall_mem_append.2 ⟨isInert_during hevents, List.forall_mem_singleton.2 rfl⟩

/-! ## Failures from one session to another -/

/-- Whether the failures that are recorded from one session to another are those for which the
errors of some notes call, and the notes close the layers that they open. -/
def Books (layers : List Layer) (child? : Option RemotePath) (s : Session) (notes : Journal)
    (result : Except Stop Unit) (s' : Session) : Prop :=
  ∃ failures, s'.failures = s.failures ++ failures ∧ Layer.after layers notes = layers ∧
    Settles layers child? notes failures result

section

variable {layers : List Layer} {child? : Option RemotePath} {s s' s'' : Session} {notes : Journal}
  {result : Except Stop Unit}

theorem books_of_isInert (hnotes : ∀ note ∈ notes, note.event.isInert)
    (hs : s'.failures = s.failures) : Books layers child? s notes (.ok ()) s' := by
  refine ⟨[], ?_, after_of_isInert hnotes, verdicts_of_isInert hnotes⟩
  rw [hs, List.append_nil]

theorem books_raised {events : List Event} {error : Error} (h : ∀ event ∈ events, event.isInert)
    (hchild : error.isRecoverable = true → loopChild? layers = child?) :
    Books layers child? s (Journal.during s (events ++ [.raised error])) (.error (.failed error))
      s :=
  ⟨[], (List.append_nil _).symm, layers_during h, settles_raised h hchild⟩

/-- What is done and what comes after it. -/
theorem Books.trans {child?' : Option RemotePath} {notes' : Journal}
    (h : Books layers child? s notes (.ok ()) s') (h' : Books layers child?' s' notes' result s'') :
    Books layers child?' s (notes ++ notes') result s'' := by
  obtain ⟨failures, hfailures, hlayers, hverdicts⟩ := h
  obtain ⟨failures', hfailures', hlayers', hsettles⟩ := h'
  refine ⟨failures ++ failures', ?_, ?_, hsettles.prepend hlayers hverdicts⟩
  · rw [hfailures', hfailures, List.append_assoc]
  · rw [after_append, hlayers, hlayers']

/-- What goes on in a folder that is left in the end. -/
theorem Books.leave (h : Books layers child? s notes result s') (folder : RemotePath)
    (hs : s''.failures = s'.failures) :
    Books layers child? s (notes ++ [⟨.left folder, s''⟩]) result s'' := by
  obtain ⟨failures, hfailures, hlayers, hsettles⟩ := h
  refine ⟨failures, hs.trans hfailures, ?_, hsettles.append (List.forall_mem_singleton.2 rfl)⟩
  rw [after_append, hlayers]
  rfl

/-- What goes on inside one more layer, which one note opens and another one closes. -/
theorem Books.inside {layer : Layer} {opening closing : Note}
    (h : Books (layer :: layers) child? s notes result s')
    (hopening : Layer.after layers [opening] = layer :: layers)
    (hsilent : verdicts layers [opening] = [])
    (hclosing : Layer.after (layer :: layers) [closing] = layers)
    (hquiet : closing.event.isQuiet) (hs : s''.failures = s'.failures) :
    Books layers child? s (opening :: notes ++ [closing]) result s'' := by
  obtain ⟨failures, hfailures, hlayers, hsettles⟩ := h
  refine ⟨failures, hs.trans hfailures, ?_, ?_⟩
  · have hinner : Layer.after layers ([opening] ++ notes) = layer :: layers := by
      rw [after_append, hopening, hlayers]
    rw [after_append]
    exact (congrArg (Layer.after · [closing]) hinner).trans hclosing
  · exact (hsettles.prepend_silent [opening] hopening hsilent).append
      (List.forall_mem_singleton.2 hquiet)

/-- An error that a loop at `child` keeps is one more failure, and the loop goes on. -/
theorem Books.isolate {child : RemotePath} {error : Error}
    (h : Books layers (some child) s notes (.error (.failed error)) s')
    (herror : error.isRecoverable = true) :
    Books layers child? s (notes ++ [⟨.isolated child error, s'.isolating child error⟩]) (.ok ())
      (s'.isolating child error) := by
  obtain ⟨failures, hfailures, hlayers, hsettles⟩ := h
  refine ⟨failures ++ [⟨child.text, error.message⟩], ?_, ?_, ?_⟩
  · rw [Session.isolating, hfailures, List.append_assoc]
  · rw [after_append, hlayers]
    rfl
  · change verdicts layers (notes ++ [_]) = _
    rw [verdicts_append, hsettles.isolate herror]
    exact List.append_nil _

/-- Which loop would keep an error is of no account where no loop keeps it. -/
theorem Books.of_not_recoverable {child?' : Option RemotePath} {stop : Stop}
    (h : Books layers child? s notes (.error stop) s')
    (hstop : ∀ error, stop = .failed error → error.isRecoverable = false) :
    Books layers child?' s notes (.error stop) s' := by
  obtain ⟨failures, hfailures, hlayers, hsettles⟩ := h
  refine ⟨failures, hfailures, hlayers, ?_⟩
  cases stop with
  | tooDeep => exact hsettles
  | failed error =>
    obtain ⟨before, s, after, hnotes, hbefore, hquiet, -⟩ := hsettles
    refine ⟨before, s, after, hnotes, hbefore, hquiet, fun herror ↦ ?_⟩
    rw [hstop error rfl] at herror
    cases herror

end

/-- What a stage does about its errors: each is recorded as one failure, in order, apart from the
one with which the stage ends. -/
theorem Course.settles {limit : Nat} {stage : Stage} {s s' : Session} {notes : Journal}
    {result : Except Stop Unit} (h : e.Course W limit stage s notes result s')
    (layers : List Layer) (hopens : Opens s stage layers) :
    Books layers (keeper? s layers stage) s notes result s' := by
  -- The layers are those around the stage; what it opens itself it also closes.
  induction h generalizing layers with
  | tooDeep => exact ⟨[], (List.append_nil _).symm, rfl, rfl⟩
  | raised h => exact books_raised h.isInert (keeper?_of_raises h layers)
  | refused h =>
    rename_i s events error
    have hinert : ∀ event ∈ Event.entered s.traversal.currentFolder :: events, event.isInert :=
      List.forall_mem_cons.2 ⟨rfl, h.isInert⟩
    exact (books_raised hinert fun _ ↦ rfl).leave _ rfl
  | executed h hplan hcommands ih =>
    rename_i s s' manifest requests commands notes result
    have hinert := isInert_planned s (s.visiting s.traversal.currentFolder)
      s.traversal.currentFolder manifest requests commands
    have hplanned : Books layers none s _ (.ok ()) (s.visiting s.traversal.currentFolder) :=
      books_of_isInert hinert rfl
    have hall := hplanned.trans (ih layers trivial)
    rw [List.append_assoc] at hall
    exact hall.leave _ (failures_afterwards _ result s')
  | done | identity | changeFolder | noChild =>
    exact books_of_isInert (List.forall_mem_nil _) rfl
  | content h => exact books_of_isInert (isInert_during h.isInert) rfl
  | next h hrest ih ihrest =>
    rename_i s s' s'' command commands notes notes' result
    have hcommand : Books layers _ s (⟨.started command, s⟩ :: notes ++ [⟨.ended command, s'⟩])
        (.ok ()) s' :=
      (ih (.running command :: layers) ⟨_, rfl⟩).inside rfl rfl rfl rfl rfl
    rw [List.append_cons]
    exact hcommand.trans (ihrest layers trivial)
  | stopped h ih => exact (ih (.running _ :: layers) ⟨_, rfl⟩).inside rfl rfl rfl rfl rfl
  | singleFolder h ih =>
    obtain ⟨rest, rfl⟩ := hopens
    exact ih _ trivial
  | all h hchildren ih =>
    obtain ⟨rest, rfl⟩ := hopens
    rename_i s s' names notes result
    have hasked : Books (.running .all :: rest) none s
        [⟨.asked (.listDirectories s.traversal.currentFolder), s⟩] (.ok ()) s :=
      books_of_isInert (List.forall_mem_singleton.2 rfl) rfl
    exact hasked.trans (ih (.running .all :: rest) ⟨rfl, _, rfl⟩)
  | descent h hfolder ih => exact (ih (.below _ :: layers) trivial).inside rfl rfl rfl rfl rfl
  | ignored h ih => exact ih layers hopens
  | child hname h hrest ih ihrest =>
    obtain ⟨hfolder, hloop⟩ := hopens
    exact (ih layers trivial).trans
      (ihrest layers ⟨h.currentFolder_descent.trans hfolder, hloop⟩)
  | isolated hname h herror hrest ih ihrest =>
    obtain ⟨rfl, rest, rfl⟩ := hopens
    have hkept : Books _ none _ _ _ _ := (ih (.running .all :: rest) trivial).isolate herror
    have hall := hkept.trans (ihrest (.running .all :: rest) ⟨h.currentFolder_descent, rest, rfl⟩)
    rwa [List.append_assoc] at hall
  | childStopped hname h hstop ih => exact (ih layers trivial).of_not_recoverable hstop

/-! ## Errors of a run -/

/-- An error that has arisen is the one with which the stage ends, or it is kept and the stage goes
on, in the end perhaps to another one. -/
theorem Settles.of_split {layers : List Layer} {child? : Option RemotePath}
    {failures : List FolderFailure} {result : Except Stop Unit} {before after : Journal}
    {error : Error} {s : Session}
    (h : Settles layers child? (before ++ ⟨.raised error, s⟩ :: after) failures result) :
    (result = .error (.failed error) ∧ (∀ note ∈ after, note.event.isQuiet) ∧
      (error.isRecoverable = true → loopChild? (Layer.after layers before) = child?)) ∨
    ((failure? (Layer.after layers before) error).isSome ∧
      ∀ last, result = .error (.failed last) → ∃ note ∈ after, note.event = .raised last) := by
  -- The verdict on the error is one of those on any notes that go beyond it.
  have hkept {rest : Journal}
      (hverdicts : verdicts layers (before ++ ⟨.raised error, s⟩ :: rest) = failures.map some) :
      (failure? (Layer.after layers before) error).isSome := by
    rw [verdicts_append, verdicts_raised] at hverdicts
    have hmem : failure? (Layer.after layers before) error ∈ failures.map some := by
      rw [← hverdicts]
      exact List.mem_append_right _ List.mem_cons_self
    obtain ⟨failure, -, hfailure⟩ := List.mem_map.1 hmem
    rw [← hfailure, Option.isSome_some]
  rcases result with (last | _) | _
  · obtain ⟨before', s', after', hnotes, hbefore, hquiet, hchild⟩ := h
    rcases List.append_eq_append_iff.1 hnotes with ⟨rest, rfl, hrest⟩ | ⟨rest, rfl, hrest⟩
    · cases rest with
      | nil =>
        cases hrest
        rw [List.append_nil] at hchild
        exact .inl ⟨rfl, hquiet, hchild⟩
      | cons note rest =>
        cases hrest
        refine .inr ⟨hkept hbefore, ?_⟩
        rintro _ ⟨⟩
        exact ⟨_, List.mem_append_right _ List.mem_cons_self, rfl⟩
    · cases rest with
      | nil =>
        cases hrest
        rw [List.append_nil]
        exact .inl ⟨rfl, hquiet, hchild⟩
      | cons note rest =>
        cases hrest
        have hnote := hquiet _ (List.mem_append_right _ List.mem_cons_self)
        cases hnote
  all_goals exact .inr ⟨hkept h, by simp⟩

/-- Errors that are all recorded are failures of content. -/
theorem filter_raised_of_verdicts {layers : List Layer} {notes : Journal}
    {failures : List FolderFailure} (h : verdicts layers notes = failures.map some) :
    ((Journal.raised notes).filter (·.isRecoverable)).length = failures.length := by
  induction notes generalizing layers failures with
  | nil =>
    cases failures with
    | nil => rfl
    | cons failure failures => cases h
  | cons note notes ih =>
    obtain ⟨event, s⟩ := note
    cases event with
    | raised error =>
      rw [verdicts_raised] at h
      cases failures with
      | nil => cases h
      | cons failure failures =>
        obtain ⟨hfailure, hrest⟩ := List.cons.inj h
        have herror : error.isRecoverable = true := by
          rw [failure?] at hfailure
          split at hfailure
          · assumption
          · cases hfailure
        have hraised : Journal.raised (⟨.raised error, s⟩ :: notes) =
            error :: Journal.raised notes := rfl
        rw [hraised, List.filter_cons_of_pos herror, List.length_cons, List.length_cons, ih hrest]
    | _ => exact ih h

/-- The error with which a run ends. -/
def failedWith? : Except Stop Unit → Option Error
  | .error (.failed error) => some error
  | _ => none

/-- What becomes of the errors of a run, where each of them arises inside the layers that the notes
before it leave. -/
structure Accounts (notes : Journal) (failures : List FolderFailure)
    (result : Except Stop Unit) : Prop where
  /-- The errors that loops keep are recorded in their order, each as one failure. -/
  kept : (verdicts [] notes).reduceOption = failures
  /-- An error that no loop keeps is the one with which the run ends, and nothing but the way back
  comes after it. -/
  ends : ∀ before error s after, notes = before ++ ⟨.raised error, s⟩ :: after →
    failure? (Layer.after [] before) error = none →
      result = .error (.failed error) ∧ ∀ note ∈ after, note.event.isQuiet
  /-- An error that a loop keeps is not the one with which the run ends. -/
  goesOn : ∀ before error s after failure, notes = before ++ ⟨.raised error, s⟩ :: after →
    failure? (Layer.after [] before) error = some failure →
      ∀ last, result = .error (.failed last) → ∃ note ∈ after, note.event = .raised last
  /-- The run ends with an error that has arisen and that no loop keeps. -/
  arisen : ∀ error, result = .error (.failed error) → ∃ before s after,
    notes = before ++ ⟨.raised error, s⟩ :: after ∧
      failure? (Layer.after [] before) error = none
  count : ((Journal.raised notes).filter (·.isRecoverable)).length =
    failures.length + if (failedWith? result).any (·.isRecoverable) then 1 else 0

theorem Settles.accounts {notes : Journal} {failures : List FolderFailure}
    {result : Except Stop Unit} (h : Settles [] none notes failures result) :
    Accounts notes failures result where
  kept := by
    rcases result with (error | _) | _
    · obtain ⟨before, s, after, rfl, hbefore, hquiet, hchild⟩ := h
      rw [verdicts_append, verdicts_raised, hbefore, failure?_eq_none hchild,
        verdicts_of_isQuiet hquiet, List.reduceOption_append, reduceOption_map_some]
      exact List.append_nil _
    all_goals
      have hall : verdicts [] notes = failures.map some := h
      rw [hall, reduceOption_map_some]
  ends := by
    rintro before error s after rfl hnone
    rcases h.of_split with ⟨hresult, hquiet, -⟩ | ⟨hsome, -⟩
    · exact ⟨hresult, hquiet⟩
    · rw [hnone] at hsome
      cases hsome
  goesOn := by
    rintro before error s after failure rfl hsome
    rcases h.of_split with ⟨-, -, hchild⟩ | ⟨-, hlast⟩
    · rw [failure?_eq_none hchild] at hsome
      cases hsome
    · exact hlast
  arisen := by
    rintro error rfl
    obtain ⟨before, s, after, hnotes, -, -, hchild⟩ := h
    exact ⟨before, s, after, hnotes, failure?_eq_none hchild⟩
  count := by
    rcases result with (error | _) | _
    · obtain ⟨before, s, after, rfl, hbefore, hquiet, -⟩ := h
      have hafter : Journal.raised after = [] := by
        rw [Journal.raised, List.filterMap_eq_nil_iff]
        intro note hnote
        have hnote' := hquiet note hnote
        obtain ⟨event, s⟩ := note
        cases event <;> first | rfl | cases hnote'
      have hraised : Journal.raised (before ++ ⟨.raised error, s⟩ :: after) =
          Journal.raised before ++ [error] := by
        have hcons : Journal.raised (⟨.raised error, s⟩ :: after) = error :: Journal.raised after :=
          rfl
        rw [Journal.raised, List.filterMap_append, ← Journal.raised, ← Journal.raised, hcons,
          hafter]
      rw [hraised, List.filter_append, List.length_append, filter_raised_of_verdicts hbefore]
      cases herror : error.isRecoverable <;> simp [failedWith?, herror]
    all_goals exact filter_raised_of_verdicts h

/-- Every run from a fresh session accounts for its errors. An error of content work below a loop
over children is one failure of the child at which the innermost such loop is; any other error is
the one with which the run ends, and its report tells of it. -/
theorem errors_accounted (e : Engine ρ) (limit : Nat) (occasion : Occasion) (w : World ρ)
    (top : RemotePath) :
    let final := e.processTop limit { world := w, session := .start top }
    Accounts (e.journal limit w (.start top)) final.2.session.failures final.1 ∧
      ∀ report, (e.run limit occasion { world := w, session := .start top }).1 = some report →
        report.failures = final.2.session.failures ∧
          report.error = (failedWith? final.1).map (·.message) := by
  dsimp only
  constructor
  · obtain ⟨notes, hcourse, hjournal, -⟩ := follows_process e.lasts_true limit e.options.mark
      { world := w, session := (Session.start top).opened,
        journal := [⟨.begun, (Session.start top).opened⟩] } trivial
    obtain ⟨failures, hfailures, -, hsettles⟩ := hcourse.settles [] trivial
    have hbegun : Settles [] none (e.journal limit w (.start top)) failures
        (e.processTop limit { world := w, session := .start top }).1 := by
      rw [journal, processTop_apply, hjournal]
      exact hsettles.prepend_silent [_] rfl rfl
    have hrecorded : (e.processTop limit { world := w, session := .start top }).2.session.failures =
        failures := by
      rw [processTop_apply, hfailures]
      rfl
    rw [hrecorded]
    exact hbegun.accounts
  · intro report hreport
    simp only [run] at hreport
    split at hreport
    · cases hreport
      simp [*, report, failedWith?]
    · cases hreport
      simp [*, report, failedWith?]
    · cases hreport

end Engine

end FolderCommands
