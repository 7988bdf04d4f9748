import FolderCommands.Proofs.Descendant
import FolderCommands.Proofs.Run.Adherence

/-!
# What a session keeps

However far a run goes down and however it ends there, it comes back to the folder from which it
went down, and what it has recorded by then is only added to. The top folder is the one part of a
session that a folder below can change for the folders above: it moves down and stays there.
-/

namespace FolderCommands

/-- Whether a session may come after another one: what has been recorded begins with what had been,
and the top folder is where it was or below. -/
structure Session.Grows (s s' : Session) : Prop where
  visited : s.visited <+: s'.visited
  failures : s.failures <+: s'.failures
  identities : s.identities <+: s'.identities
  top : s'.traversal.topFolder.IsWithin s.traversal.topFolder

namespace Session

variable {s s' s'' : Session}

theorem grows_refl (s : Session) : s.Grows s where
  visited := List.prefix_refl _
  failures := List.prefix_refl _
  identities := List.prefix_refl _
  top := RemotePath.isWithin_refl _

theorem Grows.trans (h : s.Grows s') (h' : s'.Grows s'') : s.Grows s'' where
  visited := h.visited.trans h'.visited
  failures := h.failures.trans h'.failures
  identities := h.identities.trans h'.identities
  top := h'.top.trans h.top

theorem grows_opened (s : Session) : s.Grows s.opened :=
  { s.grows_refl with }

theorem grows_visiting (s : Session) (folder : RemotePath) : s.Grows (s.visiting folder) :=
  { s.grows_refl with visited := List.prefix_append _ _ }

theorem grows_isolating (s : Session) (child : RemotePath) (error : Error) :
    s.Grows (s.isolating child error) :=
  { s.grows_refl with failures := List.prefix_append _ _ }

end Session

namespace Engine

variable {ρ : Type} {e : Engine ρ} {W : World ρ → Prop}

theorem grows_blame (folder : RemotePath) (s : Session) : s.Grows (blame folder s) :=
  { s.grows_refl with }

theorem grows_afterwards (folder : RemotePath) (result : Except Stop Unit) (s : Session) :
    s.Grows (afterwards folder result s) := by
  rcases result with (_ | _) | _
  · exact grows_blame folder s
  · exact s.grows_refl
  · exact s.grows_refl

/-! ## Stages -/

/-- No stage takes back what has been recorded. -/
theorem Course.grows {limit : Nat} {stage : Stage} {s s' : Session} {notes : Journal}
    {result : Except Stop Unit} (h : e.Course W limit stage s notes result s') : s.Grows s' := by
  induction h with
  | tooDeep | raised | done | content | noChild => exact Session.grows_refl _
  | refused h => exact grows_blame _ _
  | executed h hplan hcommands ih =>
    exact ((Session.grows_visiting _ _).trans ih).trans (grows_afterwards _ _ _)
  | next h hrest ih ihrest => exact ih.trans ihrest
  | identity => exact { Session.grows_refl _ with identities := List.prefix_append _ _ }
  | changeFolder h => exact { Session.grows_refl _ with top := .inr h }
  | descent h hfolder ih => exact ⟨ih.visited, ih.failures, ih.identities, ih.top⟩
  | child hname h hrest ih ihrest => exact ih.trans ihrest
  | isolated hname h herror hrest ih ihrest =>
    exact (ih.trans (Session.grows_isolating _ _ _)).trans ihrest
  | stopped h ih | singleFolder h ih | all h hchildren ih | ignored h ih
  | childStopped hname h hstop ih => exact ih

/-- A descent ends in the folder where it started. -/
theorem Course.currentFolder_descent {limit : Nat} {child : String} {s s' : Session}
    {notes : Journal} {result : Except Stop Unit}
    (h : e.Course W limit (.descent child) s notes result s') :
    s'.traversal.currentFolder = s.traversal.currentFolder := by
  cases h <;> rfl

/-- A loop over children ends in the folder where it started, as each of its descents does. -/
theorem Course.currentFolder_children {limit : Nat} {parent : RemotePath} {names : List String}
    {s s' : Session} {notes : Journal} {result : Except Stop Unit}
    (h : e.Course W limit (.children parent names) s notes result s') :
    s'.traversal.currentFolder = s.traversal.currentFolder := by
  induction names generalizing s notes with
  | nil =>
    cases h with
    | raised h => nomatch h
    | noChild => rfl
  | cons name names ih =>
    cases h with
    | raised h => nomatch h
    | ignored hrest => exact ih hrest
    | child hname h hrest => exact (ih hrest).trans h.currentFolder_descent
    | isolated hname h herror hrest => exact (ih hrest).trans h.currentFolder_descent
    | childStopped hname h hstop => exact h.currentFolder_descent

theorem Course.currentFolder_all {limit : Nat} {s s' : Session} {notes : Journal}
    {result : Except Stop Unit} (h : e.Course W limit (.command .all) s notes result s') :
    s'.traversal.currentFolder = s.traversal.currentFolder := by
  cases h with
  | raised h | content h => rfl
  | all h hchildren => exact hchildren.currentFolder_children

/-! ## Runs -/

/-- Going down to one child or to all of them ends in the folder where it started, whatever happens
below; and no command, no folder and no whole run takes back what has been recorded or moves the
top folder elsewhere than down. -/
theorem execute_scoped (e : Engine ρ) (limit : Nat) (s : RunState ρ) :
    (∀ child folderType,
      (e.execute (e.process limit "") (.singleFolder child folderType)
        s).2.session.traversal.currentFolder = s.session.traversal.currentFolder) ∧
    (e.execute (e.process limit "") .all s).2.session.traversal.currentFolder =
      s.session.traversal.currentFolder ∧
    (∀ command, s.session.Grows (e.execute (e.process limit "") command s).2.session) ∧
    (∀ mark, s.session.Grows (e.process limit mark s).2.session) ∧
    s.session.Grows (e.processTop limit s).2.session := by
  have hinner := follows_process e.lasts_true limit ""
  refine ⟨?_, ?_, ?_, ?_, ?_⟩
  · intro child folderType
    obtain ⟨notes, hcourse, -⟩ := follows_descend hinner child s trivial
    exact hcourse.currentFolder_descent
  · obtain ⟨notes, hcourse, -⟩ := follows_execute e.lasts_true hinner .all s trivial
    exact hcourse.currentFolder_all
  · intro command
    obtain ⟨notes, hcourse, -⟩ := follows_execute e.lasts_true hinner command s trivial
    exact hcourse.grows
  · intro mark
    obtain ⟨notes, hcourse, -⟩ := follows_process e.lasts_true limit mark s trivial
    exact hcourse.grows
  · obtain ⟨notes, hcourse, -⟩ := follows_process e.lasts_true limit e.options.mark
      ((s.updated (·.opened)).noted .begun) trivial
    exact s.session.grows_opened.trans hcourse.grows

end Engine

end FolderCommands
