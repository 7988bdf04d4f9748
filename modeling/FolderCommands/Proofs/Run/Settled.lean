import FolderCommands.Proofs.Descendant
import FolderCommands.Proofs.Run.Along
import FolderCommands.Proofs.Run.Memory

/-!
# The current folder and the top

Between commands the current folder ought to lie below the top folder. Going down keeps to this,
for it is checked against the top. What breaks it is a command that moves the top while folders
further up still wait for the run to come back: the run comes back to the folder, but the top
stays where it was moved. This is the only way: if no such command moves the top, then the current
folder lies below it all along, and if one does, then the run is seen outside of its top later on.
-/

namespace FolderCommands

/-- Whether the current folder lies below the top folder. -/
def Session.isSettled (s : Session) : Bool :=
  s.traversal.currentFolder.isDescendantOf s.traversal.topFolder

/-- Whether an event stands between commands: at the start of a run, before and after a command,
and after coming back from a folder below. -/
def Event.isBoundary : Event → Bool
  | .begun | .started _ | .ended _ | .returned _ => true
  | _ => false

/-- Whether a note leaves the top where it is, if some folder waits for the run to come back. -/
def Place.KeepsTop (p : Place) (note : Note) : Prop :=
  ∀ child, note.event = .ended (.changeFolder child) → p.origins ≠ [] →
    note.session.traversal.topFolder = p.session.traversal.topFolder

/-- Whether the current folder and all that wait lie below the top folder. -/
structure Place.IsSettled (p : Place) : Prop where
  current : p.session.isSettled
  origins : ∀ origin ∈ p.origins, origin.isDescendantOf p.session.traversal.topFolder

/-- Whether the outermost folder that waits is the top, or the current one if none waits. -/
structure Place.IsAnchored (p : Place) : Prop where
  current : p.origins = [] → p.session.traversal.currentFolder = p.session.traversal.topFolder
  outermost : ∀ origin ∈ p.origins.getLast?, origin = p.session.traversal.topFolder

namespace Engine

variable {ρ : Type} {e : Engine ρ} {W : World ρ → Prop}

/-! ## The top is kept -/

theorem isSettled_start {s : Session} (h : s.traversal.topFolder.isNormal) :
    (Place.start s).IsSettled where
  current := RemotePath.isDescendantOf_refl h
  origins := by simp [Place.start]

theorem isSettled_next {p : Place} {note : Note} (hp : p.IsSettled) (h : e.Turn W p note)
    (hkeeps : p.KeepsTop note) : note.session.isSettled ∧ (p.next note).IsSettled := by
  have hcurrent : p.session.isSettled := hp.current
  cases h.moves with
  | stays htraversal hsession horigins =>
    have hnote : note.session.isSettled := by
      rw [Session.isSettled, htraversal]
      exact hcurrent
    refine ⟨hnote, hsession ▸ hnote, ?_⟩
    rw [horigins, hsession, htraversal]
    exact hp.origins
  | descends child hevent htraversal h =>
    have hnote : note.session.isSettled := by
      rw [Session.isSettled, htraversal]
      exact hcurrent
    refine ⟨hnote, ?_⟩
    simp only [Place.next, hevent, htraversal, Session.backIn]
    refine ⟨h, ?_⟩
    intro origin horigin
    rcases List.mem_cons.1 horigin with rfl | horigin
    · exact hcurrent
    · exact hp.origins origin horigin
  | returns child origin origins hevent htraversal h =>
    have horigins := hp.origins
    rw [h] at horigins
    have hnote : note.session.isSettled := by
      rw [Session.isSettled, htraversal]
      exact horigins origin (List.mem_cons_self ..)
    refine ⟨hnote, ?_⟩
    simp only [Place.next, hevent, h, List.tail_cons]
    refine ⟨hnote, ?_⟩
    rw [htraversal]
    exact fun other hother ↦ horigins other (List.mem_cons_of_mem _ hother)
  | changes child hevent htraversal h =>
    have hnote : note.session.isSettled := by
      rw [Session.isSettled, htraversal]
      exact RemotePath.isDescendantOf_refl (RemotePath.isNormal_of_isDescendantOf h)
    refine ⟨hnote, ?_⟩
    simp only [Place.next, hevent]
    refine ⟨hnote, ?_⟩
    intro origin horigin
    have htop : note.session.traversal.topFolder = p.session.traversal.topFolder :=
      hkeeps child hevent (List.ne_nil_of_mem horigin)
    rw [htop]
    exact hp.origins origin horigin

theorem isSettled_of_keepsTop {p : Place} {notes : Journal} (hp : p.IsSettled)
    (h : e.Along W p notes) (hkeeps : p.Throughout Place.KeepsTop notes) :
    ∀ note ∈ notes, note.session.isSettled := by
  induction notes generalizing p with
  | nil => simp
  | cons note notes ih =>
    obtain ⟨hnote, hnext⟩ := isSettled_next hp h.1 hkeeps.1
    intro other hother
    rcases List.mem_cons.1 hother with rfl | hother
    · exact hnote
    · exact ih hnext h.2 hkeeps.2 other hother

/-! ## The top has been kept -/

/-- If the run comes back to every folder that waits and is below the top then, these folders are
below the top already. -/
theorem isDescendantOf_of_isSettled {p : Place} {notes : Journal} (h : e.Along W p notes)
    (hback : (p.after notes).origins = [])
    (hsettled : ∀ note ∈ notes, note.event.isBoundary → note.session.isSettled) :
    ∀ origin ∈ p.origins, origin.isDescendantOf p.session.traversal.topFolder := by
  -- Backwards from the end, where nothing waits: the top can only have been longer later on.
  induction notes generalizing p with
  | nil =>
    intro origin horigin
    rw [Place.after_nil] at hback
    rw [hback] at horigin
    cases horigin
  | cons note notes ih =>
    have hrest := ih h.2 hback fun other hother ↦ hsettled other (List.mem_cons_of_mem _ hother)
    cases h.1.moves with
    | stays htraversal hsession horigins =>
      rwa [horigins, hsession, htraversal] at hrest
    | descends child hevent htraversal h =>
      simp only [Place.next, hevent, htraversal, Session.backIn] at hrest
      exact fun origin horigin ↦ hrest origin (List.mem_cons_of_mem _ horigin)
    | returns child first origins hevent htraversal h =>
      have hfirst : note.session.isSettled := by
        refine hsettled note (List.mem_cons_self ..) ?_
        rw [hevent]
        trivial
      rw [Session.isSettled, htraversal] at hfirst
      simp only [Place.next, hevent, htraversal, h, List.tail_cons] at hrest
      rw [h]
      intro origin horigin
      rcases List.mem_cons.1 horigin with rfl | horigin
      · exact hfirst
      · exact hrest origin horigin
    | changes child hevent htraversal h =>
      simp only [Place.next, hevent, htraversal, Traversal.changeFolder, Traversal.start] at hrest
      exact fun origin horigin ↦ RemotePath.isDescendantOf_trans (hrest origin horigin) h

theorem isAnchored_start (s : Session) : (Place.start s).IsAnchored where
  current := fun _ ↦ rfl
  outermost := by simp [Place.start]

/-- A top that moves has moved away from a folder that waits, and will be found so. -/
theorem keepsTop_of_isAnchored {p : Place} {note : Note} (hp : p.IsAnchored)
    (h : e.Turn W p note)
    (hnext : ∀ origin ∈ (p.next note).origins,
      origin.isDescendantOf (p.next note).session.traversal.topFolder) :
    p.KeepsTop note ∧ (p.next note).IsAnchored := by
  cases h.moves with
  | stays htraversal hsession horigins =>
    have htop : (p.next note).session.traversal = p.session.traversal := by
      rw [hsession, htraversal]
    refine ⟨fun _ _ _ ↦ by rw [htraversal], ?_, ?_⟩
    · rw [horigins, htop]
      exact hp.current
    · rw [horigins, htop]
      exact hp.outermost
  | descends child hevent htraversal h =>
    refine ⟨fun _ _ _ ↦ by rw [htraversal], ?_, ?_⟩
    · simp only [Place.next, hevent]
      exact fun hnil ↦ absurd hnil (List.cons_ne_nil _ _)
    · simp only [Place.next, hevent, htraversal, Session.backIn]
      cases horigins : p.origins with
      | nil =>
        intro origin horigin
        rw [← hp.current horigins]
        exact (Option.mem_some.1 horigin).symm
      | cons first rest =>
        rw [List.getLast?_cons_cons, ← horigins]
        exact hp.outermost
  | returns child origin origins hevent htraversal h =>
    refine ⟨fun _ _ _ ↦ by rw [htraversal], ?_, ?_⟩
    · simp only [Place.next, hevent, htraversal, h, List.tail_cons]
      rintro rfl
      exact hp.outermost origin (by rw [h]; rfl)
    · simp only [Place.next, hevent, htraversal, h, List.tail_cons]
      cases origins with
      | nil => simp
      | cons second rest =>
        rw [← List.getLast?_cons_cons, ← h]
        exact hp.outermost
  | changes child hevent htraversal h =>
    simp only [Place.next, hevent, htraversal, Traversal.changeFolder, Traversal.start] at hnext
    -- The outermost folder that waits is the top of now, and below the top that it is moved to.
    have hkept : p.origins ≠ [] →
        p.session.traversal.topFolder.join child = p.session.traversal.topFolder := by
      intro hne
      have hlast := hp.outermost _ (List.getLast?_eq_some_getLast hne)
      have hbelow := hnext _ (List.getLast_mem hne)
      rw [hlast] at hbelow
      exact RemotePath.isDescendantOf_antisymm h hbelow
    refine ⟨fun _ _ hne ↦ by rw [htraversal]; exact hkept hne, ?_, ?_⟩
    · simp only [Place.next, hevent, htraversal]
      exact fun _ ↦ rfl
    · simp only [Place.next, hevent, htraversal, Traversal.changeFolder, Traversal.start]
      intro origin horigin
      rw [hkept (List.ne_nil_of_mem (List.mem_of_getLast? horigin))]
      exact hp.outermost origin horigin

theorem keepsTop_of_isSettled {p : Place} {notes : Journal} (hp : p.IsAnchored)
    (h : e.Along W p notes) (hback : (p.after notes).origins = [])
    (hsettled : ∀ note ∈ notes, note.event.isBoundary → note.session.isSettled) :
    p.Throughout Place.KeepsTop notes := by
  induction notes generalizing p with
  | nil => trivial
  | cons note notes ih =>
    have hrest : ∀ other ∈ notes, other.event.isBoundary → other.session.isSettled :=
      fun other hother ↦ hsettled other (List.mem_cons_of_mem _ hother)
    obtain ⟨hkeeps, hnext⟩ :=
      keepsTop_of_isAnchored hp h.1 (isDescendantOf_of_isSettled h.2 hback hrest)
    exact ⟨hkeeps, ih hnext h.2 hback hrest⟩

/-! ## Runs -/

/-- In a run from a normal folder, the current folder lies below the top folder between all
commands if and only if no command moves the top while a folder waits. -/
theorem isSettled_iff_keepsTop (e : Engine ρ) (limit : Nat) (w : World ρ)
    (s : Session) (h : s.traversal.topFolder.isNormal) :
    (∀ note ∈ e.journal limit w s, note.event.isBoundary → note.session.isSettled) ↔
      ∀ before note after, e.journal limit w s = before ++ note :: after →
        ((Place.start s).after before).KeepsTop note := by
  obtain ⟨last, hleads⟩ := journal_leads e.lasts_true limit w s trivial
  have hback : ((Place.start s).after (e.journal limit w s)).origins = [] := by
    rw [hleads.after]
  rw [← Place.throughout_iff]
  constructor
  · exact keepsTop_of_isSettled (isAnchored_start s) hleads.along hback
  · intro hkeeps note hnote _
    exact isSettled_of_keepsTop (isSettled_start h) hleads.along hkeeps note hnote

theorem nestedChange_unsettled :
    ∃ note ∈ nestedChange.journal 2 .withScratch (.start (.ofText "t")),
      note.event.isBoundary ∧ ¬ note.session.isSettled := by
  decide +kernel

/-- The run comes back to `t` while its top is `t/b`. -/
theorem exists_normal_unsettled :
    ∃ (e : Engine Unit) (limit : Nat) (w : World Unit) (s : Session),
      s.traversal.topFolder.isNormal ∧
        ∃ note ∈ e.journal limit w s, note.event.isBoundary ∧ ¬ note.session.isSettled :=
  ⟨nestedChange, 2, .withScratch, .start (.ofText "t"), by decide, nestedChange_unsettled⟩

theorem nestedChange_not_keepsTop :
    ¬ ∀ before note after,
      nestedChange.journal 2 .withScratch (.start (.ofText "t")) = before ++ note :: after →
        ((Place.start (.start (.ofText "t"))).after before).KeepsTop note := by
  intro hkeeps
  obtain ⟨note, hmem, hboundary, hunsettled⟩ := nestedChange_unsettled
  have hsettled := (isSettled_iff_keepsTop nestedChange 2 .withScratch (.start (.ofText "t"))
    (by decide)).2 hkeeps
  exact hunsettled (hsettled note hmem hboundary)

end Engine

end FolderCommands
