import FolderCommands.Proofs.Descendant
import FolderCommands.Proofs.Run.Along

/-!
# Confinement

A run names no folder to its store or to its delegate that lies outside of the folder in which it
started, whatever the listings of the store and the manifests say. Going down and moving the top
are checked against the present top only, and the present top is itself within the first one. The
folders to come back to have to be watched too: they may lie above the present top.
-/

namespace FolderCommands

/-- Whether a run stands within `root`. -/
structure Session.IsWithin (root : RemotePath) (s : Session) : Prop where
  top : s.traversal.topFolder.IsWithin root
  current : s.traversal.currentFolder.IsWithin root

/-- Whether a run stands within `root` with all that it can come back to. -/
structure Place.IsWithin (root : RemotePath) (p : Place) : Prop where
  session : p.session.IsWithin root
  origins : ∀ origin ∈ p.origins, origin.IsWithin root
  active : ∀ a ∈ p.active, a.folder.IsWithin root

namespace Session

variable {root : RemotePath}

theorem isWithin_opened (s : Session) : s.opened.IsWithin s.traversal.topFolder where
  top := RemotePath.isWithin_refl _
  current := RemotePath.isWithin_refl _

theorem IsWithin.of_eq {s s' : Session} (h : s.IsWithin root)
    (htraversal : s'.traversal = s.traversal) : s'.IsWithin root := by
  constructor
  · rw [htraversal]
    exact h.top
  · rw [htraversal]
    exact h.current

end Session

namespace Engine

variable {ρ : Type} {e : Engine ρ} {W : World ρ → Prop} {root : RemotePath}

theorem isWithin_start (s : Session) : (Place.start s).IsWithin s.traversal.topFolder where
  session := s.isWithin_opened
  origins := by simp [Place.start]
  active := by simp [Place.start]

theorem isWithin_next (p : Place) (note : Note) (hp : p.IsWithin root) (h : e.Turn W p note) :
    (p.next note).IsWithin root := by
  have hactive : ∀ a ∈ (p.next note).active, a.folder.IsWithin root := by
    intro a ha
    rcases h.mem_active ha with ⟨b, hb, hfolder⟩ | hfolder
    · exact hfolder ▸ hp.active b hb
    · exact hfolder ▸ hp.session.current
  cases h.moves with
  | stays htraversal hsession horigins =>
    refine ⟨?_, ?_, hactive⟩
    · rw [hsession]
      exact hp.session.of_eq htraversal
    · rw [horigins]
      exact hp.origins
  | descends child hevent htraversal h =>
    refine ⟨⟨?_, ?_⟩, ?_, hactive⟩
    all_goals simp only [Place.next, hevent, htraversal, Session.backIn]
    · exact hp.session.top
    · exact hp.session.top.of_isDescendantOf h
    · intro origin horigin
      rcases List.mem_cons.1 horigin with rfl | horigin
      · exact hp.session.current
      · exact hp.origins origin horigin
  | returns child origin origins hevent htraversal h =>
    have horigins := hp.origins
    rw [h] at horigins
    refine ⟨⟨?_, ?_⟩, ?_, hactive⟩
    all_goals simp only [Place.next, hevent, htraversal, h, List.tail_cons]
    · exact hp.session.top
    · exact horigins origin (List.mem_cons_self ..)
    · exact fun other hother ↦ horigins other (List.mem_cons_of_mem _ hother)
  | changes child hevent htraversal h =>
    have htop := hp.session.top.of_isDescendantOf h
    refine ⟨⟨?_, ?_⟩, ?_, hactive⟩
    all_goals simp only [Place.next, hevent, htraversal]
    · exact htop
    · exact htop
    · exact hp.origins

theorem folder_eq_of_asked {p : Place} {request : Request} {s : Session}
    (h : e.Turn W p ⟨.asked request, s⟩) :
    request.folder = p.session.traversal.currentFolder := by
  cases h with
  | asked h => exact h

theorem folder_eq_of_delegated {p : Place} {work : Work} {s : Session}
    (h : e.Turn W p ⟨.delegated work, s⟩) :
    work.folder = p.session.traversal.currentFolder := by
  cases h with
  | delegated h => exact h

/-- Every note of a run is made within its first top folder. -/
theorem exists_turn_of_mem {limit : Nat} {w : World ρ} {s : Session} {note : Note}
    (h : note ∈ e.journal limit w s) :
    ∃ p : Place, p.IsWithin s.traversal.topFolder ∧ e.Turn (fun _ ↦ True) p note := by
  obtain ⟨before, after, hsplit⟩ := List.append_of_mem h
  have halong := e.journal_along limit w s
  rw [hsplit] at halong
  obtain ⟨hbefore, hturn, -⟩ := Place.throughout_append.1 halong
  exact ⟨_, hbefore.invariant isWithin_next (isWithin_start s), hturn⟩

/-- A run asks the store about, and has work done on, folders within its first top folder only. -/
theorem run_isWithin_top (e : Engine ρ) (limit : Nat) (occasion : Occasion) (w : World ρ)
    (s : Session) :
    (∀ request ∈ (e.run limit occasion { world := w, session := s }).2.journal.requests,
      request.folder.IsWithin s.traversal.topFolder) ∧
    ∀ work ∈ (e.run limit occasion { world := w, session := s }).2.journal.work,
      work.folder.IsWithin s.traversal.topFolder := by
  rw [journal_run]
  constructor
  · intro request hrequest
    obtain ⟨_, hmem⟩ := Journal.mem_requests.1 hrequest
    obtain ⟨p, hp, hturn⟩ := exists_turn_of_mem hmem
    rw [folder_eq_of_asked hturn]
    exact hp.session.current
  · intro work hwork
    obtain ⟨_, hmem⟩ := Journal.mem_work.1 hwork
    obtain ⟨p, hp, hturn⟩ := exists_turn_of_mem hmem
    rw [folder_eq_of_delegated hturn]
    exact hp.session.current

end Engine

end FolderCommands
