import FolderCommands.Proofs.Run.Along

/-!
# The folders under way

What is known of a folder while it is under way, however deep the run is below it: where it was
entered, that its manifest was loaded from there, and that its commands are the plan of it.
-/

namespace FolderCommands.Engine

variable {ρ : Type} {e : Engine ρ} {W : World ρ → Prop}

/-- What is known of a folder under way when the folders in `visited` have been visited: its
manifest has been loaded from it, and if it is executed, then by the plan of the manifest and after
it has been visited. -/
structure IsBacked (e : Engine ρ) (W : World ρ → Prop) (visited : List RemotePath)
    (a : Activation) : Prop where
  current : a.folder = a.opening.traversal.currentFolder
  within : a.folder.IsWithin a.opening.traversal.topFolder
  loaded (manifest : Manifest) (h : a.manifest = some manifest) :
    ∃ mark requests, e.Loads W a.folder mark (.ok manifest) requests
  planned (commands : List Command) (h : a.commands = some commands) :
    ∃ manifest, a.manifest = some manifest ∧
      Plan.ofRecords manifest.commandSet manifest.records = .ok commands
  visited (commands : List Command) (h : a.commands = some commands) :
    a.opening.visited ++ [a.folder] <+: visited

theorem IsBacked.mono {visited visited' : List RemotePath} {a : Activation}
    (h : e.IsBacked W visited a) (hvisited : visited <+: visited') : e.IsBacked W visited' a where
  current := h.current
  within := h.within
  loaded := h.loaded
  planned := h.planned
  visited := fun commands hcommands ↦ (h.visited commands hcommands).trans hvisited

/-- Folders are only ever added to those that have been visited. -/
theorem visited_prefix_next {p : Place} {note : Note} (h : e.Turn W p note) :
    p.session.visited <+: (p.next note).session.visited := by
  cases h with
  | planned => exact List.prefix_append _ _
  | ended h => cases h <;> exact List.prefix_refl _
  | left folder result hactive => rcases result with (_ | _) | _ <;> exact List.prefix_refl _
  | _ => exact List.prefix_refl _

theorem isBacked_next (p : Place) (note : Note)
    (hp : ∀ a ∈ p.active, e.IsBacked W p.session.visited a) (h : e.Turn W p note) :
    ∀ a ∈ (p.next note).active, e.IsBacked W (p.next note).session.visited a := by
  have hgrown : ∀ a ∈ p.active, e.IsBacked W (p.next note).session.visited a :=
    fun a ha ↦ (hp a ha).mono (visited_prefix_next h)
  cases h with
  | entered hactive hwithin =>
    intro a ha
    rcases List.mem_cons.1 ha with rfl | ha
    · exact ⟨rfl, hwithin, by simp, by simp, by simp⟩
    · exact hgrown a ha
  | loaded hactive hcommands hloads =>
    simp only [Place.next, hactive, List.modifyHead_cons, List.forall_mem_cons] at hgrown ⊢
    obtain ⟨hfirst, hrest⟩ := hgrown
    refine ⟨⟨hfirst.current, hfirst.within, ?_, ?_, hfirst.visited⟩, hrest⟩
    · intro manifest h
      cases h
      exact ⟨_, _, hloads⟩
    · intro commands h
      rw [hcommands] at h
      cases h
  | planned hactive hopening hmanifest hplan =>
    simp only [Place.next, hactive, List.modifyHead_cons, List.forall_mem_cons] at hgrown ⊢
    obtain ⟨hfirst, hrest⟩ := hgrown
    refine ⟨⟨hfirst.current, hfirst.within, hfirst.loaded, ?_, ?_⟩, hrest⟩
    · intro commands h
      cases h
      exact ⟨_, hmanifest, hplan⟩
    · intro commands h
      rw [← hopening]
      exact List.prefix_refl _
  | left folder result hactive => exact fun a ha ↦ hgrown a (List.mem_of_mem_tail ha)
  | _ => exact hgrown

end FolderCommands.Engine
