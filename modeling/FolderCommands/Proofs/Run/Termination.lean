import FolderCommands.Proofs.Run.Memory
import FolderCommands.Proofs.Run.Nesting

/-!
# Runs end

A run is limited in how deep folders may be nested in each other. The limit matters only to a run
that reaches it: then as many folders are under way at once, with their manifests loaded. As these
are bounded by the folders of the store, a limit above the bound is never reached, and any other
limit above it gives the same run.
-/

namespace FolderCommands.Engine

variable {ρ : Type} {e : Engine ρ} {W : World ρ → Prop}

/-! ## The limit is reached -/

/-- Somewhere in the notes, `depth` more folders are under way with their manifests loaded. -/
def Deepens (p : Place) (notes : Journal) (depth : Nat) : Prop :=
  ∃ before, before <+: notes ∧ (p.after before).loaded.length = p.loaded.length + depth

theorem Deepens.append {p : Place} {notes : Journal} {depth : Nat} (h : Deepens p notes depth)
    (notes' : Journal) : Deepens p (notes ++ notes') depth := by
  obtain ⟨before, hbefore, hlength⟩ := h
  exact ⟨before, hbefore.trans (List.prefix_append _ _), hlength⟩

theorem deepens_of_after {p p' : Place} {notes notes' : Journal} {depth : Nat}
    (h : p.after notes = p') (more : Nat) (hloaded : p'.loaded.length = p.loaded.length + more)
    (h' : Deepens p' notes' depth) : Deepens p (notes ++ notes') (depth + more) := by
  obtain ⟨before, hbefore, hlength⟩ := h'
  refine ⟨notes ++ before, (List.prefix_append_right_inj notes).2 hbefore, ?_⟩
  rw [Place.after_append, h, hlength, hloaded]
  omega

theorem deepens_cons {p : Place} (note : Note) {notes : Journal} {depth : Nat}
    (h : Deepens (p.next note) notes depth) (hactive : (p.next note).active = p.active) :
    Deepens p (note :: notes) depth := by
  obtain ⟨before, hbefore, hlength⟩ := h
  refine ⟨note :: before, (List.prefix_cons_inj note).2 hbefore, ?_⟩
  rw [Place.after_cons, hlength, Place.loaded, hactive, Place.loaded]

/-- A stage that stops at the limit has come as deep as the limit. -/
theorem Course.deepens (hW : e.Lasts W) {limit : Nat} {stage : Stage} {s s' : Session}
    {notes : Journal} {result : Except Stop Unit}
    (h : e.Course W limit stage s notes result s') (hdeep : result = .error .tooDeep) (p : Place)
    (hs : p.session = s) (hfits : Fits stage p) : Deepens p notes limit := by
  induction h generalizing p with
  | tooDeep => exact ⟨[], List.nil_prefix, rfl⟩
  | raised | refused | done | identity | changeFolder | content | noChild => cases hdeep
  | executed h hplan hcommands ih =>
    subst hs
    rename_i manifest requests commands notes result
    have hplanned := leads_planned hW h hplan hfits
    have hinner := ih hdeep ⟨_, p.origins,
      ⟨p.session.traversal.currentFolder, p.session, some manifest, some commands⟩ :: p.active⟩
      rfl ⟨_, p.active, commands, rfl, hfits.1, rfl, List.Subset.refl _⟩
    have hall := deepens_of_after hplanned.after 1 (by simp [Place.loaded]) hinner
    rw [List.append_assoc] at hall
    exact hall.append _
  | next h hrest ih ihrest =>
    subst hs
    rename_i command commands notes notes' result
    obtain ⟨last, hleads, -⟩ := h.leads hW p rfl (fits_command hfits)
    have hrest' := ihrest hdeep ⟨_, p.origins, p.active⟩ rfl (fits_tail hfits _)
    have hended := deepens_cons (p := { p with session := last }) ⟨.ended command, _⟩ hrest' rfl
    exact deepens_cons ⟨.started command, _⟩ (deepens_of_after hleads.after 0 rfl hended) rfl
  | stopped h ih =>
    subst hs
    rename_i command commands notes stop
    have hinner := ih hdeep p rfl (fits_command hfits)
    exact (deepens_cons ⟨.started command, _⟩ hinner rfl).append _
  | singleFolder h ih => exact ih hdeep p hs hfits
  | all h hchildren ih =>
    subst hs
    exact deepens_cons ⟨.asked _, _⟩ (ih hdeep p rfl hfits) rfl
  | descent h hfolder ih =>
    subst hs
    rename_i child notes result
    have hinner := ih hdeep (p.next
      ⟨.descended (p.session.traversal.currentFolder.join child), p.session⟩) rfl
      ⟨hfits, .inr h⟩
    exact (deepens_cons _ hinner rfl).append _
  | ignored h ih => exact ih hdeep p hs hfits
  | child hname h hrest ih ihrest =>
    obtain ⟨last, hleads, rfl⟩ := h.leads hW p hs hfits
    exact deepens_of_after hleads.after 0 rfl (ihrest hdeep ⟨_, p.origins, p.active⟩ rfl hfits)
  | isolated hname h herror hrest ih ihrest =>
    rename_i parent name names notes notes' error result
    obtain ⟨last, hleads, rfl⟩ := h.leads hW p hs hfits
    have hrest' := ihrest hdeep ⟨_, p.origins, p.active⟩ rfl hfits
    have hisolated := deepens_cons (p := { p with session := last })
      ⟨.isolated (parent.join name) error, _⟩ hrest' rfl
    exact deepens_of_after hleads.after 0 rfl hisolated
  | childStopped hname h hstop ih => exact ih hdeep p hs hfits

/-! ## The limit is not reached -/

/-- Whether `part'` agrees with `part` wherever that does not stop at the limit. -/
def Extends {α : Type} (part part' : Run ρ α) : Prop :=
  ∀ s, (part s).1 ≠ .error .tooDeep → part' s = part s

namespace Extends

variable {α β : Type} {part part' : Run ρ α}

theorem refl (part : Run ρ α) : Extends part part :=
  fun _ _ ↦ rfl

theorem bind {next next' : α → Run ρ β} (h : Extends part part')
    (hnext : ∀ a, Extends (next a) (next' a)) : Extends (part >>= next) (part' >>= next') := by
  intro s hs
  rw [bind_apply] at hs ⊢
  rw [bind_apply]
  have hpart : (part s).1 ≠ .error .tooDeep := by
    intro hdeep
    rcases hresult : part s with ⟨result, s'⟩
    rw [hresult] at hs hdeep
    cases hdeep
    exact hs rfl
  rw [h s hpart]
  rcases hresult : part s with ⟨stop | a, s'⟩
  · rfl
  · rw [hresult] at hs
    exact hnext a s' hs

theorem andFinally (h : Extends part part') {last : Run ρ Unit}
    (hlast : ∀ s, (last s).1 = .ok ()) :
    Extends (part.andFinally last) (part'.andFinally last) := by
  have happly (part : Run ρ α) (s : RunState ρ) :
      part.andFinally last s = ((part s).1, (last (part s).2).2) :=
    Run.andFinally_apply part last s _ (Prod.ext (hlast _) rfl)
  intro s hs
  rw [happly] at hs ⊢
  rw [happly, h s hs]

/-- What is done about an error of a part does not matter if it does nothing at the limit. -/
theorem outcome_bind {handle : Except Stop α → Run ρ β} (h : Extends part part')
    (hhandle : ∀ s, (handle (.error .tooDeep) s).1 = .error .tooDeep) :
    Extends (part.outcome >>= handle) (part'.outcome >>= handle) := by
  intro s hs
  rw [bind_apply, Run.outcome_apply] at hs ⊢
  rw [bind_apply, Run.outcome_apply, h s]
  intro hdeep
  rw [hdeep] at hs
  exact hs (hhandle _)

end Extends

variable {inner inner' : Run ρ Unit}

theorem extends_descend (h : Extends inner inner') (child : String) :
    Extends (descend inner child) (descend inner' child) := by
  unfold descend
  refine .bind (.refl _) fun here ↦ .bind (.refl _) fun top ↦ ?_
  dsimp only
  split
  · refine .bind (.refl _) fun _ ↦ .bind (.refl _) fun _ ↦ ?_
    exact h.andFinally fun s ↦ rfl
  · exact .refl _

theorem extends_isolate {part part' : Run ρ Unit} (h : Extends part part') (parent : RemotePath)
    (child : String) : Extends (isolate parent child part) (isolate parent child part') :=
  h.outcome_bind fun _ ↦ rfl

theorem extends_descendEach (h : Extends inner inner') (parent : RemotePath)
    (names : List String) :
    Extends (descendEach inner parent names) (descendEach inner' parent names) := by
  induction names with
  | nil => exact .refl _
  | cons name names ih =>
    unfold descendEach
    split
    · exact .bind (extends_isolate (extends_descend h name) parent name) fun _ ↦ ih
    · exact ih

theorem extends_execute (h : Extends inner inner') (command : Command) :
    Extends (e.execute inner command) (e.execute inner' command) := by
  unfold execute
  refine .bind (.refl _) fun s ↦ ?_
  cases command with
  | singleFolder child folderType => exact extends_descend h child
  | all =>
    exact .bind (.refl _) fun _ ↦ .bind (.refl _) fun names ↦ extends_descendEach h _ names
  | _ => exact .refl _

theorem extends_executeEach (h : Extends inner inner') (commands : List Command) :
    Extends (e.executeEach inner commands) (e.executeEach inner' commands) := by
  induction commands with
  | nil => exact .refl _
  | cons command commands ih =>
    refine .bind (.refl _) fun _ ↦ .bind ?_ fun _ ↦ ih
    exact (extends_execute h command).andFinally fun _ ↦ rfl

theorem extends_processFolder (h : Extends inner inner') (mark : String) :
    Extends (e.processFolder inner mark) (e.processFolder inner' mark) := by
  have hmanifest : Extends (e.executeManifest inner mark) (e.executeManifest inner' mark) := by
    refine .bind (.refl _) fun _ ↦ .bind (.refl _) fun planned ↦ ?_
    exact .bind (.refl _) fun _ ↦ .bind (.refl _) fun _ ↦ extends_executeEach h planned.2
  refine .bind (.refl _) fun _ ↦ .bind (.refl _) fun _ ↦ ?_
  exact (hmanifest.outcome_bind fun _ ↦ rfl).andFinally fun _ ↦ rfl

/-- A run that does not reach its limit is the same with any limit above. -/
theorem extends_process {limit more : Nat} (h : limit ≤ more) (mark : String) :
    Extends (e.process limit mark) (e.process more mark) := by
  induction limit generalizing more mark with
  | zero => exact fun s hs ↦ absurd rfl hs
  | succ limit ih =>
    cases more with
    | zero => omega
    | succ more => exact extends_processFolder (ih (Nat.le_of_succ_le_succ h) "") mark

theorem processTop_apply (limit : Nat) (w : World ρ) (s : Session) :
    e.processTop limit { world := w, session := s } =
      e.process limit e.options.mark
        { world := w, session := s.opened, journal := [⟨.begun, s.opened⟩] } := rfl

theorem processTop_eq_of_le {limit more : Nat} (h : limit ≤ more) {w : World ρ} {s : Session}
    (hresult : (e.processTop limit { world := w, session := s }).1 ≠ .error .tooDeep) :
    e.processTop more { world := w, session := s } =
      e.processTop limit { world := w, session := s } := by
  rw [processTop_apply] at hresult ⊢
  rw [processTop_apply]
  exact extends_process h e.options.mark _ hresult

/-! ## Runs -/

variable {folders : Finset (List String)}

theorem processTop_ne_tooDeep (hW : e.Lasts W)
    (hfolders : ∀ w, W w → ∀ (dir : RemotePath) (names : List String), dir.isNormal →
      (e.store.listFiles dir w).1 = .ok names → dir.segments ∈ folders)
    {limit : Nat} (hlimit : (folders.sup List.length + 1) * (folders.sup List.length + 1) < limit)
    {w : World ρ} {s : Session} (hw : W w)
    (hstrict : ∀ note ∈ e.journal limit w s, note.isStrict) :
    (e.processTop limit { world := w, session := s }).1 ≠ .error .tooDeep := by
  intro hdeep
  obtain ⟨notes, s', hcourse, hjournal⟩ := exists_course hW limit w s hw
  obtain ⟨before, hbefore, hlength⟩ :=
    hcourse.deepens hW hdeep (.start s) rfl ⟨rfl, .inl rfl⟩
  have hprefix : ⟨.begun, s.opened⟩ :: before <+: e.journal limit w s := by
    rw [hjournal]
    exact (List.prefix_cons_inj _).2 hbefore
  have hbound := length_loaded_le hW hfolders hw hstrict hprefix
  have hloaded : ((Place.start s).after (⟨.begun, s.opened⟩ :: before)).loaded.length = limit := by
    rw [Place.after_cons]
    exact hlength.trans (Nat.zero_add limit)
  omega

end FolderCommands.Engine
