import FolderCommands.Proofs.Run.Equations

/-!
# Runs that are alike

Two runs are alike if they stand at the same folders, in worlds between which no answer makes a
difference, and what they have recorded is related in some way. A part of a run keeps them alike
if it gets the same answers on both sides. The relation may be any that is not ended by what both
sides record, so the two may have come to where they are by different ways.
-/

namespace FolderCommands

/-! ## Trails -/

/-- What a run has recorded. -/
structure Trail where
  visited : List RemotePath := []
  identities : List Identity := []
  failures : List FolderFailure := []
  events : List Event := []

namespace Trail

instance : Append Trail where
  append t more :=
    { visited := t.visited ++ more.visited
      identities := t.identities ++ more.identities
      failures := t.failures ++ more.failures
      events := t.events ++ more.events }

theorem append_def (t more : Trail) :
    t ++ more =
      { visited := t.visited ++ more.visited
        identities := t.identities ++ more.identities
        failures := t.failures ++ more.failures
        events := t.events ++ more.events } := rfl

@[simp]
theorem empty_append (t : Trail) : ({} : Trail) ++ t = t := by
  simp only [append_def, List.nil_append]

theorem append_assoc (t more most : Trail) : t ++ more ++ most = t ++ (more ++ most) := by
  simp only [append_def, List.append_assoc]

end Trail

namespace RunState

variable {ρ : Type}

/-- What has been recorded in a state. -/
def trail (s : RunState ρ) : Trail where
  visited := s.session.visited
  identities := s.session.identities
  failures := s.session.failures
  events := s.journal.map (·.event)

theorem trail_noted (s : RunState ρ) (event : Event) :
    (s.noted event).trail = s.trail ++ { events := [event] } := by
  simp [trail, noted, Trail.append_def]

theorem trail_inquired (s : RunState ρ) (after : Inquired ρ) :
    (s.inquired after).trail = s.trail ++ { events := after.requests.map .asked } := by
  simp [trail, inquired, Trail.append_def, Journal.during]

theorem trail_visiting (s : RunState ρ) (folder : RemotePath) :
    (s.updated (·.visiting folder)).trail = s.trail ++ { visited := [folder] } := by
  simp [trail, updated, Session.visiting, Trail.append_def]

theorem trail_isolating (s : RunState ρ) (child : RemotePath) (error : Error) :
    (s.updated (·.isolating child error)).trail =
      s.trail ++ { failures := [⟨child.text, error.message⟩] } := by
  simp [trail, updated, Session.isolating, Trail.append_def]

end RunState

/-! ## Answers -/

/-- Whether an inquiry has the same outcome in all worlds of which `W` holds, and ends in one. -/
def Inquiry.IsSteady {ρ α : Type} (W : World ρ → Prop) (inquiry : Inquiry ρ α) : Prop :=
  ∀ w w', W w → W w' →
    (inquiry { world := w' }).1 = (inquiry { world := w }).1 ∧
    (inquiry { world := w' }).2.requests = (inquiry { world := w }).2.requests ∧
    W (inquiry { world := w }).2.world

/-- Whether no answer of the store, of the delegate or of the local disk depends on what has been
done before, as long as `W` holds of the world. -/
structure Engine.IsSteady {ρ : Type} (e : Engine ρ) (W : World ρ → Prop) : Prop where
  load (folder : RemotePath) (mark : String) (h : mark = "" ∨ mark = e.options.mark) :
    (Manifest.load e.store e.scratch.path folder mark).IsSteady W
  files (folder : RemotePath) : (e.store.askFiles folder).IsSteady W
  directories (folder : RemotePath) : (e.store.askDirectories folder).IsSteady W
  transfer (folder : RemotePath) (target : String) (h : e.options.dryRun = false) :
    (Support.transfer e.store e.options.scratchRoot folder target).IsSteady W
  delegate (work : Work) : (Inquiry.act (e.delegate work)).IsSteady W

theorem Engine.IsSteady.listDirectories {ρ : Type} {e : Engine ρ} {W : World ρ → Prop}
    (h : e.IsSteady W) (dir : RemotePath) {w w' : World ρ} (hw : W w) (hw' : W w') :
    (e.store.listDirectories dir w').1 = (e.store.listDirectories dir w).1 ∧
      W (e.store.listDirectories dir w).2 := by
  obtain ⟨hnames, -, hworld⟩ := h.directories dir w w' hw hw'
  exact ⟨hnames, hworld⟩

/-! ## States -/

/-- States at the same place whose trails are in the relation `R`. -/
structure Alike {ρ : Type} (W : World ρ → Prop) (R : Trail → Trail → Prop) (s s' : RunState ρ) :
    Prop where
  world : W s.world
  world' : W s'.world
  traversal : s'.session.traversal = s.session.traversal
  failedFolder : s'.session.failedFolder = s.session.failedFolder
  trail : R s.trail s'.trail

/-- A relation that is not ended by what is recorded on both sides. -/
def Trail.Lasts (R : Trail → Trail → Prop) : Prop :=
  ∀ t t' more, R t t' → R (t ++ more) (t' ++ more)

/-- Parts that have the same outcome in states that are alike and leave them alike. -/
def Run.Mirrors {ρ α : Type} (W : World ρ → Prop) (R : Trail → Trail → Prop)
    (part part' : Run ρ α) : Prop :=
  ∀ s s', Alike W R s s' → (part' s').1 = (part s).1 ∧ Alike W R (part s).2 (part' s').2

section

variable {ρ : Type} {W : World ρ → Prop} {R : Trail → Trail → Prop} {s s' : RunState ρ}

/-- States remain alike if neither records anything and both go to the same place. -/
theorem Alike.updated (h : Alike W R s s') (f : Session → Session)
    (htraversal : (f s'.session).traversal = (f s.session).traversal)
    (hfailed : (f s'.session).failedFolder = (f s.session).failedFolder)
    (htrail : (s.updated f).trail = s.trail) (htrail' : (s'.updated f).trail = s'.trail) :
    Alike W R (s.updated f) (s'.updated f) where
  world := h.world
  world' := h.world'
  traversal := htraversal
  failedFolder := hfailed
  trail := by
    rw [htrail, htrail']
    exact h.trail

theorem Alike.afterwards (h : Alike W R s s') (folder : RemotePath)
    (result : Except Stop Unit) :
    Alike W R (s.updated (Engine.afterwards folder result))
      (s'.updated (Engine.afterwards folder result)) := by
  rcases result with (error | _) | _
  · exact h.updated (Engine.blame folder) h.traversal
      (congrArg (·.or (some folder)) h.failedFolder) rfl rfl
  · exact h
  · exact h

variable (hR : Trail.Lasts R)

include hR

theorem Alike.noted (h : Alike W R s s') (event : Event) :
    Alike W R (s.noted event) (s'.noted event) where
  world := h.world
  world' := h.world'
  traversal := h.traversal
  failedFolder := h.failedFolder
  trail := by
    rw [RunState.trail_noted, RunState.trail_noted]
    exact hR _ _ _ h.trail

theorem Alike.inquired (h : Alike W R s s') {after after' : Inquired ρ} (hworld : W after.world)
    (hworld' : W after'.world) (hrequests : after'.requests = after.requests) :
    Alike W R (s.inquired after) (s'.inquired after') where
  world := hworld
  world' := hworld'
  traversal := h.traversal
  failedFolder := h.failedFolder
  trail := by
    rw [RunState.trail_inquired, RunState.trail_inquired, hrequests]
    exact hR _ _ _ h.trail

theorem Alike.visiting (h : Alike W R s s') (folder : RemotePath) :
    Alike W R (s.updated (·.visiting folder)) (s'.updated (·.visiting folder)) where
  world := h.world
  world' := h.world'
  traversal := h.traversal
  failedFolder := h.failedFolder
  trail := by
    rw [RunState.trail_visiting, RunState.trail_visiting]
    exact hR _ _ _ h.trail

theorem Alike.isolating (h : Alike W R s s') (child : RemotePath) (error : Error) :
    Alike W R (s.updated (·.isolating child error)) (s'.updated (·.isolating child error)) where
  world := h.world
  world' := h.world'
  traversal := h.traversal
  failedFolder := rfl
  trail := by
    rw [RunState.trail_isolating, RunState.trail_isolating]
    exact hR _ _ _ h.trail

end

/-! ## Parts -/

namespace Run.Mirrors

variable {ρ α β : Type} {W : World ρ → Prop} {R : Trail → Trail → Prop}

theorem bind {part part' : Run ρ α} {next next' : α → Run ρ β} (h : Mirrors W R part part')
    (hnext : ∀ a, Mirrors W R (next a) (next' a)) : Mirrors W R (part >>= next) (part' >>= next') :=
  Relates.bind h hnext

theorem mapError {part part' : Run ρ α} (h : Mirrors W R part part') (f : Error → Error) :
    Mirrors W R (part.mapError f) (part'.mapError f) :=
  Relates.mapError h f

theorem act {action : Action ρ α} (h : (Inquiry.act action).IsSteady W) :
    Mirrors W R (Run.act action) (Run.act action) := by
  intro s s' hs
  obtain ⟨hresult, -, hworld⟩ := h s.world s'.world hs.world hs.world'
  obtain ⟨-, -, hworld'⟩ := h s'.world s.world hs.world' hs.world
  refine ⟨congrArg (·.mapError Stop.failed) hresult, ?_⟩
  exact ⟨hworld, hworld', hs.traversal, hs.failedFolder, hs.trail⟩

variable (hR : Trail.Lasts R)

include hR

theorem note (event : Event) : Mirrors W R (Run.note event : Run ρ Unit) (Run.note event) :=
  fun _ _ hs ↦ ⟨rfl, hs.noted hR event⟩

theorem raising {part part' : Run ρ α} (h : Mirrors W R part part') :
    Mirrors W R part.raising part'.raising :=
  Relates.raising h fun error ↦ note hR (.raised error)

theorem inquire {inquiry : Inquiry ρ α} (h : inquiry.IsSteady W) :
    Mirrors W R (Run.inquire inquiry) (Run.inquire inquiry) := by
  intro s s' hs
  obtain ⟨hresult, hrequests, hworld⟩ := h s.world s'.world hs.world hs.world'
  obtain ⟨-, -, hworld'⟩ := h s'.world s.world hs.world' hs.world
  rw [inquire_apply, inquire_apply]
  exact ⟨congrArg (·.mapError Stop.failed) hresult, hs.inquired hR hworld hworld' hrequests⟩

end Run.Mirrors

namespace Engine

open Run

variable {ρ : Type} {e : Engine ρ} {W : World ρ → Prop} {R : Trail → Trail → Prop}
  (hW : e.IsSteady W) (hR : Trail.Lasts R)

include hR

theorem mirrors_changeFolder (child : String) :
    Mirrors W R (changeFolder child) (changeFolder child) := by
  intro s s' hs
  rw [changeFolder_apply, changeFolder_apply, hs.traversal]
  dsimp only
  split
  · exact ⟨rfl, hs.updated (fun t ↦ { t with traversal := t.traversal.changeFolder child })
      (congrArg (·.changeFolder child) hs.traversal) hs.failedFolder rfl rfl⟩
  · exact ⟨rfl, hs.noted hR _⟩

theorem mirrors_identify (person : Option String) (sendLog : Bool) :
    Mirrors W R (e.identify person sendLog) (e.identify person sendLog) := by
  intro s s' hs
  refine ⟨rfl, hs.world, hs.world', hs.traversal, hs.failedFolder, ?_⟩
  have htrail (s : RunState ρ) : (e.identify person sendLog s).2.trail =
      s.trail ++ { identities := [⟨s.session.traversal.currentFolder, person, sendLog,
        (person.map e.users.resolve).getD []⟩] } := by
    simp [identify, updateSession_apply, RunState.updated, RunState.trail, Trail.append_def]
  rw [htrail, htrail, hs.traversal]
  exact hR _ _ _ hs.trail

include hW

theorem mirrors_handOver (work : Work) : Mirrors W R (e.handOver work) (e.handOver work) :=
  (Mirrors.note hR _).bind fun _ ↦ .act (hW.delegate work)

theorem mirrors_updatePages (folder : RemotePath) :
    Mirrors W R (e.updatePages folder) (e.updatePages folder) := by
  apply (Mirrors.inquire hR (hW.files folder)).bind
  intro files
  induction files.filter isPage with
  | nil => exact fun _ _ hs ↦ ⟨rfl, hs⟩
  | cons file files ih => exact (mirrors_handOver hW hR _).bind fun _ ↦ ih

theorem mirrors_transferSupport (folder : RemotePath) (target : String) :
    Mirrors W R (e.transferSupport folder target) (e.transferSupport folder target) := by
  unfold transferSupport
  split
  · exact fun _ _ hs ↦ ⟨rfl, hs⟩
  · rename_i h
    exact .inquire hR (hW.transfer folder _ (eq_false_of_ne_true h))

theorem mirrors_plan (folder : RemotePath) {mark : String}
    (hmark : mark = "" ∨ mark = e.options.mark) :
    Mirrors W R (e.plan folder mark) (e.plan folder mark) := by
  apply (Mirrors.raising hR (.inquire hR (hW.load folder mark hmark))).bind
  intro manifest
  apply (Mirrors.note hR _).bind
  intro _
  cases Plan.ofRecords manifest.commandSet manifest.records with
  | ok commands => exact fun _ _ hs ↦ ⟨rfl, hs⟩
  | error error => exact .raising hR (Relates.fail error)

end Engine

end FolderCommands
