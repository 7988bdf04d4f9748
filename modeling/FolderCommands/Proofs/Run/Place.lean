import FolderCommands.Proofs.Descendant
import FolderCommands.Proofs.Run.Course

/-!
# The place of a run

Where a run stands is determined by its journal: the session, the folders from which the run has
gone down and not come back yet, and the folders under way with what is known of their manifests.
Which note may come next depends on the place alone. A property of places that every such note
keeps therefore holds all along a run, and no proof of one has to look into the traversal.
-/

namespace FolderCommands

/-- A folder under way. -/
structure Activation where
  folder : RemotePath
  /-- The session on entry. -/
  opening : Session
  manifest : Option Manifest := none
  commands : Option (List Command) := none

/-- Where a run stands. -/
structure Place where
  session : Session
  /-- The folders from which the run has gone down, innermost first. -/
  origins : List RemotePath := []
  /-- The folders under way, innermost first. -/
  active : List Activation := []

namespace Place

/-- The place at the start of a run. -/
def start (s : Session) : Place :=
  { session := s.opened }

/-- The place after a note. -/
def next (p : Place) (note : Note) : Place :=
  match note.event with
  | .descended child =>
    { p with
      session := note.session.backIn child
      origins := note.session.traversal.currentFolder :: p.origins }
  | .returned _ => { p with session := note.session, origins := p.origins.tail }
  | .entered folder =>
    { p with session := note.session, active := { folder, opening := note.session } :: p.active }
  | .loaded _ manifest =>
    { p with
      session := note.session
      active := p.active.modifyHead fun a ↦ { a with manifest := some manifest } }
  | .planned _ _ commands =>
    { p with
      session := note.session
      active := p.active.modifyHead fun a ↦ { a with commands := some commands } }
  | .left _ => { p with session := note.session, active := p.active.tail }
  | _ => { p with session := note.session }

/-- The place after some notes. -/
def after (p : Place) (notes : Journal) : Place :=
  notes.foldl next p

@[simp]
theorem after_nil (p : Place) : p.after [] = p := rfl

@[simp]
theorem after_cons (p : Place) (note : Note) (notes : Journal) :
    p.after (note :: notes) = (p.next note).after notes := rfl

@[simp]
theorem after_append (p : Place) (notes notes' : Journal) :
    p.after (notes ++ notes') = (p.after notes).after notes' :=
  List.foldl_append

/-- What holds of every note and the place at which it comes. -/
def Throughout (Q : Place → Note → Prop) : Place → Journal → Prop
  | _, [] => True
  | p, note :: notes => Q p note ∧ (p.next note).Throughout Q notes

variable {Q : Place → Note → Prop}

theorem throughout_append {p : Place} {notes notes' : Journal} :
    p.Throughout Q (notes ++ notes') ↔
      p.Throughout Q notes ∧ (p.after notes).Throughout Q notes' := by
  induction notes generalizing p with
  | nil => simp [Throughout]
  | cons note notes ih => simp [Throughout, ih, and_assoc]

/-- What every note keeps holds all along. -/
theorem Throughout.invariant {I : Place → Prop} {p : Place} {notes : Journal}
    (h : p.Throughout Q notes) (hI : ∀ p note, I p → Q p note → I (p.next note)) (hp : I p) :
    I (p.after notes) := by
  induction notes generalizing p with
  | nil => exact hp
  | cons note notes ih => exact ih h.2 (hI p note hp h.1)

theorem Throughout.and_forall {R : Note → Prop} {p : Place} {notes : Journal}
    (h : p.Throughout Q notes) (hR : ∀ note ∈ notes, R note) :
    p.Throughout (fun p note ↦ Q p note ∧ R note) notes := by
  induction notes generalizing p with
  | nil => trivial
  | cons note notes ih =>
    obtain ⟨hnote, hrest⟩ := List.forall_mem_cons.1 hR
    exact ⟨⟨h.1, hnote⟩, ih h.2 hrest⟩

theorem throughout_iff {p : Place} {notes : Journal} :
    p.Throughout Q notes ↔
      ∀ before note after, notes = before ++ note :: after → Q (p.after before) note := by
  constructor
  · rintro h before note after rfl
    exact (throughout_append.1 h).2.1
  · intro h
    induction notes generalizing p with
    | nil => trivial
    | cons note notes ih =>
      refine ⟨h [] note notes rfl, ih fun before note' after hsplit ↦ ?_⟩
      exact h (note :: before) note' after (by rw [hsplit, List.cons_append])

end Place

namespace Engine

variable {ρ : Type}

/-- What a command may have done to the session when it ends, apart from what has been noted. -/
inductive Effect (e : Engine ρ) : Command → Session → Session → Prop
  | none {command : Command} {s : Session} : Effect e command s s
  | identity {person : Option String} {sendLog : Bool} {s : Session} :
      Effect e (.identity person sendLog) s
        { s with
          identities := s.identities ++ [⟨s.traversal.currentFolder, person, sendLog,
            (person.map e.users.resolve).getD []⟩] }
  | changeFolder {child : String} {s : Session}
      (h : (s.traversal.topFolder.join child).isDescendantOf s.traversal.topFolder) :
      Effect e (.changeFolder child) s
        { s with traversal := s.traversal.changeFolder child }

/-- Which note may come next. -/
inductive Turn (e : Engine ρ) (W : World ρ → Prop) : Place → Note → Prop
  | begun {p : Place} : Turn e W p ⟨.begun, p.session⟩
  | descended {p : Place} {child : String} (hactive : p.active.length = p.origins.length + 1)
      (h : (p.session.traversal.currentFolder.join child).isDescendantOf
        p.session.traversal.topFolder) :
      Turn e W p ⟨.descended (p.session.traversal.currentFolder.join child), p.session⟩
  | returned {p : Place} {origin child : RemotePath} {origins : List RemotePath}
      (hactive : p.active.length = p.origins.length) (h : p.origins = origin :: origins) :
      Turn e W p ⟨.returned child, p.session.backIn origin⟩
  | entered {p : Place} (hactive : p.active.length = p.origins.length)
      (hwithin : p.session.traversal.currentFolder.IsWithin p.session.traversal.topFolder) :
      Turn e W p ⟨.entered p.session.traversal.currentFolder, p.session⟩
  | loaded {p : Place} {a : Activation} {rest : List Activation} {mark : String}
      {manifest : Manifest} {requests : List Request} (h : p.active = a :: rest)
      (hcommands : a.commands = none)
      (hloads : e.Loads W a.folder mark (.ok manifest) requests) :
      Turn e W p ⟨.loaded a.folder manifest, p.session⟩
  | planned {p : Place} {a : Activation} {rest : List Activation} {manifest : Manifest}
      {commands : List Command} (h : p.active = a :: rest) (hopening : p.session = a.opening)
      (hmanifest : a.manifest = some manifest)
      (hplan : Plan.ofRecords manifest.commandSet manifest.records = .ok commands) :
      Turn e W p ⟨.planned a.folder manifest.commandSet commands, p.session.visiting a.folder⟩
  | started {p : Place} {a : Activation} {rest : List Activation} {command : Command}
      {commands : List Command} (h : p.active = a :: rest) (hplan : a.commands = some commands)
      (hmem : command ∈ commands) :
      Turn e W p ⟨.started command, p.session⟩
  | ended {p : Place} {command : Command} {s : Session} (h : e.Effect command p.session s) :
      Turn e W p ⟨.ended command, s⟩
  | left {p : Place} (folder : RemotePath) (result : Except Stop Unit)
      (hactive : p.active.length = p.origins.length + 1) :
      Turn e W p ⟨.left folder, afterwards folder result p.session⟩
  | asked {p : Place} {request : Request}
      (h : request.folder = p.session.traversal.currentFolder) :
      Turn e W p ⟨.asked request, p.session⟩
  | delegated {p : Place} {work : Work} (h : work.folder = p.session.traversal.currentFolder) :
      Turn e W p ⟨.delegated work, p.session⟩
  | raised {p : Place} {error : Error} : Turn e W p ⟨.raised error, p.session⟩
  | isolated {p : Place} {child : RemotePath} {error : Error} :
      Turn e W p ⟨.isolated child error, p.session.isolating child error⟩

/-- Notes each of which may come where the run stands then. -/
abbrev Along (e : Engine ρ) (W : World ρ → Prop) (p : Place) (notes : Journal) : Prop :=
  p.Throughout (e.Turn W) notes

variable {e : Engine ρ} {W : World ρ → Prop}

/-- What a note does to the folders of a run: most leave them as they are. -/
inductive Moves (p : Place) (note : Note) : Prop
  | stays (htraversal : note.session.traversal = p.session.traversal)
      (hsession : (p.next note).session = note.session)
      (horigins : (p.next note).origins = p.origins)
  | descends (child : String)
      (hevent : note.event = .descended (p.session.traversal.currentFolder.join child))
      (htraversal : note.session.traversal = p.session.traversal)
      (h : (p.session.traversal.currentFolder.join child).isDescendantOf
        p.session.traversal.topFolder)
  | returns (child origin : RemotePath) (origins : List RemotePath)
      (hevent : note.event = .returned child)
      (htraversal : note.session.traversal = ⟨p.session.traversal.topFolder, origin⟩)
      (h : p.origins = origin :: origins)
  | changes (child : String) (hevent : note.event = .ended (.changeFolder child))
      (htraversal : note.session.traversal = p.session.traversal.changeFolder child)
      (h : (p.session.traversal.topFolder.join child).isDescendantOf
        p.session.traversal.topFolder)

theorem Turn.moves {p : Place} {note : Note} (h : e.Turn W p note) : Moves p note := by
  cases h with
  | begun | entered | loaded | started | asked | delegated | raised | isolated | planned =>
    exact .stays rfl rfl rfl
  | left folder result hactive => rcases result with (_ | _) | _ <;> exact .stays rfl rfl rfl
  | descended hactive h => exact .descends _ rfl rfl h
  | returned hactive h => exact .returns _ _ _ rfl rfl h
  | ended h =>
    cases h with
    | none | identity => exact .stays rfl rfl rfl
    | changeFolder h => exact .changes _ rfl rfl h

/-- A folder under way was under way before, or is entered now. -/
theorem Turn.mem_active {p : Place} {note : Note} (h : e.Turn W p note) {a : Activation}
    (ha : a ∈ (p.next note).active) :
    (∃ b ∈ p.active, a.folder = b.folder) ∨ a.folder = p.session.traversal.currentFolder := by
  cases h with
  | entered =>
    rcases List.mem_cons.1 ha with rfl | ha
    · exact .inr rfl
    · exact .inl ⟨a, ha, rfl⟩
  | loaded hactive | planned hactive =>
    simp only [Place.next, hactive, List.modifyHead_cons] at ha
    rw [hactive]
    rcases List.mem_cons.1 ha with rfl | ha
    · exact .inl ⟨_, List.mem_cons_self .., rfl⟩
    · exact .inl ⟨a, List.mem_cons_of_mem _ ha, rfl⟩
  | left => exact .inl ⟨a, List.mem_of_mem_tail ha, rfl⟩
  | _ => exact .inl ⟨a, ha, rfl⟩

end Engine

end FolderCommands
