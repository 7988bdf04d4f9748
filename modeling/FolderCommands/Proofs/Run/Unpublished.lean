import FolderCommands.Proofs.Run.Adherence
import FolderCommands.Proofs.Run.Publishing

/-!
# Manifests that are not published

The pages of a folder and its support files leave out the plain name of a manifest, whatever the
name is by which the manifest of that folder was read. So a manifest that has been read is neither
handed over as a page nor copied as a support file, unless it is that of the top folder and the
operator has a mark: it is read by the name with the mark in front, which nothing leaves out.
-/

namespace FolderCommands

/-- Whether an event is at most the fetching of a manifest, by its plain name or, in `folder`, with
`mark` in front, and no page with the plain name of a manifest. -/
def Event.SparesManifests (mark : String) (folder : RemotePath) : Event → Prop
  | .asked (.downloadFile dir name) =>
    name = Manifest.baseName ∨ dir = folder ∧ name = Manifest.fileName mark
  | .delegated (.page _ file) => file ≠ Manifest.baseName
  | _ => True

theorem Event.SparesManifests.mono {folder : RemotePath} {event : Event}
    (h : event.SparesManifests "" folder) (mark : String) (other : RemotePath) :
    event.SparesManifests mark other := by
  cases event with
  | asked request =>
    cases request with
    | downloadFile dir name =>
      have hname : name = Manifest.baseName := by
        rcases h with hname | ⟨-, hname⟩
        · exact hname
        · rw [hname, Manifest.fileName, String.empty_append]
      exact .inl hname
    | _ => trivial
  | delegated work =>
    cases work with
    | page dir file => exact h
    | _ => trivial
  | _ => trivial

namespace Engine

variable {ρ : Type} {e : Engine ρ} {W : World ρ → Prop}

/-- The mark with which a stage looks for the manifest of the current folder. -/
def Stage.mark : Stage → String
  | .folder mark => mark
  | _ => ""

theorem ContentEvents.sparesManifests {folder : RemotePath} {command : Command}
    {events : List Event} (h : e.ContentEvents folder command events) (mark : String) :
    ∀ event ∈ events, event.SparesManifests mark folder := by
  cases h with
  | noSupport target => simp
  | story | files | support => simp [Event.SparesManifests]
  | pages files hpages =>
    rw [List.forall_mem_cons, List.forall_mem_map]
    refine ⟨trivial, fun file hfile ↦ ?_⟩
    have hpage := hpages file hfile
    rw [isPage, Bool.and_eq_true, decide_eq_true_eq, decide_eq_true_eq] at hpage
    exact hpage.2

theorem Raises.sparesManifests {s : Session} {stage : Stage} {events : List Event} {error : Error}
    (h : e.Raises W s stage events error) (mark : String) :
    ∀ event ∈ events, event.SparesManifests mark s.traversal.currentFolder := by
  cases h with
  | descent | changeFolder => simp
  | listing => simp [Event.SparesManifests]
  | content hcontent => exact hcontent.sparesManifests mark

theorem Loads.sparesManifests {folder : RemotePath} {mark : String}
    {result : Except Error Manifest} {requests : List Request}
    (h : e.Loads W folder mark result requests) (hW : e.Lasts W) :
    ∀ event ∈ requests.map Event.asked, event.SparesManifests mark folder := by
  rw [List.forall_mem_map]
  intro request hrequest
  rcases h.asked hW request hrequest with rfl | rfl
  · trivial
  · exact .inr ⟨rfl, rfl⟩

theorem Refuses.sparesManifests {mark : String} {s : Session} {events : List Event} {error : Error}
    (h : e.Refuses W mark s events error) (hW : e.Lasts W) :
    ∀ event ∈ events, event.SparesManifests mark s.traversal.currentFolder := by
  cases h with
  | unloaded h => exact h.sparesManifests hW
  | unplanned h hplan =>
    rw [List.forall_mem_append]
    exact ⟨h.sparesManifests hW, List.forall_mem_singleton.2 trivial⟩

theorem sparesManifests_during {mark : String} {folder : RemotePath} {s : Session}
    {events : List Event} (h : ∀ event ∈ events, event.SparesManifests mark folder) :
    ∀ note ∈ Journal.during s events, note.event.SparesManifests mark folder := by
  rw [Journal.during, List.forall_mem_map]
  exact h

/-- In a stage, no more is fetched of manifests than where they are looked for. -/
theorem Course.sparesManifests (hW : e.Lasts W) {limit : Nat} {stage : Stage} {s s' : Session}
    {notes : Journal} {result : Except Stop Unit}
    (h : e.Course W limit stage s notes result s') :
    ∀ note ∈ notes, note.event.SparesManifests stage.mark s.traversal.currentFolder := by
  induction h with
  | tooDeep | done | identity | changeFolder | noChild => simp
  | raised h =>
    apply sparesManifests_during
    rw [List.forall_mem_append, List.forall_mem_singleton]
    exact ⟨h.sparesManifests _, trivial⟩
  | refused h =>
    rw [List.forall_mem_append, List.forall_mem_singleton]
    refine ⟨sparesManifests_during ?_, trivial⟩
    rw [List.cons_append, List.forall_mem_cons, List.forall_mem_append, List.forall_mem_singleton]
    exact ⟨trivial, h.sparesManifests hW, trivial⟩
  | @executed limit mark s s' manifest requests commands notes result h hplan hcommands ih =>
    have hloading : ∀ event ∈ .entered s.traversal.currentFolder :: requests.map Event.asked ++
        [.loaded s.traversal.currentFolder manifest],
          event.SparesManifests mark s.traversal.currentFolder := by
      rw [List.cons_append, List.forall_mem_cons, List.forall_mem_append, List.forall_mem_singleton]
      exact ⟨trivial, h.sparesManifests hW, trivial⟩
    rw [List.forall_mem_append, List.forall_mem_append, List.forall_mem_cons,
      List.forall_mem_singleton]
    exact ⟨⟨sparesManifests_during hloading, trivial, fun note hnote ↦ (ih note hnote).mono _ _⟩,
      trivial⟩
  | content h => exact sparesManifests_during (h.sparesManifests _)
  | next h hrest ih ihrest =>
    rw [List.cons_append, List.forall_mem_cons, List.forall_mem_append, List.forall_mem_cons]
    exact ⟨trivial, ih, trivial, fun note hnote ↦ (ihrest note hnote).mono _ _⟩
  | stopped h ih =>
    rw [List.cons_append, List.forall_mem_cons, List.forall_mem_append, List.forall_mem_singleton]
    exact ⟨trivial, ih, trivial⟩
  | singleFolder h ih | ignored h ih | childStopped hname h hstop ih => exact ih
  | all h hchildren ih => exact List.forall_mem_cons.2 ⟨trivial, ih⟩
  | descent h hfolder ih =>
    rw [List.cons_append, List.forall_mem_cons, List.forall_mem_append, List.forall_mem_singleton]
    exact ⟨trivial, fun note hnote ↦ (ih note hnote).mono _ _, trivial⟩
  | child hname h hrest ih ihrest =>
    rw [List.forall_mem_append]
    exact ⟨ih, fun note hnote ↦ (ihrest note hnote).mono _ _⟩
  | isolated hname h herror hrest ih ihrest =>
    rw [List.forall_mem_append, List.forall_mem_cons]
    exact ⟨ih, trivial, fun note hnote ↦ (ihrest note hnote).mono _ _⟩

/-! ## Runs -/

theorem journal_sparesManifests (e : Engine ρ) (limit : Nat) (w : World ρ) (s : Session) :
    ∀ note ∈ e.journal limit w s,
      note.event.SparesManifests e.options.mark s.traversal.topFolder := by
  obtain ⟨notes, s', hcourse, hjournal⟩ := exists_course e.lasts_true limit w s trivial
  rw [hjournal, List.forall_mem_cons]
  exact ⟨trivial, hcourse.sparesManifests e.lasts_true⟩

/-- A manifest that is read in a run is neither handed over as a page nor, in whatever state, copied
as a support file, unless it is that of the top folder and the operator has a mark. -/
theorem manifest_unpublished (e : Engine ρ) (limit : Nat) (w : World ρ) (s : Session)
    {folder : RemotePath} {name : String}
    (hread : .downloadFile folder name ∈ (e.journal limit w s).requests)
    (hmark : e.options.mark = "" ∨ folder ≠ s.traversal.topFolder) :
    .page folder name ∉ (e.journal limit w s).work ∧
    ∀ (target : String) (s' : RunState ρ) (loc : Location) (content : List UInt8),
      e.Stages folder s'.world → e.isStaging s'.world loc = false → loc.getLast? = some name →
      (e.transferSupport folder target s').2.world.disk.tree.get? loc = some (.file content) →
        s'.world.disk.tree.get? loc = some (.file content) := by
  obtain ⟨_, hasked⟩ := Journal.mem_requests.1 hread
  have hname : name = Manifest.baseName := by
    rcases e.journal_sparesManifests limit w s _ hasked with hname | ⟨hfolder, hname⟩
    · exact hname
    · have hempty : e.options.mark = "" := hmark.resolve_right (absurd hfolder)
      rw [hname, hempty, Manifest.fileName, String.empty_append]
  constructor
  · intro hwork
    obtain ⟨_, hdelegated⟩ := Journal.mem_work.1 hwork
    exact e.journal_sparesManifests limit w s _ hdelegated hname
  · intro target s' loc content hstages hloc hlast hafter
    rcases transferSupport_changes hstages hloc with hsame | hchanges
    · rw [← hsame]
      exact hafter
    cases hchanges with
    | made hway hbefore hmade =>
      rw [hafter] at hmade
      cases hmade
    | copied other hother hmanifest hplace =>
      rw [hplace, List.getLast?_concat, hname] at hlast
      exact absurd (Option.some.inj hlast) hmanifest

/-- The store has a page in the folder `t`, and the manifest that has it updated. -/
def withPages (mark : String) : Engine Unit where
  scratch := ⟨"/tmp", ["tmp"]⟩
  store := memoryStore ((({} : Tree).putDeep ["t", "index.md"] (.file [])).putDeep
    ["t", Manifest.fileName mark]
    (.file (Text.encode "command_set: update_pages\n---\ncommand: process_pages\n"))) []
  users := {}
  delegate := .idle
  options := { mark, scratchRoot := "/tmp", supportDirectory := "/site" }

theorem manifest_unpublished_withPages :
    (.downloadFile (.ofText "t") "commands.txt" ∈
        ((withPages "").journal 1 .withScratch (.start (.ofText "t"))).requests ∧
      (withPages "").options.mark = "") ∧
    ((withPages "").journal 1 .withScratch (.start (.ofText "t"))).work =
      [.page (.ofText "t") "index.md"] ∧
    .page (.ofText "t") "commands.txt" ∉
      ((withPages "").journal 1 .withScratch (.start (.ofText "t"))).work := by
  have hrun : .downloadFile (.ofText "t") "commands.txt" ∈
        ((withPages "").journal 1 .withScratch (.start (.ofText "t"))).requests ∧
      ((withPages "").journal 1 .withScratch (.start (.ofText "t"))).work =
        [.page (.ofText "t") "index.md"] := by
    decide +kernel
  have hunpublished := manifest_unpublished (withPages "") 1 .withScratch (.start (.ofText "t"))
    hrun.1 (.inl rfl)
  exact ⟨⟨hrun.1, rfl⟩, hrun.2, hunpublished.1⟩

/-- The manifest of the top folder is handed over and copied under a name with a mark. -/
theorem exists_published_manifest :
    ∃ (mark : String) (content : List UInt8),
      .downloadFile (.ofText "t") (Manifest.fileName mark) ∈
        ((withPages mark).journal 1 .withScratch (.start (.ofText "t"))).requests ∧
      .page (.ofText "t") (Manifest.fileName mark) ∈
        ((withPages mark).journal 1 .withScratch (.start (.ofText "t"))).work ∧
      ((withPages mark).transferSupport (.ofText "t") "css"
        { world := .withScratch, session := .start (.ofText "t") }).2.world.disk.tree.get?
          ["site", "css", Manifest.fileName mark] = some (.file content) := by
  refine ⟨"don_", Text.encode "command_set: update_pages\n---\ncommand: process_pages\n", ?_⟩
  decide +kernel

end Engine

end FolderCommands
