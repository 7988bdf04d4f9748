import FolderCommands.Proofs.Run.Confinement

/-!
# What lies outside has no bearing

If a store and a delegate behave like others on the folders within some folder, then a run from
there is the same with either. So a run learns nothing of the folders outside, and does nothing
there, whether or not it notes what it asks.
-/

namespace FolderCommands

/-- Parts of a run that do the same from within `root`, stay there and have a result of which `Q`
holds. -/
def Run.SameWithin {ρ α : Type} (root : RemotePath) (part part' : Run ρ α) (Q : α → Prop) : Prop :=
  ∀ s : RunState ρ, s.session.IsWithin root → part' s = part s ∧
    (part s).2.session.IsWithin root ∧ ∀ a, (part s).1 = .ok a → Q a

namespace Run.SameWithin

variable {ρ α β : Type} {root : RemotePath} {Q : α → Prop} {R : β → Prop}

theorem bind {part part' : Run ρ α} {next next' : α → Run ρ β}
    (h : part.SameWithin root part' Q) (hnext : ∀ a, Q a → (next a).SameWithin root (next' a) R) :
    (part >>= next).SameWithin root (part' >>= next') R := by
  intro s hs
  obtain ⟨hsame, hstays, hQ⟩ := h s hs
  rw [bind_apply, bind_apply, hsame]
  rcases hresult : part s with ⟨stop | a, s'⟩
  · rw [hresult] at hstays
    exact ⟨rfl, hstays, fun _ hok ↦ nomatch hok⟩
  · rw [hresult] at hstays hQ
    exact hnext a (hQ a rfl) s' hstays

/-- A part that leaves the session alone. -/
theorem of_session {part : Run ρ α} (h : ∀ s, (part s).2.session = s.session) :
    part.SameWithin root part fun _ ↦ True :=
  fun s hs ↦ ⟨rfl, (h s).symm ▸ hs, fun _ _ ↦ trivial⟩

theorem note (event : Event) :
    (Run.note event : Run ρ Unit).SameWithin root (Run.note event) fun _ ↦ True :=
  of_session fun _ ↦ rfl

theorem fail (error : Error) :
    (Run.fail error : Run ρ α).SameWithin root (Run.fail error) Q :=
  fun _ hs ↦ ⟨rfl, hs, fun _ hok ↦ nomatch hok⟩

theorem session :
    (Run.session : Run ρ Session).SameWithin root Run.session (Session.IsWithin root) :=
  fun _ hs ↦ ⟨rfl, hs, fun _ hok ↦ Except.ok.inj hok ▸ hs⟩

theorem updateSession {f : Session → Session}
    (h : ∀ s : Session, s.IsWithin root → (f s).IsWithin root) :
    (Run.updateSession f : Run ρ Unit).SameWithin root (Run.updateSession f) fun _ ↦ True :=
  fun s hs ↦ ⟨rfl, h s.session hs, fun _ _ ↦ trivial⟩

theorem outcome {part part' : Run ρ α} (h : part.SameWithin root part' Q) :
    part.outcome.SameWithin root part'.outcome fun result ↦ ∀ a, result = .ok a → Q a := by
  intro s hs
  obtain ⟨hsame, hstays, hQ⟩ := h s hs
  refine ⟨?_, hstays, ?_⟩
  · rw [outcome_apply, outcome_apply, hsame]
  · intro result hresult a ha
    rw [outcome_apply] at hresult
    exact hQ a ((Except.ok.inj hresult).trans ha)

theorem resume {result : Except Stop α} (h : ∀ a, result = .ok a → Q a) :
    (Run.resume result : Run ρ α).SameWithin root (Run.resume result) Q :=
  fun _ hs ↦ ⟨rfl, hs, h⟩

theorem andFinally {part part' : Run ρ α} {last : Run ρ Unit}
    (h : part.SameWithin root part' Q) (hlast : last.SameWithin root last fun _ ↦ True) :
    (part.andFinally last).SameWithin root (part'.andFinally last) Q :=
  h.outcome.bind fun _ hresult ↦ hlast.bind fun _ _ ↦ resume hresult

theorem onError {part part' : Run ρ α} {handle : Error → Run ρ Unit}
    (h : part.SameWithin root part' Q)
    (hhandle : ∀ error, (handle error).SameWithin root (handle error) fun _ ↦ True) :
    (part.onError handle).SameWithin root (part'.onError handle) Q := by
  refine h.outcome.bind fun result hresult ↦ ?_
  rcases result with (error | _) | a
  · exact (hhandle error).bind fun _ _ ↦ fail error
  · exact resume hresult
  · exact resume hresult

theorem raising {part part' : Run ρ α} (h : part.SameWithin root part' Q) :
    part.raising.SameWithin root part'.raising Q :=
  h.onError fun _ ↦ note _

theorem mapError {part part' : Run ρ α} {f : Error → Error} (h : part.SameWithin root part' Q) :
    (part.mapError f).SameWithin root (part'.mapError f) Q := by
  refine h.outcome.bind fun result hresult ↦ ?_
  rcases result with (error | _) | a
  · exact fail (f error)
  · exact resume hresult
  · exact resume hresult

end Run.SameWithin

namespace Engine

open Run

variable {ρ : Type} {root : RemotePath}

/-- Whether a store and a delegate behave like those of an engine on the folders within `root`. -/
structure AgreesWithin (e : Engine ρ) (root : RemotePath) (store : Store ρ)
    (delegate : Delegate ρ) : Prop where
  files (dir : RemotePath) (h : dir.IsWithin root) :
    store.listFiles dir = e.store.listFiles dir
  directories (dir : RemotePath) (h : dir.IsWithin root) :
    store.listDirectories dir = e.store.listDirectories dir
  file (dir : RemotePath) (name localDir : String) (h : dir.IsWithin root) :
    store.downloadFile dir name localDir = e.store.downloadFile dir name localDir
  directory (dir : RemotePath) (localDir : String) (h : dir.IsWithin root) :
    store.downloadDirectory dir localDir = e.store.downloadDirectory dir localDir
  delegate (work : Work) (h : work.folder.IsWithin root) : delegate work = e.delegate work

/-- An engine with another store and another delegate. -/
def replacing (e : Engine ρ) (store : Store ρ) (delegate : Delegate ρ) : Engine ρ :=
  { e with store, delegate }

variable {e : Engine ρ} {store : Store ρ} {delegate : Delegate ρ}

/-! ## Work and manifests -/

namespace AgreesWithin

variable (h : e.AgreesWithin root store delegate) {folder : RemotePath}
  (hfolder : folder.IsWithin root)

include h

theorem handOver (work : Work) (hwork : work.folder.IsWithin root) :
    (e.handOver work).SameWithin root ((e.replacing store delegate).handOver work)
      fun _ ↦ True := by
  unfold Engine.handOver
  simp only [replacing, h.delegate work hwork]
  exact (SameWithin.note _).bind fun _ _ ↦ .of_session fun _ ↦ rfl

include hfolder

theorem updateEach (files : List String) :
    (e.updateEach folder files).SameWithin root
      ((e.replacing store delegate).updateEach folder files) fun _ ↦ True := by
  induction files with
  | nil => exact .of_session fun _ ↦ rfl
  | cons file files ih => exact (h.handOver (.page folder file) hfolder).bind fun _ _ ↦ ih

theorem updatePages :
    (e.updatePages folder).SameWithin root ((e.replacing store delegate).updatePages folder)
      fun _ ↦ True := by
  have hfiles : (e.replacing store delegate).store.askFiles folder = e.store.askFiles folder :=
    congrArg (Inquiry.ask (.listFiles folder)) (h.files folder hfolder)
  unfold Engine.updatePages
  rw [hfiles]
  exact SameWithin.bind (.of_session fun _ ↦ rfl) fun files _ ↦ h.updateEach hfolder _

theorem transferSupport (target : String) :
    (e.transferSupport folder target).SameWithin root
      ((e.replacing store delegate).transferSupport folder target) fun _ ↦ True := by
  have hdirectory (localDir : String) :
      (e.replacing store delegate).store.askDirectory folder localDir =
        e.store.askDirectory folder localDir :=
    congrArg (Inquiry.ask (.downloadDirectory folder)) (h.directory folder localDir hfolder)
  have hsame : (e.replacing store delegate).transferSupport folder target =
      e.transferSupport folder target := by
    unfold Engine.transferSupport Support.transfer
    simp only [hdirectory]
    rfl
  rw [hsame]
  unfold Engine.transferSupport
  split
  · exact .of_session fun _ ↦ rfl
  · exact .of_session fun _ ↦ rfl

theorem plan (mark : String) :
    (e.plan folder mark).SameWithin root ((e.replacing store delegate).plan folder mark)
      fun _ ↦ True := by
  have hfiles : (e.replacing store delegate).store.askFiles folder = e.store.askFiles folder :=
    congrArg (Inquiry.ask (.listFiles folder)) (h.files folder hfolder)
  have hfile (name localDir : String) :
      (e.replacing store delegate).store.askFile folder name localDir =
        e.store.askFile folder name localDir :=
    congrArg (Inquiry.ask (.downloadFile folder name)) (h.file folder name localDir hfolder)
  unfold Engine.plan Manifest.load Manifest.fetchText Manifest.download
  simp only [hfiles, hfile]
  refine SameWithin.bind (SameWithin.raising (.of_session fun _ ↦ rfl)) fun manifest _ ↦ ?_
  refine (SameWithin.note _).bind fun _ _ ↦ ?_
  split
  · exact .of_session fun _ ↦ rfl
  · exact (SameWithin.fail _).raising

end AgreesWithin

/-! ## Going down -/

section

variable {inner inner' : Run ρ Unit} (hinner : inner.SameWithin root inner' fun _ ↦ True)

include hinner

theorem sameWithin_descend (child : String) :
    (descend inner child).SameWithin root (descend inner' child) fun _ ↦ True := by
  intro s hs
  rw [descend_apply, descend_apply]
  dsimp only
  split
  · rename_i hbelow
    have hentered : (s.session.entering child).IsWithin root :=
      ⟨hs.top, hs.top.of_isDescendantOf hbelow⟩
    obtain ⟨hsame, hstays, -⟩ := hinner ((s.noted (.descended
      (s.session.traversal.currentFolder.join child))).updated (·.entering child)) hentered
    rw [hsame]
    exact ⟨rfl, ⟨hstays.top, hs.current⟩, fun _ _ ↦ trivial⟩
  · exact ⟨rfl, hs, fun _ _ ↦ trivial⟩

omit hinner in
theorem sameWithin_isolate {part part' : Run ρ Unit} (parent : RemotePath) (child : String)
    (h : part.SameWithin root part' fun _ ↦ True) :
    (isolate parent child part).SameWithin root (isolate parent child part') fun _ ↦ True := by
  refine h.outcome.bind fun result hresult ↦ ?_
  rcases result with (error | _) | a
  · dsimp only
    split
    · refine SameWithin.bind (.updateSession ?_) fun _ _ ↦ .note _
      exact fun s hs ↦ ⟨hs.top, hs.current⟩
    · exact .fail error
  · exact .resume hresult
  · exact .resume hresult

theorem sameWithin_descendEach (parent : RemotePath) (names : List String) :
    (descendEach inner parent names).SameWithin root (descendEach inner' parent names)
      fun _ ↦ True := by
  induction names with
  | nil => exact .of_session fun _ ↦ rfl
  | cons name names ih =>
    unfold descendEach
    split
    · exact (sameWithin_isolate parent name (sameWithin_descend hinner name)).bind fun _ _ ↦ ih
    · exact ih

end

theorem sameWithin_changeFolder (child : String) :
    (changeFolder child : Run ρ Unit).SameWithin root (changeFolder child) fun _ ↦ True := by
  intro s hs
  refine ⟨rfl, ?_, fun _ _ ↦ trivial⟩
  rw [changeFolder_apply]
  dsimp only
  split
  · rename_i hbelow
    have htop := hs.top.of_isDescendantOf hbelow
    exact ⟨htop, htop⟩
  · exact hs

/-! ## Folders -/

namespace AgreesWithin

variable (h : e.AgreesWithin root store delegate) {inner inner' : Run ρ Unit}
  (hinner : inner.SameWithin root inner' fun _ ↦ True)

include h hinner

theorem descendAll :
    (e.descendAll inner).SameWithin root ((e.replacing store delegate).descendAll inner')
      fun _ ↦ True := by
  refine SameWithin.session.bind fun s hs ↦ ?_
  have hdirectories : (e.replacing store delegate).store.askDirectories
      s.traversal.currentFolder = e.store.askDirectories s.traversal.currentFolder :=
    congrArg (Inquiry.ask (.listDirectories s.traversal.currentFolder))
      (h.directories _ hs.current)
  dsimp only
  rw [hdirectories]
  exact SameWithin.bind (SameWithin.raising (.of_session fun _ ↦ rfl)) fun names _ ↦
    sameWithin_descendEach hinner _ names

theorem execute (command : Command) :
    (e.execute inner command).SameWithin root ((e.replacing store delegate).execute inner' command)
      fun _ ↦ True := by
  refine SameWithin.session.bind fun s hs ↦ ?_
  cases command with
  | identity person sendLog => exact .updateSession fun s hs ↦ ⟨hs.top, hs.current⟩
  | changeFolder child => exact sameWithin_changeFolder child
  | singleFolder child folderType => exact sameWithin_descend hinner child
  | all => exact h.descendAll hinner
  | processStory =>
    exact (h.handOver (.story ⟨s.traversal.currentFolder, e.options.scratchRoot,
      e.options.outputs⟩) hs.current).mapError.raising
  | moveFiles target =>
    exact (h.handOver (.moveFiles s.traversal.currentFolder target) hs.current).mapError.raising
  | moveSupportFiles target => exact (h.transferSupport hs.current target).mapError.raising
  | updatePages => exact (h.updatePages hs.current).mapError.raising

theorem executeEach (commands : List Command) :
    (e.executeEach inner commands).SameWithin root
      ((e.replacing store delegate).executeEach inner' commands) fun _ ↦ True := by
  induction commands with
  | nil => exact .of_session fun _ ↦ rfl
  | cons command commands ih =>
    refine (SameWithin.note _).bind fun _ _ ↦ ?_
    exact ((h.execute hinner command).andFinally (.note _)).bind fun _ _ ↦ ih

theorem processFolder (mark : String) :
    (e.processFolder inner mark).SameWithin root
      ((e.replacing store delegate).processFolder inner' mark) fun _ ↦ True := by
  have hmanifest : (e.executeManifest inner mark).SameWithin root
      ((e.replacing store delegate).executeManifest inner' mark) fun _ ↦ True := by
    refine SameWithin.session.bind fun s hs ↦ (h.plan hs.current mark).bind fun planned _ ↦ ?_
    refine SameWithin.bind (.updateSession ?_) fun _ _ ↦ ?_
    · exact fun s hs ↦ ⟨hs.top, hs.current⟩
    · exact (SameWithin.note _).bind fun _ _ ↦ h.executeEach hinner planned.2
  refine SameWithin.session.bind fun s hs ↦ (SameWithin.note _).bind fun _ _ ↦ ?_
  refine SameWithin.andFinally (hmanifest.onError fun _ ↦ ?_) (.note _)
  exact .updateSession fun s hs ↦ ⟨hs.top, hs.current⟩

omit hinner in
theorem process (limit : Nat) (mark : String) :
    (e.process limit mark).SameWithin root ((e.replacing store delegate).process limit mark)
      fun _ ↦ True := by
  induction limit generalizing mark with
  | zero => exact fun s hs ↦ ⟨rfl, hs, fun _ _ ↦ trivial⟩
  | succ limit ih => exact h.processFolder (ih "") mark

end AgreesWithin

/-- A run is the same with any store and any delegate that behave like those of the engine on the
folders within the first top folder. -/
theorem run_replacing (limit : Nat) (occasion : Occasion) (w : World ρ) (s : Session)
    (h : e.AgreesWithin s.traversal.topFolder store delegate) :
    (e.replacing store delegate).run limit occasion { world := w, session := s } =
      e.run limit occasion { world := w, session := s } := by
  have hprocess := (h.process limit e.options.mark
    { world := w, session := s.opened, journal := [⟨.begun, s.opened⟩] }
    s.isWithin_opened).1
  have htop : (e.replacing store delegate).processTop limit { world := w, session := s } =
      e.processTop limit { world := w, session := s } := hprocess
  simp only [run, htop]

end Engine

end FolderCommands
