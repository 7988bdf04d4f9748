import FolderCommands.Proofs.Run.Tandem
import FolderCommands.Proofs.Store.Aloof

/-!
# Dry runs are faithful

With a store on which the local disk has no bearing, and a delegate whose answers depend on its
work only, a dry run leaves the local disk as it is but for the scratch directory of the manifests
and what the delegate does. If every transfer of support files succeeds, it comes to the same as the
run that is not dry.
-/

namespace FolderCommands

/-- Whether no transfer of support files has failed: where one ends, no error has just arisen. -/
def Journal.TransfersSucceed (journal : Journal) : Prop :=
  ∀ error target s s',
    ¬ [⟨.raised error, s⟩, ⟨.ended (.moveSupportFiles target), s'⟩] <:+: journal

namespace Journal

theorem TransfersSucceed.mono {journal more : Journal} (h : more.TransfersSucceed)
    (hfront : journal <+: more) : journal.TransfersSucceed :=
  fun error target s s' hinside ↦ h error target s s' (hinside.trans hfront.isInfix)

/-- Where no error arises at all, no transfer has failed. -/
theorem transfersSucceed_of_raised_eq_nil {journal : Journal} (h : journal.raised = []) :
    journal.TransfersSucceed := by
  intro error target s s' hinside
  have hraised : error ∈ journal.raised :=
    List.mem_filterMap.2 ⟨_, hinside.subset List.mem_cons_self, rfl⟩
  rw [h] at hraised
  cases hraised

end Journal

variable {ρ : Type}

/-- A transfer that fails has its error noted just before it ends. -/
theorem not_transfersSucceed (s : RunState ρ) (error : Error) (target : String) :
    ¬ ((s.noted (.raised error)).noted
      (.ended (.moveSupportFiles target))).journal.TransfersSucceed := by
  intro hsucceed
  refine hsucceed error target s.session s.session ⟨s.journal, [], ?_⟩
  simp only [RunState.noted, List.append_nil, List.append_assoc, List.cons_append, List.nil_append]

/-- Whether the answers of a delegate depend on its work only, it does not tell states outside of
the local disk apart that `Q` relates, and it leaves a scratch directory as one that is ready. -/
structure Delegate.IsAloof (delegate : Delegate ρ) (scratch : Scratch) (Q : ρ → ρ → Prop) :
    Prop where
  answers (work : Work) (w w' : World ρ) : (delegate work w').1 = (delegate work w).1
  outside (work : Work) {w w' : World ρ} (hQ : Q w.outside w'.outside) :
    Q (delegate work w).2.outside (delegate work w').2.outside
  isReady (work : Work) {w : World ρ} (h : scratch.IsReady w.disk) :
    scratch.IsReady (delegate work w).2.disk

namespace Engine

variable {e : Engine ρ} {Q : ρ → ρ → Prop}

/-! ## What a dry run does to the local disk -/

/-- Loading a manifest changes nothing on the disk but what is in the scratch directory. -/
theorem get?_load {store : Store ρ} {scratch : Scratch} (hstore : store.KeepsTo scratch)
    {w : World ρ} (h : scratch.IsReady w.disk) (folder : RemotePath) (mark : String)
    {loc : Location} (hloc : loc.isBelow scratch.location = false) :
    (Manifest.load store scratch.path folder mark { world := w }).2.world.disk.tree.get? loc =
      w.disk.tree.get? loc := by
  have haround : (w.disk.emptied scratch.location).tree.get? loc = w.disk.tree.get? loc := by
    rw [Disk.emptied, Tree.get?_emptied, hloc]
    rfl
  rw [Manifest.load_world]
  rcases Manifest.disk_fetchText hstore h folder mark with hdisk | ⟨-, content, hdisk⟩
  · rw [hdisk, haround]
  · rw [hdisk, Disk.withFile, Tree.get?_put_of_ne, haround]
    rintro rfl
    rw [Location.isBelow_append _ (by simp)] at hloc
    cases hloc

/-- The same world with a scratch directory that is ready and an entry at a place. -/
structure Stays (scratch : Scratch) (loc : Location) (entry : Option Entry) (w w' : World ρ) :
    Prop where
  eq : w = w'
  isReady : scratch.IsReady w.disk
  get? : w.disk.tree.get? loc = entry

/-- No more than transfers of support files can change a place outside of the scratch directory
that the delegate leaves alone. -/
theorem answersAlike_stays (hstore : e.store.IsAloof e.scratch Q)
    (hready : ∀ work w, e.scratch.IsReady w.disk → e.scratch.IsReady (e.delegate work w).2.disk)
    {loc : Location} (hloc : loc.isBelow e.scratch.location = false)
    (hkeeps : ∀ work w, (e.delegate work w).2.disk.tree.get? loc = w.disk.tree.get? loc)
    (entry : Option Entry) : e.AnswersAlike (Stays e.scratch loc entry) where
  load folder mark := by
    rintro w _ ⟨rfl, hw, hentry⟩
    refine ⟨rfl, rfl, rfl, ?_, (get?_load hstore.toKeepsTo hw folder mark hloc).trans hentry⟩
    rw [Manifest.load_world]
    exact Manifest.isReady_fetchText hstore.toKeepsTo hw folder mark
  files folder := by
    rintro w _ ⟨rfl, hw, hentry⟩
    have hdisk := hstore.lists folder w hw
    refine ⟨rfl, rfl, rfl, hdisk.symm ▸ hw, ?_⟩
    exact (congrArg (·.tree.get? loc) hdisk).trans hentry
  directories folder := by
    rintro w _ ⟨rfl, hw, hentry⟩
    have hdisk := hstore.stays folder w hw
    refine ⟨rfl, rfl, rfl, hdisk.symm ▸ hw, ?_⟩
    exact (congrArg (·.tree.get? loc) hdisk).trans hentry
  delegate work := by
    rintro w _ ⟨rfl, hw, hentry⟩
    exact ⟨rfl, rfl, rfl, hready work w hw, (hkeeps work w).trans hentry⟩

/-- In a dry run there are no transfers. -/
theorem sparesTransfers_dry (e : Engine ρ) (V : World ρ → World ρ → Prop) :
    e.SparesTransfers V (fun _ ↦ True) true true :=
  fun _ _ _ _ hs _ ↦ ⟨rfl, hs⟩

/-! ## What a dry run comes to -/

theorem answersAlike_pairs (hstore : e.store.IsAloof e.scratch Q)
    (hdelegate : Delegate.IsAloof e.delegate e.scratch Q) :
    e.AnswersAlike (World.Pairs e.scratch Q) where
  load folder mark w w' h := Manifest.load_pairs hstore h folder mark
  files folder w w' h := by
    obtain ⟨hnames, hQ⟩ := hstore.files folder h.left h.right h.outside
    refine ⟨hnames, rfl, ?_, ?_, hQ⟩
    · exact (hstore.lists folder w h.left).symm ▸ h.left
    · exact (hstore.lists folder w' h.right).symm ▸ h.right
  directories folder w w' h := by
    obtain ⟨hnames, hQ⟩ := hstore.directories folder h.left h.right h.outside
    refine ⟨hnames, rfl, ?_, ?_, hQ⟩
    · exact (hstore.stays folder w h.left).symm ▸ h.left
    · exact (hstore.stays folder w' h.right).symm ▸ h.right
  delegate work w w' h :=
    ⟨hdelegate.answers work w w', rfl, hdelegate.isReady work h.left,
      hdelegate.isReady work h.right, hdelegate.outside work h.outside⟩

/-- A transfer that succeeds does no harm to a run that passes it over. -/
theorem sparesTransfers_pairs (hstore : e.store.IsAloof e.scratch Q) :
    e.SparesTransfers (World.Pairs e.scratch Q) Journal.TransfersSucceed false true := by
  intro folder target s s' hs hjournal
  have hdry : inContent folder ((e.withDryRun true).transferSupport folder target) s' =
      (.ok (), s') := rfl
  have hreal : (e.withDryRun false).transferSupport folder target s =
      Run.inquire (Support.transfer e.store e.options.scratchRoot folder
        (Support.destination e.options.supportDirectory target)) s := rfl
  rw [inContent_apply, hreal, Run.inquire_apply] at hjournal
  rw [hdry, inContent_apply, hreal, Run.inquire_apply]
  cases hresult : (Support.transfer e.store e.options.scratchRoot folder
      (Support.destination e.options.supportDirectory target) { world := s.world }).1 with
  | error error =>
    rw [hresult] at hjournal
    exact absurd hjournal (not_transfersSucceed _ _ _)
  | ok _ =>
    refine ⟨rfl, Support.transfer_pairs hstore hs.worlds hresult, hs.session, ?_⟩
    have hnone : Journal.withoutCopies (Journal.during s.session
        ((Support.transfer e.store e.options.scratchRoot folder
          (Support.destination e.options.supportDirectory target)
          { world := s.world }).2.requests.map .asked)) = [] := by
      rcases transfer_requests e.store e.options.scratchRoot folder
        (Support.destination e.options.supportDirectory target) s.world with hrequests | hrequests
      · rw [hrequests]
        rfl
      · rw [hrequests]
        rfl
    simp only [Except.mapError, RunState.inquired]
    rw [Journal.withoutCopies_append, hnone, List.append_nil]
    exact hs.journal

/-- A dry run changes nothing on the local disk that the delegate leaves alone, but for what is in
the scratch directory of the manifests. If all transfers of support files succeed in the run that is
not dry, the dry one hands over the same work, leaves the same session and comes to the same
report. -/
theorem run_withDryRun (hstore : e.store.IsAloof e.scratch Q)
    (hdelegate : Delegate.IsAloof e.delegate e.scratch Q) (limit : Nat) (occasion : Occasion)
    (session : Session) {w w' : World ρ} (hw : e.scratch.IsReady w.disk)
    (hw' : e.scratch.IsReady w'.disk) (houtside : Q w.outside w'.outside) :
    let real := (e.withDryRun false).run limit occasion { world := w, session }
    let dry := (e.withDryRun true).run limit occasion { world := w', session }
    (∀ loc : Location, loc.isBelow e.scratch.location = false →
      (∀ work v, (e.delegate work v).2.disk.tree.get? loc = v.disk.tree.get? loc) →
        dry.2.world.disk.tree.get? loc = w'.disk.tree.get? loc) ∧
    (real.2.journal.TransfersSucceed →
      dry.1 = real.1 ∧ dry.2.session = real.2.session ∧
        dry.2.journal.work = real.2.journal.work) := by
  refine ⟨fun loc hloc hkeeps ↦ ?_, fun hsucceed ↦ ?_⟩
  · obtain ⟨-, habreast⟩ := run_abreast
      (answersAlike_stays hstore (fun work _ ↦ hdelegate.isReady work) hloc hkeeps
        (w'.disk.tree.get? loc))
      (fun _ _ _ _ ↦ trivial) (e.sparesTransfers_dry _) limit occasion session
      ⟨rfl, hw', rfl⟩ trivial
    exact habreast.worlds.get?
  · obtain ⟨hreport, habreast⟩ := run_abreast (answersAlike_pairs hstore hdelegate)
      (fun _ _ hfront h ↦ h.mono hfront) (sparesTransfers_pairs hstore) limit occasion session
      ⟨hw, hw', houtside⟩ hsucceed
    refine ⟨hreport, habreast.session, ?_⟩
    rw [← Journal.work_withoutCopies, habreast.journal, Journal.work_withoutCopies]

/-- The store has a folder with a style sheet for `/site/css` and a folder with a story. -/
def withStyleAndStory : Engine Unit where
  scratch := ⟨"/tmp", ["tmp"]⟩
  store := memoryStore ((Tree.ofManifests
    [(["t"], "command_set: content\n---\ncommand: all\n"),
      (["t", "a"], "command_set: transfer_to_support\n---\n" ++
        "command: move_files\ntarget_directory: css\n"),
      (["t", "b"], "command_set: story\n---\ncommand: story\n")]).putDeep
    ["t", "a", "style.css"] (.file [])) []
  users := {}
  delegate := .idle
  options := { scratchRoot := "/tmp", supportDirectory := "/site" }

/-- A run of that engine from the folder `t`. -/
def styleAndStoryRun (dry : Bool) : Option Report × RunState Unit :=
  (withStyleAndStory.withDryRun dry).run 3 ⟨.ofNat 1, ⟨0, 0, 0⟩, ⟨0, 0, 0⟩⟩
    { world := .withScratch, session := .start (.ofText "t") }

/-- The style sheet is copied by the run that is not dry only, and both hand over the story. -/
theorem run_withDryRun_withStyleAndStory :
    ((styleAndStoryRun false).2.world.disk.tree.get? ["site", "css", "style.css"] =
        some (.file []) ∧
      (styleAndStoryRun true).2.world.disk.tree.get? ["site", "css", "style.css"] = none) ∧
    (styleAndStoryRun true).1 = (styleAndStoryRun false).1 ∧
    (styleAndStoryRun true).2.session = (styleAndStoryRun false).2.session ∧
    (styleAndStoryRun true).2.journal.work = (styleAndStoryRun false).2.journal.work ∧
    (styleAndStoryRun false).2.journal.work =
      [.story ⟨.ofText "t/b", "/tmp", ⟨"", "", "", ""⟩⟩] := by
  have hstore : withStyleAndStory.store.IsAloof withStyleAndStory.scratch fun _ _ ↦ True :=
    isAloof_memoryStore [] (by decide +kernel) _ _
  have hdelegate : Delegate.IsAloof withStyleAndStory.delegate withStyleAndStory.scratch
      fun _ _ ↦ True :=
    ⟨fun _ _ _ ↦ rfl, fun _ _ _ _ ↦ trivial, fun _ _ ↦ id⟩
  have hready : withStyleAndStory.scratch.IsReady World.withScratch.disk :=
    ⟨by decide +kernel, rfl, Tree.isClosed_of_all (by decide +kernel),
      Disk.isProper_of_all (by decide +kernel) (by decide +kernel), by decide +kernel⟩
  have hfaithful := run_withDryRun hstore hdelegate 3
    ⟨.ofNat 1, ⟨0, 0, 0⟩, ⟨0, 0, 0⟩⟩ (.start (.ofText "t")) hready hready trivial
  have hrun (dry : Bool) : (withStyleAndStory.withDryRun dry).run 3
      ⟨.ofNat 1, ⟨0, 0, 0⟩, ⟨0, 0, 0⟩⟩
      { world := .withScratch, session := .start (.ofText "t") } = styleAndStoryRun dry := rfl
  rw [hrun, hrun] at hfaithful
  obtain ⟨hdisk, hsame⟩ := hfaithful
  have hreal : (styleAndStoryRun false).2.journal.raised.isEmpty = true ∧
      (styleAndStoryRun false).2.world.disk.tree.get? ["site", "css", "style.css"] =
        some (.file []) ∧
      (styleAndStoryRun false).2.journal.work =
        [.story ⟨.ofText "t/b", "/tmp", ⟨"", "", "", ""⟩⟩] := by
    decide +kernel
  obtain ⟨hraised, hstyle, hstory⟩ := hreal
  clear hrun
  generalize styleAndStoryRun false = real, styleAndStoryRun true = dry at *
  obtain ⟨hreport, hsession, hwork⟩ :=
    hsame (Journal.transfersSucceed_of_raised_eq_nil (List.isEmpty_iff.1 hraised))
  refine ⟨⟨hstyle, ?_⟩, hreport, hsession, hwork, hstory⟩
  exact hdisk ["site", "css", "style.css"] (by decide) fun _ _ ↦ rfl

end Engine

end FolderCommands
