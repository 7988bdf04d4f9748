import FolderCommands.Proofs.Run.DryRun
import FolderCommands.Proofs.Store.Containment

/-!
# What a run leaves in the scratch root

An engine makes one directory in the scratch root for manifests, and each transfer of support files
makes one for itself. However the run ends, once the engine is closed both are gone and all else
below the scratch root is as it was before the engine was made. This needs that no target of support
files lies in the scratch root and that no path to one leads through a directory in there: a
directory on such a way is made if it is missing, and nothing removes it.
-/

namespace FolderCommands

open CommandLine LocalPath

variable {ρ : Type}

/-- Whether copying to a path keeps out of a place: the path leads somewhere else, and not by way of
anything below the place. -/
def Support.KeepsOut (workingDirectory place : Location) (target : String) : Prop :=
  ¬ place <+: locate workingDirectory target ∧
    ∀ loc, IsOnTheWay workingDirectory target loc → loc.isBelow place = false

/-- Whether all targets of support files up to a point keep out of a place. -/
def Journal.KeepsOut (workingDirectory place : Location) (supportDirectory : String)
    (journal : Journal) : Prop :=
  ∀ target s, ⟨.ended (.moveSupportFiles target), s⟩ ∈ journal →
    Support.KeepsOut workingDirectory place (Support.destination supportDirectory target)

/-- Whether a delegate leaves a place and all below it as they are, and a scratch directory as one
that is ready. -/
structure Delegate.KeepsOff (delegate : Delegate ρ) (scratch : Scratch) (place : Location) :
    Prop where
  keeps (work : Work) (w : World ρ) : w.disk.Keeps (place <+: ·) (delegate work w).2.disk
  isReady (work : Work) {w : World ρ} (h : scratch.IsReady w.disk) :
    scratch.IsReady (delegate work w).2.disk

/-- Whether a scratch directory is ready, and what else is below a place is as on an earlier
disk. -/
structure World.IsIntact (scratch : Scratch) (place : Location) (d : Disk) (w : World ρ) :
    Prop where
  isReady : scratch.IsReady w.disk
  keeps : d.Keeps (fun loc ↦ loc.isBelow place = true ∧ ¬ scratch.location <+: loc) w.disk

/-- A target that takes back no more names than it has gone down keeps out of a place that is apart
from the support directory. -/
theorem Support.keepsOut_of_staysBelow {workingDirectory place : Location}
    {supportDirectory target : String} (htarget : staysBelow 0 (Text.split '/' target) = true)
    (hapart : ¬ place <+: locate workingDirectory supportDirectory ∧
      ¬ locate workingDirectory supportDirectory <+: place)
    (hway : ∀ loc, IsOnTheWay workingDirectory supportDirectory loc → loc.isBelow place = false) :
    KeepsOut workingDirectory place (destination supportDirectory target) := by
  have hoff {loc : Location} (hsupport : locate workingDirectory supportDirectory <+: loc) :
      ¬ place <+: loc :=
    fun hplace ↦ (List.prefix_or_prefix_of_prefix hplace hsupport).elim hapart.1 hapart.2
  refine ⟨hoff (prefix_locate_destination htarget), fun loc hloc ↦ ?_⟩
  rcases isOnTheWay_destination htarget hloc with haround | hsupport
  · exact hway loc haround
  · exact Bool.eq_false_iff.2 fun hbelow ↦ hoff hsupport (Location.isBelow_iff.1 hbelow).1

/-! ## Scratch directories -/

theorem locate_dot (workingDirectory : Location) (path : String) :
    locate workingDirectory (if path.isEmpty then "." else path) =
      locate workingDirectory path := by
  split
  · rename_i hempty
    have hpath : path = "" := by simpa using hempty
    rw [hpath, locate_eq, locate_eq]
    rfl
  · rfl

/-- Where a new scratch directory is. -/
theorem Disk.makeScratch_eq {d d' : Disk} {inside start : String} {scratch : Scratch}
    (h : d.makeScratch inside start = .ok (scratch, d')) :
    scratch = ⟨join (d.absolute inside) (d.freshName (locate d.workingDirectory inside) start),
      locate d.workingDirectory inside ++
        [d.freshName (locate d.workingDirectory inside) start]⟩ := by
  obtain ⟨⟨loc, e⟩, hentry, hmake⟩ := Yaml.exists_of_bind_ok h
  have hloc := resolve_eq (resolve_of_entry hentry).1
  rw [locate_dot] at hloc
  cases e with
  | file content => cases hmake
  | directory =>
    cases hmake
    rw [hloc]

/-- Directories for manifests and for support files have different names. -/
theorem cmd_ne_support (n m : Nat) : "support" ++ toString n ≠ "cmd" ++ toString m := by
  intro heq
  have hchars := congrArg String.toList heq
  rw [String.toList_append, String.toList_append] at hchars
  cases hchars

namespace World.IsIntact

variable {scratch : Scratch} {place : Location} {d : Disk} {w : World ρ} {root : String}

/-- The staging directory of a transfer has the name that it would have had on the earlier disk. -/
theorem staging_eq (h : w.IsIntact scratch place d)
    (hplace : place = locate d.workingDirectory root)
    (hname : ∃ n : Nat, scratch.location = place ++ ["cmd" ++ toString n])
    {staging : Scratch} {disk : Disk}
    (hmake : w.disk.makeScratch root "support" = .ok (staging, disk)) :
    staging = ⟨join (d.absolute root) (d.freshName place "support"),
      place ++ [d.freshName place "support"]⟩ := by
  have hworking := h.keeps.workingDirectory
  have hfresh : w.disk.freshName place "support" = d.freshName place "support" := by
    refine Disk.freshName_eq fun n ↦ h.keeps.get? _ ⟨Location.isBelow_append _ (by simp), ?_⟩
    obtain ⟨m, hlocation⟩ := hname
    rw [hlocation, List.prefix_append_right_inj]
    simpa using (cmd_ne_support n m).symm
  rw [Disk.makeScratch_eq hmake, hworking, ← hplace, hfresh, Disk.absolute, Disk.absolute,
    hworking]

/-- A transfer whose target keeps out of a place leaves what is below it as it is, however the
transfer ends. -/
theorem transfer {store : Store ρ} (hstore : store.IsContained scratch)
    (h : w.IsIntact scratch place d) (hplace : place = locate d.workingDirectory root)
    (hname : ∃ n : Nat, scratch.location = place ++ ["cmd" ++ toString n])
    (hfit : IsFit (join (d.absolute root) (d.freshName place "support")))
    {target : String} (htarget : Support.KeepsOut d.workingDirectory place target)
    (folder : RemotePath) :
    (Support.transfer store root folder target { world := w }).2.world.IsIntact scratch place d := by
  have hsound := h.isReady.isSound
  have hgrows : w.disk.Grows
      (Support.transfer store root folder target { world := w }).2.world.disk :=
    Support.transfer_grows hsound (hstore.fills folder) fun staging disk hmake ↦ by
      rw [h.staging_eq hplace hname hmake]
      exact hfit
  refine ⟨h.isReady.of_grows hgrows, hgrows.workingDirectory.trans h.keeps.workingDirectory,
    fun loc hloc ↦ ?_⟩
  rw [← h.keeps.get? loc hloc]
  cases hmake : w.disk.makeScratch root "support" with
  | error fault => simp only [Support.transfer, Inquiry.withScratch, hmake]
  | ok made =>
  obtain ⟨staging, disk⟩ := made
  have hready : staging.IsReady disk :=
    Scratch.isReady_of_makeScratch hsound.isClosed hsound.isProper (by decide) hmake (by
      rw [h.staging_eq hplace hname hmake]
      exact hfit)
  have hfills := (hstore.fills folder staging { w with disk } hready).1
  by_cases hstaging : staging.location <+: loc
  · -- there was nothing where the new directory is, and it has been removed
    have hne : loc ≠ [] := by
      rintro rfl
      rw [h.staging_eq hplace hname hmake] at hstaging
      simp at hstaging
    rw [Disk.get?_of_makeScratch hsound.isClosed (by decide) hmake hstaging]
    simp only [Support.transfer, Inquiry.withScratch, hmake]
    exact Tree.get?_remove_of_prefix hne hstaging
  · have hafter := @Support.transfer_changes _ store root target folder w staging disk hmake hfills
      loc hstaging
    rcases hafter with hsame | hchanges
    · exact hsame
    rw [h.keeps.workingDirectory] at hchanges
    cases hchanges with
    | made hway hbefore hafter =>
      rw [htarget.2 loc hway] at hloc
      cases hloc.1
    | copied name hname hmanifest hcopied =>
      obtain ⟨hbelow, hne⟩ := Location.isBelow_iff.1 hloc.1
      rw [hcopied] at hbelow hne
      exact absurd ((List.prefix_concat_iff.1 hbelow).resolve_left (Ne.symm hne)) htarget.1

end World.IsIntact

namespace Engine

variable {e : Engine ρ} {place : Location} {d : Disk}

/-- The same world, intact below a place. -/
def LeavesBe (scratch : Scratch) (place : Location) (d : Disk) (w w' : World ρ) : Prop :=
  w = w' ∧ w.IsIntact scratch place d

/-- Nothing but transfers of support files can change what is below a place that the delegate keeps
off, the scratch directory of the manifests apart. -/
theorem answersAlike_leavesBe (hstore : e.store.IsContained e.scratch)
    (hdelegate : e.delegate.KeepsOff e.scratch place) :
    e.AnswersAlike (LeavesBe e.scratch place d) where
  load folder mark := by
    rintro w _ ⟨rfl, hw⟩
    refine ⟨rfl, rfl, rfl, ?_, ?_, fun loc hloc ↦ ?_⟩
    · rw [Manifest.load_world]
      exact Manifest.isReady_fetchText hstore.toKeepsTo hw.isReady folder mark
    · rw [Manifest.load_world]
      rcases Manifest.disk_fetchText hstore.toKeepsTo hw.isReady folder mark with
        hdisk | ⟨-, content, hdisk⟩
      all_goals
        rw [hdisk]
        exact hw.keeps.workingDirectory
    · have hoff : loc.isBelow e.scratch.location = false :=
        Bool.eq_false_iff.2 fun hbelow ↦ hloc.2 (Location.isBelow_iff.1 hbelow).1
      rw [get?_load hstore.toKeepsTo hw.isReady folder mark hoff]
      exact hw.keeps.get? loc hloc
  files folder := by
    rintro w _ ⟨rfl, hw⟩
    have hdisk := hstore.lists folder w hw.isReady
    exact ⟨rfl, rfl, rfl, hdisk.symm ▸ hw.isReady, hdisk.symm ▸ hw.keeps⟩
  directories folder := by
    rintro w _ ⟨rfl, hw⟩
    have hdisk := hstore.stays folder w hw.isReady
    exact ⟨rfl, rfl, rfl, hdisk.symm ▸ hw.isReady, hdisk.symm ▸ hw.keeps⟩
  delegate work := by
    rintro w _ ⟨rfl, hw⟩
    refine ⟨rfl, rfl, rfl, hdelegate.isReady work hw.isReady, hw.keeps.trans ?_⟩
    exact (hdelegate.keeps work w).mono fun loc hloc ↦ (Location.isBelow_iff.1 hloc.1).1

/-- Transfers whose targets keep out of a place leave what is below it as it is. -/
theorem sparesTransfers_leavesBe (hstore : e.store.IsContained e.scratch)
    (hplace : place = locate d.workingDirectory e.options.scratchRoot)
    (hname : ∃ n : Nat, e.scratch.location = place ++ ["cmd" ++ toString n])
    (hfit : IsFit (join (d.absolute e.options.scratchRoot) (d.freshName place "support"))) :
    e.SparesTransfers (LeavesBe e.scratch place d)
      (Journal.KeepsOut d.workingDirectory place e.options.supportDirectory)
      e.options.dryRun e.options.dryRun := by
  rintro folder target s s' ⟨⟨hworlds, hintact⟩, hsession, hjournal⟩ hkeepsOut
  have hpart : Run.Agrees (LeavesBe e.scratch place d)
      ((e.withDryRun e.options.dryRun).transferSupport folder target)
      ((e.withDryRun e.options.dryRun).transferSupport folder target) := by
    unfold transferSupport
    split
    · exact fun _ _ hs ↦ ⟨rfl, hs⟩
    refine .inquire ?_
    rintro w _ ⟨rfl, hw⟩
    have htarget := hkeepsOut target _ (List.mem_append_right _ (List.mem_singleton_self _))
    exact ⟨rfl, rfl, rfl, hw.transfer hstore hplace hname hfit htarget folder⟩
  exact hpart.inContent folder s s' ⟨⟨hworlds, hintact⟩, hsession, hjournal⟩

/-- What making an engine does: it makes directories up to the scratch root, and one in there. -/
theorem exists_of_create {store : Store ρ} {users : Registry} {delegate : Delegate ρ}
    {options : EngineOptions} {w w' : World ρ}
    (h : create store users delegate options w = (.ok e, w')) :
    e.options = options ∧ ∃ disk disk', w.disk.makeDirectories options.scratchRoot = .ok disk ∧
      disk.makeScratch options.scratchRoot "cmd" = .ok (e.scratch, disk') ∧
      w' = { w with disk := disk' } := by
  obtain ⟨scratch, made, hopen, hmade⟩ := exists_of_bind_eq_ok h
  cases hmade
  exact ⟨rfl, Manifest.exists_of_openScratch hopen⟩

/-- However a run ends, once the engine is closed all that is below the scratch root is as it was
before the engine was made, if the targets of support files, the way to the scratch root and the
delegate keep out of it. -/
theorem get?_close_run {store : Store ρ} {users : Registry} {delegate : Delegate ρ}
    {options : EngineOptions} {w₀ w : World ρ} (hsound : w₀.disk.IsSound)
    (hcreate : create store users delegate options w₀ = (.ok e, w))
    (hplace : place = locate w₀.disk.workingDirectory options.scratchRoot)
    (hroot : ∀ loc, IsOnTheWay w₀.disk.workingDirectory options.scratchRoot loc →
      loc.isBelow place = false)
    (hfit : IsFit e.scratch.path ∧
      IsFit (join (w.disk.absolute options.scratchRoot) (w.disk.freshName place "support")))
    (hstore : e.store.IsContained e.scratch) (hdelegate : e.delegate.KeepsOff e.scratch place)
    (limit : Nat) (occasion : Occasion) (session : Session)
    (htargets : (e.run limit occasion { world := w, session }).2.journal.KeepsOut
      w₀.disk.workingDirectory place options.supportDirectory)
    {loc : Location} (hloc : loc.isBelow place = true) :
    (e.close (e.run limit occasion { world := w, session }).2.world).2.disk.tree.get? loc =
      w₀.disk.tree.get? loc := by
  obtain ⟨rfl, rooted, made, hdirectories, hmake, hw⟩ := exists_of_create hcreate
  have hadds := Disk.makeDirectories_adds hdirectories
  have hrooted := (Disk.makeDirectories_grows hsound hdirectories).isSound hsound
  have hkept := Disk.makeScratch_keeps hmake
  have hworking : w.disk.workingDirectory = w₀.disk.workingDirectory := by
    rw [hw]
    exact hkept.workingDirectory.trans hadds.workingDirectory
  -- the way to the scratch root has made nothing below it
  have hbefore : rooted.tree.get? loc = w₀.disk.tree.get? loc := by
    rcases hadds.get? loc with hsame | ⟨hway, -⟩
    · exact hsame
    · rw [hroot loc hway] at hloc
      cases hloc
  have hscratch := Disk.makeScratch_eq hmake
  rw [hadds.workingDirectory, ← hplace] at hscratch
  obtain ⟨n, hname, -⟩ := rooted.exists_freshName place "cmd"
  have hlocation : ∃ n : Nat, e.scratch.location = place ++ ["cmd" ++ toString n] :=
    ⟨n, by rw [hscratch, hname]⟩
  have hready : e.scratch.IsReady w.disk := by
    rw [hw]
    exact Scratch.isReady_of_makeScratch hrooted.isClosed hrooted.isProper (by decide) hmake hfit.1
  rw [← hworking] at hplace htargets
  have hbetween : LeavesBe e.scratch place w.disk w w := ⟨rfl, hready, .refl _⟩
  obtain ⟨-, habreast⟩ := run_abreast (answersAlike_leavesBe hstore hdelegate)
    (fun notes notes' hfront h target s hmem ↦ h target s (hfront.subset hmem))
    (sparesTransfers_leavesBe hstore hplace hlocation hfit.2) limit occasion session hbetween
    htargets
  have hintact := habreast.worlds.2
  by_cases hscratched : e.scratch.location <+: loc
  · have hne : loc ≠ [] := by
      rintro rfl
      obtain ⟨n, hplaced⟩ := hlocation
      rw [hplaced] at hscratched
      simp at hscratched
    rw [← hbefore, Disk.get?_of_makeScratch hrooted.isClosed (by decide) hmake hscratched]
    exact Tree.get?_remove_of_prefix hne hscratched
  · have hend : (e.run limit occasion { world := w, session }).2.world.disk.tree.get? loc =
        w.disk.tree.get? loc := hintact.keeps.get? loc ⟨hloc, hscratched⟩
    rw [← hbefore, ← hkept.get? loc hscratched]
    exact (Tree.get?_remove hscratched).trans (hend.trans (by rw [hw]))

/-- A world with a scratch root that has a file of its own, and a support directory in which a
directory stands in the way of a style sheet. -/
def withScratchRoot : World Unit where
  disk.tree := (({} : Tree).putDeep ["scratch", "notes.txt"] (.file [])).putDeep
    ["local", "support", "css", "style.css"] .directory
  outside := ()

/-- A folder with a style sheet whose manifest names some targets for it. -/
def styleFolder (targets : List String) : Tree :=
  (Tree.ofManifests [(["t"], "command_set: transfer_to_support\n" ++
    Text.joinWith "" (targets.map fun target ↦
      "---\ncommand: move_files\ntarget_directory: " ++ target ++ "\n"))]).putDeep
    ["t", "style.css"] (.file [])

def scratchOptions : EngineOptions where
  scratchRoot := "/scratch"
  supportDirectory := "/local/support"

/-- The engine over that folder once it has been made, and the world then. -/
def transferring (targets : List String) : Engine Unit where
  scratch := ⟨"/scratch/cmd0", ["scratch", "cmd0"]⟩
  store := memoryStore (styleFolder targets) []
  users := {}
  delegate := .idle
  options := scratchOptions

def withManifestScratch : World Unit where
  disk.tree := withScratchRoot.disk.tree.put ["scratch", "cmd0"] .directory
  outside := ()

/-- A run of that engine. -/
def transferringRun (targets : List String) : Option Report × RunState Unit :=
  (transferring targets).run 10 ⟨.ofNat 0, ⟨0, 0, 0⟩, ⟨0, 0, 1⟩⟩
    { world := withManifestScratch, session := .start (.ofText "t") }

/-- What is at a place once that engine is closed after its run. -/
def afterTransferring (targets : List String) (loc : Location) : Option Entry :=
  ((transferring targets).close (transferringRun targets).2.world).2.disk.tree.get? loc

theorem create_transferring (targets : List String) :
    create (memoryStore (styleFolder targets) []) {} .idle scratchOptions withScratchRoot =
      (.ok (transferring targets), withManifestScratch) := by
  rfl

theorem isSound_withScratchRoot : withScratchRoot.disk.IsSound :=
  ⟨Tree.isClosed_of_all (by decide +kernel),
    Disk.isProper_of_all (by decide +kernel) (by decide +kernel)⟩

/-- The way along a path from the root keeps out of the scratch root. -/
theorem isBelow_scratch_of_isOnTheWay {path : String} (hrooted : start [] path = [])
    (h : (Text.split '/' path).inits.all (fun front ↦ !(lead [] front).isBelow ["scratch"]) = true)
    {loc : Location} (hloc : IsOnTheWay [] path loc) : loc.isBelow ["scratch"] = false := by
  obtain ⟨front, hfront, rfl⟩ := hloc
  rw [hrooted]
  simpa using List.all_eq_true.1 h front ((List.mem_inits _ _).2 hfront)

/-- The first transfer succeeds and the second one fails while it copies. -/
theorem get?_close_run_transferring :
    (withScratchRoot.disk.IsSound ∧
      (transferringRun ["fonts", "css"]).1.any (·.status = .aborted) = true ∧
      afterTransferring ["fonts", "css"] ["local", "support", "fonts", "style.css"] =
        some (.file [])) ∧
    ∀ loc : Location, loc.isBelow ["scratch"] = true →
      afterTransferring ["fonts", "css"] loc = withScratchRoot.disk.tree.get? loc := by
  have hrun : ((transferringRun ["fonts", "css"]).1.any (·.status = .aborted) = true ∧
      afterTransferring ["fonts", "css"] ["local", "support", "fonts", "style.css"] =
        some (.file [])) ∧
      (transferringRun ["fonts", "css"]).2.journal.all (fun note ↦
        match note.event with
        | .ended (.moveSupportFiles target) => staysBelow 0 (Text.split '/' target)
        | _ => true) = true := by
    decide +kernel
  obtain ⟨hended, hstays⟩ := hrun
  refine ⟨⟨isSound_withScratchRoot, hended⟩, fun loc hloc ↦ ?_⟩
  have hfit : IsFit "/scratch/cmd0" ∧ IsFit (join (withManifestScratch.disk.absolute "/scratch")
      (withManifestScratch.disk.freshName ["scratch"] "support")) :=
    ⟨⟨by decide +kernel, by decide +kernel⟩, ⟨by decide +kernel, by decide +kernel⟩⟩
  have hstore : (transferring ["fonts", "css"]).store.IsContained
      (transferring ["fonts", "css"]).scratch :=
    (isAloof_memoryStore [] (by decide +kernel) _ fun _ _ ↦ True).isContained
  have hrestored := @get?_close_run Unit (transferring ["fonts", "css"]) ["scratch"] _ _ _ _ _ _
    isSound_withScratchRoot (create_transferring ["fonts", "css"]) (by decide +kernel)
    (fun _ ↦ isBelow_scratch_of_isOnTheWay (by decide +kernel) (by decide +kernel)) hfit hstore
    ⟨fun _ w ↦ .refl w.disk, fun _ _ ↦ id⟩ 10 ⟨.ofNat 0, ⟨0, 0, 0⟩, ⟨0, 0, 1⟩⟩
    (.start (.ofText "t"))
  have hsame : (transferring ["fonts", "css"]).run 10 ⟨.ofNat 0, ⟨0, 0, 0⟩, ⟨0, 0, 1⟩⟩
      { world := withManifestScratch, session := .start (.ofText "t") } =
        transferringRun ["fonts", "css"] := rfl
  rw [hsame] at hrestored
  rw [afterTransferring]
  generalize (transferringRun ["fonts", "css"]).2 = final at hstays hrestored ⊢
  refine hrestored (fun target s hmem ↦ ?_) hloc
  exact Support.keepsOut_of_staysBelow (List.all_eq_true.1 hstays _ hmem)
    ⟨by decide +kernel, by decide +kernel⟩
    fun _ ↦ isBelow_scratch_of_isOnTheWay (by decide +kernel) (by decide +kernel)

/-- A target that lies in the support directory but is reached by way of the scratch root leaves a
directory there. -/
theorem exists_scratch_left_behind :
    ∃ (target : String) (loc : Location),
      create (memoryStore (styleFolder [target]) []) {} .idle scratchOptions withScratchRoot =
        (.ok (transferring [target]), withManifestScratch) ∧
      locate [] (Support.destination "/local/support" target) = ["local", "support", "fonts"] ∧
      loc.isBelow ["scratch"] = true ∧ withScratchRoot.disk.tree.get? loc = none ∧
      afterTransferring [target] loc = some .directory := by
  refine ⟨"../../scratch/x/../../local/support/fonts", ["scratch", "x"], rfl, ?_⟩
  decide +kernel

end Engine

end FolderCommands
