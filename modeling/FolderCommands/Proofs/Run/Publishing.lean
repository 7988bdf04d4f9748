import FolderCommands.Proofs.Files.Changes
import FolderCommands.Proofs.Run.Equations
import FolderCommands.Proofs.Run.Memory
import FolderCommands.Proofs.Run.Worlds

/-!
# Where support files go

A transfer of support files changes the local disk in its staging directory, which is gone at the
end, in the directory that it copies into, and on the way there, where it makes the directories
that are missing.

The target is a text from a manifest. While it takes back no more names than it has gone down, all
of this is in the support directory, the directories around that one apart; with more, files may
come to lie outside it.
-/

namespace FolderCommands

open CommandLine LocalPath

/-- What a download into a directory at `place` does to a disk: it puts files there, under names
of files, and changes nothing else. -/
structure Disk.Fills (place : Location) (d d' : Disk) : Prop where
  isProper : d'.IsProper
  keeps : d.Keeps (¬ place <+: ·) d'

namespace Support

variable {ρ : Type}

/-- What copying support files to `target` may do at a place. -/
inductive Changes (workingDirectory : Location) (target : String) (loc : Location)
    (before after : Option Entry) : Prop
  /-- A directory that was missing is made on the way. -/
  | made (hway : IsOnTheWay workingDirectory target loc) (hbefore : before = none)
      (hafter : after = some .directory)
  /-- A file that has not the name of a manifest is put into the target. -/
  | copied (name : String) (hname : isFileName name = true) (hmanifest : name ≠ Manifest.baseName)
      (hloc : loc = locate workingDirectory target ++ [name])

/-- Whether no more has changed on a disk than copying support files to `target` may change. -/
structure Publishes (target : String) (d d' : Disk) : Prop where
  workingDirectory : d'.workingDirectory = d.workingDirectory
  get? (loc : Location) : d'.tree.get? loc = d.tree.get? loc ∨
    Changes d.workingDirectory target loc (d.tree.get? loc) (d'.tree.get? loc)

theorem publishes_of_adds {target : String} {d d' : Disk}
    (h : d.Adds (IsOnTheWay d.workingDirectory target) d') : Publishes target d d' where
  workingDirectory := h.workingDirectory
  get? loc := (h.get? loc).imp_right fun ⟨hway, hbefore, hafter⟩ ↦ .made hway hbefore hafter

theorem copyAll_keeps (source target : String) {names : List String}
    (h : ∀ name ∈ names, isFileName name = true) (w : World ρ) :
    w.disk.Keeps
      (fun loc ↦ ∀ name ∈ names, loc ≠ locate w.disk.workingDirectory target ++ [name])
      (copyAll source target names w).2.disk := by
  induction names generalizing w with
  | nil => exact .refl w.disk
  | cons name names ih =>
    obtain ⟨hname, hrest⟩ := List.forall_mem_cons.1 h
    simp only [copyAll, bind_apply, Action.change_apply]
    cases hcopy : w.disk.copyFile (join source name) (join target name) with
    | error fault => exact .refl w.disk
    | ok disk =>
      have hfirst := Disk.copyFile_keeps hcopy
      have hothers := ih hrest { w with disk }
      rw [locate_join_name _ _ hname] at hfirst
      rw [hfirst.workingDirectory] at hothers
      apply Disk.Keeps.trans
      · exact hfirst.mono fun loc hloc ↦ hloc name List.mem_cons_self
      · exact hothers.mono fun loc hloc other hother ↦ hloc other (List.mem_cons_of_mem _ hother)

theorem mem_published {entries : List (String × Entry)} {name : String}
    (h : name ∈ published entries) :
    name ≠ Manifest.baseName ∧ ∃ e, (name, e) ∈ entries := by
  obtain ⟨⟨_, e⟩, hmem, rfl⟩ := List.mem_map.1 h
  obtain ⟨hmem, hpublished⟩ := List.mem_filter.1 hmem
  rw [Bool.and_eq_true, decide_eq_true_eq] at hpublished
  exact ⟨hpublished.1, e, hmem⟩

/-- Files that are copied into the target once it is there. -/
theorem Publishes.copied {target : String} {d d' d'' : Disk} {entries : List (String × Entry)}
    (h : Publishes target d d') (hnames : ∀ name ∈ published entries, isFileName name = true)
    (hcopies : d'.Keeps (fun loc ↦ ∀ name ∈ published entries,
      loc ≠ locate d.workingDirectory target ++ [name]) d'') : Publishes target d d'' := by
  refine ⟨hcopies.workingDirectory.trans h.workingDirectory, fun loc ↦ ?_⟩
  by_cases hcopied : ∃ name ∈ published entries, loc = locate d.workingDirectory target ++ [name]
  · obtain ⟨name, hname, hloc⟩ := hcopied
    exact .inr (.copied name (hnames name hname) (mem_published hname).1 hloc)
  · have hkept := hcopies.get? loc fun name hname hloc ↦ hcopied ⟨name, hname, hloc⟩
    rw [hkept]
    exact h.get? loc

/-- What publishing does where it succeeds. -/
theorem exists_of_publish {source target : String} {w w' : World ρ}
    (h : publish source target w = (.ok (), w')) :
    ∃ made entries, w.disk.makeDirectories target = .ok made ∧
      made.readDirectory source = .ok entries ∧
      copyAll source target (published entries) { w with disk := made } = (.ok (), w') := by
  obtain ⟨_, _, hchange, hrest⟩ := exists_of_bind_eq_ok h
  obtain ⟨made, hmake, rfl⟩ := Action.exists_of_change hchange
  obtain ⟨entries, _, hlook, hcopy⟩ := exists_of_bind_eq_ok hrest
  obtain ⟨hread, rfl⟩ := Action.of_look hlook
  exact ⟨made, entries, hmake, hread, hcopy⟩

theorem publish_publishes (source target : String) {w : World ρ} (h : w.disk.IsProper) :
    Publishes target w.disk (publish source target w).2.disk := by
  simp only [publish, bind_apply, Action.change_apply]
  cases hmake : w.disk.makeDirectories target with
  | error fault => exact ⟨rfl, fun _ ↦ .inl rfl⟩
  | ok disk =>
    have hadds := Disk.makeDirectories_adds hmake
    have hproper := hadds.isProper h fun loc hway ↦ hway.isFileName _ h.workingDirectory
    simp only [Action.look]
    cases hread : disk.readDirectory source with
    | error fault => exact publishes_of_adds hadds
    | ok entries =>
      have hnames : ∀ name ∈ published entries, isFileName name = true := by
        intro name hname
        obtain ⟨-, e, hmem⟩ := mem_published hname
        exact hproper.isFileName_of_readDirectory hread _ hmem
      have hcopies := copyAll_keeps source target hnames { w with disk }
      rw [hadds.workingDirectory] at hcopies
      exact (publishes_of_adds hadds).copied hnames hcopies

/-- A transfer changes its staging directory apart no more than copying to the target does. -/
theorem transfer_changes {store : Store ρ} {root target : String} {folder : RemotePath}
    {w : World ρ} {scratch : Scratch} {disk : Disk}
    (hmake : w.disk.makeScratch root "support" = .ok (scratch, disk))
    (hfills : disk.Fills scratch.location
      (store.downloadDirectory folder scratch.path { w with disk }).2.disk)
    {loc : Location} (hloc : ¬ scratch.location <+: loc) :
    let after := (transfer store root folder target { world := w }).2.world.disk.tree.get? loc
    after = w.disk.tree.get? loc ∨
      Changes w.disk.workingDirectory target loc (w.disk.tree.get? loc) after := by
  have hstaged := (Disk.makeScratch_keeps hmake).trans hfills.keeps
  have hremoved (d : Disk) := (Disk.removeAt_keeps d scratch.location).get? loc hloc
  simp only [transfer, Inquiry.withScratch, hmake, bind_apply, Store.askDirectory, Inquiry.ask]
  rcases hdownload : store.downloadDirectory folder scratch.path { w with disk } with
    ⟨error | _, staged⟩
  · rw [hdownload] at hstaged
    exact .inl ((hremoved staged.disk).trans (hstaged.get? loc hloc))
  · rw [hdownload] at hfills hstaged
    have hpublishes := (publish_publishes scratch.path target hfills.isProper).get? loc
    rw [hstaged.workingDirectory, hstaged.get? loc hloc] at hpublishes
    rw [← hremoved (publish scratch.path target staged).2.disk] at hpublishes
    exact hpublishes

/-! ## Targets -/

/-- Slashes in front of a target are pieces without a name. -/
theorem exists_split_bare (target : String) : ∃ n, Text.split '/' target =
    List.replicate n "" ++
      Text.split '/' (String.ofList (target.toList.dropWhile (· = '/'))) := by
  have hchars (cs : List Char) : ∃ n, Text.pieces '/' cs =
      List.replicate n [] ++ Text.pieces '/' (cs.dropWhile (· = '/')) := by
    induction cs with
    | nil => exact ⟨0, rfl⟩
    | cons c cs ih =>
      by_cases hc : c = '/'
      · obtain ⟨n, hn⟩ := ih
        refine ⟨n + 1, ?_⟩
        rw [List.dropWhile_cons_of_pos (by simpa using hc), Text.pieces, if_pos hc, hn]
        rfl
      · refine ⟨0, ?_⟩
        rw [List.dropWhile_cons_of_neg (by simpa using hc)]
        rfl
  obtain ⟨n, hn⟩ := hchars target.toList
  refine ⟨n, ?_⟩
  rw [Text.split, Text.split, String.toList_ofList, hn, List.map_append, List.map_replicate]

/-- Slashes in front of a target are of no account. -/
theorem staysBelow_bare (depth : Nat) (target : String) :
    staysBelow depth (Text.split '/' (String.ofList (target.toList.dropWhile (· = '/')))) =
      staysBelow depth (Text.split '/' target) := by
  obtain ⟨n, hn⟩ := exists_split_bare target
  rw [hn]
  clear hn
  induction n with
  | zero => rfl
  | succ n ih =>
    rw [List.replicate_succ, List.cons_append, staysBelow, if_pos (.inl rfl)]
    exact ih

theorem isAbsolute_bare (target : String) :
    isAbsolute (String.ofList (target.toList.dropWhile (· = '/'))) = false := by
  rw [isAbsolute, String.toList_ofList, beq_eq_false_iff_ne]
  intro hhead
  simpa using Text.head?_dropWhile_false hhead

section

variable {workingDirectory loc : Location} {supportDirectory target : String}
  (htarget : staysBelow 0 (Text.split '/' target) = true)

include htarget

theorem prefix_locate_destination : locate workingDirectory supportDirectory <+:
    locate workingDirectory (destination supportDirectory target) := by
  rw [← staysBelow_bare] at htarget
  rw [destination, locate_join _ _ (isAbsolute_bare target)]
  exact prefix_lead htarget (List.prefix_refl _)

/-- The way to a target that stays below leads to the support directory and on inside it. -/
theorem isOnTheWay_destination
    (h : IsOnTheWay workingDirectory (destination supportDirectory target) loc) :
    IsOnTheWay workingDirectory supportDirectory loc ∨
      locate workingDirectory supportDirectory <+: loc := by
  rcases IsOnTheWay.of_join _ (isAbsolute_bare target) h with haround | ⟨front, hfront, rfl⟩
  · exact .inl haround
  · rw [← staysBelow_bare] at htarget
    exact .inr (prefix_lead htarget hfront)

end

end Support

namespace Engine

variable {ρ : Type} {e : Engine ρ} {folder : RemotePath} {target : String} {s : RunState ρ}

/-- Whether a place is in the directory through which support files go. -/
def isStaging (e : Engine ρ) (w : World ρ) (loc : Location) : Bool :=
  (w.disk.makeScratch e.options.scratchRoot "support").toOption.any fun (scratch, _) ↦
    scratch.location.isPrefixOf loc

/-- Whether the store puts the support files of a folder into the directory that it is given. -/
def Stages (e : Engine ρ) (folder : RemotePath) (w : World ρ) : Prop :=
  ∀ scratch disk,
    w.disk.makeScratch e.options.scratchRoot "support" = .ok (scratch, disk) →
      disk.Fills scratch.location
        (e.store.downloadDirectory folder scratch.path { w with disk }).2.disk

/-- A transfer changes its staging directory apart no more than copying does. -/
theorem transferSupport_changes (hstages : e.Stages folder s.world) {loc : Location}
    (hloc : e.isStaging s.world loc = false) :
    let after := (e.transferSupport folder target s).2.world.disk.tree.get? loc
    after = s.world.disk.tree.get? loc ∨
      Support.Changes s.world.disk.workingDirectory
        (Support.destination e.options.supportDirectory target) loc
        (s.world.disk.tree.get? loc) after := by
  intro after
  have hafter : after = (e.transferSupport folder target s).2.world.disk.tree.get? loc := rfl
  rw [transferSupport] at hafter
  split at hafter
  · exact .inl hafter
  rw [Run.inquire_apply] at hafter
  cases hmake : s.world.disk.makeScratch e.options.scratchRoot "support" with
  | error fault =>
    simp only [Support.transfer, Inquiry.withScratch, hmake] at hafter
    exact .inl hafter
  | ok made =>
    obtain ⟨scratch, disk⟩ := made
    have hoff : ¬ scratch.location <+: loc := by
      rw [isStaging, hmake] at hloc
      rw [← List.isPrefixOf_iff_prefix, Bool.not_eq_true]
      exact hloc
    rw [hafter]
    exact Support.transfer_changes hmake (hstages scratch disk hmake) hoff

/-- Support files go into the support directory, as long as the target takes back no more names
than it has gone down. Around that directory, directories that are missing are made. -/
theorem transferSupport_isBelow (hstages : e.Stages folder s.world)
    (htarget : staysBelow 0 (Text.split '/' target) = true) {loc : Location}
    (hloc : e.isStaging s.world loc = false)
    (hchanged : (e.transferSupport folder target s).2.world.disk.tree.get? loc ≠
      s.world.disk.tree.get? loc) :
    locate s.world.disk.workingDirectory e.options.supportDirectory <+: loc ∨
      IsOnTheWay s.world.disk.workingDirectory e.options.supportDirectory loc ∧
        s.world.disk.tree.get? loc = none ∧
        (e.transferSupport folder target s).2.world.disk.tree.get? loc = some .directory := by
  rcases transferSupport_changes hstages hloc with hsame | hchanges
  · exact absurd hsame hchanged
  cases hchanges with
  | made hway hbefore hafter =>
    rcases Support.isOnTheWay_destination htarget hway with hsupport | hbelow
    · exact .inr ⟨hsupport, hbefore, hafter⟩
    · exact .inl hbelow
  | copied name hname hmanifest hplace =>
    rw [hplace]
    exact .inl ((Support.prefix_locate_destination htarget).trans (List.prefix_append _ _))

/-- The store has a style sheet in the folder `t`. Support files go to `/site`. -/
def withStyle : Engine Unit where
  scratch := ⟨"/tmp", ["tmp"]⟩
  store := memoryStore (({} : Tree).putDeep ["t", "style.css"] (.file [])) []
  users := {}
  delegate := .idle
  options := { scratchRoot := "/tmp", supportDirectory := "/site" }

theorem stages_withStyle : withStyle.Stages (.ofText "t") .withScratch := by
  intro scratch disk hmake
  have hmade : World.withScratch.disk.makeScratch "/tmp" "support" =
      .ok (⟨"/tmp/support0", ["tmp", "support0"]⟩,
        { tree := World.withScratch.disk.tree.put ["tmp", "support0"] .directory }) := rfl
  cases hmade.symm.trans hmake
  have hdownload : (withStyle.store.downloadDirectory (.ofText "t") "/tmp/support0"
      { disk := { tree := World.withScratch.disk.tree.put ["tmp", "support0"] .directory },
        outside := () }).2.disk =
      { tree := (World.withScratch.disk.tree.put ["tmp", "support0"] .directory).put
          ["tmp", "support0", "style.css"] (.file []) } := by
    decide +kernel
  rw [hdownload]
  refine ⟨Disk.isProper_of_all (by decide) (by decide +kernel), rfl, fun loc hloc ↦ ?_⟩
  apply Tree.get?_put_of_ne
  rintro rfl
  exact hloc (by decide)

/-- What is at a place once the support files of `t` have gone to a target. -/
def styleAt (target : String) (loc : Location) : Option Entry :=
  (withStyle.transferSupport (.ofText "t") target
    { world := .withScratch, session := .start (.ofText "t") }).2.world.disk.tree.get? loc

/-- The target goes down to `css`, comes back and goes down to `fonts`. -/
theorem transferSupport_isBelow_fonts :
    (staysBelow 0 (Text.split '/' "/css/.././fonts") = true ∧
      withStyle.isStaging .withScratch ["site", "fonts", "style.css"] = false ∧
      styleAt "/css/.././fonts" ["site", "fonts", "style.css"] ≠
        World.withScratch.disk.tree.get? ["site", "fonts", "style.css"]) ∧
    ["site"] <+: ["site", "fonts", "style.css"] := by
  have hstays : staysBelow 0 (Text.split '/' "/css/.././fonts") = true := by decide
  have hoff : withStyle.isStaging .withScratch ["site", "fonts", "style.css"] = false := by
    decide +kernel
  have hfile : styleAt "/css/.././fonts" ["site", "fonts", "style.css"] = some (.file []) := by
    decide +kernel
  have hchanged : styleAt "/css/.././fonts" ["site", "fonts", "style.css"] ≠
      World.withScratch.disk.tree.get? ["site", "fonts", "style.css"] := by
    decide +kernel
  refine ⟨⟨hstays, hoff, hchanged⟩, ?_⟩
  rcases transferSupport_isBelow stages_withStyle hstays hoff hchanged with
    hbelow | ⟨-, -, hmade⟩
  · exact hbelow
  · cases hfile.symm.trans hmade

/-- A target that starts by going back leads out of the support directory. -/
theorem exists_escaping_record :
    ∃ (record : CommandRecord) (target : String) (loc : Location),
      Command.ofRecord .moveSupportFiles record = .ok (.moveSupportFiles target) ∧
      withStyle.isStaging .withScratch loc = false ∧
      World.withScratch.disk.tree.get? loc = none ∧ styleAt target loc = some (.file []) ∧
      ¬ locate World.withScratch.disk.workingDirectory withStyle.options.supportDirectory <+:
        loc := by
  refine ⟨⟨[(.string "command", .string "move_files"),
    (.string "target_directory", .string "../out")]⟩, "../out", ["out", "style.css"], rfl, ?_⟩
  decide +kernel

end Engine

end FolderCommands
