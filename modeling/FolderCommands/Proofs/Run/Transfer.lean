import FolderCommands.Proofs.Store.Delivery

/-!
# What a transfer of support files brings

A transfer that succeeds has copied every file that the store delivers for the folder, but for one
with the name of a manifest, into its target, whatever has been there before. It has changed nothing
else, but for directories that were missing on the way to the target.
-/

namespace FolderCommands

open CommandLine LocalPath

variable {ρ : Type}

namespace Support

variable {store : Store ρ} {root target : String} {folder : RemotePath} {w : World ρ}

/-! ## The stages of a transfer -/

/-- The stages of a transfer that succeeds. -/
structure Passage (store : Store ρ) (root : String) (folder : RemotePath) (target : String)
    (w : World ρ) where
  staging : Scratch
  /-- The disk with a staging directory. -/
  opened : Disk
  /-- The world once the store has delivered the files. -/
  staged : World ρ
  /-- The disk with the target. -/
  made : Disk
  /-- What is in the staging directory. -/
  entries : List (String × Entry)
  /-- The disk with the copies in the target. -/
  copied : Disk
  makeScratch_eq : w.disk.makeScratch root "support" = .ok (staging, opened)
  downloadDirectory_eq :
    store.downloadDirectory folder staging.path { w with disk := opened } = (.ok (), staged)
  makeDirectories_eq : staged.disk.makeDirectories target = .ok made
  readDirectory_eq : made.readDirectory staging.path = .ok entries
  copyFiles_eq : made.copyFiles staging.path target (published entries) = .ok copied
  disk_eq : (transfer store root folder target { world := w }).2.world.disk =
    copied.removeAt staging.location

theorem nonempty_passage (h : (transfer store root folder target { world := w }).1 = .ok ()) :
    Nonempty (Passage store root folder target w) := by
  cases hmake : w.disk.makeScratch root "support" with
  | error fault =>
    simp only [transfer, Inquiry.withScratch, hmake] at h
    cases h
  | ok scratch =>
    obtain ⟨staging, opened⟩ := scratch
    rcases hdownload : store.downloadDirectory folder staging.path { w with disk := opened } with
      ⟨error | _, staged⟩
    · simp only [transfer, Inquiry.withScratch, hmake, bind_apply, Store.askDirectory, Inquiry.ask,
        hdownload] at h
      cases h
    · rcases hpublish : publish staging.path target staged with ⟨error | _, published⟩
      · simp only [transfer, Inquiry.withScratch, hmake, bind_apply, Store.askDirectory,
          Inquiry.ask, hdownload, Inquiry.act, hpublish] at h
        cases h
      · obtain ⟨made, entries, hmade, hread, hcopy⟩ := exists_of_publish hpublish
        have hfiles := Disk.copyFiles_of_loop (w := { staged with disk := made }) rfl
          (fun _ _ ↦ rfl) hcopy
        refine ⟨⟨staging, opened, staged, made, entries, published.disk, hmake, hdownload, hmade,
          hread, hfiles, ?_⟩⟩
        simp only [transfer, Inquiry.withScratch, hmake, bind_apply, Store.askDirectory,
          Inquiry.ask, hdownload, Inquiry.act, hpublish]

namespace Passage

variable (p : Passage store root folder target w) {files : String → Option (List UInt8)}
  {name : String} {content : List UInt8} {loc : Location}

include p

section

variable (hsound : w.disk.IsSound)

include hsound

theorem isReady : p.staging.IsReady p.opened := by
  obtain ⟨loc, hresolve, -, -⟩ := Disk.exists_of_readDirectory p.readDirectory_eq
  exact Scratch.isReady_of_makeScratch hsound.isClosed hsound.isProper (by decide)
    p.makeScratch_eq (Disk.isFit_of_resolve hresolve)

theorem location_eq :
    p.staging.location = locate w.disk.workingDirectory p.staging.path := by
  rw [← (Disk.makeScratch_keeps p.makeScratch_eq).workingDirectory]
  exact Disk.resolve_eq (p.isReady hsound).resolve

end

section

variable (hfiles : p.opened.Receives p.staging.location files p.staged.disk)

include hfiles

theorem keeps_staged : w.disk.Keeps (¬ p.staging.location <+: ·) p.staged.disk :=
  (Disk.makeScratch_keeps p.makeScratch_eq).trans hfiles.keeps

theorem adds_made :
    p.staged.disk.Adds (IsOnTheWay w.disk.workingDirectory target) p.made := by
  rw [← (p.keeps_staged hfiles).workingDirectory]
  exact Disk.makeDirectories_adds p.makeDirectories_eq

theorem workingDirectory_made : p.made.workingDirectory = w.disk.workingDirectory :=
  (p.adds_made hfiles).workingDirectory.trans (p.keeps_staged hfiles).workingDirectory

theorem isProper_made : p.made.IsProper := by
  have hworking := hfiles.isProper.workingDirectory
  rw [(p.keeps_staged hfiles).workingDirectory] at hworking
  exact (p.adds_made hfiles).isProper hfiles.isProper fun loc hway ↦ hway.isFileName _ hworking

/-- The files in the staging directory are those that have been delivered, also once the target is
there. -/
theorem get?_made_iff : p.made.tree.get? (p.staging.location ++ [name]) = some (.file content) ↔
    files name = some content := by
  rw [← hfiles.get?_iff]
  rcases (p.adds_made hfiles).get? (p.staging.location ++ [name]) with hsame | ⟨-, hnone, hmade⟩
  · rw [hsame]
  · rw [hnone, hmade]
    exact ⟨nofun, nofun⟩

end

section

variable (hsound : w.disk.IsSound)
  (hfiles : p.opened.Receives p.staging.location files p.staged.disk)
  (hoff : ¬ p.staging.location <+: locate w.disk.workingDirectory target)

include hsound hfiles

theorem get?_staging : p.made.tree.get? p.staging.location = some .directory ∧
    p.entries = p.made.tree.children p.staging.location := by
  obtain ⟨loc, hresolve, hdirectory, hentries⟩ :=
    Disk.exists_of_readDirectory p.readDirectory_eq
  have hloc := Disk.resolve_eq hresolve
  rw [p.workingDirectory_made hfiles, ← p.location_eq hsound] at hloc
  rw [← hloc]
  exact ⟨hdirectory, hentries⟩

theorem mem_published (hname : name ≠ Manifest.baseName) (h : files name = some content) :
    name ∈ published p.entries := by
  rw [(p.get?_staging hsound hfiles).2]
  refine List.mem_map.2 ⟨(name, .file content), List.mem_filter.2
    ⟨Tree.mem_children_of_get? ((p.get?_made_iff hfiles).2 h), ?_⟩, rfl⟩
  simpa using ⟨hname, rfl⟩

include hoff

theorem copies : Disk.Copies p.staging.location (locate w.disk.workingDirectory target)
    (published p.entries) p.made p.copied := by
  have hworking := p.workingDirectory_made hfiles
  have hlocation := p.location_eq hsound
  have hnames : ∀ name ∈ published p.entries, isFileName name = true := by
    intro name hname
    obtain ⟨-, e, hmem⟩ := Support.mem_published hname
    exact (p.isProper_made hfiles).isFileName_of_readDirectory p.readDirectory_eq _ hmem
  have hcopies := Disk.copyFiles_copies hnames (fun _ hsame ↦ hoff ?_) p.copyFiles_eq
  · rwa [hworking, ← hlocation] at hcopies
  · rw [hworking, ← hlocation] at hsame
    rw [hsame]

/-- Nothing is copied into the place of the staging directory. -/
theorem not_prefix (hname : name ∈ published p.entries) :
    ¬ p.staging.location <+: locate w.disk.workingDirectory target ++ [name] := by
  intro hprefix
  rcases List.prefix_concat_iff.1 hprefix with hsame | hbelow
  · refine (p.copies hsound hfiles hoff).notDirectory name hname ?_
    rw [← hsame]
    exact (p.get?_staging hsound hfiles).1
  · exact hoff hbelow

/-- What has been delivered is in the target, unless it has the name of a manifest. -/
theorem get?_file (hname : name ≠ Manifest.baseName) (h : files name = some content) :
    (transfer store root folder target { world := w }).2.world.disk.tree.get?
      (locate w.disk.workingDirectory target ++ [name]) = some (.file content) := by
  have hmem := p.mem_published hsound hfiles hname h
  obtain ⟨copy, hsource, htarget⟩ := (p.copies hsound hfiles hoff).copied name hmem
  have hcopy := (p.get?_made_iff hfiles).1 hsource
  rw [h] at hcopy
  cases hcopy
  rw [p.disk_eq, (Disk.removeAt_keeps _ _).get? _ (p.not_prefix hsound hfiles hoff hmem), htarget]

/-- Nothing else has changed, but for directories that were missing on the way to the target. -/
theorem get?_other (h : ∀ name, name ≠ Manifest.baseName → (files name).isSome →
    loc ≠ locate w.disk.workingDirectory target ++ [name]) :
    let after := (transfer store root folder target { world := w }).2.world.disk.tree.get? loc
    after = w.disk.tree.get? loc ∨ IsOnTheWay w.disk.workingDirectory target loc ∧
      w.disk.tree.get? loc = none ∧ after = some .directory := by
  intro after
  have hafter : after = (p.copied.removeAt p.staging.location).tree.get? loc := by
    rw [← p.disk_eq]
  by_cases hbelow : p.staging.location <+: loc
  · -- the staging directory was not there before, and it is gone
    have hbefore := Disk.get?_of_makeScratch hsound.isClosed (by decide) p.makeScratch_eq hbelow
    have hne : loc ≠ [] := by
      rintro rfl
      cases hbefore
    left
    rw [hafter, hbefore]
    exact Tree.get?_remove_of_prefix hne hbelow
  · have hcopied := (p.copies hsound hfiles hoff).keeps.get? loc fun name hname ↦ by
      obtain ⟨content, hsource, -⟩ := (p.copies hsound hfiles hoff).copied name hname
      exact h name (Support.mem_published hname).1
        (by rw [(p.get?_made_iff hfiles).1 hsource]; rfl)
    rw [hafter, (Disk.removeAt_keeps _ _).get? loc hbelow, hcopied,
      ← (p.keeps_staged hfiles).get? loc hbelow]
    exact (p.adds_made hfiles).get? loc

end

end Passage

/-! ## Targets without steps back -/

/-- The way to a target without steps back leads to the support directory, and on through
directories around the target. -/
theorem isOnTheWay_destination_of_notMem {workingDirectory loc : Location}
    {supportDirectory target : String} (htarget : ".." ∉ Text.split '/' target)
    (h : IsOnTheWay workingDirectory (destination supportDirectory target) loc) :
    IsOnTheWay workingDirectory supportDirectory loc ∨
      locate workingDirectory supportDirectory <+: loc ∧
        loc <+: locate workingDirectory (destination supportDirectory target) := by
  have hbare : ".." ∉ Text.split '/' (String.ofList (target.toList.dropWhile (· = '/'))) := by
    obtain ⟨n, hn⟩ := exists_split_bare target
    rw [hn] at htarget
    exact fun hname ↦ htarget (List.mem_append_right _ hname)
  rcases IsOnTheWay.of_join _ (isAbsolute_bare target) h with haround | ⟨front, hfront, rfl⟩
  · exact .inl haround
  · refine .inr ⟨prefix_lead (staysBelow_of_notMem hbare 0) hfront, ?_⟩
    rw [destination, locate_join _ _ (isAbsolute_bare target)]
    exact lead_prefix_lead hbare hfront

/-- Where support files go from a working directory. -/
def place (workingDirectory : Location) (supportDirectory target : String) : Location :=
  locate workingDirectory (destination supportDirectory target)

/-- What a transfer of some files to a target has made of a tree of files. -/
structure Transferred (workingDirectory : Location) (supportDirectory target : String)
    (files : String → Option (List UInt8)) (before after : Tree) : Prop where
  /-- Each file, but for a manifest, is in the target with its content. -/
  file (name : String) (content : List UInt8) (h : files name = some content)
    (hname : name ≠ Manifest.baseName) :
    after.file? (place workingDirectory supportDirectory target) name = some content
  /-- A manifest in the target is one that has been there before, as it was. -/
  manifest : after.file? (place workingDirectory supportDirectory target) Manifest.baseName =
    before.file? (place workingDirectory supportDirectory target) Manifest.baseName
  /-- Nothing else has changed, but for directories around the support directory and around the
  target that were missing. -/
  other (loc : Location) (h : ∀ name, name ≠ Manifest.baseName → (files name).isSome →
    loc ≠ place workingDirectory supportDirectory target ++ [name]) :
    after.get? loc = before.get? loc ∨ before.get? loc = none ∧ after.get? loc = some .directory ∧
      (IsOnTheWay workingDirectory supportDirectory loc ∨
        locate workingDirectory supportDirectory <+: loc ∧
          loc <+: place workingDirectory supportDirectory target)

/-- Where nothing has changed but that a directory has been made, there is the file of before. -/
theorem file?_eq {before after : Tree} {loc : Location} {name : String} {P : Prop}
    (h : after.get? (loc ++ [name]) = before.get? (loc ++ [name]) ∨
      P ∧ before.get? (loc ++ [name]) = none ∧ after.get? (loc ++ [name]) = some .directory) :
    after.file? loc name = before.file? loc name := by
  rw [Tree.file?, Tree.file?]
  rcases h with hsame | ⟨-, hnone, hmade⟩
  · rw [hsame]
  · rw [hnone, hmade]

theorem Passage.transferred {supportDirectory : String} {files : String → Option (List UInt8)}
    (p : Passage store root folder (destination supportDirectory target) w)
    (hsound : w.disk.IsSound)
    (hfiles : p.opened.Receives p.staging.location files p.staged.disk)
    (htarget : ".." ∉ Text.split '/' target)
    (hoff : ¬ p.staging.location <+: place w.disk.workingDirectory supportDirectory target) :
    Transferred w.disk.workingDirectory supportDirectory target files w.disk.tree
      (transfer store root folder (destination supportDirectory target)
        { world := w }).2.world.disk.tree where
  file name content h hname := Tree.file?_eq_some.2 (p.get?_file hsound hfiles hoff hname h)
  manifest := by
    refine file?_eq (p.get?_other hsound hfiles hoff fun name hname _ hsame ↦ hname ?_)
    exact (List.cons.inj (List.append_cancel_left hsame.symm)).1
  other loc h := (p.get?_other hsound hfiles hoff h).imp_right fun ⟨hway, hnone, hmade⟩ ↦
    ⟨hnone, hmade, isOnTheWay_destination_of_notMem htarget hway⟩

end Support

namespace Engine

/-- Whether the store delivers just some files of a folder to a transfer. -/
def Delivers (e : Engine ρ) (folder : RemotePath) (files : String → Option (List UInt8))
    (w : World ρ) : Prop :=
  ∀ staging disk, w.disk.makeScratch e.options.scratchRoot "support" = .ok (staging, disk) →
    staging.IsReady disk → e.store.Delivers folder files staging { w with disk }

/-- The files of a folder are what the store below a local directory delivers. -/
theorem delivers_directoryStore {e : Engine ρ} {root : String}
    (hstore : e.store = directoryStore root) {w : World ρ} (hsound : w.disk.IsSound)
    (folder : RemotePath) :
    e.Delivers folder (w.disk.tree.file?
      (locate w.disk.workingDirectory (DirectoryStore.place root folder))) w := by
  intro staging disk hmake hready
  have hbefore {loc : Location} (hloc : staging.location <+: loc) : w.disk.tree.get? loc = none :=
    Disk.get?_of_makeScratch hsound.isClosed (by decide) hmake hloc
  obtain ⟨place, name, -, -, -, -, rfl, rfl⟩ := Scratch.exists_of_makeScratch (by decide) hmake
  have hempty (other : String) : (w.disk.tree.put (place ++ [name]) .directory).get?
      (place ++ [name] ++ [other]) = none := by
    rw [Tree.get?_put_of_ne (by simp)]
    exact hbefore (List.prefix_append _ _)
  have hdelivers := @DirectoryStore.delivers ρ root folder
    { w with disk := { w.disk with tree := w.disk.tree.put (place ++ [name]) .directory } } _ hready
    hempty
  have hsame : (w.disk.tree.put (place ++ [name]) .directory).file?
      (locate w.disk.workingDirectory (DirectoryStore.place root folder)) =
        w.disk.tree.file?
          (locate w.disk.workingDirectory (DirectoryStore.place root folder)) := by
    funext other
    rw [Tree.file?, Tree.file?]
    by_cases hstaging : locate w.disk.workingDirectory (DirectoryStore.place root folder) ++
        [other] = place ++ [name]
    · rw [hstaging, Tree.get?_put (by simp), hbefore (List.prefix_refl _)]
    · rw [Tree.get?_put_of_ne hstaging]
  rw [hstore, ← hsame]
  exact hdelivers

variable {e : Engine ρ} {folder : RemotePath} {target : String} {s : RunState ρ}
  {files : String → Option (List UInt8)}

theorem nonempty_passage_and_world_eq (hdry : e.options.dryRun = false)
    (hok : (e.transferSupport folder target s).1 = .ok ()) :
    Nonempty (Support.Passage e.store e.options.scratchRoot folder
      (Support.destination e.options.supportDirectory target) s.world) ∧
      (e.transferSupport folder target s).2.world = (Support.transfer e.store
        e.options.scratchRoot folder (Support.destination e.options.supportDirectory target)
        { world := s.world }).2.world := by
  have hrun : e.transferSupport folder target = Run.inquire (Support.transfer e.store
      e.options.scratchRoot folder (Support.destination e.options.supportDirectory target)) := by
    rw [transferSupport, hdry]
    rfl
  rw [hrun, Run.inquire_apply] at hok ⊢
  dsimp only at hok
  cases htransfer : (Support.transfer e.store e.options.scratchRoot folder
      (Support.destination e.options.supportDirectory target) { world := s.world }).1 with
  | ok => exact ⟨Support.nonempty_passage htransfer, rfl⟩
  | error error =>
    rw [htransfer] at hok
    cases hok

/-- A transfer that succeeds brings just the files that the store delivers, the manifest apart, and
changes nothing else. Only a target in the staging directory would be gone with it. -/
theorem transferSupport_transferred (hsound : s.world.disk.IsSound)
    (hdelivers : e.Delivers folder files s.world) (hdry : e.options.dryRun = false)
    (htarget : ".." ∉ Text.split '/' target)
    (hoff : e.isStaging s.world (Support.place s.world.disk.workingDirectory
      e.options.supportDirectory target) = false)
    (hok : (e.transferSupport folder target s).1 = .ok ()) :
    Support.Transferred s.world.disk.workingDirectory e.options.supportDirectory target files
      s.world.disk.tree (e.transferSupport folder target s).2.world.disk.tree := by
  obtain ⟨⟨p⟩, hworld⟩ := nonempty_passage_and_world_eq hdry hok
  rw [hworld]
  refine p.transferred hsound ?_ htarget ?_
  · exact hdelivers p.staging p.opened p.makeScratch_eq (p.isReady hsound) p.staged
      p.downloadDirectory_eq
  · rw [isStaging, p.makeScratch_eq] at hoff
    rw [← List.isPrefixOf_iff_prefix, Bool.not_eq_true]
    exact hoff

/-- A store with a folder `t`, and a support directory that has a manifest of its own. -/
def fontsDisk : Disk where
  tree := [(["store", "t", "commands.txt"], .file [1]), (["store", "t", "style.css"], .file [2]),
    (["store", "t", "logo.png"], .file [3]), (["store", "t", "sub"], .directory),
    (["tmp"], .directory), (["site", "fonts", "commands.txt"], .file [4]),
    (["site", "fonts", "style.css"], .file [5]), (["site", "fonts", "print.css"], .file [6])].foldl
      (fun t (entry : Location × Entry) ↦ t.putDeep entry.1 entry.2) {}

/-- An engine over that store. -/
def overFonts : Engine Unit :=
  { withStyle with store := directoryStore "/store" }

/-- The transfer of `t` to a target. -/
def fontsAfter (target : String) : Except Stop Unit × RunState Unit :=
  overFonts.transferSupport (.ofText "t") target
    { world := ⟨fontsDisk, ()⟩, session := .start (.ofText "t") }

/-- A style sheet is replaced, and a logo is new. -/
theorem transferSupport_transferred_fonts :
    (fontsDisk.IsSound ∧ ".." ∉ Text.split '/' "/fonts" ∧
      overFonts.isStaging ⟨fontsDisk, ()⟩ ["site", "fonts"] = false ∧
      (fontsAfter "/fonts").1 = .ok ()) ∧
    (fontsAfter "/fonts").2.world.disk.tree.file? ["site", "fonts"] "style.css" = some [2] ∧
    (fontsAfter "/fonts").2.world.disk.tree.file? ["site", "fonts"] "logo.png" = some [3] ∧
    (fontsAfter "/fonts").2.world.disk.tree.file? ["site", "fonts"] "commands.txt" = some [4] ∧
    (fontsAfter "/fonts").2.world.disk.tree.file? ["site", "fonts"] "print.css" = some [6] := by
  have hsound : fontsDisk.IsSound :=
    ⟨Tree.isClosed_of_all (by decide +kernel), Disk.isProper_of_all (by decide) (by decide +kernel)⟩
  have hplace : Support.place fontsDisk.workingDirectory overFonts.options.supportDirectory
      "/fonts" = ["site", "fonts"] := by
    decide +kernel
  have htarget : ".." ∉ Text.split '/' "/fonts" := by decide
  have hoff : overFonts.isStaging ⟨fontsDisk, ()⟩ ["site", "fonts"] = false := by decide +kernel
  have hok : (fontsAfter "/fonts").1 = .ok () := by
    simp only [fontsAfter, overFonts, directoryStore, DirectoryStore.names_eq_insertionSort]
    decide +kernel
  have hfolder : locate fontsDisk.workingDirectory (DirectoryStore.place "/store" (.ofText "t")) =
      ["store", "t"] := by
    decide +kernel
  have htransferred := transferSupport_transferred
    (s := { world := ⟨fontsDisk, ()⟩, session := .start (.ofText "t") }) hsound
    (delivers_directoryStore rfl hsound (.ofText "t")) rfl htarget (by rw [hplace]; exact hoff) hok
  rw [hfolder] at htransferred
  have hfile := htransferred.file
  have hmanifest := htransferred.manifest
  have hother := htransferred.other ["site", "fonts", "print.css"]
  rw [hplace] at hfile hmanifest hother
  refine ⟨⟨hsound, htarget, hoff, hok⟩, hfile "style.css" [2] (by decide +kernel) (by decide),
    hfile "logo.png" [3] (by decide +kernel) (by decide), hmanifest.trans (by decide +kernel), ?_⟩
  have hprint : fontsDisk.tree.get? ["site", "fonts", "print.css"] = some (.file [6]) := by
    decide +kernel
  have hundelivered (name : String) (_ : name ≠ Manifest.baseName)
      (hsome : (fontsDisk.tree.file? ["store", "t"] name).isSome) :
      ["site", "fonts", "print.css"] ≠ ["site", "fonts"] ++ [name] := by
    intro hsame
    obtain rfl : "print.css" = name := by simpa using hsame
    exact absurd hsome (by decide +kernel)
  rcases hother hundelivered with hkept | ⟨hnone, -⟩
  · exact Tree.file?_eq_some.2 (hkept.trans hprint)
  · cases hprint.symm.trans hnone

end Engine

end FolderCommands
