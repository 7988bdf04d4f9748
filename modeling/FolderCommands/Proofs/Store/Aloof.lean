import FolderCommands.Proofs.Manifest.Freshness
import FolderCommands.Proofs.Run.Publishing

/-!
# Stores on which the local disk has no bearing

What such a store answers, and what it does outside of the local disk, depends on what is outside of
it only. A manifest loads from it in the same way on all disks with a scratch directory that is
ready. Support files can be copied from it without the scratch directory being any the worse: a
transfer that succeeds takes no directory away.
-/

namespace FolderCommands

open LocalPath

variable {ρ : Type}

/-- Whether the local disk has no bearing on what a store answers, and the store keeps off it but
for what it downloads. What is outside of the disk may be in states that `Q` relates: the store does
not tell them apart, and leaves such states. Copying a folder is not noticed there at all. -/
structure Store.IsAloof (store : Store ρ) (scratch : Scratch) (Q : ρ → ρ → Prop) : Prop
    extends store.KeepsTo scratch where
  stays (dir : RemotePath) (w : World ρ) (h : scratch.IsReady w.disk) :
    (store.listDirectories dir w).2.disk = w.disk
  files (dir : RemotePath) {w w' : World ρ} (h : scratch.IsReady w.disk)
    (h' : scratch.IsReady w'.disk) (hQ : Q w.outside w'.outside) :
    (store.listFiles dir w').1 = (store.listFiles dir w).1 ∧
      Q (store.listFiles dir w).2.outside (store.listFiles dir w').2.outside
  directories (dir : RemotePath) {w w' : World ρ} (h : scratch.IsReady w.disk)
    (h' : scratch.IsReady w'.disk) (hQ : Q w.outside w'.outside) :
    (store.listDirectories dir w').1 = (store.listDirectories dir w).1 ∧
      Q (store.listDirectories dir w).2.outside (store.listDirectories dir w').2.outside
  /-- What a download answers, and what it puts into the scratch directory. -/
  file (dir : RemotePath) (name : String) {w w' : World ρ} (h : scratch.IsReady w.disk)
    (h' : scratch.IsReady w'.disk) (hempty : w.disk.emptied scratch.location = w.disk)
    (hempty' : w'.disk.emptied scratch.location = w'.disk) (hname : isFileName name = true)
    (hQ : Q w.outside w'.outside) :
    (store.downloadFile dir name scratch.path w').1 =
        (store.downloadFile dir name scratch.path w).1 ∧
      (store.downloadFile dir name scratch.path w').2.disk.tree.get? (scratch.location ++ [name]) =
        (store.downloadFile dir name scratch.path w).2.disk.tree.get?
          (scratch.location ++ [name]) ∧
      Q (store.downloadFile dir name scratch.path w).2.outside
        (store.downloadFile dir name scratch.path w').2.outside
  /-- A folder is copied into a directory that is ready, and nowhere else. -/
  fills (dir : RemotePath) (staging : Scratch) (w : World ρ) (h : staging.IsReady w.disk) :
    w.disk.Fills staging.location (store.downloadDirectory dir staging.path w).2.disk ∧
      (store.downloadDirectory dir staging.path w).2.disk.tree.IsClosed
  unnoticed (dir : RemotePath) (path : String) (w w' : World ρ) (hQ : Q w.outside w'.outside) :
    Q (store.downloadDirectory dir path w).2.outside w'.outside

/-- Worlds with a scratch directory that is ready, and in related states outside of the disk. -/
structure World.Pairs (scratch : Scratch) (Q : ρ → ρ → Prop) (w w' : World ρ) : Prop where
  left : scratch.IsReady w.disk
  right : scratch.IsReady w'.disk
  outside : Q w.outside w'.outside

/-! ## Loading a manifest -/

/-- A file of a scratch directory reads as what is there. -/
theorem Scratch.IsReady.readText_eq {scratch : Scratch} {d d' : Disk} {name : String}
    (h : scratch.IsReady d) (h' : scratch.IsReady d') (hname : isFileName name = true)
    (hsame : d'.tree.get? (scratch.location ++ [name]) = d.tree.get? (scratch.location ++ [name])) :
    d'.readText (join scratch.path name) = d.readText (join scratch.path name) := by
  have hentry : d'.entry (join scratch.path name) = d.entry (join scratch.path name) := by
    rw [Disk.entry, Disk.entry, h.resolve_join hname, h'.resolve_join hname]
    cases hplace : Disk.place scratch.location name with
    | error fault => rfl
    | ok loc => simp only [bind, Except.bind, Disk.place_eq hplace, hsame]
  rw [Disk.readText, Disk.readText, Disk.readFile, Disk.readFile, hentry]

namespace Manifest

variable {store : Store ρ} {scratch : Scratch} {Q : ρ → ρ → Prop} {w w' : World ρ}

/-- A file that is downloaded into empty scratch directories reads the same. -/
theorem download_pairs (hstore : store.IsAloof scratch Q) (h : w.Pairs scratch Q w')
    (hempty : w.disk.emptied scratch.location = w.disk)
    (hempty' : w'.disk.emptied scratch.location = w'.disk) (folder : RemotePath) {name : String}
    (hname : isFileName name = true) (requests : List Request) :
    let left := download store scratch.path folder name ⟨w, requests⟩
    let right := download store scratch.path folder name ⟨w', requests⟩
    right.1 = left.1 ∧ right.2.requests = left.2.requests ∧
      Q left.2.world.outside right.2.world.outside := by
  obtain ⟨hresult, hfile, hQ⟩ :=
    hstore.file folder name h.left h.right hempty hempty' hname h.outside
  have hready {v : World ρ} (hv : scratch.IsReady v.disk)
      (hvoid : v.disk.emptied scratch.location = v.disk) :
      scratch.IsReady (store.downloadFile folder name scratch.path v).2.disk := by
    rcases hstore.saves folder name v hv hvoid hname with hdisk | ⟨content, hdisk⟩
    · rwa [hdisk]
    · rw [hdisk, ← hvoid]
      exact hv.withFile hname content
  have hleft := hready h.left hempty
  have hright := hready h.right hempty'
  have hpath := hstore.path folder name w h.left hempty hname
  simp only [download, bind_apply, Store.askFile, Inquiry.ask]
  rcases hsave : store.downloadFile folder name scratch.path w with ⟨result, v⟩
  rcases hsave' : store.downloadFile folder name scratch.path w' with ⟨result', v'⟩
  rw [hsave, hsave'] at hresult hfile hQ
  rw [hsave] at hleft hpath
  rw [hsave'] at hright
  dsimp only at hresult
  subst hresult
  cases result' with
  | error error => exact ⟨rfl, rfl, hQ⟩
  | ok path =>
    cases hpath path rfl
    have hread := hleft.readText_eq hright hname hfile
    dsimp only at hread
    simp only [Inquiry.act, Action.look, hread]
    exact ⟨trivial, trivial, hQ⟩

theorem fetchText_pairs (hstore : store.IsAloof scratch Q) (h : w.Pairs scratch Q w')
    (folder : RemotePath) (mark : String) :
    let left := fetchText store scratch.path folder mark { world := w }
    let right := fetchText store scratch.path folder mark { world := w' }
    right.1 = left.1 ∧ right.2.requests = left.2.requests ∧
      left.2.world.Pairs scratch Q right.2.world := by
  have hleft := isReady_fetchText hstore.toKeepsTo h.left folder mark
  have hright := isReady_fetchText hstore.toKeepsTo h.right folder mark
  suffices hboth : (fetchText store scratch.path folder mark { world := w' }).1 =
        (fetchText store scratch.path folder mark { world := w }).1 ∧
      (fetchText store scratch.path folder mark { world := w' }).2.requests =
        (fetchText store scratch.path folder mark { world := w }).2.requests ∧
      Q (fetchText store scratch.path folder mark { world := w }).2.world.outside
        (fetchText store scratch.path folder mark { world := w' }).2.world.outside from
    ⟨hboth.1, hboth.2.1, hleft, hright, hboth.2.2⟩
  have hnames := hstore.names folder (w.around scratch) h.left.emptied
  obtain ⟨hresult, hQ⟩ := @hstore.files folder (w.around scratch) (w'.around scratch)
    h.left.emptied h.right.emptied h.outside
  have hlisted := isReady_listed hstore.toKeepsTo h.left folder
  have hlisted' := isReady_listed hstore.toKeepsTo h.right folder
  have hempty := emptied_listed hstore.toKeepsTo h.left folder
  have hempty' := emptied_listed hstore.toKeepsTo h.right folder
  rw [listed] at hlisted hlisted' hempty hempty'
  simp only [fetchText, bind_apply, clear_apply h.left, clear_apply h.right, Store.askFiles,
    Inquiry.ask]
  rcases hlist : store.listFiles folder (w.around scratch) with ⟨result, v⟩
  rcases hlist' : store.listFiles folder (w'.around scratch) with ⟨result', v'⟩
  rw [hlist, hlist'] at hresult hQ
  rw [hlist] at hnames hlisted hempty
  rw [hlist'] at hlisted' hempty'
  dsimp only at hresult
  subst hresult
  cases result' with
  | error error => exact ⟨rfl, rfl, hQ⟩
  | ok names =>
    dsimp only
    split
    swap
    · exact ⟨rfl, rfl, hQ⟩
    rename_i hcontains
    have hname := isFileName_fileName (hnames names rfl _ (List.contains_iff_mem.1 hcontains))
    obtain ⟨htext, hrequests, hQ'⟩ := download_pairs hstore ⟨hlisted, hlisted', hQ⟩ hempty hempty'
      folder hname ([] ++ [.listFiles folder])
    rcases hread : download store scratch.path folder (fileName mark)
      ⟨v, [] ++ [.listFiles folder]⟩ with ⟨text, after⟩
    rcases hread' : download store scratch.path folder (fileName mark)
      ⟨v', [] ++ [.listFiles folder]⟩ with ⟨text', after'⟩
    rw [hread, hread'] at htext hrequests hQ'
    dsimp only at htext
    subst htext
    simp only [bind_apply, hread, hread']
    cases text' with
    | error error => exact ⟨rfl, hrequests, hQ'⟩
    | ok text =>
      dsimp only
      split <;> exact ⟨rfl, hrequests, hQ'⟩

theorem load_pairs (hstore : store.IsAloof scratch Q) (h : w.Pairs scratch Q w')
    (folder : RemotePath) (mark : String) :
    let left := load store scratch.path folder mark { world := w }
    let right := load store scratch.path folder mark { world := w' }
    right.1 = left.1 ∧ right.2.requests = left.2.requests ∧
      left.2.world.Pairs scratch Q right.2.world := by
  obtain ⟨htext, hrequests, hpairs⟩ := fetchText_pairs hstore h folder mark
  simp only [load, bind_apply]
  rcases hfetch : fetchText store scratch.path folder mark { world := w } with ⟨text, after⟩
  rcases hfetch' : fetchText store scratch.path folder mark { world := w' } with ⟨text', after'⟩
  rw [hfetch, hfetch'] at htext hrequests hpairs
  dsimp only at htext
  subst htext
  cases text' with
  | error error => exact ⟨rfl, hrequests, hpairs⟩
  | ok text => exact ⟨rfl, hrequests, hpairs⟩

end Manifest

/-! ## Copying support files -/

namespace Support

variable {w : World ρ} {source target : String}

theorem copyAll_grows (names : List String) (h : w.disk.IsSound) :
    w.disk.Grows (copyAll source target names w).2.disk := by
  induction names generalizing w with
  | nil => exact .refl w.disk
  | cons name names ih =>
    simp only [copyAll, bind_apply, Action.change_apply]
    cases hcopy : w.disk.copyFile (join source name) (join target name) with
    | error fault => exact .refl w.disk
    | ok disk =>
      have hfirst := Disk.copyFile_grows h.isClosed hcopy
      exact hfirst.trans (ih (w := { w with disk }) (hfirst.isSound h))

theorem copyAll_outside (names : List String) (w : World ρ) :
    (copyAll source target names w).2.outside = w.outside := by
  induction names generalizing w with
  | nil => rfl
  | cons name names ih =>
    simp only [copyAll, bind_apply, Action.change_apply]
    cases w.disk.copyFile (join source name) (join target name) with
    | error fault => rfl
    | ok disk => exact ih { w with disk }

theorem publish_grows (h : w.disk.IsSound) :
    w.disk.Grows (publish source target w).2.disk := by
  simp only [publish, bind_apply, Action.change_apply]
  cases hmake : w.disk.makeDirectories target with
  | error fault => exact .refl w.disk
  | ok disk =>
    have hmade := Disk.makeDirectories_grows h hmake
    simp only [Action.look]
    cases disk.readDirectory source with
    | error fault => exact hmade
    | ok entries => exact hmade.trans (copyAll_grows _ (w := { w with disk }) (hmade.isSound h))

theorem publish_outside (source target : String) (w : World ρ) :
    (publish source target w).2.outside = w.outside := by
  simp only [publish, bind_apply, Action.change_apply]
  cases w.disk.makeDirectories target with
  | error fault => rfl
  | ok disk =>
    simp only [Action.look]
    cases disk.readDirectory source with
    | error fault => rfl
    | ok entries => exact copyAll_outside _ { w with disk }

/-- Files are copied from a directory that there may be. -/
theorem isFit_of_publish (h : (publish source target w).1 = .ok ()) : IsFit source := by
  obtain ⟨_, _, -, hread, -⟩ := exists_of_publish (Prod.ext h rfl)
  obtain ⟨⟨_, _⟩, hentry, -⟩ := Yaml.exists_of_bind_ok hread
  exact Disk.isFit_of_resolve (Disk.resolve_of_entry hentry).1

/-- However a transfer ends, it has taken no directory away, if the store puts its files into the
staging directory. -/
theorem transfer_grows {store : Store ρ} {root : String} {folder : RemotePath}
    (hsound : w.disk.IsSound)
    (hfills : ∀ (staging : Scratch) (v : World ρ), staging.IsReady v.disk →
      v.disk.Fills staging.location (store.downloadDirectory folder staging.path v).2.disk ∧
        (store.downloadDirectory folder staging.path v).2.disk.tree.IsClosed)
    (hfit : ∀ staging disk, w.disk.makeScratch root "support" = .ok (staging, disk) →
      IsFit staging.path) :
    w.disk.Grows (transfer store root folder target { world := w }).2.world.disk := by
  simp only [transfer, Inquiry.withScratch]
  cases hmake : w.disk.makeScratch root "support" with
  | error fault => exact .refl w.disk
  | ok made =>
  obtain ⟨staging, disk⟩ := made
  have hready : staging.IsReady disk := Scratch.isReady_of_makeScratch hsound.isClosed
    hsound.isProper (by decide) hmake (hfit staging disk hmake)
  -- the staging directory is new, so no directory that was there is in it
  have hoff (loc : Location) (hloc : w.disk.tree.get? loc = some .directory) :
      ¬ staging.location <+: loc := by
    intro hbelow
    rw [Disk.get?_of_makeScratch hsound.isClosed (by decide) hmake hbelow] at hloc
    cases hloc
  have hremoved {v : World ρ} (hkeeps : disk.Keeps (¬ staging.location <+: ·) v.disk)
      (hv : v.disk.IsSound) {after : Disk} (hgrows : v.disk.Grows after) :
      w.disk.Grows (after.removeAt staging.location) := by
    have hstaged := (Disk.makeScratch_keeps hmake).trans hkeeps
    refine ⟨hgrows.workingDirectory.trans hstaged.workingDirectory, fun loc hloc ↦ ?_,
      fun _ ↦ (hgrows.isSound hv).removeAt staging.location⟩
    have hkept := hstaged.get? loc (hoff loc hloc)
    exact (Tree.get?_remove (hoff loc hloc)).trans (hgrows.directories loc (hkept.trans hloc))
  obtain ⟨hfilled, hclosed⟩ := hfills staging { w with disk } hready
  simp only [bind_apply, Store.askDirectory, Inquiry.ask]
  rcases hdownload : store.downloadDirectory folder staging.path { w with disk } with
    ⟨error | _, staged⟩
  all_goals
    rw [hdownload] at hfilled hclosed
    have hsound' : staged.disk.IsSound := ⟨hclosed, hfilled.isProper⟩
  · exact hremoved hfilled.keeps hsound' (.refl _)
  · exact hremoved hfilled.keeps hsound' (publish_grows hsound')

/-- Support files that have been copied had a staging directory. -/
theorem isFit_of_transfer {store : Store ρ} {root : String} {folder : RemotePath}
    (hok : (transfer store root folder target { world := w }).1 = .ok ()) {staging : Scratch}
    {disk : Disk} (hmake : w.disk.makeScratch root "support" = .ok (staging, disk)) :
    IsFit staging.path := by
  simp only [transfer, Inquiry.withScratch, hmake, bind_apply, Store.askDirectory,
    Inquiry.ask] at hok
  rcases hdownload : store.downloadDirectory folder staging.path { w with disk } with
    ⟨error | _, staged⟩
  · rw [hdownload] at hok
    cases hok
  · rw [hdownload] at hok
    exact isFit_of_publish hok

/-- A transfer is not noticed outside of the disk if the download is not. -/
theorem transfer_outside {store : Store ρ} {root : String} {folder : RemotePath} {P : ρ → Prop}
    (h : P w.outside) (hunnoticed : ∀ path v, P v.outside →
      P (store.downloadDirectory folder path v).2.outside) :
    P (transfer store root folder target { world := w }).2.world.outside := by
  simp only [transfer, Inquiry.withScratch]
  cases hmake : w.disk.makeScratch root "support" with
  | error fault => exact h
  | ok made =>
  obtain ⟨staging, disk⟩ := made
  have hdownloaded := hunnoticed staging.path { w with disk } h
  simp only [bind_apply, Store.askDirectory, Inquiry.ask]
  rcases hdownload : store.downloadDirectory folder staging.path { w with disk } with
    ⟨error | _, staged⟩
  all_goals rw [hdownload] at hdownloaded
  · exact hdownloaded
  · exact (congrArg P (publish_outside staging.path target staged)).mpr hdownloaded

/-- A transfer that succeeds has taken no directory away, and is not noticed outside of the disk. -/
theorem transfer_pairs {store : Store ρ} {scratch : Scratch} {Q : ρ → ρ → Prop} {w' : World ρ}
    {root : String} {folder : RemotePath} (hstore : store.IsAloof scratch Q)
    (h : w.Pairs scratch Q w') (hok : (transfer store root folder target { world := w }).1 = .ok ()) :
    (transfer store root folder target { world := w }).2.world.Pairs scratch Q w' where
  left := h.left.of_grows (transfer_grows h.left.isSound (hstore.fills folder) fun _ _ ↦
    isFit_of_transfer hok)
  right := h.right
  outside := transfer_outside (P := fun outside ↦ Q outside w'.outside) h.outside fun path v ↦
    hstore.unnoticed folder path v w'

end Support

/-! ## The store in memory -/

namespace MemoryStore

variable {P : World ρ → Prop} {tree : Tree} {dir : RemotePath} {localDir : String}

/-- What a loop does not end if no turn of it does. -/
theorem forIn_preserves {α : Type} {body : α → Action ρ (ForInStep PUnit)} {items : List α}
    (hbody : ∀ item ∈ items, ∀ v, P v → P (body item v).2) {w : World ρ} (h : P w) :
    P (forIn items PUnit.unit (fun item _ ↦ body item) w).2 := by
  induction items generalizing w with
  | nil => exact h
  | cons item items ih =>
    obtain ⟨hitem, hrest⟩ := List.forall_mem_cons.1 hbody
    have hturn := hitem w h
    rw [List.forIn_cons, bind_apply]
    rcases hstep : body item w with ⟨error | step, v⟩
    · rw [hstep] at hturn
      exact hturn
    · rw [hstep] at hturn
      cases step with
      | done => exact hturn
      | yield => exact ih hrest hturn

theorem snd_bind_pure {α β : Type} (action : Action ρ α) (b : β) (w : World ρ) :
    ((action >>= fun _ ↦ pure b) w).2 = (action w).2 := by
  rw [bind_apply]
  rcases action w with ⟨_ | _, after⟩ <;> rfl

/-- What a download of a folder does not end if neither making the directory nor writing a file
does. -/
theorem downloadDirectory_preserves (faults : List StoreFault)
    (htree : ∀ entry ∈ tree.entries, ∀ name ∈ entry.1, isFileName name = true)
    (hprepare : ∀ v, P v → P (prepare localDir v).2)
    (hsave : ∀ name content v, isFileName name = true → P v → P (save localDir name content v).2)
    {w : World ρ} (h : P w) :
    P ((memoryStore tree faults).downloadDirectory dir localDir w).2 := by
  simp only [memoryStore]
  rcases guarded_apply faults "download_directory" dir (w := w) _ with ⟨error, hfails⟩ | hruns
  · rw [hfails]
    exact h
  have hprepared := hprepare w h
  rw [hruns, bind_apply]
  rcases hmake : prepare localDir w with ⟨error | _, made⟩
  · rw [hmake] at hprepared
    exact hprepared
  rw [hmake] at hprepared
  dsimp only
  rw [bind_apply, Action.ofExcept]
  cases hinside : inside tree "download" dir with
  | error error => exact hprepared
  | ok entries =>
  dsimp only
  rw [snd_bind_pure]
  refine forIn_preserves (fun item hitem v hv ↦ ?_) hprepared
  have hname : isFileName item.1 = true := by
    rw [inside] at hinside
    split at hinside
    · cases hinside
      obtain ⟨e, hentry⟩ := Disk.mem_names_children.1 (List.mem_map_of_mem (f := (·.1)) hitem)
      exact htree _ hentry _ (by simp)
    · cases hinside
  cases item.2 with
  | file content =>
    dsimp only
    rw [snd_bind_pure]
    exact hsave _ _ v hname hv
  | directory => exact hv

/-- What a download puts into an empty scratch directory. -/
theorem save_emptied {scratch : Scratch} {w : World ρ} {name : String}
    (h : scratch.IsReady w.disk) (hempty : w.disk.emptied scratch.location = w.disk)
    (hname : isFileName name = true) (content : List UInt8) :
    save scratch.path name content w = match Disk.place scratch.location name with
      | .ok loc => (.ok (), { w with disk := w.disk.withFile loc content })
      | .error fault => (.error fault.toError, w) := by
  have hwrite := h.writeFile_emptied hname content
  rw [hempty] at hwrite
  rw [save, Action.change_apply, hwrite]
  cases Disk.place scratch.location name <;> rfl

variable {scratch : Scratch} {name : String} {w : World ρ}

/-- A file of a folder is put into a directory that is ready. -/
theorem save_fills (h : scratch.IsReady w.disk) (hname : isFileName name = true)
    (content : List UInt8) : scratch.IsReady (save scratch.path name content w).2.disk ∧
      w.disk.Keeps (¬ scratch.location <+: ·) (save scratch.path name content w).2.disk := by
  simp only [save, Action.change_apply]
  cases hwrite : w.disk.writeFile (join scratch.path name) content with
  | error fault => exact ⟨h, .refl w.disk⟩
  | ok disk => exact h.writeFile_fills hname hwrite

/-- A folder is copied into a directory that is ready. -/
theorem downloadDirectory_fills (faults : List StoreFault)
    (htree : ∀ entry ∈ tree.entries, ∀ name ∈ entry.1, isFileName name = true) (dir : RemotePath)
    (h : scratch.IsReady w.disk) :
    w.disk.Fills scratch.location
        ((memoryStore tree faults).downloadDirectory dir scratch.path w).2.disk ∧
      ((memoryStore tree faults).downloadDirectory dir scratch.path w).2.disk.tree.IsClosed := by
  have hprepare (v : World ρ) (hv : scratch.IsReady v.disk ∧
      w.disk.Keeps (¬ scratch.location <+: ·) v.disk) :
      scratch.IsReady (prepare scratch.path v).2.disk ∧
        w.disk.Keeps (¬ scratch.location <+: ·) (prepare scratch.path v).2.disk := by
    simp only [prepare, Action.change_apply, hv.1.makeDirectories_eq]
    exact hv
  obtain ⟨hready, hkeeps⟩ : scratch.IsReady
        ((memoryStore tree faults).downloadDirectory dir scratch.path w).2.disk ∧
      w.disk.Keeps (¬ scratch.location <+: ·)
        ((memoryStore tree faults).downloadDirectory dir scratch.path w).2.disk := by
    refine downloadDirectory_preserves faults htree hprepare (fun name content v hname hv ↦ ?_)
      ⟨h, .refl w.disk⟩
    obtain ⟨hsaved, hkept⟩ := save_fills hv.1 hname content
    exact ⟨hsaved, hv.2.trans hkept⟩
  exact ⟨⟨hready.isProper, hkeeps⟩, hready.isClosed⟩

theorem downloadDirectory_outside (faults : List StoreFault)
    (htree : ∀ entry ∈ tree.entries, ∀ name ∈ entry.1, isFileName name = true) (dir : RemotePath)
    (path : String) (w : World ρ) :
    ((memoryStore tree faults).downloadDirectory dir path w).2.outside = w.outside := by
  refine downloadDirectory_preserves (P := fun v ↦ v.outside = w.outside) faults htree
    (fun v hv ↦ ?_) (fun name content v _ hv ↦ ?_) rfl
  · simp only [prepare, Action.change_apply]
    split <;> exact hv
  · simp only [save, Action.change_apply]
    split <;> exact hv

/-- What a download answers, and what it puts into an empty scratch directory. -/
theorem exists_downloadFile (tree : Tree) (faults : List StoreFault) (dir : RemotePath)
    (scratch : Scratch) (hname : isFileName name = true) :
    ∃ result saved, ∀ w : World ρ, scratch.IsReady w.disk →
      w.disk.emptied scratch.location = w.disk →
        ((memoryStore tree faults).downloadFile dir name scratch.path w).1 = result ∧
        ((memoryStore tree faults).downloadFile dir name scratch.path w).2.outside = w.outside ∧
        ((memoryStore tree faults).downloadFile dir name scratch.path w).2.disk.tree.get?
          (scratch.location ++ [name]) = saved := by
  have hnone {v : World ρ} (hvoid : v.disk.emptied scratch.location = v.disk) :
      v.disk.tree.get? (scratch.location ++ [name]) = none := by
    rw [← hvoid, Disk.emptied, Tree.get?_emptied, Location.isBelow_append _ (by simp)]
    rfl
  simp only [memoryStore]
  rcases guarded_eq faults "download_file" (dir.join name) (ρ := ρ) _ with ⟨error, hfails⟩ | hruns
  · rw [hfails]
    exact ⟨.error error, none, fun w h hvoid ↦ ⟨rfl, rfl, hnone hvoid⟩⟩
  rw [hruns]
  simp only [bind_apply, Action.ofExcept]
  cases MemoryStore.content tree dir name with
  | error error => exact ⟨.error error, none, fun w h hvoid ↦ ⟨rfl, rfl, hnone hvoid⟩⟩
  | ok content =>
  cases hplace : Disk.place scratch.location name with
  | error fault =>
    refine ⟨.error fault.toError, none, fun w h hvoid ↦ ?_⟩
    simp only [prepare, Action.change_apply, h.makeDirectories_eq, save_emptied h hvoid hname,
      hplace]
    exact ⟨trivial, trivial, hnone hvoid⟩
  | ok loc =>
    refine ⟨.ok (join scratch.path name), some (.file content), fun w h hvoid ↦ ?_⟩
    simp only [prepare, Action.change_apply, h.makeDirectories_eq, save_emptied h hvoid hname,
      hplace]
    rw [Disk.place_eq hplace]
    exact ⟨rfl, rfl, Tree.get?_put (by simp)⟩

end MemoryStore

/-- The local disk has no bearing on the store in memory, if the names in its tree are names of
files. -/
theorem isAloof_memoryStore {tree : Tree} (faults : List StoreFault)
    (htree : ∀ entry ∈ tree.entries, ∀ name ∈ entry.1, isFileName name = true) (scratch : Scratch)
    (Q : ρ → ρ → Prop) : (memoryStore tree faults : Store ρ).IsAloof scratch Q where
  toKeepsTo := keepsTo_memoryStore faults
    (fun entry hentry name hname ↦ slash_notMem (htree entry hentry name hname)) scratch
  stays dir w h := by
    obtain ⟨result, hresult⟩ := MemoryStore.exists_guarded_ofExcept (ρ := ρ) faults
      "list_directories" dir (MemoryStore.names tree true dir)
    simp only [memoryStore, hresult]
    rfl
  files dir w w' h h' hQ := by
    obtain ⟨result, hresult⟩ := MemoryStore.exists_guarded_ofExcept (ρ := ρ) faults "list_files" dir
      (MemoryStore.names tree false dir)
    simp only [memoryStore, hresult]
    exact ⟨rfl, hQ⟩
  directories dir w w' h h' hQ := by
    obtain ⟨result, hresult⟩ := MemoryStore.exists_guarded_ofExcept (ρ := ρ) faults
      "list_directories" dir (MemoryStore.names tree true dir)
    simp only [memoryStore, hresult]
    exact ⟨rfl, hQ⟩
  file dir name w w' h h' hempty hempty' hname hQ := by
    obtain ⟨result, saved, hall⟩ :=
      MemoryStore.exists_downloadFile (ρ := ρ) tree faults dir scratch hname
    obtain ⟨hresult, houtside, hsaved⟩ := hall w h hempty
    obtain ⟨hresult', houtside', hsaved'⟩ := hall w' h' hempty'
    rw [hresult, hresult', hsaved, hsaved', houtside, houtside']
    exact ⟨rfl, rfl, hQ⟩
  fills dir staging w h := MemoryStore.downloadDirectory_fills faults htree dir h
  unnoticed dir path w w' hQ := by
    rwa [MemoryStore.downloadDirectory_outside faults htree]

end FolderCommands
