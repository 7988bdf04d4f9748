import FolderCommands.Proofs.Run.Memory
import FolderCommands.Proofs.Store.Saving

/-!
# Every manifest is fetched afresh

All manifests of a run go through one scratch directory. It is emptied before each fetch, so what
earlier fetches have left there, and whatever else has been put there, has no part in the next one:
neither in what it comes to nor in what it leaves. This takes a store that keeps off the local disk,
but for the file that it downloads.
-/

namespace FolderCommands

open LocalPath

/-! ## What is left in a scratch directory -/

namespace Tree

variable {t : Tree} {loc : Location}

theorem below_eq_nil (h : ∀ entry ∈ t.entries, Location.isBelow entry.1 loc = false) :
    t.below loc = [] := by
  rw [below, List.filterMap_eq_nil_iff]
  rintro ⟨place, e⟩ hmem
  have hbelow := h _ hmem
  rw [Location.isBelow] at hbelow
  dsimp only at hbelow ⊢
  rw [if_neg (by rw [hbelow]; simp)]

theorem below_emptied (t : Tree) (loc : Location) : (t.emptied loc).below loc = [] := by
  apply below_eq_nil
  intro entry hmem
  simpa using (List.mem_filter.1 hmem).2

theorem putInto_of_notMem {entries : List (Location × Entry)} {e : Entry}
    (h : ∀ entry ∈ entries, entry.1 ≠ loc) : putInto loc e entries = entries ++ [(loc, e)] := by
  induction entries with
  | nil => rfl
  | cons entry entries ih =>
    obtain ⟨hentry, hrest⟩ := List.forall_mem_cons.1 h
    rw [putInto, if_neg hentry, ih hrest, List.cons_append]

theorem below_put_emptied (t : Tree) (loc : Location) (name : String) (e : Entry) :
    ((t.emptied loc).put (loc ++ [name]) e).below loc = [([name], e)] := by
  have hbelow : ∀ entry ∈ (t.emptied loc).entries, Location.isBelow entry.1 loc = false :=
    fun entry hmem ↦ by simpa using (List.mem_filter.1 hmem).2
  have hnot : ∀ entry ∈ (t.emptied loc).entries, entry.1 ≠ loc ++ [name] := by
    intro entry hmem heq
    have := hbelow entry hmem
    rw [heq, Location.isBelow_append loc (by simp)] at this
    cases this
  rw [put, if_neg (by simp), putInto_of_notMem hnot, below, List.filterMap_append]
  have hempty := below_emptied t loc
  rw [below] at hempty
  rw [hempty]
  simp

end Tree

theorem Disk.exists_of_readText {d : Disk} {path text : String} (h : d.readText path = .ok text) :
    ∃ loc content, d.resolve path = .ok loc ∧ d.tree.get? loc = some (.file content) ∧
      Text.decode? content = some text := by
  obtain ⟨content, hfile, hdecode⟩ := Yaml.exists_of_bind_ok h
  obtain ⟨⟨loc, e⟩, hentry, he⟩ := Yaml.exists_of_bind_ok hfile
  obtain ⟨hresolve, hget⟩ := resolve_of_entry hentry
  cases e with
  | directory => cases he
  | file bytes =>
    cases he
    refine ⟨loc, content, hresolve, hget, ?_⟩
    split at hdecode
    · cases hdecode
      assumption
    · cases hdecode

/-- Whether a scratch directory is empty or has a single file of that name. -/
def Scratch.HoldsAtMost (scratch : Scratch) (name : String) (d : Disk) : Prop :=
  d.tree.below scratch.location = [] ∨
    ∃ content, d.tree.below scratch.location = [([name], .file content)]

/-- A world but for what is in a scratch directory. -/
def World.around {ρ : Type} (w : World ρ) (scratch : Scratch) : World ρ :=
  { w with disk := w.disk.emptied scratch.location }

namespace Manifest

variable {ρ : Type} {store : Store ρ} {scratch : Scratch} {w : World ρ} {folder : RemotePath}
  {mark : String}

theorem isFileName_fileName (h : '/' ∉ (fileName mark).toList) :
    isFileName (fileName mark) = true := by
  have hlast : (fileName mark).toList.getLast? = some 't' := by
    rw [fileName, String.toList_append, List.getLast?_append]
    rfl
  have hne {name : String} (hname : name.toList.getLast? ≠ some 't') : fileName mark ≠ name := by
    rintro rfl
    exact hname hlast
  rw [isFileName, decide_eq_true (hne (by decide)), decide_eq_true (hne (by decide)),
    decide_eq_true (hne (by decide))]
  simpa using h

/-- The scratch directory is emptied first. -/
theorem clear_apply (h : scratch.IsReady w.disk) :
    (Inquiry.act (Action.change (·.clearDirectory scratch.path) FileFault.toError))
      { world := w } = (.ok (), ({ world := w.around scratch } : Inquired ρ)) := by
  simp only [Inquiry.act, Action.change_apply, h.clearDirectory_eq]
  rfl

theorem around_around (w : World ρ) (scratch : Scratch) :
    (w.around scratch).around scratch = w.around scratch := by
  simp only [World.around, Disk.emptied, Tree.emptied_emptied]

/-- What is in the scratch directory is of no account for a fetch. -/
theorem fetchText_around (store : Store ρ) (h : scratch.IsReady w.disk) (folder : RemotePath)
    (mark : String) : fetchText store scratch.path folder mark { world := w } =
      fetchText store scratch.path folder mark { world := w.around scratch } := by
  simp only [fetchText, bind_apply, clear_apply h,
    clear_apply (w := w.around scratch) h.emptied, around_around]

theorem load_around (store : Store ρ) (h : scratch.IsReady w.disk) (folder : RemotePath)
    (mark : String) : load store scratch.path folder mark { world := w } =
      load store scratch.path folder mark { world := w.around scratch } := by
  simp only [load, bind_apply, fetchText_around store h]

/-- Directories are made up to the root, and a scratch directory in there. -/
theorem exists_of_openScratch {root : String} {w' : World ρ}
    (h : openScratch root w = (.ok scratch, w')) :
    ∃ disk disk', w.disk.makeDirectories root = .ok disk ∧
      disk.makeScratch root "cmd" = .ok (scratch, disk') ∧ w' = { w with disk := disk' } := by
  obtain ⟨_, _, hchange, hupdate⟩ := exists_of_bind_eq_ok h
  obtain ⟨disk, hdirectories, rfl⟩ := Action.exists_of_change hchange
  obtain ⟨disk', hmake, rfl⟩ := Action.exists_of_update hupdate
  exact ⟨disk, disk', hdirectories, hmake, rfl⟩

/-- A scratch directory that has been made for manifests is ready. -/
theorem isReady_openScratch {root : String} {w' : World ρ} (hsound : w.disk.IsSound)
    (h : openScratch root w = (.ok scratch, w')) (hfit : IsFit scratch.path) :
    scratch.IsReady w'.disk := by
  obtain ⟨disk, disk', hdirectories, hmake, rfl⟩ := exists_of_openScratch h
  have hdisk := (Disk.makeDirectories_grows hsound hdirectories).isSound hsound
  exact Scratch.isReady_of_makeScratch hdisk.isClosed hdisk.isProper (by decide) hmake hfit

/-! ## One fetch -/

/-- The world in which a fetch has listed the files of its folder. -/
def listed (store : Store ρ) (scratch : Scratch) (folder : RemotePath) (w : World ρ) : World ρ :=
  (store.listFiles folder (w.around scratch)).2

/-- How a fetch comes out: without a download, or by what it has downloaded. -/
inductive Fetches (store : Store ρ) (scratch : Scratch) (folder : RemotePath) (mark : String)
    (w : World ρ) : Except Error String → World ρ → Prop
  | failed (error : Error) :
      Fetches store scratch folder mark w (.error error) (listed store scratch folder w)
  | downloaded {result : Except Error String} (hname : isFileName (fileName mark) = true)
      (htext : ∀ text, result = .ok text → ∃ path,
        (store.downloadFile folder (fileName mark) scratch.path
          (listed store scratch folder w)).1 = .ok path ∧
        (store.downloadFile folder (fileName mark) scratch.path
          (listed store scratch folder w)).2.disk.readText path = .ok text) :
      Fetches store scratch folder mark w result
        (store.downloadFile folder (fileName mark) scratch.path (listed store scratch folder w)).2

theorem Fetches.unread (hname : isFileName (fileName mark) = true) (error : Error) :
    Fetches store scratch folder mark w (.error error)
      (store.downloadFile folder (fileName mark) scratch.path (listed store scratch folder w)).2 := by
  apply Fetches.downloaded hname
  rintro text ⟨⟩

theorem fetches_fetchText (hstore : store.KeepsTo scratch) (h : scratch.IsReady w.disk)
    (folder : RemotePath) (mark : String) :
    Fetches store scratch folder mark w
      (fetchText store scratch.path folder mark { world := w }).1
      (fetchText store scratch.path folder mark { world := w }).2.world := by
  have hnames := hstore.names folder (w.around scratch) h.emptied
  simp only [fetchText, bind_apply, clear_apply h, Store.askFiles, Inquiry.ask]
  rcases hlist : store.listFiles folder (w.around scratch) with ⟨error | names, w'⟩
  · have hworld : w' = listed store scratch folder w := by rw [listed, hlist]
    subst hworld
    exact .failed error
  have hworld : w' = listed store scratch folder w := by rw [listed, hlist]
  subst hworld
  rw [hlist] at hnames
  dsimp only
  split
  swap
  · exact .failed _
  rename_i hcontains
  have hname := isFileName_fileName (hnames names rfl _ (List.contains_iff_mem.1 hcontains))
  simp only [download, bind_apply, Store.askFile, Inquiry.ask]
  rcases hsave : store.downloadFile folder (fileName mark) scratch.path
    (listed store scratch folder w) with ⟨error | path, saved⟩
  · have hsaved : saved = (store.downloadFile folder (fileName mark) scratch.path
        (listed store scratch folder w)).2 := by rw [hsave]
    rw [hsaved]
    exact .unread hname _
  have hsaved : saved = (store.downloadFile folder (fileName mark) scratch.path
      (listed store scratch folder w)).2 := by rw [hsave]
  rw [hsaved]
  simp only [Inquiry.act, Action.look]
  cases hread : (store.downloadFile folder (fileName mark) scratch.path
    (listed store scratch folder w)).2.disk.readText path with
  | error fault => exact .unread hname _
  | ok text =>
    simp only [Except.mapError]
    split
    · exact .unread hname _
    · refine .downloaded hname fun text htext ↦ ⟨path, by rw [hsave], ?_⟩
      cases htext
      exact hread

theorem disk_listed (hstore : store.KeepsTo scratch) (h : scratch.IsReady w.disk)
    (folder : RemotePath) :
    (listed store scratch folder w).disk = w.disk.emptied scratch.location :=
  hstore.lists folder (w.around scratch) h.emptied

theorem isReady_listed (hstore : store.KeepsTo scratch) (h : scratch.IsReady w.disk)
    (folder : RemotePath) : scratch.IsReady (listed store scratch folder w).disk := by
  rw [disk_listed hstore h]
  exact h.emptied

theorem emptied_listed (hstore : store.KeepsTo scratch) (h : scratch.IsReady w.disk)
    (folder : RemotePath) : (listed store scratch folder w).disk.emptied scratch.location =
      (listed store scratch folder w).disk := by
  rw [disk_listed hstore h, Disk.emptied, Disk.emptied, Tree.emptied_emptied]

/-- What a fetch leaves on the disk. -/
theorem disk_fetchText (hstore : store.KeepsTo scratch) (h : scratch.IsReady w.disk)
    (folder : RemotePath) (mark : String) :
    let disk := (fetchText store scratch.path folder mark { world := w }).2.world.disk
    disk = w.disk.emptied scratch.location ∨ isFileName (fileName mark) = true ∧ ∃ content,
      disk = (w.disk.emptied scratch.location).withFile (scratch.location ++ [fileName mark])
        content := by
  have hlisted := disk_listed hstore h folder
  have hready := isReady_listed hstore h folder
  have hfetches := fetches_fetchText hstore h folder mark
  dsimp only
  generalize (fetchText store scratch.path folder mark { world := w }).1 = result,
    (fetchText store scratch.path folder mark { world := w }).2.world = after at hfetches ⊢
  cases hfetches with
  | failed error => exact .inl hlisted
  | downloaded hname htext =>
    have hsaves := hstore.saves folder (fileName mark) _ hready (emptied_listed hstore h folder)
      hname
    rw [hlisted] at hsaves
    exact hsaves.imp_right fun hcontent ↦ ⟨hname, hcontent⟩

theorem load_world (store : Store ρ) (scratch : Scratch) (folder : RemotePath) (mark : String)
    (w : World ρ) : (load store scratch.path folder mark { world := w }).2.world =
      (fetchText store scratch.path folder mark { world := w }).2.world := by
  simp only [load, bind_apply]
  rcases fetchText store scratch.path folder mark { world := w } with ⟨error | text, after⟩ <;> rfl

theorem isReady_fetchText (hstore : store.KeepsTo scratch) (h : scratch.IsReady w.disk)
    (folder : RemotePath) (mark : String) :
    scratch.IsReady (fetchText store scratch.path folder mark { world := w }).2.world.disk := by
  rcases disk_fetchText hstore h folder mark with hdisk | ⟨hname, content, hdisk⟩
  · rw [hdisk]
    exact h.emptied
  · rw [hdisk]
    exact h.withFile hname content

theorem holdsAtMost_fetchText (hstore : store.KeepsTo scratch) (h : scratch.IsReady w.disk)
    (folder : RemotePath) (mark : String) : scratch.HoldsAtMost (fileName mark)
      (fetchText store scratch.path folder mark { world := w }).2.world.disk := by
  rcases disk_fetchText hstore h folder mark with hdisk | ⟨-, content, hdisk⟩
  · rw [hdisk]
    exact .inl (Tree.below_emptied _ _)
  · rw [hdisk]
    exact .inr ⟨content, Tree.below_put_emptied _ _ _ _⟩

/-- A fetch leaves alone what is around the scratch directory. -/
theorem emptied_fetchText (hstore : store.KeepsTo scratch) (h : scratch.IsReady w.disk)
    (folder : RemotePath) (mark : String) :
    (fetchText store scratch.path folder mark { world := w }).2.world.disk.emptied
      scratch.location = w.disk.emptied scratch.location := by
  rcases disk_fetchText hstore h folder mark with hdisk | ⟨-, content, hdisk⟩
  · rw [hdisk, Disk.emptied, Disk.emptied, Tree.emptied_emptied]
  · rw [hdisk, Scratch.IsReady.emptied_withFile]

/-- Whether a text is that of the file that a fetch has just put into an empty directory. -/
def Delivers (store : Store ρ) (scratch : Scratch) (folder : RemotePath) (mark : String)
    (w : World ρ) (text : String) : Prop :=
  (listed store scratch folder w).disk.tree.below scratch.location = [] ∧ ∃ content,
    (store.downloadFile folder (fileName mark) scratch.path
      (listed store scratch folder w)).2.disk.tree.below scratch.location =
        [([fileName mark], .file content)] ∧ Text.decode? content = some text

theorem delivers_fetchText (hstore : store.KeepsTo scratch) (h : scratch.IsReady w.disk)
    {text : String} (htext : (fetchText store scratch.path folder mark { world := w }).1 = .ok text) :
    Delivers store scratch folder mark w text := by
  have hlisted := disk_listed hstore h folder
  have hready := isReady_listed hstore h folder
  have hfetches := fetches_fetchText hstore h folder mark
  rw [htext] at hfetches
  generalize (fetchText store scratch.path folder mark { world := w }).2.world = after at hfetches
  cases hfetches with
  | downloaded hname hread =>
    obtain ⟨path, hpath, hread⟩ := hread text rfl
    have hplace := hstore.path folder (fileName mark) _ hready
      (emptied_listed hstore h folder) hname path hpath
    refine ⟨by rw [hlisted]; exact Tree.below_emptied _ _, ?_⟩
    obtain ⟨loc, content, hloc, hfile, hdecode⟩ := Disk.exists_of_readText hread
    have hsaves := hstore.saves folder (fileName mark) _ hready (emptied_listed hstore h folder)
      hname
    rw [hlisted] at hsaves
    rw [hplace] at hloc
    rcases hsaves with hdisk | ⟨content', hdisk⟩
    · rw [hdisk] at hloc hfile
      rw [h.emptied.resolve_join hname] at hloc
      rw [Disk.place_eq hloc, Disk.emptied, Tree.get?_emptied,
        Location.isBelow_append _ (by simp)] at hfile
      cases hfile
    · rw [hdisk] at hloc hfile
      rw [(h.withFile hname content').resolve_join hname] at hloc
      rw [Disk.place_eq hloc, Disk.withFile, Tree.get?_put (by simp)] at hfile
      cases hfile
      rw [hdisk]
      exact ⟨content, Tree.below_put_emptied _ _ _ _, hdecode⟩

/-! ## Histories -/

end Manifest

open Manifest

/-- What may happen to a scratch directory that is in use. -/
inductive Scratch.Step {ρ : Type} (scratch : Scratch) : World ρ → World ρ → Prop
  | fetched (store : Store ρ) (hstore : store.KeepsTo scratch) (folder : RemotePath)
      (mark : String) (w : World ρ) :
      Step scratch w (fetchText store scratch.path folder mark { world := w }).2.world
  | loaded (store : Store ρ) (hstore : store.KeepsTo scratch) (folder : RemotePath)
      (mark : String) (w : World ρ) :
      Step scratch w (load store scratch.path folder mark { world := w }).2.world
  /-- Files and directories come to be in it, or are gone. -/
  | littered {w w' : World ρ} (hsound : w'.disk.IsSound)
      (haround : w'.around scratch = w.around scratch) : Step scratch w w'
  /-- Something changes elsewhere, on the disk or outside of it. -/
  | elsewhere {w w' : World ρ} (hready : scratch.IsReady w'.disk)
      (hinside : w'.disk.tree.below scratch.location = w.disk.tree.below scratch.location) :
      Step scratch w w'

/-- A history of a scratch directory. -/
def Scratch.Past {ρ : Type} (scratch : Scratch) : World ρ → World ρ → Prop :=
  Relation.ReflTransGen scratch.Step

theorem Scratch.Step.isReady {ρ : Type} {scratch : Scratch} {w w' : World ρ}
    (h : scratch.Step w w') (hw : scratch.IsReady w.disk) : scratch.IsReady w'.disk := by
  cases h with
  | fetched store hstore folder mark => exact isReady_fetchText hstore hw folder mark
  | loaded store hstore folder mark =>
    rw [load_world]
    exact isReady_fetchText hstore hw folder mark
  | littered hsound haround =>
    exact hw.of_emptied_eq (congrArg World.disk haround) hsound.isClosed hsound.isProper
  | elsewhere hready hinside => exact hready

theorem Scratch.Past.isReady {ρ : Type} {scratch : Scratch} {w w' : World ρ}
    (h : scratch.Past w w') (hw : scratch.IsReady w.disk) : scratch.IsReady w'.disk := by
  induction h with
  | refl => exact hw
  | tail h hstep ih => exact hstep.isReady ih

/-- A fetch and a load come to the same after all histories that leave the same around the scratch
directory, and leave the same in it: nothing, or the file of the manifest. A text that is fetched is
that of the file that has been downloaded for it. -/
theorem Manifest.load_eq_of_past {ρ : Type} {store : Store ρ} {scratch : Scratch}
    (hstore : store.KeepsTo scratch) {w₁ w₁' w₂ w₂' : World ρ}
    (h₁ : scratch.IsReady w₁.disk) (h₂ : scratch.IsReady w₂.disk)
    (hpast₁ : scratch.Past w₁ w₁') (hpast₂ : scratch.Past w₂ w₂')
    (haround : w₁'.around scratch = w₂'.around scratch) (folder : RemotePath) (mark : String) :
    fetchText store scratch.path folder mark { world := w₁' } =
        fetchText store scratch.path folder mark { world := w₂' } ∧
      load store scratch.path folder mark { world := w₁' } =
        load store scratch.path folder mark { world := w₂' } ∧
      scratch.HoldsAtMost (fileName mark)
        (fetchText store scratch.path folder mark { world := w₁' }).2.world.disk ∧
      scratch.HoldsAtMost (fileName mark)
        (load store scratch.path folder mark { world := w₁' }).2.world.disk ∧
      (∀ text, (fetchText store scratch.path folder mark { world := w₁' }).1 = .ok text →
        Delivers store scratch folder mark w₁' text) ∧
      ∀ manifest, (load store scratch.path folder mark { world := w₁' }).1 = .ok manifest →
        ∃ text, Delivers store scratch folder mark w₁' text ∧
          parse text folder.text = .ok manifest := by
  have hready₁ := hpast₁.isReady h₁
  have hready₂ := hpast₂.isReady h₂
  refine ⟨?_, ?_, holdsAtMost_fetchText hstore hready₁ folder mark, ?_,
    fun text htext ↦ delivers_fetchText hstore hready₁ htext, fun manifest hmanifest ↦ ?_⟩
  · rw [fetchText_around store hready₁, fetchText_around store hready₂, haround]
  · rw [load_around store hready₁, load_around store hready₂, haround]
  · rw [load_world]
    exact holdsAtMost_fetchText hstore hready₁ folder mark
  · obtain ⟨text, fetched, hfetch, hparse⟩ := exists_of_bind_eq_ok
      (Prod.ext hmanifest rfl : load store scratch.path folder mark { world := w₁' } =
        (.ok manifest, _))
    exact ⟨text, delivers_fetchText hstore hready₁ (congrArg Prod.fst hfetch),
      congrArg Prod.fst hparse⟩

/-- The store has a manifest in the folder `t`. -/
def storeWithManifest : Store Unit :=
  memoryStore (.ofManifests [(["t"], "command_set: top\n---\ncommand: identity\n")]) []

/-- The scratch directory after an earlier manifest, with directories and files inside it. -/
def World.withLitter : World Unit where
  disk := { tree := (((({} : Tree).put ["tmp"] .directory).put ["tmp", "commands.txt"]
    (.file (Text.encode "old"))).put ["tmp", "a"] .directory).put ["tmp", "a", "b"] (.file []) }
  outside := ()

theorem Manifest.load_eq_of_past_withLitter :
    fetchText storeWithManifest "/tmp" (.ofText "t") "" { world := .withScratch } =
        fetchText storeWithManifest "/tmp" (.ofText "t") "" { world := .withLitter } ∧
      ∀ text, (fetchText storeWithManifest "/tmp" (.ofText "t") "" { world := .withScratch }).1 =
          .ok text →
        Delivers storeWithManifest ⟨"/tmp", ["tmp"]⟩ (.ofText "t") "" .withScratch text := by
  let scratch : Scratch := ⟨"/tmp", ["tmp"]⟩
  have hstore : storeWithManifest.KeepsTo scratch :=
    keepsTo_memoryStore [] (by decide +kernel) scratch
  have hready : scratch.IsReady World.withScratch.disk :=
    ⟨by decide +kernel, rfl, Tree.isClosed_of_all (by decide +kernel),
      Disk.isProper_of_all (by decide +kernel) (by decide +kernel), by decide +kernel⟩
  have hpast : scratch.Past World.withScratch World.withLitter := by
    refine .tail (.single (.fetched storeWithManifest hstore (.ofText "t") "" _)) (.littered ?_ ?_)
    · exact ⟨Tree.isClosed_of_all (by decide +kernel),
        Disk.isProper_of_all (by decide +kernel) (by decide +kernel)⟩
    · have hdisk := emptied_fetchText hstore hready (.ofText "t") ""
      have hlitter : World.withLitter.disk.emptied scratch.location =
          World.withScratch.disk.emptied scratch.location := by
        decide +kernel
      rw [World.around, World.around, hdisk, hlitter]
  have hfetch := load_eq_of_past hstore hready hready .refl hpast rfl (.ofText "t") ""
  exact ⟨hfetch.1, hfetch.2.2.2.2.1⟩

end FolderCommands
