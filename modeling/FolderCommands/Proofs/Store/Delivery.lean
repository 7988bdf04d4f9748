import FolderCommands.Proofs.Store.Containment
import FolderCommands.Proofs.Store.Listing

/-!
# What a download of a folder delivers

Files that are copied from one directory into another have their contents there, and nothing else
changes. So a store below a local directory puts the files of a folder, with their contents, into
the directory that it downloads into, and no other file.
-/

namespace FolderCommands

open CommandLine LocalPath

/-- The content of the file with a name in a directory, if there is one. -/
def Tree.file? (t : Tree) (loc : Location) (name : String) : Option (List UInt8) :=
  match t.get? (loc ++ [name]) with
  | some (.file content) => some content
  | _ => none

theorem Tree.file?_eq_some {t : Tree} {loc : Location} {name : String} {content : List UInt8} :
    t.file? loc name = some content ↔ t.get? (loc ++ [name]) = some (.file content) := by
  rw [file?]
  split
  · rename_i found hfound
    rw [hfound, Option.some.injEq, Option.some.injEq, Entry.file.injEq]
  · rename_i hother
    exact ⟨nofun, fun h ↦ (hother content h).elim⟩

/-! ## Copying files -/

namespace Disk

variable {d d' : Disk} {source target : String} {names : List String}

/-- Copies files from one directory into another. -/
def copyFiles (source target : String) (names : List String) (d : Disk) : Result Disk :=
  names.foldlM (fun d name ↦ d.copyFile (join source name) (join target name)) d

theorem exists_of_copyFile (h : d.copyFile source target = .ok d') :
    d.tree.get? (locate d.workingDirectory target) ≠ some .directory ∧
      ∃ content, d.tree.get? (locate d.workingDirectory source) = some (.file content) ∧
        d'.tree.get? (locate d.workingDirectory target) = some (.file content) := by
  obtain ⟨⟨place, e⟩, hentry, hwrite⟩ := Yaml.exists_of_bind_ok h
  obtain ⟨hresolve, hget⟩ := resolve_of_entry hentry
  cases e with
  | directory => cases hwrite
  | file content =>
    obtain ⟨there, hthere, hput⟩ := Yaml.exists_of_bind_ok hwrite
    split at hput
    · cases hput
    · rename_i hfile
      cases hput
      rw [← resolve_eq hresolve, ← resolve_eq hthere]
      refine ⟨fun hdirectory ↦ hfile (by rw [Tree.isDirectory, hdirectory]; rfl), content, hget,
        Tree.get?_put ?_⟩
      rintro rfl
      exact hfile rfl

/-- What it is for the files with some names to have been copied from one directory into another. -/
structure Copies (origin place : Location) (names : List String) (d d' : Disk) : Prop where
  keeps : d.Keeps (fun loc ↦ ∀ name ∈ names, loc ≠ place ++ [name]) d'
  notDirectory : ∀ name ∈ names, d.tree.get? (place ++ [name]) ≠ some .directory
  copied : ∀ name ∈ names, ∃ content, d.tree.get? (origin ++ [name]) = some (.file content) ∧
    d'.tree.get? (place ++ [name]) = some (.file content)

/-- No copy is made of a copy, as the directories are different. -/
theorem copyFiles_copies (hnames : ∀ name ∈ names, isFileName name = true)
    (hne : names ≠ [] → locate d.workingDirectory source ≠ locate d.workingDirectory target)
    (h : d.copyFiles source target names = .ok d') :
    Copies (locate d.workingDirectory source) (locate d.workingDirectory target) names d d' := by
  induction names generalizing d with
  | nil =>
    cases h
    exact ⟨.refl _, by simp, by simp⟩
  | cons name names ih =>
    obtain ⟨hname, hrest⟩ := List.forall_mem_cons.1 hnames
    replace hne := hne (List.cons_ne_nil _ _)
    rw [copyFiles, List.foldlM_cons] at h
    obtain ⟨first, hfirst, hothers⟩ := Yaml.exists_of_bind_ok h
    have hkeeps := copyFile_keeps hfirst
    obtain ⟨hfree, content, hsource, htarget⟩ := exists_of_copyFile hfirst
    rw [locate_join_name _ _ hname] at hkeeps hfree hsource htarget
    have hcopies := ih (d := first) hrest (fun _ ↦ by rwa [hkeeps.workingDirectory]) hothers
    rw [hkeeps.workingDirectory] at hcopies
    refine ⟨?_, List.forall_mem_cons.2 ⟨hfree, fun other hother ↦ ?_⟩, ?_⟩
    · apply Keeps.trans
      · exact hkeeps.mono fun loc hloc ↦ hloc name List.mem_cons_self
      · exact hcopies.keeps.mono fun loc hloc other hother ↦
          hloc other (List.mem_cons_of_mem _ hother)
    · by_cases hsame : other = name
      · rwa [hsame]
      · rw [← hkeeps.get? (locate d.workingDirectory target ++ [other]) (by simpa using hsame)]
        exact hcopies.notDirectory other hother
    · have hcopied : ∀ other ∈ names, ∃ content,
          d.tree.get? (locate d.workingDirectory source ++ [other]) = some (.file content) ∧
            d'.tree.get? (locate d.workingDirectory target ++ [other]) = some (.file content) := by
        intro other hother
        obtain ⟨content, hbefore, hafter⟩ := hcopies.copied other hother
        rw [hkeeps.get? (locate d.workingDirectory source ++ [other]) fun hsame ↦
          hne (List.append_inj_left' hsame rfl)] at hbefore
        exact ⟨content, hbefore, hafter⟩
      refine List.forall_mem_cons.2 ⟨?_, hcopied⟩
      by_cases hagain : name ∈ names
      · exact hcopied name hagain
      · refine ⟨content, hsource, ?_⟩
        rw [hcopies.keeps.get? _ ?_, htarget]
        rintro other hother hsame
        obtain rfl : name = other := by simpa using hsame
        exact hagain hother

/-- A loop that copies files has copied them all if it succeeds. -/
theorem copyFiles_of_loop {ρ : Type} {w w' : World ρ} {copy : List String → Action ρ Unit}
    {wrap : String → FileFault → Error} (hnil : copy [] = pure ())
    (hcons : ∀ name rest, copy (name :: rest) = do
      Action.change (·.copyFile (join source name) (join target name)) (wrap name)
      copy rest)
    (h : copy names w = (.ok (), w')) : w.disk.copyFiles source target names = .ok w'.disk := by
  induction names generalizing w with
  | nil =>
    rw [hnil] at h
    cases h
    rfl
  | cons name names ih =>
    rw [hcons] at h
    obtain ⟨_, _, hchange, hrest⟩ := exists_of_bind_eq_ok h
    obtain ⟨disk, hcopy, rfl⟩ := Action.exists_of_change hchange
    rw [copyFiles, List.foldlM_cons, hcopy]
    exact ih hrest

/-- Whether just some files have been put into the directory at `place`, and nothing else has
changed. -/
structure Receives (place : Location) (files : String → Option (List UInt8)) (d d' : Disk) : Prop
    extends d.Fills place d' where
  isClosed : d'.tree.IsClosed
  get?_iff (name : String) (content : List UInt8) :
    d'.tree.get? (place ++ [name]) = some (.file content) ↔ files name = some content

end Disk

variable {ρ : Type}

/-- Whether a store that downloads a folder into a directory delivers just some files. -/
def Store.Delivers (store : Store ρ) (folder : RemotePath) (files : String → Option (List UInt8))
    (staging : Scratch) (w : World ρ) : Prop :=
  ∀ w', store.downloadDirectory folder staging.path w = (.ok (), w') →
    w.disk.Receives staging.location files w'.disk

/-! ## The store below a local directory -/

namespace DirectoryStore

variable {root : String} {dir : RemotePath} {names : List String} {w : World ρ}

/-- The files that a listing has are directly inside the folder, and no file there is left out. -/
theorem mem_names {d : Disk} (h : DirectoryStore.names root false dir d = .ok names)
    (name : String) :
    (name ∈ names → (d.tree.get? (locate d.workingDirectory (place root dir) ++ [name])).isSome) ∧
    ∀ content, d.tree.get? (locate d.workingDirectory (place root dir) ++ [name]) =
      some (.file content) → name ∈ names := by
  rw [DirectoryStore.names] at h
  obtain ⟨entries, hread, hlist⟩ := Yaml.exists_of_map_ok h
  obtain ⟨loc, hresolve, -, rfl⟩ := Disk.exists_of_readDirectory hread
  rw [← Disk.resolve_eq hresolve, ← hlist, List.mem_mergeSort]
  constructor
  · intro hname
    obtain ⟨⟨_, e⟩, hmem, rfl⟩ := List.mem_map.1 hname
    exact Tree.isSome_get?_of_mem (Tree.mem_children.1 (List.mem_filter.1 hmem).1)
  · intro content hcontent
    exact List.mem_map.2 ⟨(name, .file content),
      List.mem_filter.2 ⟨Tree.mem_children_of_get? hcontent, rfl⟩, rfl⟩

/-- What a store below a local directory delivers are the files of the folder. -/
theorem delivers {staging : Scratch} (h : staging.IsReady w.disk)
    (hempty : ∀ name, w.disk.tree.get? (staging.location ++ [name]) = none) :
    (directoryStore root).Delivers dir
      (w.disk.tree.file? (locate w.disk.workingDirectory (place root dir))) staging w := by
  intro w' hdownload
  obtain ⟨hfills, hclosed⟩ := (isContained_directoryStore root staging).fills dir staging w h
  rw [hdownload] at hfills hclosed
  refine ⟨hfills, hclosed, fun name content ↦ ?_⟩
  rw [Tree.file?_eq_some]
  simp only [directoryStore, bind_apply, Action.change_apply, h.makeDirectories_eq,
    Action.look] at hdownload
  cases hread : DirectoryStore.names root false dir w.disk with
  | error fault =>
    rw [hread] at hdownload
    cases hdownload
  | ok names =>
    rw [hread] at hdownload
    have hlocation := Disk.resolve_eq h.resolve
    -- a staging directory that is itself the folder has no files to copy
    have hne : names ≠ [] → locate w.disk.workingDirectory (place root dir) ≠
        locate w.disk.workingDirectory staging.path := by
      intro hsome hsame
      obtain ⟨name, hname⟩ := List.exists_mem_of_ne_nil names hsome
      have hthere := (mem_names hread name).1 hname
      rw [hsame, ← hlocation, hempty] at hthere
      cases hthere
    have hcopies := Disk.copyFiles_copies (isFileName_of_names h.isProper hread) hne
      (Disk.copyFiles_of_loop rfl (fun _ _ ↦ rfl) hdownload)
    rw [← hlocation] at hcopies
    constructor
    · intro hafter
      by_cases hname : name ∈ names
      · obtain ⟨copy, hbefore, hcopy⟩ := hcopies.copied name hname
        cases hcopy.symm.trans hafter
        exact hbefore
      · have hkept := hcopies.keeps.get? (staging.location ++ [name]) fun other hother hsame ↦
          hname (by rwa [show name = other by simpa using hsame])
        rw [hafter, hempty] at hkept
        cases hkept
    · intro hbefore
      obtain ⟨copy, hcopied, hafter⟩ := hcopies.copied name ((mem_names hread name).2 _ hbefore)
      cases hcopied.symm.trans hbefore
      exact hafter

end DirectoryStore

end FolderCommands
