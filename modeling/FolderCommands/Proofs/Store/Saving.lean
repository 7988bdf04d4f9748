import FolderCommands.Proofs.Files.Growth
import FolderCommands.Proofs.Run.Worlds
import FolderCommands.Store.Directory
import FolderCommands.Store.Memory
import FolderCommands.Store.Rclone

/-!
# Stores keep off the local disk

A store lists the names of files, and puts a file that it downloads under its name into the
directory that it is given. Beyond that it leaves the local disk as it is. The stores in memory and
below a local directory are of this kind, and the one behind a tool is if the tool is.
-/

namespace FolderCommands

open LocalPath

/-- Whether a store keeps off the local disk, but for the file that it downloads: that one it puts
into the scratch directory, which is empty, under its name. What it lists are names. -/
structure Store.KeepsTo {ρ : Type} (store : Store ρ) (scratch : Scratch) : Prop where
  lists (dir : RemotePath) (w : World ρ) (h : scratch.IsReady w.disk) :
    (store.listFiles dir w).2.disk = w.disk
  names (dir : RemotePath) (w : World ρ) (h : scratch.IsReady w.disk) (names : List String)
    (hlisted : (store.listFiles dir w).1 = .ok names) : ∀ name ∈ names, '/' ∉ name.toList
  saves (dir : RemotePath) (name : String) (w : World ρ) (h : scratch.IsReady w.disk)
    (hempty : w.disk.emptied scratch.location = w.disk) (hname : isFileName name = true) :
    (store.downloadFile dir name scratch.path w).2.disk = w.disk ∨
      ∃ content, (store.downloadFile dir name scratch.path w).2.disk =
        w.disk.withFile (scratch.location ++ [name]) content
  path (dir : RemotePath) (name : String) (w : World ρ) (h : scratch.IsReady w.disk)
    (hempty : w.disk.emptied scratch.location = w.disk) (hname : isFileName name = true)
    (path : String)
    (hsaved : (store.downloadFile dir name scratch.path w).1 = .ok path) :
    path = join scratch.path name

namespace Scratch.IsReady

variable {scratch : Scratch} {d : Disk} {name : String}

/-- Writing a file into a scratch directory fails or puts it there. -/
theorem writeFile_eq (h : scratch.IsReady d) (hname : isFileName name = true)
    (content : List UInt8) : (∃ fault, d.writeFile (join scratch.path name) content = .error fault) ∨
      d.writeFile (join scratch.path name) content =
        .ok (d.withFile (scratch.location ++ [name]) content) := by
  rw [Disk.writeFile, h.resolve_join hname]
  cases hplace : Disk.place scratch.location name with
  | error fault => exact .inl ⟨fault, rfl⟩
  | ok loc =>
    rw [← Disk.place_eq hplace]
    cases hdirectory : d.tree.isDirectory loc with
    | true => exact .inl ⟨.isDirectory, by simp [bind, Except.bind, hdirectory]⟩
    | false => exact .inr (by simp [bind, Except.bind, hdirectory, Disk.withFile])

/-- A file that is written into a scratch directory leaves it ready and all else as it is. -/
theorem writeFile_fills (h : scratch.IsReady d) (hname : isFileName name = true)
    {content : List UInt8} {d' : Disk} (hwrite : d.writeFile (join scratch.path name) content = .ok d') :
    scratch.IsReady d' ∧ d.Keeps (¬ scratch.location <+: ·) d' := by
  refine ⟨h.of_grows (Disk.writeFile_grows h.isClosed hwrite), ?_⟩
  rcases h.writeFile_eq hname content with ⟨fault, hfault⟩ | hput
  · cases hwrite.symm.trans hfault
  · cases hwrite.symm.trans hput
    refine ⟨rfl, fun loc hloc ↦ Tree.get?_put_of_ne ?_⟩
    rintro rfl
    exact hloc (List.prefix_append _ _)

end Scratch.IsReady

section

variable {ρ : Type} {scratch : Scratch} {dir : RemotePath} {name : String} {w : World ρ}

/-- A call fails in every world, or in none. -/
theorem MemoryStore.guarded_eq {α : Type} (faults : List StoreFault) (operation : String)
    (path : RemotePath) (action : Action ρ α) :
    (∃ error, guarded faults operation path action = .ofExcept (.error error)) ∨
      guarded faults operation path action = action := by
  rw [guarded]
  cases faults.find? fun fault ↦ fault.operation == operation && fault.path == path.text with
  | some fault => exact .inl ⟨fault.error, rfl⟩
  | none => exact .inr rfl

theorem MemoryStore.guarded_apply {α : Type} (faults : List StoreFault) (operation : String)
    (path : RemotePath) (action : Action ρ α) (w : World ρ) :
    (∃ error, guarded faults operation path action w = (.error error, w)) ∨
      guarded faults operation path action w = action w :=
  (guarded_eq faults operation path action).imp
    (fun ⟨error, hfails⟩ ↦ ⟨error, congrFun hfails w⟩) fun hruns ↦ congrFun hruns w

/-- A listing comes to the same in every world. -/
theorem MemoryStore.exists_guarded_ofExcept {α : Type} (faults : List StoreFault)
    (operation : String) (path : RemotePath) (x : Except Error α) :
    ∃ result, guarded faults operation path (.ofExcept x : Action ρ α) = .ofExcept result := by
  rcases guarded_eq (ρ := ρ) faults operation path (.ofExcept x) with ⟨error, hfails⟩ | hruns
  · exact ⟨.error error, hfails⟩
  · exact ⟨x, hruns⟩

/-- Whether a download has failed and left everything as it was, or has put a file into the scratch
directory. -/
def Saves (scratch : Scratch) (name : String) (w : World ρ)
    (outcome : Except Error String × World ρ) : Prop :=
  (∃ error, outcome = (.error error, w)) ∨ ∃ content, outcome =
    (.ok (join scratch.path name),
      { w with disk := w.disk.withFile (scratch.location ++ [name]) content })

/-- A file that is written into the scratch directory, which need not be made. -/
theorem saves_write (h : scratch.IsReady w.disk) (hname : isFileName name = true)
    {write : Disk → Disk.Result Disk} {wrap : FileFault → Error}
    (hwrite : (∃ fault, write w.disk = .error fault) ∨ ∃ content,
      write w.disk = w.disk.writeFile (join scratch.path name) content) :
    Saves scratch name w ((do
      Action.change (·.makeDirectories scratch.path) FileFault.toError
      Action.change write wrap
      return join scratch.path name : Action ρ String) w) := by
  simp only [bind_apply, Action.change_apply, h.makeDirectories_eq]
  rcases hwrite with ⟨fault, hfault⟩ | ⟨content, hcontent⟩
  · rw [hfault]
    exact .inl ⟨_, rfl⟩
  · rw [hcontent]
    rcases h.writeFile_eq hname content with ⟨fault, hfault⟩ | hput
    · rw [hfault]
      exact .inl ⟨_, rfl⟩
    · rw [hput]
      exact .inr ⟨content, rfl⟩

theorem saves_memoryStore (tree : Tree) (faults : List StoreFault) (dir : RemotePath)
    (h : scratch.IsReady w.disk) (hname : isFileName name = true) :
    Saves scratch name w ((memoryStore tree faults).downloadFile dir name scratch.path w) := by
  simp only [memoryStore]
  rcases MemoryStore.guarded_apply faults "download_file" (dir.join name) (w := w) _ with
    ⟨error, hfails⟩ | hruns
  · rw [hfails]
    exact .inl ⟨error, rfl⟩
  rw [hruns, bind_apply, Action.ofExcept]
  cases MemoryStore.content tree dir name with
  | error error => exact .inl ⟨error, rfl⟩
  | ok content => exact saves_write h hname (.inr ⟨content, rfl⟩)

theorem saves_directoryStore (root : String) (dir : RemotePath) (h : scratch.IsReady w.disk)
    (hname : isFileName name = true) :
    Saves scratch name w ((directoryStore root).downloadFile dir name scratch.path w) := by
  apply saves_write h hname
  cases hentry : w.disk.entry (join (DirectoryStore.place root dir) name) with
  | error fault => exact .inl ⟨fault, by rw [Disk.copyFile, hentry]; rfl⟩
  | ok found =>
    obtain ⟨loc, e⟩ := found
    cases e with
    | directory => exact .inl ⟨_, by rw [Disk.copyFile, hentry]; rfl⟩
    | file content => exact .inr ⟨content, by rw [Disk.copyFile, hentry]; rfl⟩

theorem Saves.disk {outcome : Except Error String × World ρ} (h : Saves scratch name w outcome) :
    outcome.2.disk = w.disk ∨
      ∃ content, outcome.2.disk = w.disk.withFile (scratch.location ++ [name]) content := by
  rcases h with ⟨error, rfl⟩ | ⟨content, rfl⟩
  · exact .inl rfl
  · exact .inr ⟨content, rfl⟩

theorem Saves.path {outcome : Except Error String × World ρ} (h : Saves scratch name w outcome)
    {path : String} (hpath : outcome.1 = .ok path) : path = join scratch.path name := by
  rcases h with ⟨error, rfl⟩ | ⟨content, rfl⟩
  · cases hpath
  · cases hpath
    rfl

end

/-- The store in memory keeps to a scratch directory, if the names in its tree are names. -/
theorem keepsTo_memoryStore {ρ : Type} {tree : Tree} (faults : List StoreFault)
    (htree : ∀ entry ∈ tree.entries, ∀ name ∈ entry.1, '/' ∉ name.toList) (scratch : Scratch) :
    (memoryStore tree faults : Store ρ).KeepsTo scratch where
  lists dir w h := by
    obtain ⟨result, hresult⟩ := MemoryStore.exists_guarded_ofExcept (ρ := ρ) faults "list_files" dir
      (MemoryStore.names tree false dir)
    simp only [memoryStore, hresult]
    rfl
  names dir w h names hlisted := by
    rcases MemoryStore.guarded_apply faults "list_files" dir
      (Action.ofExcept (MemoryStore.names tree false dir)) w with ⟨error, hfails⟩ | hruns
    · have hfailed : Except.error error = Except.ok names :=
        (congrArg Prod.fst hfails).symm.trans hlisted
      cases hfailed
    · have hnames : MemoryStore.names tree false dir = .ok names :=
        (congrArg Prod.fst hruns).symm.trans hlisted
      obtain ⟨entries, hinside, rfl⟩ := Yaml.exists_of_map_ok hnames
      intro name hname
      obtain ⟨⟨_, e⟩, hmem, rfl⟩ := List.mem_map.1 hname
      rw [MemoryStore.inside] at hinside
      split at hinside
      · cases hinside
        have hchild := List.mem_map_of_mem (f := (·.1)) (List.mem_filter.1 hmem).1
        obtain ⟨e', hentry⟩ := Disk.mem_names_children.1 hchild
        exact htree _ hentry _ (by simp)
      · cases hinside
  saves dir name w h hempty hname := (saves_memoryStore tree faults dir h hname).disk
  path dir name w h hempty hname path hsaved := (saves_memoryStore tree faults dir h hname).path hsaved

theorem DirectoryStore.isFileName_of_names {root : String} {dir : RemotePath} {d : Disk}
    {names : List String} {directories : Bool} (h : d.IsProper)
    (hnames : DirectoryStore.names root directories dir d = .ok names) :
    ∀ name ∈ names, isFileName name = true := by
  obtain ⟨entries, hentries, rfl⟩ := Yaml.exists_of_map_ok hnames
  intro name hname
  obtain ⟨child, hmem, rfl⟩ := List.mem_map.1 (List.mem_mergeSort.1 hname)
  exact h.isFileName_of_readDirectory hentries child (List.mem_filter.1 hmem).1

/-- So does the store below a local directory. -/
theorem keepsTo_directoryStore {ρ : Type} (root : String) (scratch : Scratch) :
    (directoryStore root : Store ρ).KeepsTo scratch where
  lists dir w h := rfl
  names dir w h names hlisted := by
    have hread : DirectoryStore.names root false dir w.disk = .ok names := by
      change (DirectoryStore.names root false dir w.disk).mapError _ = _ at hlisted
      cases hnames : DirectoryStore.names root false dir w.disk with
      | error fault =>
        rw [hnames] at hlisted
        cases hlisted
      | ok names =>
        rw [hnames] at hlisted
        cases hlisted
        rfl
    exact fun name hname ↦
      slash_notMem (DirectoryStore.isFileName_of_names h.isProper hread name hname)
  saves dir name w h hempty hname := (saves_directoryStore root dir h hname).disk
  path dir name w h hempty hname path hsaved := (saves_directoryStore root dir h hname).path hsaved

/-- Whether a tool lists names, and copies a file that it is asked for to its place in the scratch
directory, which is empty, and changes nothing else on the local disk. -/
structure Tool.KeepsTo {ρ : Type} (tool : Tool ρ) (remote : String) (scratch : Scratch) :
    Prop where
  lists (dir : RemotePath) (w : World ρ) (h : scratch.IsReady w.disk) :
    (tool (Rclone.listArguments remote false dir) w).2.disk = w.disk
  prints (dir : RemotePath) (w : World ρ) (h : scratch.IsReady w.disk) (done : Completed)
    (hdone : (tool (Rclone.listArguments remote false dir) w).1 = .ok done) :
    ∀ name ∈ Rclone.parseListing (Text.decodeLossy done.output), '/' ∉ name.toList
  copies (dir : RemotePath) (name : String) (w : World ρ) (h : scratch.IsReady w.disk)
    (hempty : w.disk.emptied scratch.location = w.disk) (hname : isFileName name = true) :
    (tool (Rclone.copyArguments remote (dir.join name) scratch.path) w).2.disk = w.disk ∨
      ∃ content, (tool (Rclone.copyArguments remote (dir.join name) scratch.path) w).2.disk =
        w.disk.withFile (scratch.location ++ [name]) content

section

variable {ρ : Type} {tool : Tool ρ} {remote : String} {scratch : Scratch} {w : World ρ}

theorem Rclone.start_apply (tool : Tool ρ) (args : List String) (w : World ρ) :
    start tool args w = (.error .zeroInArgument, w) ∨ start tool args w = tool args w := by
  rw [start]
  cases args.any fun arg ↦ arg.toList.contains '\x00' with
  | true => exact .inl rfl
  | false => exact .inr rfl

/-- What a run of the tool has done to the world. -/
theorem Rclone.run_world (tool : Tool ρ) (w : World ρ) (operation : String) (path : RemotePath) (args : List String) :
    (run tool operation path args w).2 = w ∨
      (run tool operation path args w).2 = (tool args w).2 := by
  unfold run
  rcases start_apply tool args w with hrefused | hstarted
  · rw [hrefused]
    exact .inl rfl
  · rw [hstarted]
    right
    rcases tool args w with ⟨_ | done, w'⟩
    · rfl
    · dsimp only
      split <;> rfl

theorem Rclone.list_world (tool : Tool ρ) (remote : String) (directories : Bool)
    (dir : RemotePath) (w : World ρ) :
    (list tool remote directories dir w).2 = w ∨
      (list tool remote directories dir w).2 =
        (tool (listArguments remote directories dir) w).2 := by
  have hworld : (list tool remote directories dir w).2 =
      (run tool "list" dir (listArguments remote directories dir) w).2 := by
    simp only [list, bind_apply]
    rcases run tool "list" dir (listArguments remote directories dir) w with
      ⟨error | output, w'⟩ <;> rfl
  rw [hworld]
  exact run_world tool w "list" dir (listArguments remote directories dir)

theorem Rclone.exists_of_run {operation : String} {path : RemotePath} {args : List String}
    {output : String} (h : (run tool operation path args w).1 = .ok output) :
    ∃ done, (tool args w).1 = .ok done ∧ output = Text.decodeLossy done.output := by
  unfold run at h
  rcases start_apply tool args w with hrefused | hstarted
  · rw [hrefused] at h
    cases h
  rw [hstarted] at h
  rcases htool : tool args w with ⟨fault | done, w'⟩
  · rw [htool] at h
    cases h
  · rw [htool] at h
    dsimp only at h
    split at h
    · cases h
      exact ⟨done, rfl, rfl⟩
    · cases h

/-- Whether the file that was asked for is there decides how a download ends. -/
theorem Rclone.downloadFile_apply (dir : RemotePath) {name : String} (h : scratch.IsReady w.disk) :
    let ran := run tool "download" (dir.join name)
      (copyArguments remote (dir.join name) scratch.path) w
    ((rcloneStore tool remote).downloadFile dir name scratch.path w).2 = ran.2 ∧
      ∀ path, ((rcloneStore tool remote).downloadFile dir name scratch.path w).1 = .ok path →
        path = join scratch.path name := by
  simp only [rcloneStore, bind_apply, Action.change_apply, h.makeDirectories_eq]
  rcases run tool "download" (dir.join name)
    (copyArguments remote (dir.join name) scratch.path) w with ⟨error | output, w'⟩
  · exact ⟨rfl, nofun⟩
  have hget : (get : Action ρ (World ρ)) w' = (.ok w', w') := rfl
  simp only [hget]
  cases w'.disk.holds (join scratch.path name) with
  | true =>
    refine ⟨rfl, fun path hpath ↦ ?_⟩
    cases hpath
    rfl
  | false => exact ⟨rfl, nofun⟩

/-- So does the store behind a tool that does. -/
theorem keepsTo_rcloneStore (htool : tool.KeepsTo remote scratch) :
    (rcloneStore tool remote).KeepsTo scratch where
  lists dir w h := by
    rcases Rclone.list_world tool remote false dir w with hsame | hran
    · exact congrArg World.disk hsame
    · exact (congrArg World.disk hran).trans (htool.lists dir w h)
  names dir w h names hlisted := by
    simp only [rcloneStore, Rclone.list, bind_apply] at hlisted
    rcases hrun : Rclone.run tool "list" dir (Rclone.listArguments remote false dir) w with
      ⟨error | output, w'⟩
    · rw [hrun] at hlisted
      cases hlisted
    · rw [hrun] at hlisted
      cases hlisted
      obtain ⟨done, hdone, rfl⟩ := Rclone.exists_of_run (congrArg Prod.fst hrun)
      exact htool.prints dir w h done hdone
  saves dir name w h hempty hname := by
    have hcopies := htool.copies dir name w h hempty hname
    have hworld := Rclone.run_world tool w "download" (dir.join name)
      (Rclone.copyArguments remote (dir.join name) scratch.path)
    rw [(Rclone.downloadFile_apply dir h).1]
    rcases hworld with hsame | hran
    · rw [hsame]
      exact .inl rfl
    · rw [hran]
      exact hcopies
  path dir name w h hempty hname path hsaved := (Rclone.downloadFile_apply dir h).2 path hsaved

end

end FolderCommands
