import FolderCommands.Proofs.Store.Aloof

/-!
# Stores that stay inside the directories they are given

A store of this kind changes nothing on the local disk but what is in the directory that it
downloads into. The stores in memory and below a local directory are of this kind, and the one
behind a tool is if the tool is.
-/

namespace FolderCommands

open LocalPath

variable {ρ : Type}

/-- Whether a store keeps off the local disk but for the directory that it downloads into. -/
structure Store.IsContained (store : Store ρ) (scratch : Scratch) : Prop
    extends store.KeepsTo scratch where
  stays (dir : RemotePath) (w : World ρ) (h : scratch.IsReady w.disk) :
    (store.listDirectories dir w).2.disk = w.disk
  /-- A folder is copied into a directory that is ready, and nowhere else. -/
  fills (dir : RemotePath) (staging : Scratch) (w : World ρ) (h : staging.IsReady w.disk) :
    w.disk.Fills staging.location (store.downloadDirectory dir staging.path w).2.disk ∧
      (store.downloadDirectory dir staging.path w).2.disk.tree.IsClosed

/-- So is every store on which the disk has no bearing. -/
theorem Store.IsAloof.isContained {store : Store ρ} {scratch : Scratch} {Q : ρ → ρ → Prop}
    (h : store.IsAloof scratch Q) : store.IsContained scratch where
  toKeepsTo := h.toKeepsTo
  stays := h.stays
  fills := h.fills

/-! ## The store below a local directory -/

namespace DirectoryStore

variable {scratch : Scratch} {w : World ρ}

/-- Files are copied into a directory that is ready. -/
theorem copyAll_fills (root : String) (dir : RemotePath) {names : List String}
    (hnames : ∀ name ∈ names, isFileName name = true) (h : scratch.IsReady w.disk) :
    scratch.IsReady (copyAll root dir scratch.path names w).2.disk ∧
      w.disk.Keeps (¬ scratch.location <+: ·) (copyAll root dir scratch.path names w).2.disk := by
  induction names generalizing w with
  | nil => exact ⟨h, .refl w.disk⟩
  | cons name names ih =>
    obtain ⟨hname, hrest⟩ := List.forall_mem_cons.1 hnames
    simp only [copyAll, bind_apply, Action.change_apply]
    cases hcopy : w.disk.copyFile (join (place root dir) name) (join scratch.path name) with
    | error fault => exact ⟨h, .refl w.disk⟩
    | ok disk =>
      obtain ⟨⟨loc, e⟩, -, hwrite⟩ := Yaml.exists_of_bind_ok hcopy
      cases e with
      | directory => cases hwrite
      | file content =>
        obtain ⟨hready, hkeeps⟩ := h.writeFile_fills hname hwrite
        obtain ⟨hready', hkeeps'⟩ := ih hrest (w := { w with disk }) hready
        exact ⟨hready', hkeeps.trans hkeeps'⟩

end DirectoryStore

open DirectoryStore in
theorem isContained_directoryStore (root : String) (scratch : Scratch) :
    (directoryStore root : Store ρ).IsContained scratch where
  toKeepsTo := keepsTo_directoryStore root scratch
  stays dir w h := rfl
  fills dir staging w h := by
    obtain ⟨hready, hkeeps⟩ : staging.IsReady
          ((directoryStore root).downloadDirectory dir staging.path w).2.disk ∧
        w.disk.Keeps (¬ staging.location <+: ·)
          ((directoryStore root).downloadDirectory dir staging.path w).2.disk := by
      simp only [directoryStore, bind_apply, Action.change_apply, h.makeDirectories_eq, Action.look]
      cases hread : DirectoryStore.names root false dir w.disk with
      | error fault => exact ⟨h, .refl w.disk⟩
      | ok names => exact copyAll_fills root dir (isFileName_of_names h.isProper hread) h
    exact ⟨⟨hready.isProper, hkeeps⟩, hready.isClosed⟩

/-! ## The store behind a tool -/

/-- Whether a tool changes nothing on the local disk but what is in the directory that it copies
into. -/
structure Tool.IsContained (tool : Tool ρ) (remote : String) (scratch : Scratch) : Prop
    extends tool.KeepsTo remote scratch where
  stays (dir : RemotePath) (w : World ρ) (h : scratch.IsReady w.disk) :
    (tool (Rclone.listArguments remote true dir) w).2.disk = w.disk
  fills (dir : RemotePath) (staging : Scratch) (w : World ρ) (h : staging.IsReady w.disk) :
    w.disk.Fills staging.location
        (tool (Rclone.copyArguments remote dir staging.path) w).2.disk ∧
      (tool (Rclone.copyArguments remote dir staging.path) w).2.disk.tree.IsClosed

theorem isContained_rcloneStore {tool : Tool ρ} {remote : String} {scratch : Scratch}
    (h : tool.IsContained remote scratch) : (rcloneStore tool remote).IsContained scratch where
  toKeepsTo := keepsTo_rcloneStore h.toKeepsTo
  stays dir w hready := by
    rcases Rclone.list_world tool remote true dir w with hsame | hran
    · exact congrArg World.disk hsame
    · exact (congrArg World.disk hran).trans (h.stays dir w hready)
  fills dir staging w hready := by
    have hworld : ((rcloneStore tool remote).downloadDirectory dir staging.path w).2 =
        (Rclone.run tool "download" dir (Rclone.copyArguments remote dir staging.path) w).2 := by
      simp only [rcloneStore, bind_apply, Action.change_apply, hready.makeDirectories_eq]
      rcases Rclone.run tool "download" dir (Rclone.copyArguments remote dir staging.path) w with
        ⟨error | output, w'⟩ <;> rfl
    rw [hworld]
    rcases Rclone.run_world tool w "download" dir
      (Rclone.copyArguments remote dir staging.path) with hsame | hran
    · rw [hsame]
      exact ⟨⟨hready.isProper, .refl w.disk⟩, hready.isClosed⟩
    · rw [hran]
      exact h.fills dir staging w hready

end FolderCommands
