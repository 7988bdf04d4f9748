import FolderCommands.Run.Engine
import FolderCommands.Store.Memory

/-!
# Runs over a tree in memory

Engines over a tree of manifests, with nothing to hand work to. Their store lists what is inside
the folders of the tree and refuses every other location.
-/

namespace FolderCommands

namespace Tree

/-- Where there may be a directory in a tree. -/
def locations (t : Tree) : List Location :=
  [] :: (t.entries.filter (·.2.isDirectory)).map (·.1)

/-- The tree of the manifests of some folders. -/
def ofManifests (manifests : List (Location × String)) : Tree :=
  manifests.foldl (fun t (folder, text) ↦
    t.putDeep (folder ++ [Manifest.baseName]) (.file (Text.encode text))) {}

theorem mem_locations_of_isDirectory {t : Tree} {loc : Location} (h : t.isDirectory loc) :
    loc ∈ t.locations := by
  cases loc with
  | nil => exact List.mem_cons_self ..
  | cons name names =>
    simp only [isDirectory, get?, Option.any_eq_true] at h
    obtain ⟨entry, hentry, hdirectory⟩ := h
    have hmem : (name :: names, entry) ∈ t.entries := by
      obtain ⟨before, after, hsplit, -⟩ := List.lookup_eq_some_iff.1 hentry
      rw [hsplit]
      exact List.mem_append_right _ (List.mem_cons_self ..)
    exact List.mem_cons_of_mem _ (List.mem_map_of_mem (List.mem_filter.2 ⟨hmem, hdirectory⟩))

end Tree

theorem mem_locations_of_listFiles {ρ : Type} {tree : Tree} {faults : List StoreFault}
    {dir : RemotePath} {w : World ρ} {names : List String}
    (h : ((memoryStore tree faults).listFiles dir w).1 = .ok names) :
    dir.segments ∈ tree.locations := by
  change (MemoryStore.guarded faults "list_files" dir
    (.ofExcept (MemoryStore.names tree false dir)) w).1 = .ok names at h
  unfold MemoryStore.guarded at h
  rcases hfault : faults.find? _ with _ | fault
  · rw [hfault] at h
    simp only [Action.ofExcept, MemoryStore.names, MemoryStore.inside] at h
    split at h
    · exact Tree.mem_locations_of_isDirectory ‹_›
    · cases h
  · rw [hfault] at h
    cases h

namespace Engine

/-- The engine over the tree of the manifests of some folders. -/
def overManifests (manifests : List (Location × String)) : Engine Unit where
  scratch := ⟨"/tmp", ["tmp"]⟩
  store := memoryStore (.ofManifests manifests) []
  users := {}
  delegate := .idle
  options := { scratchRoot := "/tmp", supportDirectory := "/tmp" }

/-- The folder `t` goes down to `t/a`, whose manifest moves the top to `t/b`. -/
def nestedChangeManifests : List (Location × String) :=
  [(["t"], "command_set: top\n---\n" ++
      "command: process_single_folder\nfolder: a\nfolder_type: story\n"),
    (["t", "a"], "command_set: top\n---\ncommand: change_folder\nfolder: b\n")]

def nestedChange : Engine Unit :=
  overManifests nestedChangeManifests

/-- The engine over the tree of the manifests of some folders that hands work to a delegate with
fixed answers and leaves support files where they are. -/
def answering (manifests : List (Location × String)) (answer : Work → Except Error Unit) :
    Engine Unit :=
  { overManifests manifests with
    delegate := fun work ↦ .ofExcept (answer work)
    options := { scratchRoot := "/tmp", supportDirectory := "/tmp", dryRun := true } }

end Engine

/-- A world with a scratch directory and nothing else. -/
def World.withScratch : World Unit where
  disk := { tree := ({} : Tree).put ["tmp"] .directory }
  outside := ()

/-- The same world with a manifest in the scratch directory. -/
def World.withManifest (content : List UInt8) : World Unit where
  disk := { tree := withScratch.disk.tree.put ["tmp", "commands.txt"] (.file content) }
  outside := ()

/-- Whether there is at most a manifest in the scratch directory, and nothing besides. -/
def World.IsTidy (w : World Unit) : Prop :=
  w = .withScratch ∨ ∃ content, w = .withManifest content

namespace World.IsTidy

variable {w : World Unit} (h : w.IsTidy)

include h

theorem clearDirectory_eq :
    w.disk.clearDirectory "/tmp" = .ok World.withScratch.disk := by
  rcases h with rfl | ⟨content, rfl⟩ <;> rfl

theorem makeDirectories_eq : w.disk.makeDirectories "/tmp" = .ok w.disk := by
  rcases h with rfl | ⟨content, rfl⟩ <;> rfl

theorem writeFile_eq (content : List UInt8) :
    w.disk.writeFile "/tmp/commands.txt" content = .ok (World.withManifest content).disk := by
  rcases h with rfl | ⟨old, rfl⟩ <;> rfl

end World.IsTidy

end FolderCommands
