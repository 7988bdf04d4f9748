import FolderCommands.Proofs.Files.Growth
import FolderCommands.Store.Directory

/-!
# The folders of a directory store

What a store below a local directory lists for a folder are the directories in it, each once. A
location keeps its segments without blanks around them, and a file system does not; so a listed
name leads back to its directory exactly if it is not padded.
-/

namespace FolderCommands

open LocalPath

/-! ## Names as segments -/

theorem segmentsOf_fileName {name : String} (h : isFileName name = true) :
    segmentsOf name = if Text.trimmed name = "" then [] else [Text.trimmed name] := by
  rw [segmentsOf, split_name (slash_notMem h)]
  by_cases hblank : Text.trimmed name = "" <;> simp [hblank]

theorem slash_notMem_trimmed {name : String} (h : '/' ∉ name.toList) :
    '/' ∉ (Text.trimmed name).toList := by
  rw [Text.trimmed, String.toList_ofList]
  exact fun hmem ↦ h (Text.mem_of_mem_trim hmem)

/-- A name without blanks around it is a segment. -/
theorem segmentsOf_trimmed {name : String} (h : isFileName name = true)
    (htrimmed : Text.trimmed name = name) : segmentsOf name = [name] := by
  have hne : name ≠ "" := by
    rintro rfl
    cases h
  rw [segmentsOf_fileName h, htrimmed, if_neg hne]

namespace Tree

/-- Where no location is twice, each entry is the one at its location. -/
theorem lookup_of_mem {entries : List (Location × Entry)} (hnodup : (entries.map (·.1)).Nodup)
    {loc : Location} {e : Entry} (h : (loc, e) ∈ entries) : entries.lookup loc = some e := by
  induction entries with
  | nil => cases h
  | cons entry entries ih =>
    rw [List.map_cons, List.nodup_cons] at hnodup
    rcases List.mem_cons.1 h with rfl | hrest
    · exact List.lookup_cons_self
    · have hne : loc ≠ entry.1 := by
        rintro rfl
        exact hnodup.1 (List.mem_map_of_mem (f := (·.1)) hrest)
      rw [lookup_cons_of_ne hne]
      exact ih hnodup.2 hrest

theorem mem_children_of_get? {t : Tree} {loc : Location} {name : String} {e : Entry}
    (h : t.get? (loc ++ [name]) = some e) : (name, e) ∈ t.children loc := by
  rw [get?_eq_lookup _ (by simp)] at h
  obtain ⟨before, after, hentries, -⟩ := List.lookup_eq_some_iff.1 h
  rw [mem_children, hentries]
  simp

/-- Nothing is twice in a directory. -/
theorem nodup_children {t : Tree} (h : (t.entries.map (·.1)).Nodup) (loc : Location) :
    ((t.children loc).map (·.1)).Nodup := by
  obtain ⟨entries⟩ := t
  dsimp only at h
  induction entries with
  | nil => exact List.nodup_nil
  | cons entry entries ih =>
    rw [List.map_cons, List.nodup_cons] at h
    have hrest := ih h.2
    simp only [children] at hrest ⊢
    rw [List.filterMap_cons]
    split
    · exact hrest
    · rename_i child hchild
      rw [List.map_cons, List.nodup_cons]
      refine ⟨fun hmem ↦ ?_, hrest⟩
      obtain ⟨e, hsame⟩ := (@Disk.mem_names_children loc ⟨entries⟩ child.1).1 hmem
      have hentry : (child.1, child.2) ∈ children ⟨[entry]⟩ loc := by
        simp [children, hchild]
      have hplace := mem_children.1 hentry
      rw [List.mem_singleton] at hplace
      rw [← hplace] at h
      exact h.1 (List.mem_map_of_mem (f := (·.1)) hsame)

end Tree

namespace Disk

/-- Whether a disk is as a system keeps one: sound, with no location twice, and with names that
paths can hold. -/
structure IsOrderly (d : Disk) : Prop where
  isSound : d.IsSound
  nodup : (d.tree.entries.map (·.1)).Nodup
  isFit : ∀ loc, (d.tree.get? loc).isSome → ∀ name ∈ loc,
    name.toList.contains '\x00' = false ∧ Text.byteLength name.toList ≤ 255

variable {d : Disk} {loc : Location} {name path : String}

theorem isOrderly_of_all (hworking : d.workingDirectory.all isFileName = true)
    (hclosed : d.tree.entries.all
      (fun entry ↦ d.tree.get? entry.1.dropLast = some .directory) = true)
    (hproper : d.tree.entries.all (fun entry ↦ entry.1.all isFileName) = true)
    (hnodup : (d.tree.entries.map (·.1)).Nodup)
    (hfit : d.tree.entries.all (fun entry ↦ entry.1.all fun name ↦
      !name.toList.contains '\x00' && Text.byteLength name.toList ≤ 255) = true) :
    d.IsOrderly where
  isSound := ⟨Tree.isClosed_of_all hclosed, isProper_of_all hworking hproper⟩
  nodup := hnodup
  isFit loc hloc name hname := by
    cases loc with
    | nil => cases hname
    | cons first rest =>
      obtain ⟨entry, hmem, hplace⟩ := List.lookup_isSome_iff.1 hloc
      rw [eq_of_beq hplace] at hname
      simpa using List.all_eq_true.1 (List.all_eq_true.1 hfit entry hmem) name hname

/-- The place of what is on an orderly disk. -/
theorem IsOrderly.place_eq (h : d.IsOrderly) (hsome : (d.tree.get? (loc ++ [name])).isSome) :
    place loc name = .ok (loc ++ [name]) := by
  obtain ⟨hzero, hlength⟩ := h.isFit _ hsome name (by simp)
  rw [place, hzero, if_neg Bool.false_ne_true, if_neg (Nat.not_lt.2 hlength)]

theorem IsOrderly.isFileName (h : d.IsOrderly) (hsome : (d.tree.get? (loc ++ [name])).isSome) :
    isFileName name = true :=
  h.isSound.isProper.get? _ hsome name (by simp)

/-- What is directly inside a directory of an orderly disk. -/
theorem IsOrderly.mem_children (h : d.IsOrderly) {e : Entry} :
    (name, e) ∈ d.tree.children loc ↔ d.tree.get? (loc ++ [name]) = some e := by
  refine ⟨fun hmem ↦ ?_, Tree.mem_children_of_get?⟩
  rw [Tree.get?_eq_lookup _ (by simp)]
  exact Tree.lookup_of_mem h.nodup (Tree.mem_children.1 hmem)

/-- What is read of a directory. -/
theorem exists_of_readDirectory {entries : List (String × Entry)}
    (h : d.readDirectory path = .ok entries) : ∃ loc, d.resolve path = .ok loc ∧
      d.tree.get? loc = some .directory ∧ entries = d.tree.children loc := by
  obtain ⟨⟨place, e⟩, hentry, hlist⟩ := Yaml.exists_of_bind_ok h
  obtain ⟨hresolve, hget⟩ := resolve_of_entry hentry
  cases e with
  | file content => cases hlist
  | directory =>
    cases hlist
    exact ⟨_, hresolve, hget, rfl⟩

end Disk

namespace DirectoryStore

open Disk

variable {root : String} {dir : RemotePath} {d : Disk} {loc : Location} {name : String}

theorem place_join (root : String) (dir : RemotePath) (child : String) :
    place root (dir.join child) = joinAll (place root dir) (segmentsOf child) := by
  rw [place, place, joinAll, joinAll, joinAll, RemotePath.segments_join, List.foldl_append]

/-- The path of a folder joined with a name leads to what has the name in the folder exactly if the
name is not padded. -/
theorem resolve_place_join (h : d.IsOrderly) (hplace : d.resolve (place root dir) = .ok loc)
    (hname : d.tree.get? (loc ++ [name]) = some .directory) :
    d.resolve (place root (dir.join name)) = .ok (loc ++ [name]) ↔ Text.trimmed name = name := by
  have hsome : (d.tree.get? (loc ++ [name])).isSome := by
    rw [hname]
    rfl
  have hfile := h.isFileName hsome
  constructor
  · intro hresolve
    have hloc := resolve_eq hplace
    have hboth := resolve_eq hresolve
    rw [place_join, segmentsOf_fileName hfile] at hboth
    split at hboth
    · change _ = CommandLine.locate _ (place root dir) at hboth
      rw [← hloc] at hboth
      simp at hboth
    · have hslash := slash_notMem_trimmed (slash_notMem hfile)
      change _ = CommandLine.locate _ (join (place root dir) (Text.trimmed name)) at hboth
      rw [locate_join _ _ (isAbsolute_of_notMem hslash), split_name hslash, ← hloc] at hboth
      change _ = step loc (Text.trimmed name) at hboth
      rw [step] at hboth
      split at hboth
      · simp at hboth
      split at hboth
      · have hlength := congrArg List.length hboth
        simp at hlength
        omega
      · simpa using hboth.symm
  · intro htrimmed
    obtain ⟨hzero, hfollow⟩ := follow_names_of_resolve hplace
    rw [place_join, segmentsOf_trimmed hfile htrimmed]
    change d.resolve (join (place root dir) name) = _
    rw [resolve_join_of_follow hfile hzero ?_ (h.isSound.isClosed _ _ hsome), h.place_eq hsome]
    rw [start_join _ _ (isAbsolute_of_notMem (slash_notMem hfile))]
    exact hfollow

/-- What a list of names tells about the directories in a folder whose path leads to `loc`. -/
structure Tells (root : String) (dir : RemotePath) (d : Disk) (names : List String)
    (loc : Location) : Prop where
  resolve : d.resolve (place root dir) = .ok loc
  mem_names : ∀ name, name ∈ names ↔ d.tree.get? (loc ++ [name]) = some .directory
  nodup : names.Nodup
  sorted : names.Pairwise (· ≤ ·)
  /-- A name leads back to its directory exactly if it is not padded. -/
  leads : ∀ name ∈ names,
    d.resolve (place root (dir.join name)) = .ok (loc ++ [name]) ↔ Text.trimmed name = name

/-- A listing of an orderly disk has every directory of the folder once. -/
theorem tells_names (h : d.IsOrderly) {names : List String}
    (hnames : DirectoryStore.names root true dir d = .ok names) :
    ∃ loc, Tells root dir d names loc := by
  rw [DirectoryStore.names] at hnames
  cases hread : d.readDirectory (place root dir) with
  | error fault =>
    rw [hread] at hnames
    cases hnames
  | ok entries =>
    rw [hread] at hnames
    obtain ⟨loc, hplace, -, rfl⟩ := exists_of_readDirectory hread
    have hmem (name : String) : name ∈ names ↔ d.tree.get? (loc ++ [name]) = some .directory := by
      cases hnames
      rw [List.mem_mergeSort, ← h.mem_children]
      simp only [List.mem_map, List.mem_filter, Prod.exists]
      constructor
      · rintro ⟨name, e, ⟨hchild, hdirectory⟩, rfl⟩
        cases e with
        | directory => exact hchild
        | file content => cases hdirectory
      · intro hchild
        exact ⟨name, .directory, ⟨hchild, rfl⟩, rfl⟩
    refine ⟨loc, hplace, hmem, ?_, ?_, fun name hname ↦
      resolve_place_join h hplace ((hmem name).1 hname)⟩
    · cases hnames
      rw [(List.mergeSort_perm _ _).nodup_iff]
      exact ((List.filter_sublist).map _).nodup (Tree.nodup_children h.nodup loc)
    · cases hnames
      exact List.pairwise_mergeSort' (· ≤ ·) _

/-- The listing by a sort that is a recursion on the names. -/
theorem names_eq_insertionSort :
    DirectoryStore.names = fun root directories dir d ↦
      (d.readDirectory (place root dir)).map fun entries ↦
        ((entries.filter fun (_, e) ↦ e.isDirectory == directories).map (·.1)).insertionSort
          (· ≤ ·) := by
  funext root directories dir d
  simp only [DirectoryStore.names, List.mergeSort_eq_insertionSort]

end DirectoryStore

end FolderCommands
