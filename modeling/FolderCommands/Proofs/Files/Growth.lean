import FolderCommands.Proofs.Files.Scratch

/-!
# What stays on a disk

No operation of the system but removing takes a directory away, and each of them leaves everything
in a directory and under the name of a file. So a scratch directory that is ready stays ready.
-/

namespace FolderCommands

open CommandLine LocalPath

namespace Disk

/-- Whether a disk is as disks are: everything lies in a directory and under the name of a file. -/
structure IsSound (d : Disk) : Prop where
  isClosed : d.tree.IsClosed
  isProper : d.IsProper

/-- Whether a disk that has the directories of another one is as sound. -/
structure Grows (d d' : Disk) : Prop where
  workingDirectory : d'.workingDirectory = d.workingDirectory
  directories (loc : Location) (h : d.tree.get? loc = some .directory) :
    d'.tree.get? loc = some .directory
  isSound (h : d.IsSound) : d'.IsSound

variable {d d' d'' : Disk} {loc : Location} {path : String}

theorem Grows.refl (d : Disk) : d.Grows d :=
  ⟨rfl, fun _ ↦ id, id⟩

theorem Grows.trans (h : d.Grows d') (h' : d'.Grows d'') : d.Grows d'' where
  workingDirectory := h'.workingDirectory.trans h.workingDirectory
  directories loc hloc := h'.directories loc (h.directories loc hloc)
  isSound hd := h'.isSound (h.isSound hd)

/-- What is put into a directory in place of no directory. -/
theorem put_grows {parent : Location} {name : String} (e : Entry)
    (hparent : d.tree.get? parent = some .directory)
    (hold : d.tree.get? (parent ++ [name]) ≠ some .directory) (hname : isFileName name = true) :
    d.Grows { d with tree := d.tree.put (parent ++ [name]) e } where
  workingDirectory := rfl
  directories loc hloc := by
    rwa [Tree.get?_put_of_ne]
    rintro rfl
    exact hold hloc
  isSound h := by
    refine ⟨h.isClosed.put hparent hold, h.isProper.put e ?_⟩
    rw [List.forall_mem_append]
    exact ⟨h.isProper.get? parent (by rw [hparent]; rfl), by simpa using hname⟩

/-- Whether a location is a directory or a name in one. -/
def IsSeated (d : Disk) (loc : Location) : Prop :=
  d.tree.get? loc = some .directory ∨ ∃ parent name, loc = parent ++ [name] ∧
    d.tree.get? parent = some .directory ∧ isFileName name = true

theorem isSeated_of_follow (hclosed : d.tree.IsClosed) {origin : Location} {names : List String}
    (hnames : ∀ name ∈ names, name ≠ "" ∧ '/' ∉ name.toList) (horigin : d.IsSeated origin)
    (h : d.follow origin names = .ok loc) : d.IsSeated loc := by
  induction names generalizing origin with
  | nil =>
    cases h
    exact horigin
  | cons name names ih =>
    obtain ⟨⟨hne, hslash⟩, hrest⟩ := List.forall_mem_cons.1 hnames
    rw [follow] at h
    obtain ⟨_, hrequire, h⟩ := Yaml.exists_of_bind_ok h
    have hdirectory := get?_of_requireDirectory hrequire
    split at h
    · exact ih hrest (.inl hdirectory) h
    rename_i hdot
    split at h
    · refine ih hrest (.inl ?_) h
      rcases List.eq_nil_or_concat origin with rfl | ⟨parent, last, rfl⟩
      · rfl
      · rw [List.concat_eq_append] at hdirectory ⊢
        rw [List.dropLast_concat]
        exact hclosed parent last (by rw [hdirectory]; rfl)
    rename_i hdots
    split at h
    · cases h
    · exact ih hrest (.inr ⟨origin, name, rfl, hdirectory, by simp [isFileName, *]⟩) h

theorem slash_notMem_of_mem_steps {name : String} (h : name ∈ steps path) :
    '/' ∉ name.toList := by
  rw [steps] at h
  split at h
  · rcases List.mem_append.1 h with h | h
    · exact notMem_of_mem_split (List.mem_filter.1 h).1
    · rw [List.mem_singleton.1 h]
      decide
  · exact notMem_of_mem_split (List.mem_filter.1 h).1

theorem isSeated_of_resolve (hclosed : d.tree.IsClosed) (h : d.resolve path = .ok loc) :
    d.IsSeated loc := by
  have horigin : d.tree.get? (if isAbsolute path then [] else d.workingDirectory) =
      some .directory := by
    split
    · rfl
    · rename_i hrelative
      exact get?_workingDirectory (Bool.eq_false_iff.2 hrelative) h
  exact isSeated_of_follow hclosed
    (fun name hname ↦ ⟨ne_of_mem_steps hname, slash_notMem_of_mem_steps hname⟩) (.inl horigin)
    (follow_of_resolve h).2.2

/-! ## Operations -/

theorem writeFile_grows {content : List UInt8} (hclosed : d.tree.IsClosed)
    (h : d.writeFile path content = .ok d') : d.Grows d' := by
  obtain ⟨loc, hloc, hwrite⟩ := Yaml.exists_of_bind_ok h
  split at hwrite
  · cases hwrite
  rename_i hfile
  cases hwrite
  have hold : d.tree.get? loc ≠ some .directory := by
    intro hdirectory
    rw [Tree.isDirectory, hdirectory] at hfile
    exact hfile rfl
  obtain ⟨parent, name, rfl, hparent, hname⟩ :=
    (isSeated_of_resolve hclosed hloc).resolve_left hold
  exact put_grows _ hparent hold hname

theorem copyFile_grows {source : String} (hclosed : d.tree.IsClosed)
    (h : d.copyFile source path = .ok d') : d.Grows d' := by
  obtain ⟨⟨loc, e⟩, -, hcopy⟩ := Yaml.exists_of_bind_ok h
  cases e with
  | file content => exact writeFile_grows hclosed hcopy
  | directory => cases hcopy

theorem makeDirectory_grows (hclosed : d.tree.IsClosed) (h : d.makeDirectory path = .ok d') :
    d.Grows d' := by
  obtain ⟨loc, hloc, hmake⟩ := Yaml.exists_of_bind_ok h
  split at hmake
  · cases hmake
  rename_i hnone
  obtain ⟨_, -, hput⟩ := Yaml.exists_of_bind_ok hmake
  cases hput
  have hold : d.tree.get? loc ≠ some .directory := by
    rw [hnone]
    simp
  obtain ⟨parent, name, rfl, hparent, hname⟩ :=
    (isSeated_of_resolve hclosed hloc).resolve_left hold
  exact put_grows _ hparent hold hname

theorem ensureDirectory_grows (hclosed : d.tree.IsClosed) (h : d.ensureDirectory path = .ok d') :
    d.Grows d' := by
  unfold ensureDirectory at h
  split at h
  · rename_i made hmake
    cases h
    exact makeDirectory_grows hclosed hmake
  · split at h
    · cases h
      exact .refl d
    · cases h

theorem makeOutermost_grows {paths missing missing' : List String} (hclosed : d.tree.IsClosed)
    (h : d.makeOutermost paths missing = .ok (d', missing')) : d.Grows d' := by
  induction paths generalizing missing with
  | nil =>
    cases h
    exact .refl d
  | cons path paths ih =>
    unfold makeOutermost at h
    split at h
    · rename_i made hmake
      cases h
      exact ensureDirectory_grows hclosed hmake
    · exact ih h
    · cases h

theorem foldlM_ensureDirectory_grows {paths : List String} (hd : d.IsSound)
    (h : paths.foldlM ensureDirectory d = .ok d') : d.Grows d' := by
  induction paths generalizing d with
  | nil =>
    cases h
    exact .refl _
  | cons path paths ih =>
    rw [List.foldlM_cons] at h
    obtain ⟨made, hmake, hrest⟩ := Yaml.exists_of_bind_ok h
    have hfirst := ensureDirectory_grows hd.isClosed hmake
    exact hfirst.trans (ih (hfirst.isSound hd) hrest)

theorem makeDirectories_grows (hd : d.IsSound) (h : d.makeDirectories path = .ok d') :
    d.Grows d' := by
  rw [makeDirectories] at h
  split at h
  · cases h
    exact .refl d
  obtain ⟨⟨made, missing⟩, houtermost, hrest⟩ := Yaml.exists_of_bind_ok h
  have hfirst := makeOutermost_grows hd.isClosed houtermost
  exact hfirst.trans (foldlM_ensureDirectory_grows (hfirst.isSound hd) hrest)

/-- Before a scratch directory is made there is nothing at its place or below. -/
theorem get?_of_makeScratch {inside start : String} {scratch : Scratch} (hclosed : d.tree.IsClosed)
    (hstart : isFileName start = true) (h : d.makeScratch inside start = .ok (scratch, d'))
    (hloc : scratch.location <+: loc) : d.tree.get? loc = none := by
  obtain ⟨place, name, -, -, hfresh, -, rfl, -⟩ := Scratch.exists_of_makeScratch hstart h
  obtain ⟨rest, rfl⟩ := hloc
  cases rest with
  | nil => rwa [List.append_nil]
  | cons first rest =>
    rw [← Option.not_isSome_iff_eq_none]
    intro hsome
    rw [hclosed.get?_of_append hsome] at hfresh
    cases hfresh

/-- A fresh name has the least number that is not taken. -/
theorem exists_least_freshName (d : Disk) (loc : Location) (start : String) :
    ∃ n : Nat, d.freshName loc start = start ++ toString n ∧
      d.tree.get? (loc ++ [start ++ toString n]) = none ∧
      ∀ m < n, d.tree.get? (loc ++ [start ++ toString m]) ≠ none := by
  obtain ⟨number, hnumber, -⟩ := d.exists_freshName loc start
  have hnone := d.get?_freshName loc start
  have htaken (name : String) (h : name ∈ (d.tree.children loc).map (·.1)) :
      d.tree.get? (loc ++ [name]) ≠ none := by
    obtain ⟨e, hmem⟩ := mem_names_children.1 h
    exact Option.isSome_iff_ne_none.1 (Tree.isSome_get?_of_mem hmem)
  rw [freshName, List.find?_map] at hnone hnumber ⊢
  cases hfind : (List.range (((d.tree.children loc).map (·.1)).length + 1)).find?
      ((fun name ↦ !((d.tree.children loc).map (·.1)).contains name) ∘
        fun n ↦ start ++ toString n) with
  | none =>
    rw [hfind] at hnumber
    have hempty : toString number = "" := String.append_eq_left_iff.1 hnumber.symm
    have hdigits : (toString number).toList = Nat.toDigits 10 number := Nat.toList_repr
    rw [hempty] at hdigits
    exact absurd hdigits.symm Nat.toDigits_ne_nil
  | some n =>
    rw [hfind] at hnone
    refine ⟨n, rfl, hnone, fun m hm ↦ htaken _ ?_⟩
    simpa using (List.find?_range_eq_some.1 hfind).2.2 m hm

/-- A fresh name depends only on which numbers are taken. -/
theorem freshName_eq {start : String}
    (h : ∀ n : Nat, d'.tree.get? (loc ++ [start ++ toString n]) =
      d.tree.get? (loc ++ [start ++ toString n])) :
    d'.freshName loc start = d.freshName loc start := by
  obtain ⟨n, hname, hfree, hleast⟩ := d.exists_least_freshName loc start
  obtain ⟨n', hname', hfree', hleast'⟩ := d'.exists_least_freshName loc start
  rcases Nat.lt_trichotomy n n' with hlt | rfl | hlt
  · exact absurd ((h n).trans hfree) (hleast' n hlt)
  · rw [hname, hname']
  · exact absurd ((h n').symm.trans hfree') (hleast n' hlt)

/-- What is removed takes all that is in it along. -/
theorem IsSound.removeAt (h : d.IsSound) (loc : Location) : (d.removeAt loc).IsSound where
  isClosed := by
    intro other name hsome
    have hkept : ¬ loc <+: other ++ [name] := by
      intro hbelow
      rw [Disk.removeAt, Tree.get?_remove_of_prefix (by simp) hbelow] at hsome
      cases hsome
    rw [Disk.removeAt, Tree.get?_remove hkept] at hsome
    rw [Disk.removeAt, Tree.get?_remove fun hbelow ↦ hkept (hbelow.trans (List.prefix_append _ _))]
    exact h.isClosed other name hsome
  isProper := by
    refine ⟨h.isProper.workingDirectory, fun other hsome ↦ ?_⟩
    rcases Decidable.em (loc <+: other) with hbelow | hkept
    · by_cases hroot : other = []
      · simp [hroot]
      · rw [Disk.removeAt, Tree.get?_remove_of_prefix hroot hbelow] at hsome
        cases hsome
    · rw [Disk.removeAt, Tree.get?_remove hkept] at hsome
      exact h.isProper.get? other hsome

end Disk

/-! ## Scratch directories -/

namespace Scratch

variable {scratch : Scratch} {d d' : Disk}

theorem IsReady.isSound (h : scratch.IsReady d) : d.IsSound :=
  ⟨h.isClosed, h.isProper⟩

/-- A scratch directory stays ready while directories stay. -/
theorem IsReady.of_grows (h : scratch.IsReady d) (hgrows : d.Grows d') : scratch.IsReady d' where
  resolve_emptied := by
    refine Disk.resolve_mono (d := d.emptied scratch.location) hgrows.workingDirectory ?_
      h.resolve_emptied
    intro loc hloc
    simp only [Disk.emptied, Tree.get?_emptied] at hloc ⊢
    split at hloc
    · cases hloc
    · rename_i hbelow
      rw [if_neg hbelow]
      exact hgrows.directories loc hloc
  isDirectory := hgrows.directories _ h.isDirectory
  isClosed := (hgrows.isSound h.isSound).isClosed
  isProper := (hgrows.isSound h.isSound).isProper
  isBare := h.isBare

end Scratch

end FolderCommands
