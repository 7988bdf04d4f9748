import FolderCommands.Proofs.Files.Lexical

/-!
# What changes on a disk

Frame conditions for the operations of the system. Writing changes the place of the path and no
other; making directories puts directories on the way along the path where there was nothing, and
changes nothing that was there.
-/

namespace FolderCommands

namespace Tree

variable {t : Tree} {loc other : Location} {e : Entry}

theorem lookup_cons_of_ne (h : other ≠ loc) (entries : List (Location × Entry)) :
    ((loc, e) :: entries).lookup other = entries.lookup other := by
  rw [List.lookup_cons, beq_false_of_ne h]

theorem lookup_putInto_of_ne (h : other ≠ loc) (entries : List (Location × Entry)) :
    (putInto loc e entries).lookup other = entries.lookup other := by
  induction entries with
  | nil => exact lookup_cons_of_ne h []
  | cons entry entries ih =>
    obtain ⟨place, old⟩ := entry
    rw [putInto]
    split
    · rename_i hplace
      rw [hplace, lookup_cons_of_ne h, lookup_cons_of_ne h]
    · rw [List.lookup_cons, List.lookup_cons, ih]

theorem lookup_putInto (entries : List (Location × Entry)) :
    (putInto loc e entries).lookup loc = some e := by
  induction entries with
  | nil => exact List.lookup_cons_self
  | cons entry entries ih =>
    obtain ⟨place, old⟩ := entry
    rw [putInto]
    split
    · rename_i hplace
      rw [hplace, List.lookup_cons_self]
    · rename_i hplace
      rw [lookup_cons_of_ne (Ne.symm hplace), ih]

theorem get?_put_of_ne (h : other ≠ loc) : (t.put loc e).get? other = t.get? other := by
  rw [put]
  split
  · rfl
  · cases other with
    | nil => rfl
    | cons name names => exact lookup_putInto_of_ne h t.entries

theorem get?_put (h : loc ≠ []) : (t.put loc e).get? loc = some e := by
  rw [put, if_neg (by simpa using h)]
  cases loc with
  | nil => exact absurd rfl h
  | cons name names => exact lookup_putInto t.entries

theorem isSome_get?_of_mem (h : (loc, e) ∈ t.entries) : (t.get? loc).isSome := by
  cases loc with
  | nil => rfl
  | cons name names => exact List.lookup_isSome_iff.2 ⟨_, h, beq_self_eq_true _⟩

theorem get?_remove (h : ¬ loc <+: other) : (t.remove loc).get? other = t.get? other := by
  cases other with
  | nil => rfl
  | cons name names =>
    simp only [get?, remove]
    induction t.entries with
    | nil => rfl
    | cons entry entries ih =>
      by_cases hplace : loc <+: entry.1
      · have hne : name :: names ≠ entry.1 := fun heq ↦ h (heq ▸ hplace)
        rw [List.filter_cons_of_neg (by simpa using hplace), ih]
        exact (lookup_cons_of_ne hne entries).symm
      · have hkept : loc.isPrefixOf entry.1 = false := by
          rwa [Bool.eq_false_iff, Ne, List.isPrefixOf_iff_prefix]
        rw [List.filter_cons_of_pos (by simp [hkept]), List.lookup_cons, List.lookup_cons, ih]

end Tree

namespace Disk

open CommandLine LocalPath

/-- Whether the places with `P`, and the working directory, are the same on two disks. -/
structure Keeps (P : Location → Prop) (d d' : Disk) : Prop where
  workingDirectory : d'.workingDirectory = d.workingDirectory
  get? (loc : Location) (h : P loc) : d'.tree.get? loc = d.tree.get? loc

/-- Whether all that a disk has over another is directories at places with `P`. -/
structure Adds (P : Location → Prop) (d d' : Disk) : Prop where
  workingDirectory : d'.workingDirectory = d.workingDirectory
  get? (loc : Location) : d'.tree.get? loc = d.tree.get? loc ∨
    P loc ∧ d.tree.get? loc = none ∧ d'.tree.get? loc = some .directory

/-- Whether all names on a disk, and those of its working directory, are names of files. -/
structure IsProper (d : Disk) : Prop where
  workingDirectory : ∀ name ∈ d.workingDirectory, isFileName name = true
  get? (loc : Location) (h : (d.tree.get? loc).isSome) : ∀ name ∈ loc, isFileName name = true

variable {P Q : Location → Prop} {d d' d'' : Disk} {path : String}

theorem Keeps.refl (d : Disk) : d.Keeps P d :=
  ⟨rfl, fun _ _ ↦ rfl⟩

theorem Keeps.trans (h : d.Keeps P d') (h' : d'.Keeps P d'') : d.Keeps P d'' where
  workingDirectory := h'.workingDirectory.trans h.workingDirectory
  get? loc hloc := (h'.get? loc hloc).trans (h.get? loc hloc)

theorem Keeps.mono (h : d.Keeps P d') (hPQ : ∀ loc, Q loc → P loc) : d.Keeps Q d' where
  workingDirectory := h.workingDirectory
  get? loc hloc := h.get? loc (hPQ loc hloc)

theorem Adds.refl (d : Disk) : d.Adds P d :=
  ⟨rfl, fun _ ↦ .inl rfl⟩

theorem Adds.trans (h : d.Adds P d') (h' : d'.Adds P d'') : d.Adds P d'' := by
  refine ⟨h'.workingDirectory.trans h.workingDirectory, fun loc ↦ ?_⟩
  rcases h.get? loc with hsame | ⟨hP, hnone, hmade⟩
  · rw [← hsame]
    exact h'.get? loc
  · rcases h'.get? loc with hsame | ⟨-, hnone', -⟩
    · exact .inr ⟨hP, hnone, hsame.trans hmade⟩
    · rw [hmade] at hnone'
      cases hnone'

theorem Adds.mono (h : d.Adds P d') (hPQ : ∀ loc, P loc → Q loc) : d.Adds Q d' where
  workingDirectory := h.workingDirectory
  get? loc := (h.get? loc).imp_right fun hmade ↦ ⟨hPQ loc hmade.1, hmade.2⟩

theorem Adds.isProper (h : d.Adds P d') (hd : d.IsProper)
    (hP : ∀ loc, P loc → ∀ name ∈ loc, isFileName name = true) : d'.IsProper := by
  refine ⟨?_, fun loc hloc ↦ ?_⟩
  · rw [h.workingDirectory]
    exact hd.workingDirectory
  · rcases h.get? loc with hsame | ⟨hmade, -⟩
    · rw [hsame] at hloc
      exact hd.get? loc hloc
    · exact hP loc hmade

theorem isProper_of_all (hworking : d.workingDirectory.all isFileName = true)
    (h : d.tree.entries.all (fun entry ↦ entry.1.all isFileName) = true) : d.IsProper := by
  refine ⟨List.all_eq_true.1 hworking, fun loc hloc ↦ ?_⟩
  cases loc with
  | nil => simp
  | cons name names =>
    obtain ⟨entry, hmem, hplace⟩ := List.lookup_isSome_iff.1 hloc
    rw [eq_of_beq hplace]
    exact List.all_eq_true.1 (List.all_eq_true.1 h entry hmem)

/-- A directory of a disk lists names of files only. -/
theorem IsProper.isFileName_of_readDirectory (h : d.IsProper) {entries : List (String × Entry)}
    (hread : d.readDirectory path = .ok entries) :
    ∀ child ∈ entries, isFileName child.1 = true := by
  obtain ⟨⟨loc, e⟩, -, hlist⟩ := Yaml.exists_of_bind_ok hread
  cases e with
  | file content => cases hlist
  | directory =>
    cases hlist
    intro child hchild
    obtain ⟨⟨place, e⟩, hmem, hplace⟩ := List.mem_filterMap.1 hchild
    cases hlast : place.getLast? with
    | none =>
      simp only [hlast] at hplace
      cases hplace
    | some name =>
      simp only [hlast] at hplace
      split at hplace
      · cases hplace
        exact h.get? place (Tree.isSome_get?_of_mem hmem) name (List.mem_of_getLast? hlast)
      · cases hplace

/-! ## Files -/

theorem writeFile_keeps {content : List UInt8} (h : d.writeFile path content = .ok d') :
    d.Keeps (· ≠ locate d.workingDirectory path) d' := by
  obtain ⟨loc, hloc, hwrite⟩ := Yaml.exists_of_bind_ok h
  split at hwrite
  · cases hwrite
  · cases hwrite
    refine ⟨rfl, fun other hother ↦ ?_⟩
    rw [← resolve_eq hloc] at hother
    exact Tree.get?_put_of_ne hother

theorem copyFile_keeps {source : String} (h : d.copyFile source path = .ok d') :
    d.Keeps (· ≠ locate d.workingDirectory path) d' := by
  obtain ⟨⟨loc, e⟩, -, hcopy⟩ := Yaml.exists_of_bind_ok h
  cases e with
  | file content => exact writeFile_keeps hcopy
  | directory => cases hcopy

/-! ## Directories -/

theorem locate_bare (workingDirectory : Location) (path : String) :
    let bare := String.ofList (Text.dropEndWhile (· = '/') path.toList)
    locate workingDirectory (if bare.isEmpty then path else bare) =
      locate workingDirectory path := by
  intro bare
  obtain ⟨slashes, hchars, hslashes⟩ := Text.exists_dropEndWhile_append (· = '/') path.toList
  have hpath : path = bare ++ String.ofList slashes := by
    apply String.toList_inj.1
    simpa [bare] using hchars
  split
  · rfl
  · rename_i hne
    rw [hpath]
    exact (locate_append_slashes _ (by simpa using hne) (by simpa using hslashes)).symm

theorem makeDirectory_adds (h : d.makeDirectory path = .ok d') :
    d.Adds (· = locate d.workingDirectory path) d' := by
  obtain ⟨loc, hloc, hmake⟩ := Yaml.exists_of_bind_ok h
  have hplace : loc = locate d.workingDirectory path :=
    (resolve_eq hloc).trans (locate_bare d.workingDirectory path)
  split at hmake
  · cases hmake
  · rename_i hnone
    obtain ⟨_, -, hput⟩ := Yaml.exists_of_bind_ok hmake
    cases hput
    refine ⟨rfl, fun other ↦ ?_⟩
    by_cases hother : other = loc
    · have hne : loc ≠ [] := by
        rintro rfl
        cases hnone
      rw [hother]
      exact .inr ⟨hplace, hnone, Tree.get?_put hne⟩
    · exact .inl (Tree.get?_put_of_ne hother)

theorem ensureDirectory_adds (h : d.ensureDirectory path = .ok d') :
    d.Adds (· = locate d.workingDirectory path) d' := by
  unfold ensureDirectory at h
  split at h
  · rename_i made hmake
    cases h
    exact makeDirectory_adds hmake
  · split at h
    · cases h
      exact .refl d
    · cases h

theorem makeOutermost_adds {paths missing missing' : List String}
    (h : d.makeOutermost paths missing = .ok (d', missing')) :
    d.Adds (fun loc ↦ ∃ path ∈ paths, loc = locate d.workingDirectory path) d' ∧
      missing' ⊆ paths ++ missing := by
  induction paths generalizing missing with
  | nil =>
    cases h
    exact ⟨.refl d, List.Subset.refl _⟩
  | cons path paths ih =>
    unfold makeOutermost at h
    split at h
    · rename_i made hmake
      cases h
      have hadds := ensureDirectory_adds hmake
      exact ⟨hadds.mono fun loc hloc ↦ ⟨path, List.mem_cons_self, hloc⟩,
        List.subset_append_right _ _⟩
    · obtain ⟨hadds, hsubset⟩ := ih h
      refine ⟨hadds.mono fun loc ⟨other, hother, hloc⟩ ↦
        ⟨other, List.mem_cons_of_mem _ hother, hloc⟩, ?_⟩
      exact List.Subset.trans hsubset List.perm_middle.subset
    · cases h

theorem foldlM_ensureDirectory_adds {paths : List String}
    (h : paths.foldlM ensureDirectory d = .ok d') :
    d.Adds (fun loc ↦ ∃ path ∈ paths, loc = locate d.workingDirectory path) d' := by
  induction paths generalizing d with
  | nil =>
    cases h
    exact .refl _
  | cons path paths ih =>
    rw [List.foldlM_cons] at h
    obtain ⟨made, hmake, hrest⟩ := Yaml.exists_of_bind_ok h
    have hfirst := ensureDirectory_adds hmake
    have hothers := ih hrest
    rw [hfirst.workingDirectory] at hothers
    apply Adds.trans
    · exact hfirst.mono fun loc hloc ↦ ⟨path, List.mem_cons_self, hloc⟩
    · exact hothers.mono fun loc ⟨other, hother, hloc⟩ ↦
        ⟨other, List.mem_cons_of_mem _ hother, hloc⟩

/-- Directories are made on the way along the path. -/
theorem makeDirectories_adds (h : d.makeDirectories path = .ok d') :
    d.Adds (IsOnTheWay d.workingDirectory path) d' := by
  have hway : ∀ other ∈ path :: parents path,
      IsOnTheWay d.workingDirectory path (locate d.workingDirectory other) :=
    List.forall_mem_cons.2
      ⟨isOnTheWay_locate _ path, fun _ hother ↦ isOnTheWay_of_mem_parents _ hother⟩
  rw [makeDirectories] at h
  split at h
  · cases h
    exact .refl d
  obtain ⟨⟨made, missing⟩, houtermost, hrest⟩ := Yaml.exists_of_bind_ok h
  obtain ⟨hfirst, hmissing⟩ := makeOutermost_adds houtermost
  have hothers := foldlM_ensureDirectory_adds hrest
  rw [hfirst.workingDirectory] at hothers
  rw [List.append_nil] at hmissing
  apply Adds.trans
  · apply hfirst.mono
    rintro _ ⟨other, hother, rfl⟩
    exact hway other hother
  · apply hothers.mono
    rintro _ ⟨other, hother, rfl⟩
    exact hway other (hmissing hother)

/-! ## Scratch directories -/

theorem makeScratch_keeps {inside start : String} {scratch : Scratch}
    (h : d.makeScratch inside start = .ok (scratch, d')) :
    d.Keeps (¬ scratch.location <+: ·) d' := by
  obtain ⟨⟨loc, e⟩, -, hmake⟩ := Yaml.exists_of_bind_ok h
  cases e with
  | file content => cases hmake
  | directory =>
    cases hmake
    refine ⟨rfl, fun other hother ↦ Tree.get?_put_of_ne ?_⟩
    rintro rfl
    exact hother (List.prefix_refl _)

theorem removeAt_keeps (d : Disk) (loc : Location) : d.Keeps (¬ loc <+: ·) (d.removeAt loc) :=
  ⟨rfl, fun _ hother ↦ Tree.get?_remove hother⟩

end Disk

end FolderCommands
