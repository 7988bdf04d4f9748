import Mathlib
import FolderCommands.Proofs.Files.Changes

/-!
# Emptying a directory

Where every file lies in a directory, as on any real disk, removing all that is directly inside a
directory removes all that is below it. So two disks that differ below that directory only are the
same disk once it has been emptied, whatever files and directories had been put there.
-/

namespace FolderCommands

/-- Whether a location lies below another one. -/
def Location.isBelow (loc other : Location) : Bool :=
  other.isPrefixOf loc && loc ≠ other

theorem Location.isBelow_iff {loc other : Location} :
    loc.isBelow other = true ↔ other <+: loc ∧ loc ≠ other := by
  rw [isBelow, Bool.and_eq_true, List.isPrefixOf_iff_prefix, decide_eq_true_eq]

theorem Location.isBelow_append (loc : Location) {rest : List String} (h : rest ≠ []) :
    Location.isBelow (loc ++ rest) loc = true :=
  isBelow_iff.2 ⟨List.prefix_append _ _, fun heq ↦ h (List.append_right_eq_self.1 heq)⟩

theorem Location.exists_of_isBelow {loc other : Location} (h : loc.isBelow other = true) :
    ∃ name rest, loc = other ++ name :: rest := by
  obtain ⟨⟨rest, rfl⟩, hne⟩ := isBelow_iff.1 h
  cases rest with
  | nil => exact absurd (List.append_nil other) hne
  | cons name rest => exact ⟨name, rest, rfl⟩

namespace Tree

variable {t : Tree} {loc other : Location} {e : Entry}

/-- A tree without what is below a location. -/
def emptied (t : Tree) (loc : Location) : Tree :=
  ⟨t.entries.filter fun entry ↦ !entry.1.isBelow loc⟩

/-- Whether everything in a tree lies in a directory. -/
def IsClosed (t : Tree) : Prop :=
  ∀ loc name, (t.get? (loc ++ [name])).isSome → t.get? loc = some .directory

theorem get?_eq_lookup (t : Tree) (h : loc ≠ []) : t.get? loc = t.entries.lookup loc := by
  cases loc with
  | nil => exact absurd rfl h
  | cons name names => rfl

theorem lookup_filter (p : Location → Bool) (entries : List (Location × Entry)) :
    (entries.filter fun entry ↦ p entry.1).lookup loc =
      if p loc then entries.lookup loc else none := by
  induction entries with
  | nil => simp
  | cons entry entries ih =>
    obtain ⟨place, e⟩ := entry
    by_cases hplace : loc = place
    · subst hplace
      cases hp : p loc with
      | true => rw [List.filter_cons_of_pos (by simpa using hp), List.lookup_cons_self,
          List.lookup_cons_self, if_pos rfl]
      | false =>
        rw [List.filter_cons_of_neg (by simp [hp]), ih, hp]
        rfl
    · rw [lookup_cons_of_ne hplace, ← ih]
      cases hp : p place with
      | true => rw [List.filter_cons_of_pos (by simpa using hp), lookup_cons_of_ne hplace]
      | false => rw [List.filter_cons_of_neg (by simp [hp])]

theorem get?_emptied (t : Tree) (loc other : Location) :
    (t.emptied loc).get? other = if other.isBelow loc then none else t.get? other := by
  by_cases hne : other = []
  · have hnot : Location.isBelow [] loc = false := by
      cases loc <;> rfl
    rw [hne, hnot]
    rfl
  · rw [get?_eq_lookup _ hne, get?_eq_lookup _ hne]
    refine (lookup_filter (fun place ↦ !place.isBelow loc) t.entries).trans ?_
    cases other.isBelow loc <;> rfl

theorem get?_remove_of_prefix (hne : other ≠ []) (h : loc <+: other) :
    (t.remove loc).get? other = none := by
  rw [get?_eq_lookup _ hne]
  refine (lookup_filter (fun place ↦ !loc.isPrefixOf place) t.entries).trans ?_
  rw [List.isPrefixOf_iff_prefix.2 h]
  rfl

theorem emptied_emptied (t : Tree) (loc : Location) : (t.emptied loc).emptied loc = t.emptied loc := by
  simp [emptied]

/-- What is put below a location is of no account once that is emptied. -/
theorem emptied_put (t : Tree) (e : Entry) (h : other.isBelow loc = true) :
    (t.put other e).emptied loc = t.emptied loc := by
  obtain ⟨entries⟩ := t
  rw [put]
  split
  · rfl
  rw [emptied, emptied, mk.injEq]
  dsimp only
  induction entries with
  | nil => simp [putInto, h]
  | cons entry entries ih =>
    obtain ⟨place, old⟩ := entry
    rw [putInto]
    split
    · rename_i hplace
      subst hplace
      rw [List.filter_cons_of_neg (by simp [h]), List.filter_cons_of_neg (by simp [h])]
    · rw [List.filter_cons, List.filter_cons, ih]

/-! ## Closed trees -/

theorem isClosed_of_all
    (h : t.entries.all (fun entry ↦ t.get? entry.1.dropLast = some .directory) = true) :
    t.IsClosed := by
  intro loc name hsome
  rw [get?_eq_lookup _ (by simp)] at hsome
  obtain ⟨entry, hmem, hplace⟩ := List.lookup_isSome_iff.1 hsome
  have haround := List.all_eq_true.1 h entry hmem
  rwa [← eq_of_beq hplace, List.dropLast_concat, decide_eq_true_eq] at haround

theorem IsClosed.get?_of_append (h : t.IsClosed) {name : String} {rest : List String}
    (hsome : (t.get? (loc ++ name :: rest)).isSome) : t.get? loc = some .directory := by
  induction rest generalizing loc name with
  | nil => exact h loc name hsome
  | cons next rest ih =>
    rw [List.append_cons] at hsome
    exact h loc name (by rw [ih hsome]; rfl)

theorem IsClosed.isSome_get?_child (h : t.IsClosed) {name : String} {rest : List String}
    (hsome : (t.get? (loc ++ name :: rest)).isSome) : (t.get? (loc ++ [name])).isSome := by
  cases rest with
  | nil => exact hsome
  | cons next rest =>
    rw [List.append_cons] at hsome
    rw [h.get?_of_append hsome]
    rfl

theorem exists_mem_of_isSome_get? (t : Tree) {name : String}
    (h : (t.get? (loc ++ [name])).isSome) : ∃ e, (loc ++ [name], e) ∈ t.entries := by
  rw [get?_eq_lookup _ (by simp)] at h
  obtain ⟨⟨place, e⟩, hmem, hplace⟩ := List.lookup_isSome_iff.1 h
  rw [eq_of_beq hplace]
  exact ⟨e, hmem⟩

theorem isClosed_emptied (h : t.IsClosed) (loc : Location) : (t.emptied loc).IsClosed := by
  intro other name hsome
  rw [get?_emptied] at hsome ⊢
  split at hsome
  · cases hsome
  rename_i hbelow
  rw [if_neg ?_]
  · exact h other name hsome
  · intro hother
    obtain ⟨first, rest, rfl⟩ := Location.exists_of_isBelow hother
    rw [List.append_assoc] at hbelow
    exact hbelow (Location.isBelow_append _ (by simp))

/-- What is put into a directory where it takes the place of no directory. -/
theorem IsClosed.put (h : t.IsClosed) {name : String} (hloc : t.get? loc = some .directory)
    (hold : t.get? (loc ++ [name]) ≠ some .directory) : (t.put (loc ++ [name]) e).IsClosed := by
  intro other child hsome
  have hother : t.get? other = some .directory := by
    by_cases hplace : other ++ [child] = loc ++ [name]
    · rw [(List.append_inj' hplace rfl).1]
      exact hloc
    · rw [get?_put_of_ne hplace] at hsome
      exact h other child hsome
  rw [get?_put_of_ne ?_]
  · exact hother
  · rintro rfl
    exact hold hother

theorem mem_children {name : String} :
    (name, e) ∈ t.children loc ↔ (loc ++ [name], e) ∈ t.entries := by
  simp only [children, List.mem_filterMap]
  constructor
  · rintro ⟨⟨place, e'⟩, hmem, hplace⟩
    dsimp only at hplace
    split at hplace
    · rename_i last hlast
      split at hplace
      · rename_i hinside
        cases hplace
        obtain ⟨around, rfl⟩ := List.getLast?_eq_some_iff.1 hlast
        rwa [← hinside, List.dropLast_concat]
      · cases hplace
    · cases hplace
  · intro hmem
    exact ⟨_, hmem, by simp⟩

end Tree

namespace Disk

open LocalPath

variable {d d' : Disk} {loc : Location} {path : String}

/-- A disk without what is below a location. -/
def emptied (d : Disk) (loc : Location) : Disk :=
  { d with tree := d.tree.emptied loc }

theorem foldl_removeAt (names : List String) (d : Disk) :
    names.foldl (fun d name ↦ d.removeAt (loc ++ [name])) d =
      { d with tree := ⟨d.tree.entries.filter fun entry ↦
        names.all fun name ↦ !(loc ++ [name]).isPrefixOf entry.1⟩ } := by
  induction names generalizing d with
  | nil =>
    have hall : (d.tree.entries.filter fun _ ↦ true) = d.tree.entries :=
      List.filter_eq_self.2 fun _ _ ↦ rfl
    simp only [List.foldl_nil, List.all_nil, hall]
  | cons name names ih =>
    rw [List.foldl_cons, ih]
    simp only [removeAt, Tree.remove, List.filter_filter, List.all_cons, Bool.and_comm]

theorem mem_names_children {t : Tree} {name : String} :
    name ∈ (t.children loc).map (·.1) ↔ ∃ e, (loc ++ [name], e) ∈ t.entries := by
  simp only [List.mem_map, Prod.exists, exists_and_right, exists_eq_right, Tree.mem_children]

/-- Where everything lies in a directory, a directory is emptied by removing what is directly
inside. -/
theorem clearDirectory_eq (hclosed : d.tree.IsClosed)
    (h : d.entry path = .ok (loc, .directory)) :
    d.clearDirectory path = .ok (d.emptied loc) := by
  have hnames : (d.tree.children loc).foldl (fun d child ↦ d.removeAt (loc ++ [child.1])) d =
      ((d.tree.children loc).map (·.1)).foldl (fun d name ↦ d.removeAt (loc ++ [name])) d := by
    rw [List.foldl_map]
  rw [clearDirectory, h]
  change Except.ok _ = _
  rw [hnames, foldl_removeAt, emptied, Tree.emptied]
  congr 3
  apply List.filter_congr
  rintro ⟨place, e⟩ hmem
  rw [Bool.eq_iff_iff, List.all_eq_true, Bool.not_eq_true', ← Bool.not_eq_true]
  constructor
  · intro hnames hbelow
    obtain ⟨name, rest, rfl⟩ := Location.exists_of_isBelow hbelow
    refine absurd (hnames name (mem_names_children.2 ?_)) (by simp)
    exact d.tree.exists_mem_of_isSome_get? (hclosed.isSome_get?_child (Tree.isSome_get?_of_mem hmem))
  · intro hbelow name _
    rw [Bool.not_eq_true', ← Bool.not_eq_true, List.isPrefixOf_iff_prefix]
    rintro ⟨rest, rfl⟩
    rw [List.append_assoc] at hbelow
    exact hbelow (Location.isBelow_append _ (by simp))

theorem IsProper.put (h : d.IsProper) (e : Entry) (hloc : ∀ name ∈ loc, isFileName name = true) :
    IsProper { d with tree := d.tree.put loc e } := by
  refine ⟨h.workingDirectory, fun other hsome ↦ ?_⟩
  by_cases hother : other = loc
  · rwa [hother]
  · rw [Tree.get?_put_of_ne hother] at hsome
    exact h.get? other hsome

/-- A disk with a file at a location. -/
def withFile (d : Disk) (loc : Location) (content : List UInt8) : Disk :=
  { d with tree := d.tree.put loc (.file content) }

/-! ## Following paths -/

theorem requireDirectory_eq (h : d.tree.get? loc = some .directory) :
    d.requireDirectory loc = .ok () := by
  rw [requireDirectory, h]

theorem get?_of_requireDirectory (h : d.requireDirectory loc = .ok ()) :
    d.tree.get? loc = some .directory := by
  rw [requireDirectory] at h
  split at h
  · cases h
  · assumption
  · cases h

/-- A path that leads somewhere still leads there if there are more directories. -/
theorem follow_mono
    (h : ∀ loc, d.tree.get? loc = some .directory → d'.tree.get? loc = some .directory)
    {origin : Location} {names : List String} (hfollow : d.follow origin names = .ok loc) :
    d'.follow origin names = .ok loc := by
  induction names generalizing origin with
  | nil => exact hfollow
  | cons name names ih =>
    rw [follow] at hfollow ⊢
    obtain ⟨_, hdirectory, hstep⟩ := Yaml.exists_of_bind_ok hfollow
    rw [requireDirectory_eq (h origin (get?_of_requireDirectory hdirectory))]
    change (if _ then _ else _) = _
    split at hstep
    · rename_i hdot
      rw [if_pos hdot]
      exact ih hstep
    rename_i hdot
    rw [if_neg hdot]
    split at hstep
    · rename_i hdots
      rw [if_pos hdots]
      exact ih hstep
    rename_i hdots
    rw [if_neg hdots]
    split at hstep
    · cases hstep
    · rename_i hlength
      rw [if_neg hlength]
      exact ih hstep

theorem resolve_mono (hworking : d'.workingDirectory = d.workingDirectory)
    (h : ∀ loc, d.tree.get? loc = some .directory → d'.tree.get? loc = some .directory)
    (hresolve : d.resolve path = .ok loc) : d'.resolve path = .ok loc := by
  obtain ⟨hzero, hempty, hfollow⟩ := follow_of_resolve hresolve
  rw [resolve, if_neg (Bool.eq_false_iff.1 hzero), if_neg (Bool.eq_false_iff.1 hempty), hworking]
  exact follow_mono h hfollow

theorem follow_append {origin : Location} {names names' : List String} :
    d.follow origin (names ++ names') = d.follow origin names >>= fun loc ↦ d.follow loc names' := by
  induction names generalizing origin with
  | nil => rfl
  | cons name names ih =>
    rw [List.cons_append, follow, follow]
    cases d.requireDirectory origin with
    | error fault => rfl
    | ok _ =>
      change (if _ then _ else _) = (if _ then _ else _ : Result Location) >>= _
      by_cases hdot : name = "."
      · rw [if_pos hdot, if_pos hdot]
        exact ih
      by_cases hdots : name = ".."
      · rw [if_neg hdot, if_neg hdot, if_pos hdots, if_pos hdots]
        exact ih
      rw [if_neg hdot, if_neg hdot, if_neg hdots, if_neg hdots]
      by_cases hlength : 255 < Text.byteLength name.toList
      · rw [if_pos hlength, if_pos hlength]
        rfl
      · rw [if_neg hlength, if_neg hlength]
        exact ih

end Disk

/-! ## Scratch directories -/

namespace LocalPath

theorem slash_notMem {name : String} (h : isFileName name = true) : '/' ∉ name.toList := by
  rw [isFileName, Bool.and_eq_true] at h
  simpa using h.2

/-- The names along a path. -/
def names (path : String) : List String :=
  (Text.split '/' path).filter (· ≠ "")

/-- A path that is joined to another one goes on behind it. -/
theorem names_join (base : String) {child : String} (hchild : isAbsolute child = false) :
    names (join base child) = names base ++ names child := by
  rw [join, hchild, Bool.false_or]
  split
  · rename_i hempty
    have hbase : base = "" := by simpa using hempty
    rw [hbase]
    rfl
  split
  · rename_i hslash
    obtain ⟨cs, hchars⟩ := List.getLast?_eq_some_iff.1 hslash
    have hbase : base = String.ofList cs ++ "/" := by
      apply String.toList_inj.1
      simp [hchars]
    have hfront := split_append_slash (String.ofList cs) ""
    rw [String.append_empty, ← hbase] at hfront
    rw [names, names, hfront, hbase, split_append_slash, List.filter_append, List.filter_append]
    simp [names, split_name]
  · rw [names, split_append_slash, List.filter_append]
    rfl

theorem start_join (workingDirectory : Location) (base : String) {child : String}
    (hchild : isAbsolute child = false) :
    start workingDirectory (join base child) = start workingDirectory base := by
  obtain ⟨_, -, -, hstart, -⟩ := @exists_split_join base child workingDirectory hchild
  exact hstart

theorem contains_zero_join {base child : String} (hchild : isAbsolute child = false)
    (hbase : base.toList.contains '\x00' = false) :
    (join base child).toList.contains '\x00' = child.toList.contains '\x00' := by
  have hnot : '\x00' ∉ base.toList := by simpa using hbase
  rw [join, hchild, Bool.false_or]
  split
  · rfl
  split <;> simp [hnot]

theorem names_name {name : String} (h : isFileName name = true) : names name = [name] := by
  have hne : name ≠ "" := by
    rintro rfl
    cases h
  rw [names, split_name (slash_notMem h)]
  simp [hne]

theorem names_join_name (base : String) {name : String} (h : isFileName name = true) :
    names (join base name) = names base ++ [name] := by
  rw [names_join base (isAbsolute_of_notMem (slash_notMem h)), names_name h]

/-- The names along the path from the root to a place. -/
theorem names_ofComponents {loc : Location} (h : ∀ name ∈ loc, isFileName name = true) :
    names (ofComponents true loc) = loc := by
  have hne : ∀ name ∈ loc, name ≠ "" := by
    rintro _ hname rfl
    cases h _ hname
  have hnames : (Text.split '/' (Text.joinWith "/" loc)).filter (· ≠ "") = loc := by
    by_cases hroot : loc = []
    · rw [hroot]
      rfl
    · rw [split_joinWith hroot fun name hname ↦ slash_notMem (h name hname)]
      exact List.filter_eq_self.2 fun name hname ↦ by simpa using hne name hname
  have hrooted := split_append_slash "" (Text.joinWith "/" loc)
  rw [String.empty_append] at hrooted
  rw [names, ofComponents, if_pos rfl, hrooted, List.filter_append, hnames]
  rfl

/-- Whether there may be anything at a path, as far as its text goes. -/
def IsFit (path : String) : Prop :=
  path.toList.contains '\x00' = false ∧ ∀ name ∈ names path, Text.byteLength name.toList ≤ 255

theorem IsFit.of_join {base name : String} (hname : isFileName name = true)
    (h : IsFit (join base name)) :
    IsFit base ∧ name.toList.contains '\x00' = false ∧ Text.byteLength name.toList ≤ 255 := by
  obtain ⟨hzero, hlength⟩ := h
  rw [names_join_name base hname, List.forall_mem_append] at hlength
  have hboth : base.toList.contains '\x00' = false ∧ name.toList.contains '\x00' = false := by
    rw [join, isAbsolute_of_notMem (slash_notMem hname), Bool.false_or] at hzero
    split at hzero
    · rename_i hempty
      have hbase : base = "" := by simpa using hempty
      rw [hbase]
      exact ⟨rfl, hzero⟩
    split at hzero <;> simp_all
  exact ⟨⟨hboth.1, hlength.1⟩, hboth.2, hlength.2 name (List.mem_singleton_self name)⟩

theorem getLast?_join_name (base : String) {name : String} (h : isFileName name = true) :
    (join base name).toList.getLast? ≠ some '/' := by
  have hne : name.toList ≠ [] := by
    intro hempty
    have hname : name = "" := by simpa using hempty
    rw [hname] at h
    cases h
  have hlast : name.toList.getLast? = some (name.toList.getLast hne) :=
    List.getLast?_eq_some_getLast hne
  have hslash : name.toList.getLast hne ≠ '/' :=
    fun heq ↦ slash_notMem h (heq ▸ List.getLast_mem hne)
  rw [join, isAbsolute_of_notMem (slash_notMem h), Bool.false_or]
  split
  · rw [hlast]
    simpa using hslash
  split <;> simp [List.getLast?_cons, hlast, hslash]

/-- The steps to a file are the names along its path. -/
theorem steps_join_name (base : String) {name : String} (h : isFileName name = true) :
    steps (join base name) = names (join base name) := by
  have hne : name ≠ "" := by
    rintro rfl
    cases h
  obtain ⟨front, hsplit, -⟩ := @exists_split_join base name []
    (isAbsolute_of_notMem (slash_notMem h))
  have hlast : (Text.split '/' (join base name)).getLast? = some name := by
    rw [hsplit, split_name (slash_notMem h), List.getLast?_concat]
  rw [steps, hlast]
  simp [hne, names]

theorem steps_ne_nil {path : String} (hne : path ≠ "") (h : isAbsolute path = false) :
    steps path ≠ [] := by
  obtain ⟨c, cs, hchars⟩ := List.exists_cons_of_ne_nil (l := path.toList) (by simpa using hne)
  have hc : c ≠ '/' := by
    rintro rfl
    rw [isAbsolute, hchars] at h
    cases h
  obtain ⟨piece, rest, hpieces⟩ := List.exists_cons_of_ne_nil (Text.pieces_ne_nil '/' cs)
  have hnames : names path ≠ [] := by
    rw [names, Text.split, hchars, Text.pieces, if_neg hc, hpieces]
    simp
  rw [steps]
  split
  · simp
  · exact hnames

end LocalPath

namespace Disk

open LocalPath

variable {d d' : Disk} {loc : Location} {path : String}

theorem follow_names {origin : Location} (h : d.follow origin (steps path) = .ok loc) :
    d.follow origin (names path) = .ok loc := by
  rw [steps] at h
  split at h
  · rw [follow_append] at h
    obtain ⟨place, hplace, hlast⟩ := Yaml.exists_of_bind_ok h
    rw [follow] at hlast
    obtain ⟨_, -, hlast⟩ := Yaml.exists_of_bind_ok hlast
    cases hlast
    exact hplace
  · exact h

theorem byteLength_of_follow {origin : Location} {names : List String}
    (h : d.follow origin names = .ok loc) : ∀ name ∈ names, Text.byteLength name.toList ≤ 255 := by
  induction names generalizing origin with
  | nil => simp
  | cons name names ih =>
    rw [follow] at h
    obtain ⟨_, -, h⟩ := Yaml.exists_of_bind_ok h
    rw [List.forall_mem_cons]
    split at h
    · rename_i hdot
      rw [hdot]
      exact ⟨by decide, ih h⟩
    split at h
    · rename_i hdots
      rw [hdots]
      exact ⟨by decide, ih h⟩
    split at h
    · cases h
    · rename_i hlength
      exact ⟨Nat.not_lt.1 hlength, ih h⟩

/-- A relative path leads on from a working directory that is there. -/
theorem get?_workingDirectory (hrelative : isAbsolute path = false) (h : d.resolve path = .ok loc) :
    d.tree.get? d.workingDirectory = some .directory := by
  obtain ⟨-, hempty, hfollow⟩ := follow_of_resolve h
  obtain ⟨first, rest, hsteps⟩ :=
    List.exists_cons_of_ne_nil (steps_ne_nil (by simpa using hempty) hrelative)
  rw [hrelative, hsteps, follow] at hfollow
  obtain ⟨_, hrequire, -⟩ := Yaml.exists_of_bind_ok hfollow
  exact get?_of_requireDirectory hrequire

/-- A path that leads somewhere is one that may. -/
theorem isFit_of_resolve (h : d.resolve path = .ok loc) : IsFit path := by
  obtain ⟨hzero, -, hfollow⟩ := follow_of_resolve h
  exact ⟨hzero, byteLength_of_follow (follow_names hfollow)⟩

/-- Names that are not too long lead down to a directory that is there. -/
theorem follow_of_isDirectory (hclosed : d.tree.IsClosed) {origin : Location} {names : List String}
    (hnames : ∀ name ∈ names, isFileName name = true)
    (hlength : ∀ name ∈ names, Text.byteLength name.toList ≤ 255)
    (h : d.tree.get? (origin ++ names) = some .directory) :
    d.follow origin names = .ok (origin ++ names) := by
  induction names generalizing origin with
  | nil => rw [follow, List.append_nil]
  | cons name names ih =>
    obtain ⟨hname, hrest⟩ := List.forall_mem_cons.1 hnames
    obtain ⟨hshort, hshorter⟩ := List.forall_mem_cons.1 hlength
    have hdot : name ≠ "." := by
      rintro rfl
      cases hname
    have hdots : name ≠ ".." := by
      rintro rfl
      cases hname
    have horigin := hclosed.get?_of_append (by rw [h]; rfl)
    rw [List.append_cons] at h ⊢
    rw [follow, requireDirectory_eq horigin]
    simp only [bind, Except.bind, if_neg hdot, if_neg hdots, if_neg (Nat.not_lt.2 hshort)]
    exact ih hrest hshorter h

/-- Where a file of some name in a directory is, if there may be one. -/
def place (loc : Location) (name : String) : Result Location :=
  if name.toList.contains '\x00' then .error .zeroInName
  else if 255 < Text.byteLength name.toList then .error .nameTooLong
  else .ok (loc ++ [name])

theorem place_eq {name : String} {other : Location} (h : place loc name = .ok other) :
    other = loc ++ [name] := by
  rw [place] at h
  split at h
  · cases h
  · split at h
    · cases h
    · cases h
      rfl

theorem resolve_join_of_follow {base name : String} (hname : isFileName name = true)
    (hzero : base.toList.contains '\x00' = false)
    (hbase : d.follow (start d.workingDirectory (join base name)) (names base) = .ok loc)
    (hdirectory : d.tree.get? loc = some .directory) :
    d.resolve (join base name) = place loc name := by
  have hslash := isAbsolute_of_notMem (slash_notMem hname)
  have hne : name ≠ "" := by
    rintro rfl
    cases hname
  have hdot : name ≠ "." := by
    rintro rfl
    cases hname
  have hdots : name ≠ ".." := by
    rintro rfl
    cases hname
  have hempty : (join base name).isEmpty = false := by
    rw [join, hslash, Bool.false_or]
    split
    · simpa using hne
    split <;> simp [hne]
  have hstep : d.follow loc [name] = if 255 < Text.byteLength name.toList then .error .nameTooLong
      else .ok (loc ++ [name]) := by
    rw [follow, requireDirectory_eq hdirectory]
    change (if _ then _ else _) = _
    rw [if_neg hdot, if_neg hdots]
    rfl
  rw [resolve, contains_zero_join hslash hzero, hempty, place, steps_join_name base hname, names_join_name base hname,
    follow_append]
  change (if _ then _ else if false = true then _ else
    d.follow (start d.workingDirectory (join base name)) (names base) >>= _) = _
  rw [hbase]
  exact congrArg (ite _ _) hstep

end Disk

namespace Scratch

open LocalPath

/-- Whether a scratch directory is where its path leads, whatever is in it, on a disk on which
everything lies in a directory under the name of a file. -/
structure IsReady (scratch : Scratch) (d : Disk) : Prop where
  resolve_emptied : (d.emptied scratch.location).resolve scratch.path = .ok scratch.location
  isDirectory : d.tree.get? scratch.location = some .directory
  isClosed : d.tree.IsClosed
  isProper : d.IsProper
  isBare : scratch.path.toList.getLast? ≠ some '/'

namespace IsReady

variable {scratch : Scratch} {d d' : Disk}

theorem resolve (h : scratch.IsReady d) : d.resolve scratch.path = .ok scratch.location := by
  refine Disk.resolve_mono (d := d.emptied scratch.location) rfl (fun loc hloc ↦ ?_)
    h.resolve_emptied
  rw [Disk.emptied, Tree.get?_emptied] at hloc
  split at hloc
  · cases hloc
  · exact hloc

theorem entry (h : scratch.IsReady d) :
    d.entry scratch.path = .ok (scratch.location, .directory) := by
  simp only [Disk.entry, h.resolve, bind, Except.bind, h.isDirectory]

theorem clearDirectory_eq (h : scratch.IsReady d) :
    d.clearDirectory scratch.path = .ok (d.emptied scratch.location) :=
  Disk.clearDirectory_eq h.isClosed h.entry

/-- What is below a scratch directory does not decide whether it is ready. -/
theorem of_emptied_eq (h : scratch.IsReady d)
    (heq : d'.emptied scratch.location = d.emptied scratch.location)
    (hclosed : d'.tree.IsClosed) (hproper : d'.IsProper) : scratch.IsReady d' where
  resolve_emptied := by
    rw [heq]
    exact h.resolve_emptied
  isDirectory := by
    have hself : Location.isBelow scratch.location scratch.location = false := by
      simp [Location.isBelow]
    have hplace (d : Disk) : (d.emptied scratch.location).tree.get? scratch.location =
        d.tree.get? scratch.location := by
      rw [Disk.emptied, Tree.get?_emptied, hself]
      rfl
    rw [← hplace, heq, hplace]
    exact h.isDirectory
  isClosed := hclosed
  isProper := hproper
  isBare := h.isBare

theorem emptied (h : scratch.IsReady d) : scratch.IsReady (d.emptied scratch.location) := by
  refine h.of_emptied_eq ?_ (Tree.isClosed_emptied h.isClosed _) ⟨h.isProper.workingDirectory, ?_⟩
  · rw [Disk.emptied, Disk.emptied, Tree.emptied_emptied]
  · intro loc hsome
    rw [Disk.emptied, Tree.get?_emptied] at hsome
    split at hsome
    · cases hsome
    · exact h.isProper.get? loc hsome

/-- The scratch directory need not be made again. -/
theorem makeDirectories_eq (h : scratch.IsReady d) :
    d.makeDirectories scratch.path = .ok d := by
  have hbare : String.ofList (Text.dropEndWhile (· = '/') scratch.path.toList) = scratch.path := by
    rw [Text.dropEndWhile_eq_self_of_getLast, String.ofList_toList]
    intro c hc
    rw [decide_eq_false_iff_not]
    rintro rfl
    exact h.isBare hc
  have hensure : d.ensureDirectory scratch.path = .ok d := by
    have hmake : d.makeDirectory scratch.path = .error .alreadyExists := by
      simp only [Disk.makeDirectory, hbare, ite_self, h.resolve, bind, Except.bind, h.isDirectory]
    rw [Disk.ensureDirectory, hmake, Disk.isDirectory, h.entry]
    rfl
  rw [Disk.makeDirectories]
  split
  · rfl
  · rw [Disk.makeOutermost, hensure]
    rfl

/-- Files of a scratch directory have their places. -/
theorem resolve_join (h : scratch.IsReady d) {name : String} (hname : isFileName name = true) :
    d.resolve (join scratch.path name) = Disk.place scratch.location name := by
  obtain ⟨hzero, -, hfollow⟩ := Disk.follow_of_resolve h.resolve
  refine Disk.resolve_join_of_follow hname hzero ?_ h.isDirectory
  rw [start_join _ _ (isAbsolute_of_notMem (slash_notMem hname))]
  exact Disk.follow_names hfollow

/-- A file can be written into an empty scratch directory if there is a place for it. -/
theorem writeFile_emptied (h : scratch.IsReady d) {name : String} (hname : isFileName name = true)
    (content : List UInt8) :
    (d.emptied scratch.location).writeFile (join scratch.path name) content =
      (Disk.place scratch.location name).map fun loc ↦ (d.emptied scratch.location).withFile loc content := by
  have hempty : (d.emptied scratch.location).tree.get? (scratch.location ++ [name]) = none := by
    rw [Disk.emptied, Tree.get?_emptied, Location.isBelow_append _ (by simp)]
    rfl
  rw [Disk.writeFile, h.emptied.resolve_join hname]
  cases hplace : Disk.place scratch.location name with
  | error fault => rfl
  | ok loc =>
    change (if (d.emptied scratch.location).tree.isDirectory loc then _ else _) = _
    rw [Disk.place_eq hplace, Tree.isDirectory, hempty]
    rfl

theorem emptied_withFile (d : Disk) (name : String) (content : List UInt8) :
    ((d.emptied scratch.location).withFile (scratch.location ++ [name]) content).emptied
      scratch.location = d.emptied scratch.location := by
  rw [Disk.withFile, Disk.emptied, Disk.emptied,
    Tree.emptied_put _ _ (Location.isBelow_append _ (by simp)), Tree.emptied_emptied]

/-- A scratch directory stays ready if a file is put into it once it has been emptied. -/
theorem withFile (h : scratch.IsReady d) {name : String} (hname : isFileName name = true)
    (content : List UInt8) :
    scratch.IsReady ((d.emptied scratch.location).withFile (scratch.location ++ [name]) content) := by
  have hempty : (d.emptied scratch.location).tree.get? (scratch.location ++ [name]) = none := by
    rw [Disk.emptied, Tree.get?_emptied, Location.isBelow_append _ (by simp)]
    rfl
  refine h.of_emptied_eq (emptied_withFile d name content) ?_ (h.emptied.isProper.put _ ?_)
  · apply h.emptied.isClosed.put h.emptied.isDirectory
    rw [hempty]
    simp
  · rw [List.forall_mem_append]
    exact ⟨h.isProper.get? _ (by rw [h.isDirectory]; rfl), by simpa using hname⟩

end IsReady

end Scratch

/-! ## Fresh names -/

namespace Disk

open LocalPath

variable {d : Disk} {loc : Location}

/-- There are more candidates for a fresh name than names that are taken. -/
theorem exists_freshName (d : Disk) (loc : Location) (start : String) :
    ∃ n : Nat, d.freshName loc start = start ++ toString n ∧
      d.freshName loc start ∉ (d.tree.children loc).map (·.1) := by
  generalize htaken : (d.tree.children loc).map (·.1) = taken
  have hinjective : Function.Injective fun n : Nat ↦ start ++ toString n :=
    fun n m heq ↦ Nat.repr_inj.1 ((String.append_right_inj start).1 heq)
  have hcandidates := (List.nodup_range (n := taken.length + 1)).map hinjective
  cases hfind : ((List.range (taken.length + 1)).map fun n ↦ start ++ toString n).find?
      fun name ↦ !taken.contains name with
  | none =>
    have hsubset : ((List.range (taken.length + 1)).map fun n ↦ start ++ toString n) ⊆ taken := by
      intro name hname
      simpa using List.find?_eq_none.1 hfind name hname
    have hlength := (hcandidates.subperm hsubset).length_le
    rw [List.length_map, List.length_range] at hlength
    exact absurd hlength (by omega)
  | some name =>
    have hfresh : d.freshName loc start = name := by
      rw [freshName, htaken]
      exact congrArg (Option.getD · start) hfind
    obtain ⟨n, -, hn⟩ := List.mem_map.1 (List.mem_of_find?_eq_some hfind)
    rw [hfresh]
    exact ⟨n, hn.symm, by simpa using List.find?_some hfind⟩

theorem get?_freshName (d : Disk) (loc : Location) (start : String) :
    d.tree.get? (loc ++ [d.freshName loc start]) = none := by
  obtain ⟨n, -, hfresh⟩ := d.exists_freshName loc start
  rw [← Option.not_isSome_iff_eq_none]
  exact fun hsome ↦ hfresh (mem_names_children.2 (Tree.exists_mem_of_isSome_get? _ hsome))

theorem follow_names_of_resolve {path : String} (h : d.resolve path = .ok loc) :
    path.toList.contains '\x00' = false ∧
      d.follow (LocalPath.start d.workingDirectory path) (names path) = .ok loc := by
  obtain ⟨hzero, -, hfollow⟩ := follow_of_resolve h
  exact ⟨hzero, follow_names hfollow⟩

/-- The path by which the working directory does not matter leads where the path does. -/
theorem follow_names_absolute {inside : String} (hclosed : d.tree.IsClosed) (hproper : d.IsProper)
    (hfit : IsFit (d.absolute inside))
    (h : d.resolve (if inside.isEmpty then "." else inside) = .ok loc) :
    d.follow (LocalPath.start d.workingDirectory (d.absolute inside)) (names (d.absolute inside)) =
      .ok loc := by
  have hinside : d.follow (LocalPath.start d.workingDirectory inside) (names inside) = .ok loc := by
    by_cases hempty : inside.isEmpty
    · rw [if_pos hempty] at h
      have hpath : inside = "" := by simpa using hempty
      obtain ⟨-, hdot⟩ := follow_names_of_resolve h
      rw [hpath]
      change d.follow d.workingDirectory ["."] = .ok loc at hdot
      rw [follow] at hdot
      obtain ⟨_, -, hdot⟩ := Yaml.exists_of_bind_ok hdot
      exact hdot
    · rw [if_neg hempty] at h
      exact (follow_names_of_resolve h).2
  rw [absolute] at hfit ⊢
  split at hfit
  · rename_i habsolute
    rw [if_pos habsolute]
    exact hinside
  rename_i habsolute
  have hrelative : isAbsolute inside = false := Bool.eq_false_iff.2 habsolute
  have horigin : LocalPath.start d.workingDirectory inside = d.workingDirectory := by
    rw [LocalPath.start, hrelative]
    rfl
  rw [horigin] at hinside
  rw [if_neg habsolute]
  by_cases hroot : d.workingDirectory = []
  · have hjoin : join "" inside = inside := by
      simp [join]
    rw [decide_eq_false (not_not.2 hroot), hroot]
    change d.follow (LocalPath.start [] (join "" inside)) (names (join "" inside)) = .ok loc
    rw [hjoin, ← hroot, horigin]
    exact hinside
  -- the working directory is there, since the path leads on from it
  have hworking : d.tree.get? ([] ++ d.workingDirectory) = some .directory := by
    refine get?_workingDirectory ?_ h
    split
    · rfl
    · exact hrelative
  rw [decide_eq_true hroot] at hfit ⊢
  rw [IsFit, names_join _ hrelative, names_ofComponents hproper.workingDirectory,
    List.forall_mem_append] at hfit
  have hfollow := follow_of_isDirectory hclosed hproper.workingDirectory hfit.2.1 hworking
  have hstart : LocalPath.start d.workingDirectory (ofComponents true d.workingDirectory) = [] := by
    rw [LocalPath.start, if_pos]
    rw [ofComponents, if_pos rfl, isAbsolute_append (by decide)]
    decide
  rw [start_join _ _ hrelative, hstart, names_join _ hrelative,
    names_ofComponents hproper.workingDirectory, follow_append, hfollow]
  exact hinside

end Disk

namespace Scratch

open LocalPath

variable {scratch : Scratch} {d d' : Disk} {inside start : String}

theorem isDigit_of_mem_toString {n : Nat} {c : Char} (h : c ∈ (toString n).toList) :
    c.isDigit = true :=
  Nat.isDigit_of_mem_toDigits (by decide) (by decide) (Nat.toList_repr ▸ h)

/-- A number at the end of the name of a file. -/
theorem isFileName_append_toString (h : isFileName start = true) (n : Nat) :
    isFileName (start ++ toString n) = true := by
  have hslash : '/' ∉ (start ++ toString n).toList := by
    rw [String.toList_append, List.mem_append]
    rintro (hmem | hmem)
    · exact slash_notMem h hmem
    · exact absurd (isDigit_of_mem_toString hmem) (by decide)
  have hlast : ∃ c, (start ++ toString n).toList.getLast? = some c ∧ c.isDigit = true := by
    have hne : (toString n).toList ≠ [] := by
      rw [show (toString n).toList = Nat.toDigits 10 n from Nat.toList_repr]
      exact Nat.toDigits_ne_nil
    refine ⟨(toString n).toList.getLast hne, ?_, isDigit_of_mem_toString (List.getLast_mem hne)⟩
    rw [String.toList_append, List.getLast?_append, List.getLast?_eq_some_getLast hne]
    rfl
  obtain ⟨c, hlast, hdigit⟩ := hlast
  have hne {name : String} (hname : name.toList.getLast?.all (!·.isDigit) = true) :
      start ++ toString n ≠ name := by
    rintro rfl
    rw [hlast] at hname
    simp [hdigit] at hname
  rw [isFileName, decide_eq_true (hne (by decide)), decide_eq_true (hne (by decide)),
    decide_eq_true (hne (by decide))]
  simpa using hslash

theorem isReady_made {loc : Location} {name : String} (hclosed : d.tree.IsClosed)
    (hproper : d.IsProper)
    (hresolve : d.resolve (if inside.isEmpty then "." else inside) = .ok loc)
    (hdirectory : d.tree.get? loc = some .directory)
    (hfresh : d.tree.get? (loc ++ [name]) = none) (hname : isFileName name = true)
    (hfit : IsFit (join (d.absolute inside) name)) :
    IsReady ⟨join (d.absolute inside) name, loc ++ [name]⟩
      { d with tree := d.tree.put (loc ++ [name]) .directory } where
  resolve_emptied := by
    have hkept (other : Location) (h : d.tree.get? other = some .directory) :
        ((d.tree.put (loc ++ [name]) .directory).emptied (loc ++ [name])).get? other =
          some .directory := by
      rw [Tree.get?_emptied, if_neg, Tree.get?_put_of_ne, h]
      · rintro rfl
        rw [hfresh] at h
        cases h
      · intro hbelow
        obtain ⟨first, rest, rfl⟩ := Location.exists_of_isBelow hbelow
        rw [hclosed.get?_of_append (by rw [h]; rfl)] at hfresh
        cases hfresh
    obtain ⟨hinside, hzero, hlength⟩ := hfit.of_join hname
    have hfollow := Disk.follow_names_absolute hclosed hproper hinside hresolve
    have hplace : Disk.place loc name = .ok (loc ++ [name]) := by
      rw [Disk.place, hzero, if_neg (by simp), if_neg (Nat.not_lt.2 hlength)]
    refine (Disk.resolve_join_of_follow hname hinside.1 ?_ (hkept loc hdirectory)).trans hplace
    change Disk.follow _ (LocalPath.start d.workingDirectory _) _ = _
    rw [start_join _ _ (isAbsolute_of_notMem (slash_notMem hname))]
    exact Disk.follow_mono hkept hfollow
  isDirectory := Tree.get?_put (by simp)
  isClosed := hclosed.put hdirectory (by rw [hfresh]; simp)
  isProper := by
    apply hproper.put
    rw [List.forall_mem_append]
    exact ⟨hproper.get? _ (by rw [hdirectory]; rfl), by simpa using hname⟩
  isBare := getLast?_join_name (d.absolute inside) hname

/-- What a new scratch directory is. -/
theorem exists_of_makeScratch (hstart : isFileName start = true)
    (h : d.makeScratch inside start = .ok (scratch, d')) :
    ∃ loc name, d.resolve (if inside.isEmpty then "." else inside) = .ok loc ∧
      d.tree.get? loc = some .directory ∧ d.tree.get? (loc ++ [name]) = none ∧
      isFileName name = true ∧ scratch = ⟨join (d.absolute inside) name, loc ++ [name]⟩ ∧
      d' = { d with tree := d.tree.put (loc ++ [name]) .directory } := by
  obtain ⟨⟨loc, e⟩, hentry, hmake⟩ := Yaml.exists_of_bind_ok h
  obtain ⟨hresolve, hget⟩ := Disk.resolve_of_entry hentry
  cases e with
  | file content => cases hmake
  | directory =>
    obtain ⟨n, hname, -⟩ := d.exists_freshName loc start
    cases hmake
    refine ⟨loc, _, hresolve, hget, d.get?_freshName loc start, ?_, rfl, rfl⟩
    rw [hname]
    exact isFileName_append_toString hstart n

/-- A new scratch directory is ready, if there may be anything at its path. -/
theorem isReady_of_makeScratch (hclosed : d.tree.IsClosed) (hproper : d.IsProper)
    (hstart : isFileName start = true) (h : d.makeScratch inside start = .ok (scratch, d'))
    (hfit : IsFit scratch.path) : scratch.IsReady d' := by
  obtain ⟨loc, name, hresolve, hget, hfresh, hname, rfl, rfl⟩ := exists_of_makeScratch hstart h
  exact isReady_made hclosed hproper hresolve hget hfresh hname hfit

end Scratch

end FolderCommands
