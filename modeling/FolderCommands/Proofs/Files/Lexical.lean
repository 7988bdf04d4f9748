import FolderCommands.CommandLine.Footprint
import FolderCommands.Proofs.Yaml.Passing
import FolderCommands.Text.Trimming

/-!
# Where paths lead

The place of a path can be told from its text alone: a name goes down, `..` takes the last name
back, and nothing else moves. The system follows a path more strictly, for it wants a directory at
every step; where it comes to an end, it has come to that place.

A path that never takes back more names than it has gone down stays below where it started, and so
does each beginning of it.
-/

namespace FolderCommands

namespace LocalPath

/-- A step along a path. -/
def step (loc : Location) (name : String) : Location :=
  if name = "" ∨ name = "." then loc
  else if name = ".." then loc.dropLast
  else loc ++ [name]

/-- Steps along a path one after the other. -/
def lead (loc : Location) (names : List String) : Location :=
  names.foldl step loc

/-- Where the steps along a path start. -/
def start (workingDirectory : Location) (path : String) : Location :=
  if isAbsolute path then [] else workingDirectory

/-- Whether a location is the place of some beginning of a path. -/
def IsOnTheWay (workingDirectory : Location) (path : String) (loc : Location) : Prop :=
  ∃ front, front <+: Text.split '/' path ∧ loc = lead (start workingDirectory path) front

/-- Whether a name can be that of a file. -/
def isFileName (name : String) : Bool :=
  name ≠ "" && name ≠ "." && name ≠ ".." && !name.toList.contains '/'

/-- Whether steps from `depth` names down never take back more names than that. -/
def staysBelow : Nat → List String → Bool
  | _, [] => true
  | depth, name :: names =>
    if name = "" ∨ name = "." then staysBelow depth names
    else if name = ".." then 0 < depth && staysBelow (depth - 1) names
    else staysBelow (depth + 1) names

/-! ## Steps -/

section

variable {loc : Location} {names : List String} {name : String}

theorem lead_append (loc : Location) (names names' : List String) :
    lead loc (names ++ names') = lead (lead loc names) names' :=
  List.foldl_append

/-- Names that stay where they are can be left out. -/
theorem lead_filter {p : String → Bool} (h : ∀ name, p name = false → name = "" ∨ name = ".")
    (loc : Location) (names : List String) : lead loc (names.filter p) = lead loc names := by
  induction names generalizing loc with
  | nil => rfl
  | cons name names ih =>
    cases hp : p name with
    | true =>
      rw [List.filter_cons_of_pos hp]
      exact ih (step loc name)
    | false =>
      have hstays : step loc name = loc := if_pos (h name hp)
      rw [List.filter_cons_of_neg (by simp [hp]), ih]
      exact congrArg (lead · names) hstays.symm

theorem lead_fileName (h : isFileName name = true) : lead loc [name] = loc ++ [name] := by
  simp only [isFileName, Bool.and_eq_true, decide_eq_true_eq] at h
  obtain ⟨⟨⟨hempty, hdot⟩, hdots⟩, -⟩ := h
  change step loc name = loc ++ [name]
  rw [step, if_neg (by simp [hempty, hdot]), if_neg hdots]

/-- From some names further down, steps that stay below lead to places below, and so do those of
them that come first. -/
theorem prefix_lead_append {below : Location}
    (h : staysBelow below.length names = true) {front : List String} (hfront : front <+: names) :
    loc <+: lead (loc ++ below) front := by
  induction names generalizing below front with
  | nil =>
    rw [List.prefix_nil.1 hfront]
    exact List.prefix_append loc below
  | cons name names ih =>
    cases front with
    | nil => exact List.prefix_append loc below
    | cons first front =>
      obtain ⟨rfl, hrest⟩ := List.cons_prefix_cons.1 hfront
      change loc <+: lead (step (loc ++ below) first) front
      rw [staysBelow] at h
      rw [step]
      split at h
      · rename_i hstays
        rw [if_pos hstays]
        exact ih h hrest
      rename_i hmoves
      rw [if_neg hmoves]
      split at h
      · rename_i hback
        rw [Bool.and_eq_true, decide_eq_true_eq] at h
        have hne : below ≠ [] := List.ne_nil_of_length_pos h.1
        rw [if_pos hback, List.dropLast_append_of_ne_nil hne]
        apply ih _ hrest
        rw [List.length_dropLast]
        exact h.2
      · rename_i hdown
        rw [if_neg hdown, List.append_assoc]
        apply ih _ hrest
        rw [List.length_append]
        exact h

theorem prefix_lead (h : staysBelow 0 names = true) {front : List String}
    (hfront : front <+: names) : loc <+: lead loc front := by
  have hprefix := @prefix_lead_append loc names [] h front hfront
  rwa [List.append_nil] at hprefix

theorem staysBelow_of_notMem (h : ".." ∉ names) (depth : Nat) : staysBelow depth names = true := by
  induction names generalizing depth with
  | nil => rfl
  | cons name names ih =>
    rw [List.mem_cons, not_or] at h
    rw [staysBelow, if_neg (Ne.symm h.1)]
    split
    · exact ih h.2 depth
    · exact ih h.2 (depth + 1)

/-- Without steps back, the places on the way are around the place at its end. -/
theorem lead_prefix_lead (h : ".." ∉ names) {front : List String} (hfront : front <+: names) :
    lead loc front <+: lead loc names := by
  obtain ⟨rest, rfl⟩ := hfront
  rw [lead_append]
  exact prefix_lead (staysBelow_of_notMem (fun hrest ↦ h (List.mem_append_right _ hrest)) 0)
    (List.prefix_refl rest)

end

/-! ## Pieces of paths -/

theorem notMem_of_mem_split {path name : String} (h : name ∈ Text.split '/' path) :
    '/' ∉ name.toList := by
  obtain ⟨piece, hpiece, rfl⟩ := List.mem_map.1 h
  rw [String.toList_ofList]
  exact Text.sep_not_mem_of_mem_pieces hpiece

theorem split_append_slash (path rest : String) :
    Text.split '/' (path ++ "/" ++ rest) = Text.split '/' path ++ Text.split '/' rest :=
  Text.split_append '/' path rest

theorem split_name {name : String} (h : '/' ∉ name.toList) : Text.split '/' name = [name] := by
  rw [Text.split, Text.pieces_of_notMem h, List.map_singleton, String.ofList_toList]

theorem isAbsolute_of_notMem {path : String} (h : '/' ∉ path.toList) : isAbsolute path = false := by
  rw [isAbsolute, beq_eq_false_iff_ne]
  exact fun hhead ↦ h (List.mem_of_mem_head? hhead)

theorem isAbsolute_append {path : String} (h : path ≠ "") (rest : String) :
    isAbsolute (path ++ rest) = isAbsolute path := by
  have hne : path.toList ≠ [] := by simpa using h
  obtain ⟨c, cs, hchars⟩ := List.exists_cons_of_ne_nil hne
  rw [isAbsolute, isAbsolute, String.toList_append, hchars]
  rfl

/-! ## Places -/

section

open CommandLine

variable {path base child : String} (workingDirectory : Location)

theorem stays_of_eq_false {name : String} (h : (name ≠ "" && name ≠ ".") = false) :
    name = "" ∨ name = "." := by
  rw [Bool.and_eq_false_iff, decide_eq_false_iff_not, decide_eq_false_iff_not] at h
  simpa using h

theorem lead_components (loc : Location) (path : String) :
    lead loc (components path) = lead loc (Text.split '/' path) := by
  rw [components]
  split
  · rename_i rest hsplit
    rw [hsplit]
    exact lead_filter (fun _ ↦ stays_of_eq_false) loc rest
  · exact lead_filter (fun _ ↦ stays_of_eq_false) loc _

theorem lead_steps (loc : Location) (path : String) :
    lead loc (steps path) = lead loc (Text.split '/' path) := by
  have hp : ∀ name : String, decide (name ≠ "") = false → name = "" ∨ name = "." := by
    intro name h
    exact .inl (by simpa using h)
  rw [steps]
  split
  · rw [lead_append, lead_filter hp]
    rfl
  · exact lead_filter hp loc _

theorem ne_of_mem_steps {name : String} (h : name ∈ steps path) : name ≠ "" := by
  rw [steps] at h
  split at h
  · rcases List.mem_append.1 h with hname | hname
    · simpa using (List.mem_filter.1 hname).2
    · rw [List.mem_singleton.1 hname]
      decide
  · simpa using (List.mem_filter.1 h).2

theorem ne_of_mem_components {name : String} (h : name ∈ components path) : name ≠ "" := by
  have hfilter (names : List String) (hname : name ∈ names.filter fun s ↦ s ≠ "" && s ≠ ".") :
      name ≠ "" := by
    have hp := (List.mem_filter.1 hname).2
    rw [Bool.and_eq_true, decide_eq_true_eq] at hp
    exact hp.1
  rw [components] at h
  split at h
  · rcases List.mem_cons.1 h with rfl | hname
    · decide
    · exact hfilter _ hname
  · exact hfilter _ h

/-- A path is located by the steps along its pieces. -/
theorem locate_eq (path : String) : locate workingDirectory path =
    lead (start workingDirectory path) (Text.split '/' path) := by
  have hnames (names : List String) (h : ∀ name ∈ names, name ≠ "") (loc : Location) :
      names.foldl (fun loc name ↦
        if name = "." then loc else if name = ".." then loc.dropLast else loc ++ [name]) loc =
        lead loc names := by
    induction names generalizing loc with
    | nil => rfl
    | cons name names ih =>
      obtain ⟨hname, hrest⟩ := List.forall_mem_cons.1 h
      rw [List.foldl_cons, ih hrest]
      simp only [lead, List.foldl_cons, step, hname, false_or]
  rw [← lead_components]
  exact hnames _ (fun name hname ↦ ne_of_mem_components hname) _

/-- What a path that is joined to another is made up of. -/
theorem exists_split_join (hchild : isAbsolute child = false) :
    ∃ front, Text.split '/' (join base child) = front ++ Text.split '/' child ∧
      front <+: Text.split '/' base ∧
      start workingDirectory (join base child) = start workingDirectory base ∧
      lead (start workingDirectory base) front = locate workingDirectory base := by
  rw [join, hchild, Bool.false_or]
  split
  · rename_i hempty
    have hbase : base = "" := by simpa using hempty
    rw [hbase, locate_eq]
    refine ⟨[], rfl, List.nil_prefix, ?_, rfl⟩
    rw [start, start, hchild]
    rfl
  rename_i hne
  have hbase : base ≠ "" := by simpa using hne
  have hstart (rest : String) :
      start workingDirectory (base ++ rest) = start workingDirectory base := by
    rw [start, start, isAbsolute_append hbase]
  split
  · rename_i hslash
    obtain ⟨cs, hchars⟩ := List.getLast?_eq_some_iff.1 hslash
    have hsplit : base = String.ofList cs ++ "/" := by
      apply String.toList_inj.1
      simp [hchars]
    have hpieces : Text.split '/' base = Text.split '/' (String.ofList cs) ++ [""] := by
      have hempty := split_append_slash (String.ofList cs) ""
      rwa [String.append_empty, ← hsplit] at hempty
    refine ⟨Text.split '/' (String.ofList cs), ?_, ?_, hstart child, ?_⟩
    · rw [← split_append_slash, ← hsplit]
    · rw [hpieces]
      exact List.prefix_append _ _
    · rw [locate_eq, hpieces, lead_append]
      rfl
  · refine ⟨Text.split '/' base, split_append_slash base child, List.prefix_refl _, ?_, ?_⟩
    · rw [String.append_assoc]
      exact hstart _
    · rw [locate_eq]

/-- A path that is joined to another leads on from there. -/
theorem locate_join (base : String) (hchild : isAbsolute child = false) :
    locate workingDirectory (join base child) =
      lead (locate workingDirectory base) (Text.split '/' child) := by
  obtain ⟨front, hsplit, -, hstart, hfront⟩ :=
    @exists_split_join base child workingDirectory hchild
  rw [locate_eq, hsplit, hstart, lead_append, hfront]

theorem locate_join_name (base : String) {name : String} (h : isFileName name = true) :
    locate workingDirectory (join base name) = locate workingDirectory base ++ [name] := by
  have hslash : '/' ∉ name.toList := by
    rw [isFileName, Bool.and_eq_true] at h
    simpa using h.2
  rw [locate_join _ _ (isAbsolute_of_notMem hslash), split_name hslash, lead_fileName h]

/-- The way along a path that is joined to another is the way along that one and then on. -/
theorem IsOnTheWay.of_join {loc : Location} (hchild : isAbsolute child = false)
    (h : IsOnTheWay workingDirectory (join base child) loc) :
    IsOnTheWay workingDirectory base loc ∨
      ∃ front, front <+: Text.split '/' child ∧
        loc = lead (locate workingDirectory base) front := by
  obtain ⟨first, hsplit, hfirst, hstart, hbase⟩ :=
    @exists_split_join base child workingDirectory hchild
  obtain ⟨front, hfront, rfl⟩ := h
  rw [hsplit] at hfront
  rw [hstart]
  rcases List.prefix_or_prefix_of_prefix hfront (List.prefix_append _ _) with hshort | hlong
  · exact .inl ⟨front, hshort.trans hfirst, rfl⟩
  · obtain ⟨rest, rfl⟩ := hlong
    refine .inr ⟨rest, (List.prefix_append_right_inj first).1 hfront, ?_⟩
    rw [lead_append, hbase]

/-- The first components are the first pieces, but for those that stay where they are. -/
theorem exists_of_prefix_components {names : List String} (h : names <+: components path) :
    ∃ front, front <+: Text.split '/' path ∧ ∀ loc, lead loc names = lead loc front := by
  have hfilter {names pieces : List String}
      (h : names <+: pieces.filter fun s ↦ s ≠ "" && s ≠ ".") :
      ∃ front, front <+: pieces ∧ ∀ loc, lead loc names = lead loc front := by
    obtain ⟨rest, hrest⟩ := h
    obtain ⟨front, behind, rfl, rfl, -⟩ := List.filter_eq_append_iff.1 hrest.symm
    exact ⟨front, List.prefix_append _ _,
      fun loc ↦ lead_filter (fun _ ↦ stays_of_eq_false) loc front⟩
  rw [components] at h
  split at h
  · rename_i rest hsplit
    rw [hsplit]
    cases names with
    | nil => exact ⟨[], List.nil_prefix, fun _ ↦ rfl⟩
    | cons name names =>
      obtain ⟨rfl, hnames⟩ := List.cons_prefix_cons.1 h
      obtain ⟨front, hfront, hlead⟩ := hfilter hnames
      exact ⟨"." :: front, List.cons_prefix_cons.2 ⟨rfl, hfront⟩, hlead⟩
  · exact hfilter h

theorem notMem_of_mem_components {name : String} (h : name ∈ components path) :
    '/' ∉ name.toList := by
  rw [components] at h
  split at h
  · rename_i rest hsplit
    rcases List.mem_cons.1 h with rfl | hname
    · decide
    · apply notMem_of_mem_split
      rw [hsplit]
      exact List.mem_cons_of_mem _ (List.mem_filter.1 hname).1
  · exact notMem_of_mem_split (List.mem_filter.1 h).1

theorem split_joinWith {names : List String} (hne : names ≠ [])
    (h : ∀ name ∈ names, '/' ∉ name.toList) :
    Text.split '/' (Text.joinWith "/" names) = names := by
  induction names with
  | nil => exact absurd rfl hne
  | cons name names ih =>
    obtain ⟨hname, hrest⟩ := List.forall_mem_cons.1 h
    cases names with
    | nil => exact split_name hname
    | cons next names =>
      rw [Text.joinWith, split_append_slash, split_name hname, ih (by simp) hrest]
      · rfl
      · simp

theorem locate_ofComponents (isRooted : Bool) {names : List String} (hne : names ≠ [])
    (h : ∀ name ∈ names, name ≠ "" ∧ '/' ∉ name.toList) :
    locate workingDirectory (ofComponents isRooted names) =
      lead (if isRooted then [] else workingDirectory) names := by
  have hsplit := split_joinWith hne fun name hname ↦ (h name hname).2
  rw [locate_eq, start, ofComponents]
  cases isRooted with
  | true =>
    have hrooted := split_append_slash "" (Text.joinWith "/" names)
    rw [String.empty_append, hsplit] at hrooted
    have habsolute : isAbsolute ("/" ++ Text.joinWith "/" names) = true := by
      rw [isAbsolute_append (by decide)]
      decide
    simp only [if_true, hrooted, habsolute]
    rfl
  | false =>
    have hrelative : isAbsolute (Text.joinWith "/" names) = false := by
      cases names with
      | nil => exact absurd rfl hne
      | cons name rest =>
        obtain ⟨hname, hslash⟩ := h name List.mem_cons_self
        have hfirst := isAbsolute_of_notMem hslash
        cases rest with
        | nil => exact hfirst
        | cons next rest =>
          rw [Text.joinWith, String.append_assoc, isAbsolute_append hname, hfirst]
          simp
    simp only [Bool.false_eq_true, if_false, String.empty_append, hsplit, hrelative]

/-- The directories around a path are on the way along it. -/
theorem isOnTheWay_of_mem_parents {around : String} (h : around ∈ parents path) :
    IsOnTheWay workingDirectory path (locate workingDirectory around) := by
  obtain ⟨n, hn, rfl⟩ := List.mem_map.1 h
  have hlt : n < (components path).length :=
    List.mem_range.1 (List.mem_reverse.1 (List.mem_of_mem_tail hn))
  have hprefix : (components path).take (n + 1) <+: components path := List.take_prefix _ _
  have hne : (components path).take (n + 1) ≠ [] := by
    apply List.ne_nil_of_length_pos
    rw [List.length_take]
    omega
  have hnames : ∀ name ∈ (components path).take (n + 1), name ≠ "" ∧ '/' ∉ name.toList := by
    intro name hname
    have hmem := hprefix.subset hname
    exact ⟨ne_of_mem_components hmem, notMem_of_mem_components hmem⟩
  obtain ⟨front, hfront, hlead⟩ := exists_of_prefix_components hprefix
  refine ⟨front, hfront, ?_⟩
  rw [locate_ofComponents _ _ hne hnames, hlead, start]

/-- Slashes at the end of a path are of no account for its place. -/
theorem locate_append_slashes (hne : path ≠ "") {slashes : List Char}
    (h : ∀ c ∈ slashes, c = '/') :
    locate workingDirectory (path ++ String.ofList slashes) = locate workingDirectory path := by
  have hstays (loc : Location) {cs : List Char} (hcs : ∀ c ∈ cs, c = '/') :
      lead loc ((Text.pieces '/' cs).map String.ofList) = loc := by
    induction cs with
    | nil => rfl
    | cons c cs ih =>
      obtain ⟨rfl, hrest⟩ := List.forall_mem_cons.1 hcs
      rw [Text.pieces, if_pos rfl]
      exact ih hrest
  rw [locate_eq, locate_eq, start, start, isAbsolute_append hne]
  cases slashes with
  | nil => rw [String.ofList_nil, String.append_empty]
  | cons c cs =>
    obtain ⟨rfl, hrest⟩ := List.forall_mem_cons.1 h
    have hchars : (path ++ String.ofList ('/' :: cs)).toList = path.toList ++ '/' :: cs := by simp
    rw [Text.split, hchars, Text.pieces_append, List.map_append, lead_append, hstays _ hrest]
    rfl

theorem isOnTheWay_locate (path : String) :
    IsOnTheWay workingDirectory path (locate workingDirectory path) :=
  ⟨Text.split '/' path, List.prefix_refl _, locate_eq workingDirectory path⟩

/-- Steps along a path go through names of files. -/
theorem isFileName_lead {loc : Location} {names : List String}
    (hloc : ∀ name ∈ loc, isFileName name = true) (hnames : ∀ name ∈ names, '/' ∉ name.toList) :
    ∀ name ∈ lead loc names, isFileName name = true := by
  induction names generalizing loc with
  | nil => exact hloc
  | cons name names ih =>
    obtain ⟨hname, hrest⟩ := List.forall_mem_cons.1 hnames
    apply ih _ hrest
    rw [step]
    split
    · exact hloc
    rename_i hmoves
    split
    · exact fun other hother ↦ hloc other (List.dropLast_subset loc hother)
    · rename_i hdots
      rw [List.forall_mem_append]
      refine ⟨hloc, List.forall_mem_singleton.2 ?_⟩
      rw [not_or] at hmoves
      simp [isFileName, hmoves, hdots, hname]

theorem IsOnTheWay.isFileName {loc : Location}
    (hworking : ∀ name ∈ workingDirectory, isFileName name = true)
    (h : IsOnTheWay workingDirectory path loc) : ∀ name ∈ loc, isFileName name = true := by
  obtain ⟨front, hfront, rfl⟩ := h
  apply isFileName_lead
  · rw [start]
    split
    · simp
    · exact hworking
  · exact fun name hname ↦ notMem_of_mem_split (hfront.subset hname)

end

end LocalPath

/-! ## Following paths -/

namespace Disk

open LocalPath

variable {d : Disk} {loc : Location}

theorem follow_eq {origin : Location} {names : List String} (hnames : ∀ name ∈ names, name ≠ "")
    (h : d.follow origin names = .ok loc) : loc = lead origin names := by
  induction names generalizing origin with
  | nil =>
    cases h
    rfl
  | cons name names ih =>
    obtain ⟨hname, hrest⟩ := List.forall_mem_cons.1 hnames
    rw [follow] at h
    obtain ⟨_, -, hstep⟩ := Yaml.exists_of_bind_ok h
    change loc = lead (step origin name) names
    rw [step]
    split at hstep
    · rename_i hdot
      rw [if_pos (.inr hdot)]
      exact ih hrest hstep
    rename_i hdot
    rw [if_neg (not_or.2 ⟨hname, hdot⟩)]
    split at hstep
    · rename_i hdots
      rw [if_pos hdots]
      exact ih hrest hstep
    rename_i hdots
    rw [if_neg hdots]
    split at hstep
    · cases hstep
    · exact ih hrest hstep

/-- A path that leads somewhere has no zero in it, is not empty and is followed step by step. -/
theorem follow_of_resolve {path : String} (h : d.resolve path = .ok loc) :
    path.toList.contains '\x00' = false ∧ path.isEmpty = false ∧
      d.follow (if isAbsolute path then [] else d.workingDirectory) (steps path) = .ok loc := by
  rw [resolve] at h
  split at h
  · cases h
  rename_i hzero
  split at h
  · cases h
  rename_i hempty
  exact ⟨Bool.eq_false_iff.2 hzero, Bool.eq_false_iff.2 hempty, h⟩

/-- What is at a path is at the place to which the path leads. -/
theorem resolve_of_entry {path : String} {e : Entry} (h : d.entry path = .ok (loc, e)) :
    d.resolve path = .ok loc ∧ d.tree.get? loc = some e := by
  obtain ⟨place, hresolve, hfound⟩ := Yaml.exists_of_bind_ok h
  split at hfound
  · rename_i hget
    cases hfound
    exact ⟨hresolve, hget⟩
  · cases hfound

/-- Where the system finds a path to lead is its place. -/
theorem resolve_eq {path : String} (h : d.resolve path = .ok loc) :
    loc = CommandLine.locate d.workingDirectory path := by
  rw [locate_eq, ← lead_steps]
  exact follow_eq (fun _ ↦ ne_of_mem_steps) (follow_of_resolve h).2.2

end Disk

end FolderCommands
