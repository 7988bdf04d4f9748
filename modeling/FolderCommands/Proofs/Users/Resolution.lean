import FolderCommands.Proofs.Users.Records

/-!
# Who is meant by a list of names

A list of names stands for the users of those names that the registry knows, each once and in the
order in which they are first named. Only a list that names nobody stands for the administrators, so
they never come on top of a user who is named. What a longer list stands for is told by its parts.
-/

namespace FolderCommands

theorem eraseDups_eq_nil_iff {α : Type} [BEq α] [LawfulBEq α] {as : List α} :
    as.eraseDups = [] ↔ as = [] := by
  cases as with
  | nil => rfl
  | cons a as => simp [List.eraseDups_cons]

namespace Registry

/-! ## Names -/

/-- The names in a list of names that somebody in the registry has, in order and with repeats. -/
def known (r : Registry) (names : String) : List String :=
  (namesIn names).filter fun name ↦ name ∈ r.users.map (·.name)

theorem namesIn_append (a b : String) : namesIn (a ++ "," ++ b) = namesIn a ++ namesIn b := by
  unfold namesIn
  have hsplit : Text.split ',' (a ++ "," ++ b) = Text.split ',' a ++ Text.split ',' b :=
    Text.split_append ',' a b
  rw [hsplit, List.map_append, List.filter_append]

theorem known_append (r : Registry) (a b : String) :
    r.known (a ++ "," ++ b) = r.known a ++ r.known b := by
  unfold known
  rw [namesIn_append, List.filter_append]

theorem get?_eq_some {r : Registry} {name : String} {u : User} (h : r.get? name = some u) :
    u ∈ r.users ∧ u.name = name :=
  ⟨List.mem_of_find?_eq_some h, by simpa using List.find?_some h⟩

/-- Names that nobody has lead to nobody. -/
theorem filterMap_known (r : Registry) (names : String) :
    (r.known names).filterMap r.get? = (namesIn names).filterMap r.get? := by
  unfold known
  rw [List.filterMap_filter]
  apply List.filterMap_congr
  intro name _
  by_cases hname : name ∈ r.users.map (·.name)
  · simp [hname]
  · simp [hname, (r.get?_eq_none_iff name).2 hname]

/-- The users of names that somebody has are the users of just these names. -/
theorem map_name_filterMap_get? {r : Registry} {names : List String}
    (h : ∀ name ∈ names, name ∈ r.users.map (·.name)) :
    (names.filterMap r.get?).map (·.name) = names := by
  induction names with
  | nil => rfl
  | cons name names ih =>
    obtain ⟨hname, hrest⟩ := List.forall_mem_cons.1 h
    obtain ⟨u, hu⟩ : ∃ u, r.get? name = some u :=
      Option.ne_none_iff_exists'.1 fun hnone ↦ (r.get?_eq_none_iff name).1 hnone hname
    rw [List.filterMap_cons_some hu, List.map_cons, ih hrest, (get?_eq_some hu).2]

theorem map_name_known (r : Registry) (names : String) :
    ((r.known names).filterMap r.get?).map (·.name) = r.known names := by
  apply map_name_filterMap_get?
  intro name hname
  exact of_decide_eq_true (List.mem_filter.1 hname).2

/-! ## Users -/

/-- Where names tell the users apart, adding each unless its name is there keeps the first
occurrences. -/
theorem foldl_addNew {users : List User} (h : Set.InjOn User.name {u | u ∈ users}) :
    users.foldl addNew [] = users.eraseDups := by
  induction users using List.reverseRecOn with
  | nil => rfl
  | append_singleton users u ih =>
    have hfront : Set.InjOn User.name {u | u ∈ users} :=
      h.mono fun v hv ↦ List.mem_append_left _ hv
    have hthere : (users.eraseDups.any fun v ↦ v.name == u.name) = true ↔ u ∈ users := by
      simp only [List.any_eq_true, List.mem_eraseDups, beq_iff_eq]
      constructor
      · rintro ⟨v, hv, hname⟩
        have hsame := h (List.mem_append_left _ hv) (List.mem_append_right _ List.mem_cons_self)
          hname
        exact hsame ▸ hv
      · exact fun hu ↦ ⟨u, hu, rfl⟩
    rw [List.foldl_append, ih hfront, List.foldl_cons, List.foldl_nil, addNew, eraseDups_concat]
    simp only [hthere]

/-- In a registry of some records, names tell the users apart. -/
theorem injOn_name {records users : List User} (h : users ⊆ (ofList records).users) :
    Set.InjOn User.name {u | u ∈ users} :=
  fun _ hu _ hv heq ↦ List.inj_on_of_nodup_map (nodup_ofList records) (h hu) (h hv) heq

theorem filterMap_get?_subset (r : Registry) (names : List String) :
    names.filterMap r.get? ⊆ r.users := by
  intro u hu
  obtain ⟨name, -, hname⟩ := List.mem_filterMap.1 hu
  exact (get?_eq_some hname).1

theorem named_eq (records : List User) (names : String) :
    (ofList records).named names =
      (((ofList records).known names).filterMap (ofList records).get?).eraseDups := by
  rw [named, foldl_addNew (injOn_name (filterMap_get?_subset _ _)), filterMap_known]

theorem map_name_named (records : List User) (names : String) :
    ((ofList records).named names).map (·.name) = ((ofList records).known names).eraseDups := by
  rw [named_eq, map_eraseDups (injOn_name (filterMap_get?_subset _ _)), map_name_known]

theorem named_eq_nil_iff (records : List User) (names : String) :
    (ofList records).named names = [] ↔ (ofList records).known names = [] :=
  calc
    _ ↔ ((ofList records).named names).map (·.name) = [] := List.map_eq_nil_iff.symm
    _ ↔ ((ofList records).known names).eraseDups = [] := by rw [map_name_named]
    _ ↔ _ := eraseDups_eq_nil_iff

theorem resolve_eq (records : List User) (names : String) :
    (ofList records).resolve names =
      if (ofList records).known names = [] then (ofList records).admins
      else (ofList records).named names := by
  unfold resolve
  simp only [List.isEmpty_iff, named_eq_nil_iff]

theorem resolve_subset (records : List User) (names : String) :
    (ofList records).resolve names ⊆ (ofList records).users := by
  rw [resolve_eq]
  split
  · exact List.filter_subset_self _
  · rw [named_eq]
    exact fun u hu ↦ filterMap_get?_subset _ _ (List.mem_eraseDups.1 hu)

theorem named_append (records : List User) (a b : String) :
    (ofList records).named (a ++ "," ++ b) = (ofList records).named a ++
      ((ofList records).named b).filter (· ∉ (ofList records).named a) := by
  rw [named_eq, named_eq, named_eq, known_append, List.filterMap_append, List.eraseDups_append,
    List.removeAll, eraseDups_filter]
  congr 1
  apply List.filter_congr
  intro u _
  simp only [List.elem_eq_mem, List.mem_eraseDups, decide_not]

/-- A list of names stands for the users of its known names, each once, in the order in which they
are first named and for nobody else; only without a known name it stands for the administrators, in
the order of the registry. Two lists with a comma between stand for what the first one does and what
the second one adds, if either has a known name. -/
theorem resolve_exact (records : List User) :
    let r := ofList records
    (∀ names, r.resolve names =
      if r.known names = [] then r.users.filter (·.isAdmin)
      else ((r.known names).filterMap r.get?).eraseDups) ∧
    (∀ names, r.known names ≠ [] →
      (r.resolve names).map (·.name) = (r.known names).eraseDups) ∧
    ∀ a b, r.resolve (a ++ "," ++ b) =
      if r.known a = [] then r.resolve b
      else if r.known b = [] then r.resolve a
      else r.resolve a ++ (r.resolve b).filter (· ∉ r.resolve a) := by
  intro r
  refine ⟨fun names ↦ ?_, fun names hknown ↦ ?_, fun a b ↦ ?_⟩
  · rw [← named_eq]
    exact resolve_eq records names
  · rw [resolve_eq, if_neg hknown]
    exact map_name_named records names
  · have hnone (names : String) (h : r.known names = []) : r.named names = [] :=
      (named_eq_nil_iff records names).2 h
    rw [resolve_eq, known_append, named_append]
    by_cases ha : r.known a = []
    · rw [if_pos ha, resolve_eq, ha, hnone a ha, List.nil_append, List.nil_append]
      simp
    · rw [if_neg ha, if_neg (List.append_ne_nil_of_left_ne_nil ha _)]
      by_cases hb : r.known b = []
      · rw [if_pos hb, hnone b hb, List.filter_nil, List.append_nil, resolve_eq, if_neg ha]
      · rw [if_neg hb, resolve_eq, if_neg ha, resolve_eq, if_neg hb]

/-- Three users of whom the first and the last are administrators. -/
def threeUsers : List User :=
  [⟨"don", "don@example.org", true, true⟩, ⟨"sam", "sam@example.org", false, false⟩,
    ⟨"ada", "", false, true⟩]

/-- One who is named twice, next to a name that nobody has, comes alone and without the
administrators. -/
theorem resolve_exact_threeUsers :
    (ofList threeUsers).known " sam , nobody,,sam" ≠ [] ∧
      ((ofList threeUsers).resolve " sam , nobody,,sam").map (·.name) = ["sam"] := by
  have hknown : (ofList threeUsers).known " sam , nobody,,sam" = ["sam", "sam"] := by
    decide +kernel
  have hne : (ofList threeUsers).known " sam , nobody,,sam" ≠ [] := by
    rw [hknown]
    exact List.cons_ne_nil _ _
  refine ⟨hne, ((resolve_exact threeUsers).2.1 _ hne).trans ?_⟩
  rw [hknown]
  rfl

end Registry

end FolderCommands
