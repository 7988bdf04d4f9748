import FolderCommands.Users.Registry
import Mathlib.Data.List.Induction
import Mathlib.Data.List.Nodup
import Mathlib.Data.Set.Function

/-!
# The records of a registry

A registry keeps one record for each name: it stands where the name came first and says what was
said last. A registry that is built again from its own users is the same, so records may be taken
into a registry piece by piece.
-/

namespace FolderCommands

/-! ## First occurrences -/

section FirstOccurrences

variable {α β : Type} [BEq α] [LawfulBEq α] [BEq β] [LawfulBEq β]

theorem eraseDups_concat (as : List α) (a : α) :
    (as ++ [a]).eraseDups = if a ∈ as then as.eraseDups else as.eraseDups ++ [a] := by
  rw [List.eraseDups_append, List.removeAll]
  split
  · rename_i ha
    rw [List.filter_cons_of_neg (by simpa using ha), List.filter_nil, List.eraseDups_nil,
      List.append_nil]
  · rename_i ha
    rw [List.filter_cons_of_pos (by simpa using ha), List.filter_nil, List.eraseDups_cons,
      List.filter_nil, List.eraseDups_nil]

theorem nodup_eraseDups (as : List α) : as.eraseDups.Nodup := by
  induction as using List.reverseRecOn with
  | nil => exact List.nodup_nil
  | append_singleton as a ih =>
    rw [eraseDups_concat]
    split
    · exact ih
    · rename_i ha
      apply ih.append (List.nodup_singleton a)
      rwa [List.disjoint_singleton, List.mem_eraseDups]

theorem eraseDups_filter (p : α → Bool) (as : List α) :
    (as.filter p).eraseDups = as.eraseDups.filter p := by
  induction as using List.reverseRecOn with
  | nil => rfl
  | append_singleton as a ih =>
    rw [List.filter_append, eraseDups_concat]
    cases ha : p a with
    | false =>
      have hnone : [a].filter p = [] := by simp [ha]
      rw [hnone, List.append_nil, ih, apply_ite (List.filter p), List.filter_append, hnone,
        List.append_nil, ite_self]
    | true =>
      have hself : [a].filter p = [a] := by simp [ha]
      have hmem : a ∈ as.filter p ↔ a ∈ as := by simp [ha]
      rw [hself, eraseDups_concat, ih, apply_ite (List.filter p), List.filter_append, hself]
      simp only [hmem]

/-- Where a function tells the elements apart, it does so with their first occurrences. -/
theorem map_eraseDups {f : α → β} {as : List α} (h : Set.InjOn f {a | a ∈ as}) :
    as.eraseDups.map f = (as.map f).eraseDups := by
  induction as using List.reverseRecOn with
  | nil => rfl
  | append_singleton as a ih =>
    have hfront : Set.InjOn f {a | a ∈ as} := h.mono fun b hb ↦ List.mem_append_left _ hb
    have hmem : f a ∈ as.map f ↔ a ∈ as := by
      rw [List.mem_map]
      constructor
      · rintro ⟨b, hb, heq⟩
        have hsame := h (List.mem_append_left _ hb) (List.mem_append_right _ List.mem_cons_self) heq
        exact hsame ▸ hb
      · exact fun ha ↦ ⟨a, ha, rfl⟩
    rw [List.map_append, List.map_singleton, eraseDups_concat, eraseDups_concat, ← ih hfront,
      apply_ite (List.map f), List.map_append, List.map_singleton]
    simp only [hmem]

end FirstOccurrences

namespace Registry

/-! ## Putting in a record -/

theorem map_name_put (u : User) (users : List User) :
    (put u users).map (·.name) =
      if u.name ∈ users.map (·.name) then users.map (·.name)
      else users.map (·.name) ++ [u.name] := by
  induction users with
  | nil => rfl
  | cons v users ih =>
    rw [put]
    by_cases hname : v.name = u.name
    · simp [hname]
    · rw [if_neg hname, List.map_cons, ih]
      simp [apply_ite, Ne.symm hname]

theorem find?_put (u : User) (users : List User) (name : String) :
    (put u users).find? (·.name == name) =
      if u.name = name then some u else users.find? (·.name == name) := by
  induction users with
  | nil =>
    rw [put, List.find?_singleton]
    simp
  | cons v users ih =>
    rw [put]
    by_cases hname : v.name = u.name
    · rw [if_pos hname, List.find?_cons, List.find?_cons, hname]
      by_cases hu : u.name = name
      · rw [if_pos hu, beq_iff_eq.2 hu]
      · rw [if_neg hu, beq_eq_false_iff_ne.2 hu]
    · rw [if_neg hname, List.find?_cons, List.find?_cons, ih]
      by_cases hv : v.name = name
      · have hu : u.name ≠ name := fun hu ↦ hname (hv.trans hu.symm)
        rw [beq_iff_eq.2 hv]
        exact (if_neg hu).symm
      · rw [beq_eq_false_iff_ne.2 hv]

/-- A record with a new name goes to the end. -/
theorem put_of_notMem {u : User} {users : List User} (h : u.name ∉ users.map (·.name)) :
    put u users = users ++ [u] := by
  induction users with
  | nil => rfl
  | cons v users ih =>
    rw [List.map_cons, List.mem_cons, not_or] at h
    rw [put, if_neg (Ne.symm h.1), ih h.2, List.cons_append]

/-! ## What a registry holds -/

theorem ofList_append (records more : List User) :
    (ofList (records ++ more)).users =
      more.foldl (fun users u ↦ put u users) (ofList records).users := by
  rw [ofList, ofList, List.foldl_append]

theorem ofList_concat (records : List User) (u : User) :
    (ofList (records ++ [u])).users = put u (ofList records).users :=
  ofList_append records [u]

/-- A registry lists the names in the order of their first occurrences. -/
theorem map_name_ofList (records : List User) :
    (ofList records).users.map (·.name) = (records.map (·.name)).eraseDups := by
  induction records using List.reverseRecOn with
  | nil => rfl
  | append_singleton records u ih =>
    rw [ofList_concat, map_name_put, ih, List.map_append, List.map_singleton, eraseDups_concat]
    simp only [List.mem_eraseDups]

theorem nodup_ofList (records : List User) : ((ofList records).users.map (·.name)).Nodup := by
  rw [map_name_ofList]
  exact nodup_eraseDups _

/-- What a registry says of a name is what the last record of that name says. -/
theorem get?_ofList (records : List User) (name : String) :
    (ofList records).get? name = (records.filter (·.name = name)).getLast? := by
  induction records using List.reverseRecOn with
  | nil => rfl
  | append_singleton records u ih =>
    rw [get?, ofList_concat, find?_put, ← get?, ih, List.filter_append, List.getLast?_append]
    by_cases hu : u.name = name
    · simp [hu]
    · simp [hu]

theorem get?_eq_none_iff (r : Registry) (name : String) :
    r.get? name = none ↔ name ∉ r.users.map (·.name) := by
  rw [get?, List.find?_eq_none, List.mem_map, not_exists]
  simp only [beq_iff_eq, not_and]

/-- Records of different names are taken as they are. -/
theorem ofList_of_nodup {users : List User} (h : (users.map (·.name)).Nodup) :
    (ofList users).users = users := by
  induction users using List.reverseRecOn with
  | nil => rfl
  | append_singleton users u ih =>
    rw [List.map_append, List.map_singleton, List.nodup_append_comm, List.singleton_append,
      List.nodup_cons] at h
    rw [ofList_concat, ih h.2]
    exact put_of_notMem h.1

/-- A registry has each name once, in the order in which the names first occur in the records, and
for each name the last record of that name. Taken as records its users lead to the same registry
again, alone and in front of further records. -/
theorem ofList_represents (records : List User) :
    ((ofList records).users.map (·.name)).Nodup ∧
    (ofList records).users.map (·.name) = (records.map (·.name)).eraseDups ∧
    (∀ name, (ofList records).get? name = (records.filter (·.name = name)).getLast?) ∧
    (∀ name, (ofList records).get? name = none ↔ name ∉ records.map (·.name)) ∧
    ofList (ofList records).users = ofList records ∧
    ∀ more, ofList ((ofList records).users ++ more) = ofList (records ++ more) := by
  have hagain : (ofList (ofList records).users).users = (ofList records).users :=
    ofList_of_nodup (nodup_ofList records)
  refine ⟨nodup_ofList records, map_name_ofList records, get?_ofList records, fun name ↦ ?_,
    congrArg Registry.mk hagain, fun more ↦ ?_⟩
  · rw [get?_eq_none_iff, map_name_ofList, List.mem_eraseDups]
  · apply congrArg Registry.mk
    calc
      _ = more.foldl (fun users u ↦ put u users) (ofList (ofList records).users).users :=
        ofList_append _ _
      _ = more.foldl (fun users u ↦ put u users) (ofList records).users := by rw [hagain]
      _ = _ := (ofList_append _ _).symm

end Registry

end FolderCommands
