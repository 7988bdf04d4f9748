import FolderCommands.Data.Decode
import FolderCommands.Proofs.Data.JsonText
import Mathlib.Data.List.Nodup

/-!
# Reading records back

A record that was written as an object, with its fields in their order, is read field by field:
each entry is taken into the draft by the one field of its name. What is left to show of a record
is that each of its values is read back.
-/

namespace FolderCommands.Decode

/-- In a list without repeated names, a member is found by its name. -/
theorem find?_of_nodup {β : Type} {name : β → String} {all : List β}
    (hnodup : (all.map name).Nodup) {b : β} (hb : b ∈ all) :
    all.find? (fun c ↦ name c == name b) = some b := by
  induction all with
  | nil => cases hb
  | cons c all ih =>
    obtain ⟨hfresh, hnodup⟩ := List.nodup_cons.1 hnodup
    rcases List.mem_cons.1 hb with rfl | hb
    · exact List.find?_cons_of_pos (beq_self_eq_true _)
    · have hne : name c ≠ name b := fun heq ↦ hfresh (heq ▸ List.mem_map_of_mem hb)
      rw [List.find?_cons_of_neg (by simpa using hne)]
      exact ih hnodup hb

/-! ## Single values -/

section Values

variable {α β : Type}

theorem variant_name (f : Format) {name : α → String} {all : List α}
    (hnodup : (all.map name).Nodup) {a : α} (ha : a ∈ all) :
    variant f name all (.string (name a)) = .ok a := by
  change variantNamed name all (name a) = _
  rw [variantNamed, find?_of_nodup hnodup ha]

theorem optional_ofOption (s : Option String) : optional text (.ofOption s) = .ok s := by
  cases s <;> rfl

theorem items_map {read : Datum → Result α} {encode : α → Datum} {as : List α}
    (h : ∀ a ∈ as, read (encode a) = .ok a) : items read (.sequence (as.map encode)) = .ok as := by
  change (as.map encode).mapM read = _
  induction as with
  | nil => rfl
  | cons a as ih =>
    obtain ⟨ha, hrest⟩ := List.forall_mem_cons.1 h
    rw [List.map_cons, List.mapM_cons, ha, ih hrest]
    rfl

theorem items_ofStrings (ss : List String) : items text (.ofStrings ss) = .ok ss :=
  items_map fun _ _ ↦ rfl

end Values

/-! ## Records -/

section Fields

variable {α δ : Type}

/-- How the fields of a record take entries with their names, in their order, into a draft. -/
inductive Reads : List (RecordField δ) → List (String × Datum) → δ → δ → Prop where
  | nil (draft : δ) : Reads [] [] draft draft
  | cons {field : RecordField δ} {fields : List (RecordField δ)} {d : Datum}
      {entries : List (String × Datum)} {draft draft' draft'' : δ}
      (isSet_eq : field.isSet draft = false) (read_eq : field.read d draft = .ok draft')
      (rest : Reads fields entries draft' draft'') :
      Reads (field :: fields) ((field.name, d) :: entries) draft draft''

variable {fields : List (RecordField δ)} {entries : List (String × Datum)} {start draft : δ}

/-- A field that holds its value as an option takes one that is read back. -/
theorem Reads.of {name : String} {hasDefault : Bool} {read : Datum → Result α}
    {get : δ → Option α} {set : α → δ → δ} {d : Datum} {a : α} (hget : get start = none)
    (hread : read d = .ok a) (hrest : Reads fields entries (set a start) draft) :
    Reads (.of name hasDefault read get set :: fields) ((name, d) :: entries) start draft := by
  refine .cons ?_ ?_ hrest
  · change (get start).isSome = false
    rw [hget]
    rfl
  · change (read d).map _ = _
    rw [hread]
    rfl

theorem foldlM_readEntry {all : List (RecordField δ)} (hnodup : (all.map (·.name)).Nodup)
    (h : Reads fields entries start draft) (hsub : ∀ field ∈ fields, field ∈ all) :
    (entries.map fun e ↦ (Datum.string e.1, e.2)).foldlM (readEntry all) start = .ok draft := by
  induction h with
  | nil => rfl
  | @cons field fields d entries draft draft' draft'' hset hread hrest ih =>
    obtain ⟨hfield, hfields⟩ := List.forall_mem_cons.1 hsub
    have hentry : readEntry all draft (.string field.name, d) = .ok draft' := by
      have hfind : all.find? (fun other ↦ other.name == field.name) = some field :=
        find?_of_nodup hnodup hfield
      simp only [readEntry, textAs, bind, Except.bind, hfind, hset, Bool.false_eq_true, if_false,
        hread]
    rw [List.map_cons, List.foldlM_cons, hentry]
    exact ih hfields

/-- The draft of a record is read from an object of its fields. -/
theorem draft_object (f : Format) (title : String) (h : Reads fields entries start draft)
    (hnodup : (fields.map (·.name)).Nodup) :
    Decode.draft f title fields start (.object entries) = .ok draft :=
  foldlM_readEntry hnodup h fun _ hfield ↦ hfield

end Fields

end FolderCommands.Decode

/-! ## Plain data -/

namespace FolderCommands.Datum

variable {depth : Nat}

theorem isPlain_object {entries : List (String × Datum)}
    (h : ∀ e ∈ entries, e.2.IsPlain depth) : (object entries).IsPlain (depth + 1) := by
  intro e he
  obtain ⟨entry, hentry, rfl⟩ := List.mem_map.1 he
  exact ⟨⟨entry.1, rfl⟩, h entry hentry⟩

theorem isPlain_sequence {α : Type} {encode : α → Datum} (as : List α)
    (h : ∀ a, (encode a).IsPlain depth) : (sequence (as.map encode)).IsPlain (depth + 1) := by
  intro d hd
  obtain ⟨a, -, rfl⟩ := List.mem_map.1 hd
  exact h a

@[simp] theorem isPlain_string (s : String) : (string s).IsPlain depth := by
  cases depth <;> trivial

@[simp] theorem isPlain_bool (b : Bool) : (bool b).IsPlain depth := by
  cases depth <;> trivial

@[simp] theorem isPlain_ofOption (s : Option String) : (ofOption s).IsPlain depth := by
  cases s <;> cases depth <;> trivial

@[simp] theorem isPlain_ofStrings (ss : List String) : (ofStrings ss).IsPlain (depth + 1) :=
  isPlain_sequence ss isPlain_string

end FolderCommands.Datum
