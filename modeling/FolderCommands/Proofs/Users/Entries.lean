import FolderCommands.Proofs.Manifest.Agreement
import FolderCommands.Users.Registry
import Mathlib.Data.List.Forall2

/-!
# The entries of a users document

A users document may have an entry for each of its documents, a sequence of entries, or any mixture
of both with empty documents in between. Only the entries count, in their order: they decide the
registry, and where there is one that cannot be read the error names the first such entry by its
place among the entries.
-/

namespace FolderCommands.Registry

/-- The entries of a document: none if it is empty, those in it if it is a sequence, and the
document itself otherwise. -/
def entries : Yaml.Value → List Yaml.Value
  | .null => []
  | .sequence items => items
  | doc => [doc]

/-- The entries of some documents, whatever the shape of each. -/
def entriesOf (docs : List Yaml.Value) : List Yaml.Value :=
  docs.flatMap entries

/-- Whether an entry is a mapping, its tags apart, that is read as a user. -/
structure IsRecord (v : Yaml.Value) (u : User) : Prop where
  isMapping : ∃ fields, v.untagged = .mapping fields
  decode : User.decode .yaml (.ofYaml v) = .ok u

/-- What is said of an entry that cannot be read, behind its number. -/
inductive Complains (v : Yaml.Value) : String → Prop
  | notMapping (h : ∀ fields, v.untagged ≠ .mapping fields) : Complains v " is not a mapping"
  | unreadable {fault : Decode.Fault} (h : ∃ fields, v.untagged = .mapping fields)
      (hdecode : User.decode .yaml (.ofYaml v) = .error fault) :
      Complains v (": " ++ fault.message .yaml)

/-- The error for the entry with a number. -/
def entryError (number : Nat) (complaint : String) : Error :=
  .config ("user entry " ++ toString number ++ complaint)

/-! ## One entry -/

theorem isMapping_iff (v : Yaml.Value) :
    isMapping v = true ↔ ∃ fields, v.untagged = .mapping fields := by
  rw [isMapping]
  cases v.untagged <;> simp

variable {v : Yaml.Value} {before vs : List Yaml.Value} {u : User} {us : List User}
  {complaint : String}

theorem readEntry_of_isRecord (h : IsRecord v u) (number : Nat) : readEntry number v = .ok u := by
  rw [readEntry, if_pos ((isMapping_iff v).2 h.isMapping), h.decode]

theorem readEntry_of_complains (h : Complains v complaint) (number : Nat) :
    readEntry number v = .error (entryError number complaint) := by
  rw [readEntry]
  cases h with
  | notMapping h =>
    rw [if_neg fun hmapping ↦ ((isMapping_iff v).1 hmapping).elim h]
    rfl
  | unreadable h hdecode =>
    rw [if_pos ((isMapping_iff v).2 h), hdecode, entryError]
    dsimp only
    rw [← String.append_assoc]

theorem isRecord_or_complains (v : Yaml.Value) :
    (∃ u, IsRecord v u) ∨ ∃ complaint, Complains v complaint := by
  by_cases hmapping : ∃ fields, v.untagged = .mapping fields
  · cases hdecode : User.decode .yaml (.ofYaml v) with
    | ok u => exact .inl ⟨u, hmapping, hdecode⟩
    | error fault => exact .inr ⟨_, .unreadable hmapping hdecode⟩
  · exact .inr ⟨_, .notMapping (not_exists.1 hmapping)⟩

/-! ## Some entries -/

/-- Entries that are all read become the records behind those that there are. -/
theorem foldlM_readNext_of_isRecord (h : List.Forall₂ IsRecord vs us) (records : List User) :
    vs.foldlM readNext records = .ok (records ++ us) := by
  induction h generalizing records with
  | nil => exact congrArg Except.ok (List.append_nil records).symm
  | @cons v u vs us hv _ ih =>
    have hnext : readNext records v = .ok (records ++ [u]) := by
      rw [readNext, readEntry_of_isRecord hv]
      rfl
    rw [List.foldlM_cons, hnext]
    exact (ih (records ++ [u])).trans (congrArg Except.ok (by simp))

/-- Reading stops at the first entry that is not read. Its number is that of the records in front of
it. -/
theorem foldlM_readNext_of_complains (h : List.Forall₂ IsRecord before us)
    (hv : Complains v complaint) (after : List Yaml.Value) :
    (before ++ v :: after).foldlM readNext [] = .error (entryError before.length complaint) := by
  have hnext : readNext us v = .error (entryError before.length complaint) := by
    rw [readNext, readEntry_of_complains hv, h.length_eq]
    rfl
  rw [List.foldlM_append, foldlM_readNext_of_isRecord h, List.nil_append]
  change (v :: after).foldlM readNext us = _
  rw [List.foldlM_cons, hnext]
  rfl

/-- Either all entries are read, or there is a first one that is not. -/
theorem forall₂_or_exists_complains (vs : List Yaml.Value) :
    (∃ us, List.Forall₂ IsRecord vs us) ∨
      ∃ before v after us complaint, vs = before ++ v :: after ∧
        List.Forall₂ IsRecord before us ∧ Complains v complaint := by
  induction vs with
  | nil => exact .inl ⟨[], .nil⟩
  | cons v vs ih =>
    rcases isRecord_or_complains v with ⟨u, hu⟩ | ⟨complaint, hcomplaint⟩
    · rcases ih with ⟨us, hus⟩ | ⟨before, failing, after, us, complaint, rfl, hus, hfailing⟩
      · exact .inl ⟨u :: us, .cons hu hus⟩
      · exact .inr ⟨v :: before, failing, after, u :: us, complaint, rfl, .cons hu hus, hfailing⟩
    · exact .inr ⟨[], v, vs, [], complaint, rfl, .nil, hcomplaint⟩

/-! ## Documents -/

theorem readDocument_eq (records : List User) (doc : Yaml.Value) :
    readDocument records doc = (entries doc).foldlM readNext records := by
  cases doc with
  | null | sequence => rfl
  | bool | number | string | mapping | tagged =>
    simp only [readDocument, entries, List.foldlM_cons, List.foldlM_nil, bind_pure]

/-- Documents are read as their entries are, one after the other. -/
theorem foldlM_readDocument (docs : List Yaml.Value) (records : List User) :
    docs.foldlM readDocument records = (entriesOf docs).foldlM readNext records := by
  induction docs generalizing records with
  | nil => rfl
  | cons doc docs ih =>
    rw [entriesOf, List.flatMap_cons, List.foldlM_append, ← readDocument_eq, List.foldlM_cons]
    exact bind_congr ih

/-- An empty document at the end that is left out has no entries. -/
theorem exists_documents {text : String} {docs : List Yaml.Value}
    (h : Yaml.documents text = .ok docs) :
    ∃ kept, Manifest.documents text = .ok kept ∧ entriesOf docs = entriesOf kept := by
  cases hkept : Manifest.documents text with
  | error fault =>
    rw [Manifest.documents, h] at hkept
    cases hkept
  | ok kept =>
    obtain ⟨last, hdocs, hnull⟩ := Manifest.exists_of_documents hkept
    cases h.symm.trans hdocs
    have hlast : entriesOf last = [] := by
      refine List.flatMap_eq_nil_iff.2 fun value hvalue ↦ ?_
      have hempty := hnull value hvalue
      cases value with
      | null => rfl
      | _ => cases hempty
    refine ⟨kept, rfl, ?_⟩
    rw [entriesOf, List.flatMap_append]
    change entriesOf kept ++ entriesOf last = entriesOf kept
    rw [hlast, List.append_nil]

theorem parse_eq {text : String} {docs : List Yaml.Value} (h : Yaml.documents text = .ok docs) :
    parse text = ((entriesOf docs).foldlM readNext []).map ofList := by
  obtain ⟨kept, hkept, hentries⟩ := exists_documents h
  rw [parse, hkept]
  dsimp only
  rw [ofDocuments, foldlM_readDocument, hentries]

/-- A users document is read entry by entry, whatever the shape of its documents. It stands for the
registry of its records if every entry is a mapping that is read as a user, and is refused for the
first entry that is not, by the number of entries in front of that one. So streams with the same
entries come to the same. -/
theorem parse_reads_entries {text : String} {docs : List Yaml.Value}
    (h : Yaml.documents text = .ok docs) :
    (∀ registry, parse text = .ok registry ↔
      ∃ records, List.Forall₂ IsRecord (entriesOf docs) records ∧ registry = ofList records) ∧
    (∀ error, parse text = .error error ↔
      ∃ before v after records complaint, entriesOf docs = before ++ v :: after ∧
        List.Forall₂ IsRecord before records ∧ Complains v complaint ∧
        error = entryError before.length complaint) ∧
    ∀ text' docs', Yaml.documents text' = .ok docs' → entriesOf docs' = entriesOf docs →
      parse text' = parse text := by
  have hok {us : List User} (hus : List.Forall₂ IsRecord (entriesOf docs) us) :
      parse text = .ok (ofList us) := by
    rw [parse_eq h, foldlM_readNext_of_isRecord hus, List.nil_append]
    rfl
  have herror {before after : List Yaml.Value} {v : Yaml.Value} {us : List User}
      {complaint : String} (hentries : entriesOf docs = before ++ v :: after)
      (hus : List.Forall₂ IsRecord before us) (hv : Complains v complaint) :
      parse text = .error (entryError before.length complaint) := by
    rw [parse_eq h, hentries, foldlM_readNext_of_complains hus hv]
    rfl
  refine ⟨fun registry ↦ ⟨fun hparse ↦ ?_, ?_⟩, fun error ↦ ⟨fun hparse ↦ ?_, ?_⟩,
    fun text' docs' h' hentries ↦ ?_⟩
  · rcases forall₂_or_exists_complains (entriesOf docs) with
      ⟨us, hus⟩ | ⟨before, v, after, us, complaint, hentries, hus, hv⟩
    · exact ⟨us, hus, Except.ok.inj (hparse.symm.trans (hok hus))⟩
    · cases hparse.symm.trans (herror hentries hus hv)
  · rintro ⟨us, hus, rfl⟩
    exact hok hus
  · rcases forall₂_or_exists_complains (entriesOf docs) with
      ⟨us, hus⟩ | ⟨before, v, after, us, complaint, hentries, hus, hv⟩
    · cases hparse.symm.trans (hok hus)
    · exact ⟨before, v, after, us, complaint, hentries, hus, hv,
        Except.error.inj (hparse.symm.trans (herror hentries hus hv))⟩
  · rintro ⟨before, v, after, us, complaint, hentries, hus, hv, rfl⟩
    exact herror hentries hus hv
  · rw [parse_eq h', parse_eq h, hentries]

/-- An empty document, a sequence with a name that comes back in a document of its own, and another
empty document. -/
def mixedUsers : String :=
  "---\n---\n- name: don\n- name: ann\n  isAdmin: true\n---\nname: don\nmailLogs: true\n---\n"

/-- The same, and a name alone in a last sequence. -/
def mixedNames : String :=
  mixedUsers ++ "---\n- ann\n"

/-- Two users come of three records, and the number of what is behind them is that of an entry. -/
theorem parse_reads_mixedUsers :
    (∃ docs records, Yaml.documents mixedUsers = .ok docs ∧ docs.length = 4 ∧
      List.Forall₂ IsRecord (entriesOf docs) records ∧ records.length = 3 ∧
      ofList records = ⟨[⟨"don", "", true, false⟩, ⟨"ann", "", false, true⟩]⟩) ∧
    ∃ docs before v after complaint, Yaml.documents mixedNames = .ok docs ∧ docs.length = 5 ∧
      entriesOf docs = before ++ v :: after ∧ Complains v complaint ∧
      entryError before.length complaint = .config "user entry 3 is not a mapping" := by
  obtain ⟨docs, hdocs, hlength, hentries⟩ := Manifest.exists_of_mem_toOption
    (x := Yaml.documents mixedUsers) (p := fun docs ↦ docs.length = 4 ∧ (entriesOf docs).length = 3)
    (by decide +kernel)
  obtain ⟨docs', hdocs', hlength'⟩ := Manifest.exists_of_mem_toOption
    (x := Yaml.documents mixedNames) (p := fun docs ↦ docs.length = 5) (by decide +kernel)
  have hok : parse mixedUsers =
      .ok ⟨[⟨"don", "", true, false⟩, ⟨"ann", "", false, true⟩]⟩ := by
    decide +kernel
  have herror : parse mixedNames = .error (.config "user entry 3 is not a mapping") := by
    decide +kernel
  obtain ⟨records, hrecords, hregistry⟩ := ((parse_reads_entries hdocs).1 _).1 hok
  obtain ⟨before, v, after, us, complaint, hsplit, -, hv, hcomplaint⟩ :=
    ((parse_reads_entries hdocs').2.1 _).1 herror
  exact ⟨⟨docs, records, hdocs, hlength, hrecords, hrecords.length_eq.symm.trans hentries,
    hregistry.symm⟩, docs', before, v, after, complaint, hdocs', hlength', hsplit, hv,
    hcomplaint.symm⟩

end FolderCommands.Registry
