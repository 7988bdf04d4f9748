import FolderCommands.Proofs.Manifest.Agreement

/-!
# What is reported of a manifest that cannot be read

A text that is refused is reported as an invalid manifest of its folder, with all that the check
has found or, where the check has found nothing, with what is wrong with the documents. There is one
way out of this: a command set that YAML reads otherwise than the check. It takes a header that is
not written plainly, such as one with a number sign right behind the name.
-/

namespace FolderCommands

open Grammar Yaml

/-- Whether an error says what is wrong with the manifest of a folder. -/
inductive Error.IsFaultOf (folder : String) : Error → Prop
  | invalid {diagnostics : List String} (h : diagnostics ≠ []) :
      IsFaultOf folder (.manifestInvalid folder diagnostics)

theorem Error.isFaultOf_singleton (folder diagnostic : String) :
    (manifestInvalid folder [diagnostic]).IsFaultOf folder :=
  .invalid (List.cons_ne_nil _ _)

/-- The command set that a header declares to YAML, if it is a string. -/
def Yaml.Value.declaredSet? (header : Value) : Option String :=
  (header.get? "command_set").bind (·.asString?)

namespace Manifest

variable {source folder : String} {error : Error}

/-! ## Documents -/

/-- Where a failed sequence has failed. -/
theorem of_bind_eq_error {ε α β : Type} {x : Except ε α} {next : α → Except ε β} {e : ε}
    (h : x >>= next = .error e) : x = .error e ∨ ∃ a, x = .ok a ∧ next a = .error e := by
  cases x with
  | error fault =>
    cases h
    exact .inl rfl
  | ok a => exact .inr ⟨a, rfl, h⟩

theorem recordsOf_isFaultOf {number : Nat} {docs : List Value}
    (h : recordsOf folder number docs = .error error) : error.IsFaultOf folder := by
  induction docs generalizing number with
  | nil => cases h
  | cons doc docs ih =>
    rw [recordsOf.eq_def] at h
    split at h
    · rename_i heq
      cases heq
    · rename_i fields docs' heq
      cases heq
      rcases of_bind_eq_error h with hrest | ⟨records, -, h⟩
      · exact ih hrest
      · cases h
    · cases h
      exact Error.isFaultOf_singleton folder _

theorem checkKeys_isFaultOf {set : CommandSet} {number : Nat} {records : List CommandRecord}
    (h : checkKeys folder set number records = .error error) : error.IsFaultOf folder := by
  induction records generalizing number with
  | nil => cases h
  | cons record records ih =>
    rw [checkKeys] at h
    split at h
    · exact ih h
    · cases h
      exact Error.isFaultOf_singleton folder _

/-- A header that does not name a command set declares none, or one that there is not. -/
theorem headerSet_eq_error {header : Value} (h : headerSet folder header = .error error) :
    error.IsFaultOf folder ∨ ∃ name, header.declaredSet? = some name ∧
      CommandSet.find? name = none ∧ error = .unknownCommandSet (Text.trimmed name) := by
  rw [headerSet] at h
  split at h
  · cases h
    exact .inl (Error.isFaultOf_singleton folder _)
  · rename_i name hname
    split at h
    · cases h
    · rename_i hnone
      cases h
      exact .inr ⟨name, hname, hnone, rfl⟩

theorem ofDocuments_eq_error {docs : List Value} (h : ofDocuments folder docs = .error error) :
    error.IsFaultOf folder ∨ ∃ header others name, docs = header :: others ∧
      header.declaredSet? = some name ∧ CommandSet.find? name = none ∧
      error = .unknownCommandSet (Text.trimmed name) := by
  cases docs with
  | nil =>
    cases h
    exact .inl (Error.isFaultOf_singleton folder _)
  | cons header others =>
    rw [ofDocuments] at h
    rcases of_bind_eq_error h with hset | ⟨set, -, h⟩
    · refine (headerSet_eq_error hset).imp_right ?_
      rintro ⟨name, hname⟩
      exact ⟨header, others, name, rfl, hname⟩
    left
    rcases of_bind_eq_error h with hrecords | ⟨records, -, h⟩
    · exact recordsOf_isFaultOf hrecords
    rcases of_bind_eq_error h with hkeys | ⟨_, -, h⟩
    · exact checkKeys_isFaultOf hkeys
    · cases h

/-! ## Texts -/

/-- Whether a text passes the check and YAML reads a name in its header that is of no command
set. -/
def Misnames (source name : String) : Prop :=
  (validate source).hasErrors = false ∧ CommandSet.find? name = none ∧
    ∃ header others, documents (validate source).meaningful = .ok (header :: others) ∧
      header.declaredSet? = some name

theorem errors_ne_nil {validation : Validation} (h : validation.hasErrors = true) :
    validation.errors ≠ [] := by
  obtain ⟨d, hd, herror⟩ := List.any_eq_true.1 h
  exact List.ne_nil_of_mem (List.mem_filter.2 ⟨hd, herror⟩)

theorem parse_of_hasErrors (h : (validate source).hasErrors = true) :
    parse source folder =
      .error (.manifestInvalid folder ((validate source).errors.map (·.display))) :=
  if_pos h

theorem parse_eq_error (h : parse source folder = .error error) :
    error.IsFaultOf folder ∨
      ∃ name, Misnames source name ∧ error = .unknownCommandSet (Text.trimmed name) := by
  cases herrors : (validate source).hasErrors with
  | true =>
    rw [parse_of_hasErrors herrors] at h
    cases h
    exact .inl (.invalid fun hnil ↦ errors_ne_nil herrors (List.map_eq_nil_iff.1 hnil))
  | false =>
    simp only [parse, herrors, Bool.false_eq_true, if_false] at h
    split at h
    · cases h
      exact .inl (Error.isFaultOf_singleton folder _)
    · rename_i docs hdocs
      refine (ofDocuments_eq_error h).imp_right ?_
      rintro ⟨header, others, name, rfl, hname, hnone, rfl⟩
      exact ⟨name, ⟨herrors, hnone, header, others, hdocs, hname⟩, rfl⟩

theorem parse_of_misnames {name : String} (h : Misnames source name) :
    parse source folder = .error (.unknownCommandSet (Text.trimmed name)) := by
  obtain ⟨herrors, hnone, header, others, hdocs, hname⟩ := h
  have hset : headerSet folder header = .error (.unknownCommandSet (Text.trimmed name)) := by
    rw [Value.declaredSet?] at hname
    rw [headerSet, hname]
    dsimp only
    rw [hnone]
  simp only [parse, herrors, Bool.false_eq_true, if_false, hdocs, ofDocuments, hset]
  rfl

/-- A header that is written plainly names to YAML the command set that the check has seen. -/
theorem not_misnames (hplain : ∀ s ∈ accepted source, s.isHeading = true → s.isPlain = true)
    (name : String) : ¬ Misnames source name := by
  rintro ⟨herrors, hnone, header, others, hdocs, hname⟩
  obtain ⟨last, hdocuments, -⟩ := exists_of_documents hdocs
  have hnull : header.isNull = false := by
    cases header with
    | null => cases hname
    | _ => rfl
  obtain ⟨r, rfl, -⟩ := exists_opened herrors hdocuments hnull
  rcases r.header_eq hplain with hvalue | ⟨value, fields, hset, hvalue⟩
  · rw [hvalue] at hname
    cases hname
  · rw [hvalue] at hname
    simp only [Value.declaredSet?, Value.get?, Value.untagged, Value.find?_cons_self,
      Option.bind_some, Value.asString?] at hname
    obtain rfl := Option.some.inj hname
    cases hset.symm.trans hnone

/-- What is wrong with a manifest is reported for its folder. What the check finds is reported in
full and in order; what YAML finds is reported as one diagnostic. Only a header in which YAML reads
a name that is of no command set, though the check has read one, is reported as an unknown command
set, and no header that is written plainly is of this kind. -/
theorem isFaultOf_of_parse (source folder : String) :
    ((validate source).hasErrors = true → (validate source).errors ≠ [] ∧
      parse source folder =
        .error (.manifestInvalid folder ((validate source).errors.map (·.display)))) ∧
    (∀ error, parse source folder = .error error → error.IsFaultOf folder ∨
      ∃ name, Misnames source name ∧ error = .unknownCommandSet (Text.trimmed name)) ∧
    (∀ name, Misnames source name →
      parse source folder = .error (.unknownCommandSet (Text.trimmed name))) ∧
    ((accepted source).all (fun s ↦ !s.isHeading || s.isPlain) = true →
      ∀ error, parse source folder = .error error → error.IsFaultOf folder) := by
  refine ⟨fun herrors ↦ ⟨errors_ne_nil herrors, parse_of_hasErrors herrors⟩,
    fun _ ↦ parse_eq_error, fun _ ↦ parse_of_misnames, fun hplain error herror ↦ ?_⟩
  refine (parse_eq_error herror).resolve_right ?_
  rintro ⟨name, hname, -⟩
  refine not_misnames (fun s hs hheading ↦ ?_) name hname
  simpa [hheading] using List.all_eq_true.1 hplain s hs

/-- A header in quotes, and an attribute whose quotes are never closed. -/
def openQuote : String :=
  "command_set: 'top' # role\n---\ncommand: identity\nperson: 'don\n"

/-- A command that there is not, behind a tab. -/
def twoFaults : String :=
  "command_set: top\n---\n\tcommand: bogus\n"

/-- A number sign right behind the name of a command set. -/
def signBehindSet : String :=
  "command_set: top#x\n"

theorem misnames_signBehindSet : Misnames signBehindSet "top#x" := by
  refine ⟨by decide +kernel, by decide +kernel, ?_⟩
  obtain ⟨docs, hdocs, hname⟩ := exists_of_mem_toOption
    (x := documents (validate signBehindSet).meaningful)
    (p := fun docs ↦ docs.head?.bind (·.declaredSet?) = some "top#x") (by decide +kernel)
  obtain ⟨header, hheader, hname⟩ := Option.bind_eq_some_iff.1 hname
  obtain ⟨others, rfl⟩ := List.head?_eq_some_iff.1 hheader
  exact ⟨header, others, hdocs, hname⟩

theorem isFaultOf_openQuote :
    (∃ error, parse openQuote "t" = .error error ∧ error.IsFaultOf "t") ∧
      (validate twoFaults).errors.length = 2 ∧
      parse twoFaults "t" =
        .error (.manifestInvalid "t" ((validate twoFaults).errors.map (·.display))) ∧
      parse signBehindSet "t" = .error (.unknownCommandSet (Text.trimmed "top#x")) := by
  refine ⟨?_, by decide +kernel, ((isFaultOf_of_parse twoFaults "t").1 (by decide +kernel)).2,
    (isFaultOf_of_parse signBehindSet "t").2.2.1 _ misnames_signBehindSet⟩
  have hfails : (parse openQuote "t").toOption.isNone = true := by decide +kernel
  cases hparse : parse openQuote "t" with
  | ok m =>
    rw [hparse] at hfails
    cases hfails
  | error error =>
    exact ⟨error, rfl, (isFaultOf_of_parse openQuote "t").2.2.2 (by decide +kernel) error hparse⟩

/-- A number sign behind the name of a command set begins a comment for the check alone. -/
theorem exists_unreported_fault : (validate signBehindSet).hasErrors = false ∧
    parse signBehindSet "t" = .error (.unknownCommandSet "top#x") ∧
    ¬ (Error.unknownCommandSet "top#x").IsFaultOf "t" :=
  ⟨misnames_signBehindSet.1, parse_of_misnames misnames_signBehindSet, nofun⟩

end Manifest

end FolderCommands
