import FolderCommands.Proofs.Grammar.Values
import FolderCommands.Proofs.Plan

/-!
# What the check and YAML make of a manifest

A text is read twice, line by line by the check and as YAML. Where the lines are laid out plainly,
the two agree: each command that the check has seen becomes one record, the command set is the one
under which the commands were checked, and each record has the command that the check has seen.
A line break of YAML alone, a separator inside quotes or a number sign behind a name is enough for
them to differ.
-/

namespace FolderCommands

open Grammar Yaml

/-- The value that a record is. -/
def CommandRecord.value (record : CommandRecord) : Value :=
  .mapping record.entries

theorem Yaml.Value.find?_cons_self (key : String) (value : Value)
    (entries : List (Value × Value)) :
    find? key ((.string key, value) :: entries) = some value := by
  rw [find?, List.find?_cons_of_pos (by simp [isString])]
  rfl

namespace Manifest

variable {source folder : String} {m : Manifest}

theorem exists_of_mem_toOption {α ε : Type} {x : Except ε α} {p : α → Prop}
    (h : ∃ a ∈ x.toOption, p a) : ∃ a, x = .ok a ∧ p a := by
  cases x with
  | error e =>
    obtain ⟨a, ha, -⟩ := h
    cases ha
  | ok a =>
    obtain ⟨b, hb, hp⟩ := h
    obtain rfl := Option.some.inj hb
    exact ⟨a, rfl, hp⟩

/-! ## The values of a manifest -/

theorem eq_map_of_recordsOf {number : Nat} {values : List Value} {records : List CommandRecord}
    (h : recordsOf folder number values = .ok records) :
    values = records.map (·.value) := by
  induction values generalizing number records with
  | nil =>
    cases h
    rfl
  | cons value values ih =>
    rw [recordsOf.eq_def] at h
    split at h
    · rename_i heq
      cases heq
    · rename_i entries values' heq
      cases heq
      obtain ⟨records', hrecords, hlast⟩ := exists_of_bind_ok h
      cases hlast
      rw [List.map_cons, ← ih hrecords]
      rfl
    · cases h

theorem isNull_of_headerSet {header : Value} {set : CommandSet}
    (h : headerSet folder header = .ok set) : header.isNull = false := by
  cases header with
  | null => cases h
  | _ => rfl

theorem headerSet_of_find? {name : String} {set : CommandSet} (h : CommandSet.find? name = some set)
    {entries : List (Value × Value)} :
    headerSet folder (.mapping ((.string "command_set", .string name) :: entries)) = .ok set := by
  have hget : ((Value.mapping ((.string "command_set", .string name) :: entries)).get?
      "command_set").bind (·.asString?) = some name := by
    simp only [Value.get?, Value.untagged, Value.find?_cons_self, Option.bind_some, Value.asString?]
  rw [headerSet, hget]
  dsimp only
  rw [h]

/-- Of the documents of a text, an empty last one is left out. -/
theorem exists_of_documents {text : String} {docs : List Value} (h : documents text = .ok docs) :
    ∃ last, Yaml.documents text = .ok (docs ++ last) ∧ ∀ value ∈ last, value.isNull = true := by
  obtain ⟨values, hvalues, hcut⟩ := exists_of_map_ok h
  rw [hvalues]
  split at hcut
  · rename_i hempty
    cases hend : values.getLast? with
    | none =>
      rw [hend] at hempty
      cases hempty
    | some value =>
      rw [hend] at hempty
      refine ⟨[value], ?_, by simpa using hempty⟩
      rw [← hcut, List.dropLast_append_getLast? value hend]
  · exact ⟨[], by rw [hcut, List.append_nil], by simp⟩

/-- A manifest has a header and one mapping for each record. -/
theorem exists_of_parse (h : parse source folder = .ok m) :
    (validate source).hasErrors = false ∧ ∃ header last,
      Yaml.documents (validate source).meaningful =
        .ok (header :: (m.records.map (·.value) ++ last)) ∧
      (∀ value ∈ last, value.isNull = true) ∧ headerSet folder header = .ok m.commandSet := by
  simp only [parse] at h
  split at h
  · cases h
  rename_i herrors
  refine ⟨Bool.eq_false_iff.2 herrors, ?_⟩
  split at h
  · cases h
  rename_i docs hdocs
  obtain ⟨last, hlast, hnull⟩ := exists_of_documents hdocs
  cases docs with
  | nil => cases h
  | cons header docs =>
    obtain ⟨set, hset, hrest⟩ := exists_of_bind_ok h
    obtain ⟨records, hrecords, hrest⟩ := exists_of_bind_ok hrest
    obtain ⟨-, -, hlastly⟩ := exists_of_bind_ok hrest
    cases hlastly
    refine ⟨header, last, ?_, hnull, hset⟩
    rw [hlast, eq_map_of_recordsOf hrecords, List.cons_append]

/-- A text that passes the check and whose first document is not empty, taken apart by the check
and by YAML. -/
structure Opened (source : String) where
  set : CommandSet
  final : Expectation
  parts : Headed (accepted source) set
  header : Value
  others : List Value
  commandSet_eq : (validate source).commandSet = some set
  chain : Chain .header (accepted source) final
  chain_rest : Chain (.separator set) parts.rest final
  documents_eq : Yaml.documents (String.ofList ((accepted source).flatMap (·.raw))) =
    .ok (header :: others)
  isNull_header : header.isNull = false

theorem exists_opened {header : Value} {others : List Value}
    (herrors : (validate source).hasErrors = false)
    (hdocuments : Yaml.documents (validate source).meaningful = .ok (header :: others))
    (hnull : header.isNull = false) :
    ∃ r : Opened source, r.header = header ∧ r.others = others := by
  obtain ⟨hmeaningful, set, final, hfinal, hcommandSet, hchain⟩ := validate_accepts herrors
  obtain ⟨parts, hrest⟩ := hchain.headed hfinal
  rw [hmeaningful] at hdocuments
  exact ⟨⟨set, final, parts, header, others, hcommandSet, hchain, hrest, hdocuments, hnull⟩,
    rfl, rfl⟩

/-- A text that is read as a manifest, taken apart by the check and by YAML. -/
structure Reading (source folder : String) (m : Manifest) extends Opened source where
  last : List Value
  others_eq : others = m.records.map (·.value) ++ last
  isNull_last : ∀ value ∈ last, value.isNull = true
  headerSet_eq : headerSet folder header = .ok m.commandSet

theorem nonempty_reading (h : parse source folder = .ok m) :
    Nonempty (Reading source folder m) := by
  obtain ⟨herrors, header, last, hdocuments, hnull, hset⟩ := exists_of_parse h
  obtain ⟨r, hheader, hothers⟩ := exists_opened herrors hdocuments (isNull_of_headerSet hset)
  exact ⟨⟨r, last, hothers, hnull, hheader ▸ hset⟩⟩

namespace Opened

variable (r : Opened source)

include r

theorem isFirst {s : Step} (hs : s ∈ accepted source) (hregular : s.isRegular = true)
    (hbefore : s.before = .header ∨ ∃ set, s.before = .command set) : s.IsFirst :=
  (r.chain.isAccepted hs).isFirst hregular hbefore

theorem header_isSuffix : r.parts.header :: r.parts.rest <:+ accepted source :=
  ⟨r.parts.leading, r.parts.eq_append.symm⟩

theorem header_mem : r.parts.header ∈ accepted source :=
  r.header_isSuffix.subset List.mem_cons_self

theorem rest_isSuffix : r.parts.rest <:+ accepted source :=
  (List.suffix_cons r.parts.header _).trans r.header_isSuffix

theorem section_isSuffix {sec : List Step} (hsec : sec ∈ sections r.parts.rest) :
    sec <:+ accepted source :=
  (isSuffix_of_mem_sections hsec).trans r.rest_isSuffix

/-! ## The header -/

section

variable (hregular : ∀ s ∈ accepted source, s.before = .header → s.isRegular = true)

include hregular

theorem isFirst_head : ∀ s ∈ (accepted source).head?, s.IsFirst := by
  intro s hs
  have hmem := List.mem_of_mem_head? hs
  have hbefore := r.chain.before_of_head? hs
  exact r.isFirst hmem (hregular s hmem hbefore) (.inl hbefore)

/-- The header of the check and the first document are in the same place. -/
theorem documentLines_eq : documentLines (accepted source) =
      (r.parts.header :: r.parts.rest) :: sections r.parts.rest ∧
    Holds (r.parts.header :: r.parts.rest) r.header := by
  have hfirst := r.isFirst_head hregular
  rcases r.parts.documentLines_eq with hlines | ⟨s, more, others, hlines, hmark, hbefore, hsuffix⟩
  · obtain ⟨value, values, hvalues, hholds⟩ :=
      exists_holds_cons (areLines_accepted source) hfirst r.documents_eq hlines
    rw [List.head_eq_of_cons_eq hvalues]
    exact ⟨hlines, hholds⟩
  · obtain ⟨value, values, hvalues, hholds⟩ :=
      exists_holds_cons (areLines_accepted source) hfirst r.documents_eq hlines
    have hs : s ∈ accepted source := hsuffix.subset List.mem_cons_self
    have hnull : value.isNull = true := by
      rw [hholds.isNull_of_isFirst ((areLines_accepted source).of_isSuffix (hsuffix.map _)) (by
        rintro _ ⟨⟩
        exact r.isFirst hs (hregular s hs hbefore) (.inl hbefore))]
      simp [startsDeclared, hmark]
    rw [← List.head_eq_of_cons_eq hvalues, r.isNull_header] at hnull
    cases hnull

end

/-- Behind the header there is a separator, or nothing. -/
theorem isMark_of_head? : ∀ s ∈ r.parts.rest.head?, s.IsAccepted ∧ s.before = .separator r.set ∧
    s.isMark = true := by
  intro s hs
  have haccepted := r.chain_rest.isAccepted (List.mem_of_mem_head? hs)
  have hbefore := r.chain_rest.before_of_head? hs
  exact ⟨haccepted, hbefore, haccepted.isMark_of_separator hbefore⟩

section

variable (hplain : ∀ s ∈ accepted source, s.isHeading = true → s.isPlain = true)

include hplain

/-- The separator behind the header does not go on with it. -/
theorem endsScalar_header : EndsScalar (r.parts.header.indent + 1) (content r.parts.rest) := by
  refine endsScalar_content ((areLines_accepted source).of_isSuffix (r.rest_isSuffix.map _)) ?_
  intro s hs
  obtain ⟨haccepted, hbefore, hmark⟩ := r.isMark_of_head? s hs
  have hregular := Step.isRegular_of_isPlain (hplain s
    (r.rest_isSuffix.subset (List.mem_of_mem_head? hs)) (by rw [Step.isHeading, hbefore]))
  refine ⟨haccepted, Step.isUnbroken_of_isRegular hregular, ?_⟩
  rw [Step.indent_of_isMark hregular hmark]
  exact Nat.zero_le _

/-- A header that is written plainly declares the same command set to YAML. -/
theorem header_eq : r.header = .string "command_set" ∨ ∃ value entries,
    CommandSet.find? value = some r.set ∧
      r.header = .mapping ((.string "command_set", .string value) :: entries) := by
  have hheading : r.parts.header.isHeading = true := by rw [Step.isHeading, r.parts.before]
  have hnaming : r.parts.header.isNaming = true := by
    rw [Step.isNaming, r.parts.isMark, r.parts.before]
    rfl
  have haccepted := r.chain.isAccepted r.header_mem
  obtain ⟨value, set, hd, hset, hafter⟩ := haccepted.of_header r.parts.isMark r.parts.before
  obtain rfl : r.set = set := by simpa using r.parts.after.symm.trans hafter
  obtain ⟨-, hholds⟩ := r.documentLines_eq fun s hs hbefore ↦
    Step.isRegular_of_isPlain (hplain s hs (by rw [Step.isHeading, hbefore]))
  rcases hholds.exists_of_isPlain
    ((areLines_accepted source).of_isSuffix (r.header_isSuffix.map _)) haccepted hnaming
    (hplain _ r.header_mem hheading) hd (r.endsScalar_header hplain) with
      hstring | ⟨entries, hentries⟩
  · exact .inl hstring
  · exact .inr ⟨value, entries, hset, hentries⟩

end

end Opened

namespace Reading

variable (r : Reading source folder m)

include r

/-- A header that is written plainly declares the command set of the manifest. -/
theorem set_eq (hplain : ∀ s ∈ accepted source, s.isHeading = true → s.isPlain = true) :
    r.set = m.commandSet := by
  have hheader := r.headerSet_eq
  rcases r.header_eq hplain with hvalue | ⟨value, entries, hset, hvalue⟩
  · rw [hvalue] at hheader
    cases hheader
  · rw [hvalue, headerSet_of_find? hset] at hheader
    exact Except.ok.inj hheader

/-! ## The records -/

section

variable (hregular : ∀ s ∈ accepted source, s.isRegular = true)

include hregular

/-- What is behind each separator is a record, or nothing at the end of the text. -/
theorem forall₂_sections : List.Forall₂ Holds (sections r.parts.rest)
    (m.records.map (·.value) ++ r.last) := by
  have hheader : ∀ s ∈ accepted source, s.before = .header → s.isRegular = true :=
    fun s hs _ ↦ hregular s hs
  obtain ⟨hlines, -⟩ := r.documentLines_eq hheader
  have hholds := forall₂_holds (areLines_accepted source) (r.isFirst_head hheader) r.documents_eq
    (fun s hs ↦ ⟨r.chain.isAccepted hs, hregular s hs⟩) (by rw [hlines]; exact List.cons_ne_nil _ _)
  rw [hlines, r.others_eq] at hholds
  exact (List.forall₂_cons.1 hholds).2

theorem isNull_of_mem_sections {sec : List Step} (hsec : sec ∈ sections r.parts.rest)
    {value : Value} (h : Holds sec value) : value.isNull = !startsDeclared sec := by
  have hsuffix := r.section_isSuffix hsec
  refine h.isNull_of_isFirst ((areLines_accepted source).of_isSuffix (hsuffix.map _)) fun s hs ↦ ?_
  have hmem := hsuffix.subset (List.mem_of_mem_head? hs)
  exact r.isFirst hmem (hregular s hmem)
    (.inr ⟨r.set, (r.chain_rest.of_mem_sections rfl hsec).before_of_head? hs⟩)

/-- Each command behind a separator has its record. -/
theorem length_records : m.records.length = (sections r.parts.rest).countP startsDeclared := by
  have hmap : (sections r.parts.rest).map startsDeclared =
      (m.records.map (·.value) ++ r.last).map (!·.isNull) := by
    rw [← List.forall₂_eq_eq_eq, List.forall₂_map_left_iff, List.forall₂_map_right_iff]
    refine ((List.forall₂_and_left _ _).2 ⟨fun sec hsec ↦ hsec, r.forall₂_sections hregular⟩).imp
      fun sec value ⟨hsec, h⟩ ↦ ?_
    rw [r.isNull_of_mem_sections hregular hsec h, Bool.not_not]
  have hlast : r.last.countP (!·.isNull) = 0 := by
    rw [List.countP_eq_zero]
    intro value hvalue
    simp [r.isNull_last value hvalue]
  have hrecords : (m.records.map (·.value)).countP (!·.isNull) = m.records.length := by
    rw [List.countP_map]
    exact List.countP_eq_length.2 fun _ _ ↦ rfl
  calc m.records.length
      = (m.records.map (·.value) ++ r.last).countP (!·.isNull) := by
        rw [List.countP_append, hrecords, hlast, Nat.add_zero]
    _ = (sections r.parts.rest).countP startsDeclared := by
        rw [← Function.id_comp (fun value : Value ↦ !value.isNull), ← List.countP_map, ← hmap,
          List.countP_map, Function.id_comp]

end

/-- The commands that are declared are those behind a separator. -/
theorem commandCount_eq :
    commandCount source = (sections r.parts.rest).countP startsDeclared := by
  have hnone {s : Step} (hs : s.before = .header) : s.opensCommand = false := by
    rw [Step.opensCommand, hs]
  have hleading : r.parts.leading.countP (·.opensCommand) = 0 := by
    rw [List.countP_eq_zero]
    intro s hs
    simp [hnone (r.parts.leading_isMark s hs).2]
  calc commandCount source
      = (r.parts.leading ++ r.parts.header :: r.parts.rest).countP (·.opensCommand) :=
        congrArg (List.countP Step.opensCommand) r.parts.eq_append
    _ = r.parts.rest.countP (·.opensCommand) := by
        rw [List.countP_append, hleading, Nat.zero_add,
          List.countP_cons_of_neg (by simp [hnone r.parts.before])]
    _ = (sections r.parts.rest).countP startsDeclared := by
        rw [r.chain_rest.countP_opensCommand rfl]
        simp

/-! ## The commands of records -/

/-- A command that is written plainly is the first entry of its record. -/
theorem exists_entry (hplain : arePlain (accepted source) = true) {record : CommandRecord}
    (hrecord : record ∈ m.records) :
    ∃ name spec entries, record.entries = (.string "command", .string name) :: entries ∧
      r.set.command? name = some spec := by
  have hregular : ∀ s ∈ accepted source, s.isRegular = true :=
    fun s hs ↦ Step.isRegular_of_isPlain (isPlain_of_arePlain hplain hs)
  obtain ⟨sec, hsec, hholds⟩ := exists_of_forall₂ (r.forall₂_sections hregular)
    (List.mem_append_left r.last (List.mem_map_of_mem hrecord))
  have hdeclared := r.isNull_of_mem_sections hregular hsec hholds
  have hsuffix := r.section_isSuffix hsec
  have hchain := r.chain_rest.of_mem_sections rfl hsec
  cases sec with
  | nil => cases hdeclared
  | cons s rest =>
    have hmark : s.isMark = false := by
      have hstarts : startsDeclared (s :: rest) = !s.isMark := rfl
      rw [hstarts, Bool.not_not] at hdeclared
      exact hdeclared.symm
    have haccepted := hchain.isAccepted List.mem_cons_self
    have hbefore := hchain.before_eq
    obtain ⟨name, spec, hd, hspec, -⟩ := haccepted.of_command hmark hbefore
    have hlines := (areLines_accepted source).of_isSuffix (hsuffix.map _)
    have hsection := arePlain_of_isSuffix hplain hsuffix
    have hnaming : s.isNaming = true := by
      rw [Step.isNaming, hmark, hbefore]
      rfl
    have hends := endsScalar_of_arePlain hsection hnaming hlines fun s' hs' ↦
      hchain.isAccepted (List.mem_cons_of_mem s hs')
    have hs := isPlain_of_arePlain hsection List.mem_cons_self
    rcases hholds.exists_of_isPlain hlines haccepted hnaming hs hd hends with
      hvalue | ⟨entries, hvalue⟩
    · cases hvalue
    · exact ⟨name, spec, entries, Value.mapping.inj hvalue, hspec⟩

end Reading

theorem command?_of_entries {record : CommandRecord} {name : String}
    {entries : List (Value × Value)}
    (h : record.entries = (.string "command", .string name) :: entries) :
    record.command? = some (foldedName name) := by
  rw [CommandRecord.command?, CommandRecord.text?, h, Value.find?_cons_self]
  rfl

/-- Where the lines are laid out plainly, there is one record for each line that declares a
command. -/
theorem length_records_eq_commandCount (h : parse source folder = .ok m)
    (hregular : (accepted source).all (·.isRegular) = true) :
    m.records.length = commandCount source := by
  obtain ⟨r⟩ := nonempty_reading h
  rw [r.commandCount_eq, r.length_records (List.all_eq_true.1 hregular)]

/-- Two commands, of which one has an attribute. -/
def twoCommands : String :=
  "command_set: content\n--- # me\ncommand: identity\nperson: don\n---\ncommand: all\n"

theorem exists_length_eq_two : ∃ m, parse twoCommands "t" = .ok m ∧ m.records.length = 2 := by
  obtain ⟨m, hm, -⟩ := exists_of_mem_toOption (x := parse twoCommands "t") (p := fun _ ↦ True)
    (by decide +kernel)
  have hcount : commandCount twoCommands = 2 := by decide +kernel
  exact ⟨m, hm, (length_records_eq_commandCount hm (by decide +kernel)).trans hcount⟩

/-- An attribute in quotes that goes on for three lines. -/
def quotedSeparator : String :=
  "command_set: top\n---\ncommand: identity\nperson: 'x\n ---\n command: identity'\n"

/-- Inside quotes, a separator and a command are seen by the check alone. -/
theorem exists_swallowed_command : ∃ m, parse quotedSeparator "t" = .ok m ∧
    m.records.length = 1 ∧ commandCount quotedSeparator = 2 :=
  exists_of_mem_toOption (by decide +kernel)

/-- Where the header is written plainly, the commands are run under the command set under which
they were checked. -/
theorem commandSet_eq_validate (h : parse source folder = .ok m)
    (hplain : (accepted source).all (fun s ↦ !s.isHeading || s.isPlain) = true) :
    (validate source).commandSet = some m.commandSet := by
  obtain ⟨r⟩ := nonempty_reading h
  rw [r.commandSet_eq, r.set_eq fun s hs hheading ↦ ?_]
  simpa [hheading] using List.all_eq_true.1 hplain s hs

/-- A header in quotes between two separators. -/
def quotedHeader : String :=
  "--- # role\ncommand_set: 'Top' # upper case\n---\ncommand: identity\n"

theorem exists_commandSet_eq_top : ∃ m, parse quotedHeader "t" = .ok m ∧ m.commandSet = .top := by
  obtain ⟨m, hm, -⟩ := exists_of_mem_toOption (x := parse quotedHeader "t") (p := fun _ ↦ True)
    (by decide +kernel)
  have hset := commandSet_eq_validate hm (by decide +kernel)
  have hchecked : (validate quotedHeader).commandSet = some .top := by decide +kernel
  exact ⟨m, hm, Option.some.inj (hset.symm.trans hchecked)⟩

/-- A comment with carriage returns, which end lines for YAML only. -/
def returnInComment : String :=
  "--- # c\rcommand_set: story\r---\ncommand_set: top\n"

/-- A line break that only YAML knows can hide another command set in a comment. -/
theorem exists_foreign_commandSet : ∃ m, parse returnInComment "t" = .ok m ∧
    m.commandSet = .story ∧ (validate returnInComment).commandSet = some .top :=
  exists_of_mem_toOption (by decide +kernel)

/-- Where names are written plainly, each record has the command that was checked, and planning
never fails for want of a command. -/
theorem exists_spec_of_parse (h : parse source folder = .ok m)
    (hplain : arePlain (accepted source) = true) :
    (∀ record ∈ m.records, ∃ name spec, record.command? = some name ∧
        m.commandSet.command? name = some spec) ∧
      ∀ error, Plan.ofRecords m.commandSet m.records = .error error →
        (∀ set name, error ≠ .unknownCommand set name) ∧
          ∀ command, error ≠ .missingAttribute command "command" := by
  obtain ⟨r⟩ := nonempty_reading h
  have hset : r.set = m.commandSet := r.set_eq fun s hs _ ↦ isPlain_of_arePlain hplain hs
  have hspec : ∀ record ∈ m.records, ∃ name spec, record.command? = some name ∧
      m.commandSet.command? name = some spec := by
    intro record hrecord
    obtain ⟨name, spec, entries, hentries, hspec⟩ := r.exists_entry hplain hrecord
    rw [← hset]
    exact ⟨foldedName name, spec, command?_of_entries hentries, command?_foldedName hspec⟩
  refine ⟨hspec, fun error herror ↦ ?_⟩
  obtain ⟨record, hrecord, hconvert⟩ := Plan.exists_of_ofRecords_error herror
  obtain ⟨name, spec, hname, hcommand⟩ := hspec record hrecord
  rw [Plan.convert_eq hname hcommand] at hconvert
  rcases Command.ofRecord_error hconvert with ⟨attr, hattr, rfl⟩ | ⟨_, _, rfl⟩ | ⟨_, _, rfl⟩
  · refine ⟨nofun, ?_⟩
    rintro command ⟨⟩
    revert hattr
    decide
  · exact ⟨nofun, nofun⟩
  · exact ⟨nofun, nofun⟩

/-- A name in quotes with a comment behind it. -/
def quotedName : String :=
  "command_set: top\n---\ncommand: 'identity' # who\nperson: don\n"

theorem exists_spec_of_quotedName : ∃ m, parse quotedName "t" = .ok m ∧
    ∀ record ∈ m.records, ∃ name spec, record.command? = some name ∧
      m.commandSet.command? name = some spec := by
  obtain ⟨m, hm, -⟩ := exists_of_mem_toOption (x := parse quotedName "t") (p := fun _ ↦ True)
    (by decide +kernel)
  exact ⟨m, hm, (exists_spec_of_parse hm (by decide +kernel)).1⟩

/-- A number sign right behind a name. -/
def signBehindName : String :=
  "command_set: top\n---\ncommand: identity#x\n"

/-- A number sign behind a name begins a comment for the check alone. -/
theorem exists_record_unknownCommand : ∃ m, parse signBehindName "t" = .ok m ∧
    Plan.ofRecords m.commandSet m.records = .error (.unknownCommand "top" "identity#x") :=
  exists_of_mem_toOption (by decide +kernel)

end Manifest

end FolderCommands
