import FolderCommands.Proofs.Grammar.Acceptance
import FolderCommands.Proofs.Manifest.Agreement
import FolderCommands.Proofs.Plan
import FolderCommands.Proofs.Yaml.Pages

/-!
# Writing manifests

Every list of commands of a command set has a manifest: the header, and for each command a page with
its name and a line for each attribute. Where texts stand between single quotes, the check finds
nothing to report in it, and its plan is the list, whatever printable characters the texts hold.
Bare texts may stand without quotes; the records then have the texts of what these stand for.
-/

namespace FolderCommands

open Grammar Yaml

/-! ## Written commands -/

/-- Whether a text is printable and not blank. -/
def Text.isLegible (s : String) : Bool :=
  s.toList.all isPrintable && !allBlank s

/-- Whether the set has commands of that kind. -/
def CommandSet.allows (set : CommandSet) (c : Command) : Bool :=
  set.commands.any fun spec ↦ spec.handler = c.handler

namespace Command

/-- Whether no part of a folder is one dot or two, blanks apart. -/
def staysBelow (folder : String) : Bool :=
  (Text.split '/' folder).all fun part ↦ Text.trimmed part ≠ "." && Text.trimmed part ≠ ".."

/-- Whether the texts of a command may stand in a manifest. -/
def isWritable : Command → Bool
  | identity person _ => person.all Text.isLegible
  | changeFolder folder | singleFolder folder _ =>
    Text.isLegible folder && staysBelow folder
  | moveFiles target | moveSupportFiles target => Text.isLegible target
  | all | processStory | updatePages => true

/-- The attributes of a command. -/
def fields : Command → List Field
  | identity person sendLog =>
    (person.map fun p ↦ ⟨"person", .quoted p⟩).toList ++ [⟨"send_log", .flag sendLog⟩]
  | changeFolder folder => [⟨"folder", .quoted folder⟩]
  | singleFolder folder folderType =>
    [⟨"folder", .quoted folder⟩, ⟨"folder_type", .quoted folderType.name⟩]
  | moveFiles target | moveSupportFiles target => [⟨"target_directory", .quoted target⟩]
  | all | processStory | updatePages => []

/-- The page of a command. -/
def page (c : Command) : List Field :=
  ⟨"command", .name c.name⟩ :: c.fields

/-- The rows of a command, where the fields that `bare` picks stand without quotes. -/
def rows (bare : Field → Bool) (c : Command) : List Row :=
  c.page.map fun f ↦ ⟨f.key, f.value.text, f.value.isPlain || bare f⟩

/-- The entries that the rows of a command are read as. -/
def entries? (bare : Field → Bool) (c : Command) : Except Fault (List (Value × Value)) :=
  (c.rows bare).mapM Row.entry?

end Command

/-- The page in front of the commands of a set. -/
def CommandSet.header (set : CommandSet) : List Field :=
  [⟨"command_set", .name set.name⟩]

/-- The text of a manifest with those commands. -/
def Manifest.write (set : CommandSet) (commands : List Command) : String :=
  String.ofList (pageText set.header ++ markedText (commands.map Command.page))

/-- The same text without quotes around the fields that `bare` picks. -/
def Manifest.writeWith (bare : Field → Bool) (set : CommandSet) (commands : List Command) :
    String :=
  String.ofList (rowsText (set.header.map Field.row) ++ markedRows (commands.map (Command.rows bare)))

example : Manifest.write .top [.identity (some "Ann") true, .changeFolder "it's: #1"] =
    "command_set: top\n---\ncommand: identity\nperson: 'Ann'\nsend_log: true\n---\n" ++
      "command: change_folder\nfolder: 'it''s: #1'\n" := by
  rfl

/-! ## Commands of a set -/

/-- The name and the attributes of the commands of a handler, in every set that has them. -/
def Handler.signature : Handler → String × List String
  | identity => ("identity", ["person", "send_log"])
  | changeFolder => ("change_folder", ["folder"])
  | singleFolder => ("process_single_folder", ["folder", "folder_type"])
  | all => ("all", [])
  | processStory => ("story", [])
  | moveFiles | moveSupportFiles => ("move_files", ["target_directory"])
  | updatePages => ("process_pages", [])

theorem CommandSet.signature_of_mem {set : CommandSet} {spec : CommandSpec}
    (h : spec ∈ set.commands) : (spec.name, spec.attributes) = spec.handler.signature := by
  have hall : ∀ set ∈ every, ∀ spec ∈ set.commands,
      (spec.name, spec.attributes) = spec.handler.signature := by decide
  exact hall set set.mem_every spec h

theorem CommandSet.command?_of_mem {set : CommandSet} {spec : CommandSpec}
    (h : spec ∈ set.commands) : set.command? spec.name = some spec := by
  have hall : ∀ set ∈ every, ∀ spec ∈ set.commands, set.command? spec.name = some spec := by
    decide +kernel
  exact hall set set.mem_every spec h

namespace Command

variable {c : Command} {set : CommandSet} {spec : CommandSpec}

theorem name_eq_signature (c : Command) : c.handler.signature.1 = c.name := by
  cases c <;> rfl

theorem key_mem_signature (c : Command) : ∀ f ∈ c.fields, f.key ∈ c.handler.signature.2 := by
  cases c with
  | identity person sendLog => cases person <;> simp [fields, handler, Handler.signature]
  | _ => simp [fields, handler, Handler.signature]

/-- What a command set says of one of its commands. -/
structure IsSpec (set : CommandSet) (c : Command) (spec : CommandSpec) : Prop where
  command?_eq : set.command? spec.name = some spec
  name_eq : spec.name = c.name
  handler_eq : spec.handler = c.handler
  allows : ∀ f ∈ c.fields, spec.allows f.key = true

theorem exists_isSpec (h : set.allows c = true) : ∃ spec, IsSpec set c spec := by
  obtain ⟨spec, hspec, hhandler⟩ := List.any_eq_true.1 h
  have hhandler : spec.handler = c.handler := of_decide_eq_true hhandler
  have hsignature := CommandSet.signature_of_mem hspec
  rw [hhandler] at hsignature
  refine ⟨spec, CommandSet.command?_of_mem hspec, ?_, hhandler, fun f hf ↦ ?_⟩
  · rw [← name_eq_signature, ← hsignature]
  · have hmem := key_mem_signature c f hf
    rw [← hsignature] at hmem
    exact List.contains_iff_mem.2 hmem

end Command

/-! ## Pages -/

theorem isPage_header (set : CommandSet) : IsPage set.header where
  ne_nil := List.cons_ne_nil _ _
  isProper := List.forall_mem_singleton.2 (by cases set <;> decide)
  nodup := by simp [CommandSet.header]

namespace Command

variable {c : Command}

theorem isName_name (c : Command) : isName c.name = true := by
  rw [← name_eq_signature]
  cases c.handler <;> decide

theorem isProper_fields (h : c.isWritable = true) : ∀ f ∈ c.fields, f.isProper = true := by
  have hquoted {key s : String} (hkey : isName key = true) (hs : Text.isLegible s = true) :
      (⟨key, .quoted s⟩ : Field).isProper = true :=
    Field.isProper_mk hkey (Bool.and_eq_true_iff.1 hs).1
  cases c with
  | identity person sendLog =>
    have hflag : (⟨"send_log", .flag sendLog⟩ : Field).isProper = true :=
      Field.isProper_mk (by decide) rfl
    cases person with
    | none => exact List.forall_mem_singleton.2 hflag
    | some p =>
      exact List.forall_mem_cons.2 ⟨hquoted (by decide) h, List.forall_mem_singleton.2 hflag⟩
  | changeFolder folder =>
    exact List.forall_mem_singleton.2 (hquoted (by decide) (Bool.and_eq_true_iff.1 h).1)
  | singleFolder folder folderType =>
    refine List.forall_mem_cons.2 ⟨hquoted (by decide) (Bool.and_eq_true_iff.1 h).1, ?_⟩
    exact List.forall_mem_singleton.2 (hquoted (by decide) (by cases folderType <;> decide))
  | moveFiles target | moveSupportFiles target =>
    exact List.forall_mem_singleton.2 (hquoted (by decide) h)
  | all | processStory | updatePages => exact List.forall_mem_nil _

theorem nodup_page (c : Command) : (c.page.map (·.key)).Nodup := by
  cases c with
  | identity person sendLog => cases person <;> simp [page, fields]
  | _ => simp [page, fields]

theorem isPage_page (h : c.isWritable = true) : IsPage c.page where
  ne_nil := List.cons_ne_nil _ _
  isProper := List.forall_mem_cons.2
    ⟨Field.isProper_mk (by decide) (isName_name c), isProper_fields h⟩
  nodup := nodup_page c

theorem rows_eq (c : Command) : c.rows (fun _ ↦ false) = c.page.map Field.row := by
  simp only [rows, Bool.or_false]
  rfl

variable {bare : Field → Bool}

theorem map_key_rows (bare : Field → Bool) (c : Command) :
    (c.rows bare).map (·.key) = c.page.map (·.key) := by
  rw [rows, List.map_map]
  rfl

theorem areRows_rows (h : ∀ r ∈ c.rows bare, r.isProper = true) : AreRows (c.rows bare) where
  ne_nil := List.cons_ne_nil _ _
  isProper := h
  nodup := by
    rw [map_key_rows]
    exact nodup_page c

/-! ## The check -/

variable {set : CommandSet} {spec : CommandSpec}

theorem admits_rows {commands : List Command} (hallowed : ∀ c ∈ commands, set.allows c = true)
    (hrows : ∀ c ∈ commands, ∀ r ∈ c.rows bare, r.isProper = true) {expect : Expectation}
    (hset : expect.commandSet? = some set) :
    ∃ last, last.commandSet? = some set ∧
      Admits expect (markedRows (commands.map (rows bare))) last := by
  induction commands generalizing expect with
  | nil => exact ⟨expect, hset, .nil⟩
  | cons c commands ih =>
    obtain ⟨hc, hallowed⟩ := List.forall_mem_cons.1 hallowed
    obtain ⟨hproper, hrows⟩ := List.forall_mem_cons.1 hrows
    obtain ⟨spec, hspec⟩ := exists_isSpec hc
    have hattributes : (Expectation.attributes set spec).commandSet? = some set := rfl
    obtain ⟨last, hlast, hrest⟩ := ih hallowed hrows hattributes
    have hafter : expect.afterSeparator = .command set := by
      rw [Expectation.afterSeparator, hset]
    have hpage := hrest.command hspec.command?_eq (hspec.name_eq ▸ isName_name c)
      (fun r hr ↦ hproper r (List.mem_cons_of_mem _ hr))
      (List.forall_mem_map.2 hspec.allows)
    rw [hspec.name_eq, ← hafter] at hpage
    exact ⟨last, hlast, hpage.mark⟩

end Command

/-! ## Records -/

namespace Command

variable {set : CommandSet} {spec : CommandSpec} {c : Command} {bare : Field → Bool}
  {record : CommandRecord}

/-- Whether a record has what a command is made of. -/
structure IsAskedBy (c : Command) (record : CommandRecord) : Prop where
  command?_eq : record.command? = some c.name
  text?_eq : ∀ {key s}, ⟨key, .quoted s⟩ ∈ c.fields → record.text? key = some s
  text?_eq_none : ∀ {key}, key ∉ c.page.map (·.key) → record.text? key = none
  flag?_eq : ∀ {key b}, ⟨key, .flag b⟩ ∈ c.fields → record.flag? key = some b

theorem required_of_text? {key s : String} (h : record.text? key = some s)
    (hs : Text.allBlank s = false) (command : String) : required record command key = .ok s := by
  rw [required, h]
  dsimp only
  rw [hs, if_neg Bool.false_ne_true]

theorem allBlank_of_isLegible {s : String} (h : Text.isLegible s = true) :
    Text.allBlank s = false := by
  simpa using (Bool.and_eq_true_iff.1 h).2

theorem leavingPart?_eq_none {folder : String} (h : staysBelow folder = true) :
    leavingPart? folder = none := by
  rw [leavingPart?, List.find?_eq_none]
  intro part hpart
  obtain ⟨piece, hpiece, rfl⟩ := List.mem_map.1 hpart
  simpa using List.all_eq_true.1 h piece hpiece

theorem childFolder_of_text? {folder : String} (h : record.text? "folder" = some folder)
    (hfolder : (Text.isLegible folder && staysBelow folder) = true) (command : String) :
    childFolder record command = .ok folder := by
  obtain ⟨hlegible, hbelow⟩ := Bool.and_eq_true_iff.1 hfolder
  rw [childFolder, required_of_text? h (allBlank_of_isLegible hlegible)]
  simp only [bind, Except.bind, leavingPart?_eq_none hbelow]

theorem ofText_name (t : FolderType) : FolderType.ofText t.name = .ok t := by
  have hfolded : foldedName t.name = t.name := by cases t <;> decide +kernel
  rw [FolderType.ofText, hfolded]
  cases t <;> rfl

/-- A record that has what a command is made of asks for the command. -/
theorem IsAskedBy.ofRecord_eq (h : c.IsAskedBy record) (hw : c.isWritable = true) :
    ofRecord c.handler record = .ok c := by
  cases c with
  | identity person sendLog =>
    have hflag : record.flag? "send_log" = some sendLog :=
      h.flag?_eq (by cases person <;> simp [fields])
    cases person with
    | none =>
      have htext : record.text? "person" = none := h.text?_eq_none (by simp [page, fields])
      rw [handler, ofRecord, htext, hflag]
      rfl
    | some p =>
      have htext : record.text? "person" = some p := h.text?_eq (by simp [fields])
      have hp : Text.allBlank p = false := allBlank_of_isLegible hw
      rw [handler, ofRecord, htext, hflag, Option.filter_some, hp]
      rfl
  | changeFolder folder =>
    have htext : record.text? "folder" = some folder := h.text?_eq (by simp [fields])
    rw [handler, ofRecord, childFolder_of_text? htext hw]
    rfl
  | singleFolder folder folderType =>
    have htext : record.text? "folder" = some folder := h.text?_eq (by simp [fields])
    have htype : record.text? "folder_type" = some folderType.name :=
      h.text?_eq (by simp [fields])
    simp only [handler, ofRecord, childFolder_of_text? htext hw,
      required_of_text? htype (by cases folderType <;> decide), bind, Except.bind, ofText_name]
  | moveFiles target | moveSupportFiles target =>
    have htext : record.text? "target_directory" = some target := h.text?_eq (by simp [fields])
    rw [handler, ofRecord, required_of_text? htext (allBlank_of_isLegible hw)]
    rfl
  | all | processStory | updatePages => rfl

theorem IsAskedBy.convert_eq (h : c.IsAskedBy record) (hspec : IsSpec set c spec)
    (hw : c.isWritable = true) : Plan.convert set record = .ok c := by
  have hcommand := hspec.command?_eq
  rw [hspec.name_eq] at hcommand
  rw [Plan.convert_eq h.command?_eq hcommand, hspec.handler_eq, h.ofRecord_eq hw]

theorem foldedName_name (c : Command) : foldedName c.name = c.name := by
  rw [← name_eq_signature]
  cases c.handler <;> decide +kernel

section

variable {entries : List (Value × Value)} (h : c.entries? bare = .ok entries)

include h

theorem find?_of_rows {f : Field} (hf : f ∈ c.page) :
    ∃ value, Scalar.resolve none f.value.text (f.value.isPlain || bare f) = .ok value ∧
      Value.find? f.key entries = some value := by
  have hnodup : ((c.rows bare).map (·.key)).Nodup := by
    rw [map_key_rows]
    exact nodup_page c
  exact exists_find?_of_mapM h hnodup (List.mem_map_of_mem hf)

/-- The record of some rows has the texts of what their scalars stand for. -/
theorem text?_of_rows {f : Field} (hf : f ∈ c.page) : (⟨entries⟩ : CommandRecord).text? f.key =
    (Scalar.resolve none f.value.text (f.value.isPlain || bare f)).toOption.bind
      CommandRecord.scalarText? := by
  obtain ⟨value, hvalue, hfind⟩ := find?_of_rows h hf
  have hscalar := Scalar.isScalar_of_resolve hvalue
  rw [CommandRecord.text?, hfind, hvalue]
  cases value <;> first | rfl | cases hscalar

theorem command?_of_rows : (⟨entries⟩ : CommandRecord).command? = some c.name := by
  have htext := text?_of_rows h (f := ⟨"command", .name c.name⟩) List.mem_cons_self
  have hname : Scalar.resolve none c.name true = .ok (.string c.name) :=
    resolvePlain_of_isName (isName_name c)
  have hcommand : (⟨entries⟩ : CommandRecord).text? "command" = some c.name :=
    htext.trans (congrArg (fun result ↦ result.toOption.bind CommandRecord.scalarText?) hname)
  rw [CommandRecord.command?, hcommand, Option.map_some, foldedName_name]

/-- The record of some rows asks for the command if it has the texts of the command. -/
theorem isAskedBy_of_rows (htext : ∀ {key s}, ⟨key, .quoted s⟩ ∈ c.fields →
    (⟨entries⟩ : CommandRecord).text? key = some s) : c.IsAskedBy ⟨entries⟩ where
  command?_eq := command?_of_rows h
  text?_eq := htext
  text?_eq_none hkey := by
    rw [← map_key_rows bare] at hkey
    rw [CommandRecord.text?, find?_eq_none_of_mapM h hkey]
  flag?_eq {key b} hf := by
    obtain ⟨value, hvalue, hfind⟩ := find?_of_rows h (List.mem_cons_of_mem _ hf)
    have hflag : Scalar.resolve none (FieldValue.flag b).text true = .ok (.bool b) := by
      cases b <;> rfl
    cases hflag.symm.trans hvalue
    rw [CommandRecord.flag?, hfind]

/-- The attributes of the record of some rows are those of the command. -/
theorem foreignKey?_of_rows (hspec : IsSpec set c spec) :
    Manifest.foreignKey? set ⟨entries⟩ = none := by
  have hcommand := hspec.command?_eq
  rw [hspec.name_eq] at hcommand
  have hkeys : (⟨entries⟩ : CommandRecord).attributeKeys.find? (!spec.allows ·) = none := by
    rw [List.find?_eq_none]
    intro key hkey
    obtain ⟨hmem, hne⟩ := List.mem_filter.1 hkey
    obtain ⟨⟨first, value⟩, hentry, hstring⟩ := List.mem_filterMap.1 hmem
    have hfirst : first ∈ entries.map (·.1) := List.mem_map_of_mem hentry
    rw [map_fst_of_mapM h, rows, List.map_map] at hfirst
    obtain ⟨f, hf, rfl⟩ := List.mem_map.1 hfirst
    obtain rfl : f.key = key := Option.some.inj hstring
    rcases List.mem_cons.1 hf with rfl | hf
    · simp at hne
    · simp [hspec.allows f hf]
  rw [Manifest.foreignKey?, command?_of_rows h, Option.bind_some, hcommand]
  dsimp only
  rw [hkeys]
  rfl

end

end Command

/-! ## Manifests -/

namespace Manifest

open Command

variable {set : CommandSet} {commands : List Command} {folder : String} {bare : Field → Bool}

theorem write_eq (set : CommandSet) (commands : List Command) :
    write set commands = writeWith (fun _ ↦ false) set commands := by
  have hrows : rows (fun _ ↦ false) = fun c ↦ c.page.map Field.row := funext rows_eq
  rw [write, writeWith, pageText_eq, markedText_eq, List.map_map, hrows]
  rfl

theorem recordsOf_mappings (number : Nat) (entries : List (List (Value × Value))) :
    recordsOf folder number (entries.map .mapping) = .ok (entries.map CommandRecord.mk) := by
  induction entries generalizing number with
  | nil => rfl
  | cons es entries ih =>
    change (recordsOf folder (number + 1) (entries.map .mapping) >>= _) = _
    rw [ih]
    rfl

section

variable (hallowed : ∀ c ∈ commands, set.allows c = true)
  (hrows : ∀ c ∈ commands, ∀ r ∈ c.rows bare, r.isProper = true)

include hallowed in
theorem checkKeys_rows {entries : List (List (Value × Value))}
    (h : commands.mapM (entries? bare) = .ok entries) (number : Nat) :
    checkKeys folder set number (entries.map CommandRecord.mk) = .ok () := by
  have hentries := forall₂_of_mapM h
  clear h
  induction hentries generalizing number with
  | nil => rfl
  | @cons c es commands entries hes _ ih =>
    obtain ⟨hc, hallowed⟩ := List.forall_mem_cons.1 hallowed
    obtain ⟨spec, hspec⟩ := exists_isSpec hc
    rw [List.map_cons, checkKeys, foreignKey?_of_rows hes hspec]
    exact ih hallowed (number + 1)

include hrows in
/-- The documents of a written manifest are its header and the values of the rows of its
commands. -/
theorem documents_writeWith : documents (writeWith bare set commands) =
    (commands.mapM (entries? bare)).map fun entries ↦
      .mapping (pageEntries set.header) :: entries.map .mapping := by
  have hpages : ∀ all ∈ commands.map (rows bare), AreRows all :=
    List.forall_mem_map.2 fun c hc ↦ areRows_rows (hrows c hc)
  have hheader : rowsValue (set.header.map Field.row) = .ok (.mapping (pageEntries set.header)) := by
    rw [rowsValue, mapM_entry?_page (isPage_header set).isProper]
    rfl
  have hvalues : (commands.map (rows bare)).mapM rowsValue =
      (commands.mapM (entries? bare)).map (·.map Value.mapping) := by
    clear hrows hpages
    induction commands with
    | nil => rfl
    | cons c commands ih =>
      rw [List.map_cons, List.mapM_cons, List.mapM_cons, ih, rowsValue, ← entries?]
      cases c.entries? bare with
      | error fault => rfl
      | ok es => cases commands.mapM (entries? bare) <;> rfl
  rw [documents, writeWith, documents_rows (isPage_header set).areRows hpages, List.mapM_cons,
    hheader, hvalues]
  cases commands.mapM (entries? bare) with
  | error fault => rfl
  | ok entries =>
    have hlast : ((.mapping (pageEntries set.header) :: entries.map .mapping).getLast?.any
        fun value : Value ↦ value.isNull) = false := by
      rw [← List.map_cons (f := Value.mapping), List.getLast?_map, Option.any_map]
      exact Option.any_false
    change Except.ok (if _ then _ else _) = _
    rw [hlast, if_neg Bool.false_ne_true]
    rfl

include hallowed hrows

theorem validate_writeWith : validate (writeWith bare set commands) =
    ⟨[], some set, writeWith bare set commands⟩ := by
  have hseparator : (Expectation.separator set).commandSet? = some set := rfl
  obtain ⟨last, hlast, hadmits⟩ := admits_rows hallowed hrows hseparator
  exact validate_eq hadmits.header hlast

/-- Reading a written manifest fails where a scalar does, and else its records are those of its
rows. -/
theorem parse_writeWith (folder : String) : parse (writeWith bare set commands) folder =
    match commands.mapM (entries? bare) with
    | .ok entries => .ok ⟨set, entries.map CommandRecord.mk⟩
    | .error fault => .error (.manifestInvalid folder ["YAML error: " ++ fault.message]) := by
  have hfind : CommandSet.find? set.name = some set := by cases set <;> decide +kernel
  have hheader : headerSet folder (.mapping (pageEntries set.header)) = .ok set :=
    headerSet_of_find? hfind
  have hvalidate := validate_writeWith hallowed hrows
  have herrors : (validate (writeWith bare set commands)).hasErrors = false := by
    rw [hvalidate]
    rfl
  have hmeaningful : (validate (writeWith bare set commands)).meaningful =
      writeWith bare set commands := by
    rw [hvalidate]
  simp only [parse, herrors, hmeaningful, documents_writeWith hrows, Bool.false_eq_true, if_false]
  cases hentries : commands.mapM (entries? bare) with
  | error fault => rfl
  | ok entries =>
    simp only [Except.map, ofDocuments, hheader, recordsOf_mappings,
      checkKeys_rows hallowed hentries, bind, Except.bind]

end

/-- Records that ask for the commands of a set have them as their plan. -/
theorem ofRecords_of_isAskedBy {records : List CommandRecord}
    (h : List.Forall₂ IsAskedBy commands records)
    (hallowed : ∀ c ∈ commands, set.allows c = true)
    (hwritable : ∀ c ∈ commands, c.isWritable = true) :
    Plan.ofRecords set records = .ok commands := by
  rw [Plan.ofRecords_eq_ok_iff]
  induction h with
  | nil => rfl
  | @cons c record commands records hc _ ih =>
    obtain ⟨hallow, hallowed⟩ := List.forall_mem_cons.1 hallowed
    obtain ⟨hw, hwritable⟩ := List.forall_mem_cons.1 hwritable
    obtain ⟨spec, hspec⟩ := exists_isSpec hallow
    rw [List.map_cons, List.map_cons, hc.convert_eq hspec hw, ih hallowed hwritable]

theorem mapM_entries_rows (hwritable : ∀ c ∈ commands, c.isWritable = true) :
    commands.mapM (entries? fun _ ↦ false) =
      .ok (commands.map fun c ↦ pageEntries c.page) := by
  induction commands with
  | nil => rfl
  | cons c commands ih =>
    obtain ⟨hw, hwritable⟩ := List.forall_mem_cons.1 hwritable
    rw [List.mapM_cons, entries?, rows_eq, mapM_entry?_page (isPage_page hw).isProper, ih hwritable]
    rfl

/-- Every list of commands of a command set is the plan of a manifest that the check finds nothing
to report in, whatever printable characters their texts hold. -/
theorem plan_write (folder : String) (hallowed : ∀ c ∈ commands, set.allows c = true)
    (hwritable : ∀ c ∈ commands, c.isWritable = true) :
    (validate (write set commands)).diagnostics = [] ∧
      ∃ m, parse (write set commands) folder = .ok m ∧ m.commandSet = set ∧
        Plan.ofRecords m.commandSet m.records = .ok commands := by
  have hrows : ∀ c ∈ commands, ∀ r ∈ c.rows fun _ ↦ false, r.isProper = true := by
    intro c hc
    rw [rows_eq]
    exact (isPage_page (hwritable c hc)).areRows.isProper
  have hentries := mapM_entries_rows hwritable
  rw [write_eq, validate_writeWith hallowed hrows, parse_writeWith hallowed hrows, hentries]
  refine ⟨rfl, _, rfl, rfl, ofRecords_of_isAskedBy ?_ hallowed hwritable⟩
  rw [List.forall₂_map_right_iff]
  exact (forall₂_of_mapM hentries).imp fun c es (hes : c.entries? (fun _ ↦ false) = .ok es) ↦
    isAskedBy_of_rows hes fun hf ↦ text?_of_rows hes (List.mem_cons_of_mem _ hf)

/-- Commands whose texts look like comments, keys, marks and quotes. -/
def trickyCommands : List Command :=
  [.identity (some "O'Hara: #1") false, .changeFolder " --- 'a' / b: c # d ",
    .singleFolder "- command: all" .story]

theorem plan_write_trickyCommands :
    (∀ c ∈ trickyCommands, CommandSet.top.allows c = true) ∧
      (∀ c ∈ trickyCommands, c.isWritable = true) ∧
        (validate (write .top trickyCommands)).diagnostics = [] ∧
          ∃ m, parse (write .top trickyCommands) "t" = .ok m ∧ m.commandSet = .top ∧
            Plan.ofRecords m.commandSet m.records = .ok trickyCommands :=
  ⟨by decide, by decide +kernel, plan_write "t" (by decide) (by decide +kernel)⟩

end Manifest

end FolderCommands
