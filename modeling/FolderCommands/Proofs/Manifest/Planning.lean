import FolderCommands.Proofs.Joins
import FolderCommands.Proofs.Plan
import FolderCommands.Proofs.Yaml.Passing
import Mathlib.Data.List.Forall2

/-!
# What becomes of records

A record becomes a command by the entry of the catalog that its name finds, and the command carries
texts of the record. What runs the command and how it is named are those of the entry. A plan is the
commands of all records, or the error of the first record that has none.

A folder that a command carries leads below every normal location. It may be made of slashes and
blanks only, and then it leads to the location itself.
-/

namespace FolderCommands

open Yaml

/-! ## Commands -/

namespace Command

/-- The folder that a command goes to. -/
def folder? : Command → Option String
  | changeFolder folder | singleFolder folder _ => some folder
  | _ => none

/-- The directory that a command moves files to. -/
def target? : Command → Option String
  | moveFiles target | moveSupportFiles target => some target
  | _ => none

/-- The person that a command names. -/
def person? : Command → Option String
  | identity person _ => person
  | _ => none

/-- Whether the texts of a command are those of a record and are fit for their use. -/
structure IsFormedBy (command : Command) (record : CommandRecord) : Prop where
  folder : ∀ folder ∈ command.folder?, record.text? "folder" = some folder ∧
    Text.allBlank folder = false ∧ ∀ s ∈ segmentsOf folder, s ≠ "." ∧ s ≠ ".."
  target : ∀ target ∈ command.target?, record.text? "target_directory" = some target ∧
    Text.allBlank target = false
  person : ∀ person ∈ command.person?, record.text? "person" = some person ∧
    Text.allBlank person = false

variable {record : CommandRecord} {handler : Handler}

theorem of_required {command attr value : String} (h : required record command attr = .ok value) :
    record.text? attr = some value ∧ Text.allBlank value = false := by
  rw [required] at h
  split at h
  · rename_i text htext
    split at h
    · cases h
    · rename_i hblank
      cases h
      exact ⟨htext, Bool.eq_false_iff.2 hblank⟩
  · cases h

/-- No part leaves the folder around if and only if no segment does. -/
theorem leavingPart?_eq_none_iff {folder : String} :
    leavingPart? folder = none ↔ ∀ s ∈ segmentsOf folder, s ≠ "." ∧ s ≠ ".." := by
  simp only [leavingPart?, segmentsOf, List.find?_eq_none, List.mem_filter, Bool.or_eq_true,
    beq_iff_eq, not_or, decide_eq_true_eq]
  constructor
  · exact fun h s hs ↦ h s hs.1
  · intro h s hs
    by_cases hempty : s = ""
    · rw [hempty]
      decide
    · exact h s ⟨hs, hempty⟩

theorem of_childFolder {command folder : String} (h : childFolder record command = .ok folder) :
    record.text? "folder" = some folder ∧ Text.allBlank folder = false ∧
      ∀ s ∈ segmentsOf folder, s ≠ "." ∧ s ≠ ".." := by
  rw [childFolder] at h
  obtain ⟨text, htext, h⟩ := exists_of_bind_ok h
  split at h
  · cases h
  · rename_i hstays
    cases h
    obtain ⟨hvalue, hblank⟩ := of_required htext
    exact ⟨hvalue, hblank, leavingPart?_eq_none_iff.1 hstays⟩

/-- A folder with a segment that leaves the folder around is refused as such. -/
theorem childFolder_of_leaving {folder s : String} (command : String)
    (htext : record.text? "folder" = some folder) (hs : s ∈ segmentsOf folder)
    (hleaves : s = "." ∨ s = "..") :
    ∃ reason, childFolder record command = .error (.invalidFolder folder reason) := by
  have hblank : Text.allBlank folder = false := by
    obtain ⟨c, hc, -, hblank⟩ := (segmentsOf_ne_nil_iff folder).1 (List.ne_nil_of_mem hs)
    rw [Text.allBlank, List.all_eq_false]
    exact ⟨c, hc, by rw [hblank]; exact Bool.false_ne_true⟩
  cases hpart : leavingPart? folder with
  | none =>
    obtain ⟨hdot, hdots⟩ := leavingPart?_eq_none_iff.1 hpart s hs
    exact absurd hleaves (not_or.2 ⟨hdot, hdots⟩)
  | some part =>
    have hrequired : required record command "folder" = .ok folder := by
      rw [required, htext]
      dsimp only
      rw [hblank, if_neg Bool.false_ne_true]
    refine ⟨"'" ++ part ++ "' segments are not allowed", ?_⟩
    rw [childFolder, hrequired]
    dsimp only [bind, Except.bind]
    rw [hpart]

/-- What a handler makes of a record is a command that it runs, with texts of the record. -/
theorem of_ofRecord {command : Command} (h : ofRecord handler record = .ok command) :
    command.handler = handler ∧ command.IsFormedBy record := by
  cases handler with
  | identity =>
    cases h
    refine ⟨rfl, nofun, nofun, fun person hperson ↦ ?_⟩
    have hfilter := Option.filter_eq_some_iff.1 hperson
    exact ⟨hfilter.1, by simpa using hfilter.2⟩
  | changeFolder =>
    obtain ⟨folder, hfolder, rfl⟩ := exists_of_map_ok h
    refine ⟨rfl, ?_, nofun, nofun⟩
    rintro _ ⟨⟩
    exact of_childFolder hfolder
  | singleFolder =>
    obtain ⟨folder, hfolder, h⟩ := exists_of_bind_ok h
    obtain ⟨text, -, h⟩ := exists_of_bind_ok h
    split at h
    · cases h
      refine ⟨rfl, ?_, nofun, nofun⟩
      rintro _ ⟨⟩
      exact of_childFolder hfolder
    · cases h
  | moveFiles | moveSupportFiles =>
    obtain ⟨target, htarget, rfl⟩ := exists_of_map_ok h
    refine ⟨rfl, nofun, ?_, nofun⟩
    rintro _ ⟨⟩
    exact of_required htarget
  | all | processStory | updatePages =>
    cases h
    exact ⟨rfl, nofun, nofun, nofun⟩

/-! ## Folders -/

theorem exists_folder {command : Command}
    (h : command.handler = .changeFolder ∨ command.handler = .singleFolder) :
    ∃ folder, command.folder? = some folder := by
  cases command with
  | changeFolder folder => exact ⟨folder, rfl⟩
  | singleFolder folder folderType => exact ⟨folder, rfl⟩
  | _ => rcases h with h | h <;> cases h

/-- A folder that a command carries leads below every normal location, and away from it if and only
if it has a character that is neither a slash nor blank. A folder that does not lead below some
normal location is refused. -/
theorem folder_leads_below (hhandler : handler = .changeFolder ∨ handler = .singleFolder)
    (record : CommandRecord) {p : RemotePath} (hp : p.isNormal = true) :
    (∀ command, ofRecord handler record = .ok command →
      ∃ folder, command.folder? = some folder ∧ record.text? "folder" = some folder ∧
        (p.join folder).isDescendantOf p = true ∧
        (p.segments.length < (p.join folder).segments.length ↔
          ∃ c ∈ folder.toList, c ≠ '/' ∧ Text.isBlank c = false)) ∧
    ∀ folder, record.text? "folder" = some folder → (p.join folder).isDescendantOf p = false →
      ∃ reason, ofRecord handler record = .error (.invalidFolder folder reason) := by
  refine ⟨fun command h ↦ ?_, fun folder htext hoff ↦ ?_⟩
  · obtain ⟨rfl, hformed⟩ := of_ofRecord h
    obtain ⟨folder, hfolder⟩ := exists_folder hhandler
    obtain ⟨htext, -, hstays⟩ := hformed.folder folder hfolder
    exact ⟨folder, hfolder, htext, (RemotePath.isDescendantOf_join_iff hp).2 hstays,
      RemotePath.length_lt_join_iff⟩
  · rw [← Bool.not_eq_true, RemotePath.isDescendantOf_join_iff hp] at hoff
    obtain ⟨s, hs⟩ := not_forall.1 hoff
    rw [Classical.not_imp, not_and_or, not_not, not_not] at hs
    obtain ⟨reason, hrefused⟩ := childFolder_of_leaving (record.command?.getD "") htext hs.1 hs.2
    refine ⟨reason, ?_⟩
    rcases hhandler with rfl | rfl
    · rw [ofRecord, hrefused]
      rfl
    · rw [ofRecord, hrefused]
      rfl

/-- A record that asks for a folder. -/
def folderRecord (folder : String) : CommandRecord :=
  ⟨[(.string "command", .string "change_folder"), (.string "folder", .string folder)]⟩

/-- Slashes and blanks do not matter, and points do. -/
theorem folder_leads_below_mixed :
    ((RemotePath.ofText "/site").isNormal = true ∧
      ofRecord .changeFolder (folderRecord " / a//.b ") = .ok (.changeFolder " / a//.b ")) ∧
    ((RemotePath.ofText "/site").join " / a//.b ").isDescendantOf (.ofText "/site") = true ∧
    ∃ reason, ofRecord .changeFolder (folderRecord "a/ . /b") =
      .error (.invalidFolder "a/ . /b" reason) := by
  have hnormal : (RemotePath.ofText "/site").isNormal = true := by decide
  have hok : ofRecord .changeFolder (folderRecord " / a//.b ") =
      .ok (.changeFolder " / a//.b ") := by
    decide +kernel
  have hoff : ((RemotePath.ofText "/site").join "a/ . /b").isDescendantOf (.ofText "/site") =
      false := by
    decide +kernel
  obtain ⟨folder, hfolder, -, hbelow, -⟩ :=
    (folder_leads_below (.inl rfl) (folderRecord " / a//.b ") hnormal).1 _ hok
  cases hfolder
  exact ⟨⟨hnormal, hok⟩, hbelow,
    (folder_leads_below (.inl rfl) (folderRecord "a/ . /b") hnormal).2 _ rfl hoff⟩

/-- A slash is taken for a folder and leads nowhere. -/
theorem exists_folder_leading_nowhere :
    ofRecord .changeFolder (folderRecord "/") = .ok (.changeFolder "/") ∧
      ∀ p : RemotePath, p.join "/" = p := by
  refine ⟨by decide +kernel, fun p ↦ ?_⟩
  have hnone : segmentsOf "/" = [] := by decide
  rw [RemotePath.join]
  cases p
  simp [hnone]

end Command

/-! ## Plans -/

/-- Whether a value has a text where it is an attribute. -/
def Yaml.Value.hasText : Value → Bool
  | string _ | bool _ | number _ | sequence _ => true
  | _ => false

theorem CommandRecord.isSome_text?_iff {record : CommandRecord} {key : String} :
    (record.text? key).isSome ↔ ∃ value, Value.find? key record.entries = some value ∧
      value.hasText = true := by
  rw [text?]
  cases Value.find? key record.entries with
  | none => simp
  | some value => cases value <;> simp [scalarText?, Value.hasText]

/-- The name of the commands that a handler runs. -/
def Handler.commandName : Handler → String
  | identity => "identity"
  | changeFolder => "change_folder"
  | singleFolder => "process_single_folder"
  | all => "all"
  | processStory => "story"
  | moveFiles | moveSupportFiles => "move_files"
  | updatePages => "process_pages"

theorem Command.name_eq (command : Command) : command.name = command.handler.commandName := by
  cases command <;> rfl

theorem CommandSpec.name_eq {set : CommandSet} {spec : CommandSpec} (h : spec ∈ set.commands) :
    spec.name = spec.handler.commandName := by
  have hall : ∀ set ∈ CommandSet.every, ∀ spec ∈ set.commands,
      spec.name = spec.handler.commandName := by
    decide
  exact hall set set.mem_every spec h

namespace Plan

/-- Whether a command is one that the catalog knows by the name in a record, and is formed by the
record. -/
structure IsPlannedFor (set : CommandSet) (record : CommandRecord) (command : Command) : Prop where
  known : ∃ name spec, record.command? = some name ∧ set.command? name = some spec ∧
    handlerOf set name = .ok command.handler ∧ command.name = spec.name
  formed : command.IsFormedBy record

variable {set : CommandSet} {record : CommandRecord} {records : List CommandRecord} {error : Error}

theorem handlerOf_eq {name : String} {spec : CommandSpec} (h : set.command? name = some spec) :
    handlerOf set name = .ok spec.handler := by
  rw [handlerOf, h]

theorem of_convert {command : Command} (h : convert set record = .ok command) :
    IsPlannedFor set record command := by
  rw [convert] at h
  split at h
  · cases h
  · rename_i name hname
    split at h
    · cases h
    · rename_i spec hspec
      obtain ⟨hhandler, hformed⟩ := Command.of_ofRecord h
      refine ⟨⟨name, spec, hname, hspec, ?_, ?_⟩, hformed⟩
      · rw [handlerOf_eq hspec, hhandler]
      · rw [command.name_eq, hhandler, CommandSpec.name_eq (List.mem_of_find?_eq_some hspec)]

theorem ofRecords_eq_ok_iff_forall₂ {commands : List Command} :
    ofRecords set records = .ok commands ↔
      List.Forall₂ (fun record command ↦ convert set record = .ok command) records commands := by
  rw [ofRecords_eq_ok_iff, ← List.forall₂_eq_eq_eq, List.forall₂_map_left_iff,
    List.forall₂_map_right_iff]

theorem ofRecords_append_cons {before after : List CommandRecord}
    (hbefore : ∀ r ∈ before, ∃ command, convert set r = .ok command)
    (h : convert set record = .error error) :
    ofRecords set (before ++ record :: after) = .error error := by
  induction before with
  | nil => rw [List.nil_append, ofRecords_cons, h]
  | cons first before ih =>
    obtain ⟨⟨command, hfirst⟩, hbefore⟩ := List.forall_mem_cons.1 hbefore
    rw [List.cons_append, ofRecords_cons, hfirst, ih hbefore]

/-- The error of a plan is that of the first record that has no command. -/
theorem ofRecords_eq_error_iff : ofRecords set records = .error error ↔
    ∃ before record after, records = before ++ record :: after ∧
      (∀ r ∈ before, ∃ command, convert set r = .ok command) ∧
      convert set record = .error error := by
  constructor
  · intro h
    induction records with
    | nil => cases h
    | cons record records ih =>
      rw [ofRecords_cons] at h
      cases hrecord : convert set record with
      | error error' =>
        rw [hrecord] at h
        cases h
        exact ⟨[], record, records, rfl, nofun, hrecord⟩
      | ok command =>
        rw [hrecord] at h
        cases hrecords : ofRecords set records with
        | error error' =>
          rw [hrecords] at h
          cases h
          obtain ⟨before, failing, after, rfl, hbefore, hfailing⟩ := ih hrecords
          exact ⟨record :: before, failing, after, rfl,
            List.forall_mem_cons.2 ⟨⟨command, hrecord⟩, hbefore⟩, hfailing⟩
        | ok commands =>
          rw [hrecords] at h
          cases h
  · rintro ⟨before, record, after, rfl, hbefore, h⟩
    exact ofRecords_append_cons hbefore h

/-- Every record has a command, or the records have no plan. -/
theorem exists_ofRecords_iff : (∃ commands, ofRecords set records = .ok commands) ↔
    ∀ record ∈ records, ∃ command, convert set record = .ok command := by
  constructor
  · rintro ⟨commands, h⟩ record hrecord
    rw [ofRecords_eq_ok_iff] at h
    have hmem : convert set record ∈ commands.map .ok := h ▸ List.mem_map_of_mem hrecord
    obtain ⟨command, -, hcommand⟩ := List.mem_map.1 hmem
    exact ⟨command, hcommand.symm⟩
  · intro h
    cases hrecords : ofRecords set records with
    | ok commands => exact ⟨commands, rfl⟩
    | error error =>
      obtain ⟨record, hrecord, herror⟩ := exists_of_ofRecords_error hrecords
      obtain ⟨command, hcommand⟩ := h record hrecord
      rw [herror] at hcommand
      cases hcommand

/-- A record has an unknown command if and only if there is nothing to run a command of its name. -/
theorem convert_eq_unknownCommand_iff {commandSet name : String} :
    convert set record = .error (.unknownCommand commandSet name) ↔
      commandSet = set.name ∧ record.command? = some name ∧
        ∃ error, handlerOf set name = .error error := by
  constructor
  · intro h
    rw [convert] at h
    split at h
    · cases h
    · rename_i found hname
      split at h
      · rename_i hnone
        cases h
        exact ⟨rfl, hname, _, by rw [handlerOf, hnone]⟩
      · rcases Command.ofRecord_error h with ⟨_, -, h⟩ | ⟨_, _, h⟩ | ⟨_, _, h⟩ <;> cases h
  · rintro ⟨rfl, hname, error, hlookup⟩
    cases hspec : set.command? name with
    | some spec =>
      rw [handlerOf_eq hspec] at hlookup
      cases hlookup
    | none =>
      rw [convert, hname]
      dsimp only
      rw [hspec]

/-- A record lacks a command if and only if nothing with a text stands under that key. -/
theorem convert_eq_missingCommand_iff :
    (∃ command, convert set record = .error (.missingAttribute command "command")) ↔
      ¬ ∃ value, Value.find? "command" record.entries = some value ∧ value.hasText = true := by
  rw [← CommandRecord.isSome_text?_iff, Bool.not_eq_true, Option.isSome_eq_false_iff,
    Option.isNone_iff_eq_none]
  constructor
  · rintro ⟨command, h⟩
    rw [convert] at h
    split at h
    · rename_i hnone
      exact Option.map_eq_none_iff.1 hnone
    · split at h
      · cases h
      · rcases Command.ofRecord_error h with ⟨attr, hattr, h⟩ | ⟨_, _, h⟩ | ⟨_, _, h⟩
        · cases h
          exact absurd hattr (by decide)
        · cases h
        · cases h
  · intro hnone
    refine ⟨"<unnamed>", ?_⟩
    rw [convert, CommandRecord.command?, hnone]
    rfl

/-- Records have a plan if and only if each has a command, one that the catalog knows by the name in
the record and that the record forms; otherwise what is wrong is what is wrong with the first record
without a command. A command is unknown, or missing, just if its name finds nothing to run it, or
nothing with a text stands where the name should be. -/
theorem ofRecords_exact (set : CommandSet) (records : List CommandRecord) :
    ((∃ commands, ofRecords set records = .ok commands) ↔
      ∀ record ∈ records, ∃ command, convert set record = .ok command) ∧
    (∀ commands, ofRecords set records = .ok commands ↔
      List.Forall₂ (fun record command ↦ convert set record = .ok command ∧
        IsPlannedFor set record command) records commands) ∧
    (∀ error, ofRecords set records = .error error ↔
      ∃ before record after, records = before ++ record :: after ∧
        (∀ r ∈ before, ∃ command, convert set r = .ok command) ∧
        convert set record = .error error) ∧
    ∀ record,
      (∀ commandSet name, convert set record = .error (.unknownCommand commandSet name) ↔
        commandSet = set.name ∧ record.command? = some name ∧
          ∃ error, handlerOf set name = .error error) ∧
      ((∃ command, convert set record = .error (.missingAttribute command "command")) ↔
        ¬ ∃ value, Value.find? "command" record.entries = some value ∧ value.hasText = true) := by
  refine ⟨exists_ofRecords_iff, fun commands ↦ ?_, fun error ↦ ofRecords_eq_error_iff,
    fun record ↦ ⟨fun _ _ ↦ convert_eq_unknownCommand_iff, convert_eq_missingCommand_iff⟩⟩
  have hplanned (record : CommandRecord) (command : Command) :
      convert set record = .ok command ↔
        convert set record = .ok command ∧ IsPlannedFor set record command :=
    (and_iff_left_of_imp of_convert).symm
  simp only [ofRecords_eq_ok_iff_forall₂, ← hplanned]

end Plan

end FolderCommands
