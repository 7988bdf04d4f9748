import FolderCommands.Proofs.Grammar.LineHeads
import FolderCommands.Proofs.Manifest.Agreement
import FolderCommands.Proofs.Yaml.RootKeys

/-!
# The keys of records

Two checks look at the keys of a command: the check of the lines at those that begin a line, and the
check of the records at those that are strings. Together they leave no key out where both see the
same lines, because a key that does not begin a line is inside brackets, and one that does is a
string. A line break of YAML alone lets a key begin a line that the first check does not see, and
if it is no string, neither does the second.
-/

namespace FolderCommands

open Grammar Yaml

/-- Whether a command may carry a key: its own name or an attribute. -/
def CommandSpec.allowsKey (spec : CommandSpec) : Value → Bool
  | .string name => name = "command" || spec.allows name
  | _ => false

/-- Whether the command of a record is one of the set and may carry all keys of the record. -/
def CommandRecord.keepsTo (set : CommandSet) (record : CommandRecord) : Bool :=
  (record.command?.bind set.command?).any fun spec ↦
    record.entries.all fun entry ↦ spec.allowsKey entry.1

namespace Manifest

variable {source folder : String} {m : Manifest}

theorem foreignKey?_of_checkKeys {set : CommandSet} {number : Nat} {records : List CommandRecord}
    (h : checkKeys folder set number records = .ok ()) :
    ∀ record ∈ records, foreignKey? set record = none := by
  induction records generalizing number with
  | nil => exact List.forall_mem_nil _
  | cons record records ih =>
    rw [checkKeys] at h
    split at h
    · rename_i hnone
      exact List.forall_mem_cons.2 ⟨hnone, ih h⟩
    · cases h

/-- No record of a manifest has a foreign attribute. -/
theorem foreignKey?_of_parse (h : parse source folder = .ok m) :
    ∀ record ∈ m.records, foreignKey? m.commandSet record = none := by
  simp only [parse] at h
  split at h
  · cases h
  split at h
  · cases h
  rename_i docs _
  cases docs with
  | nil => cases h
  | cons header docs =>
    obtain ⟨set, -, h⟩ := exists_of_bind_ok h
    obtain ⟨records, -, h⟩ := exists_of_bind_ok h
    obtain ⟨_, hkeys, hlast⟩ := exists_of_bind_ok h
    cases hlast
    exact foreignKey?_of_checkKeys hkeys

/-- The check of the records sees all keys that are strings. -/
theorem allowsKey_of_foreignKey? {set : CommandSet} {record : CommandRecord} {spec : CommandSpec}
    (h : foreignKey? set record = none) (hspec : record.command?.bind set.command? = some spec)
    {entry : Value × Value} (hentry : entry ∈ record.entries) {name : String}
    (hname : entry.1 = .string name) : spec.allowsKey entry.1 = true := by
  obtain ⟨key, value⟩ := entry
  obtain rfl := hname
  rw [CommandSpec.allowsKey, Bool.or_eq_true, decide_eq_true_eq]
  refine or_iff_not_imp_left.2 fun hne ↦ ?_
  rw [foreignKey?, hspec] at h
  have hall := List.find?_eq_none.1 (Option.map_eq_none_iff.1 h)
  have hmem : name ∈ record.attributeKeys :=
    List.mem_filter.2 ⟨List.mem_filterMap.2 ⟨_, hentry, rfl⟩, by simpa using hne⟩
  simpa using hall name hmem

/-- A record of a plan has a command of the set. -/
theorem exists_spec_of_ofRecords {set : CommandSet} {records : List CommandRecord}
    {commands : List Command} (h : Plan.ofRecords set records = .ok commands)
    {record : CommandRecord} (hrecord : record ∈ records) :
    ∃ spec, record.command?.bind set.command? = some spec := by
  have hmem : Plan.convert set record ∈ commands.map .ok := by
    rw [← Plan.map_convert_of_ofRecords h]
    exact List.mem_map_of_mem hrecord
  obtain ⟨command, -, hcommand⟩ := List.mem_map.1 hmem
  rw [Plan.convert] at hcommand
  split at hcommand
  · cases hcommand
  rename_i name hname
  split at hcommand
  · cases hcommand
  rename_i spec hspec
  exact ⟨spec, by rw [hname, Option.bind_some, hspec]⟩

namespace Reading

/-- Where no line holds a line break of YAML alone, all keys of records are strings. -/
theorem hasStringKeys (r : Reading source folder m)
    (hbreak : ∀ s ∈ accepted source, isUnbroken s.line = true) {record : CommandRecord}
    (hrecord : record ∈ m.records) : ∀ entry ∈ record.entries, ∃ s, entry.1 = .string s := by
  have hlines := r.chain.areTame_content trivial (areLines_accepted source) hbreak
  have hkeys := hasStringKeys_of_documents r.documents_eq (by
    rw [String.toList_ofList]
    exact hlines)
  rw [r.others_eq] at hkeys
  exact hkeys record.value (List.mem_append_left _ (List.mem_map_of_mem hrecord))

end Reading

/-- Where no accepted line holds a line break of YAML alone, every key of a record that is planned
is on the whitelist of its command. -/
theorem keepsTo_of_ofRecords (h : parse source folder = .ok m) {commands : List Command}
    (hplan : Plan.ofRecords m.commandSet m.records = .ok commands)
    (hbreak : (accepted source).all (isUnbroken ·.line) = true) :
    ∀ record ∈ m.records, record.keepsTo m.commandSet = true := by
  intro record hrecord
  obtain ⟨r⟩ := nonempty_reading h
  obtain ⟨spec, hspec⟩ := exists_spec_of_ofRecords hplan hrecord
  have hkeys := r.hasStringKeys (List.all_eq_true.1 hbreak) hrecord
  rw [CommandRecord.keepsTo, hspec, Option.any_some, List.all_eq_true]
  intro entry hentry
  obtain ⟨name, hname⟩ := hkeys entry hentry
  exact allowsKey_of_foreignKey? (foreignKey?_of_parse h record hrecord) hspec hentry hname

/-- A command with a mapping in brackets over two lines, the second of which looks like an
attribute. -/
def bracketedPerson : String :=
  "command_set: top\n--- # one\ncommand: identity\nperson: \x7bx: [y, 1],\n  send_log: 2\x7d\n"

theorem exists_keepsTo : ∃ m, parse bracketedPerson "t" = .ok m ∧
    ∀ record ∈ m.records, record.keepsTo m.commandSet = true := by
  obtain ⟨m, hm, hplanned⟩ := exists_of_mem_toOption (x := parse bracketedPerson "t")
    (p := fun m ↦ ∃ commands ∈ (Plan.ofRecords m.commandSet m.records).toOption,
      commands.length = 1) (by decide +kernel)
  obtain ⟨commands, hcommands, -⟩ := exists_of_mem_toOption hplanned
  exact ⟨m, hm, keepsTo_of_ofRecords hm hcommands (by decide +kernel)⟩

/-- An attribute with a carriage return and a number behind it. -/
def returnInValue : String :=
  "command_set: top\n---\ncommand: identity\nperson: x\r1: y\n"

/-- A line break that only YAML knows can hide a key, and a number is no key to the check of the
records. -/
theorem exists_number_key : ∃ m, parse returnInValue "t" = .ok m ∧
    (∃ commands, Plan.ofRecords m.commandSet m.records = .ok commands) ∧
      ∃ record ∈ m.records, record.keepsTo m.commandSet = false := by
  obtain ⟨m, hm, hplanned, hrecord⟩ := exists_of_mem_toOption (x := parse returnInValue "t")
    (p := fun m ↦ (∃ commands ∈ (Plan.ofRecords m.commandSet m.records).toOption,
      commands.length = 1) ∧ ∃ record ∈ m.records, record.keepsTo m.commandSet = false)
    (by decide +kernel)
  obtain ⟨commands, hcommands, -⟩ := exists_of_mem_toOption hplanned
  exact ⟨m, hm, ⟨commands, hcommands⟩, hrecord⟩

end Manifest

end FolderCommands
