import FolderCommands.Manifest.Plan

/-!
# Records and commands

A plan has exactly one command for each record, in the order of the records. One record that does
not form a command leaves no plan at all.
-/

namespace FolderCommands.Plan

variable {set : CommandSet} {records : List CommandRecord}

theorem ofRecords_cons (record : CommandRecord) :
    ofRecords set (record :: records) = match convert set record, ofRecords set records with
      | .error error, _ => .error error
      | .ok _, .error error => .error error
      | .ok command, .ok commands => .ok (command :: commands) := by
  simp only [ofRecords, List.mapM_cons]
  cases convert set record with
  | error error => rfl
  | ok command => cases records.mapM (convert set) <;> rfl

theorem map_convert_of_ofRecords {commands : List Command}
    (h : ofRecords set records = .ok commands) :
    records.map (convert set) = commands.map .ok := by
  induction records generalizing commands with
  | nil =>
    cases h
    rfl
  | cons record records ih =>
    rw [ofRecords_cons] at h
    split at h
    · cases h
    · cases h
    · rename_i hrecord hrecords
      cases h
      rw [List.map_cons, List.map_cons, hrecord, ih hrecords]

theorem ofRecords_of_map_convert {commands : List Command}
    (h : records.map (convert set) = commands.map .ok) :
    ofRecords set records = .ok commands := by
  induction records generalizing commands with
  | nil =>
    rw [List.map_nil] at h
    rw [List.map_eq_nil_iff.1 h.symm]
    rfl
  | cons record records ih =>
    obtain ⟨command, rest, rfl, hrecord, hrest⟩ := List.map_eq_cons_iff.1 h.symm
    rw [ofRecords_cons, ← hrecord, ih hrest.symm]

/-- There is a plan exactly if every record forms a command, and it is these commands. -/
theorem ofRecords_eq_ok_iff {commands : List Command} :
    ofRecords set records = .ok commands ↔ records.map (convert set) = commands.map .ok :=
  ⟨map_convert_of_ofRecords, ofRecords_of_map_convert⟩

/-- One record that forms no command is enough for there to be no plan. -/
theorem exists_ofRecords_error {record : CommandRecord} (hmem : record ∈ records)
    (h : (convert set record).isOk = false) : ∃ error, ofRecords set records = .error error := by
  rcases hrecords : ofRecords set records with error | commands
  · exact ⟨error, rfl⟩
  · have hconverted : convert set record ∈ commands.map .ok := by
      rw [← map_convert_of_ofRecords hrecords]
      exact List.mem_map_of_mem hmem
    obtain ⟨command, -, hcommand⟩ := List.mem_map.1 hconverted
    rw [← hcommand] at h
    cases h

/-- A record whose command is known is converted by its handler. -/
theorem convert_eq {record : CommandRecord} {name : String} {spec : CommandSpec}
    (hname : record.command? = some name) (hspec : set.command? name = some spec) :
    convert set record = Command.ofRecord spec.handler record := by
  rw [convert, hname]
  dsimp only
  rw [hspec]

/-- The error of a plan is that of a record. -/
theorem exists_of_ofRecords_error {error : Error} (h : ofRecords set records = .error error) :
    ∃ record ∈ records, convert set record = .error error := by
  induction records with
  | nil => cases h
  | cons record records ih =>
    rw [ofRecords_cons] at h
    split at h
    · rename_i hrecord
      cases h
      exact ⟨record, List.mem_cons_self, hrecord⟩
    · rename_i hrecords
      cases h
      obtain ⟨record', hmem, hrecord'⟩ := ih hrecords
      exact ⟨record', List.mem_cons_of_mem record hmem, hrecord'⟩
    · cases h

end FolderCommands.Plan

namespace FolderCommands.Command

variable {record : CommandRecord} {error : Error}

theorem eq_error_of_map {α β ε : Type} {x : Except ε α} {f : α → β} {e : ε}
    (h : x.map f = .error e) : x = .error e := by
  cases x with
  | error e' =>
    cases h
    rfl
  | ok a => cases h

theorem error_of_bind {α β ε : Type} {x : Except ε α} {f : α → Except ε β} {e : ε}
    (h : x >>= f = .error e) : x = .error e ∨ ∃ a, x = .ok a ∧ f a = .error e := by
  cases x with
  | error e' =>
    cases h
    exact .inl rfl
  | ok a => exact .inr ⟨a, rfl, h⟩

theorem required_error {command attr : String} (h : required record command attr = .error error) :
    error = .missingAttribute command attr := by
  rw [required] at h
  split at h
  · split at h <;> cases h
    rfl
  · cases h
    rfl

theorem childFolder_error {command : String} (h : childFolder record command = .error error) :
    error = .missingAttribute command "folder" ∨ ∃ folder reason, error =
      .invalidFolder folder reason := by
  rw [childFolder] at h
  rcases error_of_bind h with hfolder | ⟨folder, -, h⟩
  · exact .inl (required_error hfolder)
  · split at h
    · cases h
      exact .inr ⟨_, _, rfl⟩
    · cases h

/-- Why a record of a known command forms no command. -/
theorem ofRecord_error {handler : Handler} (h : ofRecord handler record = .error error) :
    (∃ attr ∈ ["folder", "folder_type", "target_directory"],
        error = .missingAttribute (record.command?.getD "") attr) ∨
      (∃ folder reason, error = .invalidFolder folder reason) ∨
      ∃ folder folderType, error = .invalidFolderType folder folderType := by
  have hrequired {attr : String} (hattr : attr ∈ ["folder", "folder_type", "target_directory"])
      (h : required record (record.command?.getD "") attr = .error error) :
      ∃ attr ∈ ["folder", "folder_type", "target_directory"],
        error = .missingAttribute (record.command?.getD "") attr :=
    ⟨attr, hattr, required_error h⟩
  have hchild (h : childFolder record (record.command?.getD "") = .error error) :
      (∃ attr ∈ ["folder", "folder_type", "target_directory"],
        error = .missingAttribute (record.command?.getD "") attr) ∨
      ∃ folder reason, error = .invalidFolder folder reason :=
    (childFolder_error h).imp (fun h ↦ ⟨_, by simp, h⟩) id
  cases handler with
  | identity | all | processStory | updatePages => cases h
  | changeFolder => exact (hchild (eq_error_of_map h)).imp id .inl
  | moveFiles | moveSupportFiles => exact .inl (hrequired (by simp) (eq_error_of_map h))
  | singleFolder =>
    rw [ofRecord] at h
    rcases error_of_bind h with hfolder | ⟨folder, -, h⟩
    · exact (hchild hfolder).imp id .inl
    · rcases error_of_bind h with htype | ⟨folderType, -, h⟩
      · exact .inl (hrequired (by simp) htype)
      · split at h
        · cases h
        · cases h
          exact .inr (.inr ⟨_, _, rfl⟩)

end FolderCommands.Command
