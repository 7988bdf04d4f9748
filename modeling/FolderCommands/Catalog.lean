import FolderCommands.Text.Blank
import FolderCommands.Text.Lowercase

/-!
# The catalog of command sets

A command set is the role of a folder. Each has a fixed table of the commands it allows, the
attributes that a command may carry and the handler that runs it. Names are looked up without
regard to case and to blanks at the ends.
-/

namespace FolderCommands

/-- What runs a command. -/
inductive Handler where
  | identity
  | changeFolder
  | singleFolder
  | all
  | processStory
  | moveFiles
  | moveSupportFiles
  | updatePages
deriving DecidableEq, Repr

/-- One command of a command set. -/
structure CommandSpec where
  name : String
  attributes : List String
  handler : Handler
deriving DecidableEq, Repr

/-- Whether the command may carry the attribute. -/
def CommandSpec.allows (spec : CommandSpec) (attr : String) : Bool :=
  spec.attributes.contains attr

/-- The role of a folder. -/
inductive CommandSet where
  | top
  | content
  | story
  | transferFiles
  | transferToSupport
  | updatePages
deriving DecidableEq, Repr

/-- The form of a name that is looked up: trimmed and in lower case. -/
def foldedName (name : String) : String :=
  Text.lowered (Text.trimmed name)

namespace CommandSet

/-- Every command set. -/
def every : List CommandSet :=
  [top, content, story, transferFiles, transferToSupport, updatePages]

theorem mem_every (set : CommandSet) : set ∈ every := by
  cases set <;> decide

/-- The name of a command set in a manifest. -/
def name : CommandSet → String
  | top => "top"
  | content => "content"
  | story => "story"
  | transferFiles => "transfer_files"
  | transferToSupport => "transfer_to_support"
  | updatePages => "update_pages"

/-- The command set of that name. -/
def find? (name : String) : Option CommandSet :=
  every.find? fun set ↦ set.name == foldedName name

/-- The commands that a command set allows. -/
def commands (set : CommandSet) : List CommandSpec :=
  let identity := ⟨"identity", ["person", "send_log"], .identity⟩
  let singleFolder := ⟨"process_single_folder", ["folder", "folder_type"], .singleFolder⟩
  match set with
  | top => [identity, ⟨"change_folder", ["folder"], .changeFolder⟩, singleFolder]
  | content => [identity, singleFolder, ⟨"all", [], .all⟩]
  | story => [identity, ⟨"story", [], .processStory⟩]
  | transferFiles => [identity, ⟨"move_files", ["target_directory"], .moveFiles⟩]
  | transferToSupport => [identity, ⟨"move_files", ["target_directory"], .moveSupportFiles⟩]
  | updatePages => [identity, ⟨"process_pages", [], .updatePages⟩]

/-- The command of that name, if the set allows it. -/
def command? (set : CommandSet) (name : String) : Option CommandSpec :=
  set.commands.find? fun spec ↦ spec.name == foldedName name

/-- The names of the commands that a set allows. -/
def commandNames (set : CommandSet) : List String :=
  set.commands.map (·.name)

end CommandSet

end FolderCommands
