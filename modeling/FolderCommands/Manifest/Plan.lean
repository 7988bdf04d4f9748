import FolderCommands.Manifest.Basic

/-!
# Plans

The plan of a manifest is the list of its commands. A record that does not form a command of the
command set makes the whole plan fail, with the error of the first such record.
-/

namespace FolderCommands.Plan

/-- The handler of a command of that name. -/
def handlerOf (set : CommandSet) (command : String) : Except Error Handler :=
  match set.command? command with
  | some spec => .ok spec.handler
  | none => .error (.unsupportedCommand set.name command)

/-- The command that a record asks for. -/
def convert (set : CommandSet) (record : CommandRecord) : Except Error Command :=
  match record.command? with
  | none => .error (.missingAttribute "<unnamed>" "command")
  | some name => match set.command? name with
    | none => .error (.unknownCommand set.name name)
    | some spec => Command.ofRecord spec.handler record

/-- The commands of all records. -/
def ofRecords (set : CommandSet) (records : List CommandRecord) : Except Error (List Command) :=
  records.mapM (convert set)

end FolderCommands.Plan
