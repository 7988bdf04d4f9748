import FolderCommands.CommandLine.Program

/-!
# What a request touches

The local paths that must be at hand before a request can be answered. The configuration comes
first, because it says where everything else is.
-/

namespace FolderCommands.CommandLine

namespace Invocation

/-- The file with which a request starts. -/
def entryPath (i : Invocation) : String :=
  match i.subcommand with
  | .validate file => file
  | _ => i.config

/-- The directory that serves as the store. -/
def localRoot? (i : Invocation) : Option String :=
  match i.subcommand with
  | .run _ localRoot _ _ | .users _ localRoot => localRoot
  | .validate _ => none

/-- The paths that a request is about, once the first file is on the disk. -/
def paths (i : Invocation) (user : Option String) (d : Disk) : List String :=
  let profile? := do
    let config ← ((Config.load i.config { disk := d, outside := () }).1).toOption
    (config.profile (← i.profile.or user)).toOption
  i.entryPath :: (i.localRoot?.toList ++
    match profile? with
    | some p => [p.tempDirectory, p.logsDirectory, p.supportDirectory].filter (· ≠ "")
    | none => [])

end Invocation

/-- The location that a path names, with `..` taken back at once. -/
def locate (workingDirectory : Location) (path : String) : Location :=
  (LocalPath.components path).foldl
    (fun loc name ↦
      if name = "." then loc else if name = ".." then loc.dropLast else loc ++ [name])
    (if LocalPath.isAbsolute path then [] else workingDirectory)

/-- The path of a location. -/
def pathOf (loc : Location) : String :=
  LocalPath.ofComponents true loc

/-- What is new or different in a tree. -/
def changes (old new : Tree) : List (Location × Entry) :=
  new.entries.filter fun (loc, e) ↦ old.get? loc ≠ some e

/-- What is no longer in a tree. -/
def removals (old new : Tree) : List (Location × Entry) :=
  old.entries.filter fun (loc, _) ↦ (new.get? loc).isNone

end FolderCommands.CommandLine
