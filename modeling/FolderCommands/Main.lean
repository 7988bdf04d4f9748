import FolderCommands.CommandLine.Footprint
import Std.Time

/-!
# The command

The layer around the program. It reads the files that a request is about, runs the program on
them, writes back what has changed and prints the outcome. It starts no other programs, so content
is served from a local directory only.
-/

namespace FolderCommands.Host

open CommandLine

/-- Reads everything below a directory. Links to directories are not followed. -/
partial def readBelow (t : Tree) (loc : Location) : IO Tree := do
  let dir ← IO.FS.realPath (pathOf loc)
  let mut t := t
  for entry in ← dir.readDir do
    let here := loc ++ [entry.fileName]
    match (← entry.path.metadata).type with
    | .dir =>
      t := t.putDeep here .directory
      unless (← entry.path.symlinkMetadata).type matches .symlink do
        t ← readBelow t here
    | .file => t := t.putDeep here (.file (← IO.FS.readBinFile entry.path).toList)
    | _ => pure ()
  return t

/-- Whether there is a directory at a location. -/
def isDirectory (loc : Location) : IO Bool := do
  try return (← (← IO.FS.realPath (pathOf loc)).isDir)
  catch _ => return false

/-- Reads a location: a file, a directory with everything below it, or what is left of the
directories around it. -/
partial def readAt (t : Tree) (loc : Location) : IO Tree := do
  if (t.get? loc).isSome then return t
  else if ← isDirectory loc then readBelow (t.putDeep loc .directory) loc
  else
    try return t.putDeep loc (.file (← IO.FS.readBinFile (pathOf loc)).toList)
    catch _ =>
      let mut t := t
      for around in Tree.ancestors loc do
        if ← isDirectory around then t := t.putDeep around .directory
      return t

/-- Writes the difference between two trees to the file system. -/
def writeBack (old new : Tree) : IO Unit := do
  for (loc, e) in removals old new do
    match e with
    | .directory => if ← isDirectory loc then IO.FS.removeDirAll (pathOf loc)
    | .file _ => try IO.FS.removeFile (pathOf loc) catch _ => pure ()
  for (loc, e) in changes old new do
    match e with
    | .directory => IO.FS.createDirAll (pathOf loc)
    | .file content => IO.FS.writeBinFile (pathOf loc) (ByteArray.mk content.toArray)

/-- A fresh identifier; the version and the variant stand at fixed places. -/
def freshUuid : IO Uuid := do
  let bytes ← IO.getRandomBytes 16
  let marked := (bytes.toList.zipIdx.map fun (b, i) ↦
    if i = 6 then 0x40 + b.toNat % 0x10 else if i = 8 then 0x80 + b.toNat % 0x40 else b.toNat)
  return .ofNat (marked.foldl (fun n b ↦ 256 * n + b) 0)

/-- The time now. -/
def now : IO Instant := do
  return .ofNanoseconds (← Std.Time.Timestamp.now).toNanosecondsSinceUnixEpoch.val

/-- The local time as it stands in the name of a log. -/
def logStamp : IO String := do
  let t ← Std.Time.PlainDateTime.now
  let two (n : Int) : String := Rfc3339.padded 2 n.toNat
  return Rfc3339.year t.year ++ two t.month.val ++ two t.day.val ++ "-" ++ two t.hour.val ++
    two t.minute.val ++ two t.second.val

/-- The disk with everything that a request is about. -/
def readDisk (i : Invocation) (user : Option String) (workingDirectory : Location) : IO Disk := do
  let here := Tree.putDeep {} workingDirectory .directory
  let first ← readAt here (locate workingDirectory i.entryPath)
  let mut t := first
  for path in i.paths user ⟨first, workingDirectory⟩ do
    t ← readAt t (locate workingDirectory path)
  return ⟨t, workingDirectory⟩

/-- Answers a request and writes back what the answer has changed. -/
def serve (args : List String) : IO Outcome := do
  match readArguments args with
  | .error refusal => return refusal.outcome
  | .ok invocation =>
    let user ← IO.getEnv "USER"
    let startedAt ← now
    let workingDirectory := LocalPath.components (← IO.currentDir).toString
    let disk ← readDisk invocation user workingDirectory
    let surroundings : Surroundings Unit := {
      user, mark := ← IO.getEnv "FOLIO_USER_PREFIX"
      occasion := ⟨← freshUuid, startedAt, ← now⟩
      logStamp := ← logStamp
      tool := fun _ w ↦ (.error .notFound, w)
      nestingLimit := 1000 }
    let (outcome, world) := respond surroundings args ⟨disk, ()⟩
    writeBack disk.tree world.disk.tree
    return outcome

end FolderCommands.Host

/-- Runs the command. -/
def main (args : List String) : IO UInt32 := do
  let outcome ← FolderCommands.Host.serve args
  for line in outcome.log do IO.eprintln line
  for line in outcome.output do IO.println line
  unless outcome.complaint.isEmpty do IO.eprintln outcome.complaint
  return outcome.code.toUInt32
