/-!
# Trees of files

Files and directories by location, in the order in which they were put there. The root is always
a directory.
-/

namespace FolderCommands

/-- The names from the root down. -/
abbrev Location := List String

/-- What is at a location. -/
inductive Entry where
  | directory
  | file (content : List UInt8)
deriving DecidableEq, Repr

namespace Entry

def isDirectory : Entry → Bool
  | directory => true
  | file _ => false

end Entry

/-- Files and directories by location. -/
structure Tree where
  entries : List (Location × Entry) := []
deriving DecidableEq, Repr

namespace Tree

/-- What is at a location. -/
def get? (t : Tree) : Location → Option Entry
  | [] => some .directory
  | loc => t.entries.lookup loc

/-- Whether there is a directory at a location. -/
def isDirectory (t : Tree) (loc : Location) : Bool :=
  (t.get? loc).any (·.isDirectory)

/-- Puts an entry at a location in place of an old one, else at the end. -/
def putInto (loc : Location) (e : Entry) : List (Location × Entry) → List (Location × Entry)
  | [] => [(loc, e)]
  | (l, old) :: rest => if l = loc then (l, e) :: rest else (l, old) :: putInto loc e rest

/-- Puts an entry at a location; the root stays a directory. -/
def put (t : Tree) (loc : Location) (e : Entry) : Tree :=
  if loc.isEmpty then t else ⟨putInto loc e t.entries⟩

/-- The locations of the directories around a location, outermost first. -/
def ancestors (loc : Location) : List Location :=
  (List.range loc.length).tail.map loc.take

/-- Puts an entry at a location after the directories around it that are missing. -/
def putDeep (t : Tree) (loc : Location) (e : Entry) : Tree :=
  ((ancestors loc).foldl (fun t l ↦ if (t.get? l).isSome then t else t.put l .directory) t).put
    loc e

/-- Removes a location and everything below it. -/
def remove (t : Tree) (loc : Location) : Tree :=
  ⟨t.entries.filter fun (l, _) ↦ !loc.isPrefixOf l⟩

/-- What is directly inside a location, in order. -/
def children (t : Tree) (loc : Location) : List (String × Entry) :=
  t.entries.filterMap fun (l, e) ↦
    match l.getLast? with
    | some name => if l.dropLast = loc then some (name, e) else none
    | none => none

/-- Everything below a location, with the location left out. -/
def below (t : Tree) (loc : Location) : List (Location × Entry) :=
  t.entries.filterMap fun (l, e) ↦
    if loc.isPrefixOf l && l ≠ loc then some (l.drop loc.length, e) else none

end Tree

end FolderCommands
