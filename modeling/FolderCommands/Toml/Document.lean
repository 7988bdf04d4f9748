import FolderCommands.Toml.Number

/-!
# Documents of TOML

A document is built line by line. A table is written once: by a header, by the dotted keys of one
table, or between braces; only a table that was implied by a deeper header may get a header of its
own later.
-/

namespace FolderCommands.Toml

/-- What a key stands for while a document is being built. -/
inductive Item where
  | value (d : Datum)
  /-- A table: whether only deeper keys have implied it, and whether these were dotted. -/
  | table (isImplied isDotted : Bool) (entries : List (String × Item))
  /-- The tables under one array header. -/
  | tables (elements : List (List (String × Item)))

abbrev Entries := List (String × Item)

mutual

/-- The data of an item. -/
def Item.toDatum : Item → Datum
  | .value d => d
  | .table _ _ entries => .map (entriesToData entries)
  | .tables elements => .sequence (elementsToData elements)

def entriesToData : List (String × Item) → List (Datum × Datum)
  | [] => []
  | (key, item) :: entries => (.string key, item.toDatum) :: entriesToData entries

def elementsToData : List (List (String × Item)) → List Datum
  | [] => []
  | entries :: elements => .map (entriesToData entries) :: elementsToData elements

end

namespace Entries

/-- Replaces the item under a key. -/
def replace (key : String) (item : Item) (entries : Entries) : Entries :=
  entries.map fun (k, old) ↦ if k = key then (k, item) else (k, old)

/-- Changes the table at a path; the tables on the way are implied where they are missing. With
dotted keys no table on the way may have a header. -/
def change (dotted : Bool) (f : Bool → Entries → Option Entries) :
    List String → Bool → Entries → Option Entries
  | [], isDotted, entries => f isDotted entries
  | key :: path, _, entries =>
    match entries.lookup key with
    | none => do
      let inner ← change dotted f path dotted []
      some (entries ++ [(key, .table true dotted inner)])
    | some (.value _) => none
    | some (.table isImplied isDotted inner) =>
      if dotted && !isImplied then none
      else do
        let inner ← change dotted f path isDotted inner
        some (entries.replace key (.table isImplied isDotted inner))
    | some (.tables elements) =>
      match elements.getLast? with
      | none => none
      | some last => do
        let last ← change dotted f path false last
        some (entries.replace key (.tables (elements.dropLast ++ [last])))

/-- Adds a value under a key that is new. Dotted keys add only to tables made by dotted keys. -/
def add (path : List String) (key : String) (d : Datum) (entries : Entries) : Option Entries :=
  let insert (isDotted : Bool) (entries : Entries) : Option Entries :=
    if isDotted == path.isEmpty || (entries.lookup key).isSome then none
    else some (entries ++ [(key, .value d)])
  change true insert path false entries

/-- Adds the value of a whole key. -/
def addKey (key : List String) (d : Datum) (entries : Entries) : Option Entries :=
  match key.getLast? with
  | some name => entries.add key.dropLast name d
  | none => none

end Entries

/-! ## Values -/

mutual

/-- Reads a value that may hold `depth` levels of arrays and tables. -/
def readValue : Nat → Nat → Reader Datum
  | 0, _, _ => none
  | _, _, [] => none
  | fuel + 1, depth, c :: cs =>
    if c = '"' || c = '\'' then (readString (c :: cs)).map fun (s, cs) ↦ (.string s, cs)
    else if c = '[' then
      if depth = 0 then none
      else (readArray fuel (depth - 1) cs).map fun (ds, cs) ↦ (.sequence ds, cs)
    else if c = '{' then
      if depth = 0 then none
      else (readInline fuel (depth - 1) cs).map fun (es, cs) ↦ (.map (entriesToData es), cs)
    else if ['t', 'r', 'u', 'e'].isPrefixOf (c :: cs) then some (.bool true, cs.drop 3)
    else if ['f', 'a', 'l', 's', 'e'].isPrefixOf (c :: cs) then some (.bool false, cs.drop 4)
    else if looksLikeTime (c :: cs) then readTime (c :: cs)
    else readNumber (c :: cs)

/-- Reads the items of an array after its opening bracket or a comma. -/
def readArray : Nat → Nat → Reader (List Datum)
  | 0, _, _ => none
  | fuel + 1, depth, cs =>
    match skipBlank cs.length cs with
    | ']' :: cs => some ([], cs)
    | cs => do
      let (d, cs) ← readValue fuel depth cs
      match skipBlank cs.length cs with
      | ',' :: cs => do
        let (ds, cs) ← readArray fuel depth cs
        some (d :: ds, cs)
      | ']' :: cs => some ([d], cs)
      | _ => none

/-- Reads the entries of a table between braces after the opening one. -/
def readInline : Nat → Nat → Reader Entries
  | 0, _, _ => none
  | fuel + 1, depth, cs =>
    match skipGap cs with
    | '}' :: cs => some ([], cs)
    | cs => readInlineFrom fuel depth [] cs

/-- Reads the rest of the entries of a table between braces, of which there is at least one. -/
def readInlineFrom : Nat → Nat → Entries → Reader Entries
  | 0, _, _, _ => none
  | fuel + 1, depth, entries, cs => do
    let (key, cs) ← readKey cs
    let cs ← pass '=' cs
    let (d, cs) ← readValue fuel depth (skipGap cs)
    let entries ← entries.addKey key d
    match skipGap cs with
    | ',' :: cs => readInlineFrom fuel depth entries cs
    | '}' :: cs => some (entries, cs)
    | _ => none

end

/-! ## Lines -/

/-- What has been built: the finished tables, and the table under the last header. -/
structure Builder where
  root : Entries
  path : List String
  /-- Whether the header was that of an array. -/
  inArray : Bool
  entries : Entries

namespace Builder

/-- The document without a line. -/
def start : Builder :=
  ⟨[], [], false, []⟩

/-- Puts the table under the last header in its place. -/
def finish (b : Builder) : Option Entries :=
  match b.path.getLast? with
  | none => some b.entries
  | some name =>
    let place (_ : Bool) (entries : Entries) : Option Entries :=
      if b.inArray then
        match entries.lookup name with
        | some (.tables elements) =>
          some (entries.replace name (.tables (elements ++ [b.entries])))
        | _ => none
      else some (entries ++ [(name, .table false false b.entries)])
    Entries.change false place b.path.dropLast false b.root

/-- The entries of the table at a path, if that is a table that was only implied. -/
def impliedAt : List String → Entries → Option Entries
  | [], _ => none
  | [key], entries =>
    match entries.lookup key with
    | some (.table true false inner) => some inner
    | _ => none
  | key :: path, entries =>
    match entries.lookup key with
    | some (.table _ _ inner) => impliedAt path inner
    | some (.tables elements) => (elements.getLast?).bind (impliedAt path)
    | _ => none

/-- Starts the table of a header. -/
def openTable (b : Builder) (path : List String) : Option Builder := do
  let root ← b.finish
  let name ← path.getLast?
  let take (_ : Bool) (entries : Entries) : Option Entries :=
    match entries.lookup name with
    | none => some entries
    | some (.table true false _) => some (entries.filter (·.1 ≠ name))
    | some _ => none
  let entries := (impliedAt path root).getD []
  let root ← Entries.change false take path.dropLast false root
  some ⟨root, path, false, entries⟩

/-- Starts another table of an array header. -/
def openElement (b : Builder) (path : List String) : Option Builder := do
  let root ← b.finish
  let name ← path.getLast?
  let ready (_ : Bool) (entries : Entries) : Option Entries :=
    match entries.lookup name with
    | none => some (entries ++ [(name, .tables [])])
    | some (.tables _) => some entries
    | some _ => none
  let root ← Entries.change false ready path.dropLast false root
  some ⟨root, path, true, []⟩

/-- Takes in the line that starts here. -/
def readStatement (b : Builder) (cs : List Char) : Option (Builder × List Char) :=
  match skipGap cs with
  | '[' :: '[' :: cs => do
    let (path, cs) ← readKey cs
    let cs ← pass ']' cs
    let cs ← pass ']' cs
    some (← b.openElement path, cs)
  | '[' :: cs => do
    let (path, cs) ← readKey cs
    let cs ← pass ']' cs
    some (← b.openTable path, cs)
  | '#' :: cs => some (b, '#' :: cs)
  | [] => some (b, [])
  | c :: cs =>
    if (lineBreak? (c :: cs)).isSome then some (b, c :: cs)
    else do
      let (key, cs) ← readKey (c :: cs)
      let cs ← pass '=' cs
      let (d, cs) ← readValue (2 * cs.length + 2) (depthLimit - 1) (skipGap cs)
      some ({ b with entries := ← b.entries.addKey key d }, cs)

/-- Takes in all lines; each has at least its line break. -/
def readAll : Nat → Builder → List Char → Option Builder
  | 0, _, _ => none
  | fuel + 1, b, cs => do
    let (b, cs) ← b.readStatement cs
    match ← endLine cs with
    | [] => some b
    | cs => readAll fuel b cs

end Builder

/-- The data of a document. -/
def parse (source : String) : Option Datum := do
  let cs := source.toList
  let cs := if cs.head? = some '\uFEFF' then cs.tail else cs
  let b ← Builder.start.readAll (cs.length + 1) cs
  some (.map (entriesToData (← b.finish)))

end FolderCommands.Toml
