import FolderCommands.Yaml.Scalar

/-!
# From documents to values

A document is built from its root. Aliases stand for the node that has their number at the end of
the document; how often they may be followed is limited by the size of the document, and
collections may be nested 128 deep.
-/

namespace FolderCommands.Yaml

namespace Node

mutual

/-- The nodes of a tree that have an anchor, in the order of the text. -/
def anchored : Node → List (Nat × Node)
  | .alias _ => []
  | .scalar p text isPlain => (p.anchor.map fun n ↦ (n, Node.scalar p text isPlain)).toList
  | .sequence p items =>
    (p.anchor.map fun n ↦ (n, Node.sequence p items)).toList ++ anchoredItems items
  | .mapping p entries =>
    (p.anchor.map fun n ↦ (n, Node.mapping p entries)).toList ++ anchoredEntries entries

def anchoredItems : List Node → List (Nat × Node)
  | [] => []
  | item :: items => anchored item ++ anchoredItems items

def anchoredEntries : List (Node × Node) → List (Nat × Node)
  | [] => []
  | (key, value) :: entries => anchored key ++ anchored value ++ anchoredEntries entries

end

mutual

/-- The size of a tree: a collection has a start and an end. -/
def size : Node → Nat
  | .alias _ => 1
  | .scalar .. => 1
  | .sequence _ items => 2 + sizeItems items
  | .mapping _ entries => 2 + sizeEntries entries

def sizeItems : List Node → Nat
  | [] => 0
  | item :: items => size item + sizeItems items

def sizeEntries : List (Node × Node) → Nat
  | [] => 0
  | (key, value) :: entries => size key + size value + sizeEntries entries

end

end Node

/-- What aliases stand for. -/
structure Aliases where
  nodes : List (Nat × Node)
  /-- How often aliases may be followed. -/
  limit : Nat

/-- The aliases of a document with that root. -/
def Aliases.ofRoot (root : Node) : Aliases :=
  ⟨root.anchored.reverse, 100 * root.size⟩

/-- Building counts the aliases that have been followed. -/
abbrev Build := StateT Nat (Except Fault)

namespace Build

def fail (fault : Fault) : Build α :=
  fun _ ↦ .error fault

def ofExcept (x : Except Fault α) : Build α :=
  fun count ↦ x.map fun a ↦ (a, count)

end Build

/-- The node that an alias stands for; any other node stands for itself. -/
def Aliases.follow (aliases : Aliases) (node : Node) : Build Node :=
  match node with
  | .alias anchor => fun count ↦
    if aliases.limit < count + 1 then .error .tooManyAliases
    else match aliases.nodes.lookup anchor with
      | some target => .ok (target, count + 1)
      | none => .error .unknownAlias
  | node => fun count ↦ .ok (node, count)

/-- The name of a tag of the document's own. -/
def ownTag? (tag : Option Uri) : Option String :=
  match tag with
  | some (0x21 :: rest) => Text.decode? (if rest.isEmpty then [0x21] else rest)
  | _ => none

/-- Puts the tag of the document's own around a value. -/
def withTag (tag : Option Uri) (value : Value) : Value :=
  match ownTag? tag with
  | some name => .tagged name value
  | none => value

/-- What a scalar node stands for. -/
def scalarValue (tag : Option Uri) (text : String) (isPlain : Bool) : Except Fault Value :=
  match ownTag? tag with
  | some name => (Scalar.resolve none text isPlain).map (.tagged name)
  | none => Scalar.resolve tag text isPlain

/-- Builds the entries of a mapping, given how to build a node. -/
def buildEntries (inner : Node → Build Value) :
    List (Value × Value) → List (Node × Node) → Build (List (Value × Value))
  | built, [] => pure built
  | built, (key, value) :: entries => do
    let key ← inner key
    if built.any fun (k, _) ↦ k.same key then Build.fail .repeatedKey
    else buildEntries inner (built ++ [(key, ← inner value)]) entries

/-- Builds the value of a node, given how to build what is inside a collection; without that, a
collection is nested too deep. -/
def buildWith (aliases : Aliases) (inner? : Option (Node → Build Value)) (node : Node) :
    Build Value := do
  match ← aliases.follow node, inner? with
  | .alias _, _ => Build.fail .unknownAlias
  | .scalar p text isPlain, _ => Build.ofExcept (scalarValue p.tag text isPlain)
  | .sequence p items, some inner => return withTag p.tag (.sequence (← items.mapM inner))
  | .mapping p entries, some inner =>
    return withTag p.tag (.mapping (← buildEntries inner [] entries))
  | _, none => Build.fail .tooDeep

/-- Builds the value of a node with collections nested at most that deep. -/
def build (aliases : Aliases) : Nat → Node → Build Value
  | 0 => buildWith aliases none
  | depth + 1 => buildWith aliases (some (build aliases depth))

/-- How deep collections may be nested. -/
def depthLimit : Nat :=
  128

/-- The value of a document with that root. -/
def valueOf (root : Node) : Except Fault Value :=
  ((build (Aliases.ofRoot root) depthLimit root).run 0).map (·.1)

/-- The values of the documents of a text; a text without any stands for null. -/
def documents (source : String) : Except Fault (List Value) := do
  match ← readDocuments (← tokens source) with
  | [] => .ok [.null]
  | roots => roots.mapM valueOf

/-- The entries of the only document of a text, which must be a mapping or nothing. -/
def singleMapping (source : String) : Except Fault (List (Value × Value)) := do
  match ← readDocuments (← tokens source) with
  | [] => .ok []
  | [.scalar _ "" true] => .ok []
  | [root] =>
    match (← valueOf root).untagged with
    | .mapping entries => .ok entries
    | _ => .error .mappingExpected
  | _ => .error .severalDocuments

end FolderCommands.Yaml
