import FolderCommands.Yaml.Scanner

/-!
# From tokens to documents

The tokens of a text form documents, and each document is a tree of nodes. Anchors are numbered on
the way: an anchor gets as its number how many different names have been seen in the document
before its own name was entered, so that a name that is defined anew may share its number with a
name that comes later. An alias takes the number that its name has at that place.
-/

namespace FolderCommands.Yaml

/-- What may stand in front of a node. -/
structure Properties where
  anchor : Option Nat := none
  /-- The tag with its handle replaced. -/
  tag : Option Uri := none
deriving DecidableEq, Repr

/-- A node of a document. -/
inductive Node where
  | alias (anchor : Nat)
  | scalar (properties : Properties) (text : String) (isPlain : Bool)
  | sequence (properties : Properties) (items : List Node)
  | mapping (properties : Properties) (entries : List (Node × Node))

/-- A scalar that is not written. -/
def Node.empty : Node :=
  .scalar {} "" true

/-! ## Reading nodes -/

/-- The tokens that are left and the anchors of the document, a name only once. -/
structure TokenReader where
  tokens : List Token
  anchors : List (String × Nat)
deriving DecidableEq, Repr

abbrev Read := StateT TokenReader (Except Fault)

namespace Read

def fail (fault : Fault) : Read α :=
  fun _ ↦ .error fault

/-- The next token; none at the end of the text. -/
def peek : Read (Option Token) :=
  fun r ↦ .ok (r.tokens.head?, r)

/-- Passes a token. -/
def drop : Read Unit :=
  fun r ↦ .ok ((), { r with tokens := r.tokens.tail })

/-- Numbers an anchor. -/
def enter (name : String) : Read Nat :=
  fun r ↦
    let number := r.anchors.length
    let others := r.anchors.filter (·.1 ≠ name)
    .ok (number, { r with anchors := (name, number) :: others })

/-- The number that an alias stands for. -/
def resolve (name : String) : Read Nat :=
  fun r ↦ match r.anchors.lookup name with
    | some number => .ok (number, r)
    | none => .error .unknownAlias

end Read

/-- The tag handles of a document and what they stand for. -/
abbrev Handles := List (String × Uri)

/-- The handles that need no directive. -/
def defaultHandles : Handles :=
  [("!", Text.encode "!"), ("!!", Text.encode "tag:yaml.org,2002:")]

/-- The tag that a token stands for. -/
def resolveTag (handles : Handles) (handle : String) (suffix : Uri) : Except Fault Uri :=
  if handle.isEmpty then .ok suffix
  else match handles.lookup handle with
    | some start => .ok (start ++ suffix)
    | none => .error .undefinedTagHandle

/-- Reads a tag, if one is next. -/
def readTagProperty (handles : Handles) : Read (Option Uri) := do
  match ← Read.peek with
  | some (.tag handle suffix) =>
    Read.drop
    match resolveTag handles handle suffix with
    | .ok uri => return some uri
    | .error fault => Read.fail fault
  | _ => return none

/-- Reads an anchor, if one is next. -/
def readAnchorProperty : Read (Option String) := do
  match ← Read.peek with
  | some (.anchor name) => Read.drop; return some name
  | _ => return none

/-- Reads the properties of a node, in either order. -/
def readProperties (handles : Handles) : Read Properties := do
  let early ← readTagProperty handles
  let name ← readAnchorProperty
  let tag ← match early with
    | some uri => pure (some uri)
    | none => if name.isSome then readTagProperty handles else pure none
  match name with
  | none => return ⟨none, tag⟩
  | some name => return ⟨some (← Read.enter name), tag⟩

/-- The tokens that end the value of an entry, besides the end of the collection. -/
def endsEntry (t : Option Token) : Bool :=
  t == some .key || t == some .value || t == some .blockEnd

/-- Whether an entry in brackets is over. -/
def endsFlowEntry (close : Token) (t : Option Token) : Bool :=
  t == some .flowEntry || t == some close

mutual

/-- Reads a node. A block may start there only if `inBlock`, and entries without a start only
if `bare`. -/
def readNode (handles : Handles) (inBlock bare : Bool) : Nat → Read Node
  | 0 => Read.fail .stepLimit
  | fuel + 1 => do
    match ← Read.peek with
    | some (.alias name) => Read.drop; return .alias (← Read.resolve name)
    | _ =>
      let properties ← readProperties handles
      match ← Read.peek with
      | some (.scalar text isPlain) => Read.drop; return .scalar properties text isPlain
      | some .flowSequenceStart =>
        Read.drop
        return .sequence properties (← readFlowItems handles true fuel)
      | some .flowMappingStart =>
        Read.drop
        return .mapping properties (← readFlowEntries handles true fuel)
      | token =>
        if bare && token == some .blockEntry then
          return .sequence properties (← readBareItems handles fuel)
        else if inBlock && token == some .blockSequenceStart then
          Read.drop
          return .sequence properties (← readItems handles fuel)
        else if inBlock && token == some .blockMappingStart then
          Read.drop
          return .mapping properties (← readEntries handles fuel)
        else if properties.anchor.isSome || properties.tag.isSome then
          return .scalar properties "" true
        else Read.fail .nodeExpected

/-- Reads the entries of a block sequence. -/
def readItems (handles : Handles) : Nat → Read (List Node)
  | 0 => Read.fail .stepLimit
  | fuel + 1 => do
    match ← Read.peek with
    | some .blockEntry =>
      Read.drop
      let token ← Read.peek
      let item ← if token == some .blockEntry || token == some .blockEnd then pure Node.empty
        else readNode handles true false fuel
      return item :: (← readItems handles fuel)
    | some .blockEnd => Read.drop; return []
    | _ => Read.fail .entryExpected

/-- Reads the entries of a block sequence that is not indented. -/
def readBareItems (handles : Handles) : Nat → Read (List Node)
  | 0 => Read.fail .stepLimit
  | fuel + 1 => do
    match ← Read.peek with
    | some .blockEntry =>
      Read.drop
      let token ← Read.peek
      let item ← if token == some .blockEntry || endsEntry token then pure Node.empty
        else readNode handles true false fuel
      return item :: (← readBareItems handles fuel)
    | _ => return []

/-- Reads the entries of a block mapping. -/
def readEntries (handles : Handles) : Nat → Read (List (Node × Node))
  | 0 => Read.fail .stepLimit
  | fuel + 1 => do
    match ← Read.peek with
    | some .key =>
      Read.drop
      let key ← if endsEntry (← Read.peek) then pure Node.empty
        else readNode handles true true fuel
      let value ← match ← Read.peek with
        | some .value => do
          Read.drop
          if endsEntry (← Read.peek) then pure Node.empty
          else readNode handles true true fuel
        | _ => pure Node.empty
      return (key, value) :: (← readEntries handles fuel)
    | some .blockEnd => Read.drop; return []
    | _ => Read.fail .entryExpected

/-- Reads the entries of a sequence in brackets. -/
def readFlowItems (handles : Handles) (isFirst : Bool) : Nat → Read (List Node)
  | 0 => Read.fail .stepLimit
  | fuel + 1 => do
    if (← Read.peek) == some .flowSequenceEnd then Read.drop; return []
    else
      if !isFirst then
        if (← Read.peek) == some .flowEntry then Read.drop
        else Read.fail .entryExpected
      match ← Read.peek with
      | some .flowSequenceEnd => Read.drop; return []
      | some .key =>
        Read.drop
        let pair ← readPair handles fuel
        return .mapping {} [pair] :: (← readFlowItems handles false fuel)
      | _ =>
        let item ← readNode handles false false fuel
        return item :: (← readFlowItems handles false fuel)

/-- Reads a key and its value that stand for a mapping inside a sequence in brackets. The token
after a key that is not written is passed over. -/
def readPair (handles : Handles) : Nat → Read (Node × Node)
  | 0 => Read.fail .stepLimit
  | fuel + 1 => do
    let token ← Read.peek
    let key ← if token == some .value || endsFlowEntry .flowSequenceEnd token then do
        Read.drop
        pure Node.empty
      else readNode handles false false fuel
    match ← Read.peek with
    | some .value =>
      Read.drop
      if endsFlowEntry .flowSequenceEnd (← Read.peek) then return (key, Node.empty)
      else return (key, ← readNode handles false false fuel)
    | _ => return (key, Node.empty)

/-- Reads the entries of a mapping in brackets. -/
def readFlowEntries (handles : Handles) (isFirst : Bool) : Nat → Read (List (Node × Node))
  | 0 => Read.fail .stepLimit
  | fuel + 1 => do
    if (← Read.peek) == some .flowMappingEnd then Read.drop; return []
    else
      if !isFirst then
        if (← Read.peek) == some .flowEntry then Read.drop
        else Read.fail .entryExpected
      match ← Read.peek with
      | some .flowMappingEnd => Read.drop; return []
      | some .key =>
        Read.drop
        let token ← Read.peek
        let key ← if token == some .value || endsFlowEntry .flowMappingEnd token then
            pure Node.empty
          else readNode handles false false fuel
        let value ← match ← Read.peek with
          | some .value => do
            Read.drop
            if endsFlowEntry .flowMappingEnd (← Read.peek) then pure Node.empty
            else readNode handles false false fuel
          | _ => pure Node.empty
        return (key, value) :: (← readFlowEntries handles false fuel)
      | _ =>
        let key ← readNode handles false false fuel
        return (key, Node.empty) :: (← readFlowEntries handles false fuel)

end

/-! ## Documents -/

/-- Whether a token can only stand in front of a document. -/
def Token.isDirective : Token → Bool
  | .version .. | .tagDirective .. => true
  | _ => false

/-- Reads directives; `hasVersion` tells whether one named the version before. -/
def readDirectives (hasVersion : Bool) (handles : Handles) :
    List Token → Except Fault (Handles × List Token)
  | .version major minor :: tokens =>
    if hasVersion then .error .repeatedDirective
    else if major = 1 ∧ (minor = 1 ∨ minor = 2) then readDirectives true handles tokens
    else .error .incompatibleVersion
  | .tagDirective handle start :: tokens =>
    if (handles.lookup handle).isSome then .error .repeatedDirective
    else readDirectives hasVersion (handles ++ [(handle, start)]) tokens
  | tokens => .ok (handles, tokens)

/-- Whether the content of a document is over. -/
def endsDocument : List Token → Bool
  | [] => true
  | t :: _ => t == .documentStart || t == .documentEnd || t.isDirective

/-- Reads the root of a document; each token takes at most four steps. -/
def readRoot (handles : Handles) (tokens : List Token) : Except Fault (Node × List Token) :=
  let read := readNode (handles ++ defaultHandles) true false (4 * tokens.length + 4)
  match read.run ⟨tokens, []⟩ with
  | .ok (node, r) => .ok (node, r.tokens)
  | .error fault => .error fault

/-- Reads a document with its directives and its mark, up to the end of its content. -/
def readMarked (tokens : List Token) : Except Fault (Node × List Token) :=
  match readDirectives false [] tokens with
  | .error fault => .error fault
  | .ok (handles, .documentStart :: tokens) =>
    if endsDocument tokens then .ok (Node.empty, tokens) else readRoot handles tokens
  | .ok _ => .error .documentStartExpected

/-- Reads the documents after the first. -/
def readFurther : Nat → List Token → Except Fault (List Node)
  | 0, _ => .error .stepLimit
  | fuel + 1, tokens =>
    match tokens.dropWhile (· == .documentEnd) with
    | [] => .ok []
    | tokens => do
      let (node, tokens) ← readMarked tokens
      .ok (node :: (← readFurther fuel tokens))

/-- The roots of the documents that the tokens form. The first document may lack its mark. -/
def readDocuments (tokens : List Token) : Except Fault (List Node) :=
  match tokens with
  | [] => .ok []
  | t :: _ => do
    let (node, rest) ← if t == .documentStart || t.isDirective then readMarked tokens
      else readRoot [] tokens
    .ok (node :: (← readFurther (tokens.length + 1) rest))

end FolderCommands.Yaml
