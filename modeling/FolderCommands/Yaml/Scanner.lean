import FolderCommands.Yaml.Token

/-!
# From text to tokens

The scanner turns a whole text into tokens. Two things need memory. Indentation: the margin is the
least column of what belongs to the innermost open block, and a smaller column closes blocks.
Keys: a colon makes a key of what stands in front of it in the same line, so each place where a
key may start is remembered until it is too far away.
-/

namespace FolderCommands.Yaml

/-- A place where a key may have started. -/
structure PendingKey where
  /-- Whether nothing but a key can stand there. -/
  isRequired : Bool
  /-- The number of tokens in front of it. -/
  before : Nat
  place : Position
deriving DecidableEq, Repr

/-- The state of a scanner. -/
structure Scanner where
  cursor : Cursor
  /-- The tokens so far, last first. -/
  done : List Token
  /-- The least column of what belongs to the innermost open block. -/
  margin : Nat
  /-- The margins of the blocks around it. -/
  margins : List Nat
  /-- Whether a key may start here. -/
  keyAllowed : Bool
  /-- The pending key of the innermost pair of brackets, or of the blocks. -/
  key : Option PendingKey
  /-- The pending keys around it, one for each pair of brackets. -/
  outerKeys : List (Option PendingKey)
deriving DecidableEq, Repr

namespace Scanner

/-- The start of a text. -/
def start (cs : List Char) : Scanner :=
  ⟨⟨cs, ⟨0, 0⟩⟩, [], 0, [], true, none, []⟩

/-- Whether the scanner is inside brackets. -/
def inFlow (s : Scanner) : Bool :=
  !s.outerKeys.isEmpty

def column (s : Scanner) : Nat :=
  s.cursor.place.column

/-- Adds a token. -/
def push (s : Scanner) (t : Token) : Scanner :=
  { s with done := t :: s.done }

/-- Adds a token behind the first `before` tokens. -/
def insert (s : Scanner) (before : Nat) (t : Token) : Scanner :=
  let late := s.done.length - before
  { s with done := s.done.take late ++ t :: s.done.drop late }

/-- Passes `n` characters. -/
def skip (s : Scanner) (n : Nat) : Scanner :=
  { s with cursor := s.cursor.skip n }

/-! ## Keys -/

/-- Gives up a key that may not be one. -/
def dropKey (s : Scanner) : Except Fault Scanner :=
  if s.key.any (·.isRequired) then .error .keyWithoutColon else .ok { s with key := none }

/-- Remembers that a key may start here. -/
def saveKey (s : Scanner) : Except Fault Scanner :=
  if s.keyAllowed then do
    let isRequired := !s.inFlow && s.margin = s.column + 1
    let s ← s.dropKey
    .ok { s with key := some ⟨isRequired, s.done.length, s.cursor.place⟩ }
  else .ok s

/-- Gives up a key that is in another line or more than 1024 characters away. -/
def expire (place : Position) (key : Option PendingKey) : Except Fault (Option PendingKey) :=
  match key with
  | none => .ok none
  | some k =>
    if k.place.line < place.line || k.place.column + 1024 < place.column then
      if k.isRequired then .error .keyWithoutColon else .ok none
    else .ok (some k)

/-- Gives up all keys that are too far away. -/
def expireKeys (s : Scanner) : Except Fault Scanner := do
  let key ← expire s.cursor.place s.key
  let outerKeys ← s.outerKeys.mapM (expire s.cursor.place)
  .ok { s with key, outerKeys }

/-! ## Blocks -/

/-- Closes the blocks that do not reach to a column of which all lesser are less than `bound`. -/
def closeBlocks (bound : Nat) (s : Scanner) : List Nat → Scanner
  | [] => { s with margins := [] }
  | outer :: margins =>
    if bound < s.margin then closeBlocks bound { s.push .blockEnd with margin := outer } margins
    else { s with margins := outer :: margins }

/-- Closes the blocks that are indented further than the current column. -/
def unindent (s : Scanner) : Scanner :=
  if s.inFlow then s else closeBlocks (s.column + 1) s s.margins

/-- Closes all blocks. -/
def closeAll (s : Scanner) : Scanner :=
  if s.inFlow then s else closeBlocks 0 s s.margins

/-- Opens a block at a column that is indented further than the last one; its start comes behind
the first `before` tokens. -/
def indentTo (s : Scanner) (column before : Nat) (t : Token) : Scanner :=
  if !s.inFlow && s.margin < column + 1 then
    { s.insert before t with margin := column + 1, margins := s.margin :: s.margins }
  else s

/-! ## White space and comments -/

/-- Passes white space, comments and line breaks; a line break allows a key outside brackets. -/
def skipBlank (inFlow : Bool) : List Char → Position → Bool → Bool → Cursor × Bool
  | [], place, keyAllowed, _ => (⟨[], place⟩, keyAllowed)
  | c :: cs, place, keyAllowed, inComment =>
    if isBreak c then skipBlank inFlow cs place.newLine (keyAllowed || !inFlow) false
    else if inComment then skipBlank inFlow cs place.next keyAllowed true
    else if c = ' ' || (c = '\t' && (inFlow || !keyAllowed)) then
      skipBlank inFlow cs place.next keyAllowed false
    else if c = '#' then skipBlank inFlow cs place.next keyAllowed true
    else if c = '\uFEFF' && place.column = 0 then
      skipBlank inFlow cs place.next keyAllowed false
    else (⟨c :: cs, place⟩, keyAllowed)

/-- Goes on to the next token. -/
def advance (s : Scanner) : Scanner :=
  let (cursor, keyAllowed) :=
    skipBlank s.inFlow s.cursor.rest s.cursor.place s.keyAllowed false
  { s with cursor, keyAllowed }

/-! ## Tokens -/

/-- A mark between documents. -/
def fetchMark (s : Scanner) (t : Token) : Except Fault Scanner := do
  let s ← s.closeAll.dropKey
  .ok ({ s with keyAllowed := false }.skip 3 |>.push t)

/-- A directive. -/
def fetchDirective (s : Scanner) : Except Fault Scanner := do
  let s ← s.closeAll.dropKey
  let (t, cursor) ← readDirective (s.cursor.skip 1)
  .ok ({ s with cursor, keyAllowed := false }.push t)

/-- An opening bracket. -/
def fetchOpen (s : Scanner) (t : Token) : Except Fault Scanner := do
  let s ← s.saveKey
  .ok ({ s with key := none, outerKeys := s.key :: s.outerKeys, keyAllowed := true }.skip 1
    |>.push t)

/-- A closing bracket. -/
def fetchClose (s : Scanner) (t : Token) : Except Fault Scanner := do
  let s ← s.dropKey
  let s := match s.outerKeys with
    | [] => s
    | key :: outerKeys => { s with key, outerKeys }
  .ok ({ s with keyAllowed := false }.skip 1 |>.push t)

/-- A comma between entries. -/
def fetchComma (s : Scanner) : Except Fault Scanner := do
  let s ← s.dropKey
  .ok ({ s with keyAllowed := true }.skip 1 |>.push .flowEntry)

/-- A dash in front of an entry. -/
def fetchEntry (s : Scanner) : Except Fault Scanner :=
  if !s.inFlow && !s.keyAllowed then .error .misplacedEntry
  else do
    let s ← (s.indentTo s.column s.done.length .blockSequenceStart).dropKey
    .ok ({ s with keyAllowed := true }.skip 1 |>.push .blockEntry)

/-- A question mark in front of a key. -/
def fetchKey (s : Scanner) : Except Fault Scanner :=
  if !s.inFlow && !s.keyAllowed then .error .misplacedKey
  else do
    let s ← (s.indentTo s.column s.done.length .blockMappingStart).dropKey
    .ok ({ s with keyAllowed := !s.inFlow }.skip 1 |>.push .key)

/-- A colon in front of a value. -/
def fetchValue (s : Scanner) : Except Fault Scanner :=
  match s.key with
  | some k =>
    let s := (s.insert k.before .key).indentTo k.place.column k.before .blockMappingStart
    .ok ({ s with key := none, keyAllowed := false }.skip 1 |>.push .value)
  | none =>
    if !s.inFlow && !s.keyAllowed then .error .misplacedValue
    else
      let s := s.indentTo s.column s.done.length .blockMappingStart
      .ok ({ s with keyAllowed := !s.inFlow }.skip 1 |>.push .value)

/-- An anchor or an alias. -/
def fetchAnchor (s : Scanner) (token : String → Token) : Except Fault Scanner := do
  let s ← s.saveKey
  let (name, cursor) ← readAnchor (s.cursor.skip 1)
  .ok ({ s with cursor, keyAllowed := false }.push (token name))

/-- A tag. -/
def fetchTag (s : Scanner) : Except Fault Scanner := do
  let s ← s.saveKey
  let (t, cursor) ← readTag s.inFlow s.cursor
  .ok ({ s with cursor, keyAllowed := false }.push t)

/-- A block scalar. -/
def fetchBlockScalar (s : Scanner) (folds : Bool) : Except Fault Scanner := do
  let s ← s.dropKey
  let scalar ← readBlock folds s.margin (s.cursor.skip 1)
  .ok ({ s with cursor := scalar.cursor, keyAllowed := true }.push
    (.scalar (String.ofList scalar.text) false))

/-- A quoted scalar. -/
def fetchQuoted (s : Scanner) (isDouble : Bool) : Except Fault Scanner := do
  let s ← s.saveKey
  let c := s.cursor.skip 1
  let scalar ← if isDouble then readDouble c.rest c.place .none none
    else readSingle c.rest c.place .none
  .ok ({ s with cursor := scalar.cursor, keyAllowed := false }.push
    (.scalar (String.ofList scalar.text) false))

/-- A plain scalar. -/
def fetchPlain (s : Scanner) : Except Fault Scanner := do
  let s ← s.saveKey
  let scalar ← readPlain s.margin s.inFlow s.cursor.rest s.cursor.place .none
  .ok ({ s with cursor := scalar.cursor, keyAllowed := scalar.crossesLine }.push
    (.scalar (String.ofList scalar.text) true))

/-- Whether a plain scalar can start with `c` in front of `cs`. -/
def startsPlain (inFlow : Bool) (c : Char) (cs : List Char) : Bool :=
  if c = '-' then !cs.head?.any isGap
  else if c = '?' || c = ':' then !inFlow && !atGapOrBreak cs
  else !(isGap c || isBreak c || ",[]\x7b\x7d#&*!|>'\"%@\x60".toList.contains c)

/-- Reads the token that starts with `c` in front of `cs`. -/
def fetchFrom (s : Scanner) (c : Char) (cs : List Char) : Except Fault Scanner :=
  let atStart := s.column = 0
  if atStart && c = '%' then s.fetchDirective
  else if atStart && atMark '-' (c :: cs) then s.fetchMark .documentStart
  else if atStart && atMark '.' (c :: cs) then s.fetchMark .documentEnd
  else if c = '[' then s.fetchOpen .flowSequenceStart
  else if c = '{' then s.fetchOpen .flowMappingStart
  else if c = ']' then s.fetchClose .flowSequenceEnd
  else if c = '}' then s.fetchClose .flowMappingEnd
  else if c = ',' then s.fetchComma
  else if c = '-' && atGapOrBreak cs then s.fetchEntry
  else if c = '?' && (s.inFlow || atGapOrBreak cs) then s.fetchKey
  else if c = ':' && (s.inFlow || atGapOrBreak cs) then s.fetchValue
  else if c = '*' then s.fetchAnchor .alias
  else if c = '&' then s.fetchAnchor .anchor
  else if c = '!' then s.fetchTag
  else if c = '|' && !s.inFlow then s.fetchBlockScalar false
  else if c = '>' && !s.inFlow then s.fetchBlockScalar true
  else if c = '\'' then s.fetchQuoted false
  else if c = '"' then s.fetchQuoted true
  else if startsPlain s.inFlow c cs then s.fetchPlain
  else .error .strayCharacter

/-- Reads tokens to the end of the text; each step but the last passes a character. -/
def run : Nat → Scanner → Except Fault (List Token)
  | 0, _ => .error .stepLimit
  | fuel + 1, s => do
    let s ← s.advance.expireKeys
    let s := s.unindent
    match s.cursor.rest with
    | [] =>
      let s ← s.closeAll.dropKey
      .ok s.done.reverse
    | c :: cs => do
      let s ← s.fetchFrom c cs
      run fuel s

end Scanner

/-- The tokens of a text. -/
def tokens (source : String) : Except Fault (List Token) :=
  let cs := source.toList
  if cs.all isAllowed then Scanner.run (cs.length + 1) (Scanner.start (unifyBreaks cs))
  else .error .forbiddenCharacter

end FolderCommands.Yaml
