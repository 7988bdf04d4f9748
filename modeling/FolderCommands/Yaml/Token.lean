import FolderCommands.Yaml.BlockScalar
import FolderCommands.Text.Utf8

/-!
# Tokens

The tokens of YAML, and the readers of those that are words: anchors, tags and directives. A tag
is a list of bytes, because its escapes name bytes.
-/

namespace FolderCommands.Yaml

/-- The bytes of a tag. -/
abbrev Uri := List UInt8

/-- A token. Indentation has become start and end tokens. -/
inductive Token where
  | version (major minor : Nat)
  | tagDirective (handle : String) (start : Uri)
  | documentStart
  | documentEnd
  | blockSequenceStart
  | blockMappingStart
  | blockEnd
  | flowSequenceStart
  | flowSequenceEnd
  | flowMappingStart
  | flowMappingEnd
  | blockEntry
  | flowEntry
  | key
  | value
  | alias (name : String)
  | anchor (name : String)
  | tag (handle : String) (suffix : Uri)
  | scalar (text : String) (isPlain : Bool)
deriving DecidableEq, Repr

/-! ## Anchors and aliases -/

/-- Whether the name of an anchor may be followed by `cs`. -/
def endsAnchor (cs : List Char) : Bool :=
  atGapOrBreak cs || match cs with
    | c :: _ => "?:,]\x7d%@\x60".toList.contains c
    | [] => true

/-- Reads the name after an ampersand or an asterisk. -/
def readAnchor (c : Cursor) : Except Fault (String × Cursor) :=
  let name := c.rest.takeWhile isWord
  let c := c.skip name.length
  if name.isEmpty || !endsAnchor c.rest then .error .badAnchor
  else .ok (String.ofList name, c)

/-! ## Tags -/

/-- The characters of tags; inside brackets a comma and square brackets end a tag. -/
def isUriChar (verbatim : Bool) (c : Char) : Bool :=
  isWord c || ";/?:@&=+$.%!~*'()".toList.contains c ||
    (verbatim && (c = ',' || c = '[' || c = ']'))

/-- The number of bytes that a character with this first byte has. -/
def widthOf? (byte : Nat) : Option Nat :=
  if byte < 0x80 then some 1
  else if byte / 32 = 6 then some 2
  else if byte / 16 = 14 then some 3
  else if byte / 8 = 30 then some 4
  else none

/-- Reads the characters of a tag. While an escaped character is being read, `missing` of its
bytes are still to come. -/
def readUri (verbatim : Bool) : List Char → Nat → Except Fault (Uri × Nat)
  | '%' :: a :: b :: cs, missing =>
    match hexValue? a, hexValue? b with
    | some high, some low =>
      let byte := 16 * high + low
      let left := if missing = 0 then (widthOf? byte).map (· - 1)
        else if byte / 64 = 2 then some (missing - 1) else none
      match left with
      | some left =>
        (readUri verbatim cs left).map fun (uri, count) ↦ (UInt8.ofNat byte :: uri, count + 3)
      | none => .error .badEscape
    | _, _ => .error .badEscape
  | c :: cs, missing =>
    if missing ≠ 0 || c = '%' then .error .badEscape
    else if isUriChar verbatim c then
      (readUri verbatim cs 0).map fun (uri, count) ↦ (UInt8.ofNat c.toNat :: uri, count + 1)
    else .ok ([], 0)
  | [], missing => if missing ≠ 0 then .error .badEscape else .ok ([], 0)

/-- A tag ends at a zero byte. -/
def untilZero (uri : Uri) : Uri :=
  uri.takeWhile (· ≠ 0)

/-- Reads the characters of a tag, of which there must be one unless `mayBeEmpty`. -/
def readTagText (verbatim mayBeEmpty : Bool) (c : Cursor) : Except Fault (Uri × Cursor) :=
  match readUri verbatim c.rest 0 with
  | .error fault => .error fault
  | .ok (uri, count) =>
    if count = 0 && !mayBeEmpty then .error .badTag else .ok (uri, c.skip count)

/-- Reads a handle: an exclamation mark, a word, and perhaps a second mark. -/
def readHandle (c : Cursor) : Except Fault (List Char × Cursor) :=
  match c.rest with
  | '!' :: rest =>
    let word := rest.takeWhile isWord
    let c := c.skip (1 + word.length)
    if c.rest.head? = some '!' then .ok ('!' :: word ++ ['!'], c.skip 1)
    else .ok ('!' :: word, c)
  | _ => .error .badTag

/-- Whether a handle has a second exclamation mark. -/
def isNamedHandle (handle : List Char) : Bool :=
  1 < handle.length && handle.getLast? = some '!'

/-- The token of a tag without a handle of its own. -/
def primaryTag (suffix : Uri) : Token :=
  if (untilZero suffix).isEmpty then .tag "" (Text.encode "!") else .tag "!" (untilZero suffix)

/-- Reads a tag up to its end. -/
def readTagParts (c : Cursor) : Except Fault (Token × Cursor) :=
  match c.rest with
  | '!' :: '<' :: _ => do
    let (uri, c) ← readTagText true false (c.skip 2)
    if c.rest.head? = some '>' then .ok (.tag "" (untilZero uri), c.skip 1) else .error .badTag
  | _ => do
    let (handle, c) ← readHandle c
    if isNamedHandle handle then
      let (uri, c) ← readTagText false false c
      .ok (.tag (String.ofList handle) (untilZero uri), c)
    else
      let (uri, c) ← readTagText false true c
      .ok (primaryTag (Text.encode (String.ofList (handle.drop 1)) ++ uri), c)

/-- Reads a tag. -/
def readTag (inFlow : Bool) (c : Cursor) : Except Fault (Token × Cursor) := do
  let (token, c) ← readTagParts c
  if (inFlow && c.rest.head? = some ',') || atGapOrBreak c.rest then .ok (token, c)
  else .error .badTag

/-! ## Directives -/

/-- Reads a number of at most nine digits. -/
def readVersionNumber (c : Cursor) : Except Fault (Nat × Cursor) :=
  let digits := c.rest.takeWhile Char.isDigit
  if digits.isEmpty || 9 < digits.length then .error .badDirective
  else .ok (digits.foldl (fun n d ↦ 10 * n + (d.toNat - 48)) 0, c.skip digits.length)

/-- Reads what follows the name of a version directive. -/
def readVersion (c : Cursor) : Except Fault (Token × Cursor) := do
  let (major, c) ← readVersionNumber (c.skipWhile isGap)
  if c.rest.head? ≠ some '.' then .error .badDirective
  else
    let (minor, c) ← readVersionNumber (c.skip 1)
    .ok (.version major minor, c)

/-- Reads what follows the name of a tag directive. -/
def readTagDirective (c : Cursor) : Except Fault (Token × Cursor) := do
  let (handle, c) ← readHandle (c.skipWhile isGap)
  if handle ≠ ['!'] && !isNamedHandle handle then .error .badDirective
  else if !c.rest.head?.any isGap then .error .badDirective
  else
    let (uri, c) ← readTagText true false (c.skipWhile isGap)
    if atGapOrBreak c.rest then .ok (.tagDirective (String.ofList handle) (untilZero uri), c)
    else .error .badDirective

/-- Reads what follows a percent sign, up to the start of the next line. -/
def readDirective (c : Cursor) : Except Fault (Token × Cursor) := do
  let name := c.rest.takeWhile isWord
  let c := c.skip name.length
  if name.isEmpty || !atGapOrBreak c.rest then .error .badDirective
  else
    let (token, c) ←
      if name = "YAML".toList then readVersion c
      else if name = "TAG".toList then readTagDirective c
      else .error .badDirective
    let c := c.skipWhile isGap
    let c := if c.rest.head? = some '#' then c.skipWhile (!isBreak ·) else c
    if !atBreak c.rest then .error .badDirective
    else .ok (token, if c.rest.isEmpty then c else c.skipBreak)

end FolderCommands.Yaml
