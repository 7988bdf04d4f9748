import FolderCommands.Text.Blank
import FolderCommands.Text.Lines
import FolderCommands.Text.Utf8

/-!
# Reading one line of a manifest

A line is a separator, a declaration `key: value`, an end marker or none of these. Keys are plain
ASCII words; a comment runs from the first number sign to the end of the line.
-/

namespace FolderCommands.Grammar

/-- A line without the line feeds and carriage returns at its end. -/
def lineContent (raw : List Char) : List Char :=
  Text.dropEndWhile (fun c ↦ c = '\n' || c = '\r') raw

/-- Whether a trimmed line ends the content: it is short or a comment. -/
def endsContent (trimmed : List Char) : Bool :=
  trimmed.length < 3 || trimmed.head? == some '#'

/-- The part of a line in front of its comment. -/
def withoutComment (line : List Char) : List Char :=
  line.takeWhile (· ≠ '#')

/-- Whether a trimmed line starts like a separator. -/
def opensSeparator (trimmed : List Char) : Bool :=
  ['-', '-', '-'].isPrefixOf trimmed

/-- Whether a line is a separator and nothing else, a comment apart. -/
def isSeparator (line : List Char) : Bool :=
  Text.trim (withoutComment line) == ['-', '-', '-']

/-- The characters of keys. -/
def isKeyChar (c : Char) : Bool :=
  c.isAlphanum || c = '_' || c = '-'

/-- The white space allowed around a key. -/
def isGap (c : Char) : Bool :=
  c = ' ' || c = '\t'

/-- A value without blanks and quotes at its ends. -/
def bareValue (value : List Char) : List Char :=
  Text.trim (Text.trimWhile (fun c ↦ c = '"' || c = '\'') (Text.trim value))

/-- A key and its value. -/
structure Declaration where
  key : String
  value : String
deriving DecidableEq, Repr

/-- The declaration that a line makes. -/
def declaration? (line : List Char) : Option Declaration :=
  let start := (withoutComment line).dropWhile isGap
  let key := start.takeWhile isKeyChar
  match (start.dropWhile isKeyChar).dropWhile isGap with
  | ':' :: value =>
    if key.isEmpty then none
    else some ⟨String.ofList key, String.ofList (bareValue value)⟩
  | _ => none

/-- The byte position of the first tab, counted from one. -/
def tabColumn? (line : List Char) : Option Nat :=
  if line.contains '\t' then some (Text.byteLength (line.takeWhile (· ≠ '\t')) + 1) else none

end FolderCommands.Grammar
