import FolderCommands.Data.Datum
import FolderCommands.Text.Lines
import FolderCommands.Text.Quoted

/-!
# Writing JSON

The layout of JSON documents: one item to a line, indented by two spaces for each level, and
nothing between the brackets of what is empty. Of the characters only quotes, backslashes and
controls are escaped.
-/

namespace FolderCommands.Json

/-- A hexadecimal number of four digits. -/
def fourDigits (n : Nat) : List Char :=
  let digits := Text.hexDigits n
  List.replicate (4 - digits.length) '0' ++ digits

/-- How a character is written inside a string. -/
def escape (c : Char) : List Char :=
  match c with
  | '"' => ['\\', '"']
  | '\\' => ['\\', '\\']
  | '\x08' => ['\\', 'b']
  | '\x0c' => ['\\', 'f']
  | '\n' => ['\\', 'n']
  | '\r' => ['\\', 'r']
  | '\t' => ['\\', 't']
  | c => if c.toNat < 0x20 then '\\' :: 'u' :: fourDigits c.toNat else [c]

/-- A string with its quotes. -/
def quote (s : String) : String :=
  String.ofList ('"' :: s.toList.flatMap escape ++ ['"'])

/-- The start of a line at a level. -/
def lineStart (level : Nat) : String :=
  "\n" ++ String.ofList (List.replicate (2 * level) ' ')

/-- Lines between brackets. -/
def bracketed (opening closing : String) (level : Nat) (lines : List String) : String :=
  if lines.isEmpty then opening ++ closing
  else
    opening ++ lineStart (level + 1) ++ Text.joinWith ("," ++ lineStart (level + 1)) lines ++
      lineStart level ++ closing

mutual

/-- Writes data that starts at a level. -/
def renderAt (level : Nat) : Datum → String
  | .null => "null"
  | .bool b => if b then "true" else "false"
  | .int n => toString n
  | .float x => if x.isFinite then Decimal.Layout.compact.write x else "null"
  | .string s => quote s
  | .sequence items => bracketed "[" "]" level (renderItems (level + 1) items)
  | .map entries => bracketed "\x7b" "\x7d" level (renderEntries (level + 1) entries)

def renderItems (level : Nat) : List Datum → List String
  | [] => []
  | d :: ds => renderAt level d :: renderItems level ds

def renderEntries (level : Nat) : List (Datum × Datum) → List String
  | [] => []
  | (key, value) :: entries =>
    ((match key with
      | .string s => quote s
      | key => quote (renderAt level key)) ++ ": " ++ renderAt level value) ::
      renderEntries level entries

end

/-- Writes data. -/
def render (d : Datum) : String :=
  renderAt 0 d

end FolderCommands.Json
