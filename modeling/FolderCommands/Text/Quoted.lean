import FolderCommands.Text.Lowercase
import FolderCommands.Text.UnprintableTable

/-!
# Quoted text in messages

How a message shows a text that it found in the data: between double quotes, with the common
controls, the quote and the backslash written as two-character escapes, and every other character
without a visible form written by its code point.
-/

namespace FolderCommands.Text

/-- The hexadecimal digits of a number, in lower case. -/
def hexDigits (n : Nat) : List Char :=
  Nat.toDigits 16 n

/-- How one character is shown inside quotes. -/
def quotedChar (c : Char) : List Char :=
  match c with
  | '\x00' => ['\\', '0']
  | '\t' => ['\\', 't']
  | '\r' => ['\\', 'r']
  | '\n' => ['\\', 'n']
  | '"' => ['\\', '"']
  | '\\' => ['\\', '\\']
  | c =>
    if c.toNat < 0x7F && 0x20 ≤ c.toNat then [c]
    else if inRanges unprintableRanges c.toNat then
      ['\\', 'u', '\x7b'] ++ hexDigits c.toNat ++ ['\x7d']
    else [c]

/-- The text between double quotes, with escapes. -/
def quoted (s : String) : String :=
  String.ofList ('"' :: s.toList.flatMap quotedChar ++ ['"'])

end FolderCommands.Text
