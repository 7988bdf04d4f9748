/-!
# Characters of YAML

The classes of characters that the notation distinguishes, and the line breaks. Breaks are brought
to one form before anything else is read: a carriage return, alone or in front of a line feed, and
the next-line character count as a line feed, while the two Unicode separators stay themselves.
-/

namespace FolderCommands.Yaml

/-- The characters that may occur in a text. -/
def isAllowed (c : Char) : Bool :=
  let n := c.toNat
  n == 9 || n == 10 || n == 13 || (0x20 ≤ n && n ≤ 0x7E) || n == 0x85 ||
    (0xA0 ≤ n && n ≤ 0xFFFD) || 0x10000 ≤ n

/-- Line breaks, once they have one form. -/
def isBreak (c : Char) : Bool :=
  c = '\n' || c = '\u2028' || c = '\u2029'

/-- White space inside a line. -/
def isGap (c : Char) : Bool :=
  c = ' ' || c = '\t'

/-- Brings line breaks to one form. -/
def unifyBreaks : List Char → List Char
  | [] => []
  | '\r' :: '\n' :: cs => '\n' :: unifyBreaks cs
  | c :: cs => (if c = '\r' || c = '\u0085' then '\n' else c) :: unifyBreaks cs

/-- Characters of anchors, tag handles and directive names. -/
def isWord (c : Char) : Bool :=
  c.isAlphanum || c = '_' || c = '-'

/-- Whether a word is over: at white space, at a break and at the end of the text. -/
def atGapOrBreak : List Char → Bool
  | [] => true
  | c :: _ => isGap c || isBreak c

/-- Whether a line is over. -/
def atBreak : List Char → Bool
  | [] => true
  | c :: _ => isBreak c

/-- Whether the text goes on with the mark `c c c`. -/
def atMark (c : Char) : List Char → Bool
  | a :: b :: d :: rest => a = c && b = c && d = c && atGapOrBreak rest
  | _ => false

/-- Whether the text goes on with a mark between documents. -/
def atDocumentMark (cs : List Char) : Bool :=
  atMark '-' cs || atMark '.' cs

/-- The value of a hexadecimal digit. -/
def hexValue? (c : Char) : Option Nat :=
  if c.isDigit then some (c.toNat - 48)
  else if 'a' ≤ c && c ≤ 'f' then some (c.toNat - 87)
  else if 'A' ≤ c && c ≤ 'F' then some (c.toNat - 55)
  else none

end FolderCommands.Yaml
