import FolderCommands.Yaml.Cursor
import FolderCommands.Yaml.Fault
import FolderCommands.Yaml.Gap

/-!
# Plain and quoted scalars

The three notations for scalars whose lines are folded. Each reader goes character by character
and keeps white space back until the next visible character shows whether it counts.
-/

namespace FolderCommands.Yaml

/-- A scalar that has been read and what is left. -/
structure ScalarText where
  text : List Char
  cursor : Cursor
deriving DecidableEq, Repr

/-- Puts characters in front of a scalar. -/
def ScalarText.prepend (cs : List Char) (s : ScalarText) : ScalarText :=
  { s with text := cs ++ s.text }

/-! ## Plain scalars -/

/-- The characters that end a plain scalar inside brackets. -/
def isFlowIndicator (c : Char) : Bool :=
  c = ',' || c = '[' || c = ']' || c = '{' || c = '}'

/-- Whether white space in front of the visible character `c` has ended a plain scalar. -/
def endsBefore (margin : Nat) (inFlow : Bool) (place : Position) (gap : Gap) (c : Char)
    (cs : List Char) : Bool :=
  (place.column = 0 && atDocumentMark (c :: cs)) || (!gap.isNone && c = '#') ||
    (gap.crossesLine && !inFlow && place.column < margin)

/-- Whether a colon stands where it has no meaning. -/
def isStrayColon (inFlow : Bool) (c : Char) (cs : List Char) : Bool :=
  inFlow && c = ':' && match cs with
    | d :: _ => d = '?' || isFlowIndicator d
    | [] => false

/-- Whether a character is an indicator that ends a plain scalar. -/
def isPlainEnd (inFlow : Bool) (c : Char) (cs : List Char) : Bool :=
  (c = ':' && atGapOrBreak cs) || (inFlow && isFlowIndicator c)

/-- A plain scalar that has been read. -/
structure PlainText extends ScalarText where
  /-- Whether line breaks follow the scalar. -/
  crossesLine : Bool
deriving DecidableEq, Repr

/-- Reads a plain scalar; `margin` is the least column of its further lines. -/
def readPlain (margin : Nat) (inFlow : Bool) :
    List Char → Position → Gap → Except Fault PlainText
  | [], place, gap => .ok ⟨⟨[], ⟨[], place⟩⟩, gap.crossesLine⟩
  | c :: cs, place, gap =>
    if isGap c then
      if c = '\t' && gap.crossesLine && place.column < margin then .error .tabIndentation
      else readPlain margin inFlow cs place.next (gap.blank c)
    else if isBreak c then readPlain margin inFlow cs place.newLine (gap.lineBreak c)
    else if endsBefore margin inFlow place gap c cs then
      .ok ⟨⟨[], ⟨c :: cs, place⟩⟩, gap.crossesLine⟩
    else if isStrayColon inFlow c cs then .error .strayColon
    else if isPlainEnd inFlow c cs then .ok ⟨⟨[], ⟨c :: cs, place⟩⟩, gap.crossesLine⟩
    else
      (readPlain margin inFlow cs place.next .none).map fun s ↦
        { s with text := gap.folded ++ c :: s.text }

/-! ## Quoted scalars -/

/-- Reads what follows an opening single quote. -/
def readSingle : List Char → Position → Gap → Except Fault ScalarText
  | [], _, _ => .error .openScalar
  | c :: cs, place, gap =>
    if isGap c then readSingle cs place.next (gap.blank c)
    else if isBreak c then readSingle cs place.newLine (gap.lineBreak c)
    else if place.column = 0 && atDocumentMark (c :: cs) then .error .openScalar
    else if c = '\'' then
      match cs with
      | '\'' :: rest =>
        (readSingle rest place.next.next .none).map (.prepend (gap.folded ++ ['\'']))
      | _ => .ok ⟨gap.folded, ⟨cs, place.next⟩⟩
    else (readSingle cs place.next .none).map (.prepend (gap.folded ++ [c]))

/-- The characters that have an escape of two characters. -/
def escaped? (c : Char) : Option Char :=
  match c with
  | '0' => some '\x00'
  | 'a' => some '\x07'
  | 'b' => some '\x08'
  | 't' | '\t' => some '\t'
  | 'n' => some '\n'
  | 'v' => some '\x0b'
  | 'f' => some '\x0c'
  | 'r' => some '\r'
  | 'e' => some '\x1b'
  | ' ' => some ' '
  | '"' => some '"'
  | '/' => some '/'
  | '\\' => some '\\'
  | 'N' => some '\u0085'
  | '_' => some '\u00A0'
  | 'L' => some '\u2028'
  | 'P' => some '\u2029'
  | _ => none

/-- The number of hexadecimal digits after an escape by number. -/
def escapeWidth? (c : Char) : Option Nat :=
  match c with
  | 'x' => some 2
  | 'u' => some 4
  | 'U' => some 8
  | _ => none

/-- The character of that number. -/
def character? (n : Nat) : Option Char :=
  if n < 0xD800 || (0xE000 ≤ n && n ≤ 0x10FFFF) then some (Char.ofNat n) else none

/-- Reads what follows an opening double quote. While an escape by number is being read, `number`
holds the digits that are missing and the number so far. -/
def readDouble : List Char → Position → Gap → Option (Nat × Nat) → Except Fault ScalarText
  | [], _, _, _ => .error .openScalar
  | c :: cs, place, _, some (missing, number) =>
    match hexValue? c with
    | none => .error .badEscape
    | some digit =>
      let number := 16 * number + digit
      if 1 < missing then readDouble cs place.next .none (some (missing - 1, number))
      else match character? number with
        | none => .error .badEscape
        | some d => (readDouble cs place.next .none none).map (.prepend [d])
  | c :: cs, place, gap, none =>
    if isGap c then readDouble cs place.next (gap.blank c) none
    else if isBreak c then readDouble cs place.newLine (gap.lineBreak c) none
    else if place.column = 0 && atDocumentMark (c :: cs) then .error .openScalar
    else if c = '"' then .ok ⟨gap.folded, ⟨cs, place.next⟩⟩
    else if c = '\\' then
      match cs with
      | [] => .error .badEscape
      | d :: rest =>
        if isBreak d then
          (readDouble rest place.newLine (.lines none []) none).map (.prepend gap.folded)
        else match escaped? d, escapeWidth? d with
          | some e, _ =>
            (readDouble rest place.next.next .none none).map (.prepend (gap.folded ++ [e]))
          | none, some width =>
            (readDouble rest place.next.next .none (some (width, 0))).map (.prepend gap.folded)
          | none, none => .error .badEscape
    else (readDouble cs place.next .none none).map (.prepend (gap.folded ++ [c]))

end FolderCommands.Yaml
