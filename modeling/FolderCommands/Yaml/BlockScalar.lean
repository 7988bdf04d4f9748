import FolderCommands.Yaml.FlowScalar

/-!
# Block scalars

A block scalar is a header line and the lines below it that are indented far enough. The first of
these fixes the indentation unless the header does. In the folded style a single break between two
lines that start with a visible character becomes a space.
-/

namespace FolderCommands.Yaml

/-- What happens to the line breaks at the end. -/
inductive Chomping where
  | strip
  | clip
  | keep
deriving DecidableEq, Repr

/-- What the header of a block scalar says. -/
structure BlockHeader where
  folds : Bool
  chomping : Chomping
  /-- The indentation relative to the surrounding block, if given. -/
  increment : Option Nat
deriving DecidableEq, Repr

/-- The chomping that an indicator asks for. -/
def chomping? (c : Char) : Option Chomping :=
  if c = '+' then some .keep else if c = '-' then some .strip else none

/-- Reads the two optional indicators of a header, in any order. -/
def readIndicators (folds : Bool) (c : Cursor) : Except Fault (BlockHeader × Cursor) :=
  match c.rest with
  | [] => .ok (⟨folds, .clip, none⟩, c)
  | a :: rest =>
    match chomping? a with
    | some chomping =>
      match rest with
      | d :: _ =>
        if d = '0' then .error .badBlockHeader
        else if d.isDigit then .ok (⟨folds, chomping, some (d.toNat - 48)⟩, c.skip 2)
        else .ok (⟨folds, chomping, none⟩, c.skip 1)
      | [] => .ok (⟨folds, chomping, none⟩, c.skip 1)
    | none =>
      if a = '0' then .error .badBlockHeader
      else if a.isDigit then
        match rest.head?.bind chomping? with
        | some chomping => .ok (⟨folds, chomping, some (a.toNat - 48)⟩, c.skip 2)
        | none => .ok (⟨folds, .clip, some (a.toNat - 48)⟩, c.skip 1)
      else .ok (⟨folds, .clip, none⟩, c)

/-- Reads a header up to the start of the next line. -/
def readBlockHeader (folds : Bool) (c : Cursor) : Except Fault (BlockHeader × Cursor) :=
  match readIndicators folds c with
  | .error fault => .error fault
  | .ok (header, c) =>
    let c := c.skipWhile isGap
    let c := if c.rest.head? = some '#' then c.skipWhile (!isBreak ·) else c
    if !atBreak c.rest then .error .badBlockHeader
    else .ok (header, if c.rest.isEmpty then c else c.skipBreak)

/-- What has been found out about a block scalar so far. -/
structure BlockState where
  /-- The column of its lines; zero while unknown. -/
  indent : Nat
  /-- The widest indentation of the blank lines just passed. -/
  widest : Nat
  /-- The break after the last line. -/
  first : Option Char
  /-- The breaks of the blank lines after it. -/
  more : List Char
  /-- Whether the last line starts with a blank. -/
  afterBlank : Bool
  /-- Whether the reader is inside a line. -/
  inLine : Bool
deriving DecidableEq, Repr

namespace BlockState

/-- Whether a column lies in front of the lines of the scalar. -/
def isBefore (s : BlockState) (column : Nat) : Bool :=
  s.indent = 0 || column < s.indent

/-- The column of the lines, settled at `column` in the first line that is not blank. -/
def settledIndent (margin : Nat) (s : BlockState) (column : Nat) : Nat :=
  if s.indent = 0 then max (max (max s.widest column) margin) 1 else s.indent

/-- The breaks in front of a line. -/
def separation (folds : Bool) (s : BlockState) (isBlank : Bool) : List Char :=
  if folds && s.first = some '\n' && !s.afterBlank && !isBlank then
    if s.more.isEmpty then [' '] else s.more
  else s.first.toList ++ s.more

/-- The breaks at the end of the scalar. -/
def ending (chomping : Chomping) (s : BlockState) : List Char :=
  match chomping with
  | .strip => []
  | .clip => s.first.toList
  | .keep => s.first.toList ++ s.more

end BlockState

/-- Reads the lines of a block scalar. -/
def readBlockLines (header : BlockHeader) (margin : Nat) :
    List Char → Position → BlockState → Except Fault ScalarText
  | [], place, s =>
    .ok ⟨if s.inLine then [] else s.ending header.chomping, ⟨[], place⟩⟩
  | c :: cs, place, s =>
    if s.inLine then
      if isBreak c then
        readBlockLines header margin cs place.newLine
          { s with first := some c, more := [], widest := 0, inLine := false }
      else (readBlockLines header margin cs place.next s).map (.prepend [c])
    else if s.isBefore place.column && c = ' ' then
      readBlockLines header margin cs place.next s
    else if s.isBefore place.column && c = '\t' then .error .tabIndentation
    else if isBreak c then
      readBlockLines header margin cs place.newLine
        { s with widest := max s.widest place.column, more := s.more ++ [c] }
    else
      let indent := s.settledIndent margin place.column
      if place.column = indent then
        (readBlockLines header margin cs place.next
          { s with
            indent, widest := 0, first := none, more := []
            afterBlank := isGap c, inLine := true }).map
          (.prepend (s.separation header.folds (isGap c) ++ [c]))
      else .ok ⟨s.ending header.chomping, ⟨c :: cs, place⟩⟩

/-- Reads what follows the indicator of a block scalar inside a block with that margin. -/
def readBlock (folds : Bool) (margin : Nat) (c : Cursor) : Except Fault ScalarText :=
  match readBlockHeader folds c with
  | .error fault => .error fault
  | .ok (header, c) =>
    let indent := match header.increment with
      | some n => margin - 1 + n
      | none => 0
    readBlockLines header margin c.rest c.place ⟨indent, 0, none, [], false, false⟩

end FolderCommands.Yaml
