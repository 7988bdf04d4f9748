import FolderCommands.Yaml.Character

/-!
# Reading positions

A cursor is the text that is left and the line and column where it starts, both counted from zero.
-/

namespace FolderCommands.Yaml

/-- A place in a text. -/
structure Position where
  line : Nat
  column : Nat
deriving DecidableEq, Repr

namespace Position

/-- One character on, in the same line. -/
def next (p : Position) : Position :=
  ⟨p.line, p.column + 1⟩

/-- The start of the next line. -/
def newLine (p : Position) : Position :=
  ⟨p.line + 1, 0⟩

end Position

/-- The text that is left and where it starts. -/
structure Cursor where
  rest : List Char
  place : Position
deriving DecidableEq, Repr

namespace Cursor

/-- Passes `n` characters of a line. -/
def skip (c : Cursor) (n : Nat) : Cursor :=
  ⟨c.rest.drop n, ⟨c.place.line, c.place.column + n⟩⟩

/-- Passes the characters of a line that satisfy `p`. -/
def skipWhile (c : Cursor) (p : Char → Bool) : Cursor :=
  c.skip (c.rest.takeWhile p).length

/-- Passes a line break. -/
def skipBreak (c : Cursor) : Cursor :=
  ⟨c.rest.drop 1, c.place.newLine⟩

end Cursor

end FolderCommands.Yaml
