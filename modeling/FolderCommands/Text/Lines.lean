/-!
# Pieces and lines of text

Cutting text at a separator and at line ends. Two notions of a line are needed: the pieces that
still carry their line feed, which add up to the whole text, and the bare lines, which have lost
the line feed and a carriage return in front of it.
-/

namespace FolderCommands.Text

/-- The pieces between the occurrences of `sep`; there is always at least one. -/
def pieces (sep : Char) : List Char → List (List Char)
  | [] => [[]]
  | c :: cs =>
    if c = sep then [] :: pieces sep cs
    else match pieces sep cs with
      | [] => [[c]]
      | piece :: rest => (c :: piece) :: rest

/-- The lines with their line feeds; a last line may lack one. -/
def rawLines : List Char → List (List Char)
  | [] => []
  | c :: cs =>
    if c = '\n' then ['\n'] :: rawLines cs
    else match rawLines cs with
      | [] => [[c]]
      | line :: rest => (c :: line) :: rest

/-- Nothing is lost by cutting text into lines. -/
theorem flatten_rawLines (cs : List Char) : (rawLines cs).flatten = cs := by
  induction cs with
  | nil => rfl
  | cons c cs ih =>
    unfold rawLines
    by_cases h : c = '\n'
    · simp [h, ih]
    · rw [if_neg h]
      cases hr : rawLines cs with
      | nil => simp [hr] at ih; simp [← ih]
      | cons line rest => simp [hr] at ih; simp [← ih]

/-- A raw line without its line feed and a carriage return in front of the line feed. -/
def bareLine (line : List Char) : List Char :=
  match line.reverse with
  | '\n' :: '\r' :: rest => rest.reverse
  | '\n' :: rest => rest.reverse
  | _ => line

/-- The lines of a text; a line ends in a line feed that may follow a carriage return. -/
def lines (cs : List Char) : List (List Char) :=
  (rawLines cs).map bareLine

/-- The texts with `sep` between them. -/
def joinWith (sep : String) : List String → String
  | [] => ""
  | [s] => s
  | s :: rest => s ++ sep ++ joinWith sep rest

/-- The pieces of a text between the occurrences of a character. -/
def split (sep : Char) (s : String) : List String :=
  (pieces sep s.toList).map String.ofList

end FolderCommands.Text
