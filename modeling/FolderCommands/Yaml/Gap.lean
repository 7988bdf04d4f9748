/-!
# White space inside scalars

White space that has been passed inside a scalar is kept back until it is known what follows.
Blanks within a line are kept as they are; once a line break has been passed, blanks are dropped
and the breaks are folded.
-/

namespace FolderCommands.Yaml

/-- White space that has been passed and not yet been written. -/
inductive Gap where
  | none
  /-- Blanks within a line. -/
  | blanks (cs : List Char)
  /-- Breaks: the first, unless it was escaped, and the later ones. -/
  | lines (first : Option Char) (more : List Char)
deriving DecidableEq, Repr

namespace Gap

def isNone : Gap → Bool
  | none => true
  | _ => false

/-- Whether a line break has been passed. -/
def crossesLine : Gap → Bool
  | lines .. => true
  | _ => false

/-- Passes a blank. -/
def blank (c : Char) : Gap → Gap
  | none => blanks [c]
  | blanks cs => blanks (cs ++ [c])
  | lines first more => lines first more

/-- Passes a line break. -/
def lineBreak (c : Char) : Gap → Gap
  | lines first more => lines first (more ++ [c])
  | _ => lines (some c) []

/-- What the white space contributes: a single line feed becomes a space and the first of
several is dropped. -/
def folded : Gap → List Char
  | none => []
  | blanks cs => cs
  | lines (some '\n') [] => [' ']
  | lines (some '\n') more => more
  | lines first more => first.toList ++ more

end Gap

end FolderCommands.Yaml
