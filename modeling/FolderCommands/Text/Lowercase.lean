import FolderCommands.Text.CaseTable

/-!
# Lower case

Full lower-casing of text: one character may become two, and a capital sigma becomes the final
form when a cased letter stands before it and none after it, characters that are ignorable for
case being skipped on both sides.
-/

namespace FolderCommands.Text

/-- Whether a code point lies in one of the ranges. -/
def inRanges (ranges : List (Nat × Nat)) (n : Nat) : Bool :=
  ranges.any fun (first, last) ↦ first ≤ n && n ≤ last

/-- The lower case of a code point outside ASCII with a one-character lower case. -/
def shiftedCase (n : Nat) : Nat :=
  match lowercaseRuns.find? fun (first, last, step, _) ↦
      first ≤ n && n ≤ last && (n - first) % step == 0 with
  | some (_, _, _, shift) => (n + shift).toNat
  | none => n

/-- The lower case of a character where the neighbours do not matter. -/
def lowerChar (c : Char) : List Char :=
  if c.toNat < 0x80 then [c.toLower]
  else if c = 'İ' then ['i', '\u0307']
  else [Char.ofNat (shiftedCase c.toNat)]

/-- Whether the first character that is not ignorable for case has a case. -/
def meetsCased (cs : List Char) : Bool :=
  match cs.dropWhile fun c ↦ inRanges caseIgnorableRanges c.toNat with
  | [] => false
  | c :: _ => inRanges casedRanges c.toNat

/-- Lowers text of which `before` has been passed already, last character first. -/
def lowerFrom (before : List Char) : List Char → List Char
  | [] => []
  | c :: cs =>
    (if c = 'Σ' then (if meetsCased before && !meetsCased cs then ['ς'] else ['σ'])
      else lowerChar c) ++ lowerFrom (c :: before) cs

/-- The lower case of a text. -/
def lowered (s : String) : String :=
  String.ofList (lowerFrom [] s.toList)

end FolderCommands.Text
