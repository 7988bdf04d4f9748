import FolderCommands.Text.Lines
import FolderCommands.Text.Utf8
import FolderCommands.Yaml.Character

/-!
# Run identifiers

An identifier has 32 hexadecimal digits, written in groups of 8, 4, 4, 4 and 12. It is also read
without hyphens, between braces and behind `urn:uuid:`.
-/

namespace FolderCommands

/-- An identifier of 32 hexadecimal digits. -/
structure Uuid where
  digits : List (Fin 16)
  length_digits : digits.length = 32
deriving DecidableEq

namespace Uuid

/-- A hexadecimal digit in lower case. -/
def digitChar (d : Fin 16) : Char :=
  if d.val < 10 then Char.ofNat (48 + d.val) else Char.ofNat (87 + d.val)

/-- The written form of an identifier. -/
def text (u : Uuid) : String :=
  let cs := u.digits.map digitChar
  String.ofList (cs.take 8 ++ '-' :: (cs.drop 8).take 4 ++ '-' :: (cs.drop 12).take 4 ++
    '-' :: (cs.drop 16).take 4 ++ '-' :: cs.drop 20)

/-- The digits of an identifier as a number, most significant first. -/
def ofNat (n : Nat) : Uuid where
  digits := (List.range 32).map fun i ↦ Fin.ofNat 16 (n / Nat.pow 16 (31 - i))
  length_digits := by simp

/-- Why a text is no identifier. -/
inductive Fault where
  | badCharacter (c : Char) (index : Nat)
  | badLength (length : Nat)
  | badGroupCount (count : Nat)
  | badGroupLength (group expected found : Nat)
deriving DecidableEq, Repr

/-- The text of a fault. -/
def Fault.message : Fault → String
  | badCharacter c index =>
    "invalid character: expected an optional prefix of `urn:uuid:` followed by [0-9a-fA-F-], " ++
      "found `" ++ String.ofList [c] ++ "` at " ++ toString index
  | badLength length =>
    "invalid length: expected length 32 for simple format, found " ++ toString length
  | badGroupCount count => "invalid group count: expected 5, found " ++ toString count
  | badGroupLength group expected found =>
    "invalid group length in group " ++ toString group ++ ": expected " ++ toString expected ++
      ", found " ++ toString found

/-- The value of a hexadecimal digit. -/
def digit? (c : Char) : Option (Fin 16) :=
  (Yaml.hexValue? c).bind fun n ↦ if h : n < 16 then some ⟨n, h⟩ else none

/-- The identifier of 32 digits. -/
def ofDigits? (cs : List Char) : Option Uuid :=
  match cs.mapM digit? with
  | some digits => if h : digits.length = 32 then some ⟨digits, h⟩ else none
  | none => none

/-- What a text holds besides braces or a name space, and the number of characters in front. -/
def core (cs : List Char) : List Char × Nat × Bool :=
  let space := "urn:uuid:".toList
  if cs.head? = some '\x7b' && cs.getLast? = some '\x7d' && 2 ≤ cs.length then
    (cs.tail.dropLast, 1, false)
  else if space.isPrefixOf cs then (cs.drop space.length, space.length, false)
  else (cs, 0, true)

/-- The lengths of the groups of an identifier. -/
def groupLengths : List Nat :=
  [8, 4, 4, 4, 12]

/-- The first character that an identifier cannot have, and its byte position. -/
def badCharacter? (index : Nat) : List Char → Option (Char × Nat)
  | [] => none
  | c :: cs =>
    if c = '-' || (digit? c).isSome then badCharacter? (index + c.utf8Size) cs
    else some (c, index)

/-- The first group that does not have its length. -/
def badGroup (group : Nat) : List Nat → List Nat → Fault
  | expected :: es, found :: fs =>
    if expected = found then badGroup (group + 1) es fs else .badGroupLength group expected found
  | _, _ => .badGroupCount group

/-- What is wrong with a text that is no identifier. -/
def diagnose (cs : List Char) : Fault :=
  let (inner, offset, isBare) := core cs
  match badCharacter? (offset + 1) inner with
  | some (c, index) => .badCharacter c index
  | none =>
    let groups := (Text.pieces '-' inner).map List.length
    if groups.length = 1 && isBare then .badLength cs.length
    else if groups.length ≠ 5 then .badGroupCount groups.length
    else match badGroup 0 groupLengths groups with
      | .badGroupLength 4 expected _ => .badGroupLength 4 expected (cs.length - 24)
      | fault => fault

/-- Reads an identifier. -/
def parse (s : String) : Except Fault Uuid :=
  let cs := s.toList
  let (inner, _, isBare) := core cs
  let grouped := (Text.pieces '-' inner).map List.length = groupLengths
  if grouped || (isBare && cs.length = 32) then
    match ofDigits? (inner.filter (· ≠ '-')) with
    | some u => .ok u
    | none => .error (diagnose cs)
  else .error (diagnose cs)

end Uuid

end FolderCommands
