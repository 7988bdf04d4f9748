import FolderCommands.Yaml.Node
import FolderCommands.Yaml.Value

/-!
# What a scalar stands for

A plain scalar without a tag is null, a truth value, an integer, a float or else a string. A
standard tag asks for one of these kinds and fails on anything else. A number that starts with a
superfluous zero is a string.
-/

namespace FolderCommands.Yaml.Scalar

def isNull (s : String) : Bool :=
  ["null", "Null", "NULL", "~"].contains s

def bool? (s : String) : Option Bool :=
  if ["true", "True", "TRUE"].contains s then some true
  else if ["false", "False", "FALSE"].contains s then some false
  else none

/-- The value of digits in a base, if there are any and all are digits. -/
def digits? (base : Nat) (cs : List Char) : Option Nat :=
  if cs.isEmpty then none
  else cs.foldl (fun n c ↦ match n, hexValue? c with
    | some n, some d => if d < base then some (base * n + d) else none
    | _, _ => none) (some 0)

/-- The sign in front of a number and the rest. -/
def sign : List Char → Option Char × List Char
  | '+' :: cs => (some '+', cs)
  | '-' :: cs => (some '-', cs)
  | cs => (none, cs)

/-- Whether a text has a leading zero that no number has. -/
def hasLeadingZero (cs : List Char) : Bool :=
  match (sign cs).2 with
  | '0' :: c :: rest => (c :: rest).all Char.isDigit
  | _ => false

/-- The value of digits with an optional mark for the base. -/
def magnitude? (leadingZero : Bool) : List Char → Option Nat
  | '0' :: 'x' :: cs => digits? 16 cs
  | '0' :: 'o' :: cs => digits? 8 cs
  | '0' :: 'b' :: cs => digits? 2 cs
  | cs => if leadingZero then none else digits? 10 cs

/-- The integer that a text spells. -/
def int? (cs : List Char) : Option Int :=
  match sign cs with
  | (some '-', rest) => (magnitude? (hasLeadingZero cs) rest).map fun n ↦ -(n : Int)
  | (_, rest) => (magnitude? (hasLeadingZero cs) rest).map fun n ↦ (n : Int)

/-- What becomes of an integer: it is kept if it fits 64 bits, signed or unsigned. -/
inductive IntKind where
  | kept
  | refused
  | noInteger
deriving DecidableEq, Repr

/-- Integers of more than 64 bits are refused, unless they do not even fit 128 bits. -/
def intKind (n : Int) : IntKind :=
  if -(Nat.pow 2 63 : Int) ≤ n ∧ n < (Nat.pow 2 64 : Int) then .kept
  else if -(Nat.pow 2 127 : Int) ≤ n ∧ n < (Nat.pow 2 128 : Int) then .refused
  else .noInteger

/-- The exponent after a mantissa; zero if there is none. -/
def exponent? : List Char → Option Int
  | [] => some 0
  | c :: cs =>
    if c = 'e' || c = 'E' then
      match sign cs with
      | (some '-', rest) => (digits? 10 rest).map fun n ↦ -(n : Int)
      | (_, rest) => (digits? 10 rest).map fun n ↦ (n : Int)
    else none

/-- The double nearest to a decimal without a sign. -/
def decimal? (negative : Bool) (cs : List Char) : Option Decimal.Binary64 :=
  let whole := cs.takeWhile Char.isDigit
  let rest := cs.dropWhile Char.isDigit
  let (fraction, rest) := match rest with
    | '.' :: rest => (rest.takeWhile Char.isDigit, rest.dropWhile Char.isDigit)
    | rest => ([], rest)
  match digits? 10 (whole ++ fraction), exponent? rest with
  | some digits, some e => some (.ofDecimal negative digits (e - fraction.length))
  | _, _ => none

/-- The finite double, infinity or NaN that a text spells. -/
def float? (s : String) : Option Decimal.Binary64 :=
  let infinities := [".inf", ".Inf", ".INF"]
  let unsigned := match s.toList with
    | '+' :: cs => String.ofList cs
    | _ => s
  if infinities.contains unsigned then some (.infinite false)
  else if (infinities.map ("-" ++ ·)).contains s then some (.infinite true)
  else if [".nan", ".NaN", ".NAN"].contains s then some .nan
  else
    let x := match sign s.toList with
      | (some c, cs) => decimal? (c = '-') cs
      | (none, cs) => decimal? false cs
    match x with
    | some x => if x.isFinite then some x else none
    | none => none

/-- The integer that a text stands for, if it is one. -/
def number? (s : String) : Except Fault (Option Number) :=
  match int? s.toList with
  | none => .ok none
  | some n => match intKind n with
    | .kept => .ok (some (.int n))
    | .refused => .error .numberTooLarge
    | .noInteger => .ok none

/-- What a plain scalar without a tag stands for. -/
def resolvePlain (s : String) : Except Fault Value :=
  if s.isEmpty || isNull s then .ok .null
  else match bool? s with
    | some b => .ok (.bool b)
    | none => match number? s with
      | .error fault => .error fault
      | .ok (some n) => .ok (.number n)
      | .ok none =>
        if hasLeadingZero s.toList then .ok (.string s)
        else match float? s with
          | some x => .ok (.number (.float x))
          | none => .ok (.string s)

/-- A tag of the standard types. -/
def standardTag (name : String) : Uri :=
  Text.encode ("tag:yaml.org,2002:" ++ name)

/-- What a scalar with a tag of the standard types, or of unknown ones, stands for. -/
def resolveTagged (tag : Uri) (s : String) (isPlain : Bool) : Except Fault Value :=
  if tag = standardTag "bool" then
    match bool? s with
    | some b => .ok (.bool b)
    | none => .error .scalarOfWrongType
  else if tag = standardTag "int" then
    match number? s with
    | .ok (some n) => .ok (.number n)
    | _ => .error .scalarOfWrongType
  else if tag = standardTag "float" then
    match float? s with
    | some x => .ok (.number (.float x))
    | none => .error .scalarOfWrongType
  else if tag = standardTag "null" then
    if isNull s then .ok .null else .error .scalarOfWrongType
  else if tag.head? = some 0x21 && isPlain then resolvePlain s
  else .ok (.string s)

/-- What a scalar stands for; a tag of the document's own has been dealt with before. -/
def resolve (tag : Option Uri) (s : String) (isPlain : Bool) : Except Fault Value :=
  match tag with
  | some tag => resolveTagged tag s isPlain
  | none => if isPlain then resolvePlain s else .ok (.string s)

end FolderCommands.Yaml.Scalar
