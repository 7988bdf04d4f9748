import FolderCommands.Data.Datum
import FolderCommands.Text.Lines
import FolderCommands.Time.Instant
import FolderCommands.Toml.Text
import FolderCommands.Yaml.Scalar

/-!
# Numbers, dates and times of TOML

Underscores may stand between digits. A date or time is data of its own kind, which counts as a
map, because no record has a field for one.
-/

namespace FolderCommands.Toml

/-- Reads digits with single underscores between them. -/
def readDigits (isDigit : Char → Bool) (cs : List Char) : Option (List Char × List Char) :=
  let run := cs.takeWhile fun c ↦ isDigit c || c = '_'
  let parts := Text.pieces '_' run
  if parts.any List.isEmpty then none else some (parts.flatten, cs.drop run.length)

/-- The integer of a sign and digits, if it has 64 bits. -/
def integer? (negative : Bool) (n : Nat) : Option Datum :=
  let n : Int := if negative then -(n : Int) else n
  if -(Nat.pow 2 63 : Int) ≤ n ∧ n < (Nat.pow 2 63 : Int) then some (.int n) else none

/-- Reads an integer of another base after its mark. -/
def readBased (base : Nat) (cs : List Char) : Option (Datum × List Char) := do
  let isDigit (c : Char) : Bool := (Yaml.hexValue? c).any (· < base)
  let (digits, cs) ← readDigits isDigit cs
  let d ← integer? false ((Yaml.Scalar.digits? base digits).getD 0)
  some (d, cs)

/-- Whether decimal digits are those of an integer without superfluous zeros. -/
def isPlainInteger (digits : List Char) : Bool :=
  digits.length = 1 || digits.head? ≠ some '0'

/-- Reads the fraction of a float. -/
def readFraction : Reader (List Char)
  | '.' :: cs => readDigits Char.isDigit cs
  | cs => some ([], cs)

/-- Reads the exponent of a float. -/
def readExponent (cs : List Char) : Option (Option Int × List Char) :=
  match cs with
  | c :: rest =>
    if c = 'e' || c = 'E' then do
      let (sign, rest) := Yaml.Scalar.sign rest
      let (digits, rest) ← readDigits Char.isDigit rest
      let n ← Yaml.Scalar.digits? 10 digits
      some (some (if sign = some '-' then -(n : Int) else n), rest)
    else some (none, cs)
  | [] => some (none, cs)

/-- Reads a decimal number after its sign. -/
def readDecimal (negative : Bool) (cs : List Char) : Option (Datum × List Char) := do
  let (whole, cs) ← readDigits Char.isDigit cs
  if !isPlainInteger whole then none
  else
    let hasFraction := cs.head? = some '.'
    let (fraction, cs) ← readFraction cs
    let (exponent, cs) ← readExponent cs
    if hasFraction || exponent.isSome then
      let digits ← Yaml.Scalar.digits? 10 (whole ++ fraction)
      match Decimal.Binary64.ofDecimal negative digits (exponent.getD 0 - fraction.length) with
      | .infinite false => none
      | x => some (.float x, cs)
    else
      let d ← integer? negative ((Yaml.Scalar.digits? 10 whole).getD 0)
      some (d, cs)

/-- Reads a number. -/
def readNumber (cs : List Char) : Option (Datum × List Char) :=
  match cs with
  | '0' :: 'x' :: cs => readBased 16 cs
  | '0' :: 'o' :: cs => readBased 8 cs
  | '0' :: 'b' :: cs => readBased 2 cs
  | cs =>
    let (sign, rest) := Yaml.Scalar.sign cs
    let negative := sign = some '-'
    match rest with
    | 'i' :: 'n' :: 'f' :: rest => some (.float (.infinite negative), rest)
    | 'n' :: 'a' :: 'n' :: rest => some (.float .nan, rest)
    | rest => readDecimal negative rest

/-! ## Dates and times -/

/-- Reads exactly `width` digits of a number between bounds. -/
def readField (width low high : Nat) (cs : List Char) : Option (Nat × List Char) :=
  let digits := cs.take width
  if digits.length = width && digits.all Char.isDigit then
    match Yaml.Scalar.digits? 10 digits with
    | some n => if low ≤ n ∧ n ≤ high then some (n, cs.drop width) else none
    | none => none
  else none

/-- Passes the character `c`. -/
def pass (c : Char) : List Char → Option (List Char)
  | d :: cs => if d = c then some cs else none
  | [] => none

/-- Passes a date. -/
def passDate (cs : List Char) : Option (List Char) := do
  let (year, cs) ← readField 4 0 9999 cs
  let cs ← pass '-' cs
  let (month, cs) ← readField 2 1 12 cs
  let cs ← pass '-' cs
  let (_, cs) ← readField 2 1 (Date.monthLength year month) cs
  some cs

/-- Passes a time of day. -/
def passTime (cs : List Char) : Option (List Char) := do
  let (_, cs) ← readField 2 0 23 cs
  let cs ← pass ':' cs
  let (_, cs) ← readField 2 0 59 cs
  let cs ← pass ':' cs
  let (_, cs) ← readField 2 0 60 cs
  match cs with
  | '.' :: rest =>
    let digits := rest.takeWhile Char.isDigit
    if digits.isEmpty then none else some (rest.drop digits.length)
  | cs => some cs

/-- Passes the offset of a time, if one is next. -/
def passOffset (cs : List Char) : Option (List Char) :=
  match cs with
  | c :: rest =>
    if c = 'Z' || c = 'z' then some rest
    else if c = '+' || c = '-' then do
      let (_, rest) ← readField 2 0 23 rest
      let rest ← pass ':' rest
      let (_, rest) ← readField 2 0 59 rest
      some rest
    else some cs
  | [] => some cs

/-- Passes the time after a date, if one is next. -/
def passDayTime (cs : List Char) : Option (List Char) :=
  match cs with
  | c :: d :: rest =>
    if c = 'T' || c = 't' || (c = ' ' && d.isDigit) then do passOffset (← passTime (d :: rest))
    else some cs
  | cs => some cs

/-- Whether the text goes on like a date or a time. -/
def looksLikeTime (cs : List Char) : Bool :=
  let digits := (cs.takeWhile Char.isDigit).length
  (digits = 4 && (cs.drop 4).head? = some '-') || (digits = 2 && (cs.drop 2).head? = some ':')

/-- Reads a date, a time or both. -/
def readTime (cs : List Char) : Option (Datum × List Char) := do
  let rest ← if (cs.drop 2).head? = some ':' then passTime cs
    else do passDayTime (← passDate cs)
  let text := String.ofList (cs.take (cs.length - rest.length))
  some (.object [("datetime", .string text)], rest)

end FolderCommands.Toml
