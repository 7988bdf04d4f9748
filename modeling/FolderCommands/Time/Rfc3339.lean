import FolderCommands.Text.Blank
import FolderCommands.Text.Utf8
import FolderCommands.Time.Instant

/-!
# Timestamps

Instants are written in universal time with as many fraction digits as they need, in groups of
three. Reading is lenient: blanks may stand around the numbers, a year may have a sign, and the
offset may be a name, a letter or hours and minutes.
-/

namespace FolderCommands.Rfc3339

/-! ## Writing -/

/-- A number with zeros in front up to a width. -/
def padded (width n : Nat) : String :=
  let digits := toString n
  String.ofList (List.replicate (width - digits.length) '0') ++ digits

/-- A year; one that does not have four digits carries a sign. -/
def year (y : Int) : String :=
  if 0 ≤ y ∧ y ≤ 9999 then padded 4 y.toNat
  else (if y < 0 then "-" else "+") ++ padded 4 y.natAbs

/-- The fraction of a second. -/
def fraction (nanos : Nat) : String :=
  if nanos = 0 then ""
  else if nanos % 1000000 = 0 then "." ++ padded 3 (nanos / 1000000)
  else if nanos % 1000 = 0 then "." ++ padded 6 (nanos / 1000)
  else "." ++ padded 9 nanos

/-- The written form of an instant. -/
def render (t : Instant) : String :=
  let date := Date.ofDays t.days
  let second := t.second % 60 + t.nanos / 1000000000
  year date.year ++ "-" ++ padded 2 date.month ++ "-" ++ padded 2 date.day ++ "T" ++
    padded 2 (t.second / 3600) ++ ":" ++ padded 2 (t.second / 60 % 60) ++ ":" ++
    padded 2 second ++ fraction (t.nanos % 1000000000) ++ "Z"

/-! ## Reading -/

/-- Why a text is no timestamp. -/
inductive Fault where
  | tooShort
  | tooLong
  | invalid
  | outOfRange
  | impossible
deriving DecidableEq, Repr

/-- The text of a fault. -/
def Fault.message : Fault → String
  | tooShort => "premature end of input"
  | tooLong => "trailing input"
  | invalid => "input contains invalid characters"
  | outOfRange => "input is out of range"
  | impossible => "no possible date and time matching input"

/-- Passes blanks. -/
def skipBlanks (cs : List Char) : List Char :=
  cs.dropWhile Text.isBlank

/-- Reads a number of at least one digit and at most `width`, if that is given. -/
def number (width : Option Nat) (cs : List Char) : Except Fault (Nat × List Char) :=
  let digits := cs.takeWhile Char.isDigit
  let digits := match width with
    | some w => digits.take w
    | none => digits
  if cs.isEmpty then .error .tooShort
  else if digits.isEmpty then .error .invalid
  else
    let n := digits.foldl (fun n d ↦ 10 * n + (d.toNat - 48)) 0
    if n < Nat.pow 2 63 then .ok (n, cs.drop digits.length) else .error .outOfRange

/-- Reads a number of two digits between bounds, with blanks in front. -/
def bounded (low high : Nat) (cs : List Char) : Except Fault (Nat × List Char) := do
  let (n, cs) ← number (some 2) (skipBlanks cs)
  if low ≤ n ∧ n ≤ high then .ok (n, cs) else .error .outOfRange

/-- Reads a year. Without a sign it has at most four digits. -/
def readYear (cs : List Char) : Except Fault (Int × List Char) := do
  let (y, cs) ← match skipBlanks cs with
    | '-' :: cs => (number none cs).map fun (n, cs) ↦ (-(n : Int), cs)
    | '+' :: cs => (number none cs).map fun (n, cs) ↦ ((n : Int), cs)
    | cs => (number (some 4) cs).map fun (n, cs) ↦ ((n : Int), cs)
  if -(Nat.pow 2 31 : Int) ≤ y ∧ y < (Nat.pow 2 31 : Int) then .ok (y, cs) else .error .outOfRange

/-- Passes blanks and the character `c`. -/
def literal (c : Char) (cs : List Char) : Except Fault (List Char) :=
  match skipBlanks cs with
  | [] => .error .tooShort
  | d :: cs => if d = c then .ok cs else .error .invalid

/-- Passes the letter or blank between date and time. -/
def separator (cs : List Char) : Except Fault (List Char) :=
  match cs with
  | [] => .error .tooShort
  | c :: cs => if c = 't' || c = 'T' || c = ' ' then .ok cs else .error .invalid

/-- Reads the fraction of a second in nanoseconds; digits after the ninth do not count. -/
def readFraction (cs : List Char) : Except Fault (Nat × List Char) :=
  match cs with
  | '.' :: cs => do
    let (n, rest) ← number (some 9) cs
    let width := cs.length - rest.length
    .ok (n * Nat.pow 10 (9 - width), rest.dropWhile Char.isDigit)
  | cs => .ok (0, cs)

/-- Reads two digits of an offset, of which the first is at most `limit`. -/
def offsetDigits (limit : Char) (cs : List Char) : Except Fault (Nat × List Char) :=
  match cs with
  | a :: b :: rest =>
    if a.isDigit && b.isDigit then
      if a ≤ limit then .ok (10 * (a.toNat - 48) + (b.toNat - 48), rest) else .error .outOfRange
    else .error .invalid
  | cs => if 2 ≤ Text.byteLength cs then .error .invalid else .error .tooShort

/-- Reads hours and minutes of an offset in seconds. -/
def readHours (cs : List Char) : Except Fault (Nat × List Char) := do
  let (hours, cs) ← offsetDigits '9' cs
  let cs := cs.dropWhile fun c ↦ c = ':' || Text.isBlank c
  let (minutes, cs) ← offsetDigits '5' cs
  .ok (hours * 3600 + minutes * 60, cs)

/-- Reads the offset from universal time in seconds. -/
def readOffset (cs : List Char) : Except Fault (Int × List Char) :=
  match cs with
  | [] => .error .tooShort
  | c :: rest =>
    if (cs.take 3).map Char.toUpper = ['U', 'T', 'C'] then .ok (0, cs.drop 3)
    else if c = 'Z' || c = 'z' then .ok (0, rest)
    else if c = '+' then (readHours rest).map fun (n, cs) ↦ ((n : Int), cs)
    else if c = '-' || c = '−' then (readHours rest).map fun (n, cs) ↦ (-(n : Int), cs)
    else .error .invalid

/-- The instant of a date and time at an offset; the second may be 60. -/
def instant (date : Date) (hour minute second nanos : Nat) (offset : Int) :
    Except Fault Instant :=
  if !date.isValid || 86400 ≤ offset.natAbs then .error .outOfRange
  else
    let leap := second = 60
    let reading := date.toDays * 86400 + hour * 3600 + minute * 60 + (if leap then 59 else second)
    let t := reading - offset
    let days := t / 86400
    if (Date.ofDays days).isValid then
      .ok ⟨days, (t % 86400).toNat, if leap then nanos + 1000000000 else nanos⟩
    else .error .impossible

/-- Reads a timestamp. -/
def parse (s : String) : Except Fault Instant := do
  let (year, cs) ← readYear s.toList
  let cs ← literal '-' cs
  let (month, cs) ← bounded 1 12 cs
  let cs ← literal '-' cs
  let (day, cs) ← bounded 1 31 cs
  let cs ← separator cs
  let (hour, cs) ← bounded 0 23 cs
  let cs ← literal ':' cs
  let (minute, cs) ← bounded 0 59 cs
  let cs ← literal ':' cs
  let (second, cs) ← bounded 0 60 cs
  let (nanos, cs) ← readFraction cs
  let (offset, cs) ← readOffset (skipBlanks cs)
  if !(skipBlanks cs).isEmpty then .error .tooLong
  else instant ⟨year, month, day⟩ hour minute second nanos offset

end FolderCommands.Rfc3339
