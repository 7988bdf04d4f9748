import FolderCommands.Yaml.FlowScalar

/-!
# Text of TOML

White space, comments, strings and keys. A reader gives what it has read and what is left, or
nothing if the text is not as it should be. Line breaks inside strings count as line feeds.
-/

namespace FolderCommands.Toml

/-- A reader of the front of a text. -/
abbrev Reader (α : Type) := List Char → Option (α × List Char)

def isGap (c : Char) : Bool :=
  c = ' ' || c = '\t'

/-- The characters that may stand anywhere in a line. -/
def isPrintable (c : Char) : Bool :=
  c = '\t' || (0x20 ≤ c.toNat && c.toNat ≠ 0x7F)

/-- Passes white space within a line. -/
def skipGap (cs : List Char) : List Char :=
  cs.dropWhile isGap

/-- Passes a line break, if one is next. -/
def lineBreak? : List Char → Option (List Char)
  | '\n' :: cs => some cs
  | '\r' :: '\n' :: cs => some cs
  | _ => none

/-- Passes a comment, if one is next. -/
def skipComment : List Char → List Char
  | '#' :: cs => cs.dropWhile isPrintable
  | cs => cs

/-- Passes the end of a line: white space, a comment and the break, or the end of the text. -/
def endLine (cs : List Char) : Option (List Char) :=
  match skipComment (skipGap cs) with
  | [] => some []
  | cs => lineBreak? cs

/-- Passes white space, comments and line breaks; each step passes a character. -/
def skipBlank : Nat → List Char → List Char
  | 0, cs => cs
  | fuel + 1, cs =>
    let rest := skipComment (skipGap cs)
    match lineBreak? rest with
    | some rest => skipBlank fuel rest
    | none => rest

/-! ## Strings -/

/-- The character of a hexadecimal number of `width` digits. -/
def readCode (width : Nat) (cs : List Char) : Option (Char × List Char) :=
  let digits := cs.take width
  if digits.length < width then none
  else match digits.mapM Yaml.hexValue? with
    | some values =>
      (Yaml.character? (values.foldl (fun n d ↦ 16 * n + d) 0)).map fun c ↦ (c, cs.drop width)
    | none => none

/-- Reads an escape after its backslash. -/
def readEscape : Reader Char
  | [] => none
  | c :: cs =>
    match c with
    | 'b' => some ('\x08', cs)
    | 't' => some ('\t', cs)
    | 'n' => some ('\n', cs)
    | 'f' => some ('\x0c', cs)
    | 'r' => some ('\r', cs)
    | '"' => some ('"', cs)
    | '\\' => some ('\\', cs)
    | 'u' => readCode 4 cs
    | 'U' => readCode 8 cs
    | _ => none

/-- Reads a string of one line after its opening quote. -/
def readLine (quote : Char) : Nat → Reader (List Char)
  | 0, _ => none
  | _, [] => none
  | fuel + 1, c :: cs =>
    if c = quote then some ([], cs)
    else if c = '\\' && quote = '"' then do
      let (d, cs) ← readEscape cs
      let (text, cs) ← readLine quote fuel cs
      some (d :: text, cs)
    else if isPrintable c then do
      let (text, cs) ← readLine quote fuel cs
      some (c :: text, cs)
    else none

/-- Passes white space and line breaks. -/
def skipWhite : List Char → List Char
  | '\n' :: cs => skipWhite cs
  | '\r' :: '\n' :: cs => skipWhite cs
  | c :: cs => if isGap c then skipWhite cs else c :: cs
  | [] => []

/-- Passes the rest of a line that a backslash ends and the blank text after it. -/
def skipContinuation (cs : List Char) : Option (List Char) :=
  (lineBreak? (skipGap cs)).map skipWhite

/-- Reads a string of several lines after its opening quotes; up to two quotes may stand in front
of the closing ones. -/
def readLines (quote : Char) : Nat → Reader (List Char)
  | 0, _ => none
  | _, [] => none
  | fuel + 1, c :: cs =>
    if c = quote then
      let quotes := (c :: cs).takeWhile (· = quote)
      if 3 ≤ quotes.length then
        let inside := min (quotes.length - 3) 2
        some (List.replicate inside quote, (c :: cs).drop (inside + 3))
      else do
        let (text, cs) ← readLines quote fuel cs
        some (c :: text, cs)
    else if c = '\\' && quote = '"' then
      match skipContinuation cs with
      | some cs => readLines quote fuel cs
      | none => do
        let (d, cs) ← readEscape cs
        let (text, cs) ← readLines quote fuel cs
        some (d :: text, cs)
    else match lineBreak? (c :: cs) with
      | some cs => do
        let (text, cs) ← readLines quote fuel cs
        some ('\n' :: text, cs)
      | none =>
        if isPrintable c then do
          let (text, cs) ← readLines quote fuel cs
          some (c :: text, cs)
        else none

/-- Reads a string of any kind. -/
def readString : Reader String
  | c :: cs =>
    if c = '"' || c = '\'' then
      let result := match cs with
        | d :: e :: rest =>
          if d = c && e = c then readLines c rest.length.succ ((lineBreak? rest).getD rest)
          else readLine c cs.length.succ cs
        | cs => readLine c cs.length.succ cs
      result.map fun (text, cs) ↦ (String.ofList text, cs)
    else none
  | [] => none

/-! ## Keys -/

/-- The characters of keys that are not quoted. -/
def isBare (c : Char) : Bool :=
  c.isAlphanum || c = '_' || c = '-'

/-- Reads one part of a key. -/
def readPart (cs : List Char) : Option (String × List Char) :=
  match cs with
  | [] => none
  | c :: rest =>
    if c = '"' || c = '\'' then
      (readLine c rest.length.succ rest).map fun (text, cs) ↦ (String.ofList text, cs)
    else
      let name := cs.takeWhile isBare
      if name.isEmpty then none else some (String.ofList name, cs.drop name.length)

/-- How deep keys, arrays and tables may be nested. -/
def depthLimit : Nat :=
  80

/-- Reads the parts of a key between dots, with white space around them. -/
def readParts : Nat → Reader (List String)
  | 0, _ => none
  | fuel + 1, cs => do
    let (part, cs) ← readPart (skipGap cs)
    match skipGap cs with
    | '.' :: cs => do
      let (parts, cs) ← readParts fuel cs
      some (part :: parts, cs)
    | cs => some ([part], cs)

/-- Reads a key. -/
def readKey (cs : List Char) : Option (List String × List Char) :=
  readParts (depthLimit - 1) cs

end FolderCommands.Toml
