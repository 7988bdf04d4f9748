import FolderCommands.Grammar.Diagnostic
import FolderCommands.Grammar.Line

/-!
# Checking the lines of a manifest

The check runs over the text line by line, before any YAML is read. It stops at the first line
that ends the content and at the first structural error; a tab is reported and changes nothing
else. What is in front of the end marker is the meaningful part of the text.
-/

namespace FolderCommands.Grammar

/-- What the next line should be. -/
inductive Expectation where
  | header
  | separator (set : CommandSet)
  | command (set : CommandSet)
  | attributes (set : CommandSet) (spec : CommandSpec)
deriving DecidableEq, Repr

/-- The command set that has been declared. -/
def Expectation.commandSet? : Expectation → Option CommandSet
  | header => none
  | separator set | command set | attributes set _ => some set

/-- What a line leads to. -/
inductive Verdict where
  | accept (next : Expectation)
  | reject (problem : Problem)
deriving DecidableEq, Repr

/-- What is expected after a separator. -/
def Expectation.afterSeparator (expect : Expectation) : Expectation :=
  match expect.commandSet? with
  | none => .header
  | some set => .command set

/-- Judges a declaration. -/
def judgeDeclaration (expect : Expectation) (d : Declaration) : Verdict :=
  match expect with
  | .header =>
    if d.key ≠ "command_set" then .reject (.headerExpected d.key)
    else match CommandSet.find? d.value with
      | some set => .accept (.separator set)
      | none => .reject (.unknownSet d.value)
  | .separator set => .reject (.separatorExpected set d.key)
  | .command set =>
    if d.key ≠ "command" then .reject (.commandExpected d.key)
    else match set.command? d.value with
      | some spec => .accept (.attributes set spec)
      | none => .reject (.unknownCommand set d.value)
  | .attributes set spec =>
    if spec.allows d.key then .accept (.attributes set spec)
    else .reject (.foreignAttribute spec d.key)

/-- Judges a line that does not end the content. -/
def judge (expect : Expectation) (line : List Char) : Verdict :=
  let trimmed := Text.trim line
  if opensSeparator trimmed then
    if isSeparator line then .accept expect.afterSeparator
    else .reject (.crowdedSeparator (String.ofList trimmed))
  else match declaration? line with
    | none => .reject (.notDeclaration (String.ofList trimmed))
    | some d => judgeDeclaration expect d

/-- The diagnostic for a tab in a line. -/
def tabDiagnostics (number : Nat) (line : List Char) : List Diagnostic :=
  match tabColumn? line with
  | some column => [⟨.tab, number, some column⟩]
  | none => []

/-- The lines that would have counted had they not come after the end marker. -/
def countIgnored (rest : List Char) : Nat :=
  ((Text.lines rest).filter fun line ↦
    let trimmed := Text.trim line
    !trimmed.isEmpty && trimmed.head? ≠ some '#').length

/-- The warning for what follows the end marker at line `number`. -/
def trailingDiagnostics (number : Nat) (rest : List Char) : List Diagnostic :=
  match countIgnored rest with
  | 0 => []
  | count => [⟨.ignoredLines count, number, none⟩]

/-- What a scan over lines has found. -/
structure Scan where
  diagnostics : List Diagnostic
  expect : Expectation
  /-- The text that counts. -/
  meaningful : List Char
  /-- The number of the last line that was judged. -/
  lastLine : Nat
deriving DecidableEq, Repr

/-- Scans lines of which the first has the number `number`. -/
def scanLines (expect : Expectation) (number : Nat) : List (List Char) → Scan
  | [] => ⟨[], expect, [], number - 1⟩
  | raw :: rest =>
    let line := lineContent raw
    if endsContent (Text.trim line) then
      ⟨trailingDiagnostics number rest.flatten, expect, [], number - 1⟩
    else match judge expect line with
      | .reject problem =>
        ⟨tabDiagnostics number line ++ [⟨problem, number, none⟩], expect, raw ++ rest.flatten,
          number⟩
      | .accept next =>
        let scan := scanLines next (number + 1) rest
        { scan with
          diagnostics := tabDiagnostics number line ++ scan.diagnostics
          meaningful := raw ++ scan.meaningful }

/-- The diagnostic for a text that never declares a command set. -/
def headerDiagnostics (scan : Scan) : List Diagnostic :=
  if scan.expect = .header ∧ scan.diagnostics.all (fun d ↦ d.rule ≠ .commandSet) then
    [⟨.missingHeader, max scan.lastLine 1, none⟩]
  else []

/-- The outcome of checking a text. -/
structure Validation where
  diagnostics : List Diagnostic
  /-- The declared command set. -/
  commandSet : Option CommandSet
  /-- The part of the text that was checked and may be parsed. -/
  meaningful : String
deriving DecidableEq, Repr

/-- Checks the text of a manifest. -/
def validate (source : String) : Validation :=
  let scan := scanLines .header 1 (Text.rawLines source.toList)
  ⟨scan.diagnostics ++ headerDiagnostics scan, scan.expect.commandSet?,
    String.ofList scan.meaningful⟩

namespace Validation

/-- The diagnostics that make a text unacceptable. -/
def errors (v : Validation) : List Diagnostic :=
  v.diagnostics.filter (·.isError)

def hasErrors (v : Validation) : Bool :=
  v.diagnostics.any (·.isError)

/-- The length of the meaningful part in bytes. -/
def meaningfulLength (v : Validation) : Nat :=
  Text.byteLength v.meaningful.toList

end Validation

end FolderCommands.Grammar
