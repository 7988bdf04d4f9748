import FolderCommands.Catalog
import FolderCommands.Text.Lines

/-!
# Diagnostics

What can be wrong with the text of a manifest before its YAML is read. A diagnostic is a problem
at a line, and for tabs at a column.
-/

namespace FolderCommands.Grammar

inductive Severity where
  | error
  | warning
deriving DecidableEq, Repr

/-- The rules that the text of a manifest must obey. -/
inductive Rule where
  | noTabs
  | declaration
  | commandSet
  | separator
  | command
  | attributes
  | trailingContent
deriving DecidableEq, Repr

/-- The name of a rule in reports. -/
def Rule.name : Rule → String
  | noTabs => "no_tabs"
  | declaration => "declaration"
  | commandSet => "command_set"
  | separator => "separator"
  | command => "command"
  | attributes => "attribute"
  | trailingContent => "trailing_content"

/-- What is wrong with a line. -/
inductive Problem where
  | tab
  /-- A separator line that holds something else too. -/
  | crowdedSeparator (line : String)
  | notDeclaration (line : String)
  /-- A declaration where the header should be. -/
  | headerExpected (found : String)
  | unknownSet (value : String)
  | missingHeader
  | separatorExpected (set : CommandSet) (found : String)
  | commandExpected (found : String)
  | unknownCommand (set : CommandSet) (value : String)
  | foreignAttribute (spec : CommandSpec) (found : String)
  /-- Lines after the end of the content. -/
  | ignoredLines (count : Nat)
deriving DecidableEq, Repr

namespace Problem

/-- The rule that is broken. -/
def rule : Problem → Rule
  | tab => .noTabs
  | crowdedSeparator _ | notDeclaration _ => .declaration
  | headerExpected _ | unknownSet _ | missingHeader => .commandSet
  | separatorExpected .. => .separator
  | commandExpected _ | unknownCommand .. => .command
  | foreignAttribute .. => .attributes
  | ignoredLines _ => .trailingContent

/-- Only lines that are ignored leave a manifest acceptable. -/
def severity : Problem → Severity
  | ignoredLines _ => .warning
  | _ => .error

/-- The text of a problem. -/
def message : Problem → String
  | tab => "tab character found; indent with spaces"
  | crowdedSeparator line => "a document separator must stand alone, found '" ++ line ++ "'"
  | notDeclaration line => "expected a 'key: value' declaration, found '" ++ line ++ "'"
  | headerExpected found =>
    "manifest must begin with 'command_set: <name>', found '" ++ found ++ "'"
  | unknownSet value => "'" ++ value ++ "' is not a valid command_set"
  | missingHeader => "manifest does not declare a command_set"
  | separatorExpected set found =>
    "expected '---' after 'command_set: " ++ set.name ++ "', found '" ++ found ++ "'"
  | commandExpected found => "expected 'command: <name>', found '" ++ found ++ "'"
  | unknownCommand set value =>
    "'" ++ value ++ "' is not a command of command_set '" ++ set.name ++ "' (allowed: " ++
      Text.joinWith ", " set.commandNames ++ ")"
  | foreignAttribute spec found =>
    "'" ++ found ++ "' is not valid in command '" ++ spec.name ++ "'"
  | ignoredLines count =>
    toString count ++ " line(s) after the end-of-content marker are ignored"

end Problem

/-- A problem and where it is. -/
structure Diagnostic where
  problem : Problem
  /-- Counted from one. -/
  line : Nat
  /-- The byte position in the line, counted from one, where one is known. -/
  column : Option Nat := none
deriving DecidableEq, Repr

namespace Diagnostic

def rule (d : Diagnostic) : Rule :=
  d.problem.rule

def severity (d : Diagnostic) : Severity :=
  d.problem.severity

def isError (d : Diagnostic) : Bool :=
  d.severity == .error

/-- How a diagnostic is shown. -/
def display (d : Diagnostic) : String :=
  "line " ++ toString d.line ++
    (match d.column with
      | some column => ", col " ++ toString column
      | none => "") ++ ": " ++ d.problem.message

end Diagnostic

end FolderCommands.Grammar
