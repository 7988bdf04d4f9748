/-!
# What can be wrong with YAML

One constructor per cause, from the characters of a text up to the values it stands for.
-/

namespace FolderCommands.Yaml

/-- Why a text is not accepted as YAML. -/
inductive Fault where
  | forbiddenCharacter
  | strayCharacter
  | tabIndentation
  /-- A key that had to be one and was not followed by a colon in time. -/
  | keyWithoutColon
  | misplacedEntry
  | misplacedKey
  | misplacedValue
  | strayColon
  | badDirective
  | badAnchor
  | badTag
  | badEscape
  | openScalar
  | badBlockHeader
  | incompatibleVersion
  | repeatedDirective
  | documentStartExpected
  | undefinedTagHandle
  | nodeExpected
  | entryExpected
  | unknownAlias
  | tooManyAliases
  | tooDeep
  | repeatedKey
  | scalarOfWrongType
  | numberTooLarge
  | severalDocuments
  | mappingExpected
  /-- The limit on the number of steps was too small. -/
  | stepLimit
deriving DecidableEq, Repr

namespace Fault

/-- The text of a fault. -/
def message : Fault → String
  | forbiddenCharacter => "control characters are not allowed"
  | strayCharacter => "found character that cannot start any token"
  | tabIndentation => "found a tab character where indentation is expected"
  | keyWithoutColon => "could not find expected ':'"
  | misplacedEntry => "block sequence entries are not allowed in this context"
  | misplacedKey => "mapping keys are not allowed in this context"
  | misplacedValue => "mapping values are not allowed in this context"
  | strayColon => "found unexpected ':'"
  | badDirective => "found a malformed directive"
  | badAnchor => "did not find expected alphabetic or numeric character"
  | badTag => "found a malformed tag"
  | badEscape => "found unknown escape character"
  | openScalar => "found unexpected end of a quoted scalar"
  | badBlockHeader => "found a malformed block scalar header"
  | incompatibleVersion => "found incompatible YAML document"
  | repeatedDirective => "found duplicate directive"
  | documentStartExpected => "did not find expected <document start>"
  | undefinedTagHandle => "found undefined tag handle"
  | nodeExpected => "did not find expected node content"
  | entryExpected => "did not find expected entry or end of collection"
  | unknownAlias => "unknown anchor"
  | tooManyAliases => "repetition limit exceeded"
  | tooDeep => "recursion limit exceeded"
  | repeatedKey => "duplicate entry in mapping"
  | scalarOfWrongType => "scalar does not have the type of its tag"
  | numberTooLarge => "integer out of range"
  | severalDocuments => "more than one document"
  | mappingExpected => "expected a YAML mapping"
  | stepLimit => "text too long"

end Fault

end FolderCommands.Yaml
