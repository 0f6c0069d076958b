/-!
# What can be wrong with a YAML text
-/

namespace Variation.Yaml

/-- Why a text is no YAML document. -/
inductive Fault where
  /-- A character that no text may hold. -/
  | forbiddenCharacter
  /-- No token starts with this character. -/
  | unexpectedCharacter
  /-- A tab where only spaces can indent. -/
  | tabIndentation
  /-- What has to be a key is not followed by a colon. -/
  | missingColon
  /-- An item, a key or a value where none may start. -/
  | misplacedEntry
  /-- A directive of another name, or one that is written wrongly. -/
  | badDirective
  /-- Two version directives, or two that name the same handle. -/
  | repeatedDirective
  | badVersion
  | badAnchor
  | badTag
  | unknownHandle
  /-- The first line of a block scalar is written wrongly. -/
  | badBlockHeader
  /-- A quoted text does not end, or a mark of a document stands inside it. -/
  | unclosedQuote
  | badEscape
  | expectedDocument
  | expectedNode
  | expectedItem
  | expectedKey
  | expectedListMark
  | expectedMappingMark
  /-- The stream holds a second document. -/
  | secondDocument
  | unknownAnchor
  /-- Containers are nested too deeply, or an anchored node holds itself. -/
  | tooDeep
  /-- Aliases multiply the nodes beyond all measure. -/
  | tooManyAliases
  /-- The key of a mapping is a container. -/
  | keyNotText
  /-- A tag asks for a kind of scalar that the text does not spell. -/
  | tagMismatch
  /-- A tag of one's own, which no document can hold. -/
  | customTag
  /-- A whole number needs more than 64 bits. -/
  | numberTooLarge
  /-- The reader stopped for want of steps; the steps that it is given are always enough. -/
  | outOfSteps
deriving DecidableEq

/-- What is wrong, in words. -/
def Fault.reason : Fault → String
  | .forbiddenCharacter => "control characters are not allowed"
  | .unexpectedCharacter => "found character that cannot start any token"
  | .tabIndentation => "found a tab character where an indentation space is expected"
  | .missingColon => "could not find expected ':'"
  | .misplacedEntry => "block collections are not allowed in this context"
  | .badDirective => "found an unknown or malformed directive"
  | .repeatedDirective => "found a duplicate directive"
  | .badVersion => "found incompatible YAML document"
  | .badAnchor => "did not find expected alphabetic or numeric character"
  | .badTag => "did not find expected tag"
  | .unknownHandle => "found undefined tag handle"
  | .badBlockHeader => "did not find expected comment or line break"
  | .unclosedQuote => "found unexpected end of quoted scalar"
  | .badEscape => "found unknown escape character"
  | .expectedDocument => "did not find expected <document start>"
  | .expectedNode => "did not find expected node content"
  | .expectedItem => "did not find expected '-' indicator"
  | .expectedKey => "did not find expected key"
  | .expectedListMark => "did not find expected ',' or ']'"
  | .expectedMappingMark => "did not find expected ',' or '\x7d'"
  | .secondDocument => "more than one document"
  | .unknownAnchor => "unknown anchor"
  | .tooDeep => "recursion limit exceeded"
  | .tooManyAliases => "repetition limit exceeded"
  | .keyNotText => "expected a string key"
  | .tagMismatch => "scalar does not match its tag"
  | .customTag => "unexpected custom tag"
  | .numberTooLarge => "integer out of range"
  | .outOfSteps => "out of steps"

end Variation.Yaml
