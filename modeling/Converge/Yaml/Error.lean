/-!
# Failures of reading YAML

## Main Definitions

* `Yaml.Error` — why a text could not be read.
* `Yaml.Error.message` — the words for it.
-/

namespace Converge.Yaml

/-- Why a text could not be read. -/
inductive Error where
  /-- A character that no text may contain. -/
  | forbiddenCharacter
  /-- A character that begins no token. -/
  | noToken
  /-- An entry, a key or a value where none can stand. -/
  | misplaced (what : String)
  /-- A key without its colon. -/
  | missingColon
  /-- A colon that cannot end a plain scalar. -/
  | unexpectedColon
  /-- A tab where the indentation is counted. -/
  | tab
  /-- The end of the text inside of quotes. -/
  | openQuote
  /-- A document mark inside of quotes. -/
  | markInQuotes
  /-- An escape that stands for no character. -/
  | badEscape
  /-- The head of a block scalar. -/
  | badBlockHead
  | badDirective
  | badAnchor
  | badTag
  /-- What was expected after the tokens read so far. -/
  | expected (what : String)
  | undefinedTagHandle
  | unknownAnchor
  | severalDocuments
  /-- Collections inside of one another beyond the limit. -/
  | tooDeep
  /-- More uses of aliases than the limit. -/
  | tooManyAliases
  /-- A value of another type than its tag says, or than was asked for. -/
  | wrongType (expected : String)
  | unknownTag
  | outOfRange
  | repeatedField (name : String)
  | invalidValue (message : String)
  deriving Repr, DecidableEq

/-- The words for a failed reading. -/
def Error.message : Error → String
  | .forbiddenCharacter => "control characters are not allowed"
  | .noToken => "found character that cannot start any token"
  | .misplaced what => what ++ " are not allowed in this context"
  | .missingColon => "could not find expected ':'"
  | .unexpectedColon => "found unexpected ':'"
  | .tab => "found a tab character where an indentation space is expected"
  | .openQuote => "found unexpected end of stream"
  | .markInQuotes => "found unexpected document indicator"
  | .badEscape => "found unknown escape character"
  | .badBlockHead => "did not find expected comment or line break"
  | .badDirective => "found unknown directive name"
  | .badAnchor => "did not find expected alphabetic or numeric character"
  | .badTag => "did not find expected tag URI"
  | .expected what => "did not find expected " ++ what
  | .undefinedTagHandle => "found undefined tag handle"
  | .unknownAnchor => "unknown anchor"
  | .severalDocuments => "more than one document"
  | .tooDeep => "recursion limit exceeded"
  | .tooManyAliases => "repetition limit exceeded"
  | .wrongType wanted => "invalid type, expected " ++ wanted
  | .unknownTag => "unknown tag"
  | .outOfRange => "integer out of range"
  | .repeatedField name => "duplicate field " ++ name
  | .invalidValue message => message

end Converge.Yaml
