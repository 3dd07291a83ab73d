/-!
# Why a YAML text cannot be read

The causes for which a text is no YAML stream, is no single document, or has another shape than its
reader asks for.
-/

namespace ToolGate.Yaml

/-- Why a YAML text could not be read. -/
inductive Error where
  /-- A control character stands in the text. -/
  | controlCharacter
  /-- No token begins with this character. -/
  | strayCharacter
  /-- A key that had to be followed by a colon was not. -/
  | missingColon
  /-- A list entry, key or value indicator stands where none may. -/
  | misplacedIndicator
  /-- A line beginning with a percent sign is no directive. -/
  | badDirective
  /-- A tag is not well formed. -/
  | badTag
  /-- A tag uses a handle that no directive defines. -/
  | undefinedHandle
  /-- An anchor or alias has no name, or its name does not end properly. -/
  | badAnchor
  /-- No anchor of this name stands before the alias. -/
  | unknownAnchor
  /-- The header of a block scalar is not well formed. -/
  | badBlockHeader
  /-- A tab stands where indentation must be spaces. -/
  | tabIndentation
  /-- A quoted scalar is not closed. -/
  | unclosedQuote
  /-- A document marker stands inside a quoted scalar. -/
  | markerInQuote
  /-- An escape of a quoted scalar is not well formed. -/
  | badEscape
  /-- A colon inside a flow collection touches an indicator. -/
  | strayColon
  /-- The structure of collections is broken at some token. -/
  | unexpectedToken
  /-- The stream holds a second document. -/
  | secondDocument
  /-- Aliases stand for too much text. -/
  | tooManyAliases
  /-- Collections are nested too deep. -/
  | tooDeep
  /-- A value has another shape. -/
  | expected (what : String)
  /-- A record lacks a field. -/
  | missing (field : String)
  /-- A record has a field twice. -/
  | repeated (field : String)
  /-- A word is not in its vocabulary. -/
  | unknown (word : String)
deriving DecidableEq, Repr

namespace Error

def cause : Error → String
  | .controlCharacter => "control characters are not allowed"
  | .strayCharacter => "found a character that cannot start any token"
  | .missingColon => "could not find the colon of a key"
  | .misplacedIndicator => "an indicator is not allowed in this context"
  | .badDirective => "a directive is not well formed"
  | .badTag => "a tag is not well formed"
  | .undefinedHandle => "a tag handle is not defined"
  | .badAnchor => "an anchor is not well formed"
  | .unknownAnchor => "an alias has no anchor"
  | .badBlockHeader => "the header of a block scalar is not well formed"
  | .tabIndentation => "a tab stands where indentation is expected"
  | .unclosedQuote => "a quoted scalar is not closed"
  | .markerInQuote => "a document marker stands inside a quoted scalar"
  | .badEscape => "an escape is not well formed"
  | .strayColon => "a colon touches an indicator"
  | .unexpectedToken => "the structure is broken"
  | .secondDocument => "there is more than one document"
  | .tooManyAliases => "aliases repeat too much"
  | .tooDeep => "nesting is too deep"
  | .expected what => "expected " ++ what
  | .missing field => "missing field " ++ field
  | .repeated field => "repeated field " ++ field
  | .unknown word => "unknown word " ++ word

def message (e : Error) : String := "malformed YAML: " ++ e.cause

end Error

end ToolGate.Yaml
