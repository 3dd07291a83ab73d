/-!
# YAML tokens

The tokens of a YAML stream. The starts and ends of block collections are tokens of their own,
though in the text only indentation shows them.
-/

namespace ToolGate.Yaml

inductive Style where
  | plain
  | singleQuoted
  | doubleQuoted
  | literal
  | folded
deriving DecidableEq, Repr

inductive Token where
  /-- The version directive. -/
  | version (major minor : Nat)
  /-- A directive that lets a handle stand for the beginning of tags. -/
  | tagHandle (handle beginning : String)
  | documentStart
  | documentEnd
  | blockSequenceStart
  | blockMappingStart
  | blockEnd
  | flowSequenceStart
  | flowSequenceEnd
  | flowMappingStart
  | flowMappingEnd
  /-- The dash before an entry of a block sequence. -/
  | blockEntry
  /-- The comma between entries of a flow collection. -/
  | flowEntry
  | key
  | value
  | alias (name : String)
  | anchor (name : String)
  /-- A tag; the handle is empty for a tag written in full. -/
  | tag (handle rest : String)
  | scalar (text : String) (style : Style)
  | streamEnd
deriving DecidableEq, Repr

end ToolGate.Yaml
