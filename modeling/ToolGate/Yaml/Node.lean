import ToolGate.Yaml.Token

/-!
# YAML nodes

The tree of a document: scalars with their source text and style, sequences, and mappings with their
entries in text order. An alias is a node of its own, so that the tree is finite even where a
collection contains itself; the document says which node an alias stands for.
-/

namespace ToolGate.Yaml

/-- A node of a document. Tags are given in full; a node without a tag has none. -/
inductive Node where
  | scalar (text : String) (style : Style) (tag : Option String)
  | sequence (items : List Node) (tag : Option String)
  | mapping (entries : List (Node × Node)) (tag : Option String)
  /-- An alias of the anchor with this number. -/
  | alias (number : Nat)

namespace Node

/-- The plain scalar without text, which stands where a value is left out. -/
def empty : Node := .scalar "" .plain none

instance : Inhabited Node := ⟨.empty⟩

/-- The greatest depth of nested collections that any reader goes to. -/
def maxDepth : Nat := 128

end Node

structure Document where
  root : Node
  /-- The nodes that aliases stand for, by their numbers. -/
  anchored : Array Node
  /-- The number of nodes and of ends of collections. -/
  size : Nat

namespace Document

/-- What a text without a document holds. -/
def empty : Document := ⟨.empty, #[], 0⟩

/-- The aliases that a reader follows may be no more than this many for each part of a document. -/
def maxRepetition : Nat := 100

end Document

end ToolGate.Yaml
