import ToolGate.Yaml.Node
import ToolGate.Yaml.Token.Lexer

/-!
# The document of a YAML text

Tokens are put together to nodes. A value that is left out is an empty plain scalar; a flow sequence
may hold single entries of a mapping. A text holds one document at most, and a text without any
holds nothing.

Anchors are numbered, and an alias gets the number that the latest anchor of its name has. The node
of the number is looked up when the document is complete.
-/

namespace ToolGate.Yaml

namespace Parse

/-- The tokens to come and what has been met so far. -/
structure State where
  tokens : List Token
  /-- The handles of tags, and what they stand for. -/
  handles : List (String × String)
  /-- The names of anchors so far, each once, and the number of the latest anchor of the name. -/
  numbers : List (String × Nat)
  /-- The numbers of anchors and where their nodes begin, the latest first. -/
  places : List (Nat × Nat)
  /-- The nodes with anchors and where they begin. -/
  nodes : List (Nat × Node)
  /-- The number of nodes and ends of collections so far. -/
  size : Nat

abbrev Step := StateT State (Except Error)

def peek : Step Token := return (← get).tokens.headD .streamEnd

def skip : Step Unit := modify fun s => { s with tokens := s.tokens.drop 1 }

/-- Counts a node or the end of a collection. -/
def count : Step Unit := modify fun s => { s with size := s.size + 1 }

def emptyValue : Step Node := do
  count
  return .empty

/-- The anchor and tag in front of a node. -/
structure Properties where
  anchor : Option String
  tag : Option String

/-- The tag that a handle and the rest stand for. -/
def fullTag (handles : List (String × String)) (handle rest : String) : Except Error String :=
  if handle = "" then .ok rest
  else
    match handles.find? (fun h => h.1 == handle) with
    | some h => .ok (h.2 ++ rest)
    | none => .error .undefinedHandle

/-- The tag token that stands next, if any. -/
def tagHere : Step (Option (String × String)) := do
  match ← peek with
  | .tag handle rest =>
    skip
    return some (handle, rest)
  | _ => return none

/-- The anchor token that stands next, if any. -/
def anchorHere : Step (Option String) := do
  match ← peek with
  | .anchor name =>
    skip
    return some name
  | _ => return none

/-- An anchor and a tag, in either order. -/
def properties : Step Properties := do
  let before ← anchorHere
  let tag ← tagHere
  let behind ← match before with
    | some name => pure (some name)
    | none => if tag.isSome then anchorHere else pure none
  match tag with
  | none => return ⟨behind, none⟩
  | some (handle, rest) => return ⟨behind, some (← fullTag (← get).handles handle rest)⟩

/-- Gives an anchor its number, as many as there are different names so far. When the name is not
new, the next new name gets the same number, and then both stand for the later node. -/
def State.declare (s : State) (name : String) : State :=
  let number := s.numbers.length
  { s with
    numbers := (name, number) :: s.numbers.filter (fun n => n.1 != name)
    places := (number, s.size) :: s.places }

/-- Reads a node under the name of an anchor, if it has one; the node itself may use the name. -/
def underName (anchor : Option String) (read : Step Node) : Step Node :=
  match anchor with
  | none => do
    count
    read
  | some name => do
    let place := (← get).size
    modify (·.declare name)
    count
    let n ← read
    modify fun s => { s with nodes := (place, n) :: s.nodes }
    return n

/-- The alias of a name that an anchor before it has. -/
def aliasOf (name : String) : Step Node := do
  count
  match (← get).numbers.find? (fun n => n.1 == name) with
  | some (_, number) => return .alias number
  | none => throw .unknownAnchor

/-- The nodes that aliases stand for: of the anchors with one number, the latest counts. -/
def State.anchored (s : State) : Array Node :=
  ((List.range (s.numbers.length + 1)).filterMap fun number => do
    let (_, place) ← s.places.find? (fun p => p.1 == number)
    let (_, n) ← s.nodes.find? (fun n => n.1 == place)
    return n).toArray

/-- Whether a token ends an entry of an indented mapping. -/
def endsBlockEntry : Token → Bool
  | .key | .value | .blockEnd => true
  | _ => false

/-- The tag of a scalar that is not left out: a lone exclamation mark counts as none. -/
def scalarTag (tag : Option String) : Option String := if tag = some "!" then none else tag

mutual

/-- A node. `block` admits block collections, `indentless` also entries of a sequence that is not
indented. -/
def node : (fuel : Nat) → (block indentless : Bool) → Step Node
  | 0, _, _ => throw .unexpectedToken
  | fuel + 1, block, indentless => do
    match ← peek with
    | .alias name =>
      skip
      aliasOf name
    | _ =>
      let p ← properties
      match ← peek with
      | .blockEntry =>
        if indentless then underName p.anchor (indentlessItems fuel p.tag [])
        else emptyOr p
      | .scalar text style =>
        skip
        underName p.anchor (return .scalar text style (scalarTag p.tag))
      | .flowSequenceStart =>
        skip
        underName p.anchor (flowItems fuel p.tag true [])
      | .flowMappingStart =>
        skip
        underName p.anchor (flowEntries fuel p.tag true [])
      | .blockSequenceStart =>
        if block then
          skip
          underName p.anchor (blockItems fuel p.tag [])
        else emptyOr p
      | .blockMappingStart =>
        if block then
          skip
          underName p.anchor (blockEntries fuel p.tag [])
        else emptyOr p
      | _ => emptyOr p

/-- An empty scalar, which needs a tag or an anchor to be one. -/
def emptyOr (p : Properties) : Step Node :=
  if p.anchor.isSome || p.tag.isSome then underName p.anchor (return .scalar "" .plain p.tag)
  else throw .unexpectedToken

def blockItems : (fuel : Nat) → Option String → List Node → Step Node
  | 0, _, _ => throw .unexpectedToken
  | fuel + 1, tag, items => do
    match ← peek with
    | .blockEntry =>
      skip
      match ← peek with
      | .blockEntry | .blockEnd => blockItems fuel tag ((← emptyValue) :: items)
      | _ => blockItems fuel tag ((← node fuel true false) :: items)
    | .blockEnd =>
      skip
      count
      return .sequence items.reverse tag
    | _ => throw .unexpectedToken

/-- Further items of a sequence that is not indented. -/
def indentlessItems : (fuel : Nat) → Option String → List Node → Step Node
  | 0, _, _ => throw .unexpectedToken
  | fuel + 1, tag, items => do
    match ← peek with
    | .blockEntry =>
      skip
      match ← peek with
      | .blockEntry | .key | .value | .blockEnd =>
        indentlessItems fuel tag ((← emptyValue) :: items)
      | _ => indentlessItems fuel tag ((← node fuel true false) :: items)
    | _ =>
      count
      return .sequence items.reverse tag

def blockEntries : (fuel : Nat) → Option String → List (Node × Node) → Step Node
  | 0, _, _ => throw .unexpectedToken
  | fuel + 1, tag, entries => do
    match ← peek with
    | .key =>
      skip
      let k ← if endsBlockEntry (← peek) then emptyValue else node fuel true true
      let v ← blockValue fuel
      blockEntries fuel tag ((k, v) :: entries)
    | .blockEnd =>
      skip
      count
      return .mapping entries.reverse tag
    | _ => throw .unexpectedToken

def blockValue : (fuel : Nat) → Step Node
  | 0 => throw .unexpectedToken
  | fuel + 1 => do
    match ← peek with
    | .value =>
      skip
      if endsBlockEntry (← peek) then emptyValue else node fuel true true
    | _ => emptyValue

def flowItems : (fuel : Nat) → Option String → (first : Bool) → List Node → Step Node
  | 0, _, _, _ => throw .unexpectedToken
  | fuel + 1, tag, first, items => do
    match ← peek with
    | .flowSequenceEnd =>
      skip
      count
      return .sequence items.reverse tag
    | t =>
      if !first then
        if t = .flowEntry then skip else throw .unexpectedToken
      match ← peek with
      | .flowSequenceEnd =>
        skip
        count
        return .sequence items.reverse tag
      | .key =>
        skip
        flowItems fuel tag false ((← singleEntry fuel) :: items)
      | _ => flowItems fuel tag false ((← node fuel false false) :: items)

/-- A mapping of one entry inside a flow sequence, from behind its key indicator. -/
def singleEntry : (fuel : Nat) → Step Node
  | 0 => throw .unexpectedToken
  | fuel + 1 => do
    count
    let k ← match ← peek with
      | .value | .flowEntry | .flowSequenceEnd =>
        skip
        emptyValue
      | _ => node fuel false false
    let v ← match ← peek with
      | .value =>
        skip
        match ← peek with
        | .flowEntry | .flowSequenceEnd => emptyValue
        | _ => node fuel false false
      | _ => emptyValue
    count
    return .mapping [(k, v)] none

def flowEntries : (fuel : Nat) → Option String → (first : Bool) → List (Node × Node) → Step Node
  | 0, _, _, _ => throw .unexpectedToken
  | fuel + 1, tag, first, entries => do
    match ← peek with
    | .flowMappingEnd =>
      skip
      count
      return .mapping entries.reverse tag
    | t =>
      if !first then
        if t = .flowEntry then skip else throw .unexpectedToken
      match ← peek with
      | .flowMappingEnd =>
        skip
        count
        return .mapping entries.reverse tag
      | .key =>
        skip
        let k ← match ← peek with
          | .value | .flowEntry | .flowMappingEnd => emptyValue
          | _ => node fuel false false
        let v ← flowValue fuel
        flowEntries fuel tag false ((k, v) :: entries)
      | _ =>
        let k ← node fuel false false
        let v ← emptyValue
        flowEntries fuel tag false ((k, v) :: entries)

def flowValue : (fuel : Nat) → Step Node
  | 0 => throw .unexpectedToken
  | fuel + 1 => do
    match ← peek with
    | .value =>
      skip
      match ← peek with
      | .flowEntry | .flowMappingEnd => emptyValue
      | _ => node fuel false false
    | _ => emptyValue

end

/-! ## Documents -/

/-- The directives in front of a document. A version directive may stand once and must ask for 1.1
or 1.2; a handle may be given once. -/
def directives : (versioned : Bool) → List (String × String) → List Token →
    Except Error (List (String × String) × List Token)
  | versioned, handles, .version major minor :: rest =>
    if versioned then .error .badDirective
    else if major = 1 ∧ (minor = 1 ∨ minor = 2) then directives true handles rest
    else .error .badDirective
  | versioned, handles, .tagHandle handle beginning :: rest =>
    if handles.any (fun h => h.1 == handle) then .error .badDirective
    else directives versioned (handles ++ [(handle, beginning)]) rest
  | _, handles, rest => .ok (handles, rest)

/-- The handles that every document has, unless it gives them another meaning. -/
def standardHandles : List (String × String) := [("!", "!"), ("!!", "tag:yaml.org,2002:")]

/-- Whether a document that began with a marker has no node. -/
def isBare : List Token → Bool
  | [] => true
  | t :: _ =>
    match t with
    | .version _ _ | .tagHandle _ _ | .documentStart | .documentEnd | .streamEnd => true
    | _ => false

/-- Reads the node of a document and the end of the stream behind it. -/
def content (handles : List (String × String)) (bare : Bool) (ts : List Token) :
    Except Error Document := do
  let fuel := 4 * ts.length + 8
  let (n, s) ← (if bare then emptyValue else node fuel true false : Step Node).run
    ⟨ts, handles ++ standardHandles, [], [], [], 0⟩
  match s.tokens.dropWhile (fun t => t == .documentEnd) with
  | [.streamEnd] => return ⟨n, s.anchored, s.size⟩
  | _ => throw .secondDocument

end Parse

namespace Document

/-- The only document among tokens; an empty one if there is none. -/
def ofTokens (ts : List Token) : Except Error Document := do
  match ts with
  | [.streamEnd] => return .empty
  | _ =>
    let (handles, rest) ← Parse.directives false [] ts
    match rest with
    | .documentStart :: body => Parse.content handles (Parse.isBare body) body
    | _ =>
      if rest.length = ts.length then Parse.content [] false rest
      else throw .unexpectedToken

def ofText (s : String) : Except Error Document := do
  ofTokens (← tokens s.toList)

end Document

end ToolGate.Yaml
