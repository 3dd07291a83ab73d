import ToolGate.Json.Basic
import ToolGate.SortedMap.Basic
import ToolGate.Vocabulary.Word
import ToolGate.Yaml.Node.Parser
import ToolGate.Yaml.Scalar

/-!
# Typed reading of YAML

Readers take a node to a typed value or say what is wrong. A text is any scalar, as it is written. A
truth value or integer must be plain. A list, map or record that is left out is empty. In a record
unknown fields are passed over and a known field may stand once; in a map the last of equal keys
counts.

An alias is followed only where its value is read, so a field that is passed over may contain
itself.

A value without a type of its own is read as JSON, each scalar for what it stands for.
-/

namespace ToolGate.Yaml

/-- Reading from a document: it may fail, and it counts the aliases that it follows. -/
abbrev Reading := ReaderT Document (StateT Nat (Except Error))

/-- A reader of values of type `α`. -/
abbrev Reader (α : Type) := Node → Reading α

/-- Reads a text with a reader; a text without a document is like one left out. -/
def read {α : Type} (f : Reader α) (s : String) : Except Error α := do
  let d ← Document.ofText s
  (·.1) <$> (f d.root d).run 0

/-- The node that a node stands for: itself, unless it is an alias. Every alias that is followed
counts, however often it was followed before. -/
def follow (n : Node) : Reading Node := do
  match n with
  | .alias number =>
    let d ← readThe Document
    modify (· + 1)
    if d.size * Document.maxRepetition < (← get) then throw .tooManyAliases
    match d.anchored[number]? with
    | some target => return target
    | none => throw .unknownAnchor
  | _ => return n

/-- Whether a node is left out. -/
def Node.isEmpty : Node → Bool
  | .scalar text style _ => text == "" && style == .plain
  | _ => false

/-! ## Scalars -/

/-- Reads any scalar as it is written. -/
def asText : Reader String := fun n => do
  match ← follow n with
  | .scalar text _ _ => return text
  | _ => throw (.expected "a text")

/-- The text of a scalar that may be of a kind of the core schema: a plain one, or a literal block
with the tag of the kind. -/
def spelling? (kind : String) : Node → Option String
  | .scalar text style tag =>
    if style = .plain ∨ (style = .literal ∧ tag = some (coreTag kind)) then some text else none
  | _ => none

def asBool : Reader Bool := fun n => do
  match (spelling? "bool" (← follow n)).bind Scalar.bool? with
  | some b => return b
  | none => throw (.expected "a truth value")

def asInt64 : Reader Int := fun n => do
  match (spelling? "int" (← follow n)).bind Scalar.integer? with
  | some i =>
    if -9223372036854775808 ≤ i ∧ i ≤ 9223372036854775807 then return i
    else throw (.expected "an integer of 64 bits")
  | none => throw (.expected "an integer")

/-- The name of a word: the text of a scalar, or the tag of nothing. -/
def wordName? : Node → Option String
  | .scalar text style (some tag) =>
    if isLocalTag tag then
      if style = .plain ∧ (text = "" ∨ Scalar.isNull text) then some (tag.drop 1).toString else none
    else some text
  | .scalar text _ none => some text
  | _ => none

/-- Reads a word: a scalar that spells its name, or the name as a tag of nothing. -/
def asWord {α : Type} [Word α] : Reader α := fun n => do
  match wordName? (← follow n) with
  | none => throw (.expected "a word")
  | some s =>
    match Word.ofName? s with
    | some a => return a
    | none => throw (.unknown s)

/-- Whether a node is plain null or left out; a tag that asks for null must stand at null. -/
def Node.isNull : Node → Except Error Bool
  | .scalar text .plain none => .ok (text = "" ∨ Scalar.isNull text)
  | .scalar text .plain (some tag) =>
    if tag = coreTag "null" then
      if Scalar.isNull text then .ok true else .error (.expected "null")
    else .ok false
  | _ => .ok false

/-- Reads plain null, or a value left out, as nothing and any other value by `f`. -/
def asOption {α : Type} (f : Reader α) : Reader (Option α) := fun n => do
  let n ← follow n
  if ← n.isNull then return none else return some (← f n)

/-! ## Collections -/

/-- Reads a sequence item by item. -/
def asList {α : Type} (f : Reader α) : Reader (List α) := fun n => do
  match ← follow n with
  | .sequence items _ => items.mapM f
  | n => if n.isEmpty then return [] else throw (.expected "a list")

/-- Puts further entries into a map. -/
def readEntries {κ α : Type} [Ord κ] [Std.TransOrd κ] (key : Reader κ) (f : Reader α)
    (m : SortedMap κ α) : List (Node × Node) → Reading (SortedMap κ α)
  | [] => return m
  | (k, v) :: rest => do
    let k ← key k
    let a ← f v
    readEntries key f (m.insert k a) rest

/-- Reads a mapping with keys read by `key` and values read by `f`. -/
def asMap {κ α : Type} [Ord κ] [Std.TransOrd κ] (key : Reader κ) (f : Reader α) :
    Reader (SortedMap κ α) := fun n => do
  match ← follow n with
  | .mapping entries _ => readEntries key f ∅ entries
  | n => if n.isEmpty then return ∅ else throw (.expected "a map")

/-- An entry of a record, whose key must be a scalar. -/
def asField (e : Node × Node) : Reading (String × Node) := do
  return (← asText e.1, e.2)

/-- The fields of a record with the given known ones. -/
def asRecord (known : List String) : Reader (List (String × Node)) := fun n => do
  match ← follow n with
  | .mapping entries _ =>
    let fields ← entries.mapM asField
    match known.find? (fun k => 1 < fields.countP (fun m => m.1 == k)) with
    | some k => throw (.repeated k)
    | none => return fields
  | n => if n.isEmpty then return [] else throw (.expected "a record")

def field? (fields : List (String × Node)) (name : String) : Option Node :=
  (fields.find? (fun m => m.1 == name)).map (·.2)

def required {α : Type} (fields : List (String × Node)) (name : String) (f : Reader α) :
    Reading α :=
  match field? fields name with
  | some v => f v
  | none => throw (.missing name)

/-- Reads a field that counts as `default` when it is not there. -/
def optional {α : Type} (fields : List (String × Node)) (name : String) (default : α)
    (f : Reader α) : Reading α :=
  match field? fields name with
  | some v => f v
  | none => return default

/-! ## Values without a type of their own -/

/-- Whether a collection has no tag of its own. -/
def isUntagged : Option String → Bool
  | none => true
  | some t => !isLocalTag t

/-- The JSON form of what a scalar stands for; what is not finite has none and becomes null. -/
def Scalar.toJson : Scalar → Json
  | .null | .notFinite => .null
  | .bool b => .bool b
  | .integer n => .number (.integer n)
  | .fraction x => .number x
  | .text s => .text s

/-- What a value stands for that is no collection. -/
def asScalar : Reader Scalar := fun n => do
  match ← follow n with
  | .scalar text style tag => Scalar.resolve text style tag
  | _ => throw (.expected "a scalar")

/-- What a value without a type of its own is made of, its parts not yet read. -/
inductive Shape where
  | scalar (value : Scalar)
  | items (items : List Node)
  | entries (entries : List (Node × Node))

/-- The shape of a value without a type of its own; a tag of the document's own is refused. -/
def shape (n : Node) : Reading Shape := do
  match ← follow n with
  | .sequence items tag =>
    if isUntagged tag then return .items items
    else throw (.expected "a value without a tag of its own")
  | .mapping entries tag =>
    if isUntagged tag then return .entries entries
    else throw (.expected "a value without a tag of its own")
  | n => return .scalar (← asScalar n)

/-- Reads a value as JSON; `depth` bounds the collections inside each other. Members are sorted, and
the last of equal keys counts. Keys must be scalars. -/
def asJson : (depth : Nat) → Reader Json
  | 0, n => do
    match ← shape n with
    | .scalar v => return v.toJson
    | _ => throw .tooDeep
  | depth + 1, n => do
    match ← shape n with
    | .scalar v => return v.toJson
    | .items items => return .array (← items.mapM (asJson depth))
    | .entries entries =>
      let members ← entries.mapM fun e => do return (← asText e.1, ← asJson depth e.2)
      return .object (SortedMap.ofList members).entries

/-- Checks that every scalar within a value stands for something and no tag is one of the document's
own; `depth` bounds the collections inside each other. -/
def checkPlainData : (depth : Nat) → Reader Unit
  | 0, n => do
    match ← shape n with
    | .scalar _ => return
    | _ => throw .tooDeep
  | depth + 1, n => do
    match ← shape n with
    | .scalar _ => return
    | .items items => items.forM (checkPlainData depth)
    | .entries entries =>
      entries.forM fun e => do
        checkPlainData depth e.1
        checkPlainData depth e.2

end ToolGate.Yaml
