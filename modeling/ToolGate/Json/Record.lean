import ToolGate.Json.Basic
import ToolGate.SortedMap.Basic
import ToolGate.Vocabulary.Word

/-!
# Typed reading of JSON values

Readers take a value to a typed one or say what is wrong. A record is an object whose known fields
occur at most once and whose unknown fields are passed over, or an array with the values of its
first fields in their order; in a map a repeated key is taken at its last occurrence.

A value that is passed over may hold what is unreadable. A value that is read as a whole may not, as
some records are whose fields belong to their parts.
-/

namespace ToolGate.Json

/-- A reader of values of type `α`. -/
abbrev Reader (α : Type) := Json → Except Error α

def asText : Reader String
  | .text s => .ok s
  | _ => .error (.expected "a text")

def asBool : Reader Bool
  | .bool b => .ok b
  | _ => .error (.expected "a truth value")

/-- Reads null as nothing and any other value by `f`. -/
def asOption {α : Type} (f : Reader α) : Reader (Option α)
  | .null => .ok none
  | v => (f v).map some

/-- Reads an array item by item. -/
def asList {α : Type} (f : Reader α) : Reader (List α)
  | .array items => items.mapM f
  | _ => .error (.expected "an array")

/-- Puts further members into a map. -/
def readMembers {κ α : Type} [Ord κ] [Std.TransOrd κ] (key : String → Except Error κ) (f : Reader α)
    (m : SortedMap κ α) : List (String × Json) → Except Error (SortedMap κ α)
  | [] => .ok m
  | (k, v) :: rest => do
    let k ← key k
    let a ← f v
    readMembers key f (m.insert k a) rest

/-- Reads an object as a map from keys read by `key` to values read by `f`. -/
def asMap {κ α : Type} [Ord κ] [Std.TransOrd κ] (key : String → Except Error κ) (f : Reader α) :
    Reader (SortedMap κ α)
  | .object members => readMembers key f ∅ members
  | _ => .error (.expected "an object")

/-- Reads the name of a word. -/
def wordOfName {α : Type} [Word α] (name : String) : Except Error α :=
  match Word.ofName? name with
  | some a => .ok a
  | none => .error (.unknown name)

/-- Reads a word: its name, or an object whose only member is the name with null. -/
def asWord {α : Type} [Word α] : Reader α
  | .text name => wordOfName name
  | .object [(name, .null)] => wordOfName name
  | _ => .error (.expected "a word")

/-- Reads a word inside a value that is read as a whole: there an empty object is as good as null. -/
def asWordOfWhole {α : Type} [Word α] : Reader α
  | .object [(name, .object [])] => wordOfName name
  | v => asWord v

/-- Checks that a value is readable in all its parts, where `outer` collections stand around it. -/
def checkWhole (outer : Nat) (v : Json) : Except Error Unit :=
  if v.isWhole (maxDepth - outer) then .ok () else .error .notWhole

/-- The members of an object in which no known field is repeated. -/
def asMembers (known : List String) : Reader (List (String × Json))
  | .object members =>
    match known.find? (fun k => 1 < members.countP (fun m => m.1 == k)) with
    | some k => .error (.repeated k)
    | none => .ok members
  | _ => .error (.expected "an object")

/-- The members of a record with the given fields, which an array lists without their names. -/
def asRecord (fields : List String) : Reader (List (String × Json))
  | .array items =>
    if items.length ≤ fields.length then .ok (fields.zip items)
    else .error (.expected "an array with a value for each field")
  | v => asMembers fields v

def field? (members : List (String × Json)) (name : String) : Option Json :=
  (members.find? (fun m => m.1 == name)).map (·.2)

def required {α : Type} (members : List (String × Json)) (name : String) (f : Reader α) :
    Except Error α :=
  match field? members name with
  | some v => f v
  | none => .error (.missing name)

/-- Reads a field that counts as `default` when it is not there. -/
def optional {α : Type} (members : List (String × Json)) (name : String) (default : α)
    (f : Reader α) : Except Error α :=
  match field? members name with
  | some v => f v
  | none => .ok default

end ToolGate.Json
