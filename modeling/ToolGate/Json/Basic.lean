import ToolGate.Json.Number

/-!
# JSON values

A value as its text gives it: the members of an object stand in text order and a name may repeat.
What a repeated name means is for the reader of the value to say.

A text can hold parts that stand for no value and may still be passed over: half a surrogate pair, a
number out of range. They are kept as `unreadable`.
-/

namespace ToolGate

inductive Json where
  | null
  | bool (value : Bool)
  | number (value : Json.Number)
  | text (value : String)
  | array (items : List Json)
  | object (members : List (String × Json))
  /-- What stands for no value: a text with half a surrogate pair, a number out of range, or an
  object with such a text for a name. -/
  | unreadable

namespace Json

instance : Inhabited Json := ⟨.null⟩

def ofNat (n : Nat) : Json := .number (.integer n)

/-- The number of collections that may stand inside each other where a value is read. -/
def maxDepth : Nat := 127

mutual

/-- Whether a value is readable in all its parts and holds no more than `depth` collections inside
each other. -/
def isWhole (depth : Nat) : Json → Bool
  | .null | .bool _ | .number _ | .text _ => true
  | .array items =>
    match depth with
    | 0 => false
    | d + 1 => areWhole d items
  | .object members =>
    match depth with
    | 0 => false
    | d + 1 => membersAreWhole d members
  | .unreadable => false

/-- Whether items are readable in all their parts. -/
def areWhole (depth : Nat) : List Json → Bool
  | [] => true
  | v :: vs => isWhole depth v && areWhole depth vs

/-- Whether members are readable in all their parts. -/
def membersAreWhole (depth : Nat) : List (String × Json) → Bool
  | [] => true
  | (_, v) :: ms => isWhole depth v && membersAreWhole depth ms

end

/-- Why a text or a value could not be read. -/
inductive Error where
  /-- The text is no JSON. -/
  | malformed
  /-- A value that is read as a whole has a part that is unreadable or nested too deep. -/
  | notWhole
  /-- A value has another shape. -/
  | expected (what : String)
  /-- A record lacks a field. -/
  | missing (field : String)
  /-- A record has a field twice. -/
  | repeated (field : String)
  /-- A word is not in its vocabulary. -/
  | unknown (word : String)
deriving DecidableEq, Repr

namespace Error

def message : Error → String
  | .malformed => "malformed JSON: unexpected character or end"
  | .notWhole => "malformed JSON: unreadable value or too deep nesting"
  | .expected what => "malformed JSON: expected " ++ what
  | .missing field => "malformed JSON: missing field " ++ field
  | .repeated field => "malformed JSON: repeated field " ++ field
  | .unknown word => "malformed JSON: unknown word " ++ word

end Error

end Json

end ToolGate
