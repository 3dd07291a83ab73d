import ToolGate.Json.Basic
import ToolGate.Json.Quoted

/-!
# Written JSON

Two layouts of a value. The compact layout has no blanks. The indented layout puts every item and
member on a line of its own, two columns further in than the bracket that holds it; an empty array
or object stays on one line. What is unreadable is written as null.
-/

namespace ToolGate.Json

mutual

/-- A value without blanks. -/
def compactChars : Json → List Char
  | .null | .unreadable => ['n', 'u', 'l', 'l']
  | .bool true => ['t', 'r', 'u', 'e']
  | .bool false => ['f', 'a', 'l', 's', 'e']
  | .number n => n.text
  | .text s => quoted s
  | .array [] => ['[', ']']
  | .array (v :: vs) => '[' :: (compactChars v ++ compactItems vs)
  | .object [] => ['{', '}']
  | .object ((k, v) :: ms) => '{' :: (quoted k ++ ':' :: (compactChars v ++ compactMembers ms))

/-- Further items of an array, up to its end. -/
def compactItems : List Json → List Char
  | [] => [']']
  | v :: vs => ',' :: (compactChars v ++ compactItems vs)

/-- Further members of an object, up to its end. -/
def compactMembers : List (String × Json) → List Char
  | [] => ['}']
  | (k, v) :: ms => ',' :: (quoted k ++ ':' :: (compactChars v ++ compactMembers ms))

end

/-- A line break followed by an indentation. -/
def newline (depth : Nat) : List Char := '\n' :: List.replicate (2 * depth) ' '

mutual

/-- A value in the indented layout, inside `depth` brackets. -/
def prettyChars (depth : Nat) : Json → List Char
  | .null | .unreadable => ['n', 'u', 'l', 'l']
  | .bool true => ['t', 'r', 'u', 'e']
  | .bool false => ['f', 'a', 'l', 's', 'e']
  | .number n => n.text
  | .text s => quoted s
  | .array [] => ['[', ']']
  | .array (v :: vs) =>
    '[' :: (newline (depth + 1) ++ (prettyChars (depth + 1) v ++ prettyItems depth vs))
  | .object [] => ['{', '}']
  | .object ((k, v) :: ms) =>
    '{' :: (newline (depth + 1) ++ (quoted k ++ ':' :: ' ' ::
      (prettyChars (depth + 1) v ++ prettyMembers depth ms)))

/-- Further items of an array inside `depth` brackets, up to its end. -/
def prettyItems (depth : Nat) : List Json → List Char
  | [] => newline depth ++ [']']
  | v :: vs => ',' :: (newline (depth + 1) ++ (prettyChars (depth + 1) v ++ prettyItems depth vs))

/-- Further members of an object inside `depth` brackets, up to its end. -/
def prettyMembers (depth : Nat) : List (String × Json) → List Char
  | [] => newline depth ++ ['}']
  | (k, v) :: ms =>
    ',' :: (newline (depth + 1) ++ (quoted k ++ ':' :: ' ' ::
      (prettyChars (depth + 1) v ++ prettyMembers depth ms)))

end

def compact (v : Json) : String := String.ofList (compactChars v)

def pretty (v : Json) : String := String.ofList (prettyChars 0 v)

end ToolGate.Json
