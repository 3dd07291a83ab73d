import ToolGate.Yaml.Token.Quoted

/-!
# Plain scalars

Text without quotation marks. It ends before a comment, a document marker, a colon that is followed
by space, an indicator of the flow collection around it, or a line that is not indented enough; the
gaps and line breaks before its end are no part of it.
-/

namespace ToolGate.Yaml

namespace Plain

/-- The flow indicators that end a plain scalar inside a flow collection. -/
def endsFlow (c : Char) : Bool := c == ',' || c == '[' || c == ']' || c == '{' || c == '}'

/-- Whether one of the indicators stands next that a colon must not touch in a flow collection. -/
def touches : List Char → Bool
  | c :: _ => endsFlow c || c == '?'
  | [] => false

/-- What was read last. -/
inductive Last where
  | nothing
  | word
  | space

structure Place where
  /-- Inside a flow collection. -/
  inFlow : Bool
  /-- The least column of a further line outside flow collections. -/
  indent : Nat

/-- The scalar's text, whether a line break stands behind it, and where it ended. -/
structure Result where
  text : String
  broken : Bool
  cursor : Cursor

def finish (s : Quoted.Progress) (p : Position) (cs : List Char) : Result :=
  ⟨String.ofList s.text.reverse, s.broken, ⟨p, cs⟩⟩

/-- Whether a scalar stops before a character that follows space. -/
def stopsAfterSpace (place : Place) (p : Position) (cs : List Char) : Bool :=
  (!place.inFlow && p.column < place.indent) || Quoted.atMarkerLine p cs || cs.head? == some '#'

/-- Reads on from inside a plain scalar. -/
def scan (place : Place) (last : Last) (s : Quoted.Progress) (p : Position) :
    List Char → Except Error Result
  | [] => .ok (finish s p [])
  | '\r' :: '\n' :: rest => scan place .space (s.lineBreak '\n') (p.nextLine 2) rest
  | c :: rest =>
    if isGap c then
      if s.broken && c == '\t' && p.column < place.indent then .error .tabIndentation
      else scan place .space (s.gap c) (p.past c) rest
    else if isBreak c then scan place .space (s.lineBreak c) (p.nextLine c.utf8Size) rest
    else
      let stops := match last with
        | .space => stopsAfterSpace place p (c :: rest)
        | _ => false
      if stops then .ok (finish s p (c :: rest))
      else if place.inFlow && c == ':' && touches rest then .error .strayColon
      else if (c == ':' && atSpace rest) || (place.inFlow && endsFlow c) then
        .ok (finish s p (c :: rest))
      else scan place .word (s.add c) (p.past c) rest

end Plain

def plainScalar (place : Plain.Place) (s : Cursor) : Except Error Plain.Result :=
  Plain.scan place .nothing (.of []) s.position s.rest

end ToolGate.Yaml
