import ToolGate.Json.Token

/-!
# Reading JSON

The value of a JSON text. Tokens are taken one at a time; the brackets that are open are kept as
frames, the innermost first, each with what it holds so far in reverse.
-/

namespace ToolGate.Json

namespace Parse

/-- The members of an open object, the latest first; `none` once a name was unreadable. -/
abbrev Members := Option (List (String × Json))

/-- An open bracket with its finished contents. -/
inductive Frame where
  | array (items : List Json)
  | object (members : Members)
  | member (members : Members) (name : String)

def Members.add (ms : Members) (name : String) (v : Json) : Members := ms.map ((name, v) :: ·)

def Members.close (ms : Members) : Json :=
  match ms with
  | some ms => .object ms.reverse
  | none => .unreadable

/-- What may come next. -/
inductive Phase where
  /-- A value. -/
  | value
  /-- A value, or the end of an array just begun. -/
  | firstItem
  /-- A member name. -/
  | name
  /-- A member name, or the end of an object just begun. -/
  | firstName
  /-- The colon after a member name. -/
  | colon
  /-- A value is complete: a comma, a closing bracket or the end. -/
  | after (v : Json)

/-- The open brackets and what may come next. -/
structure State where
  frames : List Frame
  phase : Phase

/-- A token where a value may begin. -/
def beginValue (frames : List Frame) : Token → Option State
  | .scalar v => some ⟨frames, .after v⟩
  | .arrayStart => some ⟨.array [] :: frames, .firstItem⟩
  | .objectStart => some ⟨.object (some []) :: frames, .firstName⟩
  | _ => none

/-- A token where a member name must stand. -/
def beginMember (frames : List Frame) (t : Token) : Option State :=
  match t, frames with
  | .scalar (.text k), .object ms :: rest => some ⟨.member ms k :: rest, .colon⟩
  | .scalar .unreadable, .object _ :: rest => some ⟨.member none "" :: rest, .colon⟩
  | _, _ => none

/-- A token after a complete value. -/
def continue? (frames : List Frame) (v : Json) (t : Token) : Option State :=
  match frames, t with
  | .array vs :: rest, .comma => some ⟨.array (v :: vs) :: rest, .value⟩
  | .array vs :: rest, .arrayEnd => some ⟨rest, .after (.array (v :: vs).reverse)⟩
  | .member ms k :: rest, .comma => some ⟨.object (ms.add k v) :: rest, .name⟩
  | .member ms k :: rest, .objectEnd => some ⟨rest, .after (ms.add k v).close⟩
  | _, _ => none

/-- One token of a text. -/
def step (s : State) (t : Token) : Option State :=
  match s.phase with
  | .value => beginValue s.frames t
  | .firstItem =>
    match t, s.frames with
    | .arrayEnd, .array _ :: rest => some ⟨rest, .after (.array [])⟩
    | _, _ => beginValue s.frames t
  | .name => beginMember s.frames t
  | .firstName =>
    match t, s.frames with
    | .objectEnd, .object _ :: rest => some ⟨rest, .after (.object [])⟩
    | _, _ => beginMember s.frames t
  | .colon =>
    match t with
    | .colon => some ⟨s.frames, .value⟩
    | _ => none
  | .after v => continue? s.frames v t

/-- The value, if the text may end here. -/
def finish (s : State) : Option Json :=
  match s.frames, s.phase with
  | [], .after v => some v
  | _, _ => none

end Parse

def ofTokens? (ts : List Token) : Option Json :=
  (ts.foldlM Parse.step ⟨[], .value⟩).bind Parse.finish

def parse (s : String) : Except Error Json :=
  match (tokens? s.toList).bind ofTokens? with
  | some v => .ok v
  | none => .error .malformed

end ToolGate.Json
