import ToolGate.Yaml.Cursor
import ToolGate.Yaml.Error
import ToolGate.Yaml.Token

/-!
# Tags, anchors and directives

The parts of the syntax that begin with `!`, `&`, `*` and `%`.
-/

namespace ToolGate.Yaml

namespace Property

/-- Characters of a tag's URI; `full` admits the flow indicators that a tag in angles may hold. -/
def isUriChar (full : Bool) (c : Char) : Bool :=
  isWordChar c || ";/?:@&=+$.%!~*'()".toList.contains c ||
    (full && (c == ',' || c == '[' || c == ']'))

/-- The text of URI characters: a null character, which only an escape can give, ends it. -/
def uriText (cs : List Char) : String := String.ofList (cs.takeWhile (· != '\x00'))

/-- The number of bytes that a UTF-8 sequence with a given first byte has. -/
def sequenceLength (first : Nat) : Nat :=
  if first < 0x80 then 1
  else if first < 0xC0 then 0
  else if first < 0xE0 then 2
  else if first < 0xF0 then 3
  else if first < 0xF8 then 4
  else 0

/-- The bytes of a run of percent escapes, as many as `count`, and what follows it. -/
def escapedBytes : (count : Nat) → List Char → Option (List Nat × List Char)
  | 0, cs => some ([], cs)
  | count + 1, '%' :: a :: b :: rest => do
    let h ← Text.hexValue? a
    let l ← Text.hexValue? b
    let (bytes, rest) ← escapedBytes count rest
    return ((16 * h + l) :: bytes, rest)
  | _ + 1, _ => none

/-- The character of the bytes of a UTF-8 sequence. -/
def decode? : List Nat → Option Char
  | [] => none
  | first :: rest =>
    if rest.all (fun b => 0x80 ≤ b && b < 0xC0) then
      let lead := if first < 0x80 then first
        else if first < 0xE0 then first % 0x20
        else if first < 0xF0 then first % 0x10
        else first % 0x08
      some (Char.ofNat (rest.foldl (fun n b => n * 0x40 + b % 0x40) lead))
    else none

/-- The character of the percent escapes that stand next, and what follows them. -/
def escape? (cs : List Char) : Option (Char × List Char) := do
  let (first, _) ← escapedBytes 1 cs
  let (bytes, rest) ← escapedBytes (sequenceLength (first.headD 0)) cs
  let c ← decode? bytes
  return (c, rest)

/-- The URI characters that stand next, percent escapes resolved; `fuel` bounds their number. -/
def uri (full : Bool) : (fuel : Nat) → List Char → Except Error (List Char × List Char)
  | 0, cs => .ok ([], cs)
  | _, [] => .ok ([], [])
  | fuel + 1, c :: rest =>
    if c = '%' then
      match escape? (c :: rest) with
      | some (d, rest) => (uri full fuel rest).map fun r => (d :: r.1, r.2)
      | none => .error .badTag
    else if isUriChar full c then (uri full fuel rest).map fun r => (c :: r.1, r.2)
    else .ok ([], c :: rest)

def moveTo (s : Cursor) (rest : List Char) : Cursor :=
  ⟨s.position.advance (s.rest.length - rest.length), rest⟩

def uriAt (full : Bool) (s : Cursor) : Except Error (List Char × Cursor) :=
  (uri full s.rest.length s.rest).map fun r => (r.1, moveTo s r.2)

/-- The handle at a cursor: an exclamation mark, word characters, and perhaps a second mark. -/
def handleAt (s : Cursor) : Except Error (List Char × Cursor) :=
  match s.rest with
  | '!' :: rest =>
    let word := rest.takeWhile isWordChar
    match rest.drop word.length with
    | '!' :: _ => .ok ('!' :: (word ++ ['!']), s.skip (word.length + 2))
    | _ => .ok ('!' :: word, s.skip (word.length + 1))
  | _ => .error .badTag

def verbatim (s : Cursor) : Except Error (Token × Cursor) := do
  let (cs, t) ← uriAt true (s.skip 2)
  match cs, t.rest with
  | _ :: _, '>' :: _ => return (.tag "" (uriText cs), t.skip 1)
  | _, _ => throw .badTag

def shorthand (s : Cursor) : Except Error (Token × Cursor) := do
  let (handle, t) ← handleAt s
  if handle.length ≥ 2 ∧ handle.getLast? = some '!' then
    let (cs, t) ← uriAt false t
    if cs = [] then throw .badTag
    return (.tag (String.ofList handle) (uriText cs), t)
  else
    let (cs, t) ← uriAt false t
    let rest := uriText (handle.drop 1 ++ cs)
    if rest = "" then return (.tag "" "!", t)
    return (.tag "!" rest, t)

/-- The tag at a cursor; space must follow it, or a comma inside a flow collection. -/
def tag (inFlow : Bool) (s : Cursor) : Except Error (Token × Cursor) := do
  let (token, t) ← if s.rest[1]? = some '<' then verbatim s else shorthand s
  if atSpace t.rest || (inFlow && t.rest.head? == some ',') then return (token, t)
  throw .badTag

/-- Characters that may stand directly behind an anchor. -/
def endsAnchor : List Char → Bool
  | [] => true
  | c :: _ => isGap c || isBreak c || "?:,]\x7d%@`".toList.contains c

/-- The name of an anchor or alias, from its indicator on. -/
def anchorName (s : Cursor) : Except Error (String × Cursor) :=
  let name := (s.rest.drop 1).takeWhile isWordChar
  let t := s.skip (name.length + 1)
  if name ≠ [] ∧ endsAnchor t.rest then .ok (String.ofList name, t) else .error .badAnchor

/-- A number of a version: one to nine digits. -/
def versionNumber (s : Cursor) : Except Error (Nat × Cursor) :=
  let ds := s.rest.takeWhile Char.isDigit
  if ds = [] ∨ 9 < ds.length then .error .badDirective
  else .ok (ds.foldl (fun n c => 10 * n + (c.toNat - 48)) 0, s.skip ds.length)

/-- What follows the name of a version directive. -/
def version (s : Cursor) : Except Error (Token × Cursor) := do
  let (major, t) ← versionNumber (s.skipWhile isGap)
  match t.rest with
  | '.' :: _ =>
    let (minor, t) ← versionNumber (t.skip 1)
    return (.version major minor, t)
  | _ => throw .badDirective

/-- What follows the name of a tag directive. -/
def tagHandle (s : Cursor) : Except Error (Token × Cursor) := do
  let (handle, t) ← handleAt (s.skipWhile isGap)
  if handle.length ≥ 2 ∧ handle.getLast? ≠ some '!' then throw .badDirective
  match t.rest with
  | c :: _ =>
    if isGap c then
      let (cs, t) ← uriAt true (t.skipWhile isGap)
      if cs ≠ [] ∧ atSpace t.rest then
        return (.tagHandle (String.ofList handle) (uriText cs), t)
      throw .badDirective
    else throw .badDirective
  | [] => throw .badDirective

/-- The directive at a cursor, with the rest of its line. -/
def directive (s : Cursor) : Except Error (Token × Cursor) := do
  let name := (s.rest.drop 1).takeWhile isWordChar
  let t := s.skip (name.length + 1)
  if atSpace t.rest then
    let (token, t) ←
      if name = "YAML".toList then version t
      else if name = "TAG".toList then tagHandle t
      else throw .badDirective
    let t := t.skipComment
    if atLineEnd t.rest then return (token, t.skipBreak)
    throw .badDirective
  throw .badDirective

end Property

end ToolGate.Yaml
