import ToolGate.Yaml.Cursor
import ToolGate.Yaml.Error

/-!
# Block scalars

Text that its indentation delimits, after a header of an indicator, an optional indentation and an
optional treatment of the last line breaks. In a literal scalar line breaks stay; in a folded one a
break between two lines that do not begin with a gap becomes a space.
-/

namespace ToolGate.Yaml

namespace Block

/-- What becomes of the line breaks at the end. -/
inductive Chomping where
  | strip
  | clip
  | keep
deriving DecidableEq

/-- The indicator characters after a block scalar's first one. -/
structure Header where
  chomping : Chomping
  increment : Option Nat

/-- The treatment that a plus or a minus asks for. -/
def chomping? (c : Char) : Option Chomping :=
  if c = '+' then some .keep else if c = '-' then some .strip else none

/-- The indentation that a digit asks for; zero is refused. -/
def increment? (c : Char) : Option (Except Error Nat) :=
  if c.isDigit then
    if c = '0' then some (.error .badBlockHeader) else some (.ok (c.toNat - 48))
  else none

/-- The header at a cursor behind the indicator: at most one digit and one sign, in either order. -/
def header (s : Cursor) : Except Error (Header × Cursor) :=
  match s.rest with
  | [] => .ok (⟨.clip, none⟩, s)
  | c :: rest =>
    match chomping? c, increment? c with
    | some k, _ =>
      match rest.head?.bind increment? with
      | some n => n.map fun n => (⟨k, some n⟩, s.skip 2)
      | none => .ok (⟨k, none⟩, s.skip 1)
    | none, some n =>
      n.map fun n =>
        match rest.head?.bind chomping? with
        | some k => (⟨k, some n⟩, s.skip 2)
        | none => (⟨.clip, some n⟩, s.skip 1)
    | none, none => .ok (⟨.clip, none⟩, s)

/-- What has been read of a block scalar; texts are reversed. -/
structure Progress where
  text : List Char
  /-- The line break behind the last line, if the scalar has lines. -/
  lineEnd : Option Char
  /-- The breaks of empty lines behind it. -/
  emptyLines : List Char
  /-- Whether the last line began with a gap. -/
  gapBefore : Bool
  /-- The indentation, once it is known. -/
  indent : Option Nat
  /-- The greatest column met while it is not. -/
  widest : Nat
  /-- Inside a line's text, rather than before it. -/
  inLine : Bool

/-- Whether the indentation continues at a column. -/
def Progress.beforeText (s : Progress) (column : Nat) : Bool :=
  match s.indent with
  | none => true
  | some n => column < n

/-- The text with the pending breaks, as a further line that begins with or without a gap follows.
-/
def Progress.join (literal : Bool) (s : Progress) (gap : Bool) : List Char :=
  let folds := !literal && s.lineEnd == some '\n' && !s.gapBefore && !gap
  if folds then
    if s.emptyLines = [] then ' ' :: s.text else s.emptyLines ++ s.text
  else s.emptyLines ++ (s.lineEnd.toList ++ s.text)

/-- The whole text, the last line breaks treated as the header says. -/
def Progress.finish (k : Chomping) (s : Progress) : String :=
  let text := match k with
    | .strip => s.text
    | .clip => s.lineEnd.toList ++ s.text
    | .keep => s.emptyLines ++ (s.lineEnd.toList ++ s.text)
  String.ofList text.reverse

/-- The indentation of a scalar whose first text stands behind empty lines up to a width. -/
def detected (least widest : Nat) : Nat := max widest (max least 1)

/-- A line break, inside a line or in an empty one. -/
def Progress.lineBreak (s : Progress) (column : Nat) (c : Char) : Progress :=
  if s.inLine then { s with lineEnd := some (breakText c), inLine := false }
  else { s with emptyLines := breakText c :: s.emptyLines, widest := max s.widest column }

/-- Reads on; `least` is the smallest indentation that the collection around the scalar allows. -/
def scan (literal : Bool) (k : Chomping) (least : Nat) (s : Progress) (p : Position) :
    List Char → Except Error (String × Cursor)
  | [] => .ok (s.finish k, ⟨p, []⟩)
  | '\r' :: '\n' :: rest => scan literal k least (s.lineBreak p.column '\n') (p.nextLine 2) rest
  | c :: rest =>
    if isBreak c then scan literal k least (s.lineBreak p.column c) (p.nextLine c.utf8Size) rest
    else if s.inLine then
      scan literal k least { s with text := c :: s.text } (p.past c) rest
    else if s.beforeText p.column && c == ' ' then scan literal k least s (p.advance 1) rest
    else if s.beforeText p.column && c == '\t' then .error .tabIndentation
    else
      let indent := s.indent.getD (detected least (max s.widest p.column))
      if p.column = indent then
        scan literal k least
          { s with
            text := c :: s.join literal (isGap c)
            lineEnd := none
            emptyLines := []
            gapBefore := isGap c
            indent := some indent
            inLine := true }
          (p.past c) rest
      else .ok (s.finish k, ⟨p, c :: rest⟩)

end Block

/-- Reads a block scalar from its indicator on, inside collections of the given indentation. -/
def blockScalar (literal : Bool) (outer : Int) (s : Cursor) : Except Error (String × Cursor) := do
  let (h, t) ← Block.header (s.skip 1)
  let t := t.skipComment
  if atLineEnd t.rest then
    let t := t.skipBreak
    let least := (outer + 1).toNat
    let indent := h.increment.map fun n => if 0 ≤ outer then outer.toNat + n else n
    Block.scan literal h.chomping least ⟨[], none, [], false, indent, 0, false⟩ t.position t.rest
  else .error .badBlockHeader

end ToolGate.Yaml
