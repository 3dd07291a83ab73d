import ToolGate.Text.Hex

/-!
# Positions in a YAML text

The character classes of the syntax, and positions that count the bytes of the text in UTF-8, its
lines and the characters of a line. A carriage return with its line feed is one line break.
-/

namespace ToolGate.Yaml

/-! ## Character classes -/

/-- Whether a character may stand in a YAML text at all. -/
def isPrintable (c : Char) : Bool :=
  let n := c.toNat
  n == 0x09 || n == 0x0A || n == 0x0D || (0x20 ≤ n && n ≤ 0x7E) || n == 0x85 ||
    (0xA0 ≤ n && n ≤ 0xFFFD) || (0x10000 ≤ n && n ≤ 0x10FFFF)

def isBreak (c : Char) : Bool :=
  c == '\n' || c == '\r' || c == '\x85' || c == '\u2028' || c == '\u2029'

/-- A space or a tab. -/
def isGap (c : Char) : Bool := c == ' ' || c == '\t'

/-- Whether the text ends here, or a gap or a line break follows. -/
def atSpace : List Char → Bool
  | [] => true
  | c :: _ => isGap c || isBreak c

/-- Whether the text ends here or a line break follows. -/
def atLineEnd : List Char → Bool
  | [] => true
  | c :: _ => isBreak c

/-- A letter, digit, dash or underscore. -/
def isWordChar (c : Char) : Bool := c.isAlphanum || c == '-' || c == '_'

/-- Whether a document marker, three times `mark`, stands here on its own. -/
def atMarker (mark : Char) : List Char → Bool
  | a :: b :: c :: rest => a == mark && b == mark && c == mark && atSpace rest
  | _ => false

/-! ## Positions -/

structure Position where
  /-- The number of bytes before it. -/
  index : Nat
  /-- The number of line breaks before it. -/
  line : Nat
  /-- The number of characters before it in its line. -/
  column : Nat
deriving DecidableEq, Repr

namespace Position

def start : Position := ⟨0, 0, 0⟩

/-- The position after a character of the same line. -/
def past (p : Position) (c : Char) : Position := ⟨p.index + c.utf8Size, p.line, p.column + 1⟩

/-- The position after `n` characters of the same line that have one byte each. -/
def advance (p : Position) (n : Nat) : Position := ⟨p.index + n, p.line, p.column + n⟩

/-- The position after a line break of `n` bytes. -/
def nextLine (p : Position) (n : Nat) : Position := ⟨p.index + n, p.line + 1, 0⟩

end Position

/-- What a line break reads as: a line feed, except for the two separators that stay. -/
def breakText (c : Char) : Char :=
  if c == '\u2028' || c == '\u2029' then c else '\n'

/-- A place in the text: its position and the characters from there on. -/
structure Cursor where
  position : Position
  rest : List Char

namespace Cursor

/-- Moves over `n` characters of the same line. -/
def skip (s : Cursor) (n : Nat) : Cursor :=
  ⟨(s.rest.take n).foldl Position.past s.position, s.rest.drop n⟩

def skipBreak (s : Cursor) : Cursor :=
  match s.rest with
  | '\r' :: '\n' :: rest => ⟨s.position.nextLine 2, rest⟩
  | c :: rest => ⟨s.position.nextLine c.utf8Size, rest⟩
  | [] => s

/-- Moves over the characters of a class that stand next, none of them a line break. -/
def skipWhile (s : Cursor) (p : Char → Bool) : Cursor := s.skip (s.rest.takeWhile p).length

/-- Moves over gaps and then over a comment, if one follows. -/
def skipComment (s : Cursor) : Cursor :=
  let t := s.skipWhile isGap
  match t.rest with
  | '#' :: _ => t.skipWhile (fun c => !isBreak c)
  | _ => t

end Cursor

end ToolGate.Yaml
