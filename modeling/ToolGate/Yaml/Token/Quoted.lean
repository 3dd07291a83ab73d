import ToolGate.Yaml.Cursor
import ToolGate.Yaml.Error

/-!
# Quoted scalars

The text between single or double quotation marks. A line break inside folds to a space, and further
line breaks are kept; gaps around a break are dropped. Between single marks a doubled mark is one
mark; between double marks a backslash begins an escape, and one before a line break joins the
lines.
-/

namespace ToolGate.Yaml

namespace Quoted

/-- The text read so far and what stands pending since the last character of it; lists are reversed.
-/
structure Progress where
  text : List Char
  /-- Gaps of the current line. -/
  gaps : List Char
  /-- The first line break, if one was met; an escaped break counts but leaves nothing. -/
  broken : Bool
  firstBreak : Option Char
  /-- Further line breaks. -/
  moreBreaks : List Char

/-- Nothing pending after the given text. -/
def Progress.of (text : List Char) : Progress := ⟨text, [], false, none, []⟩

/-- The text with what is pending folded into it. -/
def Progress.join (s : Progress) : List Char :=
  if s.broken then
    match s.firstBreak with
    | some '\n' => if s.moreBreaks = [] then ' ' :: s.text else s.moreBreaks ++ s.text
    | some c => s.moreBreaks ++ c :: s.text
    | none => s.moreBreaks ++ s.text
  else s.gaps ++ s.text

def Progress.add (s : Progress) (c : Char) : Progress := Progress.of (c :: s.join)

/-- Adds a gap; after a line break it is dropped. -/
def Progress.gap (s : Progress) (c : Char) : Progress :=
  if s.broken then s else { s with gaps := c :: s.gaps }

def Progress.lineBreak (s : Progress) (c : Char) : Progress :=
  if s.broken then { s with moreBreaks := breakText c :: s.moreBreaks }
  else { s with gaps := [], broken := true, firstBreak := some (breakText c) }

/-- A break after a backslash: the lines are joined without a space. -/
def Progress.escapedBreak (s : Progress) : Progress :=
  { text := s.join, gaps := [], broken := true, firstBreak := none, moreBreaks := [] }

def escape? (c : Char) : Option Char :=
  match c with
  | '0' => some '\x00'
  | 'a' => some '\x07'
  | 'b' => some '\x08'
  | 't' => some '\t'
  | '\t' => some '\t'
  | 'n' => some '\n'
  | 'v' => some '\x0b'
  | 'f' => some '\x0c'
  | 'r' => some '\r'
  | 'e' => some '\x1b'
  | ' ' => some ' '
  | '"' => some '"'
  | '/' => some '/'
  | '\\' => some '\\'
  | 'N' => some '\x85'
  | '_' => some '\xa0'
  | 'L' => some '\u2028'
  | 'P' => some '\u2029'
  | _ => none

/-- The number of digits of a numeric escape. -/
def codeLength? (c : Char) : Option Nat :=
  match c with
  | 'x' => some 2
  | 'u' => some 4
  | 'U' => some 8
  | _ => none

/-- The character of a numeric escape. -/
def code? (digits : List Char) : Option Char :=
  (digits.foldlM (fun n c => (Text.hexValue? c).map (16 * n + ·)) 0).bind fun n =>
    if (0xD800 ≤ n ∧ n ≤ 0xDFFF) ∨ 0x10FFFF < n then none else some (Char.ofNat n)

/-- Whether a marker stands at the beginning of a line. -/
def atMarkerLine (p : Position) (cs : List Char) : Bool :=
  p.column == 0 && (atMarker '-' cs || atMarker '.' cs)

/-- Reads on from inside a scalar between single quotation marks. -/
def single (s : Progress) (p : Position) : List Char → Except Error (String × Cursor)
  | [] => .error .unclosedQuote
  | '\r' :: '\n' :: rest => single (s.lineBreak '\n') (p.nextLine 2) rest
  | '\'' :: '\'' :: rest =>
    single (s.add '\'') (p.advance 2) rest
  | c :: rest =>
    if atMarkerLine p (c :: rest) then .error .markerInQuote
    else if c = '\'' then .ok (String.ofList s.join.reverse, ⟨p.advance 1, rest⟩)
    else if isGap c then single (s.gap c) (p.past c) rest
    else if isBreak c then single (s.lineBreak c) (p.nextLine c.utf8Size) rest
    else single (s.add c) (p.past c) rest

/-- Reads on from inside a scalar between double quotation marks; `fuel` bounds the characters. -/
def double (fuel : Nat) (s : Progress) (p : Position) (cs : List Char) :
    Except Error (String × Cursor) :=
  match fuel, cs with
  | 0, _ => .error .unclosedQuote
  | _, [] => .error .unclosedQuote
  | fuel + 1, '\r' :: '\n' :: rest => double fuel (s.lineBreak '\n') (p.nextLine 2) rest
  | fuel + 1, '\\' :: '\r' :: '\n' :: rest => double fuel s.escapedBreak (p.nextLine 3) rest
  | fuel + 1, '\\' :: c :: rest =>
    if isBreak c then double fuel s.escapedBreak (p.nextLine (1 + c.utf8Size)) rest
    else
      match escape? c, codeLength? c with
      | some d, _ => double fuel (s.add d) (p.advance 2) rest
      | none, some n =>
        if rest.length < n then .error .badEscape
        else
          match code? (rest.take n) with
          | some d => double fuel (s.add d) (p.advance (2 + n)) (rest.drop n)
          | none => .error .badEscape
      | none, none => .error .badEscape
  | fuel + 1, c :: rest =>
    if atMarkerLine p (c :: rest) then .error .markerInQuote
    else if c = '"' then .ok (String.ofList s.join.reverse, ⟨p.advance 1, rest⟩)
    else if isGap c then double fuel (s.gap c) (p.past c) rest
    else if isBreak c then double fuel (s.lineBreak c) (p.nextLine c.utf8Size) rest
    else double fuel (s.add c) (p.past c) rest

end Quoted

/-- Reads a scalar between single quotation marks, from its first mark on. -/
def singleQuoted (s : Cursor) : Except Error (String × Cursor) :=
  Quoted.single (.of []) (s.position.advance 1) (s.rest.drop 1)

/-- Reads a scalar between double quotation marks, from its first mark on. -/
def doubleQuoted (s : Cursor) : Except Error (String × Cursor) :=
  Quoted.double s.rest.length (.of []) (s.position.advance 1) (s.rest.drop 1)

end ToolGate.Yaml
