import ToolGate.Json.Basic
import ToolGate.Json.Literal
import ToolGate.Json.Quoted

/-!
# JSON tokens

The tokens of a JSON text: brackets, colons, commas and scalars. The text is read one character at a
time, so the reading is a fold; what is pending between two characters is a `Scan.Mode`.
-/

namespace ToolGate.Json

/-- A token; a scalar is kept as the value it stands for. -/
inductive Token where
  | arrayStart
  | arrayEnd
  | objectStart
  | objectEnd
  | colon
  | comma
  | scalar (value : Json)

namespace Scan

/-- The characters read of a text, in reverse; `none` once half a surrogate pair was met. -/
abbrev Text := Option (List Char)

def Text.push (read : Text) (c : Char) : Text := read.map (c :: ·)

def Text.scalar (read : Text) : Json :=
  match read with
  | some cs => .text (String.ofList cs.reverse)
  | none => .unreadable

/-- What has been read of an unfinished token. -/
inductive Mode where
  /-- Between tokens. -/
  | idle
  /-- Inside a number or a word, whose characters stand in reverse. -/
  | bare (read : List Char)
  /-- Inside quotation marks. -/
  | quote (read : Text)
  /-- After a backslash. -/
  | escape (read : Text)
  /-- Inside the digits of an escape: digits still to come, their value, and the first half of a
  surrogate pair if one came before. -/
  | unit (read : Text) (left : Nat) (value : Nat) (high : Option Nat)
  /-- After the first half of a surrogate pair: the escape of the second half should come. -/
  | pair (read : Text) (high : Nat)
  /-- After the backslash between the halves of a surrogate pair. -/
  | pairEscape (read : Text) (high : Nat)

/-- Characters of numbers and words. -/
def isBare (c : Char) : Bool :=
  c.isAlphanum || c == '+' || c == '-' || c == '.'

/-- The scalar of a number or a word. -/
def bareScalar? (cs : List Char) : Option Json :=
  if cs = ['n', 'u', 'l', 'l'] then some .null
  else if cs = ['t', 'r', 'u', 'e'] then some (.bool true)
  else if cs = ['f', 'a', 'l', 's', 'e'] then some (.bool false)
  else (Literal.ofText? cs).map fun l => if l.isInRange then .number l.number else .unreadable

/-- The tokens read so far, in reverse, and what is pending. -/
structure State where
  tokens : List Token
  mode : Mode

/-- One character between tokens. -/
def idleStep (tokens : List Token) (c : Char) : Option State :=
  if c = ' ' ∨ c = '\n' ∨ c = '\r' ∨ c = '\t' then some ⟨tokens, .idle⟩
  else if c = '[' then some ⟨.arrayStart :: tokens, .idle⟩
  else if c = ']' then some ⟨.arrayEnd :: tokens, .idle⟩
  else if c = '{' then some ⟨.objectStart :: tokens, .idle⟩
  else if c = '}' then some ⟨.objectEnd :: tokens, .idle⟩
  else if c = ':' then some ⟨.colon :: tokens, .idle⟩
  else if c = ',' then some ⟨.comma :: tokens, .idle⟩
  else if c = '"' then some ⟨tokens, .quote (some [])⟩
  else if isBare c then some ⟨tokens, .bare [c]⟩
  else none

/-- One character inside quotation marks. -/
def quoteStep (tokens : List Token) (read : Text) (c : Char) : Option State :=
  if c = '"' then some ⟨.scalar read.scalar :: tokens, .idle⟩
  else if c = '\\' then some ⟨tokens, .escape read⟩
  else if c.toNat < 0x20 then none
  else some ⟨tokens, .quote (read.push c)⟩

/-- One character after a backslash. -/
def escapeStep (tokens : List Token) (read : Text) (c : Char) : Option State :=
  if c = 'u' then some ⟨tokens, .unit read 4 0 none⟩
  else (unescape? c).map fun d => ⟨tokens, .quote (read.push d)⟩

/-- The end of an escape's digits: an ordinary character, or a half of a surrogate pair. -/
def unitEnd (read : Text) (value : Nat) (high : Option Nat) : Mode :=
  match high with
  | none =>
    if 0xD800 ≤ value ∧ value ≤ 0xDBFF then .pair read value
    else if 0xDC00 ≤ value ∧ value ≤ 0xDFFF then .quote none
    else .quote (read.push (Char.ofNat value))
  | some h =>
    if 0xDC00 ≤ value ∧ value ≤ 0xDFFF then
      .quote (read.push (Char.ofNat (0x10000 + (h - 0xD800) * 0x400 + (value - 0xDC00))))
    else .quote none

/-- One character of a JSON text. -/
def step (s : State) (c : Char) : Option State :=
  match s.mode with
  | .idle => idleStep s.tokens c
  | .bare read =>
    if isBare c then some ⟨s.tokens, .bare (c :: read)⟩
    else (bareScalar? read.reverse).bind fun v => idleStep (.scalar v :: s.tokens) c
  | .quote read => quoteStep s.tokens read c
  | .escape read => escapeStep s.tokens read c
  | .unit read left value high =>
    (Text.hexValue? c).map fun d =>
      if left ≤ 1 then ⟨s.tokens, unitEnd read (16 * value + d) high⟩
      else ⟨s.tokens, .unit read (left - 1) (16 * value + d) high⟩
  | .pair read high =>
    if c = '\\' then some ⟨s.tokens, .pairEscape read high⟩ else quoteStep s.tokens none c
  | .pairEscape read high =>
    if c = 'u' then some ⟨s.tokens, .unit read 4 0 (some high)⟩ else escapeStep s.tokens none c

def finish (s : State) : Option (List Token) :=
  match s.mode with
  | .idle => some s.tokens.reverse
  | .bare read => (bareScalar? read.reverse).map fun v => (Token.scalar v :: s.tokens).reverse
  | _ => none

end Scan

def tokens? (cs : List Char) : Option (List Token) :=
  (cs.foldlM Scan.step ⟨[], .idle⟩).bind Scan.finish

end ToolGate.Json
