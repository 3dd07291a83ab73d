import ToolGate.Text.Hex

/-!
# Quoted TOML texts

Texts between single or double quotation marks, on one line or, between tripled marks, on several. A
line break right after tripled marks is dropped. Between double marks a backslash begins an escape;
in a text of several lines one before a line break drops the blanks that follow.
-/

namespace ToolGate.Toml.Quoted

/-- Whether a character may not stand in a line of text. -/
def isControl (c : Char) : Bool := (c.toNat < 0x20 && c != '\t') || c == '\x7f'

/-- A space or a tab. -/
def isGap (c : Char) : Bool := c == ' ' || c == '\t'

/-- The character of a one-letter escape. -/
def escape? (c : Char) : Option Char :=
  match c with
  | 'b' => some '\x08'
  | 't' => some '\t'
  | 'n' => some '\n'
  | 'f' => some '\x0c'
  | 'r' => some '\r'
  | '"' => some '"'
  | '\\' => some '\\'
  | _ => none

/-- The character of a numeric escape. -/
def code? (digits : List Char) : Option Char :=
  (digits.foldlM (fun n c => (Text.hexValue? c).map (16 * n + ·)) 0).bind fun n =>
    if (0xD800 ≤ n ∧ n ≤ 0xDFFF) ∨ 0x10FFFF < n then none else some (Char.ofNat n)

/-- The character of an escape and what follows it, from behind the backslash. -/
def escaped? : List Char → Option (Char × List Char)
  | 'u' :: cs => if cs.length < 4 then none else (code? (cs.take 4)).map (·, cs.drop 4)
  | 'U' :: cs => if cs.length < 8 then none else (code? (cs.take 8)).map (·, cs.drop 8)
  | c :: cs => (escape? c).map (·, cs)
  | [] => none

/-- What follows gaps and line breaks. -/
def dropBlanks : List Char → List Char
  | '\r' :: '\n' :: cs => dropBlanks cs
  | c :: cs => if isGap c || c == '\n' then dropBlanks cs else c :: cs
  | [] => []

/-- What follows a backslash at the end of a line: gaps, a line break and all blanks behind it. -/
def joined? (cs : List Char) : Option (List Char) :=
  match cs.dropWhile isGap with
  | '\n' :: rest | '\r' :: '\n' :: rest => some (dropBlanks rest)
  | _ => none

/-- Reads a text of one line between double marks, from behind the first; `done` is reversed. -/
def basic : (fuel : Nat) → (done : List Char) → List Char → Option (String × List Char)
  | 0, _, _ => none
  | _, _, [] => none
  | fuel + 1, done, c :: cs =>
    if c = '"' then some (String.ofList done.reverse, cs)
    else if c = '\\' then (escaped? cs).bind fun r => basic fuel (r.1 :: done) r.2
    else if isControl c then none
    else basic fuel (c :: done) cs

/-- Reads a text of one line between single marks, from behind the first. -/
def literal (done : List Char) : List Char → Option (String × List Char)
  | [] => none
  | c :: cs =>
    if c = '\'' then some (String.ofList done.reverse, cs)
    else if isControl c then none
    else literal (c :: done) cs

/-- Reads a text of several lines between tripled marks, from behind the first line break. Up to two
marks may stand before the last three. -/
def lines (mark : Char) : (fuel : Nat) → (done : List Char) → List Char →
    Option (String × List Char)
  | 0, _, _ => none
  | _, _, [] => none
  | fuel + 1, done, c :: cs =>
    if c = mark then
      let marks := ((c :: cs).takeWhile (· == mark)).length
      let rest := (c :: cs).dropWhile (· == mark)
      if marks < 3 then lines mark fuel (List.replicate marks mark ++ done) rest
      else
        let inner := min (marks - 3) 2
        let behind := List.replicate (marks - 3 - inner) mark ++ rest
        some (String.ofList (List.replicate inner mark ++ done).reverse, behind)
    else if c = '\\' ∧ mark = '"' then
      match joined? cs with
      | some rest => lines mark fuel done rest
      | none => (escaped? cs).bind fun r => lines mark fuel (r.1 :: done) r.2
    else if c = '\n' then lines mark fuel ('\n' :: done) cs
    else if c = '\r' ∧ cs.head? = some '\n' then lines mark fuel ('\n' :: done) (cs.drop 1)
    else if isControl c then none
    else lines mark fuel (c :: done) cs

/-- The characters without a line break at their beginning. -/
def withoutBreak : List Char → List Char
  | '\n' :: cs => cs
  | '\r' :: '\n' :: cs => cs
  | cs => cs

/-- Reads a quoted text of one line from its first mark on. -/
def line? : List Char → Option (String × List Char)
  | '"' :: cs => basic (cs.length + 1) [] cs
  | '\'' :: cs => literal [] cs
  | _ => none

/-- Reads any quoted text from its first mark on. -/
def text? : List Char → Option (String × List Char)
  | '"' :: '"' :: '"' :: cs => lines '"' (cs.length + 1) [] (withoutBreak cs)
  | '\'' :: '\'' :: '\'' :: cs => lines '\'' (cs.length + 1) [] (withoutBreak cs)
  | cs => line? cs

end ToolGate.Toml.Quoted
