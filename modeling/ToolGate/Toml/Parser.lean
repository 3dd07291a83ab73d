import ToolGate.Toml.Entries
import ToolGate.Toml.Quoted
import ToolGate.Toml.Scalar

/-!
# Reading TOML

A text is read line by line: a header names the table that the following keys belong to. Steps give
back what follows them; `fuel` bounds the steps, of which a character takes two at most.

Arrays and tables written as values stand inside each other, and keys have parts, less than eighty
deep; a key in a table at such a depth is counted on its own.
-/

namespace ToolGate.Toml

namespace Parse

def skipGaps (cs : List Char) : List Char := cs.dropWhile Quoted.isGap

/-- The characters behind gaps and a comment; a comment holds no control characters. -/
def skipComment (cs : List Char) : Option (List Char) :=
  match skipGaps cs with
  | '#' :: rest =>
    let behind := rest.dropWhile fun c => !Quoted.isControl c
    match behind with
    | [] | '\n' :: _ | '\r' :: '\n' :: _ => some behind
    | _ => none
  | rest => some rest

/-- The characters behind a line break. -/
def lineBreak? : List Char → Option (List Char)
  | '\n' :: cs => some cs
  | '\r' :: '\n' :: cs => some cs
  | _ => none

/-- The characters behind gaps, comments and line breaks. -/
def skipLines : (fuel : Nat) → List Char → Option (List Char)
  | 0, _ => none
  | fuel + 1, cs => do
    let rest ← skipComment cs
    match lineBreak? rest with
    | some rest => skipLines fuel rest
    | none => return rest

/-- What a depth stays below: of arrays and tables written as values, and of the parts of a key. -/
def depthLimit : Nat := 80

/-! ## Keys -/

/-- Characters of keys without marks. -/
def isKeyChar (c : Char) : Bool := c.isAlphanum || c == '-' || c == '_'

/-- Reads one part of a key. -/
def keyPart? (cs : List Char) : Option (String × List Char) :=
  match cs with
  | '"' :: _ | '\'' :: _ => Quoted.line? cs
  | _ =>
    let name := cs.takeWhile isKeyChar
    if name.isEmpty then none else some (String.ofList name, cs.dropWhile isKeyChar)

/-- Reads a key with gaps around its parts; the last part is given apart. -/
def key? : (fuel : Nat) → (path : List String) → List Char →
    Option ((List String × String) × List Char)
  | 0, _, _ => none
  | fuel + 1, path, cs => do
    let (part, rest) ← keyPart? (skipGaps cs)
    match skipGaps rest with
    | '.' :: more => key? fuel (path ++ [part]) more
    | rest => if path.length + 1 < depthLimit then return ((path, part), rest) else none

/-! ## Values -/

mutual

/-- Reads a value inside `depth` arrays and tables written as values. -/
def value? : (fuel depth : Nat) → List Char → Option (Toml × List Char)
  | 0, _, _ => none
  | fuel + 1, depth, cs =>
    match cs with
    | '"' :: _ | '\'' :: _ => (Quoted.text? cs).map fun r => (.text r.1, r.2)
    | '[' :: rest => if depth + 1 < depthLimit then items? fuel (depth + 1) [] rest else none
    | '{' :: rest =>
      if depth + 1 < depthLimit then
        match skipGaps rest with
        | '}' :: behind => some (.table [], behind)
        | _ => pairs? fuel (depth + 1) [] rest
      else none
    | _ => Scalar.read? cs

/-- Reads the further items of an array and its end; a comma may follow the last item. -/
def items? : (fuel depth : Nat) → List Toml → List Char → Option (Toml × List Char)
  | 0, _, _, _ => none
  | fuel + 1, depth, items, cs => do
    let cs ← skipLines (cs.length + 1) cs
    match cs with
    | ']' :: rest => return (.array items.reverse, rest)
    | _ =>
      let (v, rest) ← value? fuel depth cs
      let rest ← skipLines (rest.length + 1) rest
      match rest with
      | ',' :: rest => items? fuel depth (v :: items) rest
      | ']' :: rest => return (.array (v :: items).reverse, rest)
      | _ => none

/-- Reads the further keys and values of a table written as a value, and its end. -/
def pairs? : (fuel depth : Nat) → Entries → List Char → Option (Toml × List Char)
  | 0, _, _, _ => none
  | fuel + 1, depth, es, cs => do
    let (key, rest) ← key? (cs.length + 1) [] cs
    match rest with
    | '=' :: rest =>
      let (v, rest) ← value? fuel depth (skipGaps rest)
      let es ← es.add key v
      match skipGaps rest with
      | ',' :: rest => pairs? fuel depth es rest
      | '}' :: rest => return (.table (entriesToToml es), rest)
      | _ => none
    | _ => none

end

/-! ## Lines -/

/-- The tables so far, and the path of the one that keys belong to. -/
structure State where
  entries : Entries
  path : List String

/-- Reads the end of a line behind a header or a value. -/
def lineEnd? (cs : List Char) : Option (List Char) := do
  match ← skipComment cs with
  | [] => return []
  | rest => lineBreak? rest

/-- Reads a header or a key with its value. -/
def line? (s : State) (cs : List Char) : Option (State × List Char) := do
  match cs with
  | '[' :: '[' :: rest =>
    let ((path, key), rest) ← key? (rest.length + 1) [] rest
    match rest with
    | ']' :: ']' :: rest =>
      let entries ← Entries.changeAt (Entries.openRepeated key) path s.entries
      return (⟨entries, path ++ [key]⟩, rest)
    | _ => none
  | '[' :: rest =>
    let ((path, key), rest) ← key? (rest.length + 1) [] rest
    match rest with
    | ']' :: rest =>
      let entries ← Entries.changeAt (Entries.openTable key) path s.entries
      return (⟨entries, path ++ [key]⟩, rest)
    | _ => none
  | _ =>
    let (key, rest) ← key? (cs.length + 1) [] cs
    match rest with
    | '=' :: rest =>
      let (v, rest) ← value? (2 * rest.length + 4) 0 (skipGaps rest)
      let entries ← Entries.changeAt (Entries.add key v) s.path s.entries
      return (⟨entries, s.path⟩, rest)
    | _ => none

def lines? : (fuel : Nat) → State → List Char → Option Entries
  | 0, _, _ => none
  | fuel + 1, s, cs => do
    match ← skipLines (cs.length + 1) cs with
    | [] => return s.entries
    | cs =>
      let (s, rest) ← line? s cs
      let rest ← lineEnd? rest
      lines? fuel s rest

/-- The characters of a text without a byte order mark at its beginning. -/
def withoutMark : List Char → List Char
  | '\ufeff' :: cs => cs
  | cs => cs

end Parse

def parse (s : String) : Except Error Toml :=
  let cs := Parse.withoutMark s.toList
  match Parse.lines? (cs.length + 1) ⟨[], []⟩ cs with
  | some es => .ok (.table (entriesToToml es))
  | none => .error .malformed

/-! ## Typed reading -/

/-- A reader of values of type `α`. -/
abbrev Reader (α : Type) := Toml → Except Error α

def asText : Reader String
  | .text s => .ok s
  | _ => .error (.expected "a text")

def asTable : Reader (List (String × Toml))
  | .table es => .ok es
  | _ => .error (.expected "a table")

/-- The entries of a record: of a table, or of an array that gives the values of its first fields in
their order. A moment is a record without any of the fields. -/
def asRecord (fields : List String) : Reader (List (String × Toml))
  | .array items => .ok (fields.zip items)
  | .moment _ => .ok []
  | v => asTable v

/-- Reads a field that counts as `default` when it is not there. -/
def optional {α : Type} (es : List (String × Toml)) (name : String) (default : α) (f : Reader α) :
    Except Error α :=
  match es.find? (·.1 == name) with
  | some e => f e.2
  | none => .ok default

end ToolGate.Toml
