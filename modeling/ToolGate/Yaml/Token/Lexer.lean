import ToolGate.Yaml.Token.Block
import ToolGate.Yaml.Token.Plain
import ToolGate.Yaml.Token.Property

/-!
# The tokens of a YAML text

Tokens are read from left to right. Block collections begin where the column grows and end where it
shrinks. A key without its own indicator is recognised only at the colon behind it: until then the
place where its tokens began is remembered, one for each flow collection around it, and the key
token is put in there afterwards. Such a key stays on one line and within 1024 bytes.

A byte order mark at the beginning of a line is passed over, though it takes a column.
-/

namespace ToolGate.Yaml

namespace Lexer

/-- A place where a key without indicator may have begun. -/
structure KeyPlace where
  /-- The number of tokens before it. -/
  before : Nat
  position : Position
  /-- Whether it must turn out to be a key, as it stands at the indentation of a block mapping. -/
  required : Bool

/-- What the lexer knows between two tokens. -/
structure State where
  cursor : Cursor
  /-- The tokens so far, in reverse, and their number. -/
  tokens : List Token
  count : Nat
  /-- The column of the innermost block collection, −1 outside all of them. -/
  indent : Int
  /-- The columns of the collections around it. -/
  outer : List Int
  /-- Whether a key without indicator may begin here. -/
  keyAllowed : Bool
  /-- The possible key of the innermost flow collection, or of the block context. -/
  key : Option KeyPlace
  /-- The possible keys around the flow collections that are open, the innermost first. -/
  outerKeys : List (Option KeyPlace)
  finished : Bool

def State.start (cs : List Char) : State :=
  ⟨⟨.start, cs⟩, [], 0, -1, [], true, none, [], false⟩

def State.inFlow (s : State) : Bool := !s.outerKeys.isEmpty

def State.column (s : State) : Int := s.cursor.position.column

def State.emit (s : State) (t : Token) : State :=
  { s with tokens := t :: s.tokens, count := s.count + 1 }

/-- Adds a token behind the first `before` ones. -/
def State.emitAt (s : State) (before : Nat) (t : Token) : State :=
  { s with tokens := s.tokens.insertIdx (s.count - before) t, count := s.count + 1 }

def State.moveTo (s : State) (c : Cursor) : State := { s with cursor := c }

def State.skip (s : State) (n : Nat) : State := s.moveTo (s.cursor.skip n)

/-- Ends the block collections deeper than a column. -/
def closeBlocks (column : Int) : (indent : Int) → (outer : List Int) → (tokens : List Token) →
    (count : Nat) → Int × List Int × List Token × Nat
  | indent, [], tokens, count => (indent, [], tokens, count)
  | indent, i :: outer, tokens, count =>
    if column < indent then closeBlocks column i outer (.blockEnd :: tokens) (count + 1)
    else (indent, i :: outer, tokens, count)

/-- Ends the block collections deeper than a column; inside flow collections there are none. -/
def State.unroll (s : State) (column : Int) : State :=
  if s.inFlow then s
  else
    let (indent, outer, tokens, count) := closeBlocks column s.indent s.outer s.tokens s.count
    { s with indent, outer, tokens, count }

/-- Begins a block collection if the column is deeper than the innermost one; its token goes behind
the first `before` tokens. -/
def State.roll (s : State) (column : Int) (before : Nat) (t : Token) : State :=
  if s.inFlow then s
  else if s.indent < column then
    { s.emitAt before t with indent := column, outer := s.indent :: s.outer }
  else s

/-- Gives up the possible key; an error if it had to be one. -/
def State.dropKey (s : State) : Except Error State :=
  match s.key with
  | some k => if k.required then .error .missingColon else .ok { s with key := none }
  | none => .ok s

/-- Remembers the cursor as the beginning of a possible key, if one may begin here. -/
def State.saveKey (s : State) : Except Error State :=
  if s.keyAllowed then
    (s.dropKey).map fun s =>
      { s with key := some ⟨s.count, s.cursor.position, !s.inFlow && s.indent == s.column⟩ }
  else .ok s

/-- Whether a possible key is too far back to be one. -/
def KeyPlace.isStale (k : KeyPlace) (p : Position) : Bool :=
  k.position.line < p.line || k.position.index + 1024 < p.index

/-- Gives up a possible key that is too far back. -/
def freshKey (p : Position) : Option KeyPlace → Except Error (Option KeyPlace)
  | none => .ok none
  | some k =>
    if k.isStale p then (if k.required then .error .missingColon else .ok none) else .ok (some k)

/-- Gives up all possible keys that are too far back. -/
def State.dropStaleKeys (s : State) : Except Error State := do
  let outerKeys ← s.outerKeys.mapM (freshKey s.cursor.position)
  let key ← freshKey s.cursor.position s.key
  return { s with key, outerKeys }

/-- Moves over gaps, comments and line breaks. In the block context a tab is no gap where a key may
begin, and after a line break a key may begin. -/
def skipSpace (inFlow : Bool) : (keyAllowed comment : Bool) → Position → List Char → Bool × Cursor
  | keyAllowed, _, p, [] => (keyAllowed, ⟨p, []⟩)
  | keyAllowed, _, p, '\r' :: '\n' :: rest =>
    skipSpace inFlow (keyAllowed || !inFlow) false (p.nextLine 2) rest
  | keyAllowed, comment, p, c :: rest =>
    if isBreak c then skipSpace inFlow (keyAllowed || !inFlow) false (p.nextLine c.utf8Size) rest
    else if comment || c == '#' then skipSpace inFlow keyAllowed true (p.past c) rest
    else if c == ' ' || (c == '\t' && (inFlow || !keyAllowed)) ||
        (c == '\ufeff' && p.column == 0) then
      skipSpace inFlow keyAllowed false (p.past c) rest
    else (keyAllowed, ⟨p, c :: rest⟩)

/-! ## Tokens by their indicators -/

def streamEnd (s : State) : Except Error State :=
  ((s.unroll (-1)).dropKey).map fun s =>
    { s.emit .streamEnd with keyAllowed := false, finished := true }

def directive (s : State) : Except Error State := do
  let s ← (s.unroll (-1)).dropKey
  let (token, c) ← Property.directive s.cursor
  return { (s.moveTo c).emit token with keyAllowed := false }

def marker (t : Token) (s : State) : Except Error State :=
  ((s.unroll (-1)).dropKey).map fun s => { (s.skip 3).emit t with keyAllowed := false }

def flowStart (t : Token) (s : State) : Except Error State :=
  s.saveKey.map fun s =>
    { (s.skip 1).emit t with keyAllowed := true, key := none, outerKeys := s.key :: s.outerKeys }

def flowEnd (t : Token) (s : State) : Except Error State :=
  s.dropKey.map fun s =>
    let s := { (s.skip 1).emit t with keyAllowed := false }
    match s.outerKeys with
    | k :: rest => { s with key := k, outerKeys := rest }
    | [] => s

def flowEntry (s : State) : Except Error State :=
  s.dropKey.map fun s => { (s.skip 1).emit .flowEntry with keyAllowed := true }

def blockEntry (s : State) : Except Error State :=
  if !s.inFlow && !s.keyAllowed then .error .misplacedIndicator
  else
    ((s.roll s.column s.count .blockSequenceStart).dropKey).map fun s =>
      { (s.skip 1).emit .blockEntry with keyAllowed := true }

def keyIndicator (s : State) : Except Error State :=
  if !s.inFlow && !s.keyAllowed then .error .misplacedIndicator
  else
    ((s.roll s.column s.count .blockMappingStart).dropKey).map fun s =>
      { (s.skip 1).emit .key with keyAllowed := !s.inFlow }

/-- The colon before a value: it makes the possible key a key, or follows a key with indicator. -/
def valueIndicator (s : State) : Except Error State :=
  match s.key with
  | some k =>
    let s := (s.emitAt k.before .key).roll k.position.column k.before .blockMappingStart
    .ok { (s.skip 1).emit .value with key := none, keyAllowed := false }
  | none =>
    if !s.inFlow && !s.keyAllowed then .error .misplacedIndicator
    else
      let s := s.roll s.column s.count .blockMappingStart
      .ok { (s.skip 1).emit .value with keyAllowed := !s.inFlow }

/-- An anchor, alias, tag or quoted scalar: a token that may begin a key. -/
def keyPart (read : State → Except Error (Token × Cursor)) (s : State) : Except Error State := do
  let s ← s.saveKey
  let (t, c) ← read s
  return { (s.moveTo c).emit t with keyAllowed := false }

/-- A scalar that may begin a key and may end behind a line break. -/
def plain (s : State) : Except Error State := do
  let s ← s.saveKey
  let r ← plainScalar ⟨s.inFlow, (s.indent + 1).toNat⟩ s.cursor
  return { (s.moveTo r.cursor).emit (.scalar r.text .plain) with keyAllowed := r.broken }

def block (literal : Bool) (s : State) : Except Error State := do
  let s ← s.dropKey
  let (text, c) ← blockScalar literal s.indent s.cursor
  return { (s.moveTo c).emit (.scalar text (if literal then .literal else .folded)) with
    keyAllowed := true }

/-- The characters that begin no plain scalar. -/
def isIndicator (c : Char) : Bool := "-?:,[]\x7b\x7d#&*!|>'\"%@`".toList.contains c

/-- Whether a plain scalar begins with a character and what follows it. -/
def beginsPlain (inFlow : Bool) (c : Char) (rest : List Char) : Bool :=
  (!isGap c && !isBreak c && !isIndicator c) ||
    (c == '-' && !(rest.head?.map isGap).getD false) ||
    (!inFlow && (c == '?' || c == ':') && !atSpace rest)

/-- Reads one token at a cursor that stands before one. -/
def token (s : State) : Except Error State :=
  match s.cursor.rest with
  | [] => streamEnd s
  | c :: rest =>
    if c == '%' && s.column == 0 then directive s
    else if s.column == 0 && atMarker '-' (c :: rest) then marker .documentStart s
    else if s.column == 0 && atMarker '.' (c :: rest) then marker .documentEnd s
    else if c == '[' then flowStart .flowSequenceStart s
    else if c == '{' then flowStart .flowMappingStart s
    else if c == ']' then flowEnd .flowSequenceEnd s
    else if c == '}' then flowEnd .flowMappingEnd s
    else if c == ',' then flowEntry s
    else if c == '-' && atSpace rest then blockEntry s
    else if c == '?' && (s.inFlow || atSpace rest) then keyIndicator s
    else if c == ':' && (s.inFlow || atSpace rest) then valueIndicator s
    else if c == '*' then
      keyPart (fun s => (Property.anchorName s.cursor).map fun r => (.alias r.1, r.2)) s
    else if c == '&' then
      keyPart (fun s => (Property.anchorName s.cursor).map fun r => (.anchor r.1, r.2)) s
    else if c == '!' then keyPart (fun s => Property.tag s.inFlow s.cursor) s
    else if c == '|' && !s.inFlow then block true s
    else if c == '>' && !s.inFlow then block false s
    else if c == '\'' then
      keyPart (fun s => (singleQuoted s.cursor).map fun r => (.scalar r.1 .singleQuoted, r.2)) s
    else if c == '"' then
      keyPart (fun s => (doubleQuoted s.cursor).map fun r => (.scalar r.1 .doubleQuoted, r.2)) s
    else if beginsPlain s.inFlow c rest then plain s
    else .error .strayCharacter

/-- Moves to the next token and reads it. -/
def step (s : State) : Except Error State := do
  let (keyAllowed, cursor) :=
    skipSpace s.inFlow s.keyAllowed false s.cursor.position s.cursor.rest
  let s ← ({ s with keyAllowed, cursor } : State).dropStaleKeys
  token (s.unroll s.column)

/-- Reads tokens to the end of the text; every step takes a character or ends the text. -/
def run : (fuel : Nat) → State → Except Error (List Token)
  | 0, s => .ok s.tokens.reverse
  | fuel + 1, s => do
    let s ← step s
    if s.finished then return s.tokens.reverse else run fuel s

end Lexer

def tokens (cs : List Char) : Except Error (List Token) :=
  if cs.all isPrintable then Lexer.run (cs.length + 1) (.start cs) else .error .controlCharacter

end ToolGate.Yaml
