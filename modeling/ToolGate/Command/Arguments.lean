import ToolGate.Text.Cut

/-!
# Arguments of commands

The words of a command line are options, values of options and operands. An option has a long name
behind two dashes and may have a letter behind one; letters can be joined. The value of an option is
attached to it or is the next word, which may then not look like an option. Behind a word of two
dashes all words are operands.

A level of a command line is a command with its options. A level that has subcommands ends with its
first operand, the name of one, and the words from there on are left for the next level.
-/

namespace ToolGate.Command

/-- What an option takes, and how often it may be given. -/
inductive OptionKind where
  /-- No value; at most once. -/
  | switch
  /-- No value; no word behind it is read. -/
  | last
  /-- A text; at most once. -/
  | text
  /-- A text that is not empty; at most once. -/
  | path
  /-- A text; any number of times. -/
  | texts
deriving DecidableEq, Repr

namespace OptionKind

def takesValue : OptionKind → Bool
  | .switch | .last => false
  | .text | .path | .texts => true

/-- Whether a value can be given to an option. -/
def accepts (k : OptionKind) (value : String) : Bool := k != .path || value != ""

end OptionKind

/-- An option of a command. -/
structure OptionRule where
  name : String
  letter : Option Char
  kind : OptionKind
deriving DecidableEq, Repr

/-- A level of a command line. -/
structure Level where
  options : List OptionRule
  hasSubcommands : Bool
deriving DecidableEq, Repr

/-! ## Words -/

/-- What a word looks like. -/
inductive Shape where
  | operand
  /-- The two dashes behind which all words are operands. -/
  | stop
  | long (name : String) (value : Option String)
  /-- Letters, the last of which may be followed by its value. -/
  | letters (cs : List Char)
deriving DecidableEq, Repr

/-- The shape of a word. A single dash is an operand. -/
def Shape.ofWord (word : String) : Shape :=
  match word.toList with
  | ['-', '-'] => .stop
  | '-' :: '-' :: cs =>
    match Text.cut? '=' cs with
    | some (name, value) => .long (String.ofList name) (some (String.ofList value))
    | none => .long (String.ofList cs) none
  | '-' :: c :: cs => .letters (c :: cs)
  | _ => .operand

/-! ## Reading a level -/

/-- What has been read of a level. -/
structure Arguments where
  /-- The options with their values, in order; an option without a value has the empty text. -/
  options : List (String × String)
  operands : List String
  /-- The option that the next word must be the value of. -/
  pending : Option OptionRule
  operandsOnly : Bool
  /-- Whether no further word is read. -/
  ended : Bool

namespace Arguments

def empty : Arguments := ⟨[], [], none, false, false⟩

def has (a : Arguments) (name : String) : Bool := a.options.any (·.1 == name)

def values (a : Arguments) (name : String) : List String :=
  (a.options.filter (·.1 == name)).map (·.2)

/-- The value of an option that can be given once. -/
def value? (a : Arguments) (name : String) : Option String := (a.values name).head?

/-- Gives an option a value. -/
def give (a : Arguments) (rule : OptionRule) (value : String) : Option Arguments :=
  if rule.kind ≠ .texts ∧ a.has rule.name then none
  else if rule.kind.accepts value then
    some
      { a with
        options := a.options ++ [(rule.name, value)]
        pending := none
        ended := rule.kind = .last }
  else none

/-- Reads an option by its long name. -/
def long (rules : List OptionRule) (a : Arguments) (name : String) (value : Option String) :
    Option Arguments := do
  let rule ← rules.find? (·.name == name)
  match rule.kind.takesValue, value with
  | false, none => a.give rule ""
  | false, some _ => none
  | true, some v => a.give rule v
  | true, none => return { a with pending := some rule }

/-- The value behind the letter of an option. -/
def attached (cs : List Char) : String :=
  match cs with
  | '=' :: cs => String.ofList cs
  | cs => String.ofList cs

/-- Reads options by their letters. -/
def letters (rules : List OptionRule) (a : Arguments) : List Char → Option Arguments
  | [] => some a
  | c :: cs => do
    let rule ← rules.find? (·.letter == some c)
    if rule.kind.takesValue then
      if cs.isEmpty then return { a with pending := some rule } else a.give rule (attached cs)
    else
      let a ← a.give rule ""
      if a.ended then return a else a.letters rules cs

/-- Reads the words of a level; the words of the next level are left. -/
def read (level : Level) (a : Arguments) : List String → Option (Arguments × List String)
  | [] => if a.pending.isSome then none else some (a, [])
  | w :: ws =>
    if a.ended then some (a, [])
    else if a.operandsOnly then
      if level.hasSubcommands then none else read level { a with operands := a.operands ++ [w] } ws
    else
      match a.pending, Shape.ofWord w with
      | some rule, .operand => do read level (← a.give rule w) ws
      | some _, _ => none
      | none, .operand =>
        if level.hasSubcommands then some (a, w :: ws)
        else read level { a with operands := a.operands ++ [w] } ws
      | none, .stop => read level { a with operandsOnly := true } ws
      | none, .long name value => do read level (← a.long level.options name value) ws
      | none, .letters cs => do read level (← a.letters level.options cs) ws

end Arguments

/-- Reads a level of a command line; the words of the next level are left. -/
def Level.read (level : Level) (words : List String) : Option (Arguments × List String) :=
  Arguments.empty.read level words

end ToolGate.Command
