import ToolGate.Command.Arguments
import ToolGate.Command.Basic

/-!
# Reading commands

A command is the word `policy` or `route` with a subcommand, or the word `access`. Its operands and
options are read level by level; what does not fit is no command.
-/

namespace ToolGate

namespace Command

/-- The words of a level without operands of its own: those of the subcommand. -/
def outer (options : List OptionRule) (words : List String) :
    Option (Arguments × String × List String) :=
  match Level.read ⟨options, true⟩ words with
  | some (a, name :: rest) => some (a, name, rest)
  | _ => none

/-- The options of a command and its operands, so many as there must be. -/
def inner (options : List OptionRule) (operands : Nat) (words : List String) : Option Arguments :=
  match Level.read ⟨options, false⟩ words with
  | some (a, _) => if a.operands.length = operands then some a else none
  | none => none

/-- The operand of a command that has one. -/
def readOperand (options : List OptionRule) (words : List String) : Option (Arguments × String) :=
  match inner options 1 words with
  | some a => a.operands.head?.map fun operand => (a, operand)
  | none => none

/-- A path, which cannot be empty. -/
def readPath (s : String) : Option String := if s = "" then none else some s

def readPolicy (shared : List OptionRule) (words : List String) : Option Command := do
  let (_, name, words) ← outer shared words
  match name with
  | "validate" =>
    let (_, document) ← readOperand shared words
    return .validate (← readPath document)
  | "compile" =>
    let (a, document) ← readOperand (shared ++ [⟨"output", some 'o', .path⟩]) words
    return .compile (← readPath document) (a.value? "output")
  | "publish" =>
    let (_, document) ← readOperand shared words
    return .publish (← readPath document)
  | "show" =>
    let _ ← inner shared 0 words
    return .showPolicy
  | "profiles" =>
    let _ ← inner shared 0 words
    return .profiles
  | _ => none

def protocolOption : OptionRule := ⟨"protocol", none, .text⟩

def readProtocol (a : Arguments) : Option Route.Protocol :=
  a.value? "protocol" >>= Route.Protocol.read?

def readKey (a : Arguments) : Option Route.Key :=
  match a.operands with
  | service :: tool :: _ => some ⟨service, tool⟩
  | _ => none

/-- Reads a key and a binding for it. -/
def readBinding (shared : List OptionRule) (words : List String) :
    Option (Route.Key × Route.Binding) := do
  let options :=
    shared ++ [protocolOption, ⟨"instance", none, .text⟩, ⟨"endpoint", none, .text⟩]
  let a ← inner options 2 words
  let protocol ← readProtocol a
  let instanceRef ← a.value? "instance"
  let endpointRef ← a.value? "endpoint"
  return (← readKey a, { protocol, instanceRef, endpointRef })

def readRoute (shared : List OptionRule) (words : List String) : Option Command := do
  let (_, name, words) ← outer shared words
  match name with
  | "register" =>
    let (key, binding) ← readBinding shared words
    return .change (.register key binding)
  | "stack" =>
    let (key, binding) ← readBinding shared words
    return .change (.stack key binding)
  | "ensure" =>
    let (key, binding) ← readBinding shared words
    return .change (.ensure key binding)
  | "unstack" =>
    let a ← inner (shared ++ [protocolOption]) 2 words
    return .change (.unstack (← readKey a) (← readProtocol a))
  | "mode" =>
    let a ← inner shared 3 words
    let mode ← a.operands.getLast? >>= Route.Mode.read?
    return .change (.setMode (← readKey a) mode)
  | "clear" =>
    let a ← inner shared 2 words
    return .change (.clear (← readKey a))
  | "list" =>
    let a ← inner (shared ++ [⟨"service", none, .text⟩]) 0 words
    return .routes (a.value? "service")
  | _ => none

/-- Reads a report on grants, of which there must be one at least. -/
def readAccess (shared : List OptionRule) (words : List String) : Option Command := do
  let a ← inner (shared ++ [⟨"grant", none, .texts⟩, ⟨"json", none, .switch⟩]) 0 words
  let grants ← (a.values "grant").mapM Route.Key.ofText?
  if grants.isEmpty then none else return .access grants (a.has "json")

/-- Reads a command whose name stands apart from the words behind it. -/
def readNamed (shared : List OptionRule) (name : String) (words : List String) : Option Command :=
  match name with
  | "policy" => readPolicy shared words
  | "route" => readRoute shared words
  | "access" => readAccess shared words
  | _ => none

/-- Reads a command; `shared` are the options that each of its levels has. -/
def ofWords? (shared : List OptionRule) (words : List String) : Option Command := do
  let (_, name, words) ← outer shared words
  readNamed shared name words

end Command

namespace Invocation

/-- The option that each level of an invocation has. -/
def shared : List Command.OptionRule := [⟨"verbose", some 'v', .switch⟩]

/-- The options that stand before the command only. -/
def leading : List Command.OptionRule :=
  [⟨"project-root", none, .path⟩, ⟨"version", some 'V', .last⟩]

/-- Reads the words that the program is called with. -/
def ofWords? (words : List String) : Option Invocation := do
  let (a, rest) ← Command.Level.read ⟨shared ++ leading, true⟩ words
  if a.ended then return .version
  match rest with
  | name :: words =>
    return .run ((a.value? "project-root").getD ".") (← Command.readNamed shared name words)
  | [] => none

end Invocation

end ToolGate
