import ToolGate.Vocabulary.Word

/-!
# Verbs

What a tool does to the things it works on, as one of five words.
-/

namespace ToolGate

/-- The kind of access a tool makes. -/
inductive Verb where
  | get
  | list
  | create
  | update
  | delete
deriving DecidableEq, Repr

namespace Verb

instance : Word Verb where
  all := [.get, .list, .create, .update, .delete]
  name
    | .get => "get"
    | .list => "list"
    | .create => "create"
    | .update => "update"
    | .delete => "delete"
  mem_all a := by cases a <;> decide
  name_injective a b := by cases a <;> cases b <;> decide

def rejection (raw : String) : String :=
  "invalid verb '" ++ raw ++ "': expected one of get, list, create, update, delete"

end Verb

end ToolGate
