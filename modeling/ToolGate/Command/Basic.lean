import ToolGate.Route.Change
import ToolGate.Route.Access

/-!
# Commands

What can be asked of a project: to check, compile and release its policy, to change and list its
routes, and to report what grants amount to.
-/

namespace ToolGate

/-- A command on a project. -/
inductive Command where
  /-- Tells the defects of a document. -/
  | validate (document : String)
  /-- Compiles a document, and prints the policy or writes it to a file. -/
  | compile (document : String) (output : Option String)
  /-- Compiles a document and releases the policy. -/
  | publish (document : String)
  /-- Prints the released policy. -/
  | showPolicy
  /-- Prints the services that the catalog has profiles for. -/
  | profiles
  | change (change : Route.Change)
  /-- Prints the route groups, of one service if one is given. -/
  | routes (service : Option String)
  /-- Reports what grants amount to. -/
  | access (grants : List Route.Grant) (json : Bool)
deriving DecidableEq, Repr

/-- What the program is called for. -/
inductive Invocation where
  | version
  | run (root : String) (command : Command)
deriving DecidableEq, Repr

end ToolGate
