import ToolGate.Files.Tree
import ToolGate.Policy.Canonical
import ToolGate.Policy.Error

/-!
# Stores of released policies

A store holds one policy or none. Publishing replaces the policy as a whole. The policy is held in
memory, in a file with its canonical text, or by a server.
-/

namespace ToolGate.Policy

/-- A store whose content is part of a state `σ`. -/
structure Store (σ : Type) where
  get : σ → Except TransportError (Option Policy)
  set : Policy → σ → Except TransportError Unit × σ

namespace Store

/-- The names of the two operations. -/
def getOperation : String := "get_policy"

@[inherit_doc getOperation]
def setOperation : String := "set_policy"

def memory : Store (Option Policy) where
  get s := .ok s
  set p _ := (.ok (), some p)

/-- The policy in a file, if there is a file. -/
def readFile (path : String) (t : Files.Tree) : Except TransportError (Option Policy) :=
  if t.holds path then
    match t.read path with
    | .error e => .error (.at_ getOperation path e.message)
    | .ok s =>
      match Policy.parse s with
      | .error e => .error (.at_ getOperation path e.message)
      | .ok p => .ok (some p)
  else .ok none

def file (path : String) : Store Files.Tree where
  get := readFile path
  set p := ((Files.Tree.save path p.render).adapt fun e =>
    .at_ setOperation e.path e.fault.message).run

/-- The address of the policy on a server; slashes at the end of the server's own are dropped. -/
def policyUrl (url : String) : String :=
  String.ofList (url.toList.reverse.dropWhile (· == '/')).reverse ++ "/policy"

/-- Why a request is not made. -/
def noRequest : String := "builder error: no request can be made for the address"

/-- A store on a server whose address no request can be made for. -/
def unreachable (σ : Type) : Store σ where
  get _ := .error ⟨getOperation, noRequest⟩
  set _ s := (.error ⟨setOperation, noRequest⟩, s)

end Store

end ToolGate.Policy
