import ToolGate.Json.Basic
import ToolGate.Policy.Error
import ToolGate.Route.Key

/-!
# Why a route is not changed or read

An operation may not fit the table, and the store may fail. A failure of the store during an
operation is told as a failure of that operation, with its cause in the message.
-/

namespace ToolGate.Route

/-- Why an operation on routes failed. -/
inductive Error where
  | alreadyExists (key : Key)
  | notFound (key : Key) (what : String)
  | invalidState (key : Key) (reason : String)
  | transport (cause : TransportError)
  | io (path cause : String)
  | serialization (cause : Json.Error)
deriving DecidableEq

namespace Error

def message : Error → String
  | .alreadyExists key => "route group already exists for " ++ key.text
  | .notFound key what => what ++ " not found for " ++ key.text
  | .invalidState key reason => "invalid state for " ++ key.text ++ ": " ++ reason
  | .transport cause => cause.text
  | .io path cause => "I/O error at " ++ path ++ ": " ++ cause
  | .serialization cause => "serialization error: " ++ cause.message

/-- The descriptions of an error and of its causes, from the outermost one inwards. -/
def chain (e : Error) : List String :=
  e.message ::
    match e with
    | .io _ cause => [cause]
    | .serialization cause => [cause.message]
    | _ => []

/-- Whether another attempt may help. -/
def isRetryable : Error → Bool
  | .transport _ | .io _ _ => true
  | _ => false

/-- A failure of the store, told as a failure of the operation that was attempted. -/
def during (operation : String) : Error → Error
  | .transport cause =>
    if cause.operation = operation then .transport cause
    else .transport ⟨operation, cause.operation ++ ": " ++ cause.message⟩
  | .io path cause => .transport ⟨operation, path ++ ": " ++ cause⟩
  | .serialization cause => .transport ⟨operation, "routing table: " ++ cause.message⟩
  | e => e

end Error

end ToolGate.Route
