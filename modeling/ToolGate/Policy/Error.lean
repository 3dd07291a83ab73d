import ToolGate.Draft.Finding
import ToolGate.Files.Fault
import ToolGate.Yaml.Error

/-!
# Why no policy comes about

A document may have defects, its profiles may be missing, and stores, catalogs and files may fail.
-/

namespace ToolGate

/-- A catalog or store could not be reached. It is always worth another attempt. -/
structure TransportError where
  operation : String
  message : String
deriving DecidableEq, Repr

namespace TransportError

def text (e : TransportError) : String := e.operation ++ " failed: " ++ e.message

/-- A failure at a path. -/
def at_ (operation path cause : String) : TransportError := ⟨operation, path ++ ": " ++ cause⟩

end TransportError

namespace Policy

/-- Why a policy was not compiled, published or fetched. -/
inductive Error where
  | invalid (findings : List Finding)
  | badProfileId (raw : String)
  | profileMissing (id service : String)
  | transport (cause : TransportError)
  | io (path : String) (cause : Files.Fault)
  | parse (cause : Yaml.Error)
deriving DecidableEq

namespace Error

def message : Error → String
  | .invalid findings =>
    "policy document has " ++ toString findings.length ++ " validation finding(s)"
  | .badProfileId raw => ProfileId.rejection raw
  | .profileMissing id service =>
    "profile '" ++ id ++ "' not found (no catalog entry for service '" ++ service ++ "')"
  | .transport cause => cause.text
  | .io path cause => "I/O error at " ++ path ++ ": " ++ cause.message
  | .parse cause => "failed to parse policy document: " ++ cause.message

/-- The descriptions of an error and of its causes, from the outermost one inwards. -/
def chain (e : Error) : List String :=
  e.message ::
    match e with
    | .io _ cause => [cause.message]
    | .parse cause => [cause.message]
    | _ => []

end Error

end Policy

end ToolGate
