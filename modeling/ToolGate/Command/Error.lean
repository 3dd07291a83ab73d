import ToolGate.Project.Basic
import ToolGate.Route.Error

/-!
# Why a command fails

The description of a failure is followed by those of its causes.
-/

namespace ToolGate.Command

inductive Error where
  | project (cause : Project.Error)
  | policy (cause : Policy.Error)
  | route (cause : Route.Error)
  /-- A document has so many defects. -/
  | defective (path : String) (count : Nat)
  /-- A document was not compiled for its defects. -/
  | notCompiled (path : String) (findings : List Finding)
  | unwritable (path : String) (cause : Files.Fault)
  | noSnapshot (path : String) (cause : Route.Error)
deriving DecidableEq

namespace Error

/-- The descriptions of a failure and of its causes, from the outermost one inwards. -/
def chain : Error → List String
  | .project cause => cause.chain
  | .policy cause => cause.chain
  | .route cause => cause.chain
  | .defective path count => [path ++ ": " ++ toString count ++ " finding(s)"]
  | .notCompiled path findings =>
    (path ++ " was not compiled") :: (Policy.Error.invalid findings).chain
  | .unwritable path cause => ["failed to write " ++ path, cause.message]
  | .noSnapshot path cause => ("failed to load " ++ path) :: cause.chain

/-! ## Printing failures -/

/-- A text with something in front of its first line and something else in front of the others. -/
def indent (first other s : String) : String :=
  first ++ String.intercalate ("\n" ++ other) (s.splitOn "\n")

/-- Numbered causes, one below the other. -/
def numbered (causes : List String) : List String :=
  causes.zipIdx.map fun c =>
    let number := toString c.2
    let gap := String.ofList (List.replicate (5 - number.length) ' ')
    indent (gap ++ number ++ ": ") "       " c.1

/-- The causes of a failure; several are numbered. -/
def causeLines : List String → List String
  | [] => []
  | [cause] => ["", "Caused by:", indent "    " "    " cause]
  | causes => "" :: "Caused by:" :: numbered causes

def report (e : Error) : String :=
  match e.chain with
  | [] => ""
  | message :: causes =>
    String.join ((("Error: " ++ message) :: causeLines causes).map (· ++ "\n"))

end Error

end ToolGate.Command
