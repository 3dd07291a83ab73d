import ToolGate.Command.Basic
import ToolGate.Project.Basic

/-!
# What commands reach

The paths that a command may look at or change, for a program that has to bring their files together
first. Beside them a command looks at what the catalog directory holds.
-/

namespace ToolGate

/-- The paths that the settings of a project name. -/
def Project.reach (p : Project) : List String :=
  [p.catalogPath, p.policyPath, p.routesPath, p.instancesPath, p.servicesPath]

/-- The paths that a command names. -/
def Command.named (p : Project) : Command → List String
  | .validate document | .publish document | .compile document none => [p.path document]
  | .compile document (some output) => [p.path document, output]
  | .showPolicy | .profiles | .change _ | .routes _ | .access _ _ => []

/-- The paths that a command on a project may look at or change. -/
def Command.reach (p : Project) (c : Command) : List String := p.reach ++ c.named p

end ToolGate
