import ToolGate.Command.Reader
import ToolGate.Command.Run

/-!
# Sessions

A session is one call of the program: it finds the project, runs the command there and ends with a
status, zero for success.
-/

namespace ToolGate

/-- How a call of the program ended. -/
structure Session where
  status : Nat
  output : String
  /-- What was printed beside the output. -/
  notes : String
  tree : Files.Tree

namespace Session

def versionLine : String := "tg 0.3.0"

def failureStatus : Nat := 1

/-- The status of words that are no call of the program. -/
def usageStatus : Nat := 2

/-- The full path of what a path leads to, or the path itself if it leads nowhere. -/
def fullPath (t : Files.Tree) (path : String) : String :=
  match t.locate path with
  | .ok (.taken place _) => Files.Path.ofSteps true place
  | _ => path

/-- Runs a command in the project of a directory. -/
def runIn (root : String) (c : Command) : Command.Step Unit := do
  let project ← Command.Step.look .project fun t => Project.load t root
  c.run project

/-- A session from its beginning to its end. -/
def run (t : Files.Tree) : Invocation → Session
  | .version => ⟨0, versionLine ++ "\n", "", t⟩
  | .run root c =>
    match (runIn (fullPath t root) c).run ⟨t, "", ""⟩ with
    | (.ok _, s) => ⟨0, s.output, s.notes, s.tree⟩
    | (.error e, s) => ⟨failureStatus, s.output, s.notes ++ e.report, s.tree⟩

end Session

end ToolGate
