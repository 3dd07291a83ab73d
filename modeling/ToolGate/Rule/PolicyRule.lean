import ToolGate.Vocabulary.Hint
import ToolGate.Vocabulary.Label
import ToolGate.Vocabulary.Verb

/-!
# Policy rules

A policy rule says what happens to the calls that meet its condition. Each rule has a priority;
documents use the numbers 0 to 999.
-/

namespace ToolGate

/-- How the labels of a condition combine. -/
inductive MatchMode where
  | all
  | any
deriving DecidableEq, Repr

namespace MatchMode

instance : Word MatchMode where
  all := [.all, .any]
  name
    | .all => "all"
    | .any => "any"
  mem_all a := by cases a <;> decide
  name_injective a b := by cases a <;> cases b <;> decide

def isAll : MatchMode → Bool
  | .all => true
  | .any => false

end MatchMode

/-- What a policy rule looks for in a call. -/
structure Condition where
  hints : HintMap
  verb : Option Verb
  labels : List Label
  mode : MatchMode
deriving DecidableEq

namespace Condition

def empty : Condition := ⟨∅, none, [], .all⟩

/-- Whether a condition asks for nothing; the mode alone is no request. -/
def isEmpty (c : Condition) : Bool := c.hints.isEmpty && c.verb.isNone && c.labels.isEmpty

end Condition

/-- What a policy rule does with a call. -/
inductive Action where
  | allow
  | deny
  | evaluateExternally
deriving DecidableEq, Repr

namespace Action

instance : Word Action where
  all := [.allow, .deny, .evaluateExternally]
  name
    | .allow => "allow"
    | .deny => "deny"
    | .evaluateExternally => "evaluateExternally"
  mem_all a := by cases a <;> decide
  name_injective a b := by cases a <;> cases b <;> decide

/-- Whether the action asks somebody, so that approvers must be named. -/
def requiresApprovers : Action → Bool
  | .evaluateExternally => true
  | _ => false

end Action

structure PolicyRule where
  name : String
  description : Option String
  condition : Condition
  action : Action
  approvers : List String
  timeout : Option String
  priority : UInt16
deriving DecidableEq

namespace PolicyRule

/-- The greatest priority number a document may use. -/
def maxPriority : Nat := 999

end PolicyRule

end ToolGate
