import ToolGate.Rule.Classifier
import ToolGate.Rule.PolicyRule
import ToolGate.ToolMap

/-!
# Released policies

A released policy is what a gateway enforces: for every tool its hints, verb and labels, the
classifier rules of the tools that have some, and the policy rules.
-/

namespace ToolGate

/-- What a policy says about one tool. -/
structure Annotation where
  hints : HintSet
  verb : Option Verb
  labels : List Label
deriving DecidableEq

namespace Annotation

def empty : Annotation := ⟨∅, none, []⟩

end Annotation

structure Policy where
  version : String
  annotations : ToolMap Annotation
  classifiers : ToolMap (List ClassifierRule)
  rules : List PolicyRule
deriving DecidableEq

end ToolGate
