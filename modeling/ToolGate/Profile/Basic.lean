import ToolGate.Rule.Classifier
import ToolGate.SortedMap.Basic
import ToolGate.Vocabulary.Hint
import ToolGate.Vocabulary.Verb

/-!
# Community profiles

A profile holds what is known in general about the tools of one service. Documents import profiles
and then change what they see differently.
-/

namespace ToolGate

/-- What a profile says about one tool. -/
structure ProfileTool where
  hints : HintMap
  verb : Option Verb
  labels : List Label
  classify : Option (List ClassifierRule)
deriving DecidableEq

namespace ProfileTool

def empty : ProfileTool := ⟨∅, none, [], none⟩

/-- The hints that a profile gives as true; the others are not taken over. -/
def trueHints (t : ProfileTool) : HintSet := HintSet.ofMap t.hints

end ProfileTool

/-- What is known about the tools of a service. -/
structure Profile where
  service : String
  tools : SortedMap String ProfileTool
deriving DecidableEq

end ToolGate
