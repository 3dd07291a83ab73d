import ToolGate.Vocabulary.Label

/-!
# Classifier rules

A classifier rule labels a call by what one of its fields holds.
-/

namespace ToolGate

/-- The test a classifier rule makes on its field. -/
inductive Matcher where
  | contains (pattern : String)
  | notContains (pattern : String)
  | present (expected : Bool)
deriving DecidableEq

namespace Matcher

/-- The names of the tests, as fields of a written rule. -/
def names : List String := ["contains", "notContains", "present"]

end Matcher

/-- A test on a field, with the labels that a call gets when it passes. -/
structure ClassifierRule where
  field : String
  matcher : Matcher
  setLabels : List Label
deriving DecidableEq

end ToolGate
