import ToolGate.Profile.Id
import ToolGate.Rule.Classifier
import ToolGate.Rule.PolicyRule
import ToolGate.Tenant.Template
import ToolGate.ToolMap

/-!
# Policy documents

A policy document without defects: its verbs, labels, actions and profile ids are of their types,
every classifier rule has one test, and priorities are small numbers.
-/

namespace ToolGate

/-- What a document changes about one tool: the hints that it gives, and the verb and the labels if
it gives some. -/
structure Override where
  hints : HintMap
  verb : Option Verb
  labels : Option (List Label)
deriving DecidableEq

namespace Override

def empty : Override := ⟨∅, none, none⟩

end Override

/-- A policy document without defects. -/
structure Document where
  version : String
  tenantVars : TenantVars
  profiles : List ProfileId
  toolOverrides : ToolMap Override
  classifierOverrides : ToolMap (List ClassifierRule)
  policyRules : List PolicyRule
deriving DecidableEq

end ToolGate
