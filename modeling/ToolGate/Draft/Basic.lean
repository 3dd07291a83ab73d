import ToolGate.Rule.PolicyRule
import ToolGate.Tenant.Template
import ToolGate.ToolMap

/-!
# Policy documents as they are written

A draft is a policy document in the words of its author. Everything that an author may get wrong is
kept as it was written, so that all defects of a draft can be told at once.
-/

namespace ToolGate

namespace Draft

/-- The hints as fields of a draft, each with the value that is given for it, if one is. -/
structure HintFields where
  readOnly : Option Bool
  destructive : Option Bool
  idempotent : Option Bool
  openWorld : Option Bool

def HintFields.empty : HintFields := ⟨none, none, none, none⟩

/-- What a draft changes about one tool. -/
structure Override extends HintFields where
  verb : Option String
  labels : Option (List String)

/-- A classifier rule with any number of tests. -/
structure Classifier where
  field : String
  contains : Option String
  notContains : Option String
  present : Option Bool
  setLabels : List String

structure Condition extends HintFields where
  verb : Option String
  labels : List String
  mode : MatchMode

/-- The condition that asks for nothing. -/
def Condition.empty : Condition := ⟨.empty, none, [], .all⟩

structure Rule where
  name : String
  description : Option String
  condition : Condition
  action : String
  approvers : List String
  timeout : Option String
  priority : Int

end Draft

/-- A policy document as it is written. -/
structure Draft where
  version : String
  tenantVars : TenantVars
  profiles : List String
  toolOverrides : ToolMap Draft.Override
  classifierOverrides : ToolMap (List Draft.Classifier)
  policyRules : List Draft.Rule

end ToolGate
