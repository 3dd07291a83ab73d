import ToolGate.Json.Basic
import ToolGate.Rule.Classifier
import ToolGate.Tenant.Template
import ToolGate.ToolMap

/-!
# Filling in structured values

Tenant variables are put into the texts of a value and nowhere else: its shape, the names of its
members and everything that is no text stay. Of a classifier rule the field and the pattern are
filled in; labels hold no braces and stay.
-/

namespace ToolGate

namespace Json

mutual

/-- Fills in the texts of a value. -/
def fill (vars : TenantVars) : Json → Json
  | .null => .null
  | .bool b => .bool b
  | .number n => .number n
  | .text s => .text (vars.fill s)
  | .array items => .array (fillItems vars items)
  | .object members => .object (fillMembers vars members)
  | .unreadable => .unreadable

def fillItems (vars : TenantVars) : List Json → List Json
  | [] => []
  | v :: vs => fill vars v :: fillItems vars vs

def fillMembers (vars : TenantVars) : List (String × Json) → List (String × Json)
  | [] => []
  | (k, v) :: ms => (k, fill vars v) :: fillMembers vars ms

end

theorem fillItems_eq_map (vars : TenantVars) (vs : List Json) :
    fillItems vars vs = vs.map (fill vars) := by
  induction vs with
  | nil => rfl
  | cons v vs ih => simp [fillItems, ih]

theorem fillMembers_eq_map (vars : TenantVars) (ms : List (String × Json)) :
    fillMembers vars ms = ms.map (fun m => (m.1, fill vars m.2)) := by
  induction ms with
  | nil => rfl
  | cons m ms ih => simp [fillMembers, ih]

end Json

def Matcher.fill (vars : TenantVars) : Matcher → Matcher
  | .contains s => .contains (vars.fill s)
  | .notContains s => .notContains (vars.fill s)
  | .present b => .present b

/-- Fills in the field and the pattern of a rule. -/
def ClassifierRule.fill (vars : TenantVars) (r : ClassifierRule) : ClassifierRule :=
  { r with field := vars.fill r.field, matcher := r.matcher.fill vars }

/-- Fills in the rules of every tool. -/
def ToolMap.fillRules (vars : TenantVars) (m : ToolMap (List ClassifierRule)) :
    ToolMap (List ClassifierRule) :=
  m.mapValues (List.map (ClassifierRule.fill vars))

end ToolGate
