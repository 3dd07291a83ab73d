import ToolGate.Draft.Basic
import ToolGate.Yaml.Reader

/-!
# Reading drafts

A draft is a YAML record. Every field may be left out: texts, lists and maps are then empty, the
priority is zero, and the labels of a condition must all match.
-/

namespace ToolGate

def Yaml.asToolMap {α : Type} (f : Yaml.Reader α) : Yaml.Reader (ToolMap α) :=
  Yaml.asMap Yaml.asText (Yaml.asMap Yaml.asText f)

namespace Draft

def hintNames : List String := (Word.all (α := Hint)).map Word.name

/-- The value of a hint among the fields of a record; one given as null counts as not given. -/
def readHint (fields : List (String × Yaml.Node)) (h : Hint) : Yaml.Reading (Option Bool) :=
  Yaml.optional fields (Word.name h) none (Yaml.asOption Yaml.asBool)

/-- The hints among the fields of a record. -/
def readHints (fields : List (String × Yaml.Node)) : Yaml.Reading HintFields := do
  let readOnly ← readHint fields .readOnly
  let destructive ← readHint fields .destructive
  let idempotent ← readHint fields .idempotent
  let openWorld ← readHint fields .openWorld
  return ⟨readOnly, destructive, idempotent, openWorld⟩

def Override.ofYaml : Yaml.Reader Override := fun n => do
  let fields ← Yaml.asRecord (hintNames ++ ["verb", "labels"]) n
  let hints ← readHints fields
  let verb ← Yaml.optional fields "verb" none (Yaml.asOption Yaml.asText)
  let labels ← Yaml.optional fields "labels" none (Yaml.asOption (Yaml.asList Yaml.asText))
  return ⟨hints, verb, labels⟩

def Classifier.ofYaml : Yaml.Reader Classifier := fun n => do
  let fields ← Yaml.asRecord ["field", "contains", "notContains", "present", "setLabels"] n
  let field ← Yaml.optional fields "field" "" Yaml.asText
  let contains ← Yaml.optional fields "contains" none (Yaml.asOption Yaml.asText)
  let notContains ← Yaml.optional fields "notContains" none (Yaml.asOption Yaml.asText)
  let present ← Yaml.optional fields "present" none (Yaml.asOption Yaml.asBool)
  let setLabels ← Yaml.optional fields "setLabels" [] (Yaml.asList Yaml.asText)
  return ⟨field, contains, notContains, present, setLabels⟩

def Condition.ofYaml : Yaml.Reader Condition := fun n => do
  let fields ← Yaml.asRecord (hintNames ++ ["verb", "labels", "match"]) n
  let hints ← readHints fields
  let verb ← Yaml.optional fields "verb" none (Yaml.asOption Yaml.asText)
  let labels ← Yaml.optional fields "labels" [] (Yaml.asList Yaml.asText)
  let mode ← Yaml.optional fields "match" .all Yaml.asWord
  return ⟨hints, verb, labels, mode⟩

def Rule.ofYaml : Yaml.Reader Rule := fun n => do
  let fields ← Yaml.asRecord
    ["name", "description", "when", "action", "approvers", "timeout", "priority"] n
  let name ← Yaml.optional fields "name" "" Yaml.asText
  let description ← Yaml.optional fields "description" none (Yaml.asOption Yaml.asText)
  let condition ← Yaml.optional fields "when" .empty Condition.ofYaml
  let action ← Yaml.optional fields "action" "" Yaml.asText
  let approvers ← Yaml.optional fields "approvers" [] (Yaml.asList Yaml.asText)
  let timeout ← Yaml.optional fields "timeout" none (Yaml.asOption Yaml.asText)
  let priority ← Yaml.optional fields "priority" 0 Yaml.asInt64
  return ⟨name, description, condition, action, approvers, timeout, priority⟩

def ofYaml : Yaml.Reader Draft := fun n => do
  let fields ← Yaml.asRecord
    ["version", "tenantVars", "profiles", "toolOverrides", "classifierOverrides", "policyRules"] n
  let version ← Yaml.optional fields "version" "" Yaml.asText
  let tenantVars ← Yaml.optional fields "tenantVars" ∅ (Yaml.asMap Yaml.asText Yaml.asText)
  let profiles ← Yaml.optional fields "profiles" [] (Yaml.asList Yaml.asText)
  let toolOverrides ← Yaml.optional fields "toolOverrides" ∅ (Yaml.asToolMap Override.ofYaml)
  let classifierOverrides ← Yaml.optional fields "classifierOverrides" ∅
    (Yaml.asToolMap (Yaml.asList Classifier.ofYaml))
  let policyRules ← Yaml.optional fields "policyRules" [] (Yaml.asList Rule.ofYaml)
  return ⟨version, tenantVars, profiles, toolOverrides, classifierOverrides, policyRules⟩

def parse (s : String) : Except Yaml.Error Draft := Yaml.read ofYaml s

end Draft

end ToolGate
