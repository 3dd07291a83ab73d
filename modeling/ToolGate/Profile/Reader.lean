import ToolGate.Profile.Basic
import ToolGate.Yaml.Reader

/-!
# Reading profiles

A profile is a YAML record with the name of its service. Its verbs, hints and labels must be right,
as nobody but the reader checks them.

A classifier rule is decided by the first of its fields that names a test. Fields beside the field
and the labels of a rule are taken for what they stand for, so the pattern of a test must be a text
and not merely be written like one.
-/

namespace ToolGate

def Label.ofYaml : Yaml.Reader Label := fun n => do
  let s ← Yaml.asText n
  match Label.ofText? s with
  | some l => return l
  | none => throw (.unknown s)

/-- Reads the test that a field of a rule makes. -/
def Matcher.ofYamlField (name : String) (n : Yaml.Node) : Yaml.Reading Matcher := do
  match name, ← Yaml.asScalar n with
  | "contains", .text s => return .contains s
  | "notContains", .text s => return .notContains s
  | "present", .bool b => return .present b
  | _, _ => throw (.expected "a pattern or a truth value")

namespace ClassifierRule

/-- The depth to which the further fields of a rule may hold collections: a rule itself stands
inside five of them. -/
def maxFieldDepth : Nat := Yaml.Node.maxDepth - 5

def ofYaml : Yaml.Reader ClassifierRule := fun n => do
  let known := ["field", "setLabels"]
  let fields ← Yaml.asRecord known n
  let further ← (fields.filter fun f => !known.contains f.1).mapM fun f => do
    return (f.1, ← Yaml.follow f.2)
  further.forM fun f => Yaml.checkPlainData maxFieldDepth f.2
  let field ← Yaml.required fields "field" Yaml.asText
  let setLabels ← Yaml.required fields "setLabels" (Yaml.asList Label.ofYaml)
  match further.find? fun f => Matcher.names.contains f.1 with
  | some (name, v) => return ⟨field, ← Matcher.ofYamlField name v, setLabels⟩
  | none => throw (.missing "contains, notContains or present")

end ClassifierRule

def ProfileTool.ofYaml : Yaml.Reader ProfileTool := fun n => do
  let fields ← Yaml.asRecord ["hints", "verb", "labels", "classify"] n
  let hints ← Yaml.optional fields "hints" ∅ (Yaml.asMap Yaml.asWord Yaml.asBool)
  let verb ← Yaml.optional fields "verb" none (Yaml.asOption Yaml.asWord)
  let labels ← Yaml.optional fields "labels" [] (Yaml.asList Label.ofYaml)
  let classify ← Yaml.optional fields "classify" none
    (Yaml.asOption (Yaml.asList ClassifierRule.ofYaml))
  return ⟨hints, verb, labels, classify⟩

namespace Profile

def ofYaml : Yaml.Reader Profile := fun n => do
  let fields ← Yaml.asRecord ["service", "tools"] n
  let service ← Yaml.required fields "service" Yaml.asText
  let tools ← Yaml.optional fields "tools" ∅ (Yaml.asMap Yaml.asText ProfileTool.ofYaml)
  return ⟨service, tools⟩

def parse (s : String) : Except Yaml.Error Profile := Yaml.read ofYaml s

end Profile

end ToolGate
