import ToolGate.Json.Parser
import ToolGate.Json.Printer
import ToolGate.Json.Record
import ToolGate.Policy.Basic

/-!
# Canonical policy text

A released policy is kept and sent as indented JSON. Maps are written in key order and fields in a
fixed order, so equal policies have equal texts. Absent descriptions, verbs and timeouts, empty
approver lists, the empty label list of a condition and the match mode `all` are left out.

Reading takes any layout and order. A classifier rule is decided by the first of its three possible
tests in the text, and a hint written as false is the same as none.
-/

namespace ToolGate

/-! ## Writing -/

/-- A field that is left out when there is no value. -/
def Json.optionalField {α : Type} (name : String) (f : α → Json) : Option α → List (String × Json)
  | none => []
  | some a => [(name, f a)]

/-- The JSON form of a map with text keys. -/
def Json.ofMap {α : Type} (f : α → Json) (m : SortedMap String α) : Json :=
  .object (m.entries.map fun e => (e.1, f e.2))

def Json.ofToolMap {α : Type} (f : α → Json) (m : ToolMap α) : Json := Json.ofMap (Json.ofMap f) m

def Json.ofLabels (ls : List Label) : Json := .array (ls.map fun l => .text l.text)

def Matcher.toField : Matcher → String × Json
  | .contains s => ("contains", .text s)
  | .notContains s => ("notContains", .text s)
  | .present b => ("present", .bool b)

def ClassifierRule.toJson (r : ClassifierRule) : Json :=
  .object [("field", .text r.field), r.matcher.toField, ("setLabels", Json.ofLabels r.setLabels)]

/-- The JSON form of a condition: its hints stand beside its other fields. -/
def Condition.toJson (c : Condition) : Json :=
  .object (c.hints.entries.map (fun e => (Word.name e.1, .bool e.2)) ++
    Json.optionalField "verb" (fun v => .text (Word.name v)) c.verb ++
    (if c.labels.isEmpty then [] else [("labels", Json.ofLabels c.labels)]) ++
    (if c.mode.isAll then [] else [("match", .text (Word.name c.mode))]))

def PolicyRule.toJson (r : PolicyRule) : Json :=
  .object ([("name", .text r.name)] ++
    Json.optionalField "description" .text r.description ++
    [("when", r.condition.toJson), ("action", .text (Word.name r.action))] ++
    (if r.approvers.isEmpty then [] else [("approvers", .array (r.approvers.map .text))]) ++
    Json.optionalField "timeout" .text r.timeout ++
    [("priority", Json.ofNat r.priority.toNat)])

/-- The JSON form of an annotation: the hints that hold are written as true. -/
def Annotation.toJson (a : Annotation) : Json :=
  .object ([("annotations", .object (a.hints.toList.map fun h => (Word.name h, .bool true)))] ++
    Json.optionalField "verb" (fun v => .text (Word.name v)) a.verb ++
    [("labels", Json.ofLabels a.labels)])

def Policy.toJson (p : Policy) : Json :=
  .object
    [("version", .text p.version),
     ("toolAnnotations", Json.ofToolMap Annotation.toJson p.annotations),
     ("classifiers",
       Json.ofToolMap (fun rs => .array (rs.map ClassifierRule.toJson)) p.classifiers),
     ("policyRules", .array (p.rules.map PolicyRule.toJson))]

/-- The canonical text of a policy. -/
def Policy.render (p : Policy) : String := p.toJson.pretty

/-! ## Reading -/

def Label.ofJson : Json.Reader Label
  | .text s =>
    match Label.ofText? s with
    | some l => .ok l
    | none => .error (.unknown s)
  | _ => .error (.expected "a text")

/-- Reads the test that a field of a classifier rule makes. -/
def Matcher.ofField (name : String) (v : Json) : Except Json.Error Matcher :=
  if name = "contains" then (Json.asText v).map .contains
  else if name = "notContains" then (Json.asText v).map .notContains
  else (Json.asBool v).map .present

/-- Reads a classifier rule, which stands inside four collections and is read as a whole; the first
field that names a test decides. -/
def ClassifierRule.ofJson : Json.Reader ClassifierRule := fun v => do
  Json.checkWhole 4 v
  let members ← Json.asMembers ["field", "setLabels"] v
  let field ← Json.required members "field" Json.asText
  let matcher ← match members.find? (fun m => Matcher.names.contains m.1) with
    | some (name, w) => Matcher.ofField name w
    | none => .error (.missing "contains, notContains or present")
  let setLabels ← Json.required members "setLabels" (Json.asList Label.ofJson)
  return ⟨field, matcher, setLabels⟩

/-- Reads a condition; every field beside the known ones must be a hint. -/
def Condition.ofJson : Json.Reader Condition := fun v => do
  let known := ["verb", "labels", "match"]
  let members ← Json.asMembers known v
  let hints ← Json.asMap Json.wordOfName Json.asBool
    (.object (members.filter fun m => !known.contains m.1))
  let verb ← Json.optional members "verb" none (Json.asOption Json.asWord)
  let labels ← Json.optional members "labels" [] (Json.asList Label.ofJson)
  let mode ← Json.optional members "match" .all Json.asWord
  return ⟨hints, verb, labels, mode⟩

/-- Reads a priority: an integer of 16 bits without sign. -/
def PolicyRule.priorityOfJson : Json.Reader UInt16
  | .number (.integer n) =>
    if 0 ≤ n ∧ n < 65536 then .ok (UInt16.ofNat n.toNat)
    else .error (.expected "a priority below 65536")
  | _ => .error (.expected "a priority below 65536")

def PolicyRule.ofJson : Json.Reader PolicyRule := fun v => do
  let members ← Json.asRecord
    ["name", "description", "when", "action", "approvers", "timeout", "priority"] v
  let name ← Json.required members "name" Json.asText
  let description ← Json.optional members "description" none (Json.asOption Json.asText)
  let condition ← Json.optional members "when" Condition.empty Condition.ofJson
  let action ← Json.required members "action" Json.asWord
  let approvers ← Json.optional members "approvers" [] (Json.asList Json.asText)
  let timeout ← Json.optional members "timeout" none (Json.asOption Json.asText)
  let priority ← Json.required members "priority" PolicyRule.priorityOfJson
  return ⟨name, description, condition, action, approvers, timeout, priority⟩

/-- Reads an annotation; of its hints the true ones hold. -/
def Annotation.ofJson : Json.Reader Annotation := fun v => do
  let members ← Json.asRecord ["annotations", "verb", "labels"] v
  let hints ← Json.required members "annotations" (Json.asMap Json.wordOfName Json.asBool)
  let verb ← Json.optional members "verb" none (Json.asOption Json.asWord)
  let labels ← Json.optional members "labels" [] (Json.asList Label.ofJson)
  return ⟨HintSet.ofMap hints, verb, labels⟩

def Json.asToolMap {α : Type} (f : Json.Reader α) : Json.Reader (ToolMap α) :=
  Json.asMap .ok (Json.asMap .ok f)

def Policy.ofJson : Json.Reader Policy := fun v => do
  let members ← Json.asRecord ["version", "toolAnnotations", "classifiers", "policyRules"] v
  let version ← Json.required members "version" Json.asText
  let annotations ← Json.required members "toolAnnotations" (Json.asToolMap Annotation.ofJson)
  let classifiers ← Json.required members "classifiers"
    (Json.asToolMap (Json.asList ClassifierRule.ofJson))
  let rules ← Json.required members "policyRules" (Json.asList PolicyRule.ofJson)
  return ⟨version, annotations, classifiers, rules⟩

def Policy.parse (s : String) : Except Json.Error Policy := do
  Policy.ofJson (← Json.parse s)

end ToolGate
