import ToolGate.Document.Basic
import ToolGate.Draft.Finding

/-!
# From drafts to documents

A draft is typed part by part, and a part that is the text of nothing is left out. Typing alone
tells of no defect: whether its result is released as the document of the draft is for the findings
to decide.
-/

namespace ToolGate.Draft

/-- The verb of a text, if one is given and it is the name of a verb. -/
def verb? (raw : Option String) : Option Verb := raw.bind Word.ofName?

def labelsOf (raw : List String) : List Label := raw.filterMap Label.ofText?

/-- The hints that are given, with their values. -/
def HintFields.hints (f : HintFields) : HintMap :=
  let fields : List (Hint × Option Bool) := [(.readOnly, f.readOnly), (.destructive, f.destructive),
    (.idempotent, f.idempotent), (.openWorld, f.openWorld)]
  SortedMap.ofList (fields.filterMap fun e => e.2.map fun value => (e.1, value))

def Override.document (o : Override) : ToolGate.Override :=
  ⟨o.hints, verb? o.verb, o.labels.map labelsOf⟩

/-- What is typed of a classifier rule; a rule that has a finding, wherever it stands, is left
out. -/
def Classifier.document? (c : Classifier) : Option ClassifierRule :=
  if (c.findings "").isEmpty then
    c.tests.getLast?.map fun m => ⟨c.field, m, labelsOf c.setLabels⟩
  else none

def Condition.document (c : Condition) : ToolGate.Condition :=
  ⟨c.hints, verb? c.verb, labelsOf c.labels, c.mode⟩

/-- The priority of a number, if a document may use it. -/
def priority? (n : Int) : Option UInt16 :=
  if isPriority n then some (UInt16.ofNat n.toNat) else none

/-- What is typed of a policy rule; a rule without a known action or a fitting priority is left
out. -/
def Rule.document? (r : Rule) : Option PolicyRule := do
  let action ← Word.ofName? r.action
  let priority ← priority? r.priority
  return ⟨r.name, r.description, r.condition.document, action, r.approvers, r.timeout, priority⟩

def document (d : Draft) : Document where
  version := d.version
  tenantVars := d.tenantVars
  profiles := d.profiles.filterMap ProfileId.parse?
  toolOverrides := d.toolOverrides.mapValues Override.document
  classifierOverrides := d.classifierOverrides.mapValues (List.filterMap Classifier.document?)
  policyRules := d.policyRules.filterMap Rule.document?

/-- The document of a draft, or the draft's findings. -/
def check (d : Draft) : Except (List Finding) Document :=
  match d.findings with
  | [] => .ok d.document
  | findings => .error findings

end ToolGate.Draft
