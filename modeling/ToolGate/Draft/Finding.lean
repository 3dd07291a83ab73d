import ToolGate.Draft.Basic
import ToolGate.Profile.Id
import ToolGate.Rule.Classifier
import ToolGate.Text.Blank

/-!
# The defects of a draft

A finding names the place of one defect and says what is wrong. The findings of a draft are listed
section by section, and no defect hides another one.
-/

namespace ToolGate

/-- One defect of a draft. -/
structure Finding where
  path : String
  message : String
deriving DecidableEq, Repr

namespace Finding

def line (f : Finding) : String := f.path ++ ": " ++ f.message

/-- An expectation: a finding if it is not met. -/
def expect (fine : Bool) (path message : String) : List Finding :=
  if fine then [] else [⟨path, message⟩]

/-- The path of an item in a list. -/
def item (path : String) (i : Nat) : String := path ++ "[" ++ toString i ++ "]"

/-- The findings of all items of a list. -/
def items {α : Type} (f : String → α → List Finding) (path : String) (as : List α) : List Finding :=
  as.zipIdx.flatMap fun a => f (item path a.2) a.1

def tools {α : Type} (f : String → α → List Finding) (path : String) (m : ToolMap α) :
    List Finding :=
  m.triples.flatMap fun t => f (path ++ "." ++ t.1 ++ "." ++ t.2.1) t.2.2

end Finding

namespace ProfileId

/-- What is said of a text that is no profile id. -/
def rejection (raw : String) : String :=
  "invalid profile id '" ++ raw ++ "': expected '<org>/security-<service>'"

end ProfileId

namespace Draft

/-- The only version a document may have. -/
def supportedVersion : String := "1.0"

/-- The findings of a verb that may be given. -/
def verbFindings (path : String) : Option String → List Finding
  | none => []
  | some raw => Finding.expect (Word.isName Verb raw) path (Verb.rejection raw)

def labelFindings (path raw : String) : List Finding :=
  Finding.expect (Label.isLabel raw.toList) path (Label.rejection raw)

def Override.findings (path : String) (o : Override) : List Finding :=
  verbFindings (path ++ ".verb") o.verb ++
    Finding.items labelFindings (path ++ ".labels") (o.labels.getD [])

def Classifier.tests (c : Classifier) : List Matcher :=
  c.contains.toList.map .contains ++ c.notContains.toList.map .notContains ++
    c.present.toList.map .present

def Classifier.findings (path : String) (c : Classifier) : List Finding :=
  Finding.expect (!Text.isBlankText c.field) (path ++ ".field")
      "classifier field must not be empty" ++
    Finding.expect (c.tests.length == 1) path
      ("expected exactly one of contains, notContains, present (found " ++
        toString c.tests.length ++ ")") ++
    Finding.expect (!c.setLabels.isEmpty) (path ++ ".setLabels") "setLabels must not be empty" ++
    Finding.items labelFindings (path ++ ".setLabels") c.setLabels

def Condition.findings (path : String) (c : Condition) : List Finding :=
  verbFindings (path ++ ".verb") c.verb ++ Finding.items labelFindings (path ++ ".labels") c.labels

/-- Whether a priority is one that a document may use. -/
def isPriority (n : Int) : Bool := 0 ≤ n && n ≤ PolicyRule.maxPriority

/-- Whether an action is known and asks somebody. -/
def asksSomebody (action : String) : Bool :=
  match (Word.ofName? action : Option Action) with
  | some a => a.requiresApprovers
  | none => false

def Rule.findings (path : String) (r : Rule) : List Finding :=
  Finding.expect (!Text.isBlankText r.name) (path ++ ".name") "rule name must not be empty" ++
    r.condition.findings (path ++ ".when") ++
    Finding.expect (Word.isName Action r.action) (path ++ ".action")
      ("invalid action '" ++ r.action ++
        "': expected one of allow, deny, evaluateExternally") ++
    Finding.expect (isPriority r.priority) (path ++ ".priority")
      ("priority " ++ toString r.priority ++ " out of range 0..=" ++
        toString PolicyRule.maxPriority) ++
    Finding.expect (!(asksSomebody r.action && r.approvers.all Text.isBlankText))
      (path ++ ".approvers")
      "approvers are required for action 'evaluateExternally'"

def profileFindings (path raw : String) : List Finding :=
  Finding.expect (ProfileId.parse? raw).isSome path (ProfileId.rejection raw)

def findings (d : Draft) : List Finding :=
  Finding.expect (d.version == supportedVersion) "version"
      ("unsupported version '" ++ d.version ++ "': expected '" ++ supportedVersion ++ "'") ++
    Finding.items profileFindings "profiles" d.profiles ++
    Finding.tools Override.findings "toolOverrides" d.toolOverrides ++
    Finding.tools (Finding.items Classifier.findings) "classifierOverrides" d.classifierOverrides ++
    Finding.items Rule.findings "policyRules" d.policyRules

end Draft

end ToolGate
