import Mathlib.Logic.Basic
import ToolGate.Draft.Finding
import ToolGate.Proofs.Vocabulary

/-!
# Valid drafts

What a draft must be like, said without its findings, and the places where it may fail to be so. A
`Defect` names one place and one requirement there; `Violates` tells from what stands at that place
alone whether the requirement is missed.

* `Draft.Valid`: the requirements as one statement on a draft;
* `Draft.Violates`: the same requirements one by one;
* `Draft.valid_iff`: a draft is valid exactly if it violates nothing.
-/

namespace ToolGate.Draft

def verbNames : List String := ["get", "list", "create", "update", "delete"]

def actionNames : List String := ["allow", "deny", "evaluateExternally"]

/-- Whether something remains of a text when blank characters are taken off both ends. -/
def NonBlank (s : String) : Prop := Text.trim s.toList ≠ []

theorem isName_verb_iff (raw : String) : Word.isName Verb raw = true ↔ raw ∈ verbNames :=
  Word.isName_iff raw

theorem isName_action_iff (raw : String) : Word.isName Action raw = true ↔ raw ∈ actionNames :=
  Word.isName_iff raw

theorem isBlankText_eq_false_iff (s : String) : Text.isBlankText s = false ↔ NonBlank s := by
  unfold NonBlank
  rw [Ne, ← Text.isBlankText_iff, Bool.not_eq_true]

/-- Only one action asks somebody. -/
theorem asksSomebody_iff (action : String) :
    asksSomebody action = true ↔ action = "evaluateExternally" := by
  unfold asksSomebody
  cases ha : (Word.ofName? action : Option Action) with
  | some a =>
    have hname : Word.name a = action := Word.ofName?_eq_some_iff.1 ha
    rw [← hname]
    cases a <;> decide
  | none =>
    constructor
    · intro h
      contradiction
    · rintro rfl
      have hread : Word.ofName? "evaluateExternally" = some Action.evaluateExternally :=
        Word.ofName?_name Action.evaluateExternally
      rw [hread] at ha
      contradiction

/-- The priorities that are in range. -/
theorem isPriority_iff (n : Int) : isPriority n = true ↔ 0 ≤ n ∧ n ≤ 999 := by
  unfold isPriority PolicyRule.maxPriority
  rw [Bool.and_eq_true, decide_eq_true_eq, decide_eq_true_eq]
  rfl

/-- A statement on the items of a list is one on its places. -/
theorem forall_mem_iff_getElem? {α : Type} {p : α → Prop} {l : List α} :
    (∀ a ∈ l, p a) ↔ ∀ (i : Nat) a, l[i]? = some a → p a := by
  constructor
  · intro h i a hi
    exact h a (List.mem_of_getElem? hi)
  · intro h a ha
    rcases List.mem_iff_getElem?.1 ha with ⟨i, hi⟩
    exact h i a hi

/-! ## Overrides -/

namespace Override

structure Valid (o : Override) : Prop where
  verb : ∀ raw, o.verb = some raw → raw ∈ verbNames
  labels : ∀ raws, o.labels = some raws → ∀ raw ∈ raws, Label.Written raw

/-- What may be wrong with an override. -/
inductive Defect where
  | verb
  | label (j : Nat)
deriving DecidableEq

def Violates (o : Override) : Defect → Prop
  | .verb => ∃ raw, o.verb = some raw ∧ raw ∉ verbNames
  | .label j => ∃ raws, o.labels = some raws ∧ ∃ raw, raws[j]? = some raw ∧ ¬Label.Written raw

/-- The path of a defect in the override that `path` leads to. -/
def Defect.path (path : String) : Defect → String
  | .verb => path ++ ".verb"
  | .label j => Finding.item (path ++ ".labels") j

/-- An override is valid if it violates nothing. -/
theorem valid_iff (o : Override) : o.Valid ↔ ∀ x, ¬o.Violates x := by
  constructor
  · rintro h (_ | j)
    · rintro ⟨raw, hraw, hbad⟩
      exact hbad (h.verb raw hraw)
    · rintro ⟨raws, hraws, raw, hj, hbad⟩
      exact hbad (forall_mem_iff_getElem?.1 (h.labels raws hraws) j raw hj)
  · intro h
    refine ⟨fun raw hraw => ?_, fun raws hraws => forall_mem_iff_getElem?.2 fun j raw hj => ?_⟩
    · exact not_not.1 fun hbad => h .verb ⟨raw, hraw, hbad⟩
    · exact not_not.1 fun hbad => h (.label j) ⟨raws, hraws, raw, hj, hbad⟩

end Override

/-! ## Classifier rules -/

namespace Classifier

/-- How many of the three tests a rule has. -/
def testCount (c : Classifier) : Nat :=
  [c.contains.isSome, c.notContains.isSome, c.present.isSome].count true

structure Valid (c : Classifier) : Prop where
  field : NonBlank c.field
  test : c.testCount = 1
  setLabels : c.setLabels ≠ []
  labels : ∀ raw ∈ c.setLabels, Label.Written raw

/-- What may be wrong with a classifier rule. -/
inductive Defect where
  | field
  | test
  | setLabels
  | label (j : Nat)
deriving DecidableEq

def Violates (c : Classifier) : Defect → Prop
  | .field => ¬NonBlank c.field
  | .test => c.testCount ≠ 1
  | .setLabels => c.setLabels = []
  | .label j => ∃ raw, c.setLabels[j]? = some raw ∧ ¬Label.Written raw

/-- The path of a defect in the rule that `path` leads to; a wrong number of tests is a defect of
the rule as a whole. -/
def Defect.path (path : String) : Defect → String
  | .field => path ++ ".field"
  | .test => path
  | .setLabels => path ++ ".setLabels"
  | .label j => Finding.item (path ++ ".setLabels") j

/-- So is a classifier rule. -/
theorem valid_iff (c : Classifier) : c.Valid ↔ ∀ x, ¬c.Violates x := by
  constructor
  · rintro h (_ | _ | _ | j)
    · exact fun hbad => hbad h.field
    · exact fun hbad => hbad h.test
    · exact h.setLabels
    · rintro ⟨raw, hj, hbad⟩
      exact hbad (forall_mem_iff_getElem?.1 h.labels j raw hj)
  · intro h
    refine ⟨not_not.1 (h .field), not_not.1 (h .test), h .setLabels,
      forall_mem_iff_getElem?.2 fun j raw hj => ?_⟩
    exact not_not.1 fun hbad => h (.label j) ⟨raw, hj, hbad⟩

theorem length_tests (c : Classifier) : c.tests.length = c.testCount := by
  unfold tests testCount
  cases c.contains <;> cases c.notContains <;> cases c.present <;> rfl

end Classifier

/-! ## Policy rules -/

namespace Rule

structure Valid (r : Rule) : Prop where
  name : NonBlank r.name
  verb : ∀ raw, r.condition.verb = some raw → raw ∈ verbNames
  labels : ∀ raw ∈ r.condition.labels, Label.Written raw
  action : r.action ∈ actionNames
  priority : 0 ≤ r.priority ∧ r.priority ≤ 999
  approvers : r.action = "evaluateExternally" → ∃ a ∈ r.approvers, NonBlank a

/-- What may be wrong with a policy rule. -/
inductive Defect where
  | name
  | verb
  | label (j : Nat)
  | action
  | priority
  | approvers
deriving DecidableEq

def Violates (r : Rule) : Defect → Prop
  | .name => ¬NonBlank r.name
  | .verb => ∃ raw, r.condition.verb = some raw ∧ raw ∉ verbNames
  | .label j => ∃ raw, r.condition.labels[j]? = some raw ∧ ¬Label.Written raw
  | .action => r.action ∉ actionNames
  | .priority => ¬(0 ≤ r.priority ∧ r.priority ≤ 999)
  | .approvers => r.action = "evaluateExternally" ∧ ∀ a ∈ r.approvers, ¬NonBlank a

/-- The path of a defect in the rule that `path` leads to. -/
def Defect.path (path : String) : Defect → String
  | .name => path ++ ".name"
  | .verb => path ++ ".when" ++ ".verb"
  | .label j => Finding.item (path ++ ".when" ++ ".labels") j
  | .action => path ++ ".action"
  | .priority => path ++ ".priority"
  | .approvers => path ++ ".approvers"

/-- A policy rule is valid if it violates nothing. -/
theorem valid_iff (r : Rule) : r.Valid ↔ ∀ x, ¬r.Violates x := by
  constructor
  · rintro h (_ | _ | j | _ | _ | _)
    · exact fun hbad => hbad h.name
    · rintro ⟨raw, hraw, hbad⟩
      exact hbad (h.verb raw hraw)
    · rintro ⟨raw, hj, hbad⟩
      exact hbad (forall_mem_iff_getElem?.1 h.labels j raw hj)
    · exact fun hbad => hbad h.action
    · exact fun hbad => hbad h.priority
    · rintro ⟨haction, hblank⟩
      rcases h.approvers haction with ⟨a, ha, hgood⟩
      exact hblank a ha hgood
  · intro h
    refine ⟨not_not.1 (h .name), fun raw hraw => ?_, forall_mem_iff_getElem?.2 fun j raw hj => ?_,
      not_not.1 (h .action), not_not.1 (h .priority), fun haction => ?_⟩
    · exact not_not.1 fun hbad => h .verb ⟨raw, hraw, hbad⟩
    · exact not_not.1 fun hbad => h (.label j) ⟨raw, hj, hbad⟩
    · apply Classical.byContradiction
      intro hnone
      exact h .approvers ⟨haction, fun a ha hgood => hnone ⟨a, ha, hgood⟩⟩

end Rule

/-! ## Drafts -/

/-- What a draft must be like. -/
structure Valid (d : Draft) : Prop where
  version : d.version = "1.0"
  profiles : ∀ raw ∈ d.profiles, ProfileId.Written raw
  toolOverrides : ∀ s t o, d.toolOverrides.find? s t = some o → o.Valid
  classifierOverrides : ∀ s t rules, d.classifierOverrides.find? s t = some rules →
    ∀ c ∈ rules, c.Valid
  policyRules : ∀ r ∈ d.policyRules, r.Valid

/-- One thing that may be wrong with a draft, with its place. -/
inductive Defect where
  | version
  | profile (i : Nat)
  | override (service tool : String) (defect : Override.Defect)
  | classifier (service tool : String) (i : Nat) (defect : Classifier.Defect)
  | rule (i : Nat) (defect : Rule.Defect)
deriving DecidableEq

/-- Whether a thing is wrong with a draft. -/
def Violates (d : Draft) : Defect → Prop
  | .version => d.version ≠ "1.0"
  | .profile i => ∃ raw, d.profiles[i]? = some raw ∧ ¬ProfileId.Written raw
  | .override s t x => ∃ o, d.toolOverrides.find? s t = some o ∧ o.Violates x
  | .classifier s t i x => ∃ rules, d.classifierOverrides.find? s t = some rules ∧
      ∃ c, rules[i]? = some c ∧ c.Violates x
  | .rule i x => ∃ r, d.policyRules[i]? = some r ∧ r.Violates x

/-- The path of a defect. -/
def Defect.path : Defect → String
  | .version => "version"
  | .profile i => Finding.item "profiles" i
  | .override s t x => x.path ("toolOverrides" ++ "." ++ s ++ "." ++ t)
  | .classifier s t i x => x.path (Finding.item ("classifierOverrides" ++ "." ++ s ++ "." ++ t) i)
  | .rule i x => x.path (Finding.item "policyRules" i)

/-- A draft is valid exactly if it violates nothing. -/
theorem valid_iff (d : Draft) : d.Valid ↔ ∀ x, ¬d.Violates x := by
  constructor
  · rintro h (_ | i | ⟨s, t, x⟩ | ⟨s, t, i, x⟩ | ⟨i, x⟩)
    · exact fun hbad => hbad h.version
    · rintro ⟨raw, hi, hbad⟩
      exact hbad (forall_mem_iff_getElem?.1 h.profiles i raw hi)
    · rintro ⟨o, ho, hbad⟩
      exact o.valid_iff.1 (h.toolOverrides s t o ho) x hbad
    · rintro ⟨rules, hrules, c, hi, hbad⟩
      have hc := forall_mem_iff_getElem?.1 (h.classifierOverrides s t rules hrules) i c hi
      exact c.valid_iff.1 hc x hbad
    · rintro ⟨r, hi, hbad⟩
      exact r.valid_iff.1 (forall_mem_iff_getElem?.1 h.policyRules i r hi) x hbad
  · intro h
    have hprofiles : ∀ raw ∈ d.profiles, ProfileId.Written raw := by
      refine forall_mem_iff_getElem?.2 fun i raw hi => ?_
      exact not_not.1 fun hbad => h (.profile i) ⟨raw, hi, hbad⟩
    have hoverrides : ∀ s t o, d.toolOverrides.find? s t = some o → o.Valid := by
      intro s t o ho
      exact o.valid_iff.2 fun x hbad => h (.override s t x) ⟨o, ho, hbad⟩
    have hclassifiers : ∀ s t rules, d.classifierOverrides.find? s t = some rules →
        ∀ c ∈ rules, c.Valid := by
      intro s t rules hrules
      refine forall_mem_iff_getElem?.2 fun i c hi => ?_
      exact c.valid_iff.2 fun x hbad => h (.classifier s t i x) ⟨rules, hrules, c, hi, hbad⟩
    have hrules : ∀ r ∈ d.policyRules, r.Valid := by
      refine forall_mem_iff_getElem?.2 fun i r hi => ?_
      exact r.valid_iff.2 fun x hbad => h (.rule i x) ⟨r, hi, hbad⟩
    exact ⟨not_not.1 (h .version), hprofiles, hoverrides, hclassifiers, hrules⟩

end ToolGate.Draft
