import ToolGate.Document.Basic
import ToolGate.Policy.Basic
import ToolGate.Profile.Basic
import ToolGate.Tenant.Interpolation

/-!
# Merging profiles and a document into a policy

Profiles speak first, each later one in place of the earlier ones tool by tool. Then the overrides
of the document apply: hints one by one, the verb, the labels and the classifier rules of a tool as
a whole. At the end the tenant variables are put into the classifier rules.
-/

namespace ToolGate

/-- What a policy takes over from a profile about a tool. -/
def ProfileTool.imported (t : ProfileTool) : Annotation := ⟨t.trueHints, t.verb, t.labels⟩

/-- An annotation after an override: given hints are put in or taken out, and a given verb or list
of labels takes the place of the former one. -/
def Override.apply (o : Override) (a : Annotation) : Annotation :=
  ⟨a.hints.apply o.hints, o.verb.or a.verb, o.labels.getD a.labels⟩

namespace Policy

/-- Puts in what a profile says about its tools; its service is listed even without tools. -/
def seedAnnotations (m : ToolMap Annotation) (p : Profile) : ToolMap Annotation :=
  p.tools.entries.foldl (fun m t => m.put p.service t.1 t.2.imported) (m.touch p.service)

/-- Puts in the classifier rules of those tools for which a profile has a list. -/
def seedClassifiers (m : ToolMap (List ClassifierRule)) (p : Profile) :
    ToolMap (List ClassifierRule) :=
  p.tools.entries.foldl
    (fun m t => match t.2.classify with
      | some rules => m.put p.service t.1 rules
      | none => m)
    m

def overrideAnnotations (overrides : ToolMap Override) (m : ToolMap Annotation) :
    ToolMap Annotation :=
  overrides.triples.foldl
    (fun m t => m.put t.1 t.2.1 (t.2.2.apply ((m.find? t.1 t.2.1).getD .empty)))
    m

/-- Replaces the classifier rules of the tools for which a document has a list. -/
def overrideClassifiers (overrides m : ToolMap (List ClassifierRule)) :
    ToolMap (List ClassifierRule) :=
  overrides.triples.foldl (fun m t => m.put t.1 t.2.1 t.2.2) m

/-- The policy of a document, profiles and tenant variables. -/
def merge (doc : Document) (profiles : List Profile) (vars : TenantVars) : Policy where
  version := doc.version
  annotations := overrideAnnotations doc.toolOverrides (profiles.foldl seedAnnotations ∅)
  classifiers :=
    (overrideClassifiers doc.classifierOverrides (profiles.foldl seedClassifiers ∅)).fillRules vars
  rules := doc.policyRules

end Policy

end ToolGate
