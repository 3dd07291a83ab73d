import ToolGate.Profile.Catalog
import ToolGate.Proofs.Draft.Document
import ToolGate.Proofs.Policy.Compile
import ToolGate.Proofs.Policy.Precedence
import ToolGate.Proofs.Tenant.Template

/-!
# Which classifier rules are proper

A classifier rule should name a field and set labels. The rules in a document are checked for that,
but they are not the only ones in a policy, and they are not left as they are: rules of profiles are
taken over as they are read, and tenant variables are put into the fields of both. So a rule of a
policy that names no field or sets no labels is one of a profile, or its field was blanked out.

* `ClassifierRule.proper_fill_iff`: what filling in does to a rule;
* `Draft.proper_classifierOverrides`: rules of a checked document are proper as they are written;
* `Policy.properRules_merge_iff`: when all rules of a merged policy are proper;
* `Policy.classification_of_compileText`: the same of whatever is compiled;
* `Policy.improper_rules_are_compiled`: both ways in which a rule comes out that is not.
-/

namespace ToolGate

/-! ## Proper rules -/

/-- What is asked of a classifier rule. -/
structure ClassifierRule.Proper (r : ClassifierRule) : Prop where
  field : Draft.NonBlank r.field
  setLabels : r.setLabels ≠ []

namespace ClassifierRule

/-- A filled-in rule is proper if something remains of its field and it sets labels. -/
theorem proper_fill_iff (vars : TenantVars) (r : ClassifierRule) :
    (r.fill vars).Proper ↔ ¬vars.Blanks r.field ∧ r.setLabels ≠ [] := by
  rw [← TenantVars.nonBlank_fill_iff]
  exact ⟨fun h => ⟨h.field, h.setLabels⟩, fun h => ⟨h.1, h.2⟩⟩

theorem proper_fill_iff_of_values {vars : TenantVars}
    (hvalues : ∀ name value, vars.get? name = some value → Draft.NonBlank value)
    (r : ClassifierRule) : (r.fill vars).Proper ↔ r.Proper := by
  rw [proper_fill_iff, ← TenantVars.nonBlank_fill_iff,
    TenantVars.nonBlank_fill_iff_of_values hvalues]
  exact ⟨fun h => ⟨h.1, h.2⟩, fun h => ⟨h.field, h.setLabels⟩⟩

end ClassifierRule

/-- The rules in a document without findings are proper as they are written. -/
theorem Draft.proper_classifierOverrides {d : Draft} (hfindings : d.findings = []) {s t : String}
    {rules : List ClassifierRule} (hrules : d.document.classifierOverrides.find? s t = some rules) :
    ∀ r ∈ rules, r.Proper := by
  intro r hr
  -- a rule of the document is written back as one of the draft, and that one was checked
  have hdraft : d.document.draft.classifierOverrides.find? s t =
      some (rules.map ClassifierRule.draft) := by
    unfold Document.draft
    rw [ToolMap.find?_mapValues, hrules]
    rfl
  have hvalid : r.draft.Valid :=
    (Draft.valid_draft_document hfindings).classifierOverrides s t _ hdraft _
      (List.mem_map_of_mem hr)
  refine ⟨hvalid.field, fun hnone => hvalid.setLabels ?_⟩
  unfold ClassifierRule.draft
  rw [hnone]
  rfl

namespace Policy

/-- Whether all classifier rules of a policy are proper. -/
def ProperRules (p : Policy) : Prop :=
  ∀ s t rules, p.classifiers.find? s t = some rules → ∀ r ∈ rules, r.Proper

/-- The rules of a merged policy are proper if those that count are so when they are filled in. -/
theorem properRules_merge_iff (doc : Document) (ps : List Profile) (vars : TenantVars) :
    (merge doc ps vars).ProperRules ↔
      (∀ s t rules, doc.classifierOverrides.find? s t = some rules →
        ∀ r ∈ rules, (r.fill vars).Proper) ∧
      ∀ s t rules, doc.classifierOverrides.find? s t = none → lastRules? ps s t = some rules →
        ∀ r ∈ rules, (r.fill vars).Proper := by
  unfold ProperRules
  simp only [find?_classifiers_merge]
  constructor
  · intro h
    constructor
    · intro s t rules hrules r hr
      exact h s t _ (by rw [hrules]; rfl) _ (List.mem_map_of_mem hr)
    · intro s t rules hnone hrules r hr
      exact h s t _ (by rw [hnone, hrules]; rfl) _ (List.mem_map_of_mem hr)
  · rintro ⟨hoverride, hprofile⟩ s t filled hfilled r' hr'
    -- each rule of the policy is one of the rules that count, filled in
    rcases Option.map_eq_some_iff.1 hfilled with ⟨rules, hrules, rfl⟩
    rcases List.mem_map.1 hr' with ⟨r, hr, rfl⟩
    rcases Option.or_eq_some_iff.1 hrules with hrules | ⟨hnone, hrules⟩
    · exact hoverride s t rules hrules r hr
    · exact hprofile s t rules hnone hrules r hr

/-- What becomes of the classifier rules of a document without findings and of its profiles. -/
structure Classification (doc : Document) (ps : List Profile) (m : Policy) : Prop where
  /-- The document's own rules are proper as they are written. -/
  written : ∀ s t rules, doc.classifierOverrides.find? s t = some rules → ∀ r ∈ rules, r.Proper
  /-- The rules of the policy are proper exactly if no field of the document's own rules is blanked
  out, and every rule of a profile that counts sets labels and has a field that is not. -/
  proper_iff : m.ProperRules ↔
    (∀ s t rules, doc.classifierOverrides.find? s t = some rules →
      ∀ r ∈ rules, ¬doc.tenantVars.Blanks r.field) ∧
    ∀ s t rules, doc.classifierOverrides.find? s t = none → lastRules? ps s t = some rules →
      ∀ r ∈ rules, ¬doc.tenantVars.Blanks r.field ∧ r.setLabels ≠ []
  /-- Without blank values it is for the profiles alone to have proper rules. -/
  proper_iff_of_values :
    (∀ name value, doc.tenantVars.get? name = some value → Draft.NonBlank value) →
      (m.ProperRules ↔ ∀ s t rules, doc.classifierOverrides.find? s t = none →
        lastRules? ps s t = some rules → ∀ r ∈ rules, r.Proper)

/-- What is merged of a document without findings. -/
theorem classification_merge {d : Draft} (hfindings : d.findings = []) (ps : List Profile) :
    Classification d.document ps (merge d.document ps d.document.tenantVars) := by
  have hwritten : ∀ s t rules, d.document.classifierOverrides.find? s t = some rules →
      ∀ r ∈ rules, r.Proper := by
    intro s t rules hrules
    exact Draft.proper_classifierOverrides hfindings hrules
  refine ⟨hwritten, ?_, fun hvalues => ?_⟩
  · simp only [properRules_merge_iff, ClassifierRule.proper_fill_iff]
    -- the document's own rules set labels anyway
    refine and_congr_left' ⟨fun h s t rules hrules r hr => ?_, fun h s t rules hrules r hr => ?_⟩
    · exact (h s t rules hrules r hr).1
    · exact ⟨h s t rules hrules r hr, (hwritten s t rules hrules r hr).setLabels⟩
  · simp only [properRules_merge_iff, ClassifierRule.proper_fill_iff_of_values hvalues]
    exact and_iff_right hwritten

/-- Whatever text is compiled, with whatever a catalog answers and a resolver has found before: its
own rules are proper as they are written, and it is profiles and blank values of tenant variables
that rules without fields or labels come from. -/
theorem classification_of_compileText {lookup : Lookup} {text : String} {r : Resolver}
    {out : Compiled} (h : ((compileText lookup text).run r).1 = .ok out) :
    ∃ d profiles, (Draft.parse text = .ok d ∧ d.findings = []) ∧
      d.document.profiles.mapM (Resolver.answer lookup r) = .ok profiles ∧
      Classification d.document profiles out.policy := by
  rcases compileText_eq_ok_iff.1 h with ⟨d, profiles, hd, hanswers, rfl⟩
  exact ⟨d, profiles, hd, hanswers, classification_merge hd.2 profiles⟩

/-- A tool whose rule is one of a profile, and another one whose field is a tenant variable. -/
theorem classification_of_index_and_search :
    let label : Label := ⟨"scope:internal", by decide +kernel⟩
    let index : ClassifierRule := ⟨"path", .present true, [label]⟩
    let search : ClassifierRule := ⟨"to", .present true, [label]⟩
    let tool : ProfileTool := ⟨∅, none, [], some [index]⟩
    let docs : Profile := ⟨"docs", (∅ : SortedMap String ProfileTool).insert "index" tool⟩
    let lookup := (Catalog.ofProfiles [docs]).lookup .empty
    let text := "version: '1.0'\nprofiles: [acme/security-docs]\ntenantVars: {f: to}\n" ++
      "classifierOverrides:\n docs:\n  search:\n" ++
      "  - field: '{f}'\n    present: true\n    setLabels: [scope:internal]\n"
    let rules := ((∅ : ToolMap (List ClassifierRule)).put "docs" "index" [index]).put
      "docs" "search" [search]
    let p : Policy := ⟨"1.0", (∅ : ToolMap Annotation).put "docs" "index" .empty, rules, []⟩
    ((compileText lookup text).run .empty).1 = .ok (.of p) ∧
      ∃ d profiles, (Draft.parse text = .ok d ∧ d.findings = []) ∧
        d.document.profiles.mapM (Resolver.answer lookup .empty) = .ok profiles ∧
        Classification d.document profiles p := by
  intro label index search tool docs lookup text rules p
  have hpolicy : ((compileText lookup text).run .empty).1.map (·.policy) = .ok p := by
    decide +kernel
  have hcompiled := compileText_eq_ok_of_policy hpolicy
  exact ⟨hcompiled, classification_of_compileText hcompiled⟩

/-- A profile in a file may have a rule without a field and labels, and a tenant variable may be
empty. -/
theorem improper_rules_are_compiled :
    (¬∀ (t : Files.Tree) (c : Catalog) (text : String) (out : Compiled),
      ((compileText (c.lookup t) text).run .empty).1 = .ok out → out.policy.ProperRules) ∧
      ¬∀ (text : String) (out : Compiled),
        ((compileText (fun _ => .ok none) text).run .empty).1 = .ok out →
          out.policy.ProperRules := by
  have hblank : ¬Draft.NonBlank "" := fun h => h rfl
  constructor
  · intro h
    -- a profile is read without a look at its fields and labels
    let profile := "service: docs\ntools:\n search:\n  classify:\n" ++
      "  - field: ''\n    present: true\n    setLabels: []\n"
    let t := (Files.Tree.empty.put ["catalog"] .directory).put ["catalog", "docs.yaml"]
      (.file (.text profile))
    let text := "version: '1.0'\nprofiles: [acme/security-docs]\n"
    let rule : ClassifierRule := ⟨"", .present true, []⟩
    let p : Policy := ⟨"1.0", (∅ : ToolMap Annotation).put "docs" "search" .empty,
      (∅ : ToolMap (List ClassifierRule)).put "docs" "search" [rule], []⟩
    have hpolicy : ((compileText ((Catalog.directory "catalog").lookup t) text).run
        .empty).1.map (·.policy) = .ok p := by
      decide +kernel
    have hrules : p.classifiers.find? "docs" "search" = some [rule] := by decide +kernel
    have hproper := h t (.directory "catalog") text (.of p) (compileText_eq_ok_of_policy hpolicy)
      "docs" "search" [rule] hrules rule (List.mem_singleton_self rule)
    exact hblank hproper.field
  · intro h
    -- a field is looked at before it is filled in
    let text := "version: '1.0'\ntenantVars:\n f: ''\nclassifierOverrides:\n docs:\n  search:\n" ++
      "  - field: '{f}'\n    present: true\n    setLabels: [scope:internal]\n"
    let label : Label := ⟨"scope:internal", by decide +kernel⟩
    let rule : ClassifierRule := ⟨"", .present true, [label]⟩
    let p : Policy := ⟨"1.0", ∅, (∅ : ToolMap (List ClassifierRule)).put "docs" "search" [rule], []⟩
    have hpolicy : ((compileText (fun _ => .ok none) text).run .empty).1.map (·.policy) =
        .ok p := by
      decide +kernel
    have hrules : p.classifiers.find? "docs" "search" = some [rule] := by decide +kernel
    have hproper := h text (.of p) (compileText_eq_ok_of_policy hpolicy) "docs" "search" [rule]
      hrules rule (List.mem_singleton_self rule)
    exact hblank hproper.field

end Policy

end ToolGate
