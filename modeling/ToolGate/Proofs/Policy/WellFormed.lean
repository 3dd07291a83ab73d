import ToolGate.Profile.Catalog
import ToolGate.Proofs.Draft.Document
import ToolGate.Proofs.Policy.Compile
import ToolGate.Proofs.Policy.Precedence

/-!
# Compiled policies are well-formed

A gateway relies on what a policy looks like without looking at the document that it comes from: on
its version, on the names, priorities and approvers of its rules, and on the form of its labels,
wherever they stand. Rules come from the document alone, which was checked. Labels come from the
document and from profiles, and no step on the way makes up another one.

* `WellFormed`: what a gateway relies on;
* `mem_labels_merge`: where the labels of a policy come from;
* `wellFormed_of_compileText`: whatever is compiled is well-formed.
-/

namespace ToolGate

/-! ## Labels -/

/-- A label has the form of one. -/
theorem Label.written (l : Label) : Written l.text := (isLabel_iff l.text).1 l.wellFormed

/-- The labels that calls get by some rules. -/
def ClassifierRule.labelsOf (rules : List ClassifierRule) : List Label :=
  rules.flatMap (·.setLabels)

/-- All labels in a profile: those of its tools and those that calls of the tools get. -/
def Profile.labels (p : Profile) : List Label :=
  p.tools.values.flatMap fun t => t.labels ++ ClassifierRule.labelsOf (t.classify.getD [])

def Document.labels (doc : Document) : List Label :=
  doc.toolOverrides.triples.flatMap (fun t => t.2.2.labels.getD []) ++
    doc.classifierOverrides.triples.flatMap (fun t => ClassifierRule.labelsOf t.2.2) ++
    doc.policyRules.flatMap (·.condition.labels)

def Policy.labels (p : Policy) : List Label :=
  p.annotations.triples.flatMap (fun t => t.2.2.labels) ++
    p.classifiers.triples.flatMap (fun t => ClassifierRule.labelsOf t.2.2) ++
    p.rules.flatMap (·.condition.labels)

/-- What comes of some entry of a map. -/
theorem ToolMap.mem_flatMap_triples {α β : Type} {m : ToolMap α} {f : String × String × α → List β}
    {b : β} : b ∈ m.triples.flatMap f ↔ ∃ s t a, m.find? s t = some a ∧ b ∈ f (s, t, a) := by
  rw [List.mem_flatMap]
  constructor
  · rintro ⟨⟨s, t, a⟩, he, hb⟩
    exact ⟨s, t, a, mem_triples.1 he, hb⟩
  · rintro ⟨s, t, a, ha, hb⟩
    exact ⟨(s, t, a), mem_triples.2 ha, hb⟩

/-- The labels of a tool, and those that calls of it get, are labels of the profile. -/
theorem Profile.mem_labels_of_tool {p : Profile} {t : String} {e : ProfileTool} {l : Label}
    (he : p.tools.get? t = some e)
    (hl : l ∈ e.labels ∨ l ∈ ClassifierRule.labelsOf (e.classify.getD [])) : l ∈ p.labels := by
  unfold labels SortedMap.values
  rw [List.mem_flatMap]
  refine ⟨e, List.mem_map.2 ⟨(t, e), SortedMap.mem_entries.2 he, rfl⟩, ?_⟩
  exact List.mem_append.2 hl

/-- Tenant variables are put into no label. -/
theorem ClassifierRule.labelsOf_fill (vars : TenantVars) (rules : List ClassifierRule) :
    labelsOf (rules.map (ClassifierRule.fill vars)) = labelsOf rules := by
  unfold labelsOf
  rw [List.flatMap_map]
  rfl

namespace Policy

/-- Classifier rules that count stand in some profile. -/
theorem exists_of_lastRules? {ps : List Profile} {s t : String} {rules : List ClassifierRule}
    (h : lastRules? ps s t = some rules) :
    ∃ p ∈ ps, ∃ e, p.tools.get? t = some e ∧ e.classify = some rules := by
  unfold lastRules? at h
  rcases List.exists_of_findSome?_eq_some h with ⟨p, hp, hrules⟩
  rcases Option.bind_eq_some_iff.1 hrules with ⟨e, he, hclassify⟩
  exact ⟨p, List.mem_reverse.1 hp, e, (Profile.tool?_eq_some_iff.1 he).2, hclassify⟩

/-- A label of a merged policy is one of the document or of a profile. -/
theorem mem_labels_merge {doc : Document} {ps : List Profile} {vars : TenantVars} {l : Label}
    (hl : l ∈ (merge doc ps vars).labels) : l ∈ doc.labels ∨ ∃ p ∈ ps, l ∈ p.labels := by
  have hprecedence := precedence_merge doc ps vars
  unfold labels at hl
  unfold Document.labels
  rw [List.mem_append, List.mem_append, ToolMap.mem_flatMap_triples,
    ToolMap.mem_flatMap_triples] at hl ⊢
  rcases hl with (⟨s, t, a, ha, hl⟩ | ⟨s, t, rules, hrules, hl⟩) | hl
  · -- an annotation has the labels of its override if there are some, or of its profile
    simp only [hprecedence.labels s t a ha] at hl
    rcases hoverride : (doc.toolOverrides.find? s t).bind (·.labels) with _ | ls
    · rcases htool : lastTool? ps s t with _ | e
      · simp [hoverride, htool] at hl
      · rcases lastTool?_eq_some_iff.1 htool with ⟨before, p, after, rfl, ⟨_, he⟩, _⟩
        have hle : l ∈ e.labels := by simpa [hoverride, htool] using hl
        exact .inr ⟨p, by simp, Profile.mem_labels_of_tool he (.inl hle)⟩
    · rcases Option.bind_eq_some_iff.1 hoverride with ⟨o, ho, hls⟩
      have hll : l ∈ ls := by simpa [hoverride] using hl
      exact .inl (.inl (.inl ⟨s, t, o, ho, by simpa [hls] using hll⟩))
  · rw [hprecedence.classifierRules] at hrules
    rcases Option.map_eq_some_iff.1 hrules with ⟨given, hgiven, rfl⟩
    rw [ClassifierRule.labelsOf_fill] at hl
    rcases hoverride : doc.classifierOverrides.find? s t with _ | overriding
    · rw [hoverride, Option.none_or] at hgiven
      rcases exists_of_lastRules? hgiven with ⟨p, hp, e, he, hclassify⟩
      refine .inr ⟨p, hp, Profile.mem_labels_of_tool he (.inr ?_)⟩
      rw [hclassify]
      exact hl
    · rw [hoverride] at hgiven
      cases hgiven
      exact .inl (.inl (.inr ⟨s, t, _, hoverride, hl⟩))
  · rw [hprecedence.rules] at hl
    exact .inl (.inr hl)

/-! ## Well-formed policies -/

/-- What a gateway relies on. -/
structure WellFormed (p : Policy) : Prop where
  version : p.version = "1.0"
  names : ∀ r ∈ p.rules, Draft.NonBlank r.name
  priorities : ∀ r ∈ p.rules, r.priority.toNat ≤ 999
  /-- Whoever asks somebody names somebody. -/
  approvers : ∀ r ∈ p.rules, r.action = .evaluateExternally → ∃ a ∈ r.approvers, Draft.NonBlank a
  labels : ∀ l ∈ p.labels, Label.Written l.text

/-- What a document without findings is merged to is well-formed. -/
theorem wellFormed_merge {d : Draft} (hfindings : d.findings = []) (ps : List Profile)
    (vars : TenantVars) : (merge d.document ps vars).WellFormed := by
  have hvalid := Draft.valid_draft_document hfindings
  -- rules are those of the document, and each of them was checked as it is written there
  have hprecedence := precedence_merge d.document ps vars
  -- rules come from the document alone, as they stand there
  have hrule : ∀ r ∈ (merge d.document ps vars).rules, r.draft.Valid := by
    intro r hr
    rw [hprecedence.rules] at hr
    exact hvalid.policyRules r.draft (List.mem_map_of_mem hr)
  constructor
  · rw [hprecedence.version]
    exact hvalid.version
  · intro r hr
    exact (hrule r hr).name
  · intro r hr
    have hpriority : (r.priority.toNat : Int) ≤ 999 := (hrule r hr).priority.2
    omega
  · intro r hr haction
    have hname : r.draft.action = "evaluateExternally" := by
      unfold PolicyRule.draft
      rw [haction]
      rfl
    exact (hrule r hr).approvers hname
  · intro l _
    exact l.written

/-- Whatever text is compiled, with whatever a catalog answers and a resolver has found before, the
policy is well-formed, and each of its labels stood in the document or in a profile that one of its
ids was answered with. -/
theorem wellFormed_of_compileText {lookup : Lookup} {text : String} {r : Resolver} {out : Compiled}
    (h : ((compileText lookup text).run r).1 = .ok out) :
    out.policy.WellFormed ∧
      ∃ d, (Draft.parse text = .ok d ∧ d.findings = []) ∧
        ∀ l ∈ out.policy.labels, l ∈ d.document.labels ∨
          ∃ id ∈ d.document.profiles, ∃ q, Resolver.answer lookup r id = .ok q ∧ l ∈ q.labels := by
  rcases compileText_eq_ok_iff.1 h with ⟨d, profiles, hd, hanswers, rfl⟩
  refine ⟨wellFormed_merge hd.2 profiles _, d, hd, fun l hl => ?_⟩
  rcases mem_labels_merge hl with hdoc | ⟨q, hq, hlq⟩
  · exact .inl hdoc
  · rcases exists_mem_of_mapM_eq_ok hanswers q hq with ⟨id, hid, hanswer⟩
    exact .inr ⟨id, hid, q, hanswer, hlq⟩

/-- A label of a profile, and a rule that asks somebody with the least priority that there is. -/
theorem wellFormed_of_question :
    let label : Label := ⟨"data-class:pii", by decide +kernel⟩
    let search : ProfileTool := ⟨∅, none, [label], none⟩
    let docs : Profile := ⟨"docs", (∅ : SortedMap String ProfileTool).insert "search" search⟩
    let lookup := (Catalog.ofProfiles [docs]).lookup .empty
    let text := "version: '1.0'\nprofiles: [acme/security-docs]\npolicyRules:\n- name: ask\n" ++
      "  action: evaluateExternally\n  approvers: [ann]\n  priority: 999\n"
    let ask : PolicyRule :=
      ⟨"ask", none, ⟨∅, none, [], .all⟩, .evaluateExternally, ["ann"], none, 999⟩
    let p : Policy :=
      ⟨"1.0", (∅ : ToolMap Annotation).put "docs" "search" ⟨∅, none, [label]⟩, ∅, [ask]⟩
    ((compileText lookup text).run .empty).1 = .ok (.of p) ∧ p.WellFormed ∧
      p.labels = [label] := by
  intro label search docs lookup text ask p
  have hpolicy : ((compileText lookup text).run .empty).1.map (·.policy) = .ok p := by
    decide +kernel
  have hcompiled := compileText_eq_ok_of_policy hpolicy
  have hlabels : p.labels = [label] := by decide +kernel
  exact ⟨hcompiled, (wellFormed_of_compileText hcompiled).1, hlabels⟩

end Policy

end ToolGate
