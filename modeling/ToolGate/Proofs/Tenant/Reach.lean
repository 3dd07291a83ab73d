import Mathlib.Data.List.Forall2
import ToolGate.Proofs.Policy.Compile
import ToolGate.Proofs.ToolMap

/-!
# How far tenant variables reach

Two tenants who compile one document with values of their own get policies that differ in classifier
texts at most: in the field that a rule looks at, and in the pattern of a test that looks for one.
Whatever else a policy says, and whether there is one at all, is the same for both. Texts without a
brace hold no token, so if no gathered rule has a brace in its texts there is no difference.

* `Policy.gathered`: the classifier rules of a policy before they are filled in;
* `ClassifierRule.Alike`, `Policy.AlikeUpToTexts`: what two tenants have in common;
* `ClassifierRule.Braceless`, `ToolMap.fillRules_of_braceless`: rules that are the same for all;
* `Policy.tenantVars_reach`: a draft compiled twice, with the values of either tenant.
-/

namespace ToolGate

/-! ## Texts without braces -/

namespace Template

/-- Without an opening brace every character is cut out by itself. -/
theorem scan_of_braceless {cs : List Char} (h : '{' ∉ cs) : scan none cs = cs.map .literal := by
  induction cs with
  | nil => rfl
  | cons c cs ih =>
    rw [List.mem_cons, not_or] at h
    have hc : ¬c = '{' := fun heq => h.1 heq.symm
    rw [scan, if_neg hc, List.map_cons, ih h.2]

/-- Characters that are no tokens stay. -/
theorem fill_literals (vars : TenantVars) (cs : List Char) : fill vars (cs.map .literal) = cs := by
  induction cs with
  | nil => rfl
  | cons c cs ih =>
    change c :: fill vars (cs.map .literal) = c :: cs
    rw [ih]

end Template

/-- A text without a brace is the same for every tenant. -/
theorem TenantVars.fill_of_braceless (vars : TenantVars) {s : String} (h : '{' ∉ s.toList) :
    vars.fill s = s := by
  unfold fill Template.ofText
  rw [Template.scan_of_braceless h, Template.fill_literals, String.ofList_toList]

/-! ## Rules -/

/-- Two tests that differ in their patterns at most. -/
inductive Matcher.Alike : Matcher → Matcher → Prop
  | contains (s s' : String) : Alike (.contains s) (.contains s')
  | notContains (s s' : String) : Alike (.notContains s) (.notContains s')
  | present (b : Bool) : Alike (.present b) (.present b)

/-- Two tenants make the same test, of patterns of their own. -/
theorem Matcher.alike_fill (v w : TenantVars) (m : Matcher) : (m.fill v).Alike (m.fill w) := by
  cases m with
  | contains s => exact .contains _ _
  | notContains s => exact .notContains _ _
  | present b => exact .present b

/-- The pattern that a test looks for, if it looks for one. -/
def Matcher.pattern? : Matcher → Option String
  | .contains s => some s
  | .notContains s => some s
  | .present _ => none

/-- Two rules that differ in their texts at most. -/
structure ClassifierRule.Alike (r r' : ClassifierRule) : Prop where
  matcher : r.matcher.Alike r'.matcher
  setLabels : r.setLabels = r'.setLabels

theorem ClassifierRule.alike_fill (v w : TenantVars) (r : ClassifierRule) :
    (r.fill v).Alike (r.fill w) where
  matcher := r.matcher.alike_fill v w
  setLabels := rfl

/-- A rule without a brace in its texts. -/
structure ClassifierRule.Braceless (r : ClassifierRule) : Prop where
  field : '{' ∉ r.field.toList
  pattern : ∀ s, r.matcher.pattern? = some s → '{' ∉ s.toList

/-- A rule without braces is the same for every tenant. -/
theorem ClassifierRule.Braceless.fill_eq {r : ClassifierRule} (h : r.Braceless)
    (vars : TenantVars) : r.fill vars = r := by
  obtain ⟨field, matcher, setLabels⟩ := r
  have hfield : vars.fill field = field := vars.fill_of_braceless h.field
  have hmatcher : matcher.fill vars = matcher := by
    cases matcher with
    | contains s => exact congrArg Matcher.contains (vars.fill_of_braceless (h.pattern s rfl))
    | notContains s => exact congrArg Matcher.notContains (vars.fill_of_braceless (h.pattern s rfl))
    | present b => rfl
  unfold fill
  rw [hfield, hmatcher]

/-! ## Rules per tool -/

namespace ToolMap

/-- Whether no rule of any tool has a brace in its texts. -/
def Braceless (m : ToolMap (List ClassifierRule)) : Prop :=
  ∀ s t rules, m.find? s t = some rules → ∀ r ∈ rules, r.Braceless

theorem isSome_get?_fillRules (vars : TenantVars) (m : ToolMap (List ClassifierRule)) (s : String) :
    ((m.fillRules vars).get? s).isSome ↔ (m.get? s).isSome := by
  unfold fillRules mapValues
  rw [SortedMap.get?_mapValues, Option.isSome_map]

/-- The rules of each tool are filled in one by one. -/
theorem find?_fillRules (vars : TenantVars) (m : ToolMap (List ClassifierRule)) (s t : String) :
    (m.fillRules vars).find? s t = (m.find? s t).map (List.map (ClassifierRule.fill vars)) := by
  unfold fillRules
  rw [find?_mapValues]

theorem toolCount_mapValues {α β : Type} (f : α → β) (m : ToolMap α) :
    (m.mapValues f).toolCount = m.toolCount := by
  unfold toolCount triples ToolMap.mapValues SortedMap.mapValues
  simp [List.length_flatMap, Function.comp_def]

/-- Two tenants have rules for the same tools, equally many for each, and these are alike. -/
theorem alike_fillRules (v w : TenantVars) (m : ToolMap (List ClassifierRule)) (s t : String) :
    Option.Rel (List.Forall₂ ClassifierRule.Alike)
      ((m.fillRules v).find? s t) ((m.fillRules w).find? s t) := by
  rw [find?_fillRules, find?_fillRules]
  cases m.find? s t with
  | none => exact .none
  | some rules =>
    apply Option.Rel.some
    rw [List.forall₂_map_left_iff, List.forall₂_map_right_iff, List.forall₂_same]
    intro r _
    exact r.alike_fill v w

/-- Rules without braces are the same for every tenant. -/
theorem fillRules_of_braceless {m : ToolMap (List ClassifierRule)} (h : m.Braceless)
    (vars : TenantVars) : m.fillRules vars = m := by
  apply ext_find?
  · exact isSome_get?_fillRules vars m
  · intro s t
    rw [find?_fillRules]
    cases hrules : m.find? s t with
    | none => rfl
    | some rules =>
      have hfill : rules.map (ClassifierRule.fill vars) = rules := by
        have hrule : ∀ r ∈ rules, r.fill vars = r := by
          intro r hr
          exact (h s t rules hrules r hr).fill_eq vars
        exact (List.map_congr_left hrule).trans (List.map_id rules)
      rw [Option.map_some, hfill]

end ToolMap

/-! ## Policies -/

namespace Policy

/-- The classifier rules of a document and its profiles before they are filled in. -/
def gathered (doc : Document) (ps : List Profile) : ToolMap (List ClassifierRule) :=
  overrideClassifiers doc.classifierOverrides (ps.foldl seedClassifiers ∅)

theorem classifiers_merge (doc : Document) (ps : List Profile) (vars : TenantVars) :
    (merge doc ps vars).classifiers = (gathered doc ps).fillRules vars := rfl

/-- Two policies, with their summaries, that differ in the texts of classifier rules at most. -/
structure AlikeUpToTexts (x y : Compiled) : Prop where
  version : x.policy.version = y.policy.version
  annotations : x.policy.annotations = y.policy.annotations
  rules : x.policy.rules = y.policy.rules
  services : ∀ s, (x.policy.classifiers.get? s).isSome ↔ (y.policy.classifiers.get? s).isSome
  /-- Both have rules for the same tools, equally many for each, and these are alike in order. -/
  classifiers : ∀ s t, Option.Rel (List.Forall₂ ClassifierRule.Alike)
    (x.policy.classifiers.find? s t) (y.policy.classifiers.find? s t)
  annotationCount : x.stats.annotations = y.stats.annotations
  classifierCount : x.stats.classifiers = y.stats.classifiers
  ruleCount : x.stats.rules = y.stats.rules

theorem policy_of (p : Policy) : (Compiled.of p).policy = p := rfl

theorem annotations_of (p : Policy) :
    (Compiled.of p).stats.annotations = p.annotations.toolCount := rfl

theorem classifiers_of (p : Policy) :
    (Compiled.of p).stats.classifiers = p.classifiers.toolCount := rfl

theorem rules_of (p : Policy) : (Compiled.of p).stats.rules = p.rules.length := rfl

/-- Two tenants are merged policies that differ in texts of classifier rules at most. -/
theorem alikeUpToTexts_merge (doc : Document) (ps : List Profile) (v w : TenantVars) :
    AlikeUpToTexts (.of (merge doc ps v)) (.of (merge doc ps w)) where
  version := by
    rw [policy_of, policy_of]
    rfl
  annotations := by
    rw [policy_of, policy_of]
    rfl
  rules := by
    rw [policy_of, policy_of]
    rfl
  services s := by
    rw [policy_of, policy_of, classifiers_merge, classifiers_merge,
      ToolMap.isSome_get?_fillRules, ToolMap.isSome_get?_fillRules]
  classifiers s t := by
    rw [policy_of, policy_of, classifiers_merge, classifiers_merge]
    exact ToolMap.alike_fillRules v w _ s t
  annotationCount := by
    rw [annotations_of, annotations_of]
    rfl
  classifierCount := by
    rw [classifiers_of, classifiers_of, classifiers_merge, classifiers_merge]
    unfold ToolMap.fillRules
    rw [ToolMap.toolCount_mapValues, ToolMap.toolCount_mapValues]
  ruleCount := by
    rw [rules_of, rules_of]
    rfl

/-- If no gathered rule has a brace in its texts, the tenant does not matter. -/
theorem merge_of_braceless {doc : Document} {ps : List Profile} (h : (gathered doc ps).Braceless)
    (v w : TenantVars) : merge doc ps v = merge doc ps w := by
  unfold merge
  have hv := ToolMap.fillRules_of_braceless h v
  have hw := ToolMap.fillRules_of_braceless h w
  unfold gathered at hv hw
  rw [hv, hw]

/-- The values of a tenant change neither the findings of a draft nor the ids in it. -/
theorem findings_tenantVars (d : Draft) (v : TenantVars) :
    ({ d with tenantVars := v } : Draft).findings = d.findings := by
  simp only [Draft.findings]

theorem document_tenantVars (d : Draft) (v : TenantVars) :
    ({ d with tenantVars := v } : Draft).document = { d.document with tenantVars := v } := by
  simp only [Draft.document]

/-- What a draft without findings is compiled to for a tenant, from the ids that it has anyway. -/
theorem run_compile_tenantVars {d : Draft} (hfindings : d.findings = []) (lookup : Lookup)
    (r : Resolver) (v : TenantVars) :
    (compile lookup { d with tenantVars := v }).run r =
      match (Resolver.resolveAll lookup d.document.profiles).run r with
      | (.ok ps, r) => (.ok (.of (merge d.document ps v)), r)
      | (.error e, r) => (.error e, r) := by
  have hsame := findings_tenantVars d v
  rw [hfindings] at hsame
  rw [run_compile_of_valid hsame, document_tenantVars]
  rcases (Resolver.resolveAll lookup d.document.profiles).run r with ⟨_ | _, _⟩ <;> rfl

/-- What a draft is compiled to for two tenants, from one resolver and with one catalog. Either both
are told the same error, or both get the merge of the same profiles with their own values, and the
two policies differ in the texts of classifier rules at most. If no gathered rule has a brace in its
texts, the released texts do not differ. In every case the resolver is left the same. -/
theorem tenantVars_reach (lookup : Lookup) (r : Resolver) (d : Draft) (v w : TenantVars) :
    let x := (compile lookup { d with tenantVars := v }).run r
    let y := (compile lookup { d with tenantVars := w }).run r
    x.2 = y.2 ∧
      ((∃ e, x.1 = .error e ∧ y.1 = .error e) ∨
        ∃ ps p q, d.document.profiles.mapM (Resolver.answer lookup r) = .ok ps ∧
          (x.1 = .ok p ∧ p = .of (merge d.document ps v)) ∧
          (y.1 = .ok q ∧ q = .of (merge d.document ps w)) ∧
          AlikeUpToTexts p q ∧
          ((gathered d.document ps).Braceless → p.text = q.text ∧ p.stats = q.stats)) := by
  intro x y
  by_cases hfindings : d.findings = []
  · -- neither the findings nor the ids look at the values, so both runs resolve the same ids
    have hx : x = _ := run_compile_tenantVars hfindings lookup r v
    have hy : y = _ := run_compile_tenantVars hfindings lookup r w
    have hanswers := Resolver.resolveAll_answers lookup d.document.profiles r
    rcases hrun : (Resolver.resolveAll lookup d.document.profiles).run r with ⟨e | ps, r'⟩
    · rw [hrun] at hx hy
      rw [hx, hy]
      exact ⟨rfl, .inl ⟨e, rfl, rfl⟩⟩
    · rw [hrun] at hx hy hanswers
      rw [hx, hy]
      refine ⟨?_, .inr ⟨ps, _, _, hanswers.symm, ⟨rfl, rfl⟩, ⟨rfl, rfl⟩, ?_, ?_⟩⟩
      · change r' = r'
        rfl
      · exact alikeUpToTexts_merge d.document ps v w
      · intro hbraceless
        rw [merge_of_braceless hbraceless v w]
        exact ⟨rfl, rfl⟩
  · -- both are told the findings, and no id is looked up
    have hrefused : ∀ u, (compile lookup { d with tenantVars := u }).run r =
        (.error (.invalid d.findings), r) := by
      intro u
      have hsame := findings_tenantVars d u
      rw [← hsame] at hfindings
      rw [run_compile_of_findings hfindings, hsame]
    have hx : x = _ := hrefused v
    have hy : y = _ := hrefused w
    rw [hx, hy]
    exact ⟨rfl, .inl ⟨_, rfl, rfl⟩⟩

/-- One token in a pattern and in the timeout of a rule: the tenants get patterns of their own and
one timeout. Without the pattern they get the same text. -/
theorem tenantVars_reach_of_mailbox :
    let docs (pattern : String) : Profile := ⟨"docs", (∅ : SortedMap String ProfileTool).insert
      "search" { ProfileTool.empty with classify := some [⟨"from", .contains pattern, []⟩] }⟩
    let lookup (pattern : String) : Lookup := fun _ => .ok (some (docs pattern))
    let d : Draft := ⟨"1.0", ∅, ["acme/security-docs"], ∅, ∅,
      [⟨"r", none, .empty, "allow", [], some "{mailbox}", 0⟩]⟩
    let v := (∅ : TenantVars).insert "mailbox" "a@acme"
    let w := (∅ : TenantVars).insert "mailbox" "b@acme"
    let run (pattern : String) (u : TenantVars) :=
      ((compile (lookup pattern) { d with tenantVars := u }).run .empty).1
    (∃ p q, run "{mailbox}" v = .ok p ∧ run "{mailbox}" w = .ok q ∧ AlikeUpToTexts p q ∧
      p.policy.classifiers.find? "docs" "search" = some [⟨"from", .contains "a@acme", []⟩] ∧
      q.policy.classifiers.find? "docs" "search" = some [⟨"from", .contains "b@acme", []⟩]) ∧
    ∃ p q, run "acme" v = .ok p ∧ run "acme" w = .ok q ∧ p.text = q.text := by
  intro docs lookup d v w run
  constructor
  · -- the pattern of the profile has the variable, so the policies differ in this text
    have hreach := tenantVars_reach (lookup "{mailbox}") .empty d v w
    rcases hreach.2 with ⟨e, hx, _⟩ | ⟨ps, p, q, hps, ⟨hx, rfl⟩, ⟨hy, rfl⟩, halike, _⟩
    · have hok : (run "{mailbox}" v).toOption.isSome = true := by decide +kernel
      change run "{mailbox}" v = .error e at hx
      rw [hx] at hok
      cases hok
    · have hprofiles : ps = [docs "{mailbox}"] := by
        have hanswers : d.document.profiles.mapM
            (Resolver.answer (lookup "{mailbox}") .empty) = .ok [docs "{mailbox}"] := by
          decide +kernel
        exact Except.ok.inj (hps.symm.trans hanswers)
      subst hprofiles
      exact ⟨_, _, hx, hy, halike, by decide +kernel, by decide +kernel⟩
  · -- where no text has the variable the policies are the same, although its values differ
    have hreach := tenantVars_reach (lookup "acme") .empty d v w
    rcases hreach.2 with ⟨e, hx, _⟩ | ⟨ps, p, q, hps, ⟨hx, _⟩, ⟨hy, _⟩, _, hsame⟩
    · have hok : (run "acme" v).toOption.isSome = true := by decide +kernel
      change run "acme" v = .error e at hx
      rw [hx] at hok
      cases hok
    · have hprofiles : ps = [docs "acme"] := by
        have hanswers : d.document.profiles.mapM
            (Resolver.answer (lookup "acme") .empty) = .ok [docs "acme"] := by decide +kernel
        exact Except.ok.inj (hps.symm.trans hanswers)
      subst hprofiles
      have hgathered : gathered d.document [docs "acme"] =
          (∅ : ToolMap (List ClassifierRule)).put "docs" "search"
            [⟨"from", .contains "acme", []⟩] := by decide +kernel
      refine ⟨p, q, hx, hy, (hsame ?_).1⟩
      intro s t rules hrules r hr
      rw [hgathered, ToolMap.find?_put] at hrules
      split at hrules
      · cases hrules
        rw [List.mem_singleton] at hr
        subst hr
        refine ⟨by decide +kernel, ?_⟩
        intro pattern hpattern
        cases hpattern
        decide +kernel
      · cases hrules

end Policy

end ToolGate
