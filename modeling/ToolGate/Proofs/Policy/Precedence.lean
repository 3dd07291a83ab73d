import ToolGate.Policy.Merge
import ToolGate.Proofs.ToolMap
import ToolGate.Proofs.Vocabulary

/-!
# Which source speaks for a tool

Several profiles and the document itself may say something about one tool. `Precedence` tells for
every service and tool whose word counts: of the profiles the last one that has the tool, and the
document before all of them, hint by hint but with the verb, the labels and the classifier rules as
wholes. The classifier rules of a tool come from the last profile that gives some, which need not be
the one that its annotation comes from.

* `find?_seedAnnotations`, `find?_seedClassifiers`: what one profile does to the view;
* `find?_overrideAnnotations`, `find?_overrideClassifiers`: what the document does to it;
* `precedence_iff`: merging gives the one policy that keeps the precedence.
-/

namespace ToolGate

/-! ## What profiles say -/

/-- What a profile says about a tool of a service. -/
def Profile.tool? (p : Profile) (service tool : String) : Option ProfileTool :=
  if p.service = service then p.tools.get? tool else none

/-- The classifier rules that a profile has for a tool of a service. -/
def Profile.rules? (p : Profile) (service tool : String) : Option (List ClassifierRule) :=
  (p.tool? service tool).bind (·.classify)

/-- A profile speaks for the tools that it has, and for its own service. -/
theorem Profile.tool?_eq_some_iff {p : Profile} {s t : String} {e : ProfileTool} :
    p.tool? s t = some e ↔ p.service = s ∧ p.tools.get? t = some e := by
  unfold tool?
  by_cases hs : p.service = s <;> simp [hs]

theorem Profile.tool?_eq_none_iff {p : Profile} {s t : String} :
    p.tool? s t = none ↔ (p.service = s → p.tools.get? t = none) := by
  unfold tool?
  by_cases hs : p.service = s <;> simp [hs]

namespace Policy

/-- What the last profile that has a tool says about it. -/
def lastTool? (ps : List Profile) (service tool : String) : Option ProfileTool :=
  ps.reverse.findSome? (·.tool? service tool)

/-- The classifier rules in the last profile that has some for a tool. -/
def lastRules? (ps : List Profile) (service tool : String) : Option (List ClassifierRule) :=
  ps.reverse.findSome? (·.rules? service tool)

/-- The last profile that has a tool is one of its service, and no later one has the tool. -/
theorem lastTool?_eq_some_iff {ps : List Profile} {s t : String} {e : ProfileTool} :
    lastTool? ps s t = some e ↔
      ∃ before p after, ps = before ++ p :: after ∧ (p.service = s ∧ p.tools.get? t = some e) ∧
        ∀ q ∈ after, q.service = s → q.tools.get? t = none := by
  unfold lastTool?
  rw [findSome?_reverse_eq_some_iff]
  simp only [Profile.tool?_eq_some_iff, Profile.tool?_eq_none_iff]

/-- There are classifier rules for a tool if some profile has a list of them. -/
theorem isSome_lastRules?_iff {ps : List Profile} {s t : String} :
    (lastRules? ps s t).isSome ↔
      ∃ p ∈ ps, p.service = s ∧ ∃ e, p.tools.get? t = some e ∧ e.classify.isSome := by
  unfold lastRules?
  rw [List.findSome?_isSome_iff]
  simp only [List.mem_reverse, Profile.rules?, Option.isSome_bind]
  constructor
  · rintro ⟨p, hp, he⟩
    rcases (Option.any_eq_true _ _).1 he with ⟨e, hpe, hc⟩
    rw [Profile.tool?_eq_some_iff] at hpe
    exact ⟨p, hp, hpe.1, e, hpe.2, hc⟩
  · rintro ⟨p, hp, hs, e, he, hc⟩
    exact ⟨p, hp, (Option.any_eq_true _ _).2 ⟨e, Profile.tool?_eq_some_iff.2 ⟨hs, he⟩, hc⟩⟩

/-! ## Seeding -/

/-- A profile's word takes the place of what was said before. -/
theorem find?_seedAnnotations (m : ToolMap Annotation) (p : Profile) (s t : String) :
    (seedAnnotations m p).find? s t =
      ((p.tool? s t).map ProfileTool.imported).or (m.find? s t) := by
  unfold seedAnnotations
  rw [ToolMap.find?_foldl_entries (fun e _ => some e.imported) p.service, ToolMap.find?_touch]
  · unfold Profile.tool?
    cases (if p.service = s then p.tools.get? t else none) <;> rfl
  · intro m e s t
    rw [ToolMap.find?_put]

/-- A profile's classifier rules take the place of those before; a tool without rules keeps them. -/
theorem find?_seedClassifiers (m : ToolMap (List ClassifierRule)) (p : Profile) (s t : String) :
    (seedClassifiers m p).find? s t = (p.rules? s t).or (m.find? s t) := by
  unfold seedClassifiers
  rw [ToolMap.find?_foldl_entries (fun e => e.classify.or) p.service]
  · unfold Profile.rules? Profile.tool?
    cases (if p.service = s then p.tools.get? t else none) <;> rfl
  · intro m e s t
    cases e.2.classify <;> simp [ToolMap.find?_put]

/-- After all profiles, the last one that has the tool is the one that counts. -/
theorem find?_seededAnnotations (ps : List Profile) (s t : String) :
    (ps.foldl seedAnnotations ∅).find? s t = (lastTool? ps s t).map ProfileTool.imported := by
  have hwalk := view_foldl_last (fun m : ToolMap Annotation => m.find? s t)
    (fun m p => find?_seedAnnotations m p s t) ps ∅
  have hempty : (∅ : ToolMap Annotation).find? s t = none := rfl
  rw [hwalk, hempty, Option.or_none]
  unfold lastTool?
  rw [List.map_findSome?]
  rfl

/-- For classifier rules it is the last one that has a list. -/
theorem find?_seededClassifiers (ps : List Profile) (s t : String) :
    (ps.foldl seedClassifiers ∅).find? s t = lastRules? ps s t := by
  have hwalk := view_foldl_last (fun m : ToolMap (List ClassifierRule) => m.find? s t)
    (fun m p => find?_seedClassifiers m p s t) ps ∅
  have hempty : (∅ : ToolMap (List ClassifierRule)).find? s t = none := rfl
  rw [hwalk, hempty, Option.or_none]
  rfl

/-! ## Overriding -/

/-- A tool that is overridden has what its override makes of what was there; the others stay. -/
theorem find?_overrideAnnotations (overrides : ToolMap Override) (m : ToolMap Annotation)
    (s t : String) :
    (overrideAnnotations overrides m).find? s t =
      match overrides.find? s t with
      | some o => some (o.apply ((m.find? s t).getD .empty))
      | none => m.find? s t := by
  unfold overrideAnnotations
  rw [ToolMap.find?_foldl_triples (fun o a => some (o.apply (a.getD .empty)))]
  · cases overrides.find? s t <;> rfl
  · intro m e s t
    rw [ToolMap.find?_put]
    by_cases hk : e.1 = s ∧ e.2.1 = t
    · rw [if_pos hk, if_pos hk, hk.1, hk.2]
    · rw [if_neg hk, if_neg hk]

/-- A tool for which there is a list of classifier rules has that list; the others stay. -/
theorem find?_overrideClassifiers (overrides m : ToolMap (List ClassifierRule)) (s t : String) :
    (overrideClassifiers overrides m).find? s t = (overrides.find? s t).or (m.find? s t) := by
  unfold overrideClassifiers
  rw [ToolMap.find?_foldl_triples (fun rules _ => some rules)]
  · cases overrides.find? s t <;> rfl
  · intro m e s t
    rw [ToolMap.find?_put]

/-! ## Listed services -/

/-- A profile lists its service, with or without tools. -/
theorem isSome_get?_seedAnnotations (m : ToolMap Annotation) (p : Profile) (s : String) :
    ((seedAnnotations m p).get? s).isSome ↔ p.service = s ∨ (m.get? s).isSome := by
  unfold seedAnnotations
  rw [holds_foldl_iff (fun m : ToolMap Annotation => (m.get? s).isSome)
    (fun _ => p.service = s), ToolMap.isSome_get?_touch]
  · constructor
    · rintro (⟨e, _, hs⟩ | h)
      · exact Or.inl hs
      · exact h
    · exact Or.inr
  · intro m e
    exact ToolMap.isSome_get?_put m p.service e.1 e.2.imported s

/-- An override lists its service. -/
theorem isSome_get?_overrideAnnotations (overrides : ToolMap Override) (m : ToolMap Annotation)
    (s : String) :
    ((overrideAnnotations overrides m).get? s).isSome ↔
      (∃ t, (overrides.find? s t).isSome) ∨ (m.get? s).isSome := by
  unfold overrideAnnotations
  rw [holds_foldl_iff (fun m : ToolMap Annotation => (m.get? s).isSome) (fun e => e.1 = s)
    (fun m e => ToolMap.isSome_get?_put m e.1 e.2.1 _ s)]
  have hgiven : (∃ e ∈ overrides.triples, e.1 = s) ↔ ∃ t, (overrides.find? s t).isSome := by
    constructor
    · rintro ⟨⟨_, t, o⟩, he, rfl⟩
      exact ⟨t, Option.isSome_iff_exists.2 ⟨o, ToolMap.mem_triples.1 he⟩⟩
    · rintro ⟨t, ht⟩
      rcases Option.isSome_iff_exists.1 ht with ⟨o, ho⟩
      exact ⟨(s, t, o), ToolMap.mem_triples.2 ho, rfl⟩
  rw [hgiven]

/-- In the classifier rules a service is listed for its tools only. -/
theorem noneIdle_classifiers (doc : Document) (ps : List Profile) (vars : TenantVars) :
    (merge doc ps vars).classifiers.NoneIdle := by
  -- both walks begin without services and only ever put a tool in
  have hseeded : (ps.foldl seedClassifiers ∅).NoneIdle := by
    apply List.foldlRecOn ps seedClassifiers ToolMap.noneIdle_empty
    intro m hm p _
    apply List.foldlRecOn p.tools.entries _ hm
    intro m hm e _
    split
    · exact hm.put _ _ _
    · exact hm
  apply ToolMap.NoneIdle.mapValues
  apply List.foldlRecOn doc.classifierOverrides.triples _ hseeded
  intro m hm e _
  exact hm.put _ _ _

/-! ## Precedence -/

/-- What a document, its profiles in order and its tenant variables lay down for the policy. -/
structure Precedence (doc : Document) (ps : List Profile) (vars : TenantVars) (m : Policy) :
    Prop where
  version : m.version = doc.version
  rules : m.rules = doc.policyRules
  /-- A tool is annotated if a profile has it or the document overrides it. -/
  annotated : ∀ s t, (m.annotations.find? s t).isSome ↔
    (lastTool? ps s t).isSome ∨ (doc.toolOverrides.find? s t).isSome
  /-- A hint holds if the override gives it as true, or the override leaves it open and the last
  profile gives it as true. -/
  hints : ∀ s t a, m.annotations.find? s t = some a → ∀ h, a.hints.contains h = true ↔
    (doc.toolOverrides.find? s t).bind (·.hints.get? h) = some true ∨
      (doc.toolOverrides.find? s t).bind (·.hints.get? h) = none ∧
        (lastTool? ps s t).bind (·.hints.get? h) = some true
  verb : ∀ s t a, m.annotations.find? s t = some a → a.verb =
    ((doc.toolOverrides.find? s t).bind (·.verb)).or ((lastTool? ps s t).bind (·.verb))
  /-- An override's list of labels counts even if it is empty. -/
  labels : ∀ s t a, m.annotations.find? s t = some a → a.labels =
    (((doc.toolOverrides.find? s t).bind (·.labels)).or
      ((lastTool? ps s t).map (·.labels))).getD []
  /-- A service is annotated even without tools if a profile is about it. -/
  annotatedService : ∀ s, (m.annotations.get? s).isSome ↔
    (∃ p ∈ ps, p.service = s) ∨ ∃ t, (doc.toolOverrides.find? s t).isSome
  /-- A tool has classifier rules if the document or some profile has a list for it. -/
  classified : ∀ s t, (m.classifiers.find? s t).isSome ↔
    (doc.classifierOverrides.find? s t).isSome ∨
      ∃ p ∈ ps, p.service = s ∧ ∃ e, p.tools.get? t = some e ∧ e.classify.isSome
  /-- The document's list counts, even if it is empty, and else the list of the last profile that
  has one; tenant variables are put into each rule. -/
  classifierRules : ∀ s t, m.classifiers.find? s t =
    ((doc.classifierOverrides.find? s t).or (lastRules? ps s t)).map
      (List.map (ClassifierRule.fill vars))
  classifiedService : ∀ s, (m.classifiers.get? s).isSome ↔ ∃ t, (m.classifiers.find? s t).isSome

/-- The annotation of a tool: an override applied to what the profiles say. -/
theorem find?_annotations_merge (doc : Document) (ps : List Profile) (vars : TenantVars)
    (s t : String) :
    (merge doc ps vars).annotations.find? s t =
      match doc.toolOverrides.find? s t with
      | some o => some (o.apply (((lastTool? ps s t).map ProfileTool.imported).getD .empty))
      | none => (lastTool? ps s t).map ProfileTool.imported := by
  unfold merge
  rw [find?_overrideAnnotations, find?_seededAnnotations]

/-- The classifier rules of a tool, filled in. -/
theorem find?_classifiers_merge (doc : Document) (ps : List Profile) (vars : TenantVars)
    (s t : String) :
    (merge doc ps vars).classifiers.find? s t =
      ((doc.classifierOverrides.find? s t).or (lastRules? ps s t)).map
        (List.map (ClassifierRule.fill vars)) := by
  unfold merge ToolMap.fillRules
  rw [ToolMap.find?_mapValues, find?_overrideClassifiers, find?_seededClassifiers]

theorem contains_imported (e : ProfileTool) (h : Hint) :
    e.imported.hints.contains h = true ↔ e.hints.get? h = some true :=
  HintSet.contains_ofMap e.hints h

/-- Merging keeps the precedence. -/
theorem precedence_merge (doc : Document) (ps : List Profile) (vars : TenantVars) :
    Precedence doc ps vars (merge doc ps vars) where
  version := rfl
  rules := rfl
  annotated s t := by
    rw [find?_annotations_merge]
    cases doc.toolOverrides.find? s t <;> simp
  hints s t a ha h := by
    rw [find?_annotations_merge] at ha
    cases ho : doc.toolOverrides.find? s t with
    | none =>
      rcases Option.map_eq_some_iff.1 (ho ▸ ha) with ⟨e, he, rfl⟩
      simp [he, contains_imported]
    | some o =>
      rw [ho] at ha
      cases ha
      simp only [Override.apply, HintSet.contains_apply, Option.bind_some]
      cases hh : o.hints.get? h with
      | some value => simp
      | none =>
        -- the override leaves the hint open, so what the profiles say of it stays
        cases lastTool? ps s t with
        | none => simp [ Annotation.empty]
        | some e => simp [contains_imported]
  verb s t a ha := by
    rw [find?_annotations_merge] at ha
    cases ho : doc.toolOverrides.find? s t with
    | none =>
      rcases Option.map_eq_some_iff.1 (ho ▸ ha) with ⟨e, he, rfl⟩
      simp [he, ProfileTool.imported]
    | some o =>
      rw [ho] at ha
      cases ha
      cases lastTool? ps s t <;> rfl
  labels s t a ha := by
    rw [find?_annotations_merge] at ha
    cases ho : doc.toolOverrides.find? s t with
    | none =>
      rcases Option.map_eq_some_iff.1 (ho ▸ ha) with ⟨e, he, rfl⟩
      simp [he, ProfileTool.imported]
    | some o =>
      rw [ho] at ha
      cases ha
      cases hl : o.labels <;> cases lastTool? ps s t <;>
        simp [Override.apply, hl, ProfileTool.imported, Annotation.empty]
  annotatedService s := by
    unfold merge
    rw [isSome_get?_overrideAnnotations,
      holds_foldl_iff (fun m : ToolMap Annotation => (m.get? s).isSome) (fun p => p.service = s)
        (fun m p => isSome_get?_seedAnnotations m p s)]
    simp [or_comm]
  classified s t := by
    rw [find?_classifiers_merge, Option.isSome_map, Option.isSome_or, Bool.or_eq_true,
      isSome_lastRules?_iff]
  classifierRules s t := find?_classifiers_merge doc ps vars s t
  classifiedService s :=
    ⟨noneIdle_classifiers doc ps vars s, fun ⟨_, ht⟩ => ToolMap.isSome_get?_of_find? ht⟩

/-- The precedence leaves nothing open: it is kept by one policy only. -/
theorem Precedence.unique {doc : Document} {ps : List Profile} {vars : TenantVars} {m n : Policy}
    (hm : Precedence doc ps vars m) (hn : Precedence doc ps vars n) : m = n := by
  have hannotations : m.annotations = n.annotations := by
    apply ToolMap.ext_find?
    · intro s
      rw [hm.annotatedService, hn.annotatedService]
    · intro s t
      -- both annotate the same tools, and where both do every part of the annotation is laid down
      have hsome := (hm.annotated s t).trans (hn.annotated s t).symm
      cases ha : m.annotations.find? s t with
      | none =>
        rw [ha] at hsome
        exact (Option.not_isSome_iff_eq_none.1 fun h => by simpa using hsome.2 h).symm
      | some a =>
        cases hb : n.annotations.find? s t with
        | none => simp [ha, hb] at hsome
        | some b =>
          -- a set of hints is known by its members
          have hhints : a.hints = b.hints := by
            apply HintSet.ext_contains
            intro h
            rw [Bool.eq_iff_iff, hm.hints s t a ha h, hn.hints s t b hb h]
          have hverb : a.verb = b.verb := (hm.verb s t a ha).trans (hn.verb s t b hb).symm
          have hlabels : a.labels = b.labels :=
            (hm.labels s t a ha).trans (hn.labels s t b hb).symm
          cases a
          cases b
          simp_all
  have hclassifiers : m.classifiers = n.classifiers := by
    have hview : ∀ s t, m.classifiers.find? s t = n.classifiers.find? s t := fun s t =>
      (hm.classifierRules s t).trans (hn.classifierRules s t).symm
    apply ToolMap.ext_find? _ hview
    intro s
    rw [hm.classifiedService, hn.classifiedService]
    simp only [hview]
  have hversion : m.version = n.version := hm.version.trans hn.version.symm
  have hrules : m.rules = n.rules := hm.rules.trans hn.rules.symm
  cases m
  cases n
  simp_all

/-- Merging gives the one policy that keeps the precedence. -/
theorem precedence_iff (doc : Document) (ps : List Profile) (vars : TenantVars) (m : Policy) :
    Precedence doc ps vars m ↔ m = merge doc ps vars := by
  constructor
  · intro hm
    exact hm.unique (precedence_merge doc ps vars)
  · rintro rfl
    exact precedence_merge doc ps vars

end Policy

end ToolGate
