import ToolGate.Proofs.Policy.Compile
import ToolGate.Proofs.Policy.Precedence
import ToolGate.Proofs.Profile.Service

/-!
# Imports are a set

A document lists the profiles that it imports, and of two profiles that have the same tool the later
one counts. Profiles that are found under their own services have no tool in common, so there the
order of a list makes no difference, nor does it matter how often an id is repeated or which
organisation it names: a document is compiled to the same policy whenever its ids name the same
services, or else in every order some service is without a profile.

* `findSome?_congr_of_agree`: a search whose hits agree does not look at the order;
* `Policy.merge_congr`: of profiles with services of their own only the set counts;
* `Resolver.mem_iff_of_answers`: which profiles ids are answered with;
* `Policy.imports_are_set`: two documents that import the same services.
-/

namespace ToolGate

/-! ## Searches -/

/-- If all hits in a list are the same, a search finds the same in every list of the same items. -/
theorem findSome?_congr_of_agree {ε α : Type} {f : ε → Option α} {l l' : List ε}
    (hsame : ∀ e, e ∈ l ↔ e ∈ l')
    (hagree : ∀ e ∈ l, ∀ e' ∈ l, ∀ a a', f e = some a → f e' = some a' → a = a') :
    l.findSome? f = l'.findSome? f := by
  cases hl : l.findSome? f with
  | none =>
    rw [List.findSome?_eq_none_iff] at hl
    have hnone : l'.findSome? f = none := by
      rw [List.findSome?_eq_none_iff]
      intro e he
      exact hl e ((hsame e).2 he)
    rw [hnone]
  | some a =>
    rcases List.exists_of_findSome?_eq_some hl with ⟨e, he, ha⟩
    cases hl' : l'.findSome? f with
    | none =>
      rw [List.findSome?_eq_none_iff] at hl'
      rw [hl' e ((hsame e).1 he)] at ha
      cases ha
    | some a' =>
      rcases List.exists_of_findSome?_eq_some hl' with ⟨e', he', ha'⟩
      -- each list has an answer, and no two answers differ
      rw [hagree e he e' ((hsame e').2 he') a a' ha ha']

namespace Policy

/-! ## Merging -/

section Merge

variable {ps ps' : List Profile}

/-- Whether profiles about one service are one profile. -/
def OnePerService (ps : List Profile) : Prop :=
  ∀ p ∈ ps, ∀ q ∈ ps, p.service = q.service → p = q

/-- What the last profile about a service says is said by every list of the same profiles. -/
theorem findSome?_reverse_congr {α : Type} {f : Profile → Option α} {service : String}
    (hps : OnePerService ps) (hsame : ∀ p, p ∈ ps ↔ p ∈ ps')
    (hf : ∀ p a, f p = some a → p.service = service) :
    ps.reverse.findSome? f = ps'.reverse.findSome? f := by
  apply findSome?_congr_of_agree
  · intro p
    rw [List.mem_reverse, List.mem_reverse, hsame]
  · intro p hp q hq a a' ha ha'
    rw [List.mem_reverse] at hp hq
    have hservice : p.service = q.service := (hf p a ha).trans (hf q a' ha').symm
    have hpq : p = q := hps p hp q hq hservice
    subst hpq
    exact Option.some.inj (ha.symm.trans ha')

theorem lastTool?_congr (hps : OnePerService ps) (hsame : ∀ p, p ∈ ps ↔ p ∈ ps') (s t : String) :
    lastTool? ps s t = lastTool? ps' s t := by
  apply findSome?_reverse_congr hps hsame
  intro p e he
  exact (Profile.tool?_eq_some_iff.1 he).1

/-- The classifier rules that count are the same in any order of the profiles. -/
theorem lastRules?_congr (hps : OnePerService ps) (hsame : ∀ p, p ∈ ps ↔ p ∈ ps') (s t : String) :
    lastRules? ps s t = lastRules? ps' s t := by
  apply findSome?_reverse_congr hps hsame
  intro p rules hrules
  rcases Option.bind_eq_some_iff.1 hrules with ⟨e, he, _⟩
  exact (Profile.tool?_eq_some_iff.1 he).1

/-- Of profiles with services of their own it is no matter in which order and how often they
come. -/
theorem merge_congr (hps : OnePerService ps) (hsame : ∀ p, p ∈ ps ↔ p ∈ ps') (doc : Document)
    (vars : TenantVars) : merge doc ps vars = merge doc ps' vars := by
  have hprecedence := precedence_merge doc ps vars
  have hprecedence' := precedence_merge doc ps' vars
  have hannotations : (merge doc ps vars).annotations = (merge doc ps' vars).annotations := by
    apply ToolMap.ext_find?
    · -- a profile without tools lists its service all the same
      intro s
      rw [hprecedence.annotatedService, hprecedence'.annotatedService]
      simp only [hsame]
    · intro s t
      rw [find?_annotations_merge, find?_annotations_merge, lastTool?_congr hps hsame]
  have hclassifiers : (merge doc ps vars).classifiers = (merge doc ps' vars).classifiers := by
    have hview : ∀ s t, (merge doc ps vars).classifiers.find? s t =
        (merge doc ps' vars).classifiers.find? s t := by
      intro s t
      rw [find?_classifiers_merge, find?_classifiers_merge, lastRules?_congr hps hsame]
    apply ToolMap.ext_find?
    · intro s
      rw [hprecedence.classifiedService, hprecedence'.classifiedService]
      simp only [hview]
    · exact hview
  unfold merge at hannotations hclassifiers ⊢
  simp only at hannotations hclassifiers
  rw [hannotations, hclassifiers]

end Merge

end Policy

/-! ## Answers -/

namespace Resolver

variable {lookup : Lookup}

/-- A resolver that was not used before answers with what the catalog has. -/
theorem answer_empty_eq_ok_iff {id : ProfileId} {p : Profile} :
    answer lookup .empty id = .ok p ↔ lookup id.service = .ok (some p) := by
  rw [answer_eq_ok_iff]
  constructor
  · rintro (hkept | ⟨_, hfound⟩)
    · cases hkept
    · exact hfound
  · intro hfound
    exact .inr ⟨rfl, hfound⟩

/-- Ids are answered with the profiles that the catalog has for their services. -/
theorem mem_iff_of_answers {ids : List ProfileId} {ps : List Profile}
    (h : ids.mapM (answer lookup .empty) = .ok ps) {p : Profile} :
    p ∈ ps ↔ ∃ s ∈ ids.map (·.service), lookup s = .ok (some p) := by
  rw [mem_iff_of_mapM_eq_ok h]
  simp only [answer_empty_eq_ok_iff, List.mem_map]
  constructor
  · rintro ⟨id, hid, hfound⟩
    exact ⟨id.service, ⟨id, hid, rfl⟩, hfound⟩
  · rintro ⟨_, ⟨id, hid, rfl⟩, hfound⟩
    exact ⟨id, hid, hfound⟩

/-- A keyed catalog answers with one profile per service. -/
theorem onePerService_of_answers (hkeyed : lookup.Keyed) {ids : List ProfileId} {ps : List Profile}
    (h : ids.mapM (answer lookup .empty) = .ok ps) : Policy.OnePerService ps := by
  -- each profile is what the catalog has for the service that the profile names
  have hfound : ∀ p ∈ ps, lookup p.service = .ok (some p) := by
    intro p hp
    rcases exists_mem_of_mapM_eq_ok h p hp with ⟨id, _, hanswer⟩
    rw [answer_empty_eq_ok_iff] at hanswer
    have hservice := hkeyed id.service p id.service_ok hanswer
    rw [hservice]
    exact hanswer
  -- so two of them about one service are the one that the catalog has for it
  intro p hp q hq hservice
  have hp := hfound p hp
  rw [hservice, hfound q hq] at hp
  exact (Option.some.inj (Except.ok.inj hp)).symm

/-- Ids of no further services are answered as well. -/
theorem exists_answers {ids ids' : List ProfileId} {ps : List Profile}
    (h : ids.mapM (answer lookup .empty) = .ok ps)
    (hservices : ∀ s ∈ ids'.map (·.service), s ∈ ids.map (·.service)) :
    ∃ ps', ids'.mapM (answer lookup .empty) = .ok ps' := by
  rcases hanswers : ids'.mapM (answer lookup .empty) with e | ps'
  · -- the id that has no profile shares its service with one that has
    rcases exists_mem_of_mapM_eq_error hanswers with ⟨id', hid', herror⟩
    have hservice := hservices id'.service (List.mem_map_of_mem hid')
    rcases List.mem_map.1 hservice with ⟨id, hid, heq⟩
    rcases exists_of_mapM_eq_ok h id hid with ⟨p, hp⟩
    rw [answer_empty_eq_ok_iff, heq, ← answer_empty_eq_ok_iff, herror] at hp
    cases hp
  · exact ⟨ps', rfl⟩

end Resolver

/-! ## Documents -/

namespace Policy

/-- Two drafts without findings that differ in their lists of profiles only, and name the same
services in these. -/
structure SameImports (d d' : Draft) : Prop where
  rest : d' = { d with profiles := d'.profiles }
  valid : d.findings = []
  valid' : d'.findings = []
  services : ∀ s, s ∈ d.document.profiles.map (·.service) ↔ s ∈ d'.document.profiles.map (·.service)

/-- The error of a draft that imports a service for which there is no profile. -/
def NotFound (lookup : Lookup) (d : Draft) (e : Error) : Prop :=
  ∃ id ∈ d.document.profiles, lookup id.service = .ok none ∧ e = .profileMissing id.text id.service

/-- The error of a draft that imports a service for which the catalog fails. -/
def Unreachable (lookup : Lookup) (d : Draft) (e : Error) : Prop :=
  ∃ id ∈ d.document.profiles, ∃ cause, lookup id.service = .error cause ∧ e = .transport cause

/-- Two results of which either both are errors of certain kinds, or both are the same policy, with
one text and one summary. -/
def Agree (fails fails' : Error → Prop) (x y : Except Error Compiled) : Prop :=
  (∃ e e', (x = .error e ∧ fails e) ∧ y = .error e' ∧ fails' e') ∨
    ∃ p q, (x = .ok p ∧ y = .ok q) ∧ p.policy = q.policy ∧ p.text = q.text ∧ p.stats = q.stats

theorem Agree.imp {fails fails' told told' : Error → Prop} {x y : Except Error Compiled}
    (h : Agree fails fails' x y) (hleft : ∀ e, fails e → told e)
    (hright : ∀ e, fails' e → told' e) : Agree told told' x y := by
  rcases h with ⟨e, e', ⟨hx, he⟩, hy, he'⟩ | hsame
  · exact .inl ⟨e, e', ⟨hx, hleft e he⟩, hy, hright e' he'⟩
  · exact .inr hsame

section Compile

variable {lookup : Lookup} {d d' : Draft}

/-- Why ids have no answers. -/
theorem error_of_answers {e : Error}
    (h : d.document.profiles.mapM (Resolver.answer lookup .empty) = .error e) :
    NotFound lookup d e ∨ Unreachable lookup d e := by
  rcases exists_mem_of_mapM_eq_error h with ⟨id, hid, herror⟩
  rcases (Resolver.answer_eq_error herror).2 with hnone | hfailed
  · exact .inl ⟨id, hid, hnone⟩
  · exact .inr ⟨id, hid, hfailed⟩

/-- Drafts that differ in their imports are merged alike with the same profiles. -/
theorem merge_of_sameImports (h : SameImports d d') (ps : List Profile) :
    merge d'.document ps d'.document.tenantVars = merge d.document ps d.document.tenantVars := by
  rw [h.rest]
  rfl

/-- The answers to two drafts that import the same services, completed and merged. -/
theorem agree_answers (h : SameImports d d') (hkeyed : lookup.Keyed) :
    Agree (fun e => NotFound lookup d e ∨ Unreachable lookup d e)
      (fun e => NotFound lookup d' e ∨ Unreachable lookup d' e)
      ((d.document.profiles.mapM (Resolver.answer lookup .empty)).map
        fun ps => .of (merge d.document ps d.document.tenantVars))
      ((d'.document.profiles.mapM (Resolver.answer lookup .empty)).map
        fun ps => .of (merge d'.document ps d'.document.tenantVars)) := by
  rcases hx : d.document.profiles.mapM (Resolver.answer lookup .empty) with e | ps
  · rcases hy : d'.document.profiles.mapM (Resolver.answer lookup .empty) with e' | ps'
    · exact .inl ⟨e, e', ⟨rfl, error_of_answers hx⟩, rfl, error_of_answers hy⟩
    · -- what the one draft fails for the other one imports as well
      rcases Resolver.exists_answers hy fun s hs => (h.services s).1 hs with ⟨ps, hps⟩
      rw [hx] at hps
      cases hps
  · rcases Resolver.exists_answers hx fun s hs => (h.services s).2 hs with ⟨ps', hy⟩
    rw [hy]
    have hsame : ∀ p, p ∈ ps ↔ p ∈ ps' := by
      intro p
      rw [Resolver.mem_iff_of_answers hx, Resolver.mem_iff_of_answers hy]
      simp only [h.services]
    have hmerge : merge d.document ps d.document.tenantVars =
        merge d'.document ps' d'.document.tenantVars := by
      rw [merge_of_sameImports h]
      exact merge_congr (Resolver.onePerService_of_answers hkeyed hx) hsame d.document _
    exact .inr ⟨_, _, ⟨rfl, rfl⟩, hmerge, congrArg (fun p => (Compiled.of p).text) hmerge,
      congrArg (fun p => (Compiled.of p).stats) hmerge⟩

/-- Two drafts compiled by resolvers that may have asked the same catalog before, whatever they were
asked. -/
def AgreeWith (lookup : Lookup) (fails : Draft → Error → Prop) (d d' : Draft) : Prop :=
  ∀ events events' : List Resolver.Event,
    (∀ e ∈ events, e.lookup = lookup) → (∀ e ∈ events', e.lookup = lookup) →
    Agree (fails d) (fails d') ((compile lookup d).run (Resolver.replay events).resolver).1
      ((compile lookup d').run (Resolver.replay events').resolver).1

/-- Two such drafts are compiled alike. -/
theorem agree_compile (h : SameImports d d') (hkeyed : lookup.Keyed) :
    AgreeWith lookup (fun d e => NotFound lookup d e ∨ Unreachable lookup d e) d d' := by
  intro events events' hevents hevents'
  rw [compile_of_valid h.valid, compile_of_valid h.valid', Resolver.answer_replay hevents,
    Resolver.answer_replay hevents']
  exact agree_answers h hkeyed

/-- If the catalog never fails, the only reason is that a service has no profile. -/
theorem agree_compile_of_reachable (h : SameImports d d') (hkeyed : lookup.Keyed)
    (hreachable : ∀ s cause, lookup s ≠ .error cause) :
    AgreeWith lookup (NotFound lookup) d d' := by
  have hnever : ∀ (d : Draft) (e : Error),
      NotFound lookup d e ∨ Unreachable lookup d e → NotFound lookup d e := by
    rintro d e (hnone | ⟨id, _, cause, hfailed, _⟩)
    · exact hnone
    · exact absurd hfailed (hreachable id.service cause)
  intro events events' hevents hevents'
  have hagree := agree_compile h hkeyed events events' hevents hevents'
  exact hagree.imp (hnever d) (hnever d')

end Compile

/-- Two documents that import the same services and are otherwise the same, with a keyed catalog:
both are compiled to the same policy, or both fail, because a service that they import has no
profile or the catalog fails for it. If the catalog never fails, then because a service has no
profile. Catalogs of given profiles are keyed and never fail. -/
theorem imports_are_set {d d' : Draft} (h : SameImports d d') :
    (∀ lookup : Lookup, lookup.Keyed →
      AgreeWith lookup (fun d e => NotFound lookup d e ∨ Unreachable lookup d e) d d') ∧
    (∀ lookup : Lookup, lookup.Keyed → (∀ s cause, lookup s ≠ .error cause) →
      AgreeWith lookup (NotFound lookup) d d') ∧
    ∀ (profiles : List Profile) (t : Files.Tree),
      AgreeWith ((Catalog.ofProfiles profiles).lookup t)
        (NotFound ((Catalog.ofProfiles profiles).lookup t)) d d' := by
  refine ⟨fun lookup hkeyed => agree_compile h hkeyed,
    fun lookup hkeyed hreachable => agree_compile_of_reachable h hkeyed hreachable, ?_⟩
  intro profiles t
  have hreachable : ∀ s cause, (Catalog.ofProfiles profiles).lookup t s ≠ .error cause := by
    intro s cause hfailed
    cases hfailed
  exact agree_compile_of_reachable h (Catalog.keyed_ofProfiles profiles t) hreachable

/-- Three ids of two services, and two ids of the same services in the other order and of other
organisations; one of the profiles has no tools. The second resolver was used before. -/
theorem imports_are_set_of_docs_and_gmail :
    let gmail : Profile := ⟨"gmail", (∅ : SortedMap String ProfileTool).insert "send" .empty⟩
    let profiles : List Profile := [⟨"docs", ∅⟩, gmail]
    let lookup := (Catalog.ofProfiles profiles).lookup .empty
    let d : Draft := ⟨"1.0", ∅, ["acme/security-docs", "acme/security-gmail", "beta/security-docs"],
      ∅, ∅, []⟩
    let d' : Draft := { d with profiles := ["beta/security-gmail", "gamma/security-docs"] }
    let events' : List Resolver.Event := [⟨lookup, .resolve "delta/security-gmail"⟩]
    SameImports d d' ∧
      Agree (NotFound lookup d) (NotFound lookup d')
        ((compile lookup d).run (Resolver.replay []).resolver).1
        ((compile lookup d').run (Resolver.replay events').resolver).1 ∧
      ((compile lookup d).run .empty).1.toOption.map (fun p => p.policy.annotations.keys) =
        some ["docs", "gmail"] := by
  intro gmail profiles lookup d d' events'
  have himports : SameImports d d' := by
    have hservices : d.document.profiles.map (·.service) = ["docs", "gmail", "docs"] := by
      decide +kernel
    have hservices' : d'.document.profiles.map (·.service) = ["gmail", "docs"] := by decide +kernel
    refine ⟨rfl, by decide +kernel, by decide +kernel, fun s => ?_⟩
    rw [hservices, hservices']
    simp only [List.mem_cons, List.not_mem_nil, or_false]
    tauto
  have hevents : ∀ e ∈ ([] : List Resolver.Event), e.lookup = lookup := by simp
  have hevents' : ∀ e ∈ events', e.lookup = lookup := by
    intro e he
    rw [List.mem_singleton.1 he]
  have hsame := (imports_are_set himports).2.2 profiles .empty [] events' hevents hevents'
  exact ⟨himports, hsame, by decide +kernel⟩

end Policy

end ToolGate
