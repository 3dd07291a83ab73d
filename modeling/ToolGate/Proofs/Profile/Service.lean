import ToolGate.Profile.Catalog
import ToolGate.Proofs.Files.Save
import ToolGate.Proofs.Policy.Precedence
import ToolGate.Proofs.Profile.History

/-!
# Which service a profile is about

A profile is found under the name of a service and names a service itself. A resolver and a merge go
by the one or the other: an id is looked up by the service in it, and the tools of the profile are
annotated under the service that the profile names. So importing a profile annotates the tools of
its id's service, and of no other, exactly if the entries of the catalog are all about the services
that they are found under. In memory they are; in a directory that is for the files to say.

* `Lookup.Keyed`: catalogs whose entries are about the services that they are found under;
* `Catalog.keyed_ofProfiles`, `Catalog.keyed_directory_iff`: which catalogs are so;
* `Resolver.service_of_answer`: what a resolver answers after any calls;
* `Resolver.onlyOwnService_iff`: profiles speak for the services of their ids if and only if the
  catalog is keyed;
* `Resolver.directory_speaks_for_other`: a directory in which one does not.
-/

namespace ToolGate

/-- Every entry is about the service that it is found under. Names that no id has do not count. -/
def Lookup.Keyed (lookup : Lookup) : Prop :=
  ∀ service p, ProfileId.isService service.toList = true →
    lookup service = .ok (some p) → p.service = service

namespace Catalog

/-! ## Catalogs -/

/-- A catalog of given profiles has each of them under its own service. -/
theorem keyed_ofProfiles (ps : List Profile) (t : Files.Tree) :
    Lookup.Keyed ((ofProfiles ps).lookup t) := by
  have hkeyed : ∀ service p,
      (SortedMap.ofList (ps.map fun p => (p.service, p))).get? service = some p →
        p.service = service := by
    unfold SortedMap.ofList
    rw [List.foldl_map]
    -- each profile is put under its own service, and stays there until it is replaced
    refine List.foldlRecOn (motive := fun m : SortedMap String Profile =>
      ∀ service p, m.get? service = some p → p.service = service) ps _ ?_ ?_
    · intro service p hp
      cases hp
    · intro m hm q _ service p hp
      rw [SortedMap.get?_insert] at hp
      by_cases hq : q.service = service
      · rw [if_pos hq] at hp
        cases hp
        exact hq
      · rw [if_neg hq] at hp
        exact hm service p hp
  intro service p _ hlookup
  exact hkeyed service p (Except.ok.inj hlookup)

/-- What a directory has for a service is the profile that the file of the service holds. -/
theorem lookup_directory_eq_some_iff {t : Files.Tree} {path service : String} {p : Profile} :
    (directory path).lookup t service = .ok (some p) ↔
      ∃ text, t.read (entryPath path service) = .ok text ∧ Profile.parse text = .ok p := by
  unfold lookup
  simp only
  constructor
  · intro h
    split at h
    · unfold readEntry at h
      rcases hread : t.read (entryPath path service) with e | text <;> simp only [hread] at h
      · cases h
      · rcases hparse : Profile.parse text with e | q <;> simp only [hparse] at h
        · cases h
        · cases h
          exact ⟨text, rfl, hparse⟩
    · cases h
  · rintro ⟨text, hread, hparse⟩
    rw [if_pos (Files.Tree.holds_of_read hread)]
    unfold readEntry
    simp only [hread, hparse]
    rfl

/-- A directory is keyed if the file of every service that holds a profile holds one about that
service. -/
theorem keyed_directory_iff (path : String) (t : Files.Tree) :
    Lookup.Keyed ((directory path).lookup t) ↔
      ∀ service text p, ProfileId.isService service.toList = true →
        t.read (entryPath path service) = .ok text → Profile.parse text = .ok p →
          p.service = service := by
  constructor
  · intro h service text p hservice hread hparse
    exact h service p hservice (lookup_directory_eq_some_iff.2 ⟨text, hread, hparse⟩)
  · intro h service p hservice hlookup
    rcases lookup_directory_eq_some_iff.1 hlookup with ⟨text, hread, hparse⟩
    exact h service text p hservice hread hparse

end Catalog

namespace Resolver

/-! ## Resolvers -/

/-- If the catalog was keyed whenever it was asked and is so now, the profile of an id is about the
id's service, whether it was kept or is looked up. -/
theorem service_of_answer {events : List Event} (hbefore : ∀ e ∈ events, e.lookup.Keyed)
    {lookup : Lookup} (hnow : lookup.Keyed) {id : ProfileId} {p : Profile}
    (h : answer lookup (replay events).resolver id = .ok p) : p.service = id.service := by
  have hremembers := remembers_replay events
  rcases answer_eq_ok_iff.1 h with hkept | ⟨_, hlookup⟩
  · -- the catalog had it when it was looked up, at the time of one of the calls
    rw [hremembers.kept] at hkept
    rcases Option.map_eq_some_iff.1 hkept with ⟨x, hfirst, rfl⟩
    have hfound := hremembers.found id.service x hfirst
    rcases lookup_of_mem_resolved x (List.mem_of_find?_eq_some hfirst) with ⟨e, he, hthen⟩
    rw [← hthen] at hfound
    exact hbefore e he id.service x.profile id.service_ok hfound
  · exact hnow id.service p id.service_ok hlookup

/-- What is promised of a catalog that may be in some states, whatever was asked in whichever of
them before. -/
structure OnlyOwnService (states : Lookup → Prop) : Prop where
  /-- The profile that an id is resolved to is about the id's service. -/
  resolved (events : List Event) (lookup : Lookup) (id : ProfileId) (p : Profile) :
    (∀ e ∈ events, states e.lookup) → states lookup →
      ((resolveId lookup id).run (replay events).resolver).1 = .ok p → p.service = id.service
  /-- A compiled policy annotates and classifies only what is overridden in its document or belongs
  to the service of an id in its document. -/
  seeded (events : List Event) (lookup : Lookup) (text : String) (out : Policy.Compiled) :
    (∀ e ∈ events, states e.lookup) → states lookup →
      ((Policy.compileText lookup text).run (replay events).resolver).1 = .ok out →
        ∃ d, (Draft.parse text = .ok d ∧ d.findings = []) ∧
          (∀ s, (out.policy.annotations.get? s).isSome →
            (∃ id ∈ d.document.profiles, id.service = s) ∨
              ∃ t, (d.document.toolOverrides.find? s t).isSome) ∧
          ∀ s t, (out.policy.classifiers.find? s t).isSome →
            (∃ id ∈ d.document.profiles, id.service = s) ∨
              (d.document.classifierOverrides.find? s t).isSome

/-- A catalog whose entries are about other services than they are found under lets profiles speak
for other services than those of their ids, and no other catalog does. -/
theorem onlyOwnService_iff (states : Lookup → Prop) :
    OnlyOwnService states ↔ ∀ lookup, states lookup → lookup.Keyed := by
  constructor
  · intro h lookup hlookup service p hservice hentry
    -- a new resolver finds the entry under an id of the service
    have hrun : ((resolveId lookup ⟨"a", service, by decide, hservice⟩).run .empty).1 = .ok p := by
      rw [fst_run_resolveId]
      exact answer_eq_ok_iff.2 (.inr ⟨rfl, hentry⟩)
    exact h.resolved [] lookup _ p (by simp) hlookup hrun
  · intro h
    constructor
    · intro events lookup id p hevents hlookup hrun
      rw [fst_run_resolveId] at hrun
      exact service_of_answer (fun e he => h e.lookup (hevents e he)) (h lookup hlookup) hrun
    · intro events lookup text out hevents hlookup hrun
      rcases Policy.compileText_eq_ok_iff.1 hrun with ⟨d, profiles, hd, hanswers, rfl⟩
      have hprecedence := Policy.precedence_merge d.document profiles d.document.tenantVars
      have himported : ∀ p ∈ profiles, ∃ id ∈ d.document.profiles, id.service = p.service := by
        intro p hp
        rcases exists_mem_of_mapM_eq_ok hanswers p hp with ⟨id, hid, hanswer⟩
        have hservice :=
          service_of_answer (fun e he => h e.lookup (hevents e he)) (h lookup hlookup) hanswer
        exact ⟨id, hid, hservice.symm⟩
      refine ⟨d, hd, fun s hs => ?_, fun s t hst => ?_⟩
      · rcases (hprecedence.annotatedService s).1 hs with ⟨p, hp, rfl⟩ | hoverride
        · exact .inl (himported p hp)
        · exact .inr hoverride
      · rcases (hprecedence.classified s t).1 hst with hoverride | ⟨p, hp, rfl, _⟩
        · exact .inr hoverride
        · exact .inl (himported p hp)

/-- Profiles speak for the services of their ids alone exactly if the catalog is keyed whenever it
is asked. A catalog of given profiles is; a directory is if no file of a service holds a profile
about another one. -/
theorem ownService_iff_keyed (states : Lookup → Prop) (ps : List Profile) (path : String)
    (t : Files.Tree) :
    (OnlyOwnService states ↔ ∀ lookup, states lookup → lookup.Keyed) ∧
      Lookup.Keyed ((Catalog.ofProfiles ps).lookup t) ∧
      (Lookup.Keyed ((Catalog.directory path).lookup t) ↔
        ∀ service text p, ProfileId.isService service.toList = true →
          t.read (Catalog.entryPath path service) = .ok text → Profile.parse text = .ok p →
            p.service = service) :=
  ⟨onlyOwnService_iff states, Catalog.keyed_ofProfiles ps t, Catalog.keyed_directory_iff path t⟩

/-- A catalog of two profiles; an id of one of them is resolved. -/
theorem ownService_of_given_profiles :
    let docs : Profile := ⟨"docs", ∅⟩
    let gmail : Profile := ⟨"gmail", ∅⟩
    let lookup := (Catalog.ofProfiles [docs, gmail]).lookup .empty
    let id : ProfileId := ⟨"acme", "gmail", by decide +kernel, by decide +kernel⟩
    ((resolveId lookup id).run .empty).1 = .ok gmail ∧ gmail.service = id.service := by
  intro docs gmail lookup id
  rcases ownService_iff_keyed (· = lookup) [docs, gmail] "catalog" .empty with
    ⟨hiff, hkeyed, _⟩
  have hown : OnlyOwnService (· = lookup) := by
    apply hiff.2
    rintro _ rfl
    exact hkeyed
  have hrun : ((resolveId lookup id).run (replay []).resolver).1 = .ok gmail := by decide +kernel
  exact ⟨hrun, hown.resolved [] lookup id gmail (by simp) rfl hrun⟩

/-- The file of one service may hold a profile about another one, and an id of the one is resolved
to the profile about the other. -/
theorem directory_speaks_for_other :
    ¬ ∀ (t : Files.Tree) (c : Catalog) (id : ProfileId) (p : Profile),
      ((resolveId (c.lookup t) id).run .empty).1 = .ok p → p.service = id.service := by
  intro h
  let t := (Files.Tree.empty.put ["catalog"] .directory).put ["catalog", "gmail.yaml"]
    (.file (.text "service: docs"))
  let id : ProfileId := ⟨"acme", "gmail", by decide +kernel, by decide +kernel⟩
  have hrun : ((resolveId ((Catalog.directory "catalog").lookup t) id).run .empty).1 =
      .ok ⟨"docs", ∅⟩ := by decide +kernel
  have hservice := h t (.directory "catalog") id ⟨"docs", ∅⟩ hrun
  revert hservice
  decide +kernel

end Resolver

end ToolGate
