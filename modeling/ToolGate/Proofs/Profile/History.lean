import Mathlib.Data.Finset.Image
import Mathlib.Data.Finset.Card
import ToolGate.Proofs.Policy.Compile
import ToolGate.Proofs.ToolMap

/-!
# What a resolver remembers

A resolver is asked for the profiles of ids, one by one, several at a time or for a document that is
compiled, while its catalog may change in between. What it answers depends on its past in one way
only: a service that was resolved since the resolver was last told to forget has the profile that
the catalog had when it was first resolved. Every other service is looked up.

* `resolveAll_of_ok`, `resolveAll_of_error`: several ids are resolved like one after the other, up
  to the first one that has no profile;
* `History`: a resolver with the record of what it has resolved since it was told to forget;
* `Remembers.resolveId`, `Remembers.resolveAll`: one id or several keep cache and record alike;
* `remembers_replay`: so does every history of calls;
* `replay_caches`: what follows for the answers after any history.
-/

namespace ToolGate

/-- The profile that a catalog has for a service. -/
def Lookup.profile? (lookup : Lookup) (service : String) : Option Profile :=
  (lookup service).toOption.join

theorem Lookup.profile?_eq_some_iff {lookup : Lookup} {service : String} {p : Profile} :
    lookup.profile? service = some p ↔ lookup service = .ok (some p) := by
  unfold profile?
  rcases lookup service with e | _ | q <;> simp [Except.toOption]

namespace Resolver

variable {lookup : Lookup} {r r' : Resolver} {id : ProfileId} {ids : List ProfileId}
  {p : Profile} {ps : List Profile} {e : Policy.Error}

/-! ## Resolving several ids -/

/-- The second resolver has the profiles of the first one and beside them, for services of ids,
those of the catalog. -/
def Learns (lookup : Lookup) (ids : List ProfileId) (r r' : Resolver) : Prop :=
  ∀ service, r'.cache.get? service = (r.cache.get? service).or
    (if service ∈ ids.map (·.service) then lookup.profile? service else none)

theorem learns_nil (lookup : Lookup) (r : Resolver) : Learns lookup [] r r := by
  intro service
  simp

/-- What is learned of one id and then of others is learned of all of them. -/
theorem Learns.cons {r'' : Resolver} (h : Learns lookup [id] r r') (h' : Learns lookup ids r' r'') :
    Learns lookup (id :: ids) r r'' := by
  intro service
  rw [h', h, Option.or_assoc]
  by_cases hid : service = id.service
  · -- the catalog is the same, so it is no matter which of the ids the service is that of
    simp only [List.map_cons, List.map_nil, List.mem_cons, hid, true_or, if_true]
    split
    · rw [Option.or_self]
    · rw [Option.or_none]
  · simp [hid]

/-- An id that has a profile is answered with it, and the catalog's profile of its service is kept
unless there was one. -/
theorem resolveId_of_ok (h : (resolveId lookup id).run r = (.ok p, r')) :
    answer lookup r id = .ok p ∧ Learns lookup [id] r r' := by
  rcases run_resolveId_eq_ok_iff.1 h with ⟨hkept, rfl⟩ | ⟨hnone, hfound, rfl⟩
  · refine ⟨answer_eq_ok_iff.2 (.inl hkept), fun service => ?_⟩
    by_cases hid : service = id.service
    · simp [hid, hkept]
    · simp [hid]
  · refine ⟨answer_eq_ok_iff.2 (.inr ⟨hnone, hfound⟩), fun service => ?_⟩
    rw [SortedMap.get?_insert]
    by_cases hid : id.service = service
    · subst hid
      simp [hnone, Lookup.profile?_eq_some_iff.2 hfound]
    · simp [hid, Ne.symm hid]

/-- The profile that an id is answered with is kept. -/
theorem get?_of_resolveId_ok (h : (resolveId lookup id).run r = (.ok p, r')) :
    r'.cache.get? id.service = some p := by
  rcases run_resolveId_eq_ok_iff.1 h with ⟨hkept, rfl⟩ | ⟨_, _, rfl⟩
  · exact hkept
  · exact SortedMap.get?_insert_self r.cache id.service p

/-- An id that has no profile is told why, and nothing is kept. -/
theorem resolveId_of_error (h : (resolveId lookup id).run r = (.error e, r')) :
    answer lookup r id = .error e ∧ r' = r := by
  rw [run_resolveId] at h
  unfold answer
  rcases hcache : r.cache.get? id.service with _ | q
  · rcases hlookup : lookup id.service with cause | _ | q <;> simp only [hcache, hlookup] at h ⊢
    all_goals cases h
    all_goals exact ⟨rfl, rfl⟩
  · simp only [hcache] at h
    cases h

/-- What is learned is what would be looked up, so no answer changes. -/
theorem answer_of_learns (h : Learns lookup ids r r') : answer lookup r' = answer lookup r := by
  funext id
  unfold answer
  rw [h]
  rcases r.cache.get? id.service with _ | q
  · by_cases hid : id.service ∈ ids.map (·.service)
    · rw [if_pos hid]
      unfold Lookup.profile?
      rcases lookup id.service with cause | _ | q <;> rfl
    · rw [if_neg hid]
      rfl
  · rfl

/-- The first id, and then the others with the resolver that is left of it. -/
theorem run_resolveAll_cons (lookup : Lookup) (id : ProfileId) (ids : List ProfileId)
    (r : Resolver) :
    (resolveAll lookup (id :: ids)).run r =
      match (resolveId lookup id).run r with
      | (.error e, r) => (.error e, r)
      | (.ok p, r) =>
        match (resolveAll lookup ids).run r with
        | (.error e, r) => (.error e, r)
        | (.ok ps, r) => (.ok (p :: ps), r) := by
  rw [resolveAll, run_bind_state]
  rcases (resolveId lookup id).run r with ⟨e | p, r'⟩
  · rfl
  · simp only
    rw [run_bind_state]
    rcases (resolveAll lookup ids).run r' with ⟨_ | _, _⟩ <;> rfl

/-- Ids that all have profiles are answered with them in order, and their services are learned. -/
theorem resolveAll_of_ok (h : (resolveAll lookup ids).run r = (.ok ps, r')) :
    List.Forall₂ (fun id p => answer lookup r id = .ok p) ids ps ∧ Learns lookup ids r r' := by
  induction ids generalizing r ps with
  | nil =>
    cases h
    exact ⟨.nil, learns_nil lookup _⟩
  | cons id ids ih =>
    rw [run_resolveAll_cons] at h
    rcases hid : (resolveId lookup id).run r with ⟨e | p, r₁⟩ <;> simp only [hid] at h
    · cases h
    · rcases hids : (resolveAll lookup ids).run r₁ with ⟨e | qs, r₂⟩ <;> simp only [hids] at h
      · cases h
      · cases h
        have hhead := resolveId_of_ok hid
        have htail := ih hids
        -- the rest is answered by a resolver that knows more, which changes no answer
        rw [answer_of_learns hhead.2] at htail
        exact ⟨.cons hhead.1 htail.1, hhead.2.cons htail.2⟩

/-- Otherwise the first id without a profile is told, and nothing is kept but what was learned of
the ids before it. -/
theorem resolveAll_of_error (h : (resolveAll lookup ids).run r = (.error e, r')) :
    ∃ before id after ps, ids = before ++ id :: after ∧
      (resolveAll lookup before).run r = (.ok ps, r') ∧ answer lookup r id = .error e := by
  induction ids generalizing r with
  | nil => cases h
  | cons id ids ih =>
    rw [run_resolveAll_cons] at h
    rcases hid : (resolveId lookup id).run r with ⟨e' | p, r₁⟩ <;> simp only [hid] at h
    · cases h
      have hfirst := resolveId_of_error hid
      refine ⟨[], id, ids, [], rfl, ?_, hfirst.1⟩
      rw [hfirst.2]
      rfl
    · rcases hids : (resolveAll lookup ids).run r₁ with ⟨e' | qs, r₂⟩ <;> simp only [hids] at h
      · cases h
        rcases ih hids with ⟨before, id', after, ps, rfl, hbefore, hid'⟩
        refine ⟨id :: before, id', after, p :: ps, rfl, ?_, ?_⟩
        · rw [run_resolveAll_cons, hid]
          simp only [hbefore]
        · rw [← hid', answer_of_learns (resolveId_of_ok hid).2]
      · cases h

/-! ## Calls -/

/-- What is asked of a resolver. -/
inductive Call where
  | resolve (raw : String)
  | resolveAll (ids : List ProfileId)
  | compile (text : String)
  | invalidate

/-- What it is answered with. -/
inductive Reply where
  | profile (result : Except Policy.Error Profile)
  | profiles (result : Except Policy.Error (List Profile))
  | compiled (result : Except Policy.Error Policy.Compiled)
  | forgotten

namespace Call

/-- The reply to a call and the resolver after it. -/
def run (lookup : Lookup) (c : Call) (r : Resolver) : Reply × Resolver :=
  match c with
  | .resolve raw => told .profile (Resolver.resolve lookup raw)
  | .resolveAll ids => told .profiles (Resolver.resolveAll lookup ids)
  | .compile text => told .compiled (Policy.compileText lookup text)
  | .invalidate => (.forgotten, r.invalidate)
where
  told {α : Type} (reply : Except Policy.Error α → Reply) (step : Step α) : Reply × Resolver :=
    (reply (step.run r).1, (step.run r).2)

/-- The ids that a call has resolved, in order. -/
def profileIds : Call → List ProfileId
  | .resolve raw => (ProfileId.parse? raw).toList
  | .resolveAll ids => ids
  | .compile text =>
    match Draft.parse text with
    | .error _ => []
    | .ok d => if d.findings = [] then d.document.profiles else []
  | .invalidate => []

theorem run_resolve_of_parse {raw : String} (h : ProfileId.parse? raw = some id) :
    Resolver.resolve lookup raw = resolveId lookup id := by
  unfold Resolver.resolve readId
  rw [h]

theorem run_resolve_of_not_parse {raw : String} (h : ProfileId.parse? raw = none) (r : Resolver) :
    (Resolver.resolve lookup raw).run r = (.error (.badProfileId raw), r) := by
  unfold Resolver.resolve readId
  rw [h]
  rfl

/-- Unless it makes the resolver forget, a call does to it what resolving its ids does. -/
theorem resolver_run (c : Call) (hc : c ≠ .invalidate) (lookup : Lookup) (r : Resolver) :
    (c.run lookup r).2 = ((Resolver.resolveAll lookup c.profileIds).run r).2 := by
  cases c with
  | resolve raw =>
    -- a text that is no id is refused before anything is looked up
    rcases hraw : ProfileId.parse? raw with _ | id
    · simp only [run, run.told, profileIds, run_resolve_of_not_parse hraw, hraw]
      rfl
    · simp only [run, run.told, profileIds, run_resolve_of_parse hraw, hraw, Option.toList_some]
      rw [run_resolveAll_cons]
      rcases (resolveId lookup id).run r with ⟨_ | _, _⟩ <;> rfl
  | resolveAll ids => rfl
  | compile text =>
    rcases hparse : Draft.parse text with e | d
    · simp only [run, run.told, profileIds, Policy.compileText_of_unreadable hparse, hparse]
      rfl
    · by_cases hfindings : d.findings = []
      · simp only [run, run.told, profileIds, Policy.run_compileText_of_valid hparse hfindings,
          hparse, if_pos hfindings]
        rcases (Resolver.resolveAll lookup d.document.profiles).run r with ⟨_ | _, _⟩ <;> rfl
      · simp only [run, run.told, profileIds, Policy.compileText_of_findings hparse hfindings,
          hparse, if_neg hfindings]
        rfl
  | invalidate => contradiction

/-- The reply to a call depends on the answers to ids only. -/
theorem reply_congr (c : Call) (h : answer lookup r = answer lookup r') :
    (c.run lookup r).1 = (c.run lookup r').1 := by
  cases c with
  | resolve raw =>
    rcases hraw : ProfileId.parse? raw with _ | id
    · simp only [run, run.told, run_resolve_of_not_parse hraw]
    · simp only [run, run.told, run_resolve_of_parse hraw, fst_run_resolveId, h]
  | resolveAll ids =>
    simp only [run, run.told, resolveAll_answers, h]
  | compile text =>
    simp only [run, run.told]
    rcases hparse : Draft.parse text with e | d
    · rw [Policy.compileText_of_unreadable hparse, Policy.compileText_of_unreadable hparse]
    · by_cases hfindings : d.findings = []
      · rw [Policy.compileText_of_valid hparse hfindings,
          Policy.compileText_of_valid hparse hfindings, h]
      · rw [Policy.compileText_of_findings hparse hfindings,
          Policy.compileText_of_findings hparse hfindings]
  | invalidate => rfl

end Call

/-! ## Histories -/

/-- A call, with what the catalog answers at its time. -/
structure Event where
  lookup : Lookup
  call : Call

/-- An id that was resolved to a profile, with what the catalog answered at that time. -/
structure Resolution where
  lookup : Lookup
  id : ProfileId
  profile : Profile

/-- The resolutions of ids one after another, up to the first id that has no profile. -/
def resolutions (lookup : Lookup) : List ProfileId → Resolver → List Resolution
  | [], _ => []
  | id :: ids, r =>
    match (resolveId lookup id).run r with
    | (.ok p, r) => ⟨lookup, id, p⟩ :: resolutions lookup ids r
    | (.error _, _) => []

/-- The first resolution of a service. -/
def first? (resolved : List Resolution) (service : String) : Option Resolution :=
  resolved.find? (·.id.service = service)

/-- A further resolution is the first one of its service if there was none. -/
theorem first?_append_singleton (resolved : List Resolution) (x : Resolution) (service : String) :
    first? (resolved ++ [x]) service =
      (first? resolved service).or (if x.id.service = service then some x else none) := by
  unfold first?
  rw [List.find?_append]
  by_cases hx : x.id.service = service <;> simp [hx]

/-- A resolver, with what was resolved since it was last told to forget, the latest last. -/
structure History where
  resolver : Resolver
  resolved : List Resolution

namespace History

def start : History := ⟨.empty, []⟩

/-- What one more call makes of a history. -/
def extend (h : History) (e : Event) : History where
  resolver := (e.call.run e.lookup h.resolver).2
  resolved :=
    match e.call with
    | .invalidate => []
    | c => h.resolved ++ resolutions e.lookup c.profileIds h.resolver

/-- The services that were resolved since the resolver was last told to forget. -/
def services (h : History) : Finset String := (h.resolved.map (·.id.service)).toFinset

/-- Forgetting ends the record. -/
theorem resolved_extend_invalidate {h : History} {e : Event} (hc : e.call = .invalidate) :
    (h.extend e).resolved = [] := by
  unfold extend
  rw [hc]

/-- Any other call adds to it what it has resolved. -/
theorem resolved_extend {h : History} {e : Event} (hc : e.call ≠ .invalidate) :
    (h.extend e).resolved = h.resolved ++ resolutions e.lookup e.call.profileIds h.resolver := by
  rcases e with ⟨lookup, _ | _ | _ | _⟩
  all_goals first | rfl | contradiction

end History

/-- The history of calls one after another, beginning with a new resolver. -/
def replay (events : List Event) : History := events.foldl History.extend .start

/-- What holds at the start and is kept by every call holds after all of them. -/
theorem replay_induction (holds : History → Prop) (events : List Event) (hstart : holds .start)
    (hextend : ∀ h, holds h → ∀ e ∈ events, holds (h.extend e)) : holds (replay events) :=
  List.foldlRecOn events History.extend hstart hextend

/-- Resolutions that a resolver remembers: what it has for a service is the profile of the first of
them, and that is what the catalog had then. -/
structure Remembers (r : Resolver) (resolved : List Resolution) : Prop where
  kept : ∀ service, r.cache.get? service = (first? resolved service).map (·.profile)
  found : ∀ service x, first? resolved service = some x →
    x.lookup service = .ok (some x.profile)

namespace Remembers

variable {resolved : List Resolution}

theorem empty : Remembers .empty [] where
  kept _ := rfl
  found _ _ h := by cases h

/-- A resolution is put on record when an id has a profile. -/
theorem resolveId (h : Remembers r resolved) (hrun : (resolveId lookup id).run r = (.ok p, r')) :
    Remembers r' (resolved ++ [⟨lookup, id, p⟩]) := by
  have hlearns := (resolveId_of_ok hrun).2
  -- a service that is resolved for the first time was looked up
  have hlookup : first? resolved id.service = none → lookup id.service = .ok (some p) := by
    intro hfirst
    have hnone : r.cache.get? id.service = none := by
      rw [h.kept, hfirst]
      rfl
    rcases run_resolveId_eq_ok_iff.1 hrun with ⟨hkept, _⟩ | ⟨_, hfound, _⟩
    · rw [hnone] at hkept
      cases hkept
    · exact hfound
  constructor
  · intro service
    rw [first?_append_singleton, hlearns service, h.kept]
    by_cases hid : id.service = service
    · subst hid
      rcases hfirst : first? resolved id.service with _ | x
      · have hfound := Lookup.profile?_eq_some_iff.2 (hlookup hfirst)
        simp [hfound]
      · simp
    · simp [hid, Ne.symm hid]
  · intro service x hx
    rw [first?_append_singleton] at hx
    rcases hfirst : first? resolved service with _ | y
    · rw [hfirst] at hx
      by_cases hid : id.service = service
      · subst hid
        simp only [if_true, Option.none_or, Option.some.injEq] at hx
        subst hx
        exact hlookup hfirst
      · simp [hid] at hx
    · rw [hfirst] at hx
      cases hx
      exact h.found service x hfirst

/-- Several ids are put on record one after another. -/
theorem resolveAll (h : Remembers r resolved) (lookup : Lookup) (ids : List ProfileId) :
    Remembers ((resolveAll lookup ids).run r).2 (resolved ++ resolutions lookup ids r) := by
  induction ids generalizing r resolved with
  | nil =>
    rw [resolutions, List.append_nil]
    exact h
  | cons id ids ih =>
    rw [run_resolveAll_cons, resolutions]
    rcases hid : (Resolver.resolveId lookup id).run r with ⟨e | p, r'⟩
    · simp only
      rw [List.append_nil, (resolveId_of_error hid).2]
      exact h
    · have htail := ih (h.resolveId hid)
      simp only
      rw [List.append_assoc] at htail
      rcases hids : (Resolver.resolveAll lookup ids).run r' with ⟨_ | _, _⟩
      all_goals
        rw [hids] at htail
        exact htail

/-- One more call keeps cache and record alike. -/
theorem extend {h : History} (hh : Remembers h.resolver h.resolved) (e : Event) :
    Remembers (h.extend e).resolver (h.extend e).resolved := by
  by_cases hc : e.call = .invalidate
  · have hforgot : (h.extend e).resolver = .empty := by
      unfold History.extend
      rw [hc]
      rfl
    rw [History.resolved_extend_invalidate hc, hforgot]
    exact empty
  · have hresolver : (h.extend e).resolver =
        ((Resolver.resolveAll e.lookup e.call.profileIds).run h.resolver).2 :=
      e.call.resolver_run hc e.lookup h.resolver
    rw [History.resolved_extend hc, hresolver]
    exact hh.resolveAll e.lookup e.call.profileIds

end Remembers

/-- After any calls the resolver remembers exactly what is on record. -/
theorem remembers_replay (events : List Event) :
    Remembers (replay events).resolver (replay events).resolved := by
  refine replay_induction (fun h => Remembers h.resolver h.resolved) events Remembers.empty ?_
  intro h hh e _
  exact hh.extend e

/-- What is resolved at one time is put on record with the catalog of this time. -/
theorem lookup_of_mem_resolutions {x : Resolution} (hx : x ∈ resolutions lookup ids r) :
    x.lookup = lookup := by
  induction ids generalizing r with
  | nil => cases hx
  | cons id ids ih =>
    rw [resolutions] at hx
    rcases hid : (resolveId lookup id).run r with ⟨e | p, r'⟩ <;> simp only [hid] at hx
    · cases hx
    · rcases List.mem_cons.1 hx with rfl | hx
      · rfl
      · exact ih hx

/-- What is on record was answered by the catalog at the time of one of the calls. -/
theorem lookup_of_mem_resolved {events : List Event} :
    ∀ x ∈ (replay events).resolved, ∃ e ∈ events, e.lookup = x.lookup := by
  refine replay_induction (fun h => ∀ x ∈ h.resolved, ∃ e ∈ events, e.lookup = x.lookup) events
    ?_ ?_
  · intro x hx
    cases hx
  · intro h hh e he x hx
    by_cases hc : e.call = .invalidate
    · rw [History.resolved_extend_invalidate hc] at hx
      cases hx
    · rw [History.resolved_extend hc] at hx
      rcases List.mem_append.1 hx with hx | hx
      · exact hh x hx
      · exact ⟨e, he, (lookup_of_mem_resolutions hx).symm⟩

/-! ## What follows for the answers -/

namespace Remembers

variable {resolved : List Resolution}

/-- As many services are kept as were resolved. -/
theorem size_cache (h : Remembers r resolved) :
    r.cache.size = (resolved.map (·.id.service)).toFinset.card := by
  have hkeys : r.cache.keys.toFinset = (resolved.map (·.id.service)).toFinset := by
    ext service
    rw [List.mem_toFinset, List.mem_toFinset, SortedMap.mem_keys_iff, h.kept, Option.isSome_map]
    unfold first?
    simp
  rw [← hkeys, List.toFinset_card_of_nodup r.cache.nodup_keys]
  unfold SortedMap.keys SortedMap.size
  rw [List.length_map]

/-- If the catalog has not changed since the resolutions, a resolver that remembers them answers
like one that was just made. -/
theorem answer_eq (h : Remembers r resolved) (hsame : ∀ x ∈ resolved, x.lookup = lookup) :
    answer lookup r = answer lookup .empty := by
  funext id
  unfold answer
  rw [h.kept]
  rcases hfirst : first? resolved id.service with _ | x
  · rfl
  · have hlookup := h.found id.service x hfirst
    rw [hsame x (List.mem_of_find?_eq_some hfirst)] at hlookup
    rw [hlookup]
    rfl

end Remembers

/-- A resolver whose catalog has not changed since answers like a new one. -/
theorem answer_replay {events : List Event} (hsame : ∀ e ∈ events, e.lookup = lookup) :
    answer lookup (replay events).resolver = answer lookup .empty := by
  apply (remembers_replay events).answer_eq
  intro x hx
  rcases lookup_of_mem_resolved x hx with ⟨e, he, hlookup⟩
  rw [← hlookup, hsame e he]

/-- What is promised of a resolver after any calls, whatever its catalog answered at their times and
answers now. -/
structure Caches (h : History) : Prop where
  /-- A service that was resolved since the resolver was last told to forget has the profile that
  the catalog had when the service was first resolved. -/
  first {raw : String} {id : ProfileId} {x : Resolution} (lookup : Lookup) :
    ProfileId.parse? raw = some id → first? h.resolved id.service = some x →
      x.lookup id.service = .ok (some x.profile) ∧
        (resolve lookup raw).run h.resolver = (.ok x.profile, h.resolver)
  /-- Every other service is looked up now, and kept if there is a profile. -/
  now {raw : String} {id : ProfileId} (lookup : Lookup) :
    ProfileId.parse? raw = some id → first? h.resolved id.service = none →
      (resolve lookup raw).run h.resolver =
        match lookup id.service with
        | .error cause => (.error (.transport cause), h.resolver)
        | .ok none => (.error (.profileMissing id.text id.service), h.resolver)
        | .ok (some p) => (.ok p, ⟨h.resolver.cache.insert id.service p⟩)
  /-- Ids of one service share its profile, whatever their organisations are. -/
  shared {id id' : ProfileId} {p : Profile} {r : Resolver} (lookup lookup' : Lookup) :
    id.service = id'.service → (resolveId lookup id).run h.resolver = (.ok p, r) →
      (resolveId lookup' id').run r = (.ok p, r)
  malformed {raw : String} (lookup : Lookup) :
    ProfileId.parse? raw = none →
      (resolve lookup raw).run h.resolver = (.error (.badProfileId raw), h.resolver)
  /-- Nothing is kept of an id that has no profile, so it is looked up again the next time. -/
  refused {raw : String} {e : Policy.Error} {r : Resolver} (lookup : Lookup) :
    (resolve lookup raw).run h.resolver = (.error e, r) → r = h.resolver
  /-- Several ids have the profiles that they have one by one, in order. -/
  resolvedAll {ids : List ProfileId} {ps : List Profile} {r : Resolver} (lookup : Lookup) :
    (resolveAll lookup ids).run h.resolver = (.ok ps, r) →
      List.Forall₂ (fun id p => ((resolveId lookup id).run h.resolver).1 = .ok p) ids ps ∧
        Learns lookup ids h.resolver r
  /-- Or the reason is told why the first of them that has no profile has none, and what was found
  for those before it is kept and nothing else. -/
  refusedAll {ids : List ProfileId} {e : Policy.Error} {r : Resolver} (lookup : Lookup) :
    (resolveAll lookup ids).run h.resolver = (.error e, r) →
      ∃ before id after ps, ids = before ++ id :: after ∧
        List.Forall₂ (fun id p => ((resolveId lookup id).run h.resolver).1 = .ok p) before ps ∧
        ((resolveId lookup id).run h.resolver).1 = .error e ∧ Learns lookup before h.resolver r
  size : h.resolver.cache.size = h.services.card

/-- What a resolver remembers decides its answers. -/
theorem caches_of_remembers {h : History} (hh : Remembers h.resolver h.resolved) : Caches h where
  first {raw id x} lookup hraw hfirst := by
    have hkept : h.resolver.cache.get? id.service = some x.profile := by
      rw [hh.kept, hfirst]
      rfl
    rw [Call.run_resolve_of_parse hraw, run_resolveId, hkept]
    exact ⟨hh.found id.service x hfirst, rfl⟩
  now {raw id} lookup hraw hfirst := by
    have hnone : h.resolver.cache.get? id.service = none := by
      rw [hh.kept, hfirst]
      rfl
    have hrun := run_resolveId lookup id h.resolver
    rw [hnone] at hrun
    rw [Call.run_resolve_of_parse hraw]
    exact hrun
  shared {id id' p r} lookup lookup' hservice hrun := by
    rw [run_resolveId, ← hservice, get?_of_resolveId_ok hrun]
  malformed lookup hraw := Call.run_resolve_of_not_parse hraw h.resolver
  refused {raw e r} lookup hrun := by
    rcases hraw : ProfileId.parse? raw with _ | id
    · rw [Call.run_resolve_of_not_parse hraw] at hrun
      cases hrun
      rfl
    · rw [Call.run_resolve_of_parse hraw] at hrun
      exact (resolveId_of_error hrun).2
  resolvedAll lookup hrun := by
    simp only [fst_run_resolveId]
    exact resolveAll_of_ok hrun
  refusedAll lookup hrun := by
    simp only [fst_run_resolveId]
    rcases resolveAll_of_error hrun with ⟨before, id, after, ps, hids, hbefore, hid⟩
    have hlearnt := resolveAll_of_ok hbefore
    exact ⟨before, id, after, ps, hids, hlearnt.1, hid, hlearnt.2⟩
  size := hh.size_cache

/-- After any calls the resolver keeps for each service the profile that was found first; and if its
catalog has not changed all the time, it replies to every further call, compiling included, like a
resolver that was just made. -/
theorem replay_caches (events : List Event) :
    Caches (replay events) ∧
      ∀ lookup : Lookup, (∀ e ∈ events, e.lookup = lookup) → ∀ c : Call,
        (c.run lookup (replay events).resolver).1 = (c.run lookup .empty).1 := by
  have hremembers := remembers_replay events
  refine ⟨caches_of_remembers hremembers, fun lookup hsame c => c.reply_congr ?_⟩
  apply hremembers.answer_eq
  intro x hx
  rcases lookup_of_mem_resolved x hx with ⟨e, he, hlookup⟩
  rw [← hlookup, hsame e he]

/-- A catalog loses its only profile after an id of one organisation was resolved; an id of another
one still has the profile. -/
theorem replay_caches_after_loss :
    let docs : Profile := ⟨"docs", ∅⟩
    let full : Lookup := fun service => .ok (if service = "docs" then some docs else none)
    let h := replay [⟨full, .resolve "acme/security-docs"⟩]
    (resolve (fun _ => .ok none) "other/security-docs").run h.resolver =
        (.ok docs, h.resolver) ∧
      h.resolver.cache.size = h.services.card ∧
      ((Call.resolve "other/security-docs").run full h.resolver).1 =
        ((Call.resolve "other/security-docs").run full .empty).1 := by
  intro docs full h
  have hcaches := replay_caches [⟨full, .resolve "acme/security-docs"⟩]
  have hfirst : (first? h.resolved "docs").map (·.profile) = some docs := by decide +kernel
  have hraw : (ProfileId.parse? "other/security-docs").map (·.service) = some "docs" := by
    decide +kernel
  rcases Option.map_eq_some_iff.1 hfirst with ⟨x, hx, hprofile⟩
  rcases Option.map_eq_some_iff.1 hraw with ⟨id, hid, hservice⟩
  rw [← hservice] at hx
  have hresolved := (hcaches.1.first (fun _ => .ok none) hid hx).2
  rw [hprofile] at hresolved
  -- the catalog that lost its profile is not the one of the history
  refine ⟨hresolved, hcaches.1.size, hcaches.2 full ?_ _⟩
  intro e he
  rw [List.mem_singleton.1 he]

end Resolver

end ToolGate
