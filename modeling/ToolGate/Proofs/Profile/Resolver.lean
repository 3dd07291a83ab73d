import ToolGate.Profile.Resolver
import ToolGate.Proofs.Fallible
import ToolGate.SortedMap.Lemmas

/-!
# What a resolver answers

Each id has one answer, a profile or the reason why there is none: what was found before, or else
what a lookup finds now. While ids are resolved one after another the resolver keeps more and more
profiles, but none that a lookup would not have found, so no answer changes on the way.

* `Resolver.answer`: the answer to an id;
* `Resolver.run_resolveId_eq_ok_iff`: where the profile of an id comes from, and what is kept of it;
* `Resolver.resolveId_answer`: one id is answered, and no answer changes;
* `Resolver.resolveAll_answers`: resolving ids gives the answers to them, up to the first failure.
-/

namespace ToolGate.Resolver

variable {lookup : Lookup} {r : Resolver}

/-- The profile of an id, or the reason why there is none. -/
def answer (lookup : Lookup) (r : Resolver) (id : ProfileId) : Except Policy.Error Profile :=
  match r.cache.get? id.service with
  | some p => .ok p
  | none =>
    match lookup id.service with
    | .error e => .error (.transport e)
    | .ok none => .error (.profileMissing id.text id.service)
    | .ok (some p) => .ok p

/-- The profile of an id is the one that is kept, or else the one that is looked up. -/
theorem answer_eq_ok_iff {id : ProfileId} {p : Profile} :
    answer lookup r id = .ok p ↔
      r.cache.get? id.service = some p ∨
        r.cache.get? id.service = none ∧ lookup id.service = .ok (some p) := by
  unfold answer
  rcases r.cache.get? id.service with _ | q
  · rcases lookup id.service with e | _ | q <;> simp
  · simp

/-- The reasons why an id has no profile: none is kept, and the catalog has none or fails. -/
theorem answer_eq_error {id : ProfileId} {e : Policy.Error} (h : answer lookup r id = .error e) :
    r.cache.get? id.service = none ∧
      (lookup id.service = .ok none ∧ e = .profileMissing id.text id.service ∨
        ∃ cause, lookup id.service = .error cause ∧ e = .transport cause) := by
  unfold answer at h
  rcases hkept : r.cache.get? id.service with _ | p <;> simp only [hkept] at h
  · rcases hlookup : lookup id.service with cause | _ | p <;> simp only [hlookup] at h
    all_goals cases h
    · exact ⟨rfl, .inr ⟨cause, rfl, rfl⟩⟩
    · exact ⟨rfl, .inl ⟨rfl, rfl⟩⟩
  · cases h

/-- A profile that is kept is one that a lookup would find, so the answers are the same. -/
theorem answer_insert {service : String} {p : Profile} (hnone : r.cache.get? service = none)
    (hlookup : lookup service = .ok (some p)) :
    answer lookup ⟨r.cache.insert service p⟩ = answer lookup r := by
  funext id
  unfold answer
  rw [SortedMap.get?_insert]
  by_cases hid : service = id.service
  · rw [if_pos hid, ← hid, hnone, hlookup]
  · rw [if_neg hid]

/-- What resolving an id gives, and the resolver after it. -/
theorem run_resolveId (lookup : Lookup) (id : ProfileId) (r : Resolver) :
    (resolveId lookup id).run r =
      match r.cache.get? id.service with
      | some p => (.ok p, r)
      | none =>
        match lookup id.service with
        | .error e => (.error (.transport e), r)
        | .ok none => (.error (.profileMissing id.text id.service), r)
        | .ok (some p) => (.ok p, ⟨r.cache.insert id.service p⟩) := by
  rw [resolveId, run_bind_state, run_get_state]
  simp only
  rcases r.cache.get? id.service with _ | p
  · rcases lookup id.service with e | _ | p <;> rfl
  · rfl

/-- A profile that is looked up is kept; one that was kept already changes nothing. -/
theorem run_resolveId_eq_ok_iff {id : ProfileId} {p : Profile} {r' : Resolver} :
    (resolveId lookup id).run r = (.ok p, r') ↔
      r.cache.get? id.service = some p ∧ r' = r ∨
        r.cache.get? id.service = none ∧ lookup id.service = .ok (some p) ∧
          r' = ⟨r.cache.insert id.service p⟩ := by
  rw [run_resolveId]
  constructor
  · intro h
    rcases hkept : r.cache.get? id.service with _ | q
    · rcases hfound : lookup id.service with e | _ | q <;> simp only [hkept, hfound] at h
      all_goals cases h
      exact .inr ⟨rfl, rfl, rfl⟩
    · simp only [hkept] at h
      cases h
      exact .inl ⟨rfl, rfl⟩
  · rintro (⟨hkept, rfl⟩ | ⟨hnone, hfound, rfl⟩)
    · simp only [hkept]
    · simp only [hnone, hfound]

/-- An id is answered, and the answers stay the same. -/
theorem resolveId_answer (lookup : Lookup) (id : ProfileId) (r : Resolver) :
    ∃ r', (resolveId lookup id).run r = (answer lookup r id, r') ∧
      answer lookup r' = answer lookup r := by
  rw [run_resolveId]
  unfold answer
  rcases hcache : r.cache.get? id.service with _ | p
  · rcases hlookup : lookup id.service with e | _ | p
    · exact ⟨r, rfl, rfl⟩
    · exact ⟨r, rfl, rfl⟩
    · exact ⟨_, rfl, answer_insert hcache hlookup⟩
  · exact ⟨r, rfl, rfl⟩

theorem fst_run_resolveId (lookup : Lookup) (id : ProfileId) (r : Resolver) :
    ((resolveId lookup id).run r).1 = answer lookup r id := by
  rcases resolveId_answer lookup id r with ⟨_, hrun, _⟩
  rw [hrun]

/-- Resolving ids gives the answers to them in order, or the first reason why one has no profile. -/
theorem resolveAll_answers (lookup : Lookup) (ids : List ProfileId) (r : Resolver) :
    ((resolveAll lookup ids).run r).1 = ids.mapM (answer lookup r) := by
  induction ids generalizing r with
  | nil => rfl
  | cons id ids ih =>
    rcases resolveId_answer lookup id r with ⟨r', hrun, hsame⟩
    unfold resolveAll
    rw [run_bind_state, hrun, List.mapM_cons]
    cases answer lookup r id with
    | error e => rfl
    | ok p =>
      simp only
      rw [run_bind_state]
      have ih := ih r'
      rw [hsame] at ih
      change _ = (ids.mapM (answer lookup r)).bind _
      rw [← ih]
      rcases (resolveAll lookup ids).run r' with ⟨_ | _, _⟩ <;> rfl

end ToolGate.Resolver
