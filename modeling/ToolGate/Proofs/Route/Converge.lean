import ToolGate.Proofs.Route.Mode

/-!
# Making sure of checks, again and again

Making sure that checks are there comes to the same in any order and any number of times, as long as
one check at most is asked for per key and protocol. What is there before stays, what is asked for
and not there yet is added, and a group that had one check or none asks for all of them. Only the
order of what is added depends on the order of what is asked for. So whoever does not know whether
an attempt has taken effect may make another one.

* `Need`, `Need.Agree`, `Table.ensureAll`: checks that are to be there;
* `Table.mem_bindingsAt_ensureAll`, `Table.mode_ensureAll`: what is there then, and in which mode;
* `Table.ensureAll_sameUpToOrder`: any order and any number of times;
* `Store.Wavers`, `Attempt`: stores that may fail after they have saved, and attempts over them;
* `Attempt.exists_done`: attempts come to those of them that have taken effect;
* `ensure_converges`: all of it together.
-/

namespace ToolGate.Route

/-- A check that is to be there. -/
structure Need where
  key : Key
  binding : Binding
deriving DecidableEq, Repr

namespace Need

/-- The change that makes sure that a check is there. -/
def change (n : Need) : Change := .ensure n.key n.binding

/-- Whether needs ask for one check at most per key and protocol. -/
def Agree (ns : List Need) : Prop :=
  ∀ n ∈ ns, ∀ n' ∈ ns, n.key = n'.key → n.binding.protocol = n'.binding.protocol →
    n.binding = n'.binding

instance (ns : List Need) : Decidable (Agree ns) :=
  inferInstanceAs (Decidable (∀ n ∈ ns, ∀ n' ∈ ns, _ → _ → _))

theorem Agree.of_subset {ns ns' : List Need} (h : Agree ns) (hsub : ∀ n ∈ ns', n ∈ ns) :
    Agree ns' := by
  intro n hn n' hn'
  exact h n (hsub n hn) n' (hsub n' hn')

end Need

namespace Table

/-- The table after it was made sure of checks, one after another. -/
def ensureAll (t : Table) (ns : List Need) : Table := (ns.map Need.change).foldl Change.next t

variable {t u : Table} {n : Need} {ns ns' : List Need} {k : Key} {b : Binding} {g : Group}

theorem ensureAll_cons (t : Table) (n : Need) (ns : List Need) :
    t.ensureAll (n :: ns) = (n.change.next t).ensureAll ns := rfl

theorem wellFormed_ensureAll (ht : t.WellFormed) (ns : List Need) : (t.ensureAll ns).WellFormed :=
  Change.wellFormed_foldl_next ht _

/-! ## One need -/

/-- A need whose protocol is bound is answered with `alreadyBound`. -/
theorem apply_change_of_binds (h : t.Binds n.key n.binding.protocol) :
    n.change.apply t = .ok (.ensured .alreadyBound, t) := by
  cases hg : t.get? n.key with
  | none =>
    obtain ⟨b, hb, -⟩ := h
    rw [bindingsAt_of_free hg] at hb
    cases hb
  | some g => exact Change.apply_of_effect (.ensuredBefore hg ((binds_iff_of_get? hg).1 h))

theorem next_change_of_binds (h : t.Binds n.key n.binding.protocol) : n.change.next t = t :=
  Change.next_of_ok (apply_change_of_binds h)

/-- A need whose protocol is not bound adds its check, as the first one of a group or behind the
others. -/
theorem addedAt_change (ht : t.WellFormed) (h : ¬t.Binds n.key n.binding.protocol) :
    t.AddedAt (n.change.next t) n.key n.binding := by
  cases hg : t.get? n.key with
  | none =>
    have hnext : n.change.next t = t.insert n.key (.single n.binding) :=
      Change.next_of_ok (Change.apply_of_effect (.ensuredFirst hg))
    rw [hnext]
    exact addedAt_single hg n.binding
  | some g =>
    rw [binds_iff_of_get? hg, Bool.not_eq_true] at h
    have hnext : n.change.next t = t.insert n.key (g.push n.binding) :=
      Change.next_of_ok (Change.apply_of_effect (.ensured hg h))
    rw [hnext]
    exact addedAt_push (ht _ g hg) hg h

/-- The checks of a key after one need. -/
theorem mem_bindingsAt_change (ht : t.WellFormed) (n : Need) :
    b ∈ (n.change.next t).bindingsAt k ↔
      b ∈ t.bindingsAt k ∨ (n = ⟨k, b⟩ ∧ ¬t.Binds k b.protocol) := by
  by_cases hbound : t.Binds n.key n.binding.protocol
  · rw [next_change_of_binds hbound]
    refine (or_iff_left ?_).symm
    rintro ⟨rfl, hnot⟩
    exact hnot hbound
  · have hadded := addedAt_change ht hbound
    by_cases hkey : n.key = k
    · subst hkey
      rw [hadded.bindingsAt, List.mem_append, List.mem_singleton]
      refine or_congr_right ⟨?_, ?_⟩
      · rintro rfl
        exact ⟨rfl, hbound⟩
      · rintro ⟨hn, -⟩
        exact (congrArg Need.binding hn).symm
    · rw [hadded.bindingsAt_of_ne hkey]
      refine (or_iff_left ?_).symm
      rintro ⟨rfl, -⟩
      exact hkey rfl

/-- A protocol is bound after it was made sure of, and every one that was bound before. -/
theorem binds_change_iff (ht : t.WellFormed) (n : Need) {p : Protocol} :
    (n.change.next t).Binds k p ↔ t.Binds k p ∨ (n.key = k ∧ n.binding.protocol = p) := by
  constructor
  · rintro ⟨b, hb, rfl⟩
    rcases (mem_bindingsAt_change ht n).1 hb with hb | ⟨rfl, -⟩
    · exact .inl ⟨b, hb, rfl⟩
    · exact .inr ⟨rfl, rfl⟩
  · rintro (⟨b, hb, rfl⟩ | ⟨rfl, rfl⟩)
    · exact ⟨b, (mem_bindingsAt_change ht n).2 (.inl hb), rfl⟩
    · by_cases hbound : t.Binds n.key n.binding.protocol
      · rw [next_change_of_binds hbound]
        exact hbound
      · exact ⟨n.binding, (mem_bindingsAt_change ht n).2 (.inr ⟨rfl, hbound⟩), rfl⟩

theorem prefix_bindingsAt_change (ht : t.WellFormed) (n : Need) (k : Key) :
    t.bindingsAt k <+: (n.change.next t).bindingsAt k := by
  by_cases hbound : t.Binds n.key n.binding.protocol
  · rw [next_change_of_binds hbound]
  · exact (addedAt_change ht hbound).prefix_bindingsAt k

/-! ## Any number of needs -/

/-- The protocols that are bound after any number of needs. -/
theorem binds_ensureAll_iff (ht : t.WellFormed) (ns : List Need) {p : Protocol} :
    (t.ensureAll ns).Binds k p ↔
      t.Binds k p ∨ ∃ n ∈ ns, n.key = k ∧ n.binding.protocol = p := by
  induction ns generalizing t with
  | nil => simp [ensureAll]
  | cons n ns ih =>
    rw [ensureAll_cons, ih (Change.wellFormed_next ht n.change), binds_change_iff ht, or_assoc]
    simp only [List.mem_cons, exists_eq_or_imp]

/-- What is there before stays where it is. -/
theorem prefix_bindingsAt_ensureAll (ht : t.WellFormed) (ns : List Need) (k : Key) :
    t.bindingsAt k <+: (t.ensureAll ns).bindingsAt k := by
  induction ns generalizing t with
  | nil => exact List.prefix_refl _
  | cons n ns ih =>
    have hrest := ih (Change.wellFormed_next ht n.change)
    exact (prefix_bindingsAt_change ht n k).trans hrest

/-- The checks of a key are those that it had, and those asked for of protocols that it had none
of. -/
theorem mem_bindingsAt_ensureAll (ht : t.WellFormed) (hagree : Need.Agree ns) :
    b ∈ (t.ensureAll ns).bindingsAt k ↔
      b ∈ t.bindingsAt k ∨ (⟨k, b⟩ ∈ ns ∧ ¬t.Binds k b.protocol) := by
  induction ns generalizing t with
  | nil => simp [ensureAll]
  | cons n ns ih =>
    have hrest := ih (Change.wellFormed_next ht n.change)
      (hagree.of_subset fun m hm => List.mem_cons_of_mem n hm)
    rw [ensureAll_cons, hrest, mem_bindingsAt_change ht, binds_change_iff ht, List.mem_cons]
    constructor
    · rintro ((hb | ⟨rfl, hnot⟩) | ⟨hmem, hnot⟩)
      · exact .inl hb
      · exact .inr ⟨.inl rfl, hnot⟩
      · exact .inr ⟨.inr hmem, fun hbound => hnot (.inl hbound)⟩
    · rintro (hb | ⟨rfl | hmem, hnot⟩)
      · exact .inl (.inl hb)
      · exact .inl (.inr ⟨rfl, hnot⟩)
      · by_cases hsame : n.key = k ∧ n.binding.protocol = b.protocol
        · -- the same protocol was asked for first, and so it was the same check
          have hbinding : n.binding = b := hagree n List.mem_cons_self ⟨k, b⟩
            (List.mem_cons_of_mem n hmem) hsame.1 hsame.2
          obtain ⟨rfl, -⟩ := hsame
          subst hbinding
          exact .inl (.inr ⟨rfl, hnot⟩)
        · refine .inr ⟨hmem, ?_⟩
          rintro (hbound | hbound)
          · exact hnot hbound
          · exact hsame hbound

/-- A group of two checks or more has the mode that it had with two checks or more before, and asks
for all of them otherwise. -/
theorem mode_ensureAll (ht : t.WellFormed) (hg : (t.ensureAll ns).get? k = some g)
    (htwo : 2 ≤ g.size) :
    (∃ g₀, t.get? k = some g₀ ∧ 2 ≤ g₀.size ∧ g.mode = g₀.mode) ∨
      (t.sizeAt k < 2 ∧ g.mode = .all) := by
  induction ns generalizing t with
  | nil => exact .inl ⟨g, hg, htwo, rfl⟩
  | cons n ns ih =>
    have hnot : ∀ m, ¬n.change.SetsMode t k m := by
      rintro m ⟨hset, -⟩
      cases hset
    rcases ih (Change.wellFormed_next ht n.change) hg with ⟨g₁, hg₁, htwo₁, hmode⟩ | ⟨hlt, hmode⟩
    · rw [hmode]
      exact Change.mode_next_of_not_setsMode ht hnot hg₁ htwo₁
    · -- a group does not shrink, so it had less than two checks at first
      have hle : t.sizeAt k ≤ (n.change.next t).sizeAt k :=
        (prefix_bindingsAt_change ht n k).length_le
      exact .inr ⟨by omega, hmode⟩

/-! ## Tables up to the order of checks -/

/-- Tables that differ in the order of the checks of groups at most. -/
structure SameUpToOrder (t u : Table) : Prop where
  keys : t.keys = u.keys
  groups : ∀ k g g', t.get? k = some g → u.get? k = some g' →
    g.mode = g'.mode ∧ g.bindings.Perm g'.bindings

/-- In a table whose groups are in form, a key has a group if it has a check. -/
theorem WellFormed.contains_iff (ht : t.WellFormed) :
    t.contains k = true ↔ ∃ b, b ∈ t.bindingsAt k := by
  cases hg : t.get? k with
  | none => simp [SortedMap.contains, hg, bindingsAt_of_free hg]
  | some g =>
    have hchecks := List.exists_mem_of_ne_nil g.bindings (ht k g hg).nonempty
    rw [bindingsAt_of_get? hg]
    exact iff_of_true (by simp [SortedMap.contains, hg]) hchecks

/-- Tables with the same checks, where groups of two checks or more have the same mode. -/
theorem sameUpToOrder_of_mem_iff (ht : t.WellFormed) (hu : u.WellFormed)
    (hmem : ∀ k b, b ∈ t.bindingsAt k ↔ b ∈ u.bindingsAt k)
    (hmode : ∀ k g g', t.get? k = some g → u.get? k = some g' → 2 ≤ g.size → 2 ≤ g'.size →
      g.mode = g'.mode) : t.SameUpToOrder u := by
  constructor
  · apply SortedMap.keys_congr
    intro k
    rw [Bool.eq_iff_iff, ht.contains_iff, hu.contains_iff]
    exact exists_congr (hmem k)
  · intro k g g' hg hg'
    have hwell := ht k g hg
    have hwell' := hu k g' hg'
    have hperm : g.bindings.Perm g'.bindings := by
      have hnodup : g.bindings.Nodup := List.Nodup.of_map _ hwell.nodup
      have hnodup' : g'.bindings.Nodup := List.Nodup.of_map _ hwell'.nodup
      -- no check comes twice, so the two lists are permutations of each other
      refine (List.perm_ext_iff_of_nodup hnodup hnodup').2 ?_
      intro b
      have hb := hmem k b
      rwa [bindingsAt_of_get? hg, bindingsAt_of_get? hg'] at hb
    refine ⟨?_, hperm⟩
    have hlength : g.size = g'.size := hperm.length_eq
    have hpos : 0 < g.size := hwell.length_pos
    -- a group of one check has its mode by its form
    by_cases hone : g.size = 1
    · have hone' : g'.size = 1 := hlength ▸ hone
      rw [hwell.single_iff.2 hone, hwell'.single_iff.2 hone']
    · exact hmode k g g' hg hg' (by omega) (by omega)

/-- Which checks are asked for decides the table up to their order, but not how often or in which
order they are asked for. -/
theorem ensureAll_sameUpToOrder (ht : t.WellFormed) (hagree : Need.Agree ns)
    (hsame : ∀ n, n ∈ ns' ↔ n ∈ ns) : (t.ensureAll ns').SameUpToOrder (t.ensureAll ns) := by
  have hagree' : Need.Agree ns' := hagree.of_subset fun n hn => (hsame n).1 hn
  -- the checks are given by membership alone, and the mode by the group that was there
  refine sameUpToOrder_of_mem_iff (wellFormed_ensureAll ht ns') (wellFormed_ensureAll ht ns) ?_ ?_
  · intro k b
    rw [mem_bindingsAt_ensureAll ht hagree', mem_bindingsAt_ensureAll ht hagree, hsame]
  · intro k g g' hg hg' htwo htwo'
    rcases mode_ensureAll ht hg htwo with ⟨g₀, hg₀, hsize, hmode⟩ | ⟨hlt, hmode⟩
    · rcases mode_ensureAll ht hg' htwo' with ⟨g₁, hg₁, -, hmode'⟩ | ⟨hlt, -⟩
      · rw [hg₀] at hg₁
        cases hg₁
        rw [hmode, hmode']
      · rw [sizeAt_of_get? hg₀] at hlt
        omega
    · rcases mode_ensureAll ht hg' htwo' with ⟨g₁, hg₁, hsize, -⟩ | ⟨-, hmode'⟩
      · rw [sizeAt_of_get? hg₁] at hlt
        omega
      · rw [hmode, hmode']

/-- Making sure of one check more than once is making sure of it. -/
theorem ensureAll_of_forall_eq (ht : t.WellFormed) (hne : ns ≠ []) (hall : ∀ m ∈ ns, m = n) :
    t.ensureAll ns = n.change.next t := by
  induction ns generalizing t with
  | nil => exact absurd rfl hne
  | cons m ns ih =>
    rw [List.forall_mem_cons] at hall
    obtain ⟨rfl, hrest⟩ := hall
    rw [ensureAll_cons]
    by_cases hnil : ns = []
    · rw [hnil]
      rfl
    · have hbound : (m.change.next t).Binds m.key m.binding.protocol :=
        (binds_change_iff ht m).2 (.inr ⟨rfl, rfl⟩)
      rw [ih (Change.wellFormed_next ht m.change) hnil hrest, next_change_of_binds hbound]

end Table

/-! ## Attempts -/

variable {σ : Type} {holds : σ → Table → Prop} {s : σ} {t : Table}

/-- A store that may fail to load the table that it holds, and to save another one; after a failure
to save it holds the one or the other. -/
structure Store.Wavers (store : Store σ) (holds : σ → Table → Prop) : Prop where
  load : ∀ {s t}, holds s t → store.load s = .ok t ∨ ∃ e, store.load s = .error e
  save : ∀ {s t t'}, holds s t → t'.WellFormed →
    (∃ s', store.save t' s = (.ok (), s') ∧ holds s' t') ∨
      ∃ e s', store.save t' s = (.error e, s') ∧ (holds s' t ∨ holds s' t')

theorem Store.Keeps.wavers {store : Store σ} (h : store.Keeps holds) : store.Wavers holds where
  load hs := .inl (h.load hs)
  save hs ht := .inl (h.save hs ht)

/-- A change over a store that may fail: it takes effect, or it is told to have failed. It may do
both. -/
theorem Change.run_of_wavers {store : Store σ} (hstore : store.Wavers holds) (hs : holds s t)
    (ht : t.WellFormed) (c : Change) :
    holds ((c.run store).run s).2 (c.next t) ∨
      (holds ((c.run store).run s).2 t ∧ ∃ e, ((c.run store).run s).1 = .error e) := by
  rw [run_eq]
  rcases hstore.load hs with hload | ⟨e, hload⟩
  · rw [hload]
    have hnext := wellFormed_next ht c
    rcases hc : c.apply t with e | ⟨o, t'⟩ <;> simp only [hc]
    · exact .inr ⟨hs, e, rfl⟩
    · rw [next_of_ok hc] at hnext ⊢
      by_cases hsame : t' = t
      · rw [if_pos hsame, hsame]
        exact .inl hs
      · rw [if_neg hsame]
        rcases hstore.save hs hnext with ⟨s', hsave, hs'⟩ | ⟨e, s', hsave, hs' | hs'⟩ <;> rw [hsave]
        · exact .inl hs'
        · exact .inr ⟨hs', _, rfl⟩
        · exact .inl hs'
  · rw [hload]
    exact .inr ⟨hs, _, rfl⟩

/-- An attempt to make sure of a check, over a store of its own. -/
structure Attempt (σ : Type) where
  store : Store σ
  need : Need

namespace Attempt

variable {as : List (Attempt σ)} {n : Need}

/-- What an attempt answers, and the state after it. -/
def run (a : Attempt σ) (s : σ) : Except Error Outcome × σ := (a.need.change.run a.store).run s

/-- The state after attempts one after another. -/
def after (as : List (Attempt σ)) (s : σ) : σ := as.foldl (fun s a => (a.run s).2) s

/-- Whether one of the attempts to make sure of a check does not fail. -/
def Answered (as : List (Attempt σ)) (s : σ) (n : Need) : Prop :=
  ∃ before a behind o, as = before ++ a :: behind ∧ a.need = n ∧ (a.run (after before s)).1 = .ok o

/-- An attempt that does not fail is the first one, or one of those behind it. -/
theorem Answered.cons_cases {a : Attempt σ} (h : Answered (a :: as) s n) :
    (a.need = n ∧ ∃ o, (a.run s).1 = .ok o) ∨ Answered as (a.run s).2 n := by
  obtain ⟨before, a', behind, o, hsplit, hneed, ho⟩ := h
  cases before with
  | nil =>
    cases hsplit
    exact .inl ⟨hneed, o, ho⟩
  | cons a'' before =>
    cases hsplit
    exact .inr ⟨before, a', behind, o, rfl, hneed, ho⟩

/-- After attempts over stores that may fail, the table is the one after some of them, and all that
did not fail are among these. -/
theorem exists_done (hstores : ∀ a ∈ as, a.store.Wavers holds) (hs : holds s t)
    (ht : t.WellFormed) :
    ∃ done, (∀ n, Answered as s n → n ∈ done) ∧ (∀ n ∈ done, ∃ a ∈ as, a.need = n) ∧
      holds (after as s) (t.ensureAll done) := by
  induction as generalizing s t with
  | nil =>
    refine ⟨[], ?_, ?_, hs⟩
    · rintro n ⟨before, a, behind, o, hsplit, -⟩
      simp at hsplit
    · intro n hn
      cases hn
  | cons a as ih =>
    rw [List.forall_mem_cons] at hstores
    rcases Change.run_of_wavers hstores.1 hs ht a.need.change with heffect | ⟨hnone, e, herror⟩
    · -- the attempt has taken effect, whatever it has answered
      obtain ⟨done, hanswered, hneeds, hheld⟩ :=
        ih hstores.2 heffect (Change.wellFormed_next ht a.need.change)
      refine ⟨a.need :: done, ?_, ?_, hheld⟩
      · intro n hn
        rcases hn.cons_cases with ⟨rfl, -⟩ | hn
        · exact List.mem_cons_self
        · exact List.mem_cons_of_mem _ (hanswered n hn)
      · intro n hn
        rcases List.mem_cons.1 hn with rfl | hn
        · exact ⟨a, List.mem_cons_self, rfl⟩
        · obtain ⟨a', ha', hneed⟩ := hneeds n hn
          exact ⟨a', List.mem_cons_of_mem a ha', hneed⟩
    · -- the attempt has failed and nothing has come of it
      obtain ⟨done, hanswered, hneeds, hheld⟩ := ih hstores.2 hnone ht
      refine ⟨done, ?_, ?_, hheld⟩
      · intro n hn
        rcases hn.cons_cases with ⟨-, o, ho⟩ | hn
        · have hboth : Except.error e = Except.ok o := herror.symm.trans ho
          cases hboth
        · exact hanswered n hn
      · intro n hn
        obtain ⟨a', ha', hneed⟩ := hneeds n hn
        exact ⟨a', List.mem_cons_of_mem a ha', hneed⟩

end Attempt

/-- Making sure of checks, one at most per key and protocol. The same needs in any other order and
number lead to the same table, up to the order of the checks of a group. Everything asked for is
bound then, and what was there before stays where it is. A need that is asked for again is answered
with `alreadyBound`, whatever store has the table, and nothing is saved. So it may be attempted
again as often as attempts fail, over stores that may have saved when they fail: once each need was
answered, the table is the one after making sure of all of them, and for a single need it is exactly
that one. -/
theorem ensure_converges {t : Table} (ht : t.WellFormed) {ns : List Need}
    (hagree : Need.Agree ns) :
    (∀ ns', (∀ n, n ∈ ns' ↔ n ∈ ns) → (t.ensureAll ns').SameUpToOrder (t.ensureAll ns)) ∧
    (∀ n ∈ ns, (t.ensureAll ns).Binds n.key n.binding.protocol) ∧
    (∀ k, t.bindingsAt k <+: (t.ensureAll ns).bindingsAt k) ∧
    (∀ n ∈ ns, ∀ {σ : Type} (store : Store σ) (s : σ), store.load s = .ok (t.ensureAll ns) →
      (n.change.run store).run s = (.ok (.ensured .alreadyBound), s)) ∧
    (∀ {σ : Type} {holds : σ → Table → Prop} {s : σ} {as : List (Attempt σ)},
      (∀ a ∈ as, a.store.Wavers holds ∧ a.need ∈ ns) → holds s t →
        (∀ n ∈ ns, Attempt.Answered as s n) →
          ∃ u, holds (Attempt.after as s) u ∧ u.SameUpToOrder (t.ensureAll ns)) ∧
    ∀ {σ : Type} {holds : σ → Table → Prop} {s : σ} {as : List (Attempt σ)} {n : Need},
      (∀ a ∈ as, a.store.Wavers holds ∧ a.need = n) → holds s t → Attempt.Answered as s n →
        holds (Attempt.after as s) (n.change.next t) := by
  have hbound : ∀ n ∈ ns, (t.ensureAll ns).Binds n.key n.binding.protocol := by
    intro n hn
    exact (Table.binds_ensureAll_iff ht ns).2 (.inr ⟨n, hn, rfl, rfl⟩)
  refine ⟨?_, hbound, Table.prefix_bindingsAt_ensureAll ht ns, ?_, ?_, ?_⟩
  · intro ns' hsame
    exact Table.ensureAll_sameUpToOrder ht hagree hsame
  · intro n hn σ store s hload
    rw [Change.run_eq, hload]
    simp only [Table.apply_change_of_binds (hbound n hn), if_pos]
  · intro σ holds s as hall hs hanswered
    obtain ⟨done, hdone, hneeds, hheld⟩ := Attempt.exists_done (fun a ha => (hall a ha).1) hs ht
    refine ⟨_, hheld, Table.ensureAll_sameUpToOrder ht hagree ?_⟩
    intro n
    constructor
    · intro hn
      obtain ⟨a, ha, rfl⟩ := hneeds n hn
      exact (hall a ha).2
    · intro hn
      exact hdone n (hanswered n hn)
  · intro σ holds s as n hall hs hanswered
    obtain ⟨done, hdone, hneeds, hheld⟩ := Attempt.exists_done (fun a ha => (hall a ha).1) hs ht
    have hne : done ≠ [] := List.ne_nil_of_mem (hdone n hanswered)
    have hsame : ∀ m ∈ done, m = n := by
      intro m hm
      obtain ⟨a, ha, rfl⟩ := hneeds m hm
      exact (hall a ha).2
    rwa [Table.ensureAll_of_forall_eq ht hne hsame] at hheld

/-- Two checks of one key in both orders, beside a group that asks for any of its checks; and a
check that is attempted again, as the store has saved the table and then failed. -/
theorem ensure_converges_in_both_orders :
    let search : Key := ⟨"docs", "search"⟩
    let all : Key := ⟨"docs", "*"⟩
    let approval : Binding := ⟨.approval, "a", "e"⟩
    let flow : Binding := ⟨.flow, "f", "e"⟩
    let identity : Binding := ⟨.identity, "i", "e"⟩
    let t : Table := (∅ : Table).insert all ⟨.any, [approval, flow]⟩
    let ns : List Need := [⟨search, approval⟩, ⟨search, flow⟩, ⟨all, identity⟩]
    let ns' : List Need := [⟨all, identity⟩, ⟨search, flow⟩, ⟨all, identity⟩, ⟨search, approval⟩]
    let failing : Store Table := ⟨.ok, fun t' _ => (.error (.io "routes.json" "timeout"), t')⟩
    let as : List (Attempt Table) := [⟨failing, ⟨all, identity⟩⟩, ⟨.memory, ⟨all, identity⟩⟩]
    t.WellFormed ∧ Need.Agree ns ∧
      (t.ensureAll ns).get? search = some ⟨.all, [approval, flow]⟩ ∧
      (t.ensureAll ns').get? search = some ⟨.all, [flow, approval]⟩ ∧
      (t.ensureAll ns').SameUpToOrder (t.ensureAll ns) ∧
      (t.ensureAll ns).Binds all .identity ∧
      Attempt.after as t = (Need.change ⟨all, identity⟩).next t := by
  intro search all approval flow identity t ns ns' failing as
  have hgroup : Group.WellFormed ⟨.any, [approval, flow]⟩ := by decide
  have ht : t.WellFormed := Table.wellFormed_empty.insert hgroup all
  have hagree : Need.Agree ns := by decide
  obtain ⟨horder, hbound, -, -, -, hretry⟩ := ensure_converges ht hagree
  have hsame : ∀ n, n ∈ ns' ↔ n ∈ ns := by
    intro n
    simp only [ns, ns', List.mem_cons, List.not_mem_nil, or_false]
    tauto
  -- a save of this store is told to have failed, although the table is stored
  have hfailing : failing.Wavers fun s t => s = t := by
    refine ⟨?_, ?_⟩
    · rintro s t rfl
      exact .inl rfl
    · rintro s t t' rfl _
      exact .inr ⟨_, t', rfl, .inr rfl⟩
  have hstores : ∀ a ∈ as, (a.store.Wavers fun s t => s = t) ∧ a.need = ⟨all, identity⟩ := by
    intro a ha
    simp only [as, List.mem_cons, List.not_mem_nil, or_false] at ha
    rcases ha with rfl | rfl
    · exact ⟨hfailing, rfl⟩
    · exact ⟨Store.memory_keeps.wavers, rfl⟩
  have hanswer : (Attempt.run ⟨.memory, ⟨all, identity⟩⟩
      (Attempt.after [⟨failing, ⟨all, identity⟩⟩] t)).1 = .ok (.ensured .alreadyBound) := by
    decide +kernel
  have hanswered : Attempt.Answered as t ⟨all, identity⟩ :=
    ⟨[⟨failing, ⟨all, identity⟩⟩], _, [], _, rfl, rfl, hanswer⟩
  exact ⟨ht, hagree, by decide +kernel, by decide +kernel, horder ns' hsame,
    hbound ⟨all, identity⟩ (by simp [ns]), hretry hstores rfl hanswered⟩

end ToolGate.Route
