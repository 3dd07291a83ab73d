import ToolGate.Proofs.Route.Effect
import ToolGate.Proofs.Route.Group

/-!
# Changes that change nothing

A change that is not refused may still leave the table as it is: a check of its protocol is there
already, the group has the mode that is set, or there is no group to clear. These are all the ways;
whatever else a change does can be seen in the table.

* `Change.Idle`: the cases;
* `Effect.eq_iff_idle`: they are all there are.
-/

namespace ToolGate.Route

/-! ## Groups grow and shrink -/

namespace Group

variable {g : Group}

/-- A check of a new protocol makes a group longer. -/
theorem push_ne_self {b : Binding} (hb : g.binds b.protocol = false) : g.push b ≠ g := by
  intro h
  have hlength := congrArg (fun g => g.bindings.length) h
  simp only [bindings_push hb, List.length_append, List.length_singleton] at hlength
  omega

/-- Without a check it is shorter. -/
theorem remove_ne_self {p : Protocol} (hp : g.binds p = true) : g.remove p ≠ g := by
  intro h
  rcases List.any_eq_true.1 hp with ⟨b, hb, hbp⟩
  have hlength : (g.bindings.eraseP (·.protocol == p)).length = g.bindings.length - 1 :=
    List.length_eraseP_of_mem hb hbp
  have hpos : 0 < g.bindings.length := List.length_pos_of_mem hb
  have hsame : (g.bindings.eraseP (·.protocol == p)).length = g.bindings.length :=
    congrArg (fun g => g.bindings.length) h
  omega

end Group

/-- Whether a change that is not refused finds nothing to do. -/
def Change.Idle (t : Table) : Change → Prop
  | .register _ _ => False
  | .stack k b => ∃ g, t.get? k = some g ∧ g.binds b.protocol = true
  | .setMode k m => ∃ g, t.get? k = some g ∧ g.mode = m
  | .unstack _ _ => False
  | .clear k => t.get? k = none
  | .ensure k b => ∃ g, t.get? k = some g ∧ g.binds b.protocol = true

section Insert

variable {t : Table} {k : Key} {g g' : Group}

/-- A first group of a key is a change. -/
theorem insert_ne_self_of_free (hfree : t.get? k = none) : t.insert k g ≠ t := by
  intro h
  rw [SortedMap.insert_eq_self_iff, hfree] at h
  cases h

/-- So is another group in the place of one. -/
theorem insert_ne_self_of_ne (hg : t.get? k = some g) (hne : g' ≠ g) : t.insert k g' ≠ t := by
  intro h
  rw [SortedMap.insert_eq_self_iff, hg] at h
  exact hne (Option.some.inj h).symm

/-- A protocol is either bound by the group of a key or not. -/
theorem not_bound (hg : t.get? k = some g) {p : Protocol} (hp : g.binds p = false) :
    ¬∃ g, t.get? k = some g ∧ g.binds p = true := by
  rintro ⟨g', hg', hbound⟩
  rw [hg] at hg'
  cases hg'
  rw [hp] at hbound
  cases hbound

end Insert

/-- A change leaves the table as it is exactly if it finds nothing to do. -/
theorem Effect.eq_iff_idle {t t' : Table} {c : Change} {o : Outcome} (h : Effect t c o t') :
    t' = t ↔ c.Idle t := by
  -- one case for each way to go: the table after it is the former one, or it differs at the key
  cases h with
  | registered hfree => exact iff_of_false (insert_ne_self_of_free hfree) id
  | stacked hg hb =>
    exact iff_of_false (insert_ne_self_of_ne hg (Group.push_ne_self hb)) (not_bound hg hb)
  | stackedBefore hg hb => exact iff_of_true rfl ⟨_, hg, hb⟩
  | @modeSet k m g hg _ _ =>
    -- the group differs from the former one in its mode at most
    rw [SortedMap.insert_eq_self_iff, hg]
    constructor
    · intro hsame
      have hmode : g = { g with mode := m } := Option.some.inj hsame
      exact ⟨g, hg, congrArg Group.mode hmode⟩
    · rintro ⟨g', hg', rfl⟩
      rw [hg] at hg'
      cases hg'
      rfl
  | reduced hg hp _ => exact iff_of_false (insert_ne_self_of_ne hg (Group.remove_ne_self hp)) id
  | deleted hg _ _ =>
    refine iff_of_false ?_ id
    intro hsame
    rw [SortedMap.erase_eq_self_iff, hg] at hsame
    cases hsame
  | cleared => exact SortedMap.erase_eq_self_iff
  | ensuredFirst hfree =>
    refine iff_of_false (insert_ne_self_of_free hfree) ?_
    rintro ⟨g, hg, _⟩
    rw [hfree] at hg
    cases hg
  | ensured hg hb =>
    exact iff_of_false (insert_ne_self_of_ne hg (Group.push_ne_self hb)) (not_bound hg hb)
  | ensuredBefore hg hb => exact iff_of_true rfl ⟨_, hg, hb⟩

end ToolGate.Route
