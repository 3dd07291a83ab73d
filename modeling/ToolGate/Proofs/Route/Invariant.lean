import ToolGate.Proofs.Route.Effect
import ToolGate.Proofs.Route.Group

/-!
# Every group of a table is in form

A table of stored rows has groups in form, whatever the rows say, and every change keeps them so. So
they are in form in every table that rows and changes lead to.

* `Table.wellFormed_ofRows`: tables of stored rows;
* `Effect.wellFormed`: one change;
* `Table.Reachable.wellFormed`: the tables that rows and changes lead to;
* `Table.groups_wellFormed_of_mem_course`: all tables on the way through a list of changes.
-/

namespace ToolGate.Route

namespace Table

/-- Tables whose groups are all in form. -/
def WellFormed (t : Table) : Prop := ∀ k g, t.get? k = some g → g.WellFormed

/-- A table without groups has none that is not in form. -/
theorem wellFormed_empty : WellFormed ∅ := by
  intro k g hg
  simp at hg

/-- A group in form can be put anywhere. -/
theorem WellFormed.insert {t : Table} (ht : t.WellFormed) {g : Group} (hg : g.WellFormed)
    (k : Key) : WellFormed (t.insert k g) := by
  intro j g' hj
  rw [SortedMap.get?_insert] at hj
  split at hj
  · cases hj
    exact hg
  · exact ht j g' hj

/-- Without one of its groups the others are still in form. -/
theorem WellFormed.erase {t : Table} (ht : t.WellFormed) (k : Key) : WellFormed (t.erase k) := by
  intro j g hj
  rw [SortedMap.get?_erase] at hj
  split at hj
  · contradiction
  · exact ht j g hj

/-- Rows without checks are dropped and the groups of the others are brought into form. -/
theorem wellFormed_ofRows (rows : List Row) : (ofRows rows).WellFormed := by
  -- groups in form are put in one after another, beginning with none
  have hfill : ∀ (l : List (Key × Group)) (t : Table), (∀ e ∈ l, e.2.WellFormed) → t.WellFormed →
      WellFormed (l.foldl (fun t e => t.insert e.1 e.2) t) := by
    intro l
    induction l with
    | nil =>
      intro t _ ht
      exact ht
    | cons e l ih =>
      intro t hl ht
      rw [List.forall_mem_cons] at hl
      exact ih _ hl.2 (ht.insert hl.1 e.1)
  refine hfill _ ∅ ?_ wellFormed_empty
  intro e he
  rcases List.mem_map.1 he with ⟨r, hr, rfl⟩
  have hchecks : r.group.isEmpty = false := by
    simpa using (List.mem_filter.1 hr).2
  apply Group.wellFormed_normalize
  intro hnil
  -- the rows that are left have checks, so normalizing leaves one at least
  simp [Group.isEmpty, hnil] at hchecks

end Table

/-- A change keeps the groups of a table in form, in whichever way it goes. -/
theorem Effect.wellFormed {t t' : Table} {c : Change} {o : Outcome} (h : Effect t c o t')
    (ht : t.WellFormed) : t'.WellFormed := by
  -- one case for each way to go; what a group is made to is in form by the lemma of that name
  cases h with
  | registered => exact ht.insert (Group.wellFormed_single _) _
  | stacked hg hb => exact ht.insert ((ht _ _ hg).push hb) _
  | stackedBefore => exact ht
  | modeSet hg hm hsize => exact ht.insert ((ht _ _ hg).withMode hm hsize) _
  | reduced hg _ hrest => exact ht.insert ((ht _ _ hg).remove hrest) _
  | deleted => exact ht.erase _
  | cleared => exact ht.erase _
  | ensuredFirst => exact ht.insert (Group.wellFormed_single _) _
  | ensured hg hb => exact ht.insert ((ht _ _ hg).push hb) _
  | ensuredBefore => exact ht

namespace Change

/-- No change takes a table out of form, not even one that is refused. -/
theorem wellFormed_next {t : Table} (ht : t.WellFormed) (c : Change) : (c.next t).WellFormed := by
  rcases next_eq_or_effect t c with hsame | ⟨o, heffect⟩
  · rw [hsame]
    exact ht
  · exact heffect.wellFormed ht

/-- Nor do changes one after another. -/
theorem wellFormed_foldl_next {t : Table} (ht : t.WellFormed) (cs : List Change) :
    (cs.foldl next t).WellFormed := by
  induction cs generalizing t with
  | nil => exact ht
  | cons c cs ih => exact ih (wellFormed_next ht c)

/-- The tables that changes lead through one after another, the first and the last one included. -/
def course (t : Table) : List Change → List Table
  | [] => [t]
  | c :: cs => t :: course (c.next t) cs

end Change

namespace Table

/-- The tables that stored rows and changes lead to. -/
inductive Reachable : Table → Prop where
  | stored (rows : List Row) : Reachable (ofRows rows)
  | changed {t : Table} (c : Change) (ht : Reachable t) : Reachable (c.next t)

/-- By induction on the way there: the first table is in form and every step keeps it so. -/
theorem Reachable.wellFormed {t : Table} (h : t.Reachable) : t.WellFormed := by
  induction h with
  | stored rows => exact wellFormed_ofRows rows
  | changed c _ ih => exact Change.wellFormed_next ih c

/-- The tables on the way are reached by fewer changes. -/
theorem Reachable.of_mem_course {t t' : Table} (ht : t.Reachable) {cs : List Change}
    (h : t' ∈ Change.course t cs) : t'.Reachable := by
  induction cs generalizing t with
  | nil =>
    rw [Change.course, List.mem_singleton] at h
    exact h ▸ ht
  | cons c cs ih =>
    rw [Change.course, List.mem_cons] at h
    rcases h with rfl | h
    · exact ht
    · exact ih (.changed c ht) h

/-- From the table of any stored rows, through any changes, refused ones among them: in every table
on the way every group has a check, no two checks of one protocol, and the mode `single` exactly if
it has one check. -/
theorem groups_wellFormed_of_mem_course (rows : List Row) (cs : List Change) {t : Table}
    (ht : t ∈ Change.course (ofRows rows) cs) {k : Key} {g : Group} (hg : t.get? k = some g) :
    g.bindings ≠ [] ∧ (g.bindings.map (·.protocol)).Nodup ∧
      (g.mode = .single ↔ g.bindings.length = 1) := by
  have hwell : g.WellFormed := ((Reachable.stored rows).of_mem_course ht).wellFormed k g hg
  exact ⟨hwell.nonempty, hwell.nodup, hwell.single_iff⟩

/-- Rows with a repeated protocol and without checks; then the mode is set, a check is stacked and
others are taken away, down to one. -/
theorem groups_wellFormed_down_to_one :
    let k : Key := ⟨"docs", "search"⟩
    let approval : Binding := ⟨.approval, "a", "e"⟩
    let flow : Binding := ⟨.flow, "f", "e"⟩
    let rows : List Row := [⟨k, ⟨.single, []⟩⟩, ⟨k, ⟨.any, [approval, approval]⟩⟩]
    let changes : List Change :=
      [.setMode k .any, .stack k flow, .setMode k .any, .unstack k .approval]
    ∃ t ∈ Change.course (ofRows rows) changes, ∃ g, t.get? k = some g ∧ g = ⟨.single, [flow]⟩ ∧
      g.bindings ≠ [] ∧ (g.bindings.map (·.protocol)).Nodup ∧
      (g.mode = .single ↔ g.bindings.length = 1) := by
  intro k approval flow rows changes
  have hmem : changes.foldl Change.next (ofRows rows) ∈ Change.course (ofRows rows) changes := by
    simp [changes, Change.course]
  have hget : (changes.foldl Change.next (ofRows rows)).get? k = some ⟨.single, [flow]⟩ := by
    decide +kernel
  exact ⟨_, hmem, _, hget, rfl, groups_wellFormed_of_mem_course rows changes hmem hget⟩

end Table

end ToolGate.Route
