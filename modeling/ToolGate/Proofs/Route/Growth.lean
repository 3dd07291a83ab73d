import Mathlib.Data.List.Infix
import ToolGate.Proofs.Route.Access
import ToolGate.Proofs.Route.Group
import ToolGate.Proofs.Route.Invariant

/-!
# Adding checks

Registering, stacking and ensuring add a check at the end of one group, or leave the table as it is.
So a call that was subject to a check before is subject to it afterwards, in the same place among
those of its source. The mode of a group may change with a check that is added to it, but only from
`single` to `all`, which asks for no less.

* `Change.Adds`, `Outcome.Added`: changes that add a check, and those that report to have done so;
* `Table.AddedAt`, `Change.added_cases`: what they do to the table;
* `Grown`, `Table.AddedAt.grown`: what they do to the checks that a call is subject to;
* `Table.applicable_grows`: one change, seen from any call.
-/

namespace ToolGate.Route

/-! ## Changes that add -/

/-- Whether a change is to add a check to the group of a key. -/
inductive Change.Adds : Change → Key → Binding → Prop where
  | register (k : Key) (b : Binding) : Adds (.register k b) k b
  | stack (k : Key) (b : Binding) : Adds (.stack k b) k b
  | ensure (k : Key) (b : Binding) : Adds (.ensure k b) k b

/-- Whether a change reports that it has added a check. -/
inductive Outcome.Added : Outcome → Prop where
  | registered : Added .registered
  | stacked : Added (.stacked .added)
  | ensuredFirst : Added (.ensured .registered)
  | ensured : Added (.ensured .stacked)

namespace Table

/-- The checks of the group of a key, none if there is no group. -/
def bindingsAt (t : Table) (k : Key) : List Binding := (t.get? k).elim [] (·.bindings)

def sizeAt (t : Table) (k : Key) : Nat := (t.bindingsAt k).length

def Binds (t : Table) (k : Key) (p : Protocol) : Prop := ∃ b ∈ t.bindingsAt k, b.protocol = p

section Group

variable {t : Table} {k : Key} {g : Group}

theorem bindingsAt_of_get? (hg : t.get? k = some g) : t.bindingsAt k = g.bindings := by
  simp [bindingsAt, hg]

theorem bindingsAt_of_free (hfree : t.get? k = none) : t.bindingsAt k = [] := by
  simp [bindingsAt, hfree]

theorem sizeAt_of_get? (hg : t.get? k = some g) : t.sizeAt k = g.size := by
  rw [sizeAt, bindingsAt_of_get? hg, Group.size]

theorem binds_iff_of_get? (hg : t.get? k = some g) {p : Protocol} :
    t.Binds k p ↔ g.binds p = true := by
  rw [Binds, bindingsAt_of_get? hg, Group.binds, List.any_eq_true]
  simp

end Group

/-- A table with a check more in the group of a key, which may have changed its mode from `single`
to `all`. -/
structure AddedAt (t t' : Table) (k : Key) (b : Binding) : Prop where
  get?_of_ne : ∀ j, k ≠ j → t'.get? j = t.get? j
  bindingsAt : t'.bindingsAt k = t.bindingsAt k ++ [b]
  mode : ∀ g g', t.get? k = some g → t'.get? k = some g' →
    g'.mode = g.mode ∨ g.mode = .single ∧ g'.mode = .all

/-- Where there is no group, one is made of the check. -/
theorem addedAt_single {t : Table} {k : Key} (hfree : t.get? k = none) (b : Binding) :
    t.AddedAt (t.insert k (.single b)) k b where
  get?_of_ne j hj := by rw [SortedMap.get?_insert, if_neg hj]
  bindingsAt := by simp [Table.bindingsAt, hfree, Group.single]
  mode g g' hg := by
    rw [hfree] at hg
    cases hg

/-- Where there is one that does not bind the protocol, the check stands at its end. -/
theorem addedAt_push {t : Table} {k : Key} {g : Group} (hwell : g.WellFormed)
    (hg : t.get? k = some g) {b : Binding} (hb : g.binds b.protocol = false) :
    t.AddedAt (t.insert k (g.push b)) k b := by
  refine ⟨?_, ?_, ?_⟩
  · intro j hj
    rw [SortedMap.get?_insert, if_neg hj]
  · simp [Table.bindingsAt, hg, Group.bindings_push hb]
  · intro g₀ g' hg₀ hg'
    rw [hg] at hg₀
    rw [SortedMap.get?_insert_self] at hg'
    cases hg₀
    cases hg'
    -- the mode changes only if there was one check, and then from `single`
    have hmode := hwell.mode_push hb
    by_cases hone : g.size = 1
    · rw [if_pos hone] at hmode
      exact .inr ⟨hwell.single_iff.2 hone, hmode⟩
    · rw [if_neg hone] at hmode
      exact .inl hmode

end Table

/-- A change that is to add a check adds it and says so, or it leaves the table as it is. -/
theorem Change.added_cases {t t' : Table} (ht : t.WellFormed) {c : Change} {k : Key} {b : Binding}
    (hc : c.Adds k b) {o : Outcome} (happly : c.apply t = .ok (o, t')) :
    o.Added ∧ t.AddedAt t' k b ∨ ¬o.Added ∧ t' = t := by
  have heffect := apply_eq_ok_iff.1 happly
  cases hc with
  | register =>
    cases heffect with
    | registered hfree => exact .inl ⟨.registered, Table.addedAt_single hfree b⟩
  | stack =>
    cases heffect with
    | stacked hg hb => exact .inl ⟨.stacked, Table.addedAt_push (ht _ _ hg) hg hb⟩
    | stackedBefore =>
      refine .inr ⟨?_, rfl⟩
      rintro ⟨⟩
  | ensure =>
    cases heffect with
    | ensuredFirst hfree => exact .inl ⟨.ensuredFirst, Table.addedAt_single hfree b⟩
    | ensured hg hb => exact .inl ⟨.ensured, Table.addedAt_push (ht _ _ hg) hg hb⟩
    | ensuredBefore =>
      refine .inr ⟨?_, rfl⟩
      rintro ⟨⟩

/-! ## The checks that a call is subject to -/

/-- The group of a source that a call of a tool is subject to. -/
def Source.key (service tool : String) : Source → Key
  | .wildcard => ⟨service, "*"⟩
  | .tool => ⟨service, tool⟩

/-- The source from which the checks of a key come. -/
def Key.source (k : Key) : Source := if k.tool = "*" then .wildcard else .tool

namespace Applied

/-- The source and the binding of a check. -/
def pair (a : Applied) : Source × Binding := (a.source, a.binding)

/-- The bindings of the checks that come from one source, in their order. -/
def bindingsFrom (source : Source) (l : List Applied) : List Binding :=
  (l.filter (·.source = source)).map (·.binding)

end Applied

namespace Table

variable {t t' : Table} {service tool : String}

/-- What a call sees of the group of a key, modes left aside. -/
theorem map_pair_appliedOf (source : Source) (k : Key) :
    (appliedOf source (t.get? k)).map Applied.pair = (t.bindingsAt k).map (source, ·) := by
  unfold bindingsAt
  cases t.get? k with
  | none => rfl
  | some g => simp [appliedOf, Applied.pair, Function.comp_def]

/-- What a call sees of its two groups, modes left aside: first the checks for all tools. -/
theorem map_pair_applicable (t : Table) (service tool : String) :
    (t.applicable service tool).map Applied.pair =
      (t.bindingsAt ⟨service, "*"⟩).map (Source.wildcard, ·) ++
        if tool = "*" then [] else (t.bindingsAt ⟨service, tool⟩).map (Source.tool, ·) := by
  rw [applicable_eq, List.map_append, map_pair_appliedOf]
  split
  · rfl
  · rw [map_pair_appliedOf]

/-- Of the checks of one group, all come from its source. -/
theorem bindingsFrom_appliedOf (source source' : Source) (k : Key) :
    Applied.bindingsFrom source (appliedOf source' (t.get? k)) =
      if source' = source then t.bindingsAt k else [] := by
  unfold bindingsAt Applied.bindingsFrom
  cases t.get? k with
  | none => simp [appliedOf]
  | some g =>
    simp only [appliedOf, List.filter_map, List.map_map, Function.comp_def, Option.elim_some]
    by_cases hsource : source' = source <;> simp [hsource]

/-- A call is subject to all checks of the group of a source, except that a call of all tools is not
subject to them twice. -/
theorem bindingsFrom_applicable (t : Table) (service tool : String) (source : Source) :
    Applied.bindingsFrom source (t.applicable service tool) =
      if source = .tool ∧ tool = "*" then [] else t.bindingsAt (source.key service tool) := by
  have happend : ∀ l l' : List Applied, Applied.bindingsFrom source (l ++ l') =
      Applied.bindingsFrom source l ++ Applied.bindingsFrom source l' := by
    intro l l'
    simp [Applied.bindingsFrom]
  have hall := bindingsFrom_appliedOf (t := t) source .wildcard ⟨service, "*"⟩
  have hown := bindingsFrom_appliedOf (t := t) source .tool ⟨service, tool⟩
  by_cases htool : tool = "*"
  · rw [applicable_eq, if_pos htool, List.append_nil, hall]
    cases source with
    | wildcard => simp [Source.key]
    | tool => simp [htool]
  · rw [applicable_eq, if_neg htool, happend, hall, hown]
    cases source with
    | wildcard => simp [Source.key]
    | tool => simp [htool, Source.key]

/-- The mode that a check is shown with is that of its group. -/
theorem exists_group_of_mem_applicable {a : Applied} (ha : a ∈ t.applicable service tool) :
    ∃ g, t.get? (a.source.key service tool) = some g ∧ a.groupMode = g.mode := by
  -- a check that is seen comes from a group, and is shown with its source and its mode
  have hof : ∀ {source : Source} {k : Key}, a ∈ appliedOf source (t.get? k) →
      a.source = source ∧ ∃ g, t.get? k = some g ∧ a.groupMode = g.mode := by
    intro source k hmem
    cases hg : t.get? k with
    | none =>
      rw [hg] at hmem
      cases hmem
    | some g =>
      rw [hg] at hmem
      rcases List.mem_map.1 hmem with ⟨b, _, rfl⟩
      exact ⟨rfl, g, rfl, rfl⟩
  rw [applicable_eq, List.mem_append] at ha
  rcases ha with ha | ha
  · rcases hof ha with ⟨hsource, hgroup⟩
    rw [hsource]
    exact hgroup
  · -- a call of all tools sees their group once
    by_cases htool : tool = "*"
    · rw [if_pos htool] at ha
      cases ha
    · rw [if_neg htool] at ha
      rcases hof ha with ⟨hsource, hgroup⟩
      rw [hsource]
      exact hgroup

end Table

/-- What adding a check to the group of a key does to the checks that a call is subject to, where
`added` says whether the check is one of them. The bindings of each source stay, in their order and
before any new one. Nothing changes, or the check stands somewhere between the others. The checks
that are kept are shown with the mode that they were shown with, or the mode of the group of the
check has changed from `single` to `all`. -/
structure Grown (k : Key) (b : Binding) (service tool : String) (added : Prop)
    (before after : List Applied) : Prop where
  keeps : ∀ source, Applied.bindingsFrom source before <+: Applied.bindingsFrom source after
  order : (before.map Applied.pair).Sublist (after.map Applied.pair)
  same : ¬added → after = before
  new : added → ∃ front back, before.map Applied.pair = front ++ back ∧
    after.map Applied.pair = front ++ (k.source, b) :: back
  modes : ∀ a ∈ before, ∀ a' ∈ after, a'.source = a.source →
    a'.groupMode = a.groupMode ∨
      added ∧ a.source.key service tool = k ∧ a.groupMode = .single ∧ a'.groupMode = .all

/-- A table that is left as it is has grown by nothing. -/
theorem grown_self (k : Key) (b : Binding) {t : Table} {service tool : String} {added : Prop}
    (hadded : ¬added) :
    Grown k b service tool added (t.applicable service tool) (t.applicable service tool) where
  keeps source := List.prefix_refl _
  order := List.Sublist.refl _
  same _ := rfl
  new h := absurd h hadded
  modes a ha a' ha' hsource := by
    rcases Table.exists_group_of_mem_applicable ha with ⟨g, hg, hmode⟩
    rcases Table.exists_group_of_mem_applicable ha' with ⟨g', hg', hmode'⟩
    rw [hsource, hg] at hg'
    cases hg'
    exact .inl (hmode'.trans hmode.symm)

namespace Table.AddedAt

variable {t t' : Table} {k : Key} {b : Binding} {service tool : String}

theorem bindingsAt_of_ne (h : t.AddedAt t' k b) {j : Key} (hj : k ≠ j) :
    t'.bindingsAt j = t.bindingsAt j := by
  unfold Table.bindingsAt
  rw [h.get?_of_ne j hj]

/-- No check of any key is taken away or moved. -/
theorem prefix_bindingsAt (h : t.AddedAt t' k b) (j : Key) :
    t.bindingsAt j <+: t'.bindingsAt j := by
  by_cases hj : k = j
  · rw [← hj, h.bindingsAt]
    exact List.prefix_append _ _
  · rw [h.bindingsAt_of_ne hj]

/-- Nor is one that a call is subject to, among those of its source. -/
theorem prefix_bindingsFrom (h : t.AddedAt t' k b) (source : Source) :
    Applied.bindingsFrom source (t.applicable service tool) <+:
      Applied.bindingsFrom source (t'.applicable service tool) := by
  rw [bindingsFrom_applicable, bindingsFrom_applicable]
  split
  · exact List.prefix_refl _
  · exact h.prefix_bindingsAt _

/-- A call that is subject to the group of the key gets the check behind the others of the group. -/
theorem new (h : t.AddedAt t' k b) (hservice : service = k.service)
    (htool : k.tool = "*" ∨ k.tool = tool) :
    ∃ front back, (t.applicable service tool).map Applied.pair = front ++ back ∧
      (t'.applicable service tool).map Applied.pair = front ++ (k.source, b) :: back := by
  obtain ⟨s, u⟩ := k
  obtain rfl : service = s := hservice
  rw [map_pair_applicable, map_pair_applicable]
  by_cases hwild : u = "*"
  · -- the group of all tools comes first, so the check stands before those of the tool itself
    subst hwild
    have hown : tool ≠ "*" → t'.bindingsAt ⟨service, tool⟩ = t.bindingsAt ⟨service, tool⟩ := by
      intro htool
      apply h.bindingsAt_of_ne
      intro heq
      exact htool (congrArg Key.tool heq).symm
    refine ⟨_, _, rfl, ?_⟩
    rw [h.bindingsAt, List.map_append, List.append_assoc]
    congr 1
    by_cases htool : tool = "*"
    · simp [htool, Key.source]
    · simp [htool, Key.source, hown htool]
  · -- the tool's own group comes last, and so does the check
    obtain rfl : u = tool := htool.resolve_left hwild
    have hall : t'.bindingsAt ⟨service, "*"⟩ = t.bindingsAt ⟨service, "*"⟩ := by
      apply h.bindingsAt_of_ne
      intro heq
      exact hwild (congrArg Key.tool heq)
    refine ⟨_, [], (List.append_nil _).symm, ?_⟩
    rw [hall, if_neg hwild, if_neg hwild, h.bindingsAt]
    simp [Key.source, hwild]

/-- The checks of a call that is not subject to the group of the key stay as they are. -/
theorem same (h : t.AddedAt t' k b)
    (hnot : ¬(service = k.service ∧ (k.tool = "*" ∨ k.tool = tool))) :
    t'.applicable service tool = t.applicable service tool := by
  apply applicable_congr
  intro j hservice htool
  apply h.get?_of_ne
  rintro rfl
  exact hnot ⟨hservice, htool⟩

/-- The mode of a group is as it was, or it is the group that has grown. -/
theorem mode_at (h : t.AddedAt t' k b) {j : Key} {g g' : Group} (hg : t.get? j = some g)
    (hg' : t'.get? j = some g') :
    g'.mode = g.mode ∨ j = k ∧ g.mode = .single ∧ g'.mode = .all := by
  by_cases hj : k = j
  · subst hj
    rcases h.mode g g' hg hg' with hmode | hmode
    · exact .inl hmode
    · exact .inr ⟨rfl, hmode⟩
  · rw [h.get?_of_ne j hj, hg] at hg'
    cases hg'
    exact .inl rfl

/-- A check that is added grows what a call is subject to, if the call sees the key. -/
theorem grown (h : t.AddedAt t' k b) {added : Prop}
    (hadded : added ↔ service = k.service ∧ (k.tool = "*" ∨ k.tool = tool)) :
    Grown k b service tool added (t.applicable service tool) (t'.applicable service tool) where
  keeps source := h.prefix_bindingsFrom source
  order := by
    by_cases hsees : service = k.service ∧ (k.tool = "*" ∨ k.tool = tool)
    · rcases h.new hsees.1 hsees.2 with ⟨front, back, hbefore, hafter⟩
      rw [hbefore, hafter]
      exact (List.sublist_cons_self _ _).append_left front
    · rw [h.same hsees]
  same hnot := h.same (hadded.not.1 hnot)
  new hsees := h.new (hadded.1 hsees).1 (hadded.1 hsees).2
  modes a ha a' ha' hsource := by
    rcases Table.exists_group_of_mem_applicable ha with ⟨g, hg, hmode⟩
    rcases Table.exists_group_of_mem_applicable ha' with ⟨g', hg', hmode'⟩
    rw [hsource] at hg'
    rw [hmode, hmode']
    -- a mode changes in the group of the check only, and there from that of one check
    rcases h.mode_at hg hg' with hsame | ⟨hkey, hfrom, hto⟩
    · exact .inl hsame
    · refine .inr ⟨hadded.2 ?_, hkey, hfrom, hto⟩
      rw [← hkey]
      -- the key is one that the call sees, from either source
      cases a.source with
      | wildcard => exact ⟨rfl, .inl rfl⟩
      | tool => exact ⟨rfl, .inr rfl⟩

end Table.AddedAt

namespace Table

/-- A change that is to add a check and is not refused takes no check away from any call and changes
the order of none. A call gets the check exactly if the change reports that it was added and the
key is that of all tools of the call's service or that of its own tool. -/
theorem applicable_grows {t t' : Table} (ht : t.WellFormed) {c : Change} {k : Key} {b : Binding}
    (hc : c.Adds k b) {o : Outcome} (happly : c.apply t = .ok (o, t')) (service tool : String) :
    Grown k b service tool
      (o.Added ∧ service = k.service ∧ (k.tool = "*" ∨ k.tool = tool))
      (t.applicable service tool) (t'.applicable service tool) := by
  rcases Change.added_cases ht hc happly with ⟨ho, hat⟩ | ⟨ho, rfl⟩
  · exact hat.grown (and_iff_right ho)
  · apply grown_self
    rintro ⟨hadded, _⟩
    exact ho hadded

/-- A check of a second protocol for all tools of a service, seen from a call of one tool that has a
check of the same protocol of its own. -/
theorem applicable_grows_for_all_tools :
    let all : Key := ⟨"docs", "*"⟩
    let approval : Binding := ⟨.approval, "a", "e"⟩
    let flow : Binding := ⟨.flow, "f", "e"⟩
    let flow' : Binding := ⟨.flow, "g", "e"⟩
    let t : Table := ((∅ : Table).insert all (.single approval)).insert ⟨"docs", "search"⟩
      (.single flow)
    let t' : Table := t.insert all ⟨.all, [approval, flow']⟩
    t.WellFormed ∧ (Change.stack all flow').Adds all flow' ∧
      (Change.stack all flow').apply t = .ok (.stacked .added, t') ∧
      t'.applicable "docs" "search" =
        [⟨.wildcard, .all, approval⟩, ⟨.wildcard, .all, flow'⟩, ⟨.tool, .single, flow⟩] ∧
      Grown all flow' "docs" "search" (Outcome.Added (.stacked .added) ∧ "docs" = all.service ∧
        (all.tool = "*" ∨ all.tool = "search"))
        (t.applicable "docs" "search") (t'.applicable "docs" "search") := by
  intro all approval flow flow' t t'
  have ht : t.WellFormed :=
    (wellFormed_empty.insert (Group.wellFormed_single approval) all).insert
      (Group.wellFormed_single flow) _
  have hadds : (Change.stack all flow').Adds all flow' := .stack all flow'
  have hget : t.get? all = some (.single approval) := by decide +kernel
  have happly : (Change.stack all flow').apply t = .ok (.stacked .added, t') :=
    Change.apply_of_effect (.stacked hget rfl)
  exact ⟨ht, hadds, happly, by decide +kernel, applicable_grows ht hadds happly "docs" "search"⟩

end Table

end ToolGate.Route
