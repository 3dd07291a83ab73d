import Mathlib.Data.List.Induction
import ToolGate.Proofs.Route.Growth
import ToolGate.Proofs.Route.Locality

/-!
# Where the mode of a group comes from

A group of two checks or more has the mode that it was told last, unless it has had fewer checks or
has been away since; then it asks for all checks, as a group does that grows from one check to two.
What is refused, what finds its check there already and what is about another key has no part in it.

* `Effect.mode_cases`: the mode of a group of two checks or more after one change;
* `Change.SetsModeAt`, `Change.SharedSince`: what is said about a run of changes;
* `Change.ModeFrom`: the mode that the history of a group gives it;
* `Change.modeFrom_of_get?`: that the group has this mode, by the last change of the run;
* `Change.mode_from_history`: and no other one.
-/

namespace ToolGate.Route

/-! ## One change -/

/-- A group that a check is added to keeps its mode if it has shared it with others before, and asks
for all of them otherwise. -/
theorem Group.WellFormed.mode_push_cases {g : Group} (hg : g.WellFormed) {b : Binding}
    (hb : g.binds b.protocol = false) :
    (2 ≤ g.size ∧ (g.push b).mode = g.mode) ∨ (g.size < 2 ∧ (g.push b).mode = .all) := by
  have hpos : 0 < g.size := hg.length_pos
  rw [hg.mode_push hb]
  by_cases hone : g.size = 1
  · right
    rw [if_pos hone]
    exact ⟨by omega, rfl⟩
  · left
    rw [if_neg hone]
    exact ⟨by omega, rfl⟩

/-- The group of its key after a change, if it has two checks or more: it has the mode that the
change sets, or the one that it had with two checks or more before, or it asks for all. -/
theorem Effect.mode_cases {t t' : Table} {c : Change} {o : Outcome} (h : Effect t c o t')
    (ht : t.WellFormed) {g' : Group} (hg' : t'.get? c.key = some g') (htwo : 2 ≤ g'.size) :
    (o = .modeSet ∧ c = .setMode c.key g'.mode) ∨
      (∃ g, t.get? c.key = some g ∧ 2 ≤ g.size ∧ g'.mode = g.mode) ∨
        (t.sizeAt c.key < 2 ∧ g'.mode = .all) := by
  have hsingle : ∀ {k : Key} {b : Binding}, (t.insert k (.single b)).get? k = some g' → False := by
    intro k b hget
    rw [SortedMap.get?_insert_self] at hget
    cases hget
    simp [Group.size, Group.single] at htwo
  have hpush : ∀ {k : Key} {b : Binding} {g : Group}, t.get? k = some g →
      g.binds b.protocol = false → (t.insert k (g.push b)).get? k = some g' →
        (∃ g, t.get? k = some g ∧ 2 ≤ g.size ∧ g'.mode = g.mode) ∨
          (t.sizeAt k < 2 ∧ g'.mode = .all) := by
    intro k b g hg hb hget
    rw [SortedMap.get?_insert_self] at hget
    cases hget
    rw [Table.sizeAt_of_get? hg]
    rcases (ht k g hg).mode_push_cases hb with ⟨hsize, hmode⟩ | hgrown
    · exact .inl ⟨g, hg, hsize, hmode⟩
    · exact .inr hgrown
  cases h with
  | registered => exact (hsingle hg').elim
  | ensuredFirst => exact (hsingle hg').elim
  | stacked hg hb => exact .inr (hpush hg hb hg')
  | ensured hg hb => exact .inr (hpush hg hb hg')
  | stackedBefore => exact .inr (.inl ⟨g', hg', htwo, rfl⟩)
  | ensuredBefore => exact .inr (.inl ⟨g', hg', htwo, rfl⟩)
  | @modeSet k m g hg hm hsize =>
    have hmode : g'.mode = m := by
      simp only [Change.key, SortedMap.get?_insert_self] at hg'
      cases hg'
      rfl
    rw [hmode]
    exact .inl ⟨rfl, rfl⟩
  | @reduced k p g hg hp hrest =>
    -- what is left has two checks or more, so the mode was not given up
    simp only [Change.key, SortedMap.get?_insert_self] at hg' ⊢
    cases hg'
    have hle : (g.remove p).size ≤ g.size := List.length_eraseP_le
    have hmode : (g.remove p).mode = if (g.remove p).size < 2 then .single else g.mode := rfl
    rw [if_neg (Nat.not_lt.2 htwo)] at hmode
    exact .inr (.inl ⟨g, hg, by omega, hmode⟩)
  | deleted =>
    simp only [Change.key, SortedMap.get?_erase, if_true] at hg'
    cases hg'
  | cleared =>
    simp only [Change.key, SortedMap.get?_erase, if_true] at hg'
    cases hg'

namespace Change

variable {t : Table} {c : Change} {cs : List Change} {k : Key} {g : Group} {m : Mode} {i : Nat}

/-- Whether a change sets the mode of a key, to `m`, and is not refused. -/
def SetsMode (t : Table) (c : Change) (k : Key) (m : Mode) : Prop :=
  c = .setMode k m ∧ c.result t = .ok .modeSet

/-- A mode is set for a group of two checks or more, which has it from then on. -/
theorem SetsMode.get?_next (h : c.SetsMode t k m) :
    2 ≤ t.sizeAt k ∧ ∃ g, (c.next t).get? k = some g ∧ g.mode = m := by
  obtain ⟨rfl, hresult⟩ := h
  rcases happly : (setMode k m).apply t with e | ⟨o, t'⟩
  · rw [result_of_error happly] at hresult
    cases hresult
  · rw [next_of_ok happly]
    cases apply_eq_ok_iff.1 happly with
    | modeSet hg hm hsize =>
      rw [Table.sizeAt_of_get? hg]
      exact ⟨hsize, _, SortedMap.get?_insert_self _ _ _, rfl⟩

/-- A change that does not set the mode of a key keeps the mode of a group of two checks or more, or
makes a group that asks for all of them. -/
theorem mode_next_of_not_setsMode (ht : t.WellFormed) (hnot : ∀ m, ¬c.SetsMode t k m)
    (hg : (c.next t).get? k = some g) (htwo : 2 ≤ g.size) :
    (∃ g₀, t.get? k = some g₀ ∧ 2 ≤ g₀.size ∧ g.mode = g₀.mode) ∨
      (t.sizeAt k < 2 ∧ g.mode = .all) := by
  by_cases hkey : c.key = k
  · subst hkey
    rcases happly : c.apply t with e | ⟨o, t'⟩
    · rw [next_of_error happly] at hg
      exact .inl ⟨g, hg, htwo, rfl⟩
    · rw [next_of_ok happly] at hg
      rcases (apply_eq_ok_iff.1 happly).mode_cases ht hg htwo with ⟨rfl, hset⟩ | hmode
      · exact absurd ⟨hset, result_of_ok happly⟩ (hnot g.mode)
      · exact hmode
  · rw [get?_next_of_ne hkey] at hg
    exact .inl ⟨g, hg, htwo, rfl⟩

/-- Changes that are refused, that find their check there already, or that are about another key. -/
theorem get?_next_of_idle (h : c.key ≠ k ∨ (∃ e, c.result t = .error e) ∨
    c.result t = .ok (.stacked .alreadyBound) ∨ c.result t = .ok (.ensured .alreadyBound)) :
    (c.next t).get? k = t.get? k := by
  rcases h with hkey | hresult
  · exact get?_next_of_ne hkey
  · rcases happly : c.apply t with e | ⟨o, t'⟩
    · rw [next_of_error happly]
    · rw [next_of_ok happly]
      rw [result_of_ok happly] at hresult
      cases apply_eq_ok_iff.1 happly with
      | stackedBefore => rfl
      | ensuredBefore => rfl
      | _ => simp at hresult

/-! ## Runs -/

/-- The table after the first `i` changes of a run that begins without routes. -/
def tableAt (cs : List Change) (i : Nat) : Table := (cs.take i).foldl next ∅

/-- Whether the change at a place of a run sets the mode of a key, to `m`, and is not refused. -/
def SetsModeAt (cs : List Change) (k : Key) (i : Nat) (m : Mode) : Prop :=
  ∃ c, cs[i]? = some c ∧ c.SetsMode (tableAt cs i) k m

/-- Whether a key has two checks or more in all tables of a run from a place on. -/
def SharedSince (cs : List Change) (k : Key) (i : Nat) : Prop :=
  ∀ j, i ≤ j → j ≤ cs.length → 2 ≤ (tableAt cs j).sizeAt k

/-- The mode that a run gives to a group of two checks or more: the one that was set last, if the
group has had two checks or more ever since, and `all` if no mode was set since then. -/
inductive ModeFrom (cs : List Change) (k : Key) : Mode → Prop where
  | set {i : Nat} {m : Mode} (hset : SetsModeAt cs k i m) (hsince : SharedSince cs k i)
    (hlast : ∀ j m', i < j → ¬SetsModeAt cs k j m') : ModeFrom cs k m
  | unset (hnone : ∀ i m, SetsModeAt cs k i m → ¬SharedSince cs k i) : ModeFrom cs k .all

theorem tableAt_length (cs : List Change) : tableAt cs cs.length = cs.foldl next ∅ := by
  rw [tableAt, List.take_length]

theorem wellFormed_tableAt (cs : List Change) (i : Nat) : (tableAt cs i).WellFormed :=
  wellFormed_foldl_next Table.wellFormed_empty _

theorem tableAt_concat (hi : i ≤ cs.length) : tableAt (cs ++ [c]) i = tableAt cs i := by
  rw [tableAt, List.take_append_of_le_length hi, tableAt]

theorem tableAt_concat_length :
    tableAt (cs ++ [c]) (cs.length + 1) = c.next (tableAt cs cs.length) := by
  have hlength : cs.length + 1 = (cs ++ [c]).length := by simp
  rw [hlength, tableAt_length, tableAt_length, List.foldl_append]
  rfl

theorem SetsModeAt.lt_length (h : SetsModeAt cs k i m) : i < cs.length := by
  obtain ⟨c, hc, -⟩ := h
  exact (List.getElem?_eq_some_iff.1 hc).1

theorem setsModeAt_concat_of_lt (hi : i < cs.length) :
    SetsModeAt (cs ++ [c]) k i m ↔ SetsModeAt cs k i m := by
  unfold SetsModeAt
  rw [List.getElem?_append_left hi, tableAt_concat (Nat.le_of_lt hi)]

theorem setsModeAt_concat_length :
    SetsModeAt (cs ++ [c]) k cs.length m ↔ c.SetsMode (tableAt cs cs.length) k m := by
  unfold SetsModeAt
  rw [List.getElem?_concat_length, tableAt_concat (Nat.le_refl _)]
  simp

/-- A place at which a longer run sets a mode is one of the run before, or the last one. -/
theorem setsModeAt_concat_iff :
    SetsModeAt (cs ++ [c]) k i m ↔
      SetsModeAt cs k i m ∨ (i = cs.length ∧ c.SetsMode (tableAt cs cs.length) k m) := by
  constructor
  · intro h
    have hlt : i < cs.length + 1 := by simpa using h.lt_length
    rcases Nat.lt_or_eq_of_le (Nat.le_of_lt_succ hlt) with hi | rfl
    · exact .inl ((setsModeAt_concat_of_lt hi).1 h)
    · exact .inr ⟨rfl, setsModeAt_concat_length.1 h⟩
  · rintro (h | ⟨rfl, h⟩)
    · exact (setsModeAt_concat_of_lt h.lt_length).2 h
    · exact setsModeAt_concat_length.2 h

/-- A group has two checks or more in a longer run if it has them in the run before and at its end.
-/
theorem sharedSince_concat (hi : i ≤ cs.length) :
    SharedSince (cs ++ [c]) k i ↔
      SharedSince cs k i ∧ 2 ≤ (c.next (tableAt cs cs.length)).sizeAt k := by
  have hlength : (cs ++ [c]).length = cs.length + 1 := by simp
  constructor
  · intro h
    constructor
    · intro j hij hj
      rw [← tableAt_concat (c := c) hj]
      exact h j hij (by omega)
    · rw [← tableAt_concat_length]
      exact h (cs.length + 1) (by omega) (by omega)
  · rintro ⟨hbefore, hlast⟩ j hij hj
    rcases Nat.lt_or_eq_of_le (hlength ▸ hj) with hlt | rfl
    · rw [tableAt_concat (by omega)]
      exact hbefore j hij (by omega)
    · rw [tableAt_concat_length]
      exact hlast

/-- The last change of a run sets the mode. -/
theorem ModeFrom.concat_of_setsMode (hset : c.SetsMode (tableAt cs cs.length) k m)
    (htwo : 2 ≤ (c.next (tableAt cs cs.length)).sizeAt k) : ModeFrom (cs ++ [c]) k m := by
  have hlast : SetsModeAt (cs ++ [c]) k cs.length m := setsModeAt_concat_length.2 hset
  refine .set hlast ?_ ?_
  · refine (sharedSince_concat (Nat.le_refl _)).2 ⟨?_, htwo⟩
    intro j hle hge
    rw [Nat.le_antisymm hge hle]
    exact hset.get?_next.1
  · intro j m' hj hset'
    have hlt : j < cs.length + 1 := by simpa using hset'.lt_length
    omega

/-- The last change of a run neither sets the mode nor takes checks away down to one. -/
theorem ModeFrom.concat_of_not_setsMode (hnot : ∀ m, ¬c.SetsMode (tableAt cs cs.length) k m)
    (htwo : 2 ≤ (c.next (tableAt cs cs.length)).sizeAt k) (h : ModeFrom cs k m) :
    ModeFrom (cs ++ [c]) k m := by
  have hiff : ∀ i m, SetsModeAt (cs ++ [c]) k i m ↔ SetsModeAt cs k i m := by
    intro i m
    rw [setsModeAt_concat_iff]
    exact or_iff_left fun hlast => hnot m hlast.2
  cases h with
  | @set i _ hset hsince hlast =>
    refine .set ((hiff i m).2 hset) ?_ ?_
    · exact (sharedSince_concat (Nat.le_of_lt hset.lt_length)).2 ⟨hsince, htwo⟩
    · intro j m' hij hset'
      exact hlast j m' hij ((hiff j m').1 hset')
  | unset hnone =>
    refine .unset ?_
    intro i m' hset hsince
    have hset := (hiff i m').1 hset
    exact hnone i m' hset ((sharedSince_concat (Nat.le_of_lt hset.lt_length)).1 hsince).1

/-- The group has got its second check with the last change of a run. -/
theorem ModeFrom.concat_of_lt (hnot : ∀ m, ¬c.SetsMode (tableAt cs cs.length) k m)
    (hlt : (tableAt cs cs.length).sizeAt k < 2) : ModeFrom (cs ++ [c]) k .all := by
  refine .unset ?_
  intro i m hset hsince
  rcases setsModeAt_concat_iff.1 hset with hset | ⟨-, hset⟩
  · have hbefore := (sharedSince_concat (Nat.le_of_lt hset.lt_length)).1 hsince
    have htwo := hbefore.1 cs.length (Nat.le_of_lt hset.lt_length) (Nat.le_refl _)
    omega
  · exact hnot m hset

/-- A group of two checks or more has the mode that the run gives it. -/
theorem modeFrom_of_get? (hg : (cs.foldl next ∅).get? k = some g) (htwo : 2 ≤ g.size) :
    ModeFrom cs k g.mode := by
  -- from the back: what is known of the run before carries over to the group before the last change
  induction cs using List.reverseRecOn generalizing g with
  | nil => cases hg
  | append_singleton cs c ih =>
    rw [List.foldl_concat, ← tableAt_length] at hg
    have htwo' : 2 ≤ (c.next (tableAt cs cs.length)).sizeAt k := by
      rw [Table.sizeAt_of_get? hg]
      exact htwo
    -- the last change sets the mode, or leaves it, or makes one check two
    by_cases hsets : ∃ m, c.SetsMode (tableAt cs cs.length) k m
    · obtain ⟨m, hset⟩ := hsets
      obtain ⟨-, g', hg', rfl⟩ := hset.get?_next
      obtain rfl : g' = g := Option.some.inj (hg'.symm.trans hg)
      exact .concat_of_setsMode hset htwo'
    · have hnot : ∀ m, ¬c.SetsMode (tableAt cs cs.length) k m := not_exists.1 hsets
      have hwell := wellFormed_tableAt cs cs.length
      rcases mode_next_of_not_setsMode hwell hnot hg htwo with ⟨g₀, hg₀, htwo₀, hmode⟩ | hgrown
      · rw [hmode]
        rw [tableAt_length] at hg₀
        exact .concat_of_not_setsMode hnot htwo' (ih hg₀ htwo₀)
      · rw [hgrown.2]
        exact .concat_of_lt hnot hgrown.1

/-- A run gives one mode at most. -/
theorem ModeFrom.unique {m m' : Mode} (h : ModeFrom cs k m) (h' : ModeFrom cs k m') : m = m' := by
  cases h with
  | @set i _ hset hsince hlast =>
    cases h' with
    | @set i' _ hset' hsince' hlast' =>
      -- neither of the two is set behind the other, as each is the last one
      have hplace : i = i' := by
        rcases Nat.lt_trichotomy i i' with hlt | heq | hlt
        · exact absurd hset' (hlast i' m' hlt)
        · exact heq
        · exact absurd hset (hlast' i m hlt)
      subst hplace
      obtain ⟨c, hc, rfl, -⟩ := hset
      obtain ⟨c', hc', rfl, -⟩ := hset'
      rw [hc] at hc'
      cases hc'
      rfl
    | unset hnone' => exact absurd hsince (hnone' i m hset)
  | unset hnone =>
    cases h' with
    | @set i' _ hset' hsince' _ => exact absurd hsince' (hnone i' m' hset')
    | unset _ => rfl

/-- After any run of changes from no routes on, refused ones among them, a group of two checks or
more has exactly the mode of its history: the one set last, if the group has had two checks or more
since, and `all` if none was set since it had fewer. In any table, a change that is refused, that
finds its check there already or that is about another key leaves the group as it is. -/
theorem mode_from_history {cs : List Change} {k : Key} {g : Group}
    (hg : (cs.foldl next ∅).get? k = some g) (htwo : 2 ≤ g.size) :
    (∀ m, g.mode = m ↔ ModeFrom cs k m) ∧
      ∀ (t : Table) (c : Change), (c.key ≠ k ∨ (∃ e, c.result t = .error e) ∨
        c.result t = .ok (.stacked .alreadyBound) ∨ c.result t = .ok (.ensured .alreadyBound)) →
          (c.next t).get? k = t.get? k := by
  constructor
  · intro m
    have hfrom := modeFrom_of_get? hg htwo
    constructor
    · rintro rfl
      exact hfrom
    · intro hm
      exact hfrom.unique hm
  · intro t c
    exact get?_next_of_idle

/-- A mode is set, and then given up as checks are taken away down to one. The group has two checks
again when a mode is set for another key and when `single` is refused. -/
theorem mode_from_history_after_one :
    let k : Key := ⟨"docs", "search"⟩
    let all : Key := ⟨"docs", "*"⟩
    let approval : Binding := ⟨.approval, "a", "e"⟩
    let flow : Binding := ⟨.flow, "f", "e"⟩
    let cs : List Change := [.register k approval, .stack k flow, .setMode k .any,
      .ensure all approval, .ensure all flow, .unstack k .approval, .stack k approval,
      .setMode all .any, .setMode k .single]
    (cs.foldl next ∅).get? k = some ⟨.all, [flow, approval]⟩ ∧
      (cs.foldl next ∅).get? all = some ⟨.any, [approval, flow]⟩ ∧
      SetsModeAt cs k 2 .any ∧ ModeFrom cs k .all ∧ ¬ModeFrom cs k .any ∧ ModeFrom cs all .any := by
  intro k all approval flow cs
  have hk : (cs.foldl next ∅).get? k = some ⟨.all, [flow, approval]⟩ := by decide +kernel
  have hall : (cs.foldl next ∅).get? all = some ⟨.any, [approval, flow]⟩ := by decide +kernel
  have hresult : (setMode k .any).result (tableAt cs 2) = .ok .modeSet := by decide +kernel
  have hset : SetsModeAt cs k 2 .any := ⟨.setMode k .any, rfl, rfl, hresult⟩
  have hmode := (mode_from_history hk (Nat.le_refl 2)).1
  have hmode' := (mode_from_history hall (Nat.le_refl 2)).1
  have hnot : ¬ModeFrom cs k .any := by
    intro hany
    have heq : Mode.all = Mode.any := (hmode .any).2 hany
    cases heq
  exact ⟨hk, hall, hset, (hmode .all).1 rfl, hnot, (hmode' .any).1 rfl⟩

end Change

end ToolGate.Route
