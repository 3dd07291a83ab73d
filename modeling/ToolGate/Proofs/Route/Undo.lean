import ToolGate.Proofs.Route.Growth

/-!
# Adding checks and taking them away

Taking a check away undoes the change that has added it: the table is the former one, also where the
mode was changed as the group grew, or where the group was begun with the check. Adding a check
again that was taken away does not always undo that. The check comes last in its group, and where
one other check was left the group asks for all of them, whatever it asked for before. Where none
was left the group is gone, so it has to be begun again.

* `Group.Around`: a check of a group with those before and behind it;
* `Group.Around.remove`, `Group.Around.push_remove`: the group without it, and with it at the end;
* `Change.unstack_of_push`, `Change.unstack_of_single`: taking away what was added;
* `Change.readd_only`, `Change.readd_shared`: adding again what was taken away;
* `Change.unstack_inverse`: both ways.
-/

namespace ToolGate.Route

/-! ## Groups -/

namespace Group

variable {g : Group} {b : Binding} {front back : List Binding}

/-- A check of a group, the only one of its protocol, with the checks before and behind it. -/
structure Around (g : Group) (b : Binding) (front back : List Binding) : Prop where
  bindings : g.bindings = front ++ b :: back
  front : ∀ c ∈ front, c.protocol ≠ b.protocol
  back : ∀ c ∈ back, c.protocol ≠ b.protocol

/-- A protocol that is bound has one check, with the others around it. -/
theorem WellFormed.exists_around (hg : g.WellFormed) {p : Protocol} (hp : g.binds p = true) :
    ∃ b front back, g.binding? p = some b ∧ b.protocol = p ∧ g.Around b front back := by
  have hsome : (g.binding? p).isSome = true := by
    rw [binding?, List.find?_isSome]
    exact List.any_eq_true.1 hp
  obtain ⟨b, hb⟩ := Option.isSome_iff_exists.1 hsome
  obtain ⟨hbp, front, back, hsplit, -⟩ := List.find?_eq_some_iff_append.1 hb
  have hprotocol : b.protocol = p := by simpa using hbp
  -- no protocol comes twice, so neither part has a check of this one
  have hnodup : (front.map (·.protocol) ++ b.protocol :: back.map (·.protocol)).Nodup := by
    have hwell := hg.nodup
    rwa [protocols, hsplit, List.map_append, List.map_cons] at hwell
  obtain ⟨-, hback, hfront⟩ := List.nodup_append.1 hnodup
  refine ⟨b, front, back, hb, hprotocol, hsplit, ?_, ?_⟩
  · intro c hc
    exact hfront _ (List.mem_map_of_mem hc) _ List.mem_cons_self
  · intro c hc heq
    exact (List.nodup_cons.1 hback).1 (heq ▸ List.mem_map_of_mem hc)

namespace Around

theorem size_eq (h : g.Around b front back) : g.size = (front ++ back).length + 1 := by
  rw [size, h.bindings]
  simp only [List.length_append, List.length_cons]
  omega

theorem binds (h : g.Around b front back) : g.binds b.protocol = true := by
  rw [Group.binds, h.bindings]
  simp

/-- A group without one of its checks. -/
theorem remove (h : g.Around b front back) :
    g.remove b.protocol =
      ⟨if (front ++ back).length < 2 then .single else g.mode, front ++ back⟩ := by
  have hfront : ∀ c ∈ front, ¬(c.protocol == b.protocol) = true := by
    intro c hc heq
    exact h.front c hc (by simpa using heq)
  have hrest : g.bindings.eraseP (·.protocol == b.protocol) = front ++ back := by
    rw [h.bindings, List.eraseP_append_right _ hfront, List.eraseP_cons_of_pos (by simp)]
  unfold Group.remove
  rw [hrest]

theorem size_remove (h : g.Around b front back) : (g.remove b.protocol).size = g.size - 1 := by
  rw [h.remove, h.size_eq, Nat.add_sub_cancel]
  rfl

/-- Without the check its protocol is bound no more. -/
theorem binds_remove (h : g.Around b front back) :
    (g.remove b.protocol).binds b.protocol = false := by
  rw [h.remove, Group.binds, List.any_eq_false]
  intro c hc heq
  have hsame : c.protocol = b.protocol := by simpa using heq
  rcases List.mem_append.1 hc with hc | hc
  · exact h.front c hc hsame
  · exact h.back c hc hsame

/-- A check that is taken away and added again comes last. With one other check the group asks for
all of them then, with more it keeps its mode. -/
theorem push_remove (h : g.Around b front back) (hg : g.WellFormed) (htwo : 2 ≤ g.size) :
    (g.remove b.protocol).push b =
      ⟨if g.size = 2 then .all else g.mode, front ++ back ++ [b]⟩ := by
  have hsize := h.size_eq
  have hcount := h.size_remove
  have hrest : (g.remove b.protocol).isEmpty = false := by
    rw [isEmpty_eq_false_iff]
    omega
  have hbindings : ((g.remove b.protocol).push b).bindings = front ++ back ++ [b] := by
    rw [bindings_push h.binds_remove, h.remove]
  have hmode : ((g.remove b.protocol).push b).mode = if g.size = 2 then .all else g.mode := by
    rw [(hg.remove hrest).mode_push h.binds_remove, hcount]
    by_cases hpair : g.size = 2
    · rw [if_pos (by omega), if_pos hpair]
    · -- of three checks or more two are left, so the mode stays
      have hkept : (g.remove b.protocol).mode = g.mode := by
        rw [h.remove]
        exact if_neg (by omega)
      rw [if_neg (by omega), if_neg hpair, hkept]
  rw [← hbindings, ← hmode]

end Around

/-- A check that is added is behind all others. -/
theorem around_push (hb : g.binds b.protocol = false) : (g.push b).Around b g.bindings [] := by
  refine ⟨by rw [bindings_push hb], ?_, ?_⟩
  · intro c hc heq
    have hbound : g.binds b.protocol = true := List.any_eq_true.2 ⟨c, hc, by simp [heq]⟩
    rw [hb] at hbound
    cases hbound
  · intro c hc
    cases hc

/-- Taking away a check that was added gives the group back, its mode included. -/
theorem WellFormed.remove_push (hg : g.WellFormed) (hb : g.binds b.protocol = false) :
    (g.push b).remove b.protocol = g := by
  have hsingle : g.mode = .single ↔ g.bindings.length = 1 := hg.single_iff
  have hpos := hg.length_pos
  rw [(around_push hb).remove, hg.mode_push hb, List.append_nil, size]
  by_cases hone : g.bindings.length = 1
  · -- the group asked for all of two checks, and is `single` again
    rw [if_pos (by omega), ← hsingle.2 hone]
  · rw [if_neg (by omega), if_neg hone]

end Group

/-- A group that takes the place of another one leaves the keys as they are. -/
theorem Table.keys_insert_of_get? {t : Table} {k : Key} {g : Group} (hg : t.get? k = some g)
    (g' : Group) : (t.insert k g').keys = t.keys := by
  apply SortedMap.keys_congr
  intro j
  rw [SortedMap.contains, SortedMap.contains, SortedMap.get?_insert]
  split
  · rename_i hj
    rw [← hj, hg]
    rfl
  · rfl

namespace Change

variable {t : Table} {k : Key} {g : Group} {b : Binding}

/-! ## Taking away what was added -/

/-- A check that was added to a group is taken away from it again. -/
theorem unstack_of_push (ht : t.WellFormed) (hg : t.get? k = some g)
    (hb : g.binds b.protocol = false) :
    (unstack k b.protocol).apply (t.insert k (g.push b)) =
      .ok (.unstacked (.remaining g.size), t) := by
  have hwell := ht k g hg
  have hremove := hwell.remove_push hb
  have hrest : ((g.push b).remove b.protocol).isEmpty = false := by
    rw [hremove, Group.isEmpty_eq_false_iff]
    exact hwell.length_pos
  have hunstack := apply_of_effect
    (.reduced (SortedMap.get?_insert_self t k (g.push b)) (Group.around_push hb).binds hrest)
  rw [hunstack, hremove, SortedMap.insert_insert, SortedMap.insert_eq_self_iff.2 hg]

/-- A check that a group was begun with is taken away, and the group with it. -/
theorem unstack_of_single (hfree : t.get? k = none) :
    (unstack k b.protocol).apply (t.insert k (.single b)) = .ok (.unstacked .groupDeleted, t) := by
  have hbound : (Group.single b).binds b.protocol = true := by simp [Group.binds, Group.single]
  have hrest : ((Group.single b).remove b.protocol).isEmpty = true := by
    simp [Group.remove, Group.single, Group.isEmpty]
  have hunstack := apply_of_effect
    (.deleted (SortedMap.get?_insert_self t k (.single b)) hbound hrest)
  rw [hunstack, SortedMap.erase_insert, SortedMap.erase_eq_self_iff.2 hfree]

/-! ## Adding again what was taken away -/

/-- The only check of a group: the group goes with it, and can be begun again but not added to. -/
theorem readd_only (ht : t.WellFormed) (hg : t.get? k = some g) {front back : List Binding}
    (h : g.Around b front back) (hone : g.size = 1) :
    (unstack k b.protocol).apply t = .ok (.unstacked .groupDeleted, t.erase k) ∧
      (t.erase k).get? k = none ∧
      (stack k b).apply (t.erase k) = .error (.notFound k "route group") ∧
      (ensure k b).apply (t.erase k) = .ok (.ensured .registered, t) := by
  have hnil : front ++ back = [] := by
    apply List.eq_nil_of_length_eq_zero
    have hsize := h.size_eq
    omega
  have hrest : (g.remove b.protocol).isEmpty = true := by
    rw [h.remove, hnil]
    rfl
  have hfree : (t.erase k).get? k = none := by rw [SortedMap.get?_erase, if_pos rfl]
  -- the group has the one check and the mode of a group of one check
  have hsingle : g = .single b := by
    obtain ⟨rfl, rfl⟩ := List.append_eq_nil_iff.1 hnil
    have hmode : g.mode = .single := (ht k g hg).single_iff.2 hone
    have hbindings : g.bindings = [b] := h.bindings
    rw [Group.single, ← hmode, ← hbindings]
  refine ⟨apply_of_effect (.deleted hg h.binds hrest), hfree, ?_, ?_⟩
  · rw [apply, Table.stack_of_free b hfree]
    rfl
  · have hensure := apply_of_effect (.ensuredFirst (b := b) hfree)
    rw [hensure, SortedMap.insert_erase, ← hsingle, SortedMap.insert_eq_self_iff.2 hg]

/-- A check among others: it comes last when it is added again. -/
theorem readd_shared (ht : t.WellFormed) (hg : t.get? k = some g) {front back : List Binding}
    (h : g.Around b front back) (htwo : 2 ≤ g.size) :
    (unstack k b.protocol).apply t =
        .ok (.unstacked (.remaining (g.size - 1)), t.insert k (g.remove b.protocol)) ∧
      (stack k b).apply (t.insert k (g.remove b.protocol)) =
        .ok (.stacked .added,
          t.insert k ⟨if g.size = 2 then .all else g.mode, front ++ back ++ [b]⟩) := by
  have hsize := h.size_eq
  have hcount := h.size_remove
  have hrest : (g.remove b.protocol).isEmpty = false := by
    rw [Group.isEmpty_eq_false_iff]
    omega
  constructor
  · have hunstack := apply_of_effect (.reduced hg h.binds hrest)
    rw [hunstack, hcount]
  · have hstack := apply_of_effect
      (.stacked (SortedMap.get?_insert_self t k (g.remove b.protocol)) h.binds_remove)
    rw [hstack, SortedMap.insert_insert, h.push_remove (ht k g hg) htwo]

/-! ## Both ways -/

/-- Taking away a check that a key did not have before gives exactly the former table back, whether
the check was stacked, registered or ensured. A check that a key has can be taken away and added
again. Among other checks it comes last then, all keys and all other groups are as before, and the
mode is too, but for a group of two checks, which asks for all. The only check of a group cannot be
stacked again, as there is no group, and ensuring it gives exactly the former table back. -/
theorem unstack_inverse {t : Table} (ht : t.WellFormed) (k : Key) :
    (∀ b, ¬t.Binds k b.protocol →
      (∀ g, t.get? k = some g → ∃ t', (stack k b).apply t = .ok (.stacked .added, t') ∧
        (unstack k b.protocol).apply t' = .ok (.unstacked (.remaining g.size), t)) ∧
      (t.get? k = none → ∃ t', (register k b).apply t = .ok (.registered, t') ∧
        (unstack k b.protocol).apply t' = .ok (.unstacked .groupDeleted, t)) ∧
      ∃ how how' t', (ensure k b).apply t = .ok (.ensured how, t') ∧ how ≠ .alreadyBound ∧
        (unstack k b.protocol).apply t' = .ok (.unstacked how', t)) ∧
    ∀ g p, t.get? k = some g → g.binds p = true → ∃ b, g.binding? p = some b ∧
      (g.size = 1 → ∃ t', (unstack k p).apply t = .ok (.unstacked .groupDeleted, t') ∧
        t'.get? k = none ∧ (stack k b).apply t' = .error (.notFound k "route group") ∧
        (ensure k b).apply t' = .ok (.ensured .registered, t)) ∧
      (2 ≤ g.size → ∃ front back t' t'', g.bindings = front ++ b :: back ∧
        (unstack k p).apply t = .ok (.unstacked (.remaining (g.size - 1)), t') ∧
        (stack k b).apply t' = .ok (.stacked .added, t'') ∧
        t''.keys = t.keys ∧ (∀ j, k ≠ j → t''.get? j = t.get? j) ∧
        t''.get? k = some ⟨if g.size = 2 then .all else g.mode, front ++ back ++ [b]⟩) := by
  constructor
  · intro b hnot
    cases hg : t.get? k with
    | none =>
      refine ⟨?_, ?_, ?_⟩
      · intro g hsome
        cases hsome
      · intro _
        exact ⟨_, apply_of_effect (.registered hg), unstack_of_single hg⟩
      · refine ⟨_, _, _, apply_of_effect (.ensuredFirst hg), ?_, unstack_of_single hg⟩
        intro heq
        cases heq
    | some g =>
      have hb : g.binds b.protocol = false := by
        rw [Table.binds_iff_of_get? hg] at hnot
        exact Bool.eq_false_iff.2 hnot
      refine ⟨?_, ?_, ?_⟩
      · rintro _ ⟨⟩
        exact ⟨_, apply_of_effect (.stacked hg hb), unstack_of_push ht hg hb⟩
      · intro hfree
        cases hfree
      · refine ⟨_, _, _, apply_of_effect (.ensured hg hb), ?_, unstack_of_push ht hg hb⟩
        intro heq
        cases heq
  · intro g p hg hp
    -- no other check of the group has this protocol, so all others stay
    obtain ⟨b, front, back, hbinding, rfl, haround⟩ := (ht k g hg).exists_around hp
    refine ⟨b, hbinding, ?_, ?_⟩
    · intro hone
      exact ⟨_, readd_only ht hg haround hone⟩
    · intro htwo
      obtain ⟨hunstack, hstack⟩ := readd_shared ht hg haround htwo
      -- the only key that is touched is `k`
      refine ⟨front, back, _, _, haround.bindings, hunstack, hstack,
        Table.keys_insert_of_get? hg _, ?_, ?_⟩
      · intro j hj
        rw [SortedMap.get?_insert, if_neg hj]
      · exact SortedMap.get?_insert_self _ _ _

/-- A group of two checks that asks for any of them: a third one is added and taken away, and the
first one is taken away and added again. -/
theorem unstack_inverse_of_pair :
    let k : Key := ⟨"docs", "search"⟩
    let approval : Binding := ⟨.approval, "a", "e"⟩
    let flow : Binding := ⟨.flow, "f", "e"⟩
    let identity : Binding := ⟨.identity, "i", "e"⟩
    let g : Group := ⟨.any, [approval, flow]⟩
    let t : Table := (∅ : Table).insert k g
    t.WellFormed ∧ t.get? k = some g ∧ ¬t.Binds k .identity ∧
      (∃ t', (stack k identity).apply t = .ok (.stacked .added, t') ∧
        (unstack k .identity).apply t' = .ok (.unstacked (.remaining 2), t)) ∧
      ∃ front back t' t'', [approval, flow] = front ++ approval :: back ∧
        (unstack k .approval).apply t = .ok (.unstacked (.remaining 1), t') ∧
        (stack k approval).apply t' = .ok (.stacked .added, t'') ∧
        t''.get? k = some ⟨.all, front ++ back ++ [approval]⟩ := by
  intro k approval flow identity g t
  have hgroup : g.WellFormed := by decide
  have ht : t.WellFormed := Table.wellFormed_empty.insert hgroup k
  have hg : t.get? k = some g := SortedMap.get?_insert_self _ _ _
  have hnot : ¬t.Binds k .identity := by
    rw [Table.binds_iff_of_get? hg]
    decide
  obtain ⟨hadd, hreadd⟩ := unstack_inverse ht k
  obtain ⟨b, hb, -, hshared⟩ := hreadd g .approval hg rfl
  obtain rfl : approval = b := Option.some.inj hb
  obtain ⟨front, back, t', t'', hsplit, hunstack, hstack, -, -, hget⟩ := hshared (Nat.le_refl 2)
  exact ⟨ht, hg, hnot, (hadd identity hnot).1 g hg, front, back, t', t'', hsplit, hunstack, hstack,
    hget⟩

end Change

end ToolGate.Route
