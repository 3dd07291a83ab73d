import ToolGate.Route.Group

/-!
# Groups stay in form

A group of a table has a check, one at most for each protocol, and the mode `single` exactly for one
check. What the operations make of such a group is in form again, as long as a check is left, and a
stored group that is in form is read as it is.

* `Group.bindings_push`, `Group.push_eq_fitMode`: a check that is added, and the mode that comes
  with it, which is also the one that stored groups are brought to;
* `Group.WellFormed.push`, `Group.WellFormed.remove`, `Group.WellFormed.withMode`: the operations;
* `Group.WellFormed.mode_push`: the mode of a group that grows;
* `Group.normalize_eq_self`: bringing a group into form that it has.
-/

namespace ToolGate.Route.Group

theorem binds_iff {g : Group} {p : Protocol} : g.binds p = true ↔ p ∈ g.protocols := by
  simp [binds, protocols]

/-- A group that is not empty has a check. -/
theorem isEmpty_eq_false_iff {g : Group} : g.isEmpty = false ↔ 0 < g.size := by
  rw [isEmpty, List.isEmpty_eq_false_iff, size, List.length_pos_iff]

/-- A check of a new protocol comes last, and two checks are not `single`. -/
theorem push_eq {g : Group} {b : Binding} (hb : g.binds b.protocol = false) :
    g.push b =
      ⟨if 2 ≤ g.size + 1 ∧ g.mode = .single then .all else g.mode, g.bindings ++ [b]⟩ := by
  simp [push, hb, size]

/-- A check of a protocol that is not there yet comes last. -/
theorem bindings_push {g : Group} {b : Binding} (hb : g.binds b.protocol = false) :
    (g.push b).bindings = g.bindings ++ [b] := by
  rw [push_eq hb]

/-- A check of a protocol that is there is not added. -/
theorem push_of_binds {g : Group} {b : Binding} (hb : g.binds b.protocol = true) : g.push b = g :=
  if_pos hb

/-- The mode that is fit for some checks, with the two cases in which it is not the one asked for.
-/
theorem fitMode_of_pos {m : Mode} {n : Nat} (hn : 0 < n) :
    fitMode m n = if n = 1 then .single else if m = .single then .all else m := by
  have htwo : n < 2 ↔ n = 1 := by omega
  unfold fitMode
  simp only [htwo]

/-- The mode of a group that grows is the one that a stored group of as many checks is brought to.
A group without checks has to be `single` for this: what it grows to is left as it is. -/
theorem push_eq_fitMode {g : Group} {b : Binding} (hb : g.binds b.protocol = false)
    (hempty : g.size = 0 → g.mode = .single) :
    g.push b = ⟨fitMode g.mode (g.size + 1), g.bindings ++ [b]⟩ := by
  rw [push_eq hb, fitMode_of_pos (Nat.succ_pos g.size)]
  congr 1
  -- the two rules differ only where there was no check before
  by_cases hzero : g.size = 0
  · have hone : ¬2 ≤ g.size + 1 := by omega
    have hfit : g.size + 1 = 1 := by omega
    rw [if_neg fun h => hone h.1, if_pos hfit, hempty hzero]
  · have htwo : 2 ≤ g.size + 1 := by omega
    have hfit : g.size + 1 ≠ 1 := by omega
    rw [if_neg hfit]
    simp only [htwo, true_and]

/-- The group of one check is in form. -/
theorem wellFormed_single (b : Binding) : (single b).WellFormed := by
  refine ⟨?_, ?_, ?_⟩ <;> simp [single, protocols]

namespace WellFormed

variable {g : Group}

/-- A group in form has a check. -/
theorem length_pos (hg : g.WellFormed) : 0 < g.bindings.length :=
  List.length_pos_iff.2 hg.nonempty

/-- A group in form has a check, so nothing has to be said of the mode of one that has none. -/
theorem mode_of_size_eq_zero (hg : g.WellFormed) (hzero : g.size = 0) : g.mode = .single := by
  have hpos : 0 < g.size := hg.length_pos
  omega

/-- A check of a protocol that is not there yet makes the group grow. -/
theorem push (hg : g.WellFormed) {b : Binding} (hb : g.binds b.protocol = false) :
    (g.push b).WellFormed := by
  have hnew : b.protocol ∉ g.protocols := by
    intro hmem
    rw [binds_iff.2 hmem] at hb
    contradiction
  rw [push_eq_fitMode hb (hg.mode_of_size_eq_zero ·)]
  refine ⟨by simp, ?_, ?_⟩
  · change ((g.bindings ++ [b]).map (·.protocol)).Nodup
    rw [List.map_append]
    -- the protocols were different before, and the new one is another one
    refine List.nodup_append.2 ⟨hg.nodup, by simp, ?_⟩
    rintro p hp q hq rfl
    have hpb : p = b.protocol := by simpa using hq
    exact hnew (hpb ▸ hp)
  · have hpos := hg.length_pos
    simp only [fitMode_eq_single_iff, size, List.length_append, List.length_singleton]
    omega

/-- A group that grows from one check to two asks for all of them; any other one keeps its mode. -/
theorem mode_push (hg : g.WellFormed) {b : Binding} (hb : g.binds b.protocol = false) :
    (g.push b).mode = if g.size = 1 then .all else g.mode := by
  have hpos : 0 < g.size := hg.length_pos
  have hsingle : g.mode = .single ↔ g.size = 1 := hg.single_iff
  have htwo : 2 ≤ g.size + 1 := by omega
  rw [push_eq hb]
  simp only [htwo, true_and, hsingle]

/-- A check can be taken away as long as another one is left. -/
theorem remove (hg : g.WellFormed) {p : Protocol} (hrest : (g.remove p).isEmpty = false) :
    (g.remove p).WellFormed := by
  -- what is left is a part of the group in its order, so its protocols stay different
  have hsub : List.Sublist (g.remove p).bindings g.bindings := List.eraseP_sublist
  have hne : (g.remove p).bindings ≠ [] := by
    intro hnil
    simp [isEmpty, hnil] at hrest
  refine ⟨hne, (hsub.map _).nodup hg.nodup, ?_⟩
  have hpos : 0 < (g.remove p).bindings.length := List.length_pos_iff.2 hne
  have hmode : (g.remove p).mode = if (g.remove p).bindings.length < 2 then .single else g.mode :=
    rfl
  rw [hmode]
  split
  · simp only [true_iff]
    omega
  · -- two checks are left, so the group had more than one and its mode was not `single`
    have hle := hsub.length_le
    rw [hg.single_iff]
    omega

/-- A group of two checks or more may ask for all or for any of them. -/
theorem withMode (hg : g.WellFormed) {m : Mode} (hm : m ≠ .single) (hsize : 2 ≤ g.size) :
    ({ g with mode := m } : Group).WellFormed := by
  refine ⟨hg.nonempty, hg.nodup, ?_⟩
  have htwo : 2 ≤ g.bindings.length := hsize
  simp only [hm, false_iff]
  omega

end WellFormed

/-! ## Bringing groups into form -/

/-- A mode that fits is kept. -/
theorem fitMode_of_single_iff {m : Mode} {n : Nat} (hn : 0 < n) (h : m = .single ↔ n = 1) :
    fitMode m n = m := by
  rw [fitMode_of_pos hn]
  by_cases hone : n = 1
  · rw [if_pos hone]
    exact (h.2 hone).symm
  · rw [if_neg hone, if_neg (fun hm => hone (h.1 hm))]

/-- Where no protocol comes twice or is in `seen`, every check is the first of its protocol. -/
theorem firstPerProtocol_eq_self {seen : List Protocol} {bs : List Binding}
    (hnodup : (bs.map (·.protocol)).Nodup) (hseen : ∀ b ∈ bs, b.protocol ∉ seen) :
    firstPerProtocol seen bs = bs := by
  -- by induction on the checks; each one is put to those that were seen
  induction bs generalizing seen with
  | nil => rfl
  | cons b bs ih =>
    rw [List.map_cons, List.nodup_cons] at hnodup
    have hb : seen.contains b.protocol = false := by
      simpa using hseen b List.mem_cons_self
    have hrest : ∀ c ∈ bs, c.protocol ∉ b.protocol :: seen := by
      intro c hc hmem
      rcases List.mem_cons.1 hmem with heq | hmem
      · exact hnodup.1 (heq ▸ List.mem_map_of_mem hc)
      · exact hseen c (List.mem_cons_of_mem b hc) hmem
    unfold firstPerProtocol
    rw [hb, ih hnodup.2 hrest]
    rfl

/-- A group in form is read as it is. -/
theorem normalize_eq_self {g : Group} (hg : g.WellFormed) : g.normalize = g := by
  have hfirst : firstPerProtocol [] g.bindings = g.bindings :=
    firstPerProtocol_eq_self hg.nodup (by simp)
  unfold normalize
  simp only [hfirst]
  rw [fitMode_of_single_iff hg.length_pos hg.single_iff]

end ToolGate.Route.Group
