import ToolGate.SortedMap.Basic

/-!
# The view of a sorted map

What each operation on a `SortedMap` does to `get?`, and that the view decides the map.

* `SortedMap.mem_entries`: the entries are the graph of the view;
* `SortedMap.ext_get?`: two maps with the same view are equal;
* `SortedMap.get?_insert`, `get?_erase`, `get?_mapValues`: one equation per operation;
* `SortedMap.insert_eq_self_iff`, `erase_eq_self_iff`: operations that change nothing;
* `SortedMap.insert_insert`, `erase_insert`, `insert_erase`: a second operation on the same key;
* `SortedMap.keys_congr`: maps with values for the same keys.
-/

namespace ToolGate

namespace SortedMap

universe u v w

variable {κ : Type u} [Ord κ] [Std.TransOrd κ] [Std.LawfulEqOrd κ] {α : Type v} {β : Type w}

/-! ## Entry lists -/

omit [Std.TransOrd κ] [Std.LawfulEqOrd κ] in
theorem lookup_eq_none_of_lt {k : κ} {l : List (κ × α)}
    (h : ∀ e ∈ l, compare k e.1 = .lt) : lookup k l = none := by
  cases l with
  | nil => rfl
  | cons e l =>
    obtain ⟨j, a⟩ := e
    have hj : compare k j = .lt := h (j, a) (by simp)
    simp [lookup, hj]

theorem mem_iff_lookup {k : κ} {a : α} {l : List (κ × α)}
    (h : l.Pairwise (fun a b => compare a.1 b.1 = .lt)) : (k, a) ∈ l ↔ lookup k l = some a := by
  induction l with
  | nil => simp [lookup]
  | cons e l ih =>
    obtain ⟨j, b⟩ := e
    rw [List.pairwise_cons] at h
    unfold lookup
    split
    · rename_i hc
      simp only [reduceCtorEq, iff_false, List.mem_cons, not_or]
      refine ⟨?_, fun hm => ?_⟩
      · rintro ⟨⟩
        simp [Std.compare_self] at hc
      · have := Std.TransCmp.lt_trans hc (h.1 _ hm)
        simp [Std.compare_self] at this
    · rename_i hc
      obtain rfl := Std.LawfulEqOrd.eq_of_compare hc
      constructor
      · intro hm
        rcases List.mem_cons.1 hm with heq | hm
        · cases heq
          rfl
        · have := h.1 _ hm
          simp [Std.compare_self] at this
      · rintro ⟨⟩
        simp
    · rename_i hc
      have hne : k ≠ j := by
        rintro rfl
        simp [Std.compare_self] at hc
      rw [← ih h.2]
      simp [hne]

theorem lookup_put [DecidableEq κ] (k j : κ) (a : α) (l : List (κ × α)) :
    lookup j (put k a l) = if k = j then some a else lookup j l := by
  induction l with
  | nil =>
    unfold put lookup
    by_cases hkj : k = j
    · subst hkj
      simp [Std.compare_self]
    · have hne : compare j k ≠ .eq := fun h => hkj (Std.LawfulEqOrd.eq_of_compare h).symm
      cases hc : compare j k <;> simp_all [lookup]
  | cons e l ih =>
    obtain ⟨i, b⟩ := e
    by_cases hkj : k = j
    · subst hkj
      unfold put
      split <;> simp_all [lookup, Std.compare_self]
    · have hne : compare j k ≠ .eq := fun h => hkj (Std.LawfulEqOrd.eq_of_compare h).symm
      unfold put
      split
      · rename_i hc
        cases hjk : compare j k with
        | eq => exact absurd hjk hne
        | lt =>
          have := Std.TransCmp.lt_trans hjk hc
          simp [lookup, hjk, hkj, this]
        | gt => simp [lookup, hjk, hkj]
      · rename_i hc
        obtain rfl := Std.LawfulEqOrd.eq_of_compare hc
        cases hjk : compare j k <;> simp_all [lookup]
      · simp only [lookup, hkj, if_false]
        split <;> simp_all

theorem lookup_drop [DecidableEq κ] (k j : κ) {l : List (κ × α)}
    (h : l.Pairwise (fun a b => compare a.1 b.1 = .lt)) :
    lookup j (drop k l) = if k = j then none else lookup j l := by
  induction l with
  | nil => simp [drop, lookup]
  | cons e l ih =>
    obtain ⟨i, b⟩ := e
    rw [List.pairwise_cons] at h
    have ih := ih h.2
    unfold drop
    split
    · rename_i hc
      by_cases hkj : k = j
      · subst hkj
        simp [lookup, hc]
      · simp [hkj]
    · rename_i hc
      obtain rfl := Std.LawfulEqOrd.eq_of_compare hc
      by_cases hkj : k = j
      · subst hkj
        simp only [if_true]
        exact lookup_eq_none_of_lt h.1
      · have hne : compare j k ≠ .eq := fun h => hkj (Std.LawfulEqOrd.eq_of_compare h).symm
        cases hjk : compare j k with
        | eq => exact absurd hjk hne
        | lt =>
          have hlt : ∀ e ∈ l, compare j e.1 = .lt := fun e he =>
            Std.TransCmp.lt_trans hjk (h.1 e he)
          simp [lookup, hjk, hkj, lookup_eq_none_of_lt hlt]
        | gt => simp [lookup, hjk, hkj]
    · rename_i hc
      by_cases hkj : k = j
      · subst hkj
        simpa [lookup, hc] using ih
      · simp only [lookup, hkj, if_false] at ih ⊢
        split <;> simp_all

theorem eq_of_lookup_eq {l r : List (κ × α)}
    (hl : l.Pairwise (fun a b => compare a.1 b.1 = .lt))
    (hr : r.Pairwise (fun a b => compare a.1 b.1 = .lt))
    (h : ∀ k, lookup k l = lookup k r) : l = r := by
  induction l generalizing r with
  | nil =>
    cases r with
    | nil => rfl
    | cons e r =>
      have := h e.1
      simp [lookup, Std.compare_self] at this
  | cons e l ih =>
    cases r with
    | nil =>
      have := h e.1
      simp [lookup, Std.compare_self] at this
    | cons f r =>
      obtain ⟨j, a⟩ := e
      obtain ⟨i, b⟩ := f
      rw [List.pairwise_cons] at hl hr
      -- the first keys agree, as the smaller one would be found on its own side only
      have hij : compare j i = .eq := by
        cases hc : compare j i with
        | eq => rfl
        | lt =>
          have := h j
          simp [lookup, Std.compare_self, hc] at this
        | gt =>
          have hlt : compare i j = .lt := Std.OrientedCmp.gt_iff_lt.1 hc
          have := h i
          simp [lookup, Std.compare_self, hlt] at this
      obtain rfl := Std.LawfulEqOrd.eq_of_compare hij
      have hab : a = b := by
        have := h j
        simpa [lookup, Std.compare_self] using this
      subst hab
      -- behind the first entries the views agree too: their key has no value there
      rw [ih hl.2 hr.2]
      intro k
      have hk := h k
      cases hc : compare k j with
      | gt => simpa [lookup, hc] using hk
      | lt =>
        rw [lookup_eq_none_of_lt fun e he => Std.TransCmp.lt_trans hc (hl.1 e he),
          lookup_eq_none_of_lt fun e he => Std.TransCmp.lt_trans hc (hr.1 e he)]
      | eq =>
        obtain rfl := Std.LawfulEqOrd.eq_of_compare hc
        rw [lookup_eq_none_of_lt hl.1, lookup_eq_none_of_lt hr.1]

omit [Std.TransOrd κ] [Std.LawfulEqOrd κ] in
theorem lookup_map (f : α → β) (k : κ) (l : List (κ × α)) :
    lookup k (l.map fun e => (e.1, f e.2)) = (lookup k l).map f := by
  induction l with
  | nil => rfl
  | cons e l ih =>
    simp only [List.map_cons, lookup]
    split <;> simp_all

/-! ## Maps -/

/-- The entries of a map are the graph of its view. -/
theorem mem_entries {m : SortedMap κ α} {k : κ} {a : α} :
    (k, a) ∈ m.entries ↔ m.get? k = some a :=
  mem_iff_lookup m.increasing

/-- A map is determined by its view. -/
theorem ext_get? {m n : SortedMap κ α} (h : ∀ k, m.get? k = n.get? k) : m = n := by
  cases m
  cases n
  congr
  exact eq_of_lookup_eq ‹_› ‹_› h

omit [Std.TransOrd κ] [Std.LawfulEqOrd κ] in
@[simp] theorem get?_empty (k : κ) : (∅ : SortedMap κ α).get? k = none := rfl

theorem get?_insert [DecidableEq κ] (m : SortedMap κ α) (k j : κ) (a : α) :
    (m.insert k a).get? j = if k = j then some a else m.get? j :=
  lookup_put k j a m.entries

@[simp] theorem get?_insert_self [DecidableEq κ] (m : SortedMap κ α) (k : κ) (a : α) :
    (m.insert k a).get? k = some a := by
  simp [get?_insert]

theorem get?_erase [DecidableEq κ] (m : SortedMap κ α) (k j : κ) :
    (m.erase k).get? j = if k = j then none else m.get? j :=
  lookup_drop k j m.increasing

omit [Std.TransOrd κ] [Std.LawfulEqOrd κ] in
@[simp] theorem get?_mapValues (f : α → β) (m : SortedMap κ α) (k : κ) :
    (m.mapValues f).get? k = (m.get? k).map f :=
  lookup_map f k m.entries

/-- Giving a key the value that it has changes nothing, and any other value is a change. -/
theorem insert_eq_self_iff [DecidableEq κ] {m : SortedMap κ α} {k : κ} {a : α} :
    m.insert k a = m ↔ m.get? k = some a := by
  constructor
  · intro h
    rw [← h, get?_insert_self]
  · intro h
    apply ext_get?
    intro j
    rw [get?_insert]
    by_cases hj : k = j
    · rw [if_pos hj, ← hj, h]
    · rw [if_neg hj]

/-- Taking a value away changes nothing where there is none, and only there. -/
theorem erase_eq_self_iff [DecidableEq κ] {m : SortedMap κ α} {k : κ} :
    m.erase k = m ↔ m.get? k = none := by
  constructor
  · intro h
    rw [← h, get?_erase, if_pos rfl]
  · intro h
    apply ext_get?
    intro j
    rw [get?_erase]
    by_cases hj : k = j
    · rw [if_pos hj, ← hj, h]
    · rw [if_neg hj]

/-! ### One key again and again -/

section Again

variable [DecidableEq κ] (m : SortedMap κ α) (k : κ) (a b : α)

theorem insert_insert : (m.insert k a).insert k b = m.insert k b := by
  apply ext_get?
  intro j
  simp only [get?_insert]
  split <;> rfl

theorem erase_insert : (m.insert k a).erase k = m.erase k := by
  apply ext_get?
  intro j
  simp only [get?_insert, get?_erase]
  split <;> rfl

theorem insert_erase : (m.erase k).insert k a = m.insert k a := by
  apply ext_get?
  intro j
  simp only [get?_insert, get?_erase]
  split <;> rfl

end Again

/-- The keys are those that have a value. -/
theorem keys_congr {m n : SortedMap κ α} (h : ∀ k, m.contains k = n.contains k) :
    m.keys = n.keys := by
  have hunit : m.mapValues (fun _ => ()) = n.mapValues fun _ => () := by
    apply ext_get?
    intro k
    have hk := h k
    simp only [contains] at hk
    rw [get?_mapValues, get?_mapValues]
    cases hm : m.get? k <;> cases hn : n.get? k <;> simp_all
  have hkeys : ∀ m : SortedMap κ α, (m.mapValues fun _ => ()).keys = m.keys := by
    intro m
    simp [keys, mapValues, Function.comp_def]
  rw [← hkeys m, hunit, hkeys n]

end SortedMap

end ToolGate
