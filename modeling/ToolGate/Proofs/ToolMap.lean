import ToolGate.ToolMap

/-!
# Walks over sorted maps

A sorted map is filled, and its values are put elsewhere, by a walk over its entries. The keys of a
map are all different, so such a walk writes every key once.

* `SortedMap.nodup_keys`, `ToolMap.nodup_keys`: no key occurs twice;
* `ToolMap.mem_triples`: the triples of a tool map are the graph of its view;
* `view_foldl_of_nodup`: what a walk that writes every key once leaves behind;
* `view_foldl_last`: in a walk that may write a place again, the last write counts;
* `findSome?_reverse_eq_some_iff`: the item that writes last;
* `ToolMap.find?_foldl_entries`, `ToolMap.find?_foldl_triples`: the same for the view of a tool map;
* `SortedMap.foldl_insert_entries`: a map is filled again by its own entries;
* `ToolMap.ext_find?`: a tool map is determined by its view and the services it lists.
-/

namespace ToolGate

universe u v w x

/-! ## Walks and views -/

section Walk

variable {σ : Type u} {ε : Type v} {α : Type w}

/-- If every item of a list writes at its own key, and no key comes twice, then what stands at a key
afterwards is what the one item of that key makes of what stood there. -/
theorem view_foldl_of_nodup {κ : Type x} [DecidableEq κ] (view : σ → κ → Option α)
    {step : σ → ε → σ} (key : ε → κ) (write : ε → Option α → Option α)
    (hstep : ∀ m e k, view (step m e) k = if key e = k then write e (view m k) else view m k)
    {l : List ε} (hl : (l.map key).Nodup) (m : σ) (k : κ) :
    view (l.foldl step m) k =
      match l.find? (fun e => key e = k) with
      | some e => write e (view m k)
      | none => view m k := by
  induction l generalizing m with
  | nil => rfl
  | cons e l ih =>
    rw [List.map_cons, List.nodup_cons] at hl
    rw [List.foldl_cons, ih hl.2, hstep]
    by_cases he : key e = k
    · -- the key of `e` comes no more, so the rest of the walk leaves it alone
      have hrest : l.find? (fun e => key e = k) = none := by
        rw [List.find?_eq_none]
        intro d hd hk
        have hdk : key d = k := by simpa using hk
        exact hl.1 (List.mem_map.2 ⟨d, hd, hdk.trans he.symm⟩)
      simp [hrest, he]
    · simp [he]

/-- In a walk whose items may or may not write a place, the last one that writes it counts. -/
theorem view_foldl_last (view : σ → Option α) {step : σ → ε → σ} {write : ε → Option α}
    (hstep : ∀ m e, view (step m e) = (write e).or (view m)) (l : List ε) (m : σ) :
    view (l.foldl step m) = (l.reverse.findSome? write).or (view m) := by
  induction l generalizing m with
  | nil => rfl
  | cons e l ih =>
    rw [List.foldl_cons, ih, hstep, List.reverse_cons, List.findSome?_append]
    cases l.reverse.findSome? write <;> simp

/-- An answer that a list gives last is that of some item, and no later item answers. -/
theorem findSome?_reverse_eq_some_iff {f : ε → Option α} {l : List ε} {a : α} :
    l.reverse.findSome? f = some a ↔
      ∃ before e after, l = before ++ e :: after ∧ f e = some a ∧ ∀ d ∈ after, f d = none := by
  rw [List.findSome?_eq_some_iff]
  constructor
  · rintro ⟨l₁, e, l₂, hl, he, hnone⟩
    refine ⟨l₂.reverse, e, l₁.reverse, ?_, he, fun d hd => hnone d (List.mem_reverse.1 hd)⟩
    have hback := congrArg List.reverse hl
    simpa using hback
  · rintro ⟨before, e, after, rfl, he, hnone⟩
    exact ⟨after.reverse, e, before.reverse, by simp, he,
      fun d hd => hnone d (List.mem_reverse.1 hd)⟩

/-- What some item of a walk makes true, and none makes false, is true in the end exactly if it was
true before or some item makes it true. -/
theorem holds_foldl_iff (holds : σ → Prop) {step : σ → ε → σ} (makes : ε → Prop)
    (hstep : ∀ m e, holds (step m e) ↔ makes e ∨ holds m) (l : List ε) (m : σ) :
    holds (l.foldl step m) ↔ (∃ e ∈ l, makes e) ∨ holds m := by
  induction l generalizing m with
  | nil => simp
  | cons e l ih =>
    rw [List.foldl_cons, ih, hstep]
    simp only [List.mem_cons, exists_eq_or_imp]
    constructor
    · rintro (h | h | h)
      · exact Or.inl (Or.inr h)
      · exact Or.inl (Or.inl h)
      · exact Or.inr h
    · rintro ((h | h) | h)
      · exact Or.inr (Or.inl h)
      · exact Or.inl h
      · exact Or.inr (Or.inr h)

/-- Where no key comes twice, the item found for a key is the one that has it. -/
theorem find?_eq_some_iff_of_nodup {κ : Type x} [DecidableEq κ] {key : ε → κ} {l : List ε}
    (hl : (l.map key).Nodup) {k : κ} {e : ε} :
    l.find? (fun e => key e = k) = some e ↔ e ∈ l ∧ key e = k := by
  induction l with
  | nil => simp
  | cons d l ih =>
    rw [List.map_cons, List.nodup_cons] at hl
    by_cases hd : key d = k
    · simp only [List.find?_cons, hd, decide_true, Option.some.injEq, List.mem_cons]
      constructor
      · rintro rfl
        exact ⟨Or.inl rfl, hd⟩
      · rintro ⟨rfl | he, hk⟩
        · rfl
        · -- an item further on with this key would be the second one
          exact absurd (List.mem_map.2 ⟨e, he, hk.trans hd.symm⟩) hl.1
    · simp only [List.find?_cons, hd, decide_false, ih hl.2, List.mem_cons]
      constructor
      · rintro ⟨he, hk⟩
        exact ⟨Or.inr he, hk⟩
      · rintro ⟨rfl | he, hk⟩
        · exact absurd hk hd
        · exact ⟨he, hk⟩

end Walk

/-! ## Entries -/

namespace SortedMap

variable {κ : Type u} [Ord κ] [Std.TransOrd κ] [Std.LawfulEqOrd κ] {α : Type v}

omit [Std.TransOrd κ] in
/-- No key of a map occurs twice. -/
theorem nodup_keys (m : SortedMap κ α) : m.keys.Nodup := by
  unfold keys List.Nodup
  rw [List.pairwise_map]
  apply m.increasing.imp
  intro a b hab heq
  rw [heq, Std.compare_self] at hab
  contradiction

theorem mem_keys_iff {m : SortedMap κ α} {k : κ} : k ∈ m.keys ↔ (m.get? k).isSome := by
  unfold keys
  rw [List.mem_map, Option.isSome_iff_exists]
  constructor
  · rintro ⟨⟨j, a⟩, he, rfl⟩
    exact ⟨a, mem_entries.1 he⟩
  · rintro ⟨a, ha⟩
    exact ⟨(k, a), mem_entries.2 ha, rfl⟩

/-- The entry of a key, found by a walk over the entries. -/
theorem find?_entries [DecidableEq κ] (m : SortedMap κ α) (k : κ) :
    m.entries.find? (fun e => e.1 = k) = (m.get? k).map (k, ·) := by
  ext ⟨j, a⟩
  rw [find?_eq_some_iff_of_nodup m.nodup_keys, mem_entries, Option.map_eq_some_iff]
  constructor
  · rintro ⟨hj, rfl⟩
    exact ⟨a, hj, rfl⟩
  · rintro ⟨b, hb, heq⟩
    cases heq
    exact ⟨hb, rfl⟩

/-- A map is what is left when its entries are put into an empty map one by one. -/
theorem foldl_insert_entries [DecidableEq κ] (m : SortedMap κ α) :
    m.entries.foldl (fun n e => n.insert e.1 e.2) ∅ = m := by
  apply ext_get?
  intro k
  rw [view_foldl_of_nodup (fun (n : SortedMap κ α) k => n.get? k) Prod.fst (fun e _ => some e.2)
    (fun n e j => get?_insert n e.1 j e.2) m.nodup_keys, find?_entries]
  cases m.get? k <;> rfl

end SortedMap

namespace ToolMap

variable {α : Type}

/-- The triples of a tool map are the graph of its view. -/
theorem mem_triples {m : ToolMap α} {s t : String} {a : α} :
    (s, t, a) ∈ m.triples ↔ m.find? s t = some a := by
  unfold triples find?
  rw [List.mem_flatMap, Option.bind_eq_some_iff]
  constructor
  · rintro ⟨⟨s', tools⟩, hs, ht⟩
    rcases List.mem_map.1 ht with ⟨⟨t', a'⟩, ht', heq⟩
    cases heq
    exact ⟨tools, SortedMap.mem_entries.1 hs, SortedMap.mem_entries.1 ht'⟩
  · rintro ⟨tools, hs, ht⟩
    exact ⟨(s, tools), SortedMap.mem_entries.2 hs,
      List.mem_map.2 ⟨(t, a), SortedMap.mem_entries.2 ht, rfl⟩⟩

/-- No service and tool occur together twice. -/
theorem nodup_keys (m : ToolMap α) : (m.triples.map fun e => (e.1, e.2.1)).Nodup := by
  have hkeys : m.triples.map (fun e => (e.1, e.2.1)) =
      m.entries.flatMap (fun e => e.2.keys.map fun t => (e.1, t)) := by
    simp [triples, SortedMap.keys, List.map_flatMap, Function.comp_def]
  rw [hkeys]
  unfold List.Nodup
  rw [List.pairwise_flatMap]
  constructor
  · rintro ⟨s, tools⟩ _
    rw [List.pairwise_map]
    apply (SortedMap.nodup_keys tools).imp
    intro t t' hne heq
    exact hne (Prod.mk.inj heq).2
  · apply m.increasing.imp
    intro a b hab p hp q hq heq
    rcases List.mem_map.1 hp with ⟨t, _, rfl⟩
    rcases List.mem_map.1 hq with ⟨t', _, rfl⟩
    rw [(Prod.mk.inj heq).1, Std.compare_self] at hab
    contradiction

/-- The triple of a service and a tool, found by a walk over the triples. -/
theorem find?_triples (m : ToolMap α) (s t : String) :
    m.triples.find? (fun e => (e.1, e.2.1) = (s, t)) = (m.find? s t).map (s, t, ·) := by
  ext ⟨s', t', a⟩
  rw [find?_eq_some_iff_of_nodup m.nodup_keys, mem_triples, Option.map_eq_some_iff]
  constructor
  · rintro ⟨ha, heq⟩
    cases heq
    exact ⟨a, ha, rfl⟩
  · rintro ⟨b, hb, heq⟩
    cases heq
    exact ⟨hb, rfl⟩

/-- A service that has a tool is listed. -/
theorem isSome_get?_of_find? {m : ToolMap α} {s t : String} (h : (m.find? s t).isSome) :
    (m.get? s).isSome := by
  unfold find? at h
  cases hs : m.get? s with
  | none => simp [hs] at h
  | some tools => rfl

/-- A tool map is determined by its view and the services it lists. -/
theorem ext_find? {m n : ToolMap α} (hlisted : ∀ s, (m.get? s).isSome ↔ (n.get? s).isSome)
    (hview : ∀ s t, m.find? s t = n.find? s t) : m = n := by
  apply SortedMap.ext_get?
  intro s
  have hs := hlisted s
  have ht := hview s
  unfold find? at ht
  cases hm : m.get? s with
  | none =>
    cases hn : n.get? s with
    | none => rfl
    | some tools => simp [hm, hn] at hs
  | some tools =>
    cases hn : n.get? s with
    | none => simp [hm, hn] at hs
    | some tools' =>
      have heq : tools = tools' := by
        apply SortedMap.ext_get?
        intro t
        simpa [hm, hn] using ht t
      rw [heq]

/-! ## Filling tool maps -/

section Fill

variable {β : Type} (write : β → Option α → Option α)

/-- A walk over the tools of one service that writes at each of them. -/
theorem find?_foldl_entries (service : String) {step : ToolMap α → String × β → ToolMap α}
    (hstep : ∀ m e s t, (step m e).find? s t =
      if service = s ∧ e.1 = t then write e.2 (m.find? s t) else m.find? s t)
    (tools : SortedMap String β) (m : ToolMap α) (s t : String) :
    (tools.entries.foldl step m).find? s t =
      match if service = s then tools.get? t else none with
      | some b => write b (m.find? s t)
      | none => m.find? s t := by
  -- at another service every item writes back what is there
  have hstep' : ∀ m e t, (step m e).find? s t =
      if e.1 = t then (if service = s then write e.2 else id) (m.find? s t) else m.find? s t := by
    intro m e t
    rw [hstep]
    by_cases hs : service = s <;> simp [hs]
  have hwalk := view_foldl_of_nodup (fun (m : ToolMap α) t => m.find? s t) Prod.fst _ hstep'
    tools.nodup_keys m t
  rw [hwalk, SortedMap.find?_entries]
  by_cases hs : service = s
  · simp only [if_pos hs]
    cases tools.get? t <;> rfl
  · simp only [if_neg hs]
    cases tools.get? t <;> rfl

/-- A walk over the triples of a tool map that writes at each of their tools. -/
theorem find?_foldl_triples {step : ToolMap α → String × String × β → ToolMap α}
    (hstep : ∀ m e s t, (step m e).find? s t =
      if e.1 = s ∧ e.2.1 = t then write e.2.2 (m.find? s t) else m.find? s t)
    (given : ToolMap β) (m : ToolMap α) (s t : String) :
    (given.triples.foldl step m).find? s t =
      match given.find? s t with
      | some b => write b (m.find? s t)
      | none => m.find? s t := by
  have hwalk := view_foldl_of_nodup
    (fun (m : ToolMap α) (k : String × String) => m.find? k.1 k.2)
    (fun e : String × String × β => (e.1, e.2.1)) (fun e => write e.2.2)
    (fun m e k => by simpa [Prod.ext_iff] using hstep m e k.1 k.2) given.nodup_keys m (s, t)
  rw [hwalk, find?_triples]
  cases given.find? s t <;> rfl

end Fill

/-! ## Services -/

theorem isSome_get?_put (m : ToolMap α) (service tool : String) (a : α) (s : String) :
    ((m.put service tool a).get? s).isSome ↔ service = s ∨ (m.get? s).isSome := by
  unfold put
  rw [SortedMap.get?_insert]
  by_cases hs : service = s <;> simp [hs]

theorem isSome_get?_touch (m : ToolMap α) (service s : String) :
    ((m.touch service).get? s).isSome ↔ service = s ∨ (m.get? s).isSome := by
  unfold touch
  rw [SortedMap.get?_insert]
  by_cases hs : service = s <;> simp [hs]

/-- Every listed service has a tool. -/
def NoneIdle (m : ToolMap α) : Prop := ∀ s, (m.get? s).isSome → ∃ t, (m.find? s t).isSome

theorem noneIdle_empty : NoneIdle (∅ : ToolMap α) := by
  intro s hs
  simp at hs

theorem NoneIdle.put {m : ToolMap α} (hm : m.NoneIdle) (service tool : String) (a : α) :
    (m.put service tool a).NoneIdle := by
  intro s hs
  rcases (isSome_get?_put m service tool a s).1 hs with rfl | hs
  · exact ⟨tool, by simp [find?_put]⟩
  · rcases hm s hs with ⟨t, ht⟩
    refine ⟨t, ?_⟩
    rw [find?_put]
    split
    · rfl
    · exact ht

theorem NoneIdle.mapValues {β : Type} {m : ToolMap α} (hm : m.NoneIdle) (f : α → β) :
    (m.mapValues f).NoneIdle := by
  intro s hs
  have hms : (m.get? s).isSome := by simpa [ToolMap.mapValues] using hs
  rcases hm s hms with ⟨t, ht⟩
  exact ⟨t, by simpa using ht⟩

end ToolMap

end ToolGate
