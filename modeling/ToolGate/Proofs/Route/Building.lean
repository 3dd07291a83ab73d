import ToolGate.Proofs.Route.Rows

/-!
# Building groups and tables by changes

A stored group is brought into form at once. The same group comes about check by check: the first
check is registered, the others are stacked in their order, and the mode is set if it can be. So
nothing that is read from a file is out of reach of changes, and the tables that changes lead to
from the empty one are those whose groups are all in form.

* `Group.normalize_concat`, `Group.normalize_eq_foldl_push`: bringing into form, check by check;
* `Group.normalize_of_two_le`: the mode that is set in the end;
* `Change.applyAll`, `Change.building`: changes of which none is refused, and those that build a
  group;
* `Change.applyAll_stacks`, `Change.applyAll_building`: what they lead to;
* `Table.wellFormed_iff_built`: the tables that are built;
* `Table.normalize_eq_built`: all of it together.
-/

namespace ToolGate.Route

/-! ## Groups -/

namespace Group

/-- A protocol is bound in the form of a group if a check of the group has it. -/
theorem binds_normalize_iff {g : Group} {p : Protocol} :
    g.normalize.binds p = true ↔ ∃ b ∈ g.bindings, b.protocol = p := by
  have hfirst : ∀ (seen : List Protocol) (bs : List Binding),
      (∃ b ∈ firstPerProtocol seen bs, b.protocol = p) ↔
        p ∉ seen ∧ ∃ b ∈ bs, b.protocol = p := by
    intro seen bs
    induction bs generalizing seen with
    | nil => simp [firstPerProtocol]
    | cons b bs ih =>
      unfold firstPerProtocol
      by_cases hb : b.protocol ∈ seen
      · -- a check that is passed over has a protocol in `seen`
        have hne : p ∉ seen → b.protocol ≠ p := fun hp heq => hp (heq ▸ hb)
        rw [if_pos (by simpa using hb), ih]
        simp only [List.mem_cons, exists_eq_or_imp]
        exact and_congr_right fun hp => (or_iff_right (hne hp)).symm
      · rw [if_neg (by simpa using hb)]
        simp only [List.mem_cons, exists_eq_or_imp, ih, not_or]
        constructor
        · rintro (rfl | ⟨⟨_, hp⟩, hrest⟩)
          · exact ⟨hb, .inl rfl⟩
          · exact ⟨hp, .inr hrest⟩
        · rintro ⟨hp, hpb | hrest⟩
          · exact .inl hpb
          · by_cases hpb : p = b.protocol
            · exact .inl hpb.symm
            · exact .inr ⟨⟨hpb, hp⟩, hrest⟩
  have hbinds : g.normalize.binds p = true ↔
      ∃ b ∈ firstPerProtocol [] g.bindings, b.protocol = p := by
    simp [binds, normalize]
  rw [hbinds, hfirst]
  simp

/-- After a check was pushed, its protocol is bound beside those that were. -/
theorem binds_push_iff {g : Group} {b : Binding} {p : Protocol} :
    (g.push b).binds p = true ↔ b.protocol = p ∨ g.binds p = true := by
  cases hb : g.binds b.protocol with
  | true =>
    rw [push_of_binds hb]
    refine (or_iff_right_of_imp ?_).symm
    rintro rfl
    exact hb
  | false =>
    rw [binds, bindings_push hb, or_comm]
    simp [binds]

/-- Bringing a group into form is adding its checks one by one, as long as no mode is asked for. -/
theorem normalize_concat (bs : List Binding) (b : Binding) :
    normalize ⟨.single, bs ++ [b]⟩ = (normalize ⟨.single, bs⟩).push b := by
  have hconcat : firstPerProtocol [] (bs ++ [b]) = firstPerProtocol [] bs ++
      if ∀ c ∈ bs, c.protocol ≠ b.protocol then [b] else [] := by
    rw [firstPerProtocol_concat]
    simp
  have hbinds := binds_normalize_iff (g := ⟨.single, bs⟩) (p := b.protocol)
  by_cases hnew : ∀ c ∈ bs, c.protocol ≠ b.protocol
  · have hfree : (normalize ⟨.single, bs⟩).binds b.protocol = false := by
      rw [← Bool.not_eq_true, hbinds]
      rintro ⟨c, hc, heq⟩
      exact hnew c hc heq
    -- a group without checks stays `single` when it grows, every other one asks for all of them
    have hmode : ∀ n, fitMode (fitMode .single n) (n + 1) = fitMode .single (n + 1) := by
      intro n
      by_cases hzero : n = 0
      · rw [hzero]
        rfl
      · have hall : fitMode .single (n + 1) = .all := by
          rw [fitMode_of_pos (Nat.succ_pos n), if_neg (by omega), if_pos rfl]
        rw [hall, fitMode_of_pos (Nat.succ_pos n), if_neg (by omega)]
        unfold fitMode
        split <;> rfl
    have hempty : (normalize ⟨.single, bs⟩).size = 0 → (normalize ⟨.single, bs⟩).mode = .single := by
      intro hzero
      have hlength : (firstPerProtocol [] bs).length = 0 := hzero
      have hmode : fitMode .single (firstPerProtocol [] bs).length = .single := by
        rw [hlength]
        rfl
      exact hmode
    rw [push_eq_fitMode hfree hempty]
    unfold normalize
    simp only [hconcat, if_pos hnew, size, List.length_append, List.length_singleton, hmode]
  · have hbound : (normalize ⟨.single, bs⟩).binds b.protocol = true := by
      rw [hbinds]
      simpa using hnew
    rw [push_of_binds hbound]
    unfold normalize
    simp only [hconcat, if_neg hnew, List.append_nil]

/-- The first check begins a group and the others are added to it in their order. -/
theorem normalize_eq_foldl_push (b : Binding) (bs : List Binding) :
    normalize ⟨.single, b :: bs⟩ = bs.foldl push (single b) := by
  -- from the back, as the last check is the one pushed last
  induction bs using List.reverseRecOn with
  | nil => rfl
  | append_singleton bs c ih =>
    rw [List.foldl_append, ← ih, ← List.cons_append, normalize_concat]
    rfl

/-- Checks of two protocols are left if a check of another protocol follows the first one. -/
theorem two_le_size_normalize_iff {m : Mode} {b : Binding} {bs : List Binding} :
    2 ≤ (normalize ⟨m, b :: bs⟩).size ↔ ∃ c ∈ bs, c.protocol ≠ b.protocol := by
  have hnil : ∀ bs : List Binding, firstPerProtocol [b.protocol] bs = [] ↔
      ∀ c ∈ bs, c.protocol = b.protocol := by
    intro bs
    induction bs with
    | nil => simp [firstPerProtocol]
    | cons c bs ih =>
      unfold firstPerProtocol
      by_cases hc : c.protocol = b.protocol
      · simp [hc, ih]
      · simp [hc]
  have hsize : (normalize ⟨m, b :: bs⟩).size = (firstPerProtocol [b.protocol] bs).length + 1 := by
    simp [normalize, size, firstPerProtocol]
  have hpos : 2 ≤ (firstPerProtocol [b.protocol] bs).length + 1 ↔
      firstPerProtocol [b.protocol] bs ≠ [] := by
    rw [← List.length_pos_iff]
    omega
  rw [hsize, hpos, Ne, hnil]
  push Not
  rfl

/-- A mode other than `single` is taken over where there are two checks. -/
theorem normalize_of_two_le {m : Mode} {bs : List Binding} (hm : m ≠ .single)
    (htwo : 2 ≤ (normalize ⟨.single, bs⟩).size) :
    normalize ⟨m, bs⟩ = { normalize ⟨.single, bs⟩ with mode := m } := by
  have hsize : ¬(firstPerProtocol [] bs).length < 2 := Nat.not_lt.2 htwo
  unfold normalize
  simp [fitMode, hm, hsize]

/-- Elsewhere the mode that is asked for makes no difference. -/
theorem normalize_of_not_two_le {m : Mode} {bs : List Binding}
    (h : ¬(2 ≤ (normalize ⟨.single, bs⟩).size ∧ m ≠ .single)) :
    normalize ⟨m, bs⟩ = normalize ⟨.single, bs⟩ := by
  by_cases hm : m = .single
  · rw [hm]
  · have hsize : (firstPerProtocol [] bs).length < 2 := Nat.not_le.1 fun htwo => h ⟨htwo, hm⟩
    unfold normalize
    simp [fitMode, hsize]

/-- A group in form is left as it is, and so is the form of a group without checks. -/
theorem normalize_normalize (g : Group) : g.normalize.normalize = g.normalize := by
  by_cases hg : g.bindings = []
  · simp [normalize, hg, firstPerProtocol, fitMode]
  · exact normalize_eq_self (wellFormed_normalize hg)

end Group

/-! ## Changes -/

namespace Change

/-- Makes changes one after another, and says what they did; the first one that is refused ends it.
-/
def applyAll (t : Table) : List Change → Except Error (List Outcome × Table)
  | [] => .ok ([], t)
  | c :: cs =>
    match c.apply t with
    | .error e => .error e
    | .ok (o, t₁) => (applyAll t₁ cs).map fun r => (o :: r.1, r.2)

/-- The changes that build a group at a key: its first check is registered and the others are
stacked in their order. Then the mode is set, if one is asked for and two protocols are bound. -/
def building (k : Key) (g : Group) : List Change :=
  match g.bindings with
  | [] => []
  | b :: bs =>
    .register k b :: (bs.map (.stack k) ++
      if (∃ c ∈ bs, c.protocol ≠ b.protocol) ∧ g.mode ≠ .single then [.setMode k g.mode] else [])

/-- What is said of checks that are stacked where the protocols in `seen` are bound: a check of a
protocol that is bound by then changes nothing. -/
def stackedOutcomes (seen : List Protocol) : List Binding → List Outcome
  | [] => []
  | b :: bs =>
    .stacked (if b.protocol ∈ seen then .alreadyBound else .added) ::
      stackedOutcomes (b.protocol :: seen) bs

/-- What is said of the changes that build a group. -/
def buildingOutcomes (g : Group) : List Outcome :=
  match g.bindings with
  | [] => []
  | b :: bs =>
    .registered :: (stackedOutcomes [b.protocol] bs ++
      if (∃ c ∈ bs, c.protocol ≠ b.protocol) ∧ g.mode ≠ .single then [.modeSet] else [])

variable {t t₁ t' : Table} {c : Change} {o : Outcome} {cs ds : List Change} {os ps : List Outcome}
  {k : Key} {g : Group}

theorem applyAll_cons (h : Effect t c o t₁) (hs : applyAll t₁ cs = .ok (os, t')) :
    applyAll t (c :: cs) = .ok (o :: os, t') := by
  simp only [applyAll, apply_of_effect h, hs]
  rfl

/-- Changes that are all made begin with one that has an effect. -/
theorem exists_of_applyAll_cons (h : applyAll t (c :: cs) = .ok (os, t')) :
    ∃ o t₁ os', Effect t c o t₁ ∧ applyAll t₁ cs = .ok (os', t') ∧ os = o :: os' := by
  rw [applyAll] at h
  rcases hc : c.apply t with e | ⟨o, t₁⟩
  · simp [hc] at h
  · rcases hcs : applyAll t₁ cs with e | ⟨os', t₂⟩
    · simp [hc, hcs, Except.map] at h
    · have heq : o :: os' = os ∧ t₂ = t' := by simpa [hc, hcs, Except.map] using h
      obtain ⟨rfl, rfl⟩ := heq
      exact ⟨o, t₁, os', apply_eq_ok_iff.1 hc, hcs, rfl⟩

/-- One run of changes after another. -/
theorem applyAll_append (h : applyAll t cs = .ok (os, t₁)) (hs : applyAll t₁ ds = .ok (ps, t')) :
    applyAll t (cs ++ ds) = .ok (os ++ ps, t') := by
  induction cs generalizing t os with
  | nil =>
    cases h
    exact hs
  | cons c cs ih =>
    rcases exists_of_applyAll_cons h with ⟨o, t₂, os', heffect, hcs, rfl⟩
    exact applyAll_cons heffect (ih hcs)

/-- Changes of which none is refused keep groups in form. -/
theorem wellFormed_of_applyAll (h : applyAll t cs = .ok (os, t')) (ht : t.WellFormed) :
    t'.WellFormed := by
  induction cs generalizing t os with
  | nil =>
    cases h
    exact ht
  | cons c cs ih =>
    rcases exists_of_applyAll_cons h with ⟨o, t₁, os', heffect, hcs, -⟩
    exact ih hcs (heffect.wellFormed ht)

/-- A check that is said to be bound already is stacked without any effect. -/
theorem eq_of_alreadyBound {b : Binding}
    (h : (Change.stack k b).apply t = .ok (.stacked .alreadyBound, t')) : t' = t := by
  cases apply_eq_ok_iff.1 h with
  | stackedBefore => rfl

/-! ### Building a group -/

/-- Stacking checks onto a group adds them one by one; the invariant is that `seen` has the
protocols that are bound so far. -/
theorem applyAll_stacks {seen : List Protocol} (hseen : ∀ p, g.binds p = true ↔ p ∈ seen)
    (bs : List Binding) :
    applyAll (t.insert k g) (bs.map (.stack k)) =
      .ok (stackedOutcomes seen bs, t.insert k (bs.foldl Group.push g)) := by
  induction bs generalizing g seen with
  | nil => rfl
  | cons b bs ih =>
    have hget : (t.insert k g).get? k = some g := SortedMap.get?_insert_self t k g
    have hnext : ∀ p, (g.push b).binds p = true ↔ p ∈ b.protocol :: seen := by
      intro p
      rw [Group.binds_push_iff, hseen, List.mem_cons, eq_comm]
    rw [List.map_cons, stackedOutcomes]
    by_cases hb : b.protocol ∈ seen
    · -- the protocol is bound already, so the table stays as it is
      have hbound : g.binds b.protocol = true := (hseen _).2 hb
      have hsame : g.push b = g := Group.push_of_binds hbound
      rw [if_pos hb]
      rw [hsame] at hnext
      have hrest := ih hnext
      rw [List.foldl_cons, hsame]
      exact applyAll_cons (.stackedBefore hget hbound) hrest
    · -- otherwise the check is added, and its protocol counts as seen from now on
      have hfree : g.binds b.protocol = false := by
        rw [← Bool.not_eq_true, hseen]
        exact hb
      have hrest := ih hnext
      rw [if_neg hb]
      refine applyAll_cons (.stacked hget hfree) ?_
      rw [SortedMap.insert_insert]
      exact hrest

/-- The changes that build a group are not refused where the key has none, and lead to the form that
the group is brought into when it is read. -/
theorem applyAll_building (hfree : t.get? k = none) (hg : g.bindings ≠ []) :
    applyAll t (building k g) = .ok (buildingOutcomes g, t.insert k g.normalize) := by
  obtain ⟨m, bindings⟩ := g
  rcases List.exists_cons_of_ne_nil hg with ⟨b, bs, rfl⟩
  have hbinds : ∀ p, (Group.single b).binds p = true ↔ p ∈ [b.protocol] := by
    intro p
    -- at first only the protocol of the first check is bound
    have hone : (Group.single b).binds p = true ↔ b.protocol = p := by
      simp [Group.single, Group.binds]
    rw [hone, List.mem_singleton]
    exact eq_comm
  have hstacks := applyAll_stacks (t := t) (k := k) hbinds bs
  rw [← Group.normalize_eq_foldl_push] at hstacks
  unfold building buildingOutcomes
  simp only
  refine applyAll_cons (.registered hfree) (applyAll_append hstacks ?_)
  -- what is left is the mode
  by_cases hset : (∃ c ∈ bs, c.protocol ≠ b.protocol) ∧ m ≠ .single
  · have htwo : 2 ≤ (Group.normalize ⟨.single, b :: bs⟩).size :=
      Group.two_le_size_normalize_iff.2 hset.1
    have hget := SortedMap.get?_insert_self t k (Group.normalize ⟨.single, b :: bs⟩)
    rw [if_pos hset, if_pos hset, Group.normalize_of_two_le hset.2 htwo]
    refine applyAll_cons (.modeSet hget hset.2 htwo) ?_
    rw [SortedMap.insert_insert]
    rfl
  · have hnot : ¬(2 ≤ (Group.normalize ⟨.single, b :: bs⟩).size ∧ m ≠ .single) := by
      rw [Group.two_le_size_normalize_iff]
      exact hset
    rw [if_neg hset, if_neg hset, Group.normalize_of_not_two_le hnot]
    rfl

end Change

/-! ## Tables -/

namespace Table

variable {t : Table}

/-- Groups at different keys are built one after another. -/
theorem applyAll_flatMap_building {l : List (Key × Group)} (hkeys : (l.map Prod.fst).Nodup)
    (hgroups : ∀ e ∈ l, e.2.WellFormed) (hfree : ∀ e ∈ l, t.get? e.1 = none) :
    Change.applyAll t (l.flatMap fun e => Change.building e.1 e.2) =
      .ok (l.flatMap fun e => Change.buildingOutcomes e.2,
        l.foldl (fun t e => t.insert e.1 e.2) t) := by
  induction l generalizing t with
  | nil => rfl
  | cons e l ih =>
    rw [List.map_cons, List.nodup_cons] at hkeys
    rw [List.forall_mem_cons] at hgroups hfree
    have hhead := Change.applyAll_building hfree.1 hgroups.1.nonempty
    rw [Group.normalize_eq_self hgroups.1] at hhead
    -- the keys of the others are still free
    have hrest : ∀ d ∈ l, (t.insert e.1 e.2).get? d.1 = none := by
      intro d hd
      have hne : e.1 ≠ d.1 := fun heq => hkeys.1 (heq ▸ List.mem_map_of_mem hd)
      rw [SortedMap.get?_insert, if_neg hne]
      exact hfree.2 d hd
    rw [List.flatMap_cons, List.flatMap_cons, List.foldl_cons]
    exact Change.applyAll_append hhead (ih hkeys.2 hgroups.2 hrest)

/-- The tables whose groups are all in form are those that are built from the empty one. -/
theorem wellFormed_iff_built :
    t.WellFormed ↔ ∃ cs os, Change.applyAll ∅ cs = .ok (os, t) := by
  constructor
  · intro ht
    have hgroups : ∀ e ∈ t.entries, e.2.WellFormed := by
      intro e he
      exact ht e.1 e.2 (SortedMap.mem_entries.1 he)
    have hfree : ∀ e ∈ t.entries, (∅ : Table).get? e.1 = none := fun e _ =>
      SortedMap.get?_empty e.1
    have hbuilt := applyAll_flatMap_building t.nodup_keys hgroups hfree
    rw [SortedMap.foldl_insert_entries] at hbuilt
    exact ⟨_, _, hbuilt⟩
  · rintro ⟨cs, os, hbuilt⟩
    exact Change.wellFormed_of_applyAll hbuilt wellFormed_empty

/-- A stored group is brought into the form that its checks lead to when the first one is
registered, the others are stacked in their order, those of protocols that are bound by then without
any effect, and the mode is set if there is one to set. So the table of any stored rows, and of any
text that is read as a table, is one that changes lead to from the empty one, none of them refused,
as is every other table whose groups are in form, and no table beside these. And a group that was
brought into form stays as it is. -/
theorem normalize_eq_built :
    (∀ (t : Table) (k : Key) (g : Group), t.get? k = none → g.bindings ≠ [] →
      Change.applyAll t (Change.building k g) =
        .ok (Change.buildingOutcomes g, t.insert k g.normalize)) ∧
    (∀ (t t' : Table) (k : Key) (b : Binding),
      (Change.stack k b).apply t = .ok (.stacked .alreadyBound, t') → t' = t) ∧
    (∀ rows : List Row, ∃ cs os, Change.applyAll ∅ cs = .ok (os, ofRows rows)) ∧
    (∀ (s : String) (t : Table), parse s = .ok t →
      ∃ cs os, Change.applyAll ∅ cs = .ok (os, t)) ∧
    (∀ t : Table, t.WellFormed ↔ ∃ cs os, Change.applyAll ∅ cs = .ok (os, t)) ∧
    ∀ g : Group, g.normalize.normalize = g.normalize := by
  have hrows : ∀ rows : List Row, ∃ cs os, Change.applyAll ∅ cs = .ok (os, ofRows rows) := by
    intro rows
    exact wellFormed_iff_built.1 (wellFormed_ofRows rows)
  refine ⟨?_, ?_, hrows, ?_, ?_, Group.normalize_normalize⟩
  · intro t k g hfree hg
    exact Change.applyAll_building hfree hg
  · intro t t' k b h
    exact Change.eq_of_alreadyBound h
  · intro s t hs
    rcases parse_eq_ok_iff.1 hs with ⟨_, rows, _, _, hstands⟩
    rw [standsFor_iff.1 hstands]
    exact hrows rows
  · intro t
    exact wellFormed_iff_built

/-- A stored group of two protocols, one of them three times, and a mode; it is built in a table
that has a group at another key. A check of a protocol that is there changes nothing then, and a
table that is read from a text is built as well. -/
theorem normalize_eq_built_of_repeated_protocol :
    let k : Key := ⟨"docs", "search"⟩
    let flow : Binding := ⟨.flow, "f", "e"⟩
    let again : Binding := ⟨.flow, "g", "e"⟩
    let approval : Binding := ⟨.approval, "a", "e"⟩
    let stored : Group := ⟨.any, [flow, again, approval, ⟨.flow, "h", "e"⟩]⟩
    let t : Table := (∅ : Table).insert (.all "docs") (.single approval)
    let built : Table := t.insert k stored.normalize
    (t.get? k = none ∧ stored.bindings ≠ []) ∧ stored.normalize = ⟨.any, [flow, approval]⟩ ∧
      Change.applyAll t (Change.building k stored) =
        .ok ([.registered, .stacked .alreadyBound, .stacked .added, .stacked .alreadyBound,
          .modeSet], built) ∧
      (∃ t', (Change.stack k again).apply built = .ok (.stacked .alreadyBound, t') ∧ t' = built) ∧
      parse "[]" = .ok ∅ ∧ ∃ cs os, Change.applyAll ∅ cs = .ok (os, (∅ : Table)) := by
  intro k flow again approval stored t built
  have hfree : t.get? k = none := by decide +kernel
  have hchecks : stored.bindings ≠ [] := List.cons_ne_nil _ _
  have hagain : (Change.stack k again).apply built = .ok (.stacked .alreadyBound, built) := by
    decide +kernel
  have hparse : parse "[]" = .ok ∅ := by decide +kernel
  rcases normalize_eq_built with ⟨hbuilding, hsame, -, hread, -, -⟩
  exact ⟨⟨hfree, hchecks⟩, by decide +kernel, hbuilding t k stored hfree hchecks,
    ⟨built, hagain, hsame built built k again hagain⟩, hparse, hread _ _ hparse⟩

end Table

end ToolGate.Route
