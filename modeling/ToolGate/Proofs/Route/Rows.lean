import Mathlib.Data.List.Induction
import ToolGate.Proofs.Route.Access
import ToolGate.Proofs.Route.Group
import ToolGate.Proofs.Route.RoundTrip
import ToolGate.Proofs.ToolMap

/-!
# What stored rows stand for

Stored rows may repeat keys and protocols, may have no checks, and may give a mode that does not fit
the number of checks. They stand for one table all the same: a key has a group if some row of it has
checks, and the last one of these rows says what the group is. The rows that a table is written as
need none of this. They come in the order of their keys, and are read as they are, so what any text
is read as is not changed by writing and reading it again.

* `Group.firsts`, `Group.ReadAs`: what a stored group is read as;
* `Group.readAs_iff`: that this is the form it is brought into;
* `Table.get?_ofRows_eq_some_iff`: the last row of a key with checks decides;
* `Table.StandsFor`, `Table.standsFor_iff`: the table that rows stand for;
* `Table.pairwise_rows`, `Table.mem_rows_iff`: the rows of a table;
* `Table.stored_roundtrip`: reading and writing together.
-/

namespace ToolGate.Route

/-! ## Groups -/

namespace Group

/-- The checks of a list that have no check of their protocol before them. -/
def firsts (bs : List Binding) : List Binding :=
  (bs.zipIdx.filter fun e : Binding × Nat =>
    ∀ c ∈ bs.take e.2, c.protocol ≠ e.1.protocol).map Prod.fst

/-- Whether a group is what a stored group is read as: the first check of each protocol, with the
mode `single` for one check, and for more of them with the mode that is stored, but `all` in the
place of `single`. -/
structure ReadAs (stored g : Group) : Prop where
  bindings : g.bindings = firsts stored.bindings
  mode : g.mode =
    if g.bindings.length = 1 then .single else if stored.mode = .single then .all else stored.mode

/-- A further check is kept if no check before it has its protocol. -/
theorem firsts_concat (bs : List Binding) (b : Binding) :
    firsts (bs ++ [b]) =
      firsts bs ++ if ∀ c ∈ bs, c.protocol ≠ b.protocol then [b] else [] := by
  have hlast : (bs ++ [b]).take bs.length = bs := List.take_left
  unfold firsts
  rw [List.zipIdx_append, List.filter_append, List.map_append, List.zipIdx_singleton]
  congr 1
  · -- what stands before a check is the same with and without the last one
    congr 1
    apply List.filter_congr
    intro e he
    have hlt := List.snd_lt_of_mem_zipIdx he
    rw [List.take_append_of_le_length (by omega)]
  · simp only [List.filter_cons, List.filter_nil, Nat.zero_add, hlast, decide_eq_true_eq]
    split <;> rfl

/-- A further check is kept if its protocol is not in `seen` and no check before it has it. -/
theorem firstPerProtocol_concat (seen : List Protocol) (bs : List Binding) (b : Binding) :
    firstPerProtocol seen (bs ++ [b]) = firstPerProtocol seen bs ++
      if b.protocol ∉ seen ∧ ∀ c ∈ bs, c.protocol ≠ b.protocol then [b] else [] := by
  induction bs generalizing seen with
  | nil => simp [firstPerProtocol]
  | cons c bs ih =>
    rw [List.cons_append, firstPerProtocol, firstPerProtocol]
    by_cases hc : c.protocol ∈ seen
    · have hseen : seen.contains c.protocol = true := by simpa using hc
      -- the check that is passed over is of a protocol in `seen`
      have hcb : b.protocol ∉ seen → c.protocol ≠ b.protocol := by
        intro hb hcb
        exact hb (hcb ▸ hc)
      have hiff : (b.protocol ∉ seen ∧ ∀ d ∈ bs, d.protocol ≠ b.protocol) ↔
          b.protocol ∉ seen ∧ ∀ d ∈ c :: bs, d.protocol ≠ b.protocol := by
        rw [List.forall_mem_cons]
        exact and_congr_right fun hb => (and_iff_right (hcb hb)).symm
      rw [if_pos hseen, if_pos hseen, ih]
      simp only [hiff]
    · have hseen : ¬seen.contains c.protocol = true := by simpa using hc
      have hiff : (b.protocol ∉ c.protocol :: seen ∧ ∀ d ∈ bs, d.protocol ≠ b.protocol) ↔
          b.protocol ∉ seen ∧ ∀ d ∈ c :: bs, d.protocol ≠ b.protocol := by
        rw [List.forall_mem_cons, List.mem_cons, not_or, and_assoc, and_left_comm, ne_comm]
      rw [if_neg hseen, if_neg hseen, ih, List.cons_append]
      simp only [hiff]

/-- The walk that remembers the protocols it has seen keeps the first check of each. -/
theorem firstPerProtocol_eq_firsts (bs : List Binding) : firstPerProtocol [] bs = firsts bs := by
  -- from the back, where both sides look at all checks before the last one
  induction bs using List.reverseRecOn with
  | nil => rfl
  | append_singleton bs b ih =>
    rw [firstPerProtocol_concat, firsts_concat, ih]
    simp

/-- A stored group with a check is read as the form it is brought into. -/
theorem readAs_iff {stored g : Group} (h : stored.bindings ≠ []) :
    ReadAs stored g ↔ g = stored.normalize := by
  have hpos := (wellFormed_normalize h).length_pos
  have hnormalize : stored.normalize =
      ⟨fitMode stored.mode (firsts stored.bindings).length, firsts stored.bindings⟩ := by
    unfold normalize
    rw [firstPerProtocol_eq_firsts]
  rw [hnormalize] at hpos ⊢
  rw [fitMode_of_pos hpos]
  obtain ⟨mode, bindings⟩ := g
  constructor
  · rintro ⟨hbindings, hmode⟩
    rw [← hbindings, ← hmode]
  · rintro ⟨rfl, rfl⟩
    exact ⟨rfl, rfl⟩

end Group

namespace Table

/-! ## Tables -/

/-- What a row gives to a key: its group in form, if the key is its own and it has checks. -/
def Row.gives (k : Key) (r : Row) : Option Group :=
  if r.key = k ∧ r.group.bindings ≠ [] then some r.group.normalize else none

/-- What a row gives is the form of its group. -/
theorem Row.gives_eq_some_iff {k : Key} {r : Row} {g : Group} :
    r.gives k = some g ↔ r.key = k ∧ r.group.bindings ≠ [] ∧ r.group.normalize = g := by
  unfold gives
  split <;> simp_all

theorem Row.gives_eq_none_iff {k : Key} {r : Row} :
    r.gives k = none ↔ (r.key = k → r.group.bindings = []) := by
  unfold gives
  split <;> simp_all

/-- Rows are put into a table one after another, so the last one that gives something counts. -/
theorem get?_ofRows (rows : List Row) (k : Key) :
    (ofRows rows).get? k = rows.reverse.findSome? (Row.gives k) := by
  -- a row without checks is passed over, any other one is put in over what the key has
  let step : Table → Row → Table := fun t r =>
    if !r.group.isEmpty then t.insert r.key r.group.normalize else t
  have hstep : ∀ (t : Table) r, (step t r).get? k = (r.gives k).or (t.get? k) := by
    intro t r
    unfold step Row.gives
    by_cases hr : r.group.bindings = []
    · simp [hr, Group.isEmpty]
    · by_cases hk : r.key = k
      · simp [hr, hk, Group.isEmpty]
      · simp [hr, hk, Group.isEmpty, SortedMap.get?_insert]
  have hfold : ofRows rows = rows.foldl step ∅ := by
    unfold ofRows SortedMap.ofList
    rw [List.foldl_map, List.foldl_filter]
  rw [hfold, view_foldl_last (fun t : Table => t.get? k) hstep, SortedMap.get?_empty,
    Option.or_none]

/-- The group of a key is that of its last row with checks. -/
theorem get?_ofRows_eq_some_iff {rows : List Row} {k : Key} {g : Group} :
    (ofRows rows).get? k = some g ↔
      ∃ before r behind, rows = before ++ r :: behind ∧
        (r.key = k ∧ r.group.bindings ≠ [] ∧ r.group.normalize = g) ∧
        ∀ later ∈ behind, later.key = k → later.group.bindings = [] := by
  rw [get?_ofRows, findSome?_reverse_eq_some_iff]
  simp only [Row.gives_eq_some_iff, Row.gives_eq_none_iff]

/-- A key has a group if some row of it has checks. -/
theorem contains_ofRows_iff {rows : List Row} {k : Key} :
    (ofRows rows).contains k = true ↔ ∃ r ∈ rows, r.key = k ∧ r.group.bindings ≠ [] := by
  unfold SortedMap.contains
  rw [get?_ofRows, List.findSome?_isSome_iff]
  simp only [List.mem_reverse, Option.isSome_iff_exists, Row.gives_eq_some_iff]
  constructor
  · rintro ⟨r, hr, _, hk, hchecks, _⟩
    exact ⟨r, hr, hk, hchecks⟩
  · rintro ⟨r, hr, hk, hchecks⟩
    exact ⟨r, hr, r.group.normalize, hk, hchecks, rfl⟩

/-- Whether a table is the one that stored rows stand for. A key has a group if some row of it has
checks, and the group is what the last of these rows is read as. -/
structure StandsFor (rows : List Row) (t : Table) : Prop where
  contains_iff : ∀ k, t.contains k = true ↔ ∃ r ∈ rows, r.key = k ∧ r.group.bindings ≠ []
  group : ∀ before r behind, rows = before ++ r :: behind → r.group.bindings ≠ [] →
    (∀ later ∈ behind, later.key = r.key → later.group.bindings = []) →
    ∃ g, t.get? r.key = some g ∧ r.group.ReadAs g

/-- Rows stand for the table that they are put into. -/
theorem standsFor_ofRows (rows : List Row) : StandsFor rows (ofRows rows) where
  contains_iff k := contains_ofRows_iff
  group before r behind hrows hchecks hlater := by
    have hget : (ofRows rows).get? r.key = some r.group.normalize :=
      get?_ofRows_eq_some_iff.2 ⟨before, r, behind, hrows, ⟨rfl, hchecks, rfl⟩, hlater⟩
    exact ⟨r.group.normalize, hget, (Group.readAs_iff hchecks).2 rfl⟩

/-- Rows stand for one table and no other. -/
theorem standsFor_iff {rows : List Row} {t : Table} : StandsFor rows t ↔ t = ofRows rows := by
  constructor
  · intro h
    apply SortedMap.ext_get?
    intro k
    -- the key has no row with checks, or its last one says what the group is
    cases hk : (ofRows rows).get? k with
    | none =>
      -- which keys have a group is the same on both sides
      have hnot : ¬(ofRows rows).contains k = true := by simp [SortedMap.contains, hk]
      rw [contains_ofRows_iff, ← h.contains_iff k] at hnot
      simpa [SortedMap.contains] using hnot
    | some g =>
      rcases get?_ofRows_eq_some_iff.1 hk with
        ⟨before, r, behind, hrows, ⟨rfl, hchecks, rfl⟩, hlater⟩
      rcases h.group before r behind hrows hchecks hlater with ⟨g, hg, hread⟩
      rw [hg, (Group.readAs_iff hchecks).1 hread]
  · rintro rfl
    exact standsFor_ofRows rows

/-! ## Texts -/

/-- The stored text of rows. -/
def storedText (rows : List Row) : String := (Json.array (rows.map Row.toJson)).pretty

theorem render_eq (t : Table) : t.render = storedText t.rows := rfl

/-- A text is read as a table if it is read as rows, which stand for the table then. -/
theorem parse_eq_ok_iff {s : String} {t : Table} :
    parse s = .ok t ↔
      ∃ v rows, Json.parse s = .ok v ∧ Json.asList Row.ofJson v = .ok rows ∧ StandsFor rows t := by
  simp only [standsFor_iff]
  constructor
  · intro h
    cases hv : Json.parse s with
    | error e => simp [parse, hv, bind, Except.bind] at h
    | ok v =>
      cases hrows : Json.asList Row.ofJson v with
      | error e => simp [parse, ofJson, hv, hrows, bind, Except.bind] at h
      | ok rows =>
        have ht : ofRows rows = t := by
          simpa [parse, ofJson, hv, hrows, bind, Except.bind, pure, Except.pure] using h
        exact ⟨v, rows, rfl, hrows, ht.symm⟩
  · rintro ⟨v, rows, hv, hrows, rfl⟩
    simp only [parse, ofJson, hv, hrows, bind, Except.bind, pure, Except.pure]

/-- The stored text of rows is read as the table that they stand for, and never refused. -/
theorem parse_storedText (rows : List Row) : parse (storedText rows) = .ok (ofRows rows) := by
  have hparse : Json.parse (storedText rows) = .ok (.array (rows.map Row.toJson)) :=
    Json.parse_pretty (Row.readsBack.list.plain rows)
  have hrows : Json.asList Row.ofJson (.array (rows.map Row.toJson)) = .ok rows :=
    Row.readsBack.list.read_write rows
  exact parse_eq_ok_iff.2 ⟨_, rows, hparse, hrows, standsFor_ofRows rows⟩

/-- The rows of a table come in the order of their keys. -/
theorem pairwise_rows (t : Table) : t.rows.Pairwise fun r r' => r.key.Before r'.key := by
  unfold rows
  rw [List.pairwise_map]
  refine t.increasing.imp ?_
  intro a b hab
  exact Key.before_iff.2 hab

/-- A table has a row for every group, and no other one. -/
theorem mem_rows_iff {t : Table} {r : Row} : r ∈ t.rows ↔ t.get? r.key = some r.group := by
  unfold rows
  rw [List.mem_map]
  constructor
  · rintro ⟨e, he, rfl⟩
    exact SortedMap.mem_entries.1 he
  · intro hr
    exact ⟨(r.key, r.group), SortedMap.mem_entries.2 hr, rfl⟩

/-- What a text is read as is read again from the text that it is written as. -/
theorem parse_bind_render (s : String) : (parse s).bind (fun t => parse t.render) = parse s := by
  cases hs : parse s with
  | error e => rfl
  | ok t =>
    rcases parse_eq_ok_iff.1 hs with ⟨_, rows, _, _, hstands⟩
    have ht : t.WellFormed := by
      rw [standsFor_iff.1 hstands]
      exact wellFormed_ofRows rows
    exact parse_render ht

/-- The stored text of any rows is read as the one table that they stand for, and any other text
that is read as rows in the same way. A table of groups in form is read back from its own text,
which has a row for every group, in the order of the keys. So whatever text is read as a table,
writing the table and reading it again gives the same table and the same text. -/
theorem stored_roundtrip :
    (∀ rows : List Row, ∃ t, parse (storedText rows) = .ok t ∧
      ∀ t', StandsFor rows t' ↔ t' = t) ∧
    (∀ s t, parse s = .ok t ↔ ∃ v rows, Json.parse s = .ok v ∧
      Json.asList Row.ofJson v = .ok rows ∧ StandsFor rows t) ∧
    (∀ t : Table, t.WellFormed → parse t.render = .ok t ∧
      ∃ rows, t.render = storedText rows ∧ rows.Pairwise (fun r r' => r.key.Before r'.key) ∧
        ∀ r, r ∈ rows ↔ t.get? r.key = some r.group) ∧
    (∀ s, (parse s).bind (fun t => parse t.render) = parse s) ∧
    ∀ s, (parse s).bind (fun t => (parse t.render).map render) = (parse s).map render := by
  refine ⟨?_, ?_, ?_, parse_bind_render, ?_⟩
  · intro rows
    exact ⟨ofRows rows, parse_storedText rows, fun t' => standsFor_iff⟩
  · intro s t
    exact parse_eq_ok_iff
  · intro t ht
    exact ⟨parse_render ht, t.rows, t.render_eq, t.pairwise_rows, fun r => mem_rows_iff⟩
  · intro s
    -- a table that was read is read back as itself, so it is written as before
    have hread := congrArg (Except.map render) (parse_bind_render s)
    cases hs : parse s with
    | error e => rfl
    | ok t => simpa [hs, Except.bind] using hread

/-- Rows of two keys out of order, with a key twice, then without checks, and with protocols
twice. -/
theorem stored_roundtrip_of_repeated_rows :
    let search : Key := ⟨"docs", "search"⟩
    let all : Key := ⟨"docs", "*"⟩
    let approval : Binding := ⟨.approval, "a", "e"⟩
    let flow : Binding := ⟨.flow, "f", "e"⟩
    let rows : List Row :=
      [⟨search, ⟨.any, [approval, flow]⟩⟩, ⟨search, ⟨.single, [flow, approval, flow]⟩⟩,
        ⟨search, ⟨.any, []⟩⟩, ⟨all, ⟨.any, [approval, ⟨.approval, "b", "e"⟩]⟩⟩]
    let t := ofRows rows
    t.get? search = some ⟨.all, [flow, approval]⟩ ∧ t.get? all = some ⟨.single, [approval]⟩ ∧
      t.WellFormed ∧ parse t.render = .ok t ∧ StandsFor rows t := by
  intro search all approval flow rows t
  have ht : t.WellFormed := wellFormed_ofRows rows
  rcases stored_roundtrip with ⟨hrows, _, hback, _, _⟩
  rcases hrows rows with ⟨t', hparse, hstands⟩
  have hsame : t = t' := Except.ok.inj ((parse_storedText rows).symm.trans hparse)
  exact ⟨by decide +kernel, by decide +kernel, ht, (hback t ht).1, (hstands t).2 hsame⟩

end Table

end ToolGate.Route
