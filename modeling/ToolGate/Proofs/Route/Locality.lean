import ToolGate.Proofs.Route.Access
import ToolGate.Proofs.Route.Race

/-!
# Changes act on one group

A change looks at the group of its key and at nothing else, and this is the only group that it gives
or takes away. So whatever it does to a table is what it makes of one group, and changes of
different keys do not see each other.

* `Change.onGroup`: what a change makes of one group;
* `Change.apply_eq_onGroup`: that this is all it does to a table;
* `Change.get?_next_self`, `Change.get?_next_of_ne`: the groups after a change;
* `Change.next_comm`: changes of different keys in either order;
* `Change.independent_changes`: what two changes of different keys, and the calls that are not
  subject to the group of a change, can tell of them.
-/

namespace ToolGate.Route

/-! ## One group of a table -/

namespace Table

/-- The table in which a key has the group that is given, or none. -/
def put (t : Table) (k : Key) : Option Group → Table
  | some g => t.insert k g
  | none => t.erase k

@[simp] theorem put_some (t : Table) (k : Key) (g : Group) : t.put k (some g) = t.insert k g := rfl

@[simp] theorem put_none (t : Table) (k : Key) : t.put k none = t.erase k := rfl

/-- Only the key that is given a group, or none, has another one than before. -/
theorem get?_put (t : Table) (k j : Key) (g : Option Group) :
    (t.put k g).get? j = if k = j then g else t.get? j := by
  cases g with
  | some g => exact SortedMap.get?_insert t k j g
  | none => exact SortedMap.get?_erase t k j

/-- Giving a key the group that it has changes nothing. -/
theorem put_get? (t : Table) (k : Key) : t.put k (t.get? k) = t := by
  apply SortedMap.ext_get?
  intro j
  rw [get?_put]
  by_cases hj : k = j
  · rw [if_pos hj, hj]
  · rw [if_neg hj]

end Table

namespace Change

/-! ## What a change makes of one group -/

/-- What a change answers for the group of its key and what it makes of it, where the key may have
no group before or after. -/
def onGroup : Change → Option Group → Except Error (Outcome × Option Group)
  | .register _ b, none => .ok (.registered, some (.single b))
  | .register k _, some _ => .error (.alreadyExists k)
  | .stack k _, none => .error (.notFound k "route group")
  | .stack _ b, some g =>
    .ok (if g.binds b.protocol then (.stacked .alreadyBound, some g)
      else (.stacked .added, some (g.push b)))
  | .setMode k _, none => .error (.notFound k "route group")
  | .setMode k m, some g =>
    if m = .single then .error (.invalidState k Table.singleImplied)
    else if g.size < 2 then .error (.invalidState k (Table.tooSmall m g.size))
    else .ok (.modeSet, some { g with mode := m })
  | .unstack k _, none => .error (.notFound k "route group")
  | .unstack k p, some g =>
    if g.binds p then
      .ok (if (g.remove p).isEmpty then (.unstacked .groupDeleted, none)
        else (.unstacked (.remaining (g.remove p).size), some (g.remove p)))
    else .error (.notFound k (p.name ++ " binding"))
  | .clear _, g => .ok (.cleared g.isSome, none)
  | .ensure _ b, none => .ok (.ensured .registered, some (.single b))
  | .ensure _ b, some g =>
    .ok (if g.binds b.protocol then (.ensured .alreadyBound, some g)
      else (.ensured .stacked, some (g.push b)))

variable {t : Table} {c d : Change}

/-- The table in which the key of a change has what the change makes of its group. -/
def putIn (t : Table) (c : Change) (r : Outcome × Option Group) : Outcome × Table :=
  (r.1, t.put c.key r.2)

/-- Where the key of a change has no group. -/
theorem apply_of_free (hfree : t.get? c.key = none) :
    c.apply t = (c.onGroup none).map (putIn t c) := by
  -- each operation looks its group up first, and there is none
  cases c
  all_goals simp only [key] at hfree
  case register k b => rw [apply, Table.register_of_free b hfree]; rfl
  case stack k b => rw [apply, Table.stack_of_free b hfree]; rfl
  case setMode k m => rw [apply, Table.setMode_of_free m hfree]; rfl
  case unstack k p => rw [apply, Table.unstack_of_free p hfree]; rfl
  case ensure k b => rw [apply, Table.ensure_of_free b hfree]; rfl
  case clear k =>
    have hcontains : t.contains k = false := by simp [SortedMap.contains, hfree]
    simp [apply, Table.clear, hcontains, onGroup, putIn, Except.map, key]

/-- Where the key of a change has a group. -/
theorem apply_of_get? {g : Group} (hg : t.get? c.key = some g) :
    c.apply t = (c.onGroup (some g)).map (putIn t c) := by
  -- putting in the group that is there leaves the table as it is
  have hsame : t.insert c.key g = t := SortedMap.insert_eq_self_iff.2 hg
  -- the same cases with the group that the operation finds
  cases c
  all_goals simp only [key] at hg hsame
  case register k b => rw [apply, Table.register_of_get? b hg]; rfl
  case stack k b =>
    rw [apply, Table.stack_of_get? b hg]
    cases hb : g.binds b.protocol <;> simp [onGroup, hb, Except.map, putIn, key, hsame]
  case setMode k m =>
    rw [apply, Table.setMode_of_get? m hg]
    by_cases hm : m = .single
    · simp [onGroup, hm, Except.map]
    · by_cases hsize : g.size < 2 <;> simp [onGroup, hm, hsize, Except.map, putIn, key]
  case unstack k p =>
    rw [apply, Table.unstack_of_get? p hg]
    cases hp : g.binds p with
    | false => simp [onGroup, hp, Except.map]
    | true =>
      cases hrest : (g.remove p).isEmpty <;>
        simp [onGroup, hp, hrest, Except.map, putIn, key]
  case clear k =>
    have hcontains : t.contains k = true := by simp [SortedMap.contains, hg]
    simp [apply, Table.clear, hcontains, onGroup, putIn, Except.map, key]
  case ensure k b =>
    rw [apply, Table.ensure_of_get? b hg]
    cases hb : g.binds b.protocol <;> simp [onGroup, hb, Except.map, putIn, key, hsame]

/-- A change does nothing to a table but what it makes of one group. -/
theorem apply_eq_onGroup (t : Table) (c : Change) :
    c.apply t = (c.onGroup (t.get? c.key)).map (putIn t c) := by
  cases hg : t.get? c.key with
  | none => exact apply_of_free hg
  | some g => exact apply_of_get? hg

/-- The group of its key after a change, which is the one before if the change is refused. -/
def groupAfter (c : Change) (g : Option Group) : Option Group :=
  match c.onGroup g with
  | .ok r => r.2
  | .error _ => g

/-- So it answers what it answers for the group of its key. -/
theorem result_eq (t : Table) (c : Change) :
    c.result t = (c.onGroup (t.get? c.key)).map (·.1) := by
  unfold result
  rw [apply_eq_onGroup]
  cases c.onGroup (t.get? c.key) <;> rfl

/-- The table after it is the one in which its key has what it makes of the group. -/
theorem next_eq (t : Table) (c : Change) :
    c.next t = t.put c.key (c.groupAfter (t.get? c.key)) := by
  unfold next groupAfter
  rw [apply_eq_onGroup]
  cases c.onGroup (t.get? c.key) with
  | ok r => rfl
  | error e => exact (Table.put_get? t c.key).symm

/-- Its key then has the group after the change. -/
theorem get?_next_self (t : Table) (c : Change) :
    (c.next t).get? c.key = c.groupAfter (t.get? c.key) := by
  rw [next_eq, Table.get?_put, if_pos rfl]

/-- A change leaves the groups of all other keys as they are. -/
theorem get?_next_of_ne {j : Key} (hj : c.key ≠ j) : (c.next t).get? j = t.get? j := by
  rw [next_eq, Table.get?_put, if_neg hj]

/-! ## Changes of different keys -/

/-- A change of another key before it makes no difference to what a change answers. -/
theorem result_next_of_ne (hkey : c.key ≠ d.key) : d.result (c.next t) = d.result t := by
  rw [result_eq, result_eq, get?_next_of_ne hkey]

/-- Changes of different keys lead to the same table in either order. -/
theorem next_comm (hkey : c.key ≠ d.key) : d.next (c.next t) = c.next (d.next t) := by
  -- what the first of two changes makes of its key is left alone by the second one
  have hfirst : ∀ {c d : Change}, c.key ≠ d.key →
      (d.next (c.next t)).get? c.key = (c.next (d.next t)).get? c.key := by
    intro c d hkey
    rw [get?_next_of_ne hkey.symm, get?_next_self, get?_next_self, get?_next_of_ne hkey.symm]
  apply SortedMap.ext_get?
  intro j
  by_cases hc : c.key = j
  · rw [← hc]
    exact hfirst hkey
  · by_cases hd : d.key = j
    · rw [← hd]
      exact (hfirst hkey.symm).symm
    · rw [get?_next_of_ne hd, get?_next_of_ne hc, get?_next_of_ne hc, get?_next_of_ne hd]

/-- The checks of a call that is not subject to the group of a change stay as they are. -/
theorem applicable_next {service tool : String}
    (hcall : service ≠ c.key.service ∨ c.key.tool ≠ "*" ∧ c.key.tool ≠ tool) :
    (c.next t).applicable service tool = t.applicable service tool := by
  apply Table.applicable_congr
  intro j hservice htool
  apply get?_next_of_ne
  -- a group that the call is subject to has the service of the call, and its tool or the wildcard
  rintro rfl
  rcases hcall with hother | ⟨hwild, hown⟩
  · exact hother hservice
  · exact htool.elim hwild hown

/-- One change, against any other one of a different key and against any call. Whichever of two
changes of different keys comes first, and whether they are refused or not, both give the answers
that they give alone, and the table is the same in the end; so it is on every store that keeps
tables. No change touches the group of another key, or the checks of a call of another service or,
if its key is that of one tool, of another tool. -/
theorem independent_changes (t : Table) (c : Change) :
    (∀ d : Change, c.key ≠ d.key →
      c.result (d.next t) = c.result t ∧ d.result (c.next t) = d.result t ∧
        d.next (c.next t) = c.next (d.next t)) ∧
    (∀ d : Change, c.key ≠ d.key → t.WellFormed →
      ∀ {σ : Type} {store : Store σ} {holds : σ → Table → Prop} {s : σ},
        store.Keeps holds → holds s t →
          (d.inTurn store c s).1 = (c.inTurn store d s).1.swap ∧
            store.load (d.inTurn store c s).2 = store.load (c.inTurn store d s).2) ∧
    (∀ j, c.key ≠ j → (c.next t).get? j = t.get? j) ∧
    ∀ service tool, service ≠ c.key.service ∨ c.key.tool ≠ "*" ∧ c.key.tool ≠ tool →
      (c.next t).applicable service tool = t.applicable service tool := by
  refine ⟨?_, ?_, fun j => get?_next_of_ne, fun service tool => applicable_next⟩
  · intro d hkey
    exact ⟨result_next_of_ne hkey.symm, result_next_of_ne hkey, next_comm hkey⟩
  · intro d hkey ht σ store holds s hstore hs
    -- on a store both orders are what they are on the table that it holds
    obtain ⟨hcd, hheld⟩ := inTurn_of_keeps hstore hs ht c d
    obtain ⟨hdc, hheld'⟩ := inTurn_of_keeps hstore hs ht d c
    constructor
    · rw [hcd, hdc, result_next_of_ne hkey, result_next_of_ne hkey.symm]
      rfl
    · rw [hstore.load hheld, hstore.load hheld', next_comm hkey]

/-- A change of the checks of all tools that is refused, and one of those of a single tool that is
made, on a table in memory. Whichever comes first, the one is told the same refusal and the other
one succeeds, and one more tool has a check in the end. -/
theorem independent_changes_of_refused_and_made :
    let approval : Binding := ⟨.approval, "a", "e"⟩
    let t : Table := .ofRows [⟨⟨"docs", "*"⟩, ⟨.single, [approval]⟩⟩]
    let c : Change := .unstack ⟨"docs", "*"⟩ .flow
    let d : Change := .register ⟨"docs", "search"⟩ approval
    c.key ≠ d.key ∧ t.WellFormed ∧ Store.memory.Keeps (fun s t => s = t) ∧
      (c.inTurn .memory d t).1 =
        (.error (.notFound ⟨"docs", "*"⟩ "flow binding"), .ok .registered) ∧
      (d.inTurn .memory c t).1 =
        (.ok .registered, .error (.notFound ⟨"docs", "*"⟩ "flow binding")) ∧
      (d.inTurn .memory c t).2 = (c.inTurn .memory d t).2 ∧
      (d.inTurn .memory c t).2.rows.map (·.key.text) = ["docs/*", "docs/search"] ∧
      (d.next t).applicable "docs" "delete" = t.applicable "docs" "delete" := by
  intro approval t c d
  have hkey : c.key ≠ d.key := by decide
  have ht : t.WellFormed := Table.wellFormed_ofRows _
  obtain ⟨-, horders, -, -⟩ := independent_changes t c
  obtain ⟨hresults, hloads⟩ := horders d hkey ht Store.memory_keeps rfl
  have hcd : (c.inTurn .memory d t).1 =
      (.error (.notFound ⟨"docs", "*"⟩ "flow binding"), .ok .registered) := by decide +kernel
  rw [hcd] at hresults
  obtain ⟨-, -, -, hcalls⟩ := independent_changes t d
  exact ⟨hkey, ht, Store.memory_keeps, hcd, hresults, Except.ok.inj hloads, by decide +kernel,
    hcalls "docs" "delete" (.inr (by decide))⟩

end Change

end ToolGate.Route
