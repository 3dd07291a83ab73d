import ToolGate.Route.Change

/-!
# What changes do

A change is refused, or it takes a table to another one. What a change that is not refused can do is
one case for each way it can go: under which condition, with which outcome and to which table.

* `Effect`: the cases;
* `Change.apply_eq_ok_iff`: a change goes in one of these ways, or it is refused;
* `Change.result`, `Change.next`: the answer and the table after a change, also where it is
  refused.
-/

namespace ToolGate.Route

/-- The ways in which a change of a table can go. -/
inductive Effect (t : Table) : Change → Outcome → Table → Prop where
  | registered {k : Key} {b : Binding} (hfree : t.get? k = none) :
    Effect t (.register k b) .registered (t.insert k (.single b))
  | stacked {k : Key} {b : Binding} {g : Group} (hg : t.get? k = some g)
    (hb : g.binds b.protocol = false) :
    Effect t (.stack k b) (.stacked .added) (t.insert k (g.push b))
  | stackedBefore {k : Key} {b : Binding} {g : Group} (hg : t.get? k = some g)
    (hb : g.binds b.protocol = true) : Effect t (.stack k b) (.stacked .alreadyBound) t
  | modeSet {k : Key} {m : Mode} {g : Group} (hg : t.get? k = some g) (hm : m ≠ .single)
    (hsize : 2 ≤ g.size) : Effect t (.setMode k m) .modeSet (t.insert k { g with mode := m })
  | reduced {k : Key} {p : Protocol} {g : Group} (hg : t.get? k = some g) (hp : g.binds p = true)
    (hrest : (g.remove p).isEmpty = false) :
    Effect t (.unstack k p) (.unstacked (.remaining (g.remove p).size)) (t.insert k (g.remove p))
  | deleted {k : Key} {p : Protocol} {g : Group} (hg : t.get? k = some g) (hp : g.binds p = true)
    (hrest : (g.remove p).isEmpty = true) :
    Effect t (.unstack k p) (.unstacked .groupDeleted) (t.erase k)
  | cleared {k : Key} : Effect t (.clear k) (.cleared (t.contains k)) (t.erase k)
  | ensuredFirst {k : Key} {b : Binding} (hfree : t.get? k = none) :
    Effect t (.ensure k b) (.ensured .registered) (t.insert k (.single b))
  | ensured {k : Key} {b : Binding} {g : Group} (hg : t.get? k = some g)
    (hb : g.binds b.protocol = false) :
    Effect t (.ensure k b) (.ensured .stacked) (t.insert k (g.push b))
  | ensuredBefore {k : Key} {b : Binding} {g : Group} (hg : t.get? k = some g)
    (hb : g.binds b.protocol = true) : Effect t (.ensure k b) (.ensured .alreadyBound) t

/-! ## Operations on a table

Each operation looks the group of its key up first, so it is one equation where there is a group and
one where there is none.
-/

namespace Table

variable {t : Table} {k : Key} {g : Group}

/-- The group of a key is found. -/
theorem group_of_get? (hg : t.get? k = some g) : t.group k = .ok g := by
  unfold group
  rw [hg]

/-- A key without a group is told so. -/
theorem group_of_free (hfree : t.get? k = none) :
    t.group k = .error (.notFound k "route group") := by
  unfold group
  rw [hfree]

/-- A key with a group cannot be registered again. -/
theorem register_of_get? (b : Binding) (hg : t.get? k = some g) :
    t.register k b = .error (.alreadyExists k) := by
  simp [register, SortedMap.contains, hg]

theorem register_of_free (b : Binding) (hfree : t.get? k = none) :
    t.register k b = .ok (t.insert k (.single b)) := by
  simp [register, SortedMap.contains, hfree]

/-- A check is put behind the others, unless one of its protocol is there. -/
theorem stack_of_get? (b : Binding) (hg : t.get? k = some g) :
    t.stack k b =
      .ok (if g.binds b.protocol then (.alreadyBound, t) else (.added, t.insert k (g.push b))) := by
  unfold stack
  rw [group_of_get? hg]
  cases hb : g.binds b.protocol <;> simp [bind, Except.bind, hb, pure, Except.pure]

/-- There is nothing to stack a check on. -/
theorem stack_of_free (b : Binding) (hfree : t.get? k = none) :
    t.stack k b = .error (.notFound k "route group") := by
  unfold stack
  rw [group_of_free hfree]
  rfl

/-- The mode `single` is refused first, and then any mode of a small group. -/
theorem setMode_of_get? (m : Mode) (hg : t.get? k = some g) :
    t.setMode k m =
      if m = .single then .error (.invalidState k singleImplied)
      else if g.size < 2 then .error (.invalidState k (tooSmall m g.size))
      else .ok (t.insert k { g with mode := m }) := by
  unfold setMode
  rw [group_of_get? hg]
  by_cases hm : m = .single
  · simp [hm, bind, Except.bind, throw, throwThe, MonadExceptOf.throw]
  · by_cases hsize : g.size < 2 <;>
      simp [hm, hsize, bind, Except.bind, throw, throwThe, MonadExceptOf.throw, pure, Except.pure]

theorem setMode_of_free (m : Mode) (hfree : t.get? k = none) :
    t.setMode k m = .error (.notFound k "route group") := by
  unfold setMode
  rw [group_of_free hfree]
  rfl

/-- The check of a protocol is taken away, and with the last one the group. -/
theorem unstack_of_get? (p : Protocol) (hg : t.get? k = some g) :
    t.unstack k p =
      if g.binds p then
        .ok (if (g.remove p).isEmpty then (.groupDeleted, t.erase k)
          else (.remaining (g.remove p).size, t.insert k (g.remove p)))
      else .error (.notFound k (p.name ++ " binding")) := by
  unfold unstack
  rw [group_of_get? hg]
  cases hp : g.binds p with
  | false => simp [hp, bind, Except.bind, throw, throwThe, MonadExceptOf.throw]
  | true =>
    cases hrest : (g.remove p).isEmpty <;>
      simp [hp, hrest, bind, Except.bind, pure, Except.pure]

theorem unstack_of_free (p : Protocol) (hfree : t.get? k = none) :
    t.unstack k p = .error (.notFound k "route group") := by
  unfold unstack
  rw [group_of_free hfree]
  rfl

/-- A group gets the check, unless it has one of its protocol. -/
theorem ensure_of_get? (b : Binding) (hg : t.get? k = some g) :
    t.ensure k b =
      .ok (if g.binds b.protocol then (.alreadyBound, t)
        else (.stacked, t.insert k (g.push b))) := by
  unfold ensure
  simp only [hg]
  cases hb : g.binds b.protocol <;> simp [stack_of_get? b hg, hb, Except.map]

theorem ensure_of_free (b : Binding) (hfree : t.get? k = none) :
    t.ensure k b = .ok (.registered, t.insert k (.single b)) := by
  simp [ensure, hfree, register_of_free b hfree, Except.map]

end Table

/-! ## Changes -/

namespace Change

variable {t t' : Table} {c : Change} {o : Outcome}

/-- Each of the ways is one in which the change really goes. -/
theorem apply_of_effect (h : Effect t c o t') : c.apply t = .ok (o, t') := by
  cases h with
  | registered hfree => simp [apply, Table.register_of_free _ hfree, Except.map]
  | stacked hg hb => simp [apply, Table.stack_of_get? _ hg, hb, Except.map]
  | stackedBefore hg hb => simp [apply, Table.stack_of_get? _ hg, hb, Except.map]
  | modeSet hg hm hsize =>
    have hnot : ¬ Group.size _ < 2 := Nat.not_lt.2 hsize
    simp [apply, Table.setMode_of_get? _ hg, hm, hnot, Except.map]
  | reduced hg hp hrest => simp [apply, Table.unstack_of_get? _ hg, hp, hrest, Except.map]
  | deleted hg hp hrest => simp [apply, Table.unstack_of_get? _ hg, hp, hrest, Except.map]
  | cleared => rfl
  | ensuredFirst hfree => simp [apply, Table.ensure_of_free _ hfree, Except.map]
  | ensured hg hb => simp [apply, Table.ensure_of_get? _ hg, hb, Except.map]
  | ensuredBefore hg hb => simp [apply, Table.ensure_of_get? _ hg, hb, Except.map]

/-- Where the key of a change has no group, the change begins one, clears nothing or is refused. -/
theorem effect_of_free (hfree : t.get? c.key = none) (h : c.apply t = .ok (o, t')) :
    Effect t c o t' := by
  -- one case for each of the six changes, as the table says it for a free key
  cases c
  all_goals simp only [key] at hfree
  case register k b =>
    rw [apply, Table.register_of_free b hfree] at h
    cases h
    exact .registered hfree
  case ensure k b =>
    rw [apply, Table.ensure_of_free b hfree] at h
    cases h
    exact .ensuredFirst hfree
  case clear k =>
    cases h
    exact .cleared
  case stack k b =>
    rw [apply, Table.stack_of_free b hfree] at h
    contradiction
  case setMode k m =>
    rw [apply, Table.setMode_of_free m hfree] at h
    contradiction
  case unstack k p =>
    rw [apply, Table.unstack_of_free p hfree] at h
    contradiction

/-- Where the key of a change has a group, the group decides how the change goes. -/
theorem effect_of_get? {g : Group} (hg : t.get? c.key = some g) (h : c.apply t = .ok (o, t')) :
    Effect t c o t' := by
  -- the same six cases, decided by the group that is there
  cases c
  all_goals simp only [key] at hg
  case register k b =>
    rw [apply, Table.register_of_get? b hg] at h
    contradiction
  case stack k b =>
    rw [apply, Table.stack_of_get? b hg] at h
    cases hb : g.binds b.protocol <;> simp only [hb] at h <;> cases h
    · exact .stacked hg hb
    · exact .stackedBefore hg hb
  case setMode k m =>
    rw [apply, Table.setMode_of_get? m hg] at h
    split at h
    · contradiction
    · -- the mode is one that can be set, so the size of the group decides
      rename_i hm
      split at h
      · contradiction
      · rename_i hsize
        cases h
        exact .modeSet hg hm (Nat.not_lt.1 hsize)
  case unstack k p =>
    rw [apply, Table.unstack_of_get? p hg] at h
    cases hp : g.binds p with
    | false => simp [hp, Except.map] at h
    | true =>
      cases hrest : (g.remove p).isEmpty <;> simp only [hp, hrest] at h <;> cases h
      · exact .reduced hg hp hrest
      · exact .deleted hg hp hrest
  case clear k =>
    cases h
    exact .cleared
  case ensure k b =>
    rw [apply, Table.ensure_of_get? b hg] at h
    cases hb : g.binds b.protocol <;> simp only [hb] at h <;> cases h
    · exact .ensured hg hb
    · exact .ensuredBefore hg hb

/-- A change goes in one of these ways, or it is refused. -/
theorem apply_eq_ok_iff : c.apply t = .ok (o, t') ↔ Effect t c o t' := by
  constructor
  · intro h
    cases hg : t.get? c.key with
    | none => exact effect_of_free hg h
    | some g => exact effect_of_get? hg h
  · exact apply_of_effect

/-- What a change answers. -/
def result (t : Table) (c : Change) : Except Error Outcome := (c.apply t).map (·.1)

/-- The table after a change; a change that is refused leaves it as it is. -/
def next (t : Table) (c : Change) : Table :=
  match c.apply t with
  | .ok (_, t') => t'
  | .error _ => t

/-- A change that is not refused answers its outcome. -/
theorem result_of_ok (h : c.apply t = .ok (o, t')) : c.result t = .ok o := by
  unfold result
  rw [h]
  rfl

theorem result_of_error {e : Error} (h : c.apply t = .error e) : c.result t = .error e := by
  unfold result
  rw [h]
  rfl

/-- The table after a change that is not refused is the one that the change leads to. -/
theorem next_of_ok (h : c.apply t = .ok (o, t')) : c.next t = t' := by
  unfold next
  rw [h]

/-- A refused change leaves the table as it is. -/
theorem next_of_error {e : Error} (h : c.apply t = .error e) : c.next t = t := by
  unfold next
  rw [h]

/-- A change is refused and leaves the table as it is, or it has an effect. -/
theorem next_eq_or_effect (t : Table) (c : Change) :
    c.next t = t ∨ ∃ o, Effect t c o (c.next t) := by
  rcases h : c.apply t with e | ⟨o, t'⟩
  · exact .inl (next_of_error h)
  · rw [next_of_ok h]
    exact .inr ⟨o, apply_eq_ok_iff.1 h⟩

end Change

end ToolGate.Route
