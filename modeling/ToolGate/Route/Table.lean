import ToolGate.Route.Error
import ToolGate.Route.Group
import ToolGate.SortedMap.Lemmas

/-!
# The routing table

A table gives groups of checks to keys. The operations change one group each and say what they did;
an operation that does not fit the table is refused. A call is subject to the checks of its
service's wildcard group and to those of its tool's own group.
-/

namespace ToolGate.Route

/-- Groups of checks by key. -/
abbrev Table := SortedMap Key Group

/-- What stacking a check did. -/
inductive Stacked where
  | added
  /-- A check of the protocol was there, and stays. -/
  | alreadyBound
deriving DecidableEq, Repr

/-- What taking a check away did. -/
inductive Unstacked where
  /-- So many checks are left. -/
  | remaining (count : Nat)
  /-- It was the last one, so the group is gone. -/
  | groupDeleted
deriving DecidableEq, Repr

/-- What was done so that a check is there. -/
inductive Converged where
  | registered
  | stacked
  | alreadyBound
deriving DecidableEq, Repr

/-- Which of the two groups that a call is subject to. -/
inductive Source where
  | tool
  | wildcard
deriving DecidableEq, Repr

namespace Source

instance : Word Source where
  all := [.tool, .wildcard]
  name
    | .tool => "tool"
    | .wildcard => "wildcard"
  mem_all a := by cases a <;> decide
  name_injective a b := by cases a <;> cases b <;> decide

end Source

/-- A check that a call is subject to. -/
structure Applied where
  source : Source
  groupMode : Mode
  binding : Binding
deriving DecidableEq, Repr

namespace Table

/-- The group of a key; an error if there is none. -/
def group (t : Table) (k : Key) : Except Error Group :=
  match t.get? k with
  | some g => .ok g
  | none => .error (.notFound k "route group")

/-- Begins a group with one check. -/
def register (t : Table) (k : Key) (b : Binding) : Except Error Table :=
  if t.contains k then .error (.alreadyExists k) else .ok (t.insert k (.single b))

def stack (t : Table) (k : Key) (b : Binding) : Except Error (Stacked × Table) := do
  let g ← t.group k
  if g.binds b.protocol then return (.alreadyBound, t)
  else return (.added, t.insert k (g.push b))

/-- The reason why the mode `single` is never set. -/
def singleImplied : String :=
  "mode 'single' is implied by a one-binding group; use 'all' or 'any'"

/-- The reason why a mode is not set for a small group. -/
def tooSmall (m : Mode) (size : Nat) : String :=
  "mode '" ++ m.name ++ "' needs at least 2 bindings (group has " ++ toString size ++ ")"

/-- Sets the mode of a group of two checks or more. -/
def setMode (t : Table) (k : Key) (m : Mode) : Except Error Table := do
  let g ← t.group k
  if m = .single then throw (.invalidState k singleImplied)
  if g.size < 2 then throw (.invalidState k (tooSmall m g.size))
  return t.insert k { g with mode := m }

/-- Takes a check away, and the group with its last one. -/
def unstack (t : Table) (k : Key) (p : Protocol) : Except Error (Unstacked × Table) := do
  let g ← t.group k
  if g.binds p then
    let rest := g.remove p
    if rest.isEmpty then return (.groupDeleted, t.erase k)
    else return (.remaining rest.size, t.insert k rest)
  else throw (.notFound k (p.name ++ " binding"))

/-- Takes a group away, and says whether there was one. -/
def clear (t : Table) (k : Key) : Bool × Table := (t.contains k, t.erase k)

/-- Makes sure that a check of the protocol is there; one that is there stays. -/
def ensure (t : Table) (k : Key) (b : Binding) : Except Error (Converged × Table) :=
  match t.get? k with
  | none => (t.register k b).map fun t => (.registered, t)
  | some g =>
    if g.binds b.protocol then .ok (.alreadyBound, t)
    else (t.stack k b).map fun r => (.stacked, r.2)

/-- The groups in key order, of one service if one is given. -/
def list (t : Table) (service : Option String) : List (Key × Group) :=
  match service with
  | none => t.entries
  | some s => t.entries.filter (·.1.service == s)

/-- The checks of a group as those of one source. -/
def appliedOf (source : Source) (g : Option Group) : List Applied :=
  match g with
  | none => []
  | some g => g.bindings.map (⟨source, g.mode, ·⟩)

/-- The checks that a call is subject to: those of all tools, then those of the tool itself. -/
def applicable (t : Table) (service tool : String) : List Applied :=
  appliedOf .wildcard (t.get? (.all service)) ++
    (if tool = Key.wildcard then [] else appliedOf .tool (t.get? ⟨service, tool⟩))

/-! ## Stored rows -/

structure Row where
  key : Key
  group : Group
deriving DecidableEq

/-- The table of stored rows. Rows without checks are dropped, groups are brought into form, and of
two rows for one key the later counts. -/
def ofRows (rows : List Row) : Table :=
  SortedMap.ofList ((rows.filter (!·.group.isEmpty)).map fun r => (r.key, r.group.normalize))

def rows (t : Table) : List Row := t.entries.map fun e => ⟨e.1, e.2⟩

end Table

end ToolGate.Route
