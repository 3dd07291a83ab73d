import ToolGate.SortedMap.Lemmas

/-!
# Values per tool

A `ToolMap` gives values to tools, first by service and then by tool. A service may be listed
without tools.

* `ToolMap.find?_put`: what giving a tool a value does to the view;
* `ToolMap.find?_mapValues`: rewriting all values.
-/

namespace ToolGate

/-- Values by service and tool. -/
abbrev ToolMap (α : Type) := SortedMap String (SortedMap String α)

namespace ToolMap

variable {α β : Type}

def find? (m : ToolMap α) (service tool : String) : Option α :=
  (m.get? service).bind (·.get? tool)

/-- The tools of a service, none if the service is not listed. -/
def tools (m : ToolMap α) (service : String) : SortedMap String α := (m.get? service).getD ∅

/-- Lists a service, keeping what it has. -/
def touch (m : ToolMap α) (service : String) : ToolMap α := m.insert service (m.tools service)

/-- Gives a tool a value. -/
def put (m : ToolMap α) (service tool : String) (a : α) : ToolMap α :=
  m.insert service ((m.tools service).insert tool a)

def mapValues (f : α → β) (m : ToolMap α) : ToolMap β :=
  SortedMap.mapValues (SortedMap.mapValues f) m

/-- Service, tool and value of every tool, in order. -/
def triples (m : ToolMap α) : List (String × String × α) :=
  m.entries.flatMap (fun e => e.2.entries.map (fun t => (e.1, t.1, t.2)))

def toolCount (m : ToolMap α) : Nat := m.triples.length

theorem find?_eq (m : ToolMap α) (service tool : String) :
    m.find? service tool = (m.tools service).get? tool := by
  unfold find? tools
  cases m.get? service <;> rfl

theorem find?_put (m : ToolMap α) (service tool : String) (a : α) (s t : String) :
    (m.put service tool a).find? s t =
      if service = s ∧ tool = t then some a else m.find? s t := by
  rw [find?_eq, find?_eq]
  unfold put tools
  rw [SortedMap.get?_insert]
  by_cases hs : service = s
  · subst hs
    simp [SortedMap.get?_insert]
  · simp [hs]

theorem find?_touch (m : ToolMap α) (service s t : String) :
    (m.touch service).find? s t = m.find? s t := by
  rw [find?_eq, find?_eq]
  unfold touch tools
  rw [SortedMap.get?_insert]
  by_cases hs : service = s
  · subst hs
    simp
  · simp [hs]

@[simp] theorem find?_mapValues (f : α → β) (m : ToolMap α) (s t : String) :
    (ToolMap.mapValues f m).find? s t = (m.find? s t).map f := by
  unfold find? ToolMap.mapValues
  rw [SortedMap.get?_mapValues]
  cases m.get? s <;> simp

end ToolMap

end ToolGate
