import ToolGate.SortedMap.Basic
import ToolGate.Text.Cut

/-!
# Keys of routes

A route leads calls of one tool of a service, or of all its tools, to checks. Keys are ordered by
service and then by tool.

* `Key.compare_eq_lt_iff`: the order in terms of services and tools;
* `Key.text_of_ofText?`: a text reads only as a key that is written in that way.
-/

namespace ToolGate.Route

/-- A service and a tool of it; the tool may be the wildcard. -/
structure Key where
  service : String
  tool : String
deriving DecidableEq, Repr

namespace Key

/-- The tool that stands for all tools of a service. -/
def wildcard : String := "*"

/-- The key of all tools of a service. -/
def all (service : String) : Key := ⟨service, wildcard⟩

def isWildcard (k : Key) : Bool := k.tool == wildcard

def text (k : Key) : String := k.service ++ "/" ++ k.tool

/-- The key of a written form. The service ends at the first slash, and neither part is empty. -/
def ofText? (s : String) : Option Key :=
  match Text.cut? '/' s.toList with
  | some (service, tool) =>
    if service.isEmpty || tool.isEmpty then none
    else some ⟨String.ofList service, String.ofList tool⟩
  | none => none

theorem text_of_ofText? {s : String} {k : Key} (h : ofText? s = some k) : k.text = s := by
  unfold ofText? at h
  split at h
  · rename_i service tool hc
    split at h
    · contradiction
    · cases h
      apply String.toList_injective
      simp [text, (Text.eq_append_of_cut? hc).1]
  · contradiction

instance : Ord Key := ⟨compareLex (compareOn Key.service) (compareOn Key.tool)⟩

instance : Std.TransOrd Key :=
  inferInstanceAs (Std.TransCmp (compareLex (compareOn Key.service) (compareOn Key.tool)))

theorem compare_eq (a b : Key) :
    compare a b = (compare a.service b.service).then (compare a.tool b.tool) := rfl

instance : Std.LawfulEqOrd Key where
  eq_of_compare {a b} h := by
    rw [compare_eq, Ordering.then_eq_eq] at h
    obtain ⟨service, tool⟩ := a
    simp only [Std.LawfulEqOrd.compare_eq_iff_eq] at h
    rw [h.1, h.2]

/-- A key comes before another by its service, or by its tool within one service. -/
theorem compare_eq_lt_iff {a b : Key} :
    compare a b = .lt ↔
      compare a.service b.service = .lt ∨
        (a.service = b.service ∧ compare a.tool b.tool = .lt) := by
  rw [compare_eq, Ordering.then_eq_lt, Std.LawfulEqOrd.compare_eq_iff_eq]

end Key

end ToolGate.Route
