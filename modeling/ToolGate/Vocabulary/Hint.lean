import ToolGate.SortedMap.Basic
import ToolGate.Vocabulary.Word

/-!
# Hints on what a tool does

A hint says one thing about a tool's behaviour. A document gives hints as truth values; a released
policy keeps the set of hints that hold.

* `HintSet.contains_set`: what putting in and taking out do to membership;
* `HintSet.ext_contains`: a hint set is determined by its members.
-/

namespace ToolGate

/-- One behavioural hint, in the order in which hints are listed. -/
inductive Hint where
  | readOnly
  | destructive
  | idempotent
  | openWorld
deriving DecidableEq, Repr

namespace Hint

instance : Word Hint where
  all := [.readOnly, .destructive, .idempotent, .openWorld]
  name
    | .readOnly => "readOnly"
    | .destructive => "destructive"
    | .idempotent => "idempotent"
    | .openWorld => "openWorld"
  mem_all a := by cases a <;> decide
  name_injective a b := by cases a <;> cases b <;> decide

/-- The place of a hint in the listing order. -/
def index : Hint → Nat
  | .readOnly => 0
  | .destructive => 1
  | .idempotent => 2
  | .openWorld => 3

instance : Ord Hint := ⟨fun a b => compare a.index b.index⟩

instance : Std.TransOrd Hint where
  eq_swap {a b} := by cases a <;> cases b <;> rfl
  isLE_trans {a b c} := by cases a <;> cases b <;> cases c <;> decide

instance : Std.LawfulEqOrd Hint where
  compare_self {a} := by cases a <;> rfl
  eq_of_compare {a b} := by cases a <;> cases b <;> decide

end Hint

/-- Hints with the truth values a document gives them. -/
abbrev HintMap := SortedMap Hint Bool

structure HintSet where
  readOnly : Bool
  destructive : Bool
  idempotent : Bool
  openWorld : Bool
deriving DecidableEq, Repr

namespace HintSet

def empty : HintSet := ⟨false, false, false, false⟩

instance : EmptyCollection HintSet := ⟨empty⟩

def contains (s : HintSet) : Hint → Bool
  | .readOnly => s.readOnly
  | .destructive => s.destructive
  | .idempotent => s.idempotent
  | .openWorld => s.openWorld

/-- Puts a hint in or takes it out. -/
def set (s : HintSet) (h : Hint) (value : Bool) : HintSet :=
  match h with
  | .readOnly => { s with readOnly := value }
  | .destructive => { s with destructive := value }
  | .idempotent => { s with idempotent := value }
  | .openWorld => { s with openWorld := value }

/-- The members in listing order. -/
def toList (s : HintSet) : List Hint := (Word.all (α := Hint)).filter s.contains

/-- Applies given hints: a true one is put in, a false one is taken out. -/
def apply (s : HintSet) (given : HintMap) : HintSet :=
  given.entries.foldl (fun s e => s.set e.1 e.2) s

def ofMap (given : HintMap) : HintSet := apply ∅ given

@[simp] theorem contains_empty (h : Hint) : (∅ : HintSet).contains h = false := by
  cases h <;> rfl

theorem contains_set (s : HintSet) (h j : Hint) (value : Bool) :
    (s.set h value).contains j = if h = j then value else s.contains j := by
  cases h <;> cases j <;> rfl

/-- A hint set is determined by its members. -/
theorem ext_contains {s t : HintSet} (h : ∀ j, s.contains j = t.contains j) : s = t := by
  cases s
  cases t
  have h0 := h .readOnly
  have h1 := h .destructive
  have h2 := h .idempotent
  have h3 := h .openWorld
  simp_all [contains]

end HintSet

end ToolGate
