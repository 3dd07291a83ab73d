/-!
# Closed vocabularies

A closed vocabulary is a type with finitely many words, each written in one way. Reading a word is
looking its name up among all names.

* `Word.ofName?_name`: a written word reads back;
* `Word.ofName?_eq_some_iff`: a text reads as a word exactly if it is that word's name.
-/

namespace ToolGate

/-- A type with finitely many words, no two of which share a name. -/
class Word (α : Type) where
  all : List α
  name : α → String
  mem_all : ∀ a, a ∈ all
  name_injective : ∀ a b, name a = name b → a = b

namespace Word

variable {α : Type} [Word α]

def ofName? (s : String) : Option α := (all (α := α)).find? (fun a => name a == s)

def isName (α : Type) [Word α] (s : String) : Bool := (ofName? s : Option α).isSome

theorem ofName?_eq_some_iff {s : String} {a : α} : ofName? s = some a ↔ name a = s := by
  unfold ofName?
  constructor
  · intro h
    simpa using List.find?_some h
  · rintro rfl
    cases hf : (all (α := α)).find? (fun b => name b == name a) with
    | none =>
      have := List.find?_eq_none.1 hf a (mem_all a)
      simp at this
    | some b =>
      have := List.find?_some hf
      rw [name_injective b a (by simpa using this)]

@[simp] theorem ofName?_name (a : α) : ofName? (name a) = some a :=
  ofName?_eq_some_iff.2 rfl

end Word

end ToolGate
