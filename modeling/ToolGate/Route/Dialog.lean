import ToolGate.Route.Store

/-!
# Dialogs with a store

What is asked of a store is a dialog: the whole table is asked for, or a whole table is to be saved,
and each answer decides how it goes on. A dialog can be held with anything that answers, which may
answer another thing each time it is asked.
-/

namespace ToolGate.Route

/-- A call of a store, with its answer. -/
inductive Call where
  | load (answer : Except Error Table)
  | save (t : Table) (answer : Except Error Unit)

/-- What answers calls. Any call may change what the next ones are answered. -/
structure Backend (σ : Type) where
  load : σ → Except Error Table × σ
  save : Table → σ → Except Error Unit × σ

/-- A store, which stays as it is when its table is loaded. -/
def Store.backend {σ : Type} (store : Store σ) : Backend σ where
  load s := (store.load s, s)
  save := store.save

/-- What is asked, up to a result. -/
inductive Dialog (α : Type) where
  | result (r : Except Error α)
  | load (next : Except Error Table → Dialog α)
  | save (t : Table) (next : Except Error Unit → Dialog α)

/-- What a dialog has come to: its calls in order, its result, and the state after the last call. -/
structure Played (σ α : Type) where
  calls : List Call
  result : Except Error α
  state : σ

/-- A dialog with one more call before it. -/
def Played.after {σ α : Type} (call : Call) (p : Played σ α) : Played σ α :=
  { p with calls := call :: p.calls }

/-- Holds a dialog. -/
def Dialog.play {σ α : Type} (b : Backend σ) : Dialog α → σ → Played σ α
  | .result r, s => ⟨[], r, s⟩
  | .load next, s => ((next (b.load s).1).play b (b.load s).2).after (.load (b.load s).1)
  | .save t next, s =>
    ((next (b.save t s).1).play b (b.save t s).2).after (.save t (b.save t s).1)

end ToolGate.Route
