import ToolGate.Route.Dialog

/-!
# Changing stored routes

A change loads the table, applies one operation to it and saves the result, unless the operation is
refused or leaves the table as it is. Nothing is kept between changes. What it asks of the store is a
dialog, and to run a change is to hold this dialog.
-/

namespace ToolGate.Route

/-- A change of the routing table. -/
inductive Change where
  | register (key : Key) (binding : Binding)
  | stack (key : Key) (binding : Binding)
  | setMode (key : Key) (mode : Mode)
  | unstack (key : Key) (protocol : Protocol)
  | clear (key : Key)
  | ensure (key : Key) (binding : Binding)
deriving DecidableEq, Repr

inductive Outcome where
  | registered
  | stacked (how : Stacked)
  | modeSet
  | unstacked (how : Unstacked)
  | cleared (existed : Bool)
  | ensured (how : Converged)
deriving DecidableEq, Repr

namespace Change

def key : Change → Key
  | .register k _ | .stack k _ | .setMode k _ | .unstack k _ | .clear k | .ensure k _ => k

/-- The name of a change, under which its failures are told. -/
def operation : Change → String
  | .register _ _ => "register_route"
  | .stack _ _ => "stack_route"
  | .setMode _ _ => "set_mode"
  | .unstack _ _ => "unstack_route"
  | .clear _ => "clear_routes"
  | .ensure _ _ => "ensure_route"

def apply (t : Table) : Change → Except Error (Outcome × Table)
  | .register k b => (t.register k b).map fun t => (.registered, t)
  | .stack k b => (t.stack k b).map fun r => (.stacked r.1, r.2)
  | .setMode k m => (t.setMode k m).map fun t => (.modeSet, t)
  | .unstack k p => (t.unstack k p).map fun r => (.unstacked r.1, r.2)
  | .clear k => .ok (.cleared (t.clear k).1, (t.clear k).2)
  | .ensure k b => (t.ensure k b).map fun r => (.ensured r.1, r.2)

/-- What a change asks once the table is loaded. -/
def dialogFrom (c : Change) (t : Table) : Dialog Outcome :=
  match c.apply t with
  | .error e => .result (.error e)
  | .ok (o, t') =>
    if t' = t then .result (.ok o)
    else
      .save t' fun
        | .error e => .result (.error (e.during c.operation))
        | .ok () => .result (.ok o)

/-- What a change asks: the table, and then that another one is saved if there is another one. -/
def dialog (c : Change) : Dialog Outcome :=
  .load fun
    | .error e => .result (.error (e.during c.operation))
    | .ok t => c.dialogFrom t

/-- Applies a change to the table of a store, by its dialog with the store. -/
def run {σ : Type} (store : Store σ) (c : Change) : ExceptT Error (StateM σ) Outcome :=
  .mk fun s =>
    let p := c.dialog.play store.backend s
    (p.result, p.state)

end Change

namespace Store

/-- The groups of a stored table, of one service if one is given. -/
def list {σ : Type} (store : Store σ) (service : Option String) (s : σ) :
    Except Error (List (Key × Group)) :=
  match store.load s with
  | .error e => .error (e.during "list_routes")
  | .ok t => .ok (t.list service)

end Store

end ToolGate.Route
