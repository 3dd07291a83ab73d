import ToolGate.Toml.Basic

/-!
# Building TOML tables

A text gives the entries of its tables in pieces: by headers, by keys with dots and by plain keys. A
table may be given by one header only; one that keys with dots began may be continued by such keys
alone; values, and arrays and tables written as values, are never continued.
-/

namespace ToolGate.Toml

/-- How a table came to be. -/
inductive Origin where
  /-- By a header of its own. -/
  | header
  /-- As a part of the path of a header. -/
  | implied
  /-- By a key with dots. -/
  | dotted
deriving DecidableEq, Repr

/-- What a key stands for while a text is read. -/
inductive Slot where
  | value (v : Toml)
  | table (origin : Origin) (entries : List (String × Slot))
  /-- The tables of repeated headers, the latest first. -/
  | tables (items : List (List (String × Slot)))

/-- The entries of a table while a text is read. -/
abbrev Entries := List (String × Slot)

namespace Entries

def slot? (es : Entries) (key : String) : Option Slot :=
  (List.find? (fun e => e.1 == key) es).map (·.2)

/-- Gives a key a slot, in the place that it has or at the end. -/
def set (es : Entries) (key : String) (s : Slot) : Entries :=
  if (es.slot? key).isSome then es.map fun e => if e.1 == key then (key, s) else e
  else es ++ [(key, s)]

/-- Changes the entries at a path; tables that are missing on the way are implied, and of repeated
tables the latest counts. -/
def changeAt (f : Entries → Option Entries) : List String → Entries → Option Entries
  | [], es => f es
  | key :: path, es =>
    match es.slot? key with
    | none => (changeAt f path []).map fun sub => es.set key (.table .implied sub)
    | some (.table origin sub) =>
      (changeAt f path sub).map fun sub => es.set key (.table origin sub)
    | some (.tables (latest :: older)) =>
      (changeAt f path latest).map fun sub => es.set key (.tables (sub :: older))
    | some _ => none

/-- Opens the table of a header. -/
def openTable (key : String) (es : Entries) : Option Entries :=
  match es.slot? key with
  | none => some (es.set key (.table .header []))
  | some (.table .implied sub) => some (es.set key (.table .header sub))
  | some _ => none

/-- Opens a further table of a repeated header. -/
def openRepeated (key : String) (es : Entries) : Option Entries :=
  match es.slot? key with
  | none => some (es.set key (.tables [[]]))
  | some (.tables items) => some (es.set key (.tables ([] :: items)))
  | some _ => none

/-- Gives a key without dots a value. -/
def addPlain (key : String) (v : Toml) (es : Entries) : Option Entries :=
  if (es.slot? key).isSome then none else some (es.set key (.value v))

/-- Gives a key with dots a value. The table around its last part must have been begun by such a
key, and the ones around that may not have headers. -/
def addDotted (key : String) (v : Toml) : List String → Entries → Option Entries
  | [], es => addPlain key v es
  | part :: path, es =>
    match es.slot? part with
    | none => (addDotted key v path []).map fun sub => es.set part (.table .dotted sub)
    | some (.table origin sub) =>
      if origin = .header ∨ (path = [] ∧ origin = .implied) then none
      else (addDotted key v path sub).map fun sub => es.set part (.table origin sub)
    | some (.tables (latest :: older)) =>
      if path = [] then none
      else (addDotted key v path latest).map fun sub => es.set part (.tables (sub :: older))
    | some _ => none

/-- Gives a key, a path with its last part apart, a value. -/
def add (key : List String × String) (v : Toml) (es : Entries) : Option Entries :=
  addDotted key.2 v key.1 es

end Entries

mutual

/-- The value of a finished slot. -/
def Slot.toToml : Slot → Toml
  | .value v => v
  | .table _ entries => .table (entriesToToml entries)
  | .tables items => .array (tablesToToml items).reverse

def entriesToToml : List (String × Slot) → List (String × Toml)
  | [] => []
  | (key, s) :: es => (key, s.toToml) :: entriesToToml es

/-- The finished tables of repeated headers. -/
def tablesToToml : List (List (String × Slot)) → List Toml
  | [] => []
  | es :: items => .table (entriesToToml es) :: tablesToToml items

end

end ToolGate.Toml
