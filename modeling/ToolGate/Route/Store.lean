import ToolGate.Files.Tree
import ToolGate.Route.Stored

/-!
# Stores of routing tables

A store gives the whole table and takes a whole table in its place, in memory or in a file. A file
that is not there holds the empty table.
-/

namespace ToolGate.Route

/-- A store whose content is part of a state `σ`. -/
structure Store (σ : Type) where
  load : σ → Except Error Table
  save : Table → σ → Except Error Unit × σ

namespace Store

def memory : Store Table where
  load t := .ok t
  save t _ := (.ok (), t)

/-- The table in a file. -/
def loadFile (path : String) (tree : Files.Tree) : Except Error Table :=
  if tree.holds path then
    match tree.read path with
    | .error e => .error (.io path e.message)
    | .ok s =>
      match Table.parse s with
      | .error e => .error (.serialization e)
      | .ok t => .ok t
  else .ok ∅

def file (path : String) : Store Files.Tree where
  load := loadFile path
  save t := ((Files.Tree.save path t.render).adapt fun e => .io e.path e.fault.message).run

end Store

end ToolGate.Route
