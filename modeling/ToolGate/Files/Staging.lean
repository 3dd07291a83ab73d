import ToolGate.Files.Tree

/-!
# Saving through a staging file

A file is not written where its path leads. The text goes to a new file of another name, and when
that file has all of the text it is moved to the path. If it cannot be moved it is taken away again.
-/

namespace ToolGate.Files.Tree

/-- Takes away what stands at one place. -/
def erase (t : Tree) (place : Place) : Tree := { t with entries := t.entries.erase place }

/-- Takes what stands at one place to another one. -/
def move (t : Tree) (source target : Place) : Tree :=
  match t.entry? source with
  | some e => (t.erase source).put target e
  | none => t

/-- Makes an empty file where a path leads to no entry. -/
def createFile (path : String) : Change Place := do
  match (← get).locate path with
  | .error e => throw e
  | .ok (.taken _ _) => throw .exists_
  | .ok (.free place) =>
    modify fun t => t.put place (.file (.text ""))
    return place

/-- Moves a file to a path, in place of the file that the path may have had. -/
def moveFile (source : Place) (path : String) : Change Unit := do
  match moveTarget (← get) path with
  | .error e => throw e
  | .ok place => modify fun t => t.move source place

/-- Makes the directory of a file and gives the file a new text, through a staging file; `stage` is
what chooses the path of the staging file for the directory. -/
def saveStaged (stage : String → String) (path text : String) :
    ExceptT Failure (StateM Tree) Unit := do
  let directory := Path.directory path
  ExceptT.adapt (⟨directory, ·⟩) (makeDirectories directory)
  let source ← ExceptT.adapt (⟨directory, ·⟩) (createFile (stage directory))
  modify fun t => t.put source (.file (.text text))
  tryCatch (ExceptT.adapt (⟨path, ·⟩) (moveFile source path)) fun (e : Failure) => do
    modify fun t => t.erase source
    throw e

end ToolGate.Files.Tree
