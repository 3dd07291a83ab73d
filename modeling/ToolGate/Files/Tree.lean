import ToolGate.Files.Fault
import ToolGate.Files.Path
import ToolGate.SortedMap.Basic

/-!
# Trees of files

A tree gives an entry, a file or a directory, to the places that are taken. A path is walked name by
name, from the top or, if it does not begin there, from the current directory; every name but the
last must be one of a directory. A file is replaced as a whole: it holds its former content or the
new one, never a part of either.

* `Tree.walk_append`: walking a path in two parts is walking it.
-/

namespace ToolGate.Files

/-- What a file holds. -/
inductive Content where
  | text (value : String)
  /-- Bytes that are no text. -/
  | binary (bytes : List UInt8)
deriving DecidableEq

/-- What stands at a place. -/
inductive Entry where
  | file (content : Content)
  | directory
deriving DecidableEq

/-- A place: the names from the top down to it. -/
abbrev Place := List String

/-- The entries of all places that are taken, apart from the directory at the top, and the current
directory. -/
structure Tree where
  entries : SortedMap Place Entry
  current : Place
deriving DecidableEq

namespace Tree

/-- The tree with nothing below the top. -/
def empty : Tree := ⟨∅, []⟩

def entry? (t : Tree) : Place → Option Entry
  | [] => some .directory
  | place => t.entries.get? place

/-- Where a walk along a path has come to. -/
inductive Spot where
  | taken (place : Place) (entry : Entry)
  /-- No entry, inside a directory. -/
  | free (place : Place)

/-- The greatest size of a name in bytes. -/
def maxNameSize : Nat := 255

/-- Goes on along one part of a path. -/
def step (t : Tree) (s : Spot) (part : String) : Except Fault Spot :=
  match s with
  | .free _ => .error .notFound
  | .taken _ (.file _) => .error .notDirectory
  | .taken place .directory =>
    if part = "" ∨ part = "." then .ok s
    else if part = ".." then .ok (.taken place.dropLast .directory)
    else if maxNameSize < part.utf8ByteSize then .error .nameTooLong
    else
      match t.entry? (place ++ [part]) with
      | some e => .ok (.taken (place ++ [part]) e)
      | none => .ok (.free (place ++ [part]))

def walk (t : Tree) (s : Spot) (parts : List String) : Except Fault Spot := parts.foldlM t.step s

/-- Where the walk along a path begins. -/
def origin (t : Tree) (path : String) : Place := if Path.isAbsolute path then [] else t.current

/-- The least size in bytes that a path may not have. -/
def maxPathSize : Nat := 4096

/-- Whether a path is too long to be walked at all. -/
def isTooLong (path : String) : Bool := maxPathSize ≤ path.utf8ByteSize

/-- Why a path is refused before it is walked: a path has no null character in it, the empty one is
the path of nothing, and one may be too long. -/
def refusal? (path : String) : Option Fault :=
  if path.toList.contains '\x00' then some .nullInName
  else if path = "" then some .notFound
  else if isTooLong path then some .nameTooLong
  else none

/-- Where a path leads. -/
def locate (t : Tree) (path : String) : Except Fault Spot :=
  match refusal? path with
  | some e => .error e
  | none => t.walk (.taken (t.origin path) .directory) (Path.segments path)

theorem walk_append (t : Tree) (s : Spot) (parts more : List String) :
    t.walk s (parts ++ more) = (t.walk s parts).bind fun s => t.walk s more := by
  simp [walk, List.foldlM_append, bind]

/-! ## Looking -/

/-- Whether a path leads to an entry. -/
def holds (t : Tree) (path : String) : Bool :=
  match t.locate path with
  | .ok (.taken _ _) => true
  | _ => false

def isDirectory (t : Tree) (path : String) : Bool :=
  match t.locate path with
  | .ok (.taken _ .directory) => true
  | _ => false

/-- The text of a file. -/
def read (t : Tree) (path : String) : Except Fault String :=
  match t.locate path with
  | .error e => .error e
  | .ok (.free _) => .error .notFound
  | .ok (.taken _ .directory) => .error .isDirectory
  | .ok (.taken _ (.file (.binary _))) => .error .notText
  | .ok (.taken _ (.file (.text s))) => .ok s

/-- The names inside a directory with their entries, in order. -/
def children (t : Tree) (place : Place) : List (String × Entry) :=
  t.entries.entries.filterMap fun e =>
    match e.1.getLast? with
    | some name => if e.1.dropLast = place then some (name, e.2) else none
    | none => none

/-! ## Changing -/

def put (t : Tree) (place : Place) (e : Entry) : Tree :=
  { t with entries := t.entries.insert place e }

/-- Takes a place and everything below it away. -/
def remove (t : Tree) (place : Place) : Tree :=
  { t with entries := t.entries.filter fun p _ => !place.isPrefixOf p }

/-- A change of the tree that may fail; what was changed before a failure stays. -/
abbrev Change (α : Type) := ExceptT Fault (StateM Tree) α

/-- Makes the directories that are missing on a way down from a directory; those made before a
failure stay. -/
def makeAlong (place : Place) : List String → Change Unit
  | [] => return
  | name :: way => do
    match (← get).step (.taken place .directory) name with
    | .error e => throw e
    | .ok (.taken next .directory) => makeAlong next way
    | .ok (.taken _ (.file _)) => throw (if way = [] then .exists_ else .notDirectory)
    | .ok (.free next) =>
      modify fun t => t.put next .directory
      makeAlong next way

/-- Makes a directory and those around it that are missing. The empty path asks for none. -/
def makeDirectories (path : String) : Change Unit := do
  if path = "" then return
  match refusal? path with
  | some e => throw e
  | none => makeAlong ((← get).origin path) (Path.steps path)

/-- What is said of paths that cannot be given a file. -/
structure Refusals where
  /-- Of a path with a null character in it. -/
  null : Fault
  /-- Of a path that ends in dots, and of the top. -/
  unnamed : Fault
  /-- Of a path that asks for a directory. -/
  slash : Fault

/-- The place that a path can be given a file at. -/
def target (r : Refusals) (t : Tree) (path : String) : Except Fault Place :=
  match refusal? path with
  | some .nullInName => .error r.null
  | some e => .error e
  | none =>
    match t.locate (Path.withoutSlashes path) with
    | .error e => .error e
    | .ok (.taken _ .directory) =>
      if !Path.endsInName path then .error r.unnamed
      else if Path.asksDirectory path then .error r.slash
      else .error .isDirectory
    | .ok (.taken place (.file _)) | .ok (.free place) =>
      if Path.asksDirectory path then .error r.slash else .ok place

def moveTarget : Tree → String → Except Fault Place := target ⟨.invalidArgument, .busy, .notDirectory⟩

def writeTarget : Tree → String → Except Fault Place := target ⟨.nullInName, .isDirectory, .isDirectory⟩

/-- Moves a finished file to a path, in place of the file that it may have had. -/
def replaceFile (path text : String) : Change Unit := do
  match moveTarget (← get) path with
  | .error e => throw e
  | .ok place => modify fun t => t.put place (.file (.text text))

/-- Writes a file where a path leads. -/
def writeFile (path text : String) : Change Unit := do
  match writeTarget (← get) path with
  | .error e => throw e
  | .ok place => modify fun t => t.put place (.file (.text text))

/-- A fault and the path that it concerns. -/
structure Failure where
  path : String
  fault : Fault
deriving DecidableEq, Repr

/-- Makes the directory of a file and gives the file a new text. -/
def save (path text : String) : ExceptT Failure (StateM Tree) Unit := do
  let directory := Path.directory path
  ExceptT.adapt (⟨directory, ·⟩) (makeDirectories directory)
  ExceptT.adapt (⟨path, ·⟩) (replaceFile path text)

end Tree

end ToolGate.Files
