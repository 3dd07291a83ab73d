/-!
# Paths

A path is a text of names with slashes between them. Empty names and single dots mean nothing, two
dots mean the directory above, and a slash at the end asks for a directory.

* `Path.split_append_slash`: a slash splits what stands before it from what stands behind it.
-/

namespace ToolGate.Files.Path

/-- The parts of a text between slashes. -/
def split : List Char → List (List Char)
  | [] => [[]]
  | c :: cs =>
    if c = '/' then [] :: split cs
    else
      match split cs with
      | [] => [[c]]
      | part :: parts => (c :: part) :: parts

/-- The parts of a path between slashes, empty ones included. -/
def segments (path : String) : List String := (split path.toList).map String.ofList

/-- Whether a part of a path is a name or two dots. -/
def isStep (part : String) : Bool := part != "" && part != "."

/-- The parts of a path that mean something. -/
def steps (path : String) : List String := (segments path).filter isStep

/-- Whether a path begins at the top of all directories. -/
def isAbsolute (path : String) : Bool := path.toList.head? == some '/'

def asksDirectory (path : String) : Bool := path.toList.getLast? == some '/'

/-- A path without the slashes at its end; one of nothing but slashes is that of the top. -/
def withoutSlashes (path : String) : String :=
  match path.toList.reverse.dropWhile (· == '/') with
  | [] => if path = "" then "" else "/"
  | cs => String.ofList cs.reverse

/-- Whether a path ends in a name, as opposed to dots or nothing. -/
def endsInName (path : String) : Bool :=
  match (segments (withoutSlashes path)).getLast? with
  | some part => isStep part && part != ".."
  | none => false

/-- A path below a directory; an absolute path stands alone. -/
def join (directory path : String) : String :=
  if isAbsolute path ∨ directory = "" then path
  else if asksDirectory directory then directory ++ path
  else directory ++ "/" ++ path

/-- The path of names, from the top of all directories or from where one is. -/
def ofSteps (absolute : Bool) (names : List String) : String :=
  (if absolute then "/" else "") ++ String.intercalate "/" names

/-- Whether the last part of reversed characters means nothing. -/
def dropIdle : List Char → List Char
  | '/' :: cs => dropIdle cs
  | '.' :: '/' :: cs => dropIdle cs
  | cs => cs

/-- The path of the directory around the last name of a path; empty for a single name. -/
def parent (path : String) : String :=
  let above := (dropIdle path.toList.reverse).dropWhile (· != '/')
  match dropIdle above with
  | [] => if above = [] then "" else "/"
  | cs => String.ofList cs.reverse

/-- A path of a directory, where the empty one stands for the current directory. -/
def orCurrent (path : String) : String := if path = "" then "." else path

/-- The directory that a file is in; a lone name is in the current one. -/
def directory (path : String) : String := orCurrent (parent path)

def fileName (path : String) : String := (steps path).getLastD ""

/-- A file name without what follows its last dot; a dot at the beginning does not count. -/
def stem (name : String) : String :=
  match name.toList with
  | [] => ""
  | c :: cs =>
    if cs.contains '.' then
      String.ofList (c :: ((cs.reverse.dropWhile (· != '.')).drop 1).reverse)
    else name

theorem split_ne_nil (cs : List Char) : split cs ≠ [] := by
  cases cs with
  | nil => simp [split]
  | cons c cs =>
    unfold split
    split
    · simp
    · split <;> simp

/-- A slash splits what stands before it from what stands behind it. -/
theorem split_append_slash (cs ds : List Char) :
    split (cs ++ '/' :: ds) = split cs ++ split ds := by
  induction cs with
  | nil => simp [split]
  | cons c cs ih =>
    simp only [List.cons_append, split, ih]
    split
    · rfl
    · cases h : split cs with
      | nil => exact absurd h (split_ne_nil cs)
      | cons part parts => simp

end ToolGate.Files.Path
