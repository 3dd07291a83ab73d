import ToolGate.Files.Tree

/-!
# Wildcard patterns of paths

In a pattern a question mark stands for one character of a name, a star for any number of them, and
characters in brackets for one of them or, behind an exclamation mark, for one other than them. Two
stars as a whole name stand for any chain of directories.

* `Glob.fits_literals`: a pattern without wildcards matches its own text only.
-/

namespace ToolGate.Files.Glob

/-- Characters in brackets: single ones are ranges of one. -/
structure Range where
  first : Char
  last : Char
deriving DecidableEq, Repr

/-- What a pattern asks of the characters of a name. -/
inductive Item where
  | literal (c : Char)
  | anyChar
  | anyChars
  | within (ranges : List Range)
  | except (ranges : List Range)
deriving DecidableEq, Repr

/-- A name of a pattern. -/
inductive Name where
  | items (is : List Item)
  /-- Any chain of directories. -/
  | deep
deriving DecidableEq, Repr

/-- Why a pattern is not well formed, with the number of characters before the place: in the
pattern, or in a name that does not close its brackets. -/
inductive Error where
  | manyStars (position : Nat)
  | strayDeep (position : Nat)
  | badRange (position : Nat)
deriving DecidableEq, Repr

namespace Error

def message : Error → String
  | .manyStars n => describe n "wildcards are either regular `*` or recursive `**`"
  | .strayDeep n => describe n "recursive wildcards must form a single path component"
  | .badRange n => describe n "invalid range pattern"
where
  /-- The place of an error and its cause. -/
  describe (n : Nat) (cause : String) : String :=
    "Pattern syntax error near position " ++ toString n ++ ": " ++ cause

end Error

/-! ## Reading patterns -/

/-- The ranges that characters in brackets spell. -/
def ranges : List Char → List Range
  | a :: '-' :: b :: cs => ⟨a, b⟩ :: ranges cs
  | c :: cs => ⟨c, c⟩ :: ranges cs
  | [] => []

/-- The characters in brackets and what follows the closing one; the first character may be one. -/
def bracket? : List Char → Option (List Char × List Char)
  | c :: cs =>
    if cs.contains ']' then
      some (c :: cs.takeWhile (· != ']'), (cs.dropWhile (· != ']')).drop 1)
    else none
  | [] => none

theorem bracket?_length {cs inside rest : List Char} (h : bracket? cs = some (inside, rest)) :
    rest.length < cs.length := by
  unfold bracket? at h
  split at h
  · rename_i c ds
    split at h
    · cases h
      have : (ds.dropWhile (· != ']')).length ≤ ds.length := (List.dropWhile_suffix _).length_le
      simp only [List.length_drop, List.length_cons]
      omega
    · contradiction
  · contradiction

/-- Checks a pattern as a whole, where characters in brackets may be slashes: more than two stars do
not stand together, and two stars are a whole name. `fresh` tells whether a name begins here. -/
def check (position : Nat) (fresh : Bool) : List Char → Except Error Unit
  | [] => .ok ()
  | '*' :: '*' :: '*' :: _ => .error (.manyStars (position + 2))
  | ['*', '*'] => if fresh then .ok () else .error (.strayDeep (position - 1))
  | '*' :: '*' :: c :: cs =>
    if !fresh then .error (.strayDeep (position - 1))
    else if c = '/' then check (position + 3) true cs
    else .error (.strayDeep (position + 2))
  | '[' :: '!' :: cs =>
    match h : bracket? cs with
    | some (_, rest) =>
      have : rest.length < cs.length + 1 + 1 :=
        Nat.lt_succ_of_lt (Nat.lt_succ_of_lt (bracket?_length h))
      check (position + (cs.length - rest.length) + 2) false rest
    | none => .error (.badRange position)
  | '[' :: cs =>
    match h : bracket? cs with
    | some (_, rest) =>
      have : rest.length < cs.length + 1 := Nat.lt_succ_of_lt (bracket?_length h)
      check (position + (cs.length - rest.length) + 1) false rest
    | none => .error (.badRange position)
  | c :: cs => check (position + 1) (c == '/') cs
termination_by cs => cs.length

/-- Reads the items of a name; `position` counts the characters of the name before them. -/
def items (position : Nat) : List Char → Except Error (List Item)
  | [] => .ok []
  | '?' :: cs => (items (position + 1) cs).map (.anyChar :: ·)
  | '*' :: cs => (items (position + 1) cs).map (.anyChars :: ·)
  | '[' :: '!' :: cs =>
    match h : bracket? cs with
    | some (inside, rest) =>
      have : rest.length < cs.length + 1 + 1 :=
        Nat.lt_succ_of_lt (Nat.lt_succ_of_lt (bracket?_length h))
      (items (position + (cs.length - rest.length) + 2) rest).map (.except (ranges inside) :: ·)
    | none => .error (.badRange position)
  | '[' :: cs =>
    match h : bracket? cs with
    | some (inside, rest) =>
      have : rest.length < cs.length + 1 := Nat.lt_succ_of_lt (bracket?_length h)
      (items (position + (cs.length - rest.length) + 1) rest).map (.within (ranges inside) :: ·)
    | none => .error (.badRange position)
  | c :: cs => (items (position + 1) cs).map (.literal c :: ·)
termination_by cs => cs.length

/-- Reads one name of a pattern. -/
def name (cs : List Char) : Except Error Name :=
  if cs = ['*', '*'] then .ok .deep else (items 0 cs).map .items

/-- The names of a pattern; brackets must be closed in the name that they are opened in. -/
def parse (pattern : String) : Except Error (List Name) := do
  check 0 true pattern.toList
  (Path.split pattern.toList).mapM name

/-! ## Matching -/

def inRanges (rs : List Range) (c : Char) : Bool := rs.any fun r => r.first ≤ c && c ≤ r.last

/-- Whether some rest of a list passes a test. -/
def anyRest (p : List Char → Bool) : List Char → Bool
  | [] => p []
  | c :: cs => p (c :: cs) || anyRest p cs

/-- Whether items match all characters of a name. -/
def fits : List Item → List Char → Bool
  | [], cs => cs.isEmpty
  | .anyChars :: is, cs => anyRest (fits is) cs
  | .literal d :: is, c :: cs => d == c && fits is cs
  | .anyChar :: is, _ :: cs => fits is cs
  | .within rs :: is, c :: cs => inRanges rs c && fits is cs
  | .except rs :: is, c :: cs => !inRanges rs c && fits is cs
  | _ :: _, [] => false

/-- The text of items without wildcards. -/
def literal? (is : List Item) : Option (List Char) :=
  is.mapM fun
    | .literal c => some c
    | _ => none

/-- Where the names of a pattern have led to: the path so far, which is empty in the current
directory, and its place. -/
structure Reach where
  path : String
  place : Place

/-- Goes on to names below, one inside the other. -/
def Reach.below (r : Reach) (names : List String) : Reach :=
  ⟨names.foldl Path.join r.path, r.place ++ names⟩

/-- Whether the directory of a path can be listed. -/
def canList (path : String) : Bool := (Tree.refusal? (Path.orCurrent path)).isNone

/-- The directories at and below a place, in order. One is found in the list of the directory around
it. -/
def directories (t : Tree) (r : Reach) : List Reach :=
  (if t.entry? r.place = some .directory then [r] else []) ++
    t.entries.entries.filterMap fun e =>
      let names := e.1.drop r.place.length
      if r.place.isPrefixOf e.1 ∧ r.place ≠ e.1 ∧ e.2 = .directory ∧
          canList (r.below names.dropLast).path then
        some (r.below names)
      else none

/-- The place itself and the one above it, as far as a pattern that begins with a dot matches their
names. -/
def dots (r : Reach) (is : List Item) : List Reach :=
  if is.head? = some (.literal '.') then
    (if fits is ['.'] then [⟨Path.join r.path ".", r.place⟩] else []) ++
      (if fits is ['.', '.'] then [⟨Path.join r.path "..", r.place.dropLast⟩] else [])
  else []

/-- What is inside a directory under names that items match. -/
def inside (t : Tree) (is : List Item) (r : Reach) : List Reach :=
  if canList r.path then
    ((t.children r.place).filter fun c => fits is c.1.toList).map fun c => r.below [c.1]
  else []

/-- Where a name without wildcards leads to, which may also be one or two dots. A name is looked at
by its path, dots are not. -/
def literal (t : Tree) (r : Reach) (name : String) : List Reach :=
  let path := Path.join r.path name
  if name ≠ "." ∧ name ≠ ".." ∧ (Tree.refusal? path).isSome then []
  else
    match t.step (.taken r.place .directory) name with
    | .ok (.taken next _) => [⟨path, next⟩]
    | _ => []

/-- Where one name of a pattern leads to. -/
def follow (t : Tree) (r : Reach) (is : List Item) : List Reach :=
  match t.entry? r.place with
  | some .directory =>
    match literal? is with
    | some cs => literal t r (String.ofList cs)
    | none => if canList r.path then dots r is ++ inside t is r else []
  | _ => []

/-- Where the names of a pattern lead to. -/
def expand (t : Tree) (r : Reach) : List Name → List Reach
  | [] => [r]
  | [.deep] => (directories t r).drop 1
  | .deep :: .deep :: ns => expand t r (.deep :: ns)
  | .deep :: .items is :: ns =>
    ((directories t r).flatMap (inside t is)).flatMap fun p => expand t p ns
  | .items is :: ns => (follow t r is).flatMap fun p => expand t p ns

def origin (t : Tree) (pattern : String) : Reach :=
  ⟨if Path.isAbsolute pattern then "/" else "", t.origin pattern⟩

def places (t : Tree) (pattern : String) : Except Error (List Place) :=
  (parse pattern).map fun names => (expand t (origin t pattern) names).map (·.place)

/-- A pattern without wildcards matches its own text only. -/
theorem fits_literals (cs ds : List Char) :
    fits (cs.map .literal) ds = (cs == ds) := by
  induction cs generalizing ds with
  | nil => cases ds <;> rfl
  | cons c cs ih =>
    cases ds with
    | nil => rfl
    | cons d ds => simp [fits, ih]

end ToolGate.Files.Glob
