import ToolGate.SortedMap.Basic

/-!
# Tenant variables in texts

A text may hold tokens: a name in braces, where the name is not empty and holds no brace. Filling a
text in puts the values of tenant variables in the place of their tokens. A token without a variable
stays, and so does every other character; what is put in is not looked at again.

* `Template.text_ofText`: cutting a text into pieces loses nothing;
* `Template.fill_empty`: without variables nothing changes.
-/

namespace ToolGate

/-- The values of tenant variables. -/
abbrev TenantVars := SortedMap String String

namespace Template

/-- A piece of a text: a character that belongs to no token, or a token. -/
inductive Piece where
  | literal (c : Char)
  | token (name : List Char)
deriving DecidableEq

namespace Piece

def text : Piece → List Char
  | literal c => [c]
  | token name => '{' :: (name ++ ['}'])

/-- The characters that take the place of a piece. -/
def fill (vars : TenantVars) : Piece → List Char
  | literal c => [c]
  | token name =>
    match vars.get? (String.ofList name) with
    | some value => value.toList
    | none => text (token name)

end Piece

/-- What was read since the latest brace that may open a token, in reverse. -/
abbrev Pending := Option (List Char)

/-- The pieces of what is pending when it turns out to be no token. -/
def Pending.give : Pending → List Piece
  | none => []
  | some name => .literal '{' :: name.reverse.map .literal

/-- The pieces of a text behind what is pending. -/
def scan : Pending → List Char → List Piece
  | pending, [] => pending.give
  | pending, c :: cs =>
    if c = '{' then pending.give ++ scan (some []) cs
    else
      match pending with
      | none => .literal c :: scan none cs
      | some name =>
        if c = '}' then
          if name = [] then Pending.give pending ++ .literal c :: scan none cs
          else .token name.reverse :: scan none cs
        else scan (some (c :: name)) cs

def ofText (cs : List Char) : List Piece := scan none cs

def text (ps : List Piece) : List Char := ps.flatMap Piece.text

/-- Puts the values of variables in the place of their tokens. -/
def fill (vars : TenantVars) (ps : List Piece) : List Char := ps.flatMap (Piece.fill vars)

/-- The characters of what is pending. -/
def Pending.text : Pending → List Char
  | none => []
  | some name => '{' :: name.reverse

theorem text_literals (cs : List Char) : text (cs.map .literal) = cs := by
  induction cs with
  | nil => rfl
  | cons c cs ih =>
    simp only [text, List.map_cons, List.flatMap_cons, Piece.text] at ih ⊢
    simp [ih]

theorem text_give (pending : Pending) : text pending.give = pending.text := by
  cases pending with
  | none => rfl
  | some name =>
    exact congrArg ('{' :: ·) (text_literals name.reverse)

theorem text_append (ps qs : List Piece) : text (ps ++ qs) = text ps ++ text qs := by
  simp [text]

theorem text_scan (pending : Pending) (cs : List Char) :
    text (scan pending cs) = pending.text ++ cs := by
  fun_induction scan pending cs with
  | case1 pending => simp [text_give]
  | case2 pending cs ih => rw [text_append, ih, text_give]; rfl
  | case3 c cs _ ih =>
    show text ([.literal c] ++ scan none cs) = _
    rw [text_append, ih]
    simp [text, Piece.text, Pending.text]
  | case4 cs _ ih =>
    show text (Pending.give (some []) ++ ([.literal '}'] ++ scan none cs)) = _
    rw [text_append, text_append, text_give, ih]
    simp [text, Piece.text, Pending.text]
  | case5 cs name _ _ ih =>
    show text ([.token name.reverse] ++ scan none cs) = _
    rw [text_append, ih]
    simp [text, Piece.text, Pending.text]
  | case6 c cs _ name _ ih => rw [ih]; simp [Pending.text]

/-- Cutting a text into pieces loses nothing. -/
theorem text_ofText (cs : List Char) : text (ofText cs) = cs := by
  simp [ofText, text_scan, Pending.text]

/-- Without variables nothing changes. -/
theorem fill_empty (ps : List Piece) : fill ∅ ps = text ps := by
  unfold fill text
  congr 1

end Template

/-- A text with its tokens filled in. -/
def TenantVars.fill (vars : TenantVars) (s : String) : String :=
  String.ofList (Template.fill vars (Template.ofText s.toList))

end ToolGate
