/-!
# Labels

A label is written `category:value`, where each side is a small letter followed by small letters,
digits and dashes.

* `Label.ofText?_text`: a label's text reads back as that label;
* `Label.ofText?_eq_some`: only a label's own text reads as it.
-/

namespace ToolGate

namespace Label

/-- Whether a character may start one side of a label. -/
def isFirst (c : Char) : Bool := 'a' ≤ c && c ≤ 'z'

/-- Whether a character may continue one side of a label. -/
def isNext (c : Char) : Bool := isFirst c || ('0' ≤ c && c ≤ '9') || c == '-'

/-- Whether the characters form one side of a label. -/
def isSide : List Char → Bool
  | [] => false
  | c :: cs => isFirst c && cs.all isNext

/-- The characters before the first colon. -/
def before (cs : List Char) : List Char := cs.takeWhile (· != ':')

/-- Whether the characters are two sides with a colon between them. -/
def isLabel (cs : List Char) : Bool :=
  match cs.dropWhile (· != ':') with
  | [] => false
  | _ :: value => isSide (before cs) && isSide value

end Label

/-- A text of the form `category:value`. -/
structure Label where
  text : String
  wellFormed : Label.isLabel text.toList = true
deriving DecidableEq

namespace Label

/-- The label of a text, if the text has the form of one. -/
def ofText? (raw : String) : Option Label :=
  if h : isLabel raw.toList = true then some ⟨raw, h⟩ else none

/-- The side before the colon. -/
def category (l : Label) : String := String.ofList (before l.text.toList)

def rejection (raw : String) : String :=
  "invalid label '" ++ raw ++ "': expected lowercase 'category:value'"

@[simp] theorem ofText?_text (l : Label) : ofText? l.text = some l := by
  simp [ofText?, l.wellFormed]

theorem ofText?_eq_some {raw : String} {l : Label} (h : ofText? raw = some l) : l.text = raw := by
  unfold ofText? at h
  split at h
  · cases h
    rfl
  · contradiction

theorem ofText?_isSome {raw : String} : (ofText? raw).isSome = isLabel raw.toList := by
  unfold ofText?
  split <;> simp_all

end Label

end ToolGate
