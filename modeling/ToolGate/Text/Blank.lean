/-!
# Blank characters and trimming

The blank characters are those with the Unicode property `White_Space`; a text is blank if it
holds nothing else, and trimming takes blank characters off both ends.

* `Text.trim_eq_nil_iff`: a text trims to nothing exactly if it is blank.
-/

namespace ToolGate.Text

/-- Whether a character has the Unicode property `White_Space`. -/
def isBlank (c : Char) : Bool :=
  let n := c.toNat
  (0x09 ≤ n && n ≤ 0x0D) || n == 0x20 || n == 0x85 || n == 0xA0 || n == 0x1680 ||
    (0x2000 ≤ n && n ≤ 0x200A) || n == 0x2028 || n == 0x2029 || n == 0x202F || n == 0x205F ||
    n == 0x3000

/-- The characters without the blank ones at either end. -/
def trim (cs : List Char) : List Char :=
  ((cs.dropWhile isBlank).reverse.dropWhile isBlank).reverse

/-- Whether a text holds no character but blank ones. -/
def isBlankText (s : String) : Bool := s.toList.all isBlank

/-- ASCII capital letters made small; every other character stays. -/
def lower (c : Char) : Char :=
  if 'A' ≤ c ∧ c ≤ 'Z' then Char.ofNat (c.toNat + 32) else c

theorem dropWhile_eq_nil_iff {p : Char → Bool} {cs : List Char} :
    cs.dropWhile p = [] ↔ cs.all p = true := by
  induction cs with
  | nil => simp
  | cons c cs ih => by_cases h : p c <;> simp_all

/-- A text trims to nothing exactly if it is blank. -/
theorem trim_eq_nil_iff {cs : List Char} : trim cs = [] ↔ cs.all isBlank = true := by
  unfold trim
  rw [List.reverse_eq_nil_iff, dropWhile_eq_nil_iff, List.all_reverse, ← dropWhile_eq_nil_iff]
  constructor
  · intro h
    rw [dropWhile_eq_nil_iff] at h
    rw [← dropWhile_eq_nil_iff]
    cases hd : cs.dropWhile isBlank with
    | nil => rfl
    | cons c rest =>
      have hne : cs.dropWhile isBlank ≠ [] := by simp [hd]
      have hc := List.head_dropWhile_not isBlank hne
      rw [hd] at h
      simp only [hd, List.head_cons] at hc
      simp [hc] at h
  · intro h
    rw [dropWhile_eq_nil_iff.2 h]
    rfl

end ToolGate.Text
