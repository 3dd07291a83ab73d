/-!
# Cutting a text at a character

A text that holds a character is what stands before the first one, the character, and the rest.

* `Text.cut?_append`, `Text.eq_append_of_cut?`: the two parts are those around the first occurrence.
-/

namespace ToolGate.Text

/-- The parts before and behind the first occurrence of a character. -/
def cut? (c : Char) : List Char → Option (List Char × List Char)
  | [] => none
  | d :: cs => if d = c then some ([], cs) else (cut? c cs).map fun r => (d :: r.1, r.2)

theorem cut?_append {c : Char} {before : List Char} (h : c ∉ before) (behind : List Char) :
    cut? c (before ++ c :: behind) = some (before, behind) := by
  induction before with
  | nil => simp [cut?]
  | cons d ds ih =>
    simp only [List.mem_cons, not_or] at h
    simp [cut?, Ne.symm h.1, ih h.2]

theorem eq_append_of_cut? {c : Char} {cs before behind : List Char}
    (h : cut? c cs = some (before, behind)) : cs = before ++ c :: behind ∧ c ∉ before := by
  induction cs generalizing before with
  | nil => simp [cut?] at h
  | cons d ds ih =>
    unfold cut? at h
    split at h
    · rename_i hd
      simp only [Option.some.injEq, Prod.mk.injEq] at h
      simp [← h.1, ← h.2, hd]
    · rename_i hd
      obtain ⟨r, hr, he⟩ := Option.map_eq_some_iff.1 h
      simp only [Prod.mk.injEq] at he
      obtain ⟨rfl, rfl⟩ := he
      have := ih hr
      simp [← this.1, this.2, Ne.symm hd]

end ToolGate.Text
