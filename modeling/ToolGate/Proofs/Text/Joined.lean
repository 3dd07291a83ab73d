/-!
# Texts joined at a mark

Two texts with a mark of one character between them make one text. They can be told from it as long
as the mark does not occur in them; where it does, a part between two marks may belong to the one
text or to the other.

* `Text.Moved`: two texts, and two others that differ from them by such a part;
* `Text.join_eq_join_iff`: when two joined texts are the same.
-/

namespace ToolGate.Text

/-- Whether a part of the first text, and the mark before it, has moved over to the second one. -/
def Moved (mark a b a' b' : String) : Prop :=
  ∃ part, a = a' ++ mark ++ part ∧ b' = part ++ mark ++ b

/-- Characters with a mark among them are split in two at one mark or at two different ones. -/
theorem append_cons_eq_iff {α : Type} {c : α} {a b a' b' : List α} :
    a ++ c :: b = a' ++ c :: b' ↔
      (a = a' ∧ b = b') ∨ (∃ part, a = a' ++ c :: part ∧ b' = part ++ c :: b) ∨
        ∃ part, a' = a ++ c :: part ∧ b = part ++ c :: b' := by
  constructor
  · intro h
    rcases List.append_eq_append_iff.1 h with ⟨rest, ha', hb⟩ | ⟨rest, ha, hb'⟩
    · -- the second mark is the first one, or stands behind it
      cases rest with
      | nil => exact .inl ⟨by simpa using ha'.symm, by simpa using hb⟩
      | cons d part =>
        obtain ⟨rfl, hrest⟩ := List.cons.inj hb
        exact .inr (.inr ⟨part, ha', hrest⟩)
    · -- or the first one is the second one, or stands behind it
      cases rest with
      | nil => exact .inl ⟨by simpa using ha, by simpa using hb'.symm⟩
      | cons d part =>
        obtain ⟨rfl, hrest⟩ := List.cons.inj hb'
        exact .inr (.inl ⟨part, ha, hrest⟩)
  · rintro (⟨rfl, rfl⟩ | ⟨part, rfl, rfl⟩ | ⟨part, rfl, rfl⟩) <;> simp

section Mark

variable {mark a b a' b' : String} {c : Char}

/-- A part that has moved, told from the characters. -/
theorem moved_iff (hmark : mark.toList = [c]) :
    Moved mark a b a' b' ↔
      ∃ part, a.toList = a'.toList ++ c :: part ∧ b'.toList = part ++ c :: b.toList := by
  constructor
  · rintro ⟨part, rfl, rfl⟩
    exact ⟨part.toList, by simp [hmark], by simp [hmark]⟩
  · rintro ⟨part, ha, hb'⟩
    refine ⟨String.ofList part, String.toList_injective ?_, String.toList_injective ?_⟩
    · simp [hmark, ha]
    · simp [hmark, hb']

/-- Joined texts are the same only if the texts are, or if one part has moved. -/
theorem join_eq_join_iff (hmark : mark.toList = [c]) :
    a ++ mark ++ b = a' ++ mark ++ b' ↔
      (a = a' ∧ b = b') ∨ Moved mark a b a' b' ∨ Moved mark a' b' a b := by
  have hlists : a ++ mark ++ b = a' ++ mark ++ b' ↔
      a.toList ++ c :: b.toList = a'.toList ++ c :: b'.toList := by
    rw [← String.toList_inj]
    simp [hmark]
  rw [hlists, append_cons_eq_iff, moved_iff hmark, moved_iff hmark, String.toList_inj,
    String.toList_inj]

/-- A part moves over from a text with a mark only. -/
theorem Moved.mark_mem (h : Moved mark a b a' b') (hmark : mark.toList = [c]) : c ∈ a.toList := by
  rcases (moved_iff hmark).1 h with ⟨part, ha, -⟩
  rw [ha]
  simp

/-- The text that a part moves over from is not the one that is left. -/
theorem Moved.left_ne (h : Moved mark a b a' b') (hmark : mark.toList = [c]) : a ≠ a' := by
  intro heq
  rcases (moved_iff hmark).1 h with ⟨part, ha, -⟩
  rw [heq] at ha
  simp at ha

/-- It moves over to a text that then has a mark. -/
theorem Moved.mark_mem_right (h : Moved mark a b a' b') (hmark : mark.toList = [c]) :
    c ∈ b'.toList := by
  rcases (moved_iff hmark).1 h with ⟨part, -, hb'⟩
  rw [hb']
  simp

end Mark

end ToolGate.Text
