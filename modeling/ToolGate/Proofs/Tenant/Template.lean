import ToolGate.Proofs.Draft.Valid
import ToolGate.Tenant.Template

/-!
# Texts that tenant variables blank out

What a text is filled in to is blank if every one of its pieces gives way to blank characters: the
characters outside tokens are blank themselves, and each token has a variable whose value is blank.
A text of which something remains may so be filled in to one of which nothing does, but only if some
variable has a blank value. The other way round it does not happen.

* `TenantVars.Blanks`: the texts of which filling in leaves nothing;
* `TenantVars.nonBlank_fill_iff`: of every other text something remains;
* `TenantVars.nonBlank_fill_iff_of_values`: without blank values it is the blank texts of which
  nothing remains.
-/

namespace ToolGate

theorem Draft.not_nonBlank_iff (s : String) :
    ¬NonBlank s ↔ ∀ c ∈ s.toList, Text.isBlank c = true := by
  unfold NonBlank
  rw [Ne, not_not, Text.trim_eq_nil_iff, List.all_eq_true]

namespace Template.Piece

/-- Whether nothing but blank characters takes the place of a piece. -/
def Vanishes (vars : TenantVars) : Piece → Prop
  | literal c => Text.isBlank c = true
  | token name => ∃ value, vars.get? (String.ofList name) = some value ∧ ¬Draft.NonBlank value

/-- A token without a variable does not vanish, as its braces stay. -/
theorem vanishes_iff (vars : TenantVars) (p : Piece) :
    p.Vanishes vars ↔ ∀ c ∈ p.fill vars, Text.isBlank c = true := by
  cases p with
  | literal c => simp [Vanishes, fill]
  | token name =>
    rcases hvalue : vars.get? (String.ofList name) with _ | value
    · have hbrace : ¬Text.isBlank '{' = true := by decide
      simp [Vanishes, fill, text, hvalue, hbrace]
    · simp [Vanishes, fill, hvalue, Draft.not_nonBlank_iff]

/-- What vanishes without variables is a blank character, which no variable changes. -/
theorem Vanishes.of_empty {p : Piece} (h : p.Vanishes ∅) (vars : TenantVars) :
    p.Vanishes vars := by
  cases p with
  | literal c => exact h
  | token name =>
    rcases h with ⟨value, hvalue, _⟩
    cases hvalue

/-- A token vanishes only if its variable has a blank value. -/
theorem Vanishes.to_empty {vars : TenantVars}
    (hvalues : ∀ name value, vars.get? name = some value → Draft.NonBlank value) {p : Piece}
    (h : p.Vanishes vars) : p.Vanishes ∅ := by
  cases p with
  | literal c => exact h
  | token name =>
    rcases h with ⟨value, hvalue, hblank⟩
    exact absurd (hvalues _ value hvalue) hblank

end Template.Piece

namespace TenantVars

/-- Whether nothing but blank characters takes the place of a text. -/
def Blanks (vars : TenantVars) (s : String) : Prop :=
  ∀ piece ∈ Template.ofText s.toList, piece.Vanishes vars

/-- Nothing remains of a filled-in text if each piece gives way to blanks. -/
theorem not_nonBlank_fill_iff (vars : TenantVars) (s : String) :
    ¬Draft.NonBlank (vars.fill s) ↔ vars.Blanks s := by
  unfold fill Template.fill Blanks
  simp only [Draft.not_nonBlank_iff, Template.Piece.vanishes_iff, String.toList_ofList,
    List.mem_flatMap]
  constructor
  · intro h piece hpiece c hc
    exact h c ⟨piece, hpiece, hc⟩
  · rintro h c ⟨piece, hpiece, hc⟩
    exact h piece hpiece c hc

/-- Something remains of a text unless each of its pieces vanishes. -/
theorem nonBlank_fill_iff (vars : TenantVars) (s : String) :
    Draft.NonBlank (vars.fill s) ↔ ¬vars.Blanks s := by
  rw [← not_nonBlank_fill_iff, not_not]

/-- A text is blank if its pieces vanish without any variable. -/
theorem nonBlank_iff (s : String) : Draft.NonBlank s ↔ ¬Blanks ∅ s := by
  rw [← nonBlank_fill_iff]
  unfold fill
  rw [Template.fill_empty, Template.text_ofText, String.ofList_toList]

/-- Filling in makes up nothing in the place of a blank text. -/
theorem nonBlank_of_fill {vars : TenantVars} {s : String} (h : Draft.NonBlank (vars.fill s)) :
    Draft.NonBlank s := by
  rw [nonBlank_iff]
  rw [nonBlank_fill_iff] at h
  exact fun hempty => h fun piece hpiece => (hempty piece hpiece).of_empty vars

/-- If no variable has a blank value, something remains of every text that is not blank. -/
theorem nonBlank_fill_iff_of_values {vars : TenantVars}
    (hvalues : ∀ name value, vars.get? name = some value → Draft.NonBlank value) (s : String) :
    Draft.NonBlank (vars.fill s) ↔ Draft.NonBlank s := by
  refine ⟨nonBlank_of_fill, fun h => ?_⟩
  rw [nonBlank_fill_iff]
  rw [nonBlank_iff] at h
  exact fun hblanks => h fun piece hpiece => (hblanks piece hpiece).to_empty hvalues

end TenantVars

end ToolGate
