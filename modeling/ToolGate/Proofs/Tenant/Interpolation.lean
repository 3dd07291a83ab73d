import ToolGate.Policy.Canonical
import ToolGate.Proofs.Tenant.Reach
import ToolGate.Proofs.Vocabulary
import ToolGate.Tenant.Interpolation

/-!
# Rules and their JSON forms filled in

Tenant variables can be put into rules, or into the JSON form of rules, which knows nothing of
rules. Both ways lead to the same form. Rules keep their labels where the form would fill them in,
but no label holds a brace. Names of services, tools and fields stay either way.

* `Label.braceless`: a label holds no token;
* `ClassifierRule.fill_toJson`: one rule;
* `Json.fill_ofMap`, `Json.fill_ofToolMap`: forms of maps, given the forms of their values;
* `Json.SameShape`, `Json.sameShape_fill`: what no value loses when it is filled in;
* `Json.fill_rules_and_shape`: both ways agree, and shapes stay.
-/

namespace ToolGate

/-! ## Labels -/

/-- A label holds no brace that could open a token. -/
theorem Label.braceless (l : Label) : '{' ∉ l.text.toList := by
  have hside : ∀ {cs : List Char}, isSide cs = true → '{' ∉ cs := by
    intro cs hcs hmem
    have hnext := isNext_of_mem_side hcs '{' hmem
    exact absurd hnext (by decide)
  rcases (isLabel_iff l.text).1 l.wellFormed with ⟨category, value, htext, hcategory, hvalue⟩
  -- neither side holds a brace, and the colon between them is none
  intro hmem
  rw [htext] at hmem
  rcases List.mem_append.1 hmem with hmem | hmem
  · exact hside hcategory hmem
  · rcases List.mem_cons.1 hmem with hcolon | hmem
    · exact absurd hcolon (by decide)
    · exact hside hvalue hmem

/-! ## Forms of rules -/

section Forms

variable (vars : TenantVars)

namespace Json

theorem fill_array (items : List Json) :
    (array items).fill vars = .array (items.map (fill vars)) := by
  rw [fill, fillItems_eq_map]

theorem fill_object (members : List (String × Json)) :
    (object members).fill vars = .object (members.map fun m => (m.1, m.2.fill vars)) := by
  rw [fill, fillMembers_eq_map]

/-- Labels stay when their form is filled in. -/
theorem fill_ofLabels (ls : List Label) : (ofLabels ls).fill vars = ofLabels ls := by
  unfold ofLabels
  rw [fill_array, List.map_map]
  congr 1
  apply List.map_congr_left
  intro l _
  change text (vars.fill l.text) = text l.text
  rw [vars.fill_of_braceless l.braceless]

/-- The form of a map is filled in value by value. -/
theorem fill_ofMap {α : Type} {f : α → Json} {g : α → α} (h : ∀ a, (f a).fill vars = f (g a))
    (m : SortedMap String α) : (ofMap f m).fill vars = ofMap f (m.mapValues g) := by
  have hentries : (m.mapValues g).entries = m.entries.map fun e => (e.1, g e.2) := rfl
  unfold ofMap
  rw [fill_object, hentries, List.map_map, List.map_map]
  congr 1
  apply List.map_congr_left
  intro e _
  exact congrArg (Prod.mk e.1) (h e.2)

/-- The form of values per tool is filled in value by value. -/
theorem fill_ofToolMap {α : Type} {f : α → Json} {g : α → α} (h : ∀ a, (f a).fill vars = f (g a))
    (m : ToolMap α) : (ofToolMap f m).fill vars = ofToolMap f (m.mapValues g) :=
  fill_ofMap vars (fill_ofMap vars h) m

end Json

/-- The field of a test keeps its name, and a text in it is filled in. -/
theorem Matcher.toField_fill (m : Matcher) :
    (m.fill vars).toField = (m.toField.1, m.toField.2.fill vars) := by
  cases m with
  | contains s => rfl
  | notContains s => rfl
  | present b => rfl

/-- The form of a rule filled in is the form of the rule filled in. -/
theorem ClassifierRule.fill_toJson (r : ClassifierRule) :
    r.toJson.fill vars = (r.fill vars).toJson := by
  have hlabels := Json.fill_ofLabels vars r.setLabels
  have htest := r.matcher.toField_fill vars
  unfold toJson fill
  rw [Json.fill_object, htest]
  simp only [List.map_cons, List.map_nil, Json.fill, hlabels]

end Forms

/-- The JSON form of the rules of all tools. -/
def ToolMap.rulesToJson (m : ToolMap (List ClassifierRule)) : Json :=
  Json.ofToolMap (fun rules => .array (rules.map ClassifierRule.toJson)) m

/-- The form of the rules of all tools filled in is the form of the rules filled in. -/
theorem ToolMap.fill_rulesToJson (vars : TenantVars) (m : ToolMap (List ClassifierRule)) :
    m.rulesToJson.fill vars = (m.fillRules vars).rulesToJson := by
  apply Json.fill_ofToolMap
  intro rules
  rw [Json.fill_array, List.map_map, List.map_map]
  congr 1
  apply List.map_congr_left
  intro r _
  exact r.fill_toJson vars

/-! ## Shapes -/

namespace Json

/-- Two values that differ in their texts at most. Arrays have items of the same shapes, objects
have the same names in the same order with values of the same shapes, and whatever else there is
is the same. -/
inductive SameShape : Json → Json → Prop
  | null : SameShape .null .null
  | bool (b : Bool) : SameShape (.bool b) (.bool b)
  | number (n : Number) : SameShape (.number n) (.number n)
  | text (s s' : String) : SameShape (.text s) (.text s')
  | array {vs ws : List Json} (items : List.Forall₂ SameShape vs ws) :
    SameShape (.array vs) (.array ws)
  | object {ms ns : List (String × Json)} (names : ms.map Prod.fst = ns.map Prod.fst)
    (values : List.Forall₂ SameShape (ms.map Prod.snd) (ns.map Prod.snd)) :
    SameShape (.object ms) (.object ns)
  | unreadable : SameShape .unreadable .unreadable

theorem names_fillMembers (vars : TenantVars) (ms : List (String × Json)) :
    ms.map Prod.fst = (fillMembers vars ms).map Prod.fst := by
  rw [fillMembers_eq_map, List.map_map]
  rfl

mutual

/-- A value keeps its shape when it is filled in. -/
theorem sameShape_fill (vars : TenantVars) : ∀ v : Json, v.SameShape (v.fill vars)
  | .null => .null
  | .bool b => .bool b
  | .number n => .number n
  | .text s => .text s (vars.fill s)
  | .array items => .array (sameShape_fillItems vars items)
  | .object members =>
    .object (names_fillMembers vars members) (sameShape_fillMembers vars members)
  | .unreadable => .unreadable

/-- So do items, -/
theorem sameShape_fillItems (vars : TenantVars) :
    ∀ vs : List Json, List.Forall₂ SameShape vs (fillItems vars vs)
  | [] => .nil
  | v :: vs => .cons (sameShape_fill vars v) (sameShape_fillItems vars vs)

/-- and the values of members. -/
theorem sameShape_fillMembers (vars : TenantVars) :
    ∀ ms : List (String × Json),
      List.Forall₂ SameShape (ms.map Prod.snd) ((fillMembers vars ms).map Prod.snd)
  | [] => .nil
  | (_, v) :: ms => .cons (sameShape_fill vars v) (sameShape_fillMembers vars ms)

end

/-- Filling in the form of rules is the same as filling in the rules: the field and the pattern of
each rule change as they do in the form, and nothing else does. Whatever value is filled in, it
keeps its shape. -/
theorem fill_rules_and_shape (vars : TenantVars) :
    (∀ m : ToolMap (List ClassifierRule),
      m.rulesToJson.fill vars = (m.fillRules vars).rulesToJson) ∧
    ∀ v : Json, v.SameShape (v.fill vars) := by
  constructor
  · intro m
    exact m.fill_rulesToJson vars
  · intro v
    exact sameShape_fill vars v

end Json

end ToolGate
