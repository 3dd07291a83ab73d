import ToolGate.Proofs.Draft.Defects
import ToolGate.Proofs.Text.Joined

/-!
# The paths of findings

The path of a finding names the field that a defect is in: the section, the service and the tool,
the fields and the places in lists, with dots and brackets between them. Names stand in a path as
they are, with their own dots and brackets. So two defects have one path if a part of the service's
name belongs to the tool's name for the other one, or if the name of a tool looks like the way to
the labels of another one's rule. There is no other way.

* `Finding.item_eq_item_iff`, `Finding.tool_eq_tool_iff`: the parts of a path;
* `Override.Defect.path_eq_path_iff`, `Classifier.Defect.path_eq_path_iff`,
  `Rule.Defect.path_eq_path_iff`: the defects of one override or rule;
* `Defect.Alike`, `Defect.path_eq_path_iff`: the defects that one path stands for;
* `Draft.paths_tell_defects`: what the paths of a draft's findings tell;
* `Draft.one_path_for_two_defects`: what they do not.
-/

namespace ToolGate

namespace Finding

/-! ## Parts of paths -/

theorem getLast?_append (p : String) {q : String} {c : Char} (hq : q.toList.getLast? = some c) :
    (p ++ q).toList.getLast? = some c := by
  rw [String.toList_append, List.getLast?_append, hq]
  rfl

/-- One path does not end in two ways. -/
theorem last_eq_of_eq {p q : String} {c d : Char} (hp : p.toList.getLast? = some c)
    (hq : q.toList.getLast? = some d) (h : p = q) : c = d := by
  rw [h, hq] at hp
  exact (Option.some.inj hp).symm

theorem getLast?_item (p : String) (i : Nat) : (item p i).toList.getLast? = some ']' := by
  exact getLast?_append _ (by decide)

theorem item_append (p q : String) (i : Nat) : item (p ++ q) i = p ++ item q i := by
  unfold item
  simp only [String.append_assoc]

theorem toList_toString (i : Nat) : (toString i).toList = Nat.toDigits 10 i := by
  rw [Nat.toString_eq_repr, Nat.repr_eq_ofList_toDigits, String.toList_ofList]

/-- Different places are written in different ways. -/
theorem toString_eq_toString_iff {i j : Nat} : toString i = toString j ↔ i = j := by
  constructor
  · intro h
    have hdigits : Nat.toDigits 10 i = Nat.toDigits 10 j := by
      rw [← toList_toString, ← toList_toString, h]
    -- the digits are read back as the number
    rw [← Nat.ofDigitChars_ten_toDigits (n := i), hdigits, Nat.ofDigitChars_ten_toDigits]
  · rintro rfl
    rfl

/-- The digits of a place have no bracket among them. -/
theorem bracket_not_mem_toString (i : Nat) : '[' ∉ (toString i).toList := by
  intro hmem
  rw [toList_toString] at hmem
  have hdigit : ('[' : Char).isDigit = true :=
    Nat.isDigit_of_mem_toDigits (by decide) (by decide) hmem
  exact absurd hdigit (by decide)

/-- The path of an item tells the list and the place. -/
theorem item_eq_item_iff {p q : String} {i j : Nat} : item p i = item q j ↔ p = q ∧ i = j := by
  have hbracket : ("[" : String).toList = ['['] := by decide
  unfold item
  rw [String.append_left_inj, Text.join_eq_join_iff hbracket, toString_eq_toString_iff]
  constructor
  · rintro (h | h | h)
    · exact h
    · exact absurd (h.mark_mem_right hbracket) (bracket_not_mem_toString j)
    · exact absurd (h.mark_mem_right hbracket) (bracket_not_mem_toString i)
  · exact .inl

theorem dot_toList : ("." : String).toList = ['.'] := by decide

/-- The path of a tool tells which tool it is, up to the dots in names. -/
theorem tool_eq_tool_iff {p s t s' t' : String} :
    p ++ "." ++ s ++ "." ++ t = p ++ "." ++ s' ++ "." ++ t' ↔
      (s = s' ∧ t = t') ∨ Text.Moved "." s t s' t' ∨ Text.Moved "." s' t' s t := by
  have hnames : ∀ s t, p ++ "." ++ s ++ "." ++ t = p ++ "." ++ (s ++ "." ++ t) := by
    intro s t
    simp only [String.append_assoc]
  rw [hnames, hnames, String.append_right_inj, Text.join_eq_join_iff dot_toList]

end Finding

namespace Draft

open Finding

/-! ## Defects of overrides and rules -/

namespace Override.Defect

/-- The last character of a path. -/
def last : Defect → Char
  | .verb => 'b'
  | .label _ => ']'

theorem getLast?_path (p : String) (x : Defect) : (x.path p).toList.getLast? = some x.last := by
  cases x with
  | verb => exact getLast?_append _ (by decide)
  | label j => exact getLast?_item _ j

theorem path_eq_append (p : String) (x : Defect) : x.path p = p ++ x.path "" := by
  cases x <;> simp [path, item_append]

/-- The path of a defect tells the override and the defect. -/
theorem path_eq_path_iff {p p' : String} {x x' : Defect} :
    x.path p = x'.path p' ↔ p = p' ∧ x = x' := by
  constructor
  · intro h
    have hlast : x.last = x'.last := last_eq_of_eq (getLast?_path _ x) (getLast?_path _ x') h
    cases x with
    | verb =>
      cases x' with
      | verb => exact ⟨(String.append_left_inj _).1 h, rfl⟩
      | label j => simp [last] at hlast
    | label j =>
      cases x' with
      | verb => simp [last] at hlast
      | label j' =>
        rcases item_eq_item_iff.1 h with ⟨hlabels, rfl⟩
        exact ⟨(String.append_left_inj _).1 hlabels, rfl⟩
  · rintro ⟨rfl, rfl⟩
    rfl

end Override.Defect

namespace Classifier.Defect

/-- The last character of a path; that of a rule as a whole ends like an item. -/
def last : Defect → Char
  | .field => 'd'
  | .test => ']'
  | .setLabels => 's'
  | .label _ => ']'

/-- The path of a defect of a rule ends in it. -/
theorem getLast?_path (p : String) (i : Nat) (x : Defect) :
    (x.path (item p i)).toList.getLast? = some x.last := by
  cases x with
  | field => exact getLast?_append _ (by decide)
  | test => exact getLast?_item p i
  | setLabels => exact getLast?_append _ (by decide)
  | label j => exact getLast?_item _ j

theorem path_eq_append (p : String) (x : Defect) : x.path p = p ++ x.path "" := by
  cases x <;> simp [path, item_append]

/-- What is wrong with the number of tests has the path of a label if the tool of the one rule is
called as the labels of the other one are. -/
def Overlap (p : String) (i : Nat) (x : Defect) (p' : String) (i' : Nat) (x' : Defect) : Prop :=
  x = .test ∧ x' = .label i ∧ p = item p' i' ++ ".setLabels"

/-- The path of a defect tells the rule and the defect, unless two of them overlap. -/
theorem path_eq_path_iff {p p' : String} {i i' : Nat} {x x' : Defect} :
    x.path (item p i) = x'.path (item p' i') ↔
      (p = p' ∧ i = i' ∧ x = x') ∨ Overlap p i x p' i' x' ∨ Overlap p' i' x' p i x := by
  constructor
  · intro h
    have hlast : x.last = x'.last :=
      last_eq_of_eq (getLast?_path p i x) (getLast?_path p' i' x') h
    -- paths of different ends are different, and those of one end are cut back to their rules
    have hsame : ∀ {q : String}, item p i ++ q = item p' i' ++ q → p = p' ∧ i = i' := by
      intro q hq
      exact item_eq_item_iff.1 ((String.append_left_inj q).1 hq)
    cases x with
    | field =>
      cases x' with
      | field =>
        rcases hsame h with ⟨hp, hi⟩
        exact .inl ⟨hp, hi, rfl⟩
      | _ => simp [last] at hlast
    | test =>
      cases x' with
      | test =>
        rcases item_eq_item_iff.1 h with ⟨hp, hi⟩
        exact .inl ⟨hp, hi, rfl⟩
      -- the path of a rule ends like that of a label, so the end does not tell them apart
      | label j =>
        rcases item_eq_item_iff.1 h with ⟨hp, rfl⟩
        exact .inr (.inl ⟨rfl, rfl, hp⟩)
      | _ => simp [last] at hlast
    | setLabels =>
      cases x' with
      | setLabels =>
        rcases hsame h with ⟨hp, hi⟩
        exact .inl ⟨hp, hi, rfl⟩
      | _ => simp [last] at hlast
    | label j =>
      cases x' with
      | label j' =>
        rcases item_eq_item_iff.1 h with ⟨hlabels, rfl⟩
        rcases hsame hlabels with ⟨hp, hi⟩
        exact .inl ⟨hp, hi, rfl⟩
      | test =>
        rcases item_eq_item_iff.1 h with ⟨hp, rfl⟩
        exact .inr (.inr ⟨rfl, rfl, hp.symm⟩)
      | _ => simp [last] at hlast
  · rintro (⟨rfl, rfl, rfl⟩ | ⟨rfl, rfl, rfl⟩ | ⟨rfl, rfl, rfl⟩) <;> rfl

end Classifier.Defect

namespace Rule.Defect

/-- The last character of a path. -/
def last : Defect → Char
  | .name => 'e'
  | .verb => 'b'
  | .label _ => ']'
  | .action => 'n'
  | .priority => 'y'
  | .approvers => 's'

theorem getLast?_path (p : String) (x : Defect) : (x.path p).toList.getLast? = some x.last := by
  cases x with
  | label j => exact getLast?_item _ j
  | _ => exact getLast?_append _ (by decide)

theorem path_eq_append (p : String) (x : Defect) : x.path p = p ++ x.path "" := by
  cases x <;> simp [path, item_append, String.append_assoc]

/-- The path of a defect tells the policy rule and the defect. -/
theorem path_eq_path_iff {p p' : String} {x x' : Defect} :
    x.path p = x'.path p' ↔ p = p' ∧ x = x' := by
  constructor
  · intro h
    have hlast : x.last = x'.last := last_eq_of_eq (getLast?_path _ x) (getLast?_path _ x') h
    have hx : x = x' := by
      cases x with
      | label j =>
        cases x' with
        | label j' => rw [(item_eq_item_iff.1 h).2]
        | _ => simp [last] at hlast
      | _ => cases x' <;> first | rfl | simp [last] at hlast
    subst hx
    rw [path_eq_append p, path_eq_append p', String.append_left_inj] at h
    exact ⟨h, rfl⟩
  · rintro ⟨rfl, rfl⟩
    rfl

end Rule.Defect

/-! ## Defects of drafts -/

namespace Defect

/-- The characters with which the paths of a section begin. -/
def heading : Defect → List Char
  | .version => ['v', 'e']
  | .profile _ => ['p', 'r']
  | .override .. => ['t', 'o']
  | .classifier .. => ['c', 'l']
  | .rule .. => ['p', 'o']

/-- The first two characters of a path tell the section. -/
theorem take_path (x : Defect) : x.path.toList.take 2 = x.heading := by
  cases x with
  | version => decide
  | profile i => simp [path, item, heading]
  | override s t x =>
    simp only [path]
    rw [Override.Defect.path_eq_append]
    simp [heading]
  | classifier s t i x =>
    simp only [path]
    rw [Classifier.Defect.path_eq_append]
    simp [item, heading]
  | rule i x =>
    simp only [path]
    rw [Rule.Defect.path_eq_append]
    simp [item, heading]

/-- Different defects with one path. -/
inductive Alike : Defect → Defect → Prop where
  /-- A part of the service's name, and the dot before it, belongs to the tool's name. -/
  | override {s t s' t' : String} (x : Override.Defect) (h : Text.Moved "." s t s' t') :
    Alike (.override s t x) (.override s' t' x)
  | classifier {s t s' t' : String} (i : Nat) (x : Classifier.Defect)
    (h : Text.Moved "." s t s' t') : Alike (.classifier s t i x) (.classifier s' t' i x)
  /-- The one tool, with its service and the dot between them, is called as the labels of the other
  one's rule are, and the rules of the former stand where the labels of the latter do. -/
  | labels {s t s' t' : String} (i i' : Nat)
    (h : s ++ "." ++ t = s' ++ "." ++ (item t' i' ++ ".setLabels")) :
    Alike (.classifier s t i .test) (.classifier s' t' i' (.label i))

theorem labels_eq_iff {p s t s' t' : String} {i' : Nat} :
    p ++ "." ++ s ++ "." ++ t = item (p ++ "." ++ s' ++ "." ++ t') i' ++ ".setLabels" ↔
      s ++ "." ++ t = s' ++ "." ++ (item t' i' ++ ".setLabels") := by
  rw [item_append]
  simp only [String.append_assoc, String.append_right_inj]

/-- Defects that are alike have one path. -/
theorem Alike.path_eq {x y : Defect} (h : Alike x y) : x.path = y.path := by
  cases h with
  | override x h =>
    exact Override.Defect.path_eq_path_iff.2 ⟨tool_eq_tool_iff.2 (.inr (.inl h)), rfl⟩
  | classifier i x h =>
    exact Classifier.Defect.path_eq_path_iff.2
      (.inl ⟨tool_eq_tool_iff.2 (.inr (.inl h)), rfl, rfl⟩)
  | labels i i' h =>
    exact Classifier.Defect.path_eq_path_iff.2 (.inr (.inl ⟨rfl, rfl, labels_eq_iff.2 h⟩))

/-- And they are not the same. -/
theorem Alike.ne {x y : Defect} (h : Alike x y) : x ≠ y := by
  intro heq
  cases h with
  | override x h =>
    cases heq
    exact h.left_ne dot_toList rfl
  | classifier i x h =>
    cases heq
    exact h.left_ne dot_toList rfl
  | labels i i' h => cases heq

/-- Two defects have one path only if they are the same or alike. -/
theorem path_eq_path_iff {x y : Defect} : x.path = y.path ↔ x = y ∨ Alike x y ∨ Alike y x := by
  constructor
  · intro h
    -- a path begins with the heading of its section, so both defects are of one section
    have hheading : x.heading = y.heading := by
      rw [← take_path, ← take_path, h]
    cases x with
    | version =>
      cases y with
      | version => exact .inl rfl
      | _ => simp [heading] at hheading
    | profile i =>
      cases y with
      | profile j =>
        rw [(item_eq_item_iff.1 h).2]
        exact .inl rfl
      | _ => simp [heading] at hheading
    | override s t x =>
      cases y with
      | override s' t' y =>
        rcases Override.Defect.path_eq_path_iff.1 h with ⟨hname, rfl⟩
        rcases tool_eq_tool_iff.1 hname with ⟨rfl, rfl⟩ | hmoved | hmoved
        · exact .inl rfl
        · exact .inr (.inl (.override x hmoved))
        · exact .inr (.inr (.override x hmoved))
      | _ => simp [heading] at hheading
    | classifier s t i x =>
      cases y with
      | classifier s' t' i' y =>
        -- the names agree, or the labels of the one rule are called as the tool of the other is
        rcases Classifier.Defect.path_eq_path_iff.1 h with
          ⟨hname, rfl, rfl⟩ | ⟨rfl, rfl, hname⟩ | ⟨rfl, rfl, hname⟩
        · rcases tool_eq_tool_iff.1 hname with ⟨rfl, rfl⟩ | hmoved | hmoved
          · exact .inl rfl
          · exact .inr (.inl (.classifier i x hmoved))
          · exact .inr (.inr (.classifier i x hmoved))
        · exact .inr (.inl (.labels i i' (labels_eq_iff.1 hname)))
        · exact .inr (.inr (.labels i' i (labels_eq_iff.1 hname)))
      | _ => simp [heading] at hheading
    | rule i x =>
      cases y with
      | rule j y =>
        rcases Rule.Defect.path_eq_path_iff.1 h with ⟨hitem, rfl⟩
        rw [(item_eq_item_iff.1 hitem).2]
        exact .inl rfl
      | _ => simp [heading] at hheading
  · rintro (rfl | h | h)
    · rfl
    · exact h.path_eq
    · exact h.path_eq.symm

end Defect

/-! ## Findings of drafts -/

variable {d : Draft}

/-- The paths of findings are distinct unless two defects of the draft are alike. -/
theorem nodup_paths_iff :
    (d.findings.map (·.path)).Nodup ↔ ∀ x y, d.Violates x → d.Violates y → ¬Defect.Alike x y := by
  rcases d.tells_findings with ⟨defects, hnodup, hmem, hpath⟩
  rw [hpath, List.nodup_map_iff_inj_on hnodup]
  simp only [hmem]
  constructor
  · intro hinjective x y hx hy halike
    exact halike.ne (hinjective x hx y hy halike.path_eq)
  · intro hnone x hx y hy heq
    rcases Defect.path_eq_path_iff.1 heq with hsame | halike | halike
    · exact hsame
    · exact absurd halike (hnone x y hx hy)
    · exact absurd halike (hnone y x hy hx)

/-- The names in a draft that leave no doubt: no service has a dot, and no tool is called as the
labels of a rule of another tool are. -/
structure PlainNames (d : Draft) : Prop where
  override : ∀ s t o, d.toolOverrides.find? s t = some o → '.' ∉ s.toList
  classifier : ∀ s t rules, d.classifierOverrides.find? s t = some rules → '.' ∉ s.toList
  tool : ∀ s t rules, d.classifierOverrides.find? s t = some rules →
    ∀ t' i, t ≠ item t' i ++ ".setLabels"

/-- Plain names leave no two defects alike. -/
theorem PlainNames.not_alike (h : PlainNames d) {x y : Defect} (hx : d.Violates x)
    (hy : d.Violates y) : ¬Defect.Alike x y := by
  intro halike
  cases halike with
  | override x hmoved =>
    rcases hx with ⟨o, ho, -⟩
    exact h.override _ _ o ho (hmoved.mark_mem dot_toList)
  | classifier i x hmoved =>
    rcases hx with ⟨rules, hrules, -⟩
    exact h.classifier _ _ rules hrules (hmoved.mark_mem dot_toList)
  | labels i i' hname =>
    rcases hx with ⟨rules, hrules, -⟩
    rcases hy with ⟨rules', hrules', -⟩
    rcases (Text.join_eq_join_iff dot_toList).1 hname with ⟨-, htool⟩ | hmoved | hmoved
    · exact h.tool _ _ rules hrules _ _ htool
    · exact h.classifier _ _ rules hrules (hmoved.mark_mem dot_toList)
    · exact h.classifier _ _ rules' hrules' (hmoved.mark_mem dot_toList)

/-- Every finding of a draft stands for one defect and has its path, which is also that of the
defects that are alike, and of no other one. So the paths of the findings are distinct unless two
defects of the draft are alike, and that takes a dot in the name of a service or a tool that is
called as labels are. -/
theorem paths_tell_defects (d : Draft) :
    (∃ defects : List Defect, defects.Nodup ∧ (∀ x, x ∈ defects ↔ d.Violates x) ∧
      d.findings.map (·.path) = defects.map Defect.path) ∧
    (∀ x y : Defect, x.path = y.path ↔ x = y ∨ x.Alike y ∨ y.Alike x) ∧
    ((d.findings.map (·.path)).Nodup ↔
      ∀ x y, d.Violates x → d.Violates y → ¬Defect.Alike x y) ∧
    (PlainNames d → (d.findings.map (·.path)).Nodup) :=
  ⟨d.tells_findings, fun _ _ => Defect.path_eq_path_iff, nodup_paths_iff,
    fun h => nodup_paths_iff.2 fun _ _ => h.not_alike⟩

/-- A draft with defects in four sections, one of them about a tool whose name has a dot and one
about a rule that fails every requirement. -/
theorem paths_tell_defects_of_dot_in_tool :
    let empty : Classifier := ⟨" ", none, none, none, []⟩
    let d : Draft := ⟨"2.0", ∅, ["docs"],
      ToolMap.put ∅ "docs" "v2.search" ⟨.empty, some "read", some ["a:b", "a"]⟩,
      ToolMap.put ∅ "docs" "search" [empty], []⟩
    PlainNames d ∧ (d.findings.map (·.path)).Nodup ∧
      d.findings.map (·.path) = ["version", "profiles[0]", "toolOverrides.docs.v2.search.verb",
        "toolOverrides.docs.v2.search.labels[1]", "classifierOverrides.docs.search[0].field",
        "classifierOverrides.docs.search[0]", "classifierOverrides.docs.search[0].setLabels"] := by
  intro empty d
  have hnames : ∀ {α : Type} {a b : α} {tool s t : String},
      (ToolMap.put (∅ : ToolMap α) "docs" tool a).find? s t = some b → "docs" = s ∧ tool = t := by
    intro α a b tool s t hfind
    rw [ToolMap.find?_put] at hfind
    split at hfind
    · assumption
    · simp [ToolMap.find?] at hfind
  have hplain : PlainNames d := by
    refine ⟨fun s t o ho => ?_, fun s t rules hrules => ?_, fun s t rules hrules t' i heq => ?_⟩
    · rcases hnames ho with ⟨rfl, -⟩
      decide
    · rcases hnames hrules with ⟨rfl, -⟩
      decide
    · rcases hnames hrules with ⟨-, rfl⟩
      -- the name does not end as that of labels does
      have htool : ("search" : String).toList.getLast? = some 'h' := by decide
      have hlabels : (item t' i ++ ".setLabels").toList.getLast? = some 's' :=
        getLast?_append _ (by decide)
      have hlast : 'h' = 's' := last_eq_of_eq htool hlabels heq
      exact absurd hlast (by decide)
  rcases paths_tell_defects d with ⟨-, -, -, hnodup⟩
  exact ⟨hplain, hnodup hplain, by decide +kernel⟩

/-- In the one draft, a dot stands in the name of a service or in that of its tool. In the other
one no service has a dot, but a tool is called as the labels of another one are. Each of them has
two findings of one path. -/
theorem one_path_for_two_defects :
    (¬ ∀ d : Draft, (d.findings.map (·.path)).Nodup) ∧
      ¬ ∀ d : Draft, (∀ s t o, d.toolOverrides.find? s t = some o → '.' ∉ s.toList) →
        (∀ s t rules, d.classifierOverrides.find? s t = some rules → '.' ∉ s.toList) →
        (d.findings.map (·.path)).Nodup := by
  let bad : Override := ⟨.empty, some "x", none⟩
  let dotted : Draft :=
    ⟨"1.0", ∅, [], ToolMap.put (ToolMap.put ∅ "a" "b.c" bad) "a.b" "c" bad, ∅, []⟩
  let labels : Draft := ⟨"1.0", ∅, [], ∅,
    ToolMap.put (ToolMap.put ∅ "docs" "t" [⟨"q", none, none, some true, ["BAD"]⟩])
      "docs" "t[0].setLabels" [⟨"q", none, none, none, ["scope:internal"]⟩], []⟩
  refine ⟨fun h => absurd (h dotted) (by decide +kernel), fun h => ?_⟩
  refine absurd (h labels ?_ ?_) (by decide +kernel)
  · intro s t o ho
    simp [labels, ToolMap.find?] at ho
  · intro s t rules hrules
    have hservice : "docs" = s := by
      simp only [labels, ToolMap.find?_put] at hrules
      split at hrules
      · rename_i hkey
        exact hkey.1
      · split at hrules
        · rename_i hkey
          exact hkey.1
        · simp [ToolMap.find?] at hrules
    rw [← hservice]
    decide

end Draft

end ToolGate
