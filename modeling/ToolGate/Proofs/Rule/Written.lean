import ToolGate.Draft.Reader
import ToolGate.Profile.Reader
import ToolGate.Proofs.Yaml.Reading

/-!
# Classifier rules as they are written

The same classifier rule may be written in a document and in a profile, and there is a reader for
each of the two. Written rules have any fields in any order, as often as one likes; their texts are
in quotes and their truth values plain. What either reader makes of such a rule is said in terms of
what the rule says, without reading it.

* `WrittenRule`: written rules, with the nodes that the readers get;
* `WrittenRule.asRecord_node`: a field that is known of must not stand twice;
* `WrittenRule.ofYaml_draft`: what the reader of documents makes of a written rule;
* `WrittenRule.ofYaml_rule`: what the reader of profiles makes of it.
-/

namespace ToolGate

/-! ## Writing -/

/-- A text in single or double quotes. -/
structure QuotedText where
  text : String
  double : Bool

def QuotedText.node (q : QuotedText) : Yaml.Node :=
  .scalar q.text (if q.double then .doubleQuoted else .singleQuoted) none

namespace WrittenRule

def names : List String := ["field", "contains", "notContains", "present", "setLabels"]

/-- What a field of a rule says: texts are in quotes, and a truth value is plain. A field that no
rule has may have any value. -/
inductive Content where
  | field (q : QuotedText)
  | contains (q : QuotedText)
  | notContains (q : QuotedText)
  | present (spelling : String) (value : Bool)
      (spells : Yaml.Scalar.bool? spelling = some value)
  | setLabels (items : List QuotedText) (tag : Option String)
  | other (name : String) (value : Yaml.Node) (unknown : name ∉ names)

namespace Content

def name : Content → String
  | .field _ => "field"
  | .contains _ => "contains"
  | .notContains _ => "notContains"
  | .present .. => "present"
  | .setLabels .. => "setLabels"
  | .other name .. => name

def value : Content → Yaml.Node
  | .field q | .contains q | .notContains q => q.node
  | .present spelling .. => .scalar spelling .plain none
  | .setLabels items tag => .sequence (items.map QuotedText.node) tag
  | .other _ value _ => value

/-- The test that a field makes, if it makes one. -/
def test? : Content → Option Matcher
  | .contains q => some (.contains q.text)
  | .notContains q => some (.notContains q.text)
  | .present _ value _ => some (.present value)
  | _ => none

end Content

/-- A field with its name, which may be a scalar of any kind. -/
structure Field where
  content : Content
  style : Yaml.Style
  tag : Option String

end WrittenRule

/-- A classifier rule as it is written: any fields in any order, as often as one likes. -/
structure WrittenRule where
  fields : List WrittenRule.Field
  tag : Option String

namespace WrittenRule

variable {w : WrittenRule} {d : Yaml.Document} {k k' : Nat}

def node (w : WrittenRule) : Yaml.Node :=
  .mapping (w.fields.map fun f => (.scalar f.content.name f.style f.tag, f.content.value)) w.tag

/-- What the fields say, in the order in which they are written. -/
def contents (w : WrittenRule) : List Content := w.fields.map Field.content

/-- The tests that a rule makes, in the order in which they are written. -/
def tests (w : WrittenRule) : List Matcher := w.contents.filterMap Content.test?

/-- What the first field of a name says. -/
def content? (w : WrittenRule) (name : String) : Option Content :=
  w.contents.find? fun c => c.name == name

/-- Whether no field of some names is written twice. -/
def Once (w : WrittenRule) (names : List String) : Prop :=
  ∀ name ∈ names, w.contents.countP (fun c => c.name == name) ≤ 1

/-- The fields of the record that is written. -/
def record (w : WrittenRule) : List (String × Yaml.Node) :=
  w.contents.map fun c => (c.name, c.value)

/-- A field of the record is the first one that is written with this name. -/
theorem field?_record (w : WrittenRule) (name : String) :
    Yaml.field? w.record name = (w.content? name).map Content.value := by
  unfold Yaml.field? record content?
  rw [List.find?_map, Option.map_map]
  rfl

theorem countP_record (w : WrittenRule) (name : String) :
    w.record.countP (fun m => m.1 == name) = w.contents.countP fun c => c.name == name := by
  unfold record
  rw [List.countP_map]
  rfl

/-- The names of fields are read whatever their style is. -/
theorem mapM_asField (w : WrittenRule) (d : Yaml.Document) (k : Nat) :
    (w.fields.map fun f =>
      (Yaml.Node.scalar f.content.name f.style f.tag, f.content.value)).mapM Yaml.asField d k =
        .ok (w.record, k) := by
  unfold record contents
  induction w.fields with
  | nil => rfl
  | cons f fields ih => exact Yaml.mapM_cons_eq_ok_iff.2 ⟨_, _, _, rfl, ih, rfl⟩

/-- A rule is read as a record if none of the names that are known of is written twice. -/
theorem asRecord_node {known : List String} {fields : List (String × Yaml.Node)} :
    Yaml.asRecord known w.node d k = .ok (fields, k') ↔
      w.Once known ∧ fields = w.record ∧ k' = k := by
  unfold Yaml.asRecord
  rw [Yaml.bind_of_ok rfl]
  simp only [node]
  rw [Yaml.bind_of_ok (mapM_asField w d k)]
  simp only [countP_record]
  -- a known field that is given twice is an error, whatever it holds
  cases hfind : known.find? fun name => decide (1 < w.contents.countP fun c => c.name == name) with
  | some name =>
    have hmany := List.find?_some hfind
    have hmem := List.mem_of_find?_eq_some hfind
    refine iff_of_false Yaml.throw_ne_ok ?_
    rintro ⟨honce, _⟩
    have hfew := honce name hmem
    simp only [decide_eq_true_eq] at hmany
    omega
  | none =>
    have honce : w.Once known := by
      intro name hname
      have hfew := List.find?_eq_none.1 hfind name hname
      simpa using hfew
    simp only [honce, true_and]
    exact Yaml.pure_eq_ok_iff.trans (and_congr eq_comm eq_comm)

/-! ## Values -/

section Values

variable {α : Type} {name : String} {get : Content → Option α}

theorem name_of_content? {c : Content} (h : w.content? name = some c) : c.name = name := by
  have hname := List.find?_some h
  simpa using hname

/-- A field that may be left out is read for what it says; `g` makes the value of it. -/
theorem optional_record {β : Type} {f : Yaml.Reader β} (g : Option α → β)
    (h : ∀ c : Content, c.name = name →
      ∃ a, get c = some a ∧ f c.value d k = .ok (g (some a), k)) :
    Yaml.optional w.record name (g none) f d k = .ok (g ((w.content? name).bind get), k) := by
  unfold Yaml.optional
  rw [field?_record]
  cases hc : w.content? name with
  | none => rfl
  | some c =>
    rcases h c (name_of_content? hc) with ⟨a, ha, hread⟩
    simp only [Option.map_some, Option.bind_some, ha]
    exact hread

/-- A field that must not be left out. -/
theorem required_record {f : Yaml.Reader α} {a : α} :
    Yaml.required w.record name f d k = .ok (a, k') ↔
      ∃ c, w.content? name = some c ∧ f c.value d k = .ok (a, k') := by
  unfold Yaml.required
  rw [field?_record]
  cases w.content? name with
  | none =>
    refine iff_of_false Yaml.throw_ne_ok ?_
    rintro ⟨c, hc, _⟩
    cases hc
  | some c => simp

end Values

namespace Content

/-- The text in quotes that a field gives. -/
def text? : Content → Option String
  | .field q | .contains q | .notContains q => some q.text
  | _ => none

/-- The truth value that a field gives. -/
def truth? : Content → Option Bool
  | .present _ value _ => some value
  | _ => none

/-- The texts in a list that a field gives. -/
def texts? : Content → Option (List String)
  | .setLabels items _ => some (items.map QuotedText.text)
  | _ => none

variable {c : Content} {name : String}

theorem ne_of_unknown {known : String} (hknown : known ∈ names) {value : Yaml.Node}
    {unknown : name ∉ names} : (other name value unknown).name ≠ known := by
  rintro rfl
  exact unknown hknown

/-- A field of one of these names gives a text in quotes. -/
theorem exists_text (hname : name ∈ ["field", "contains", "notContains"]) (h : c.name = name) :
    ∃ q : QuotedText, c.value = q.node ∧ c.text? = some q.text := by
  subst h
  cases c with
  | field q => exact ⟨q, rfl, rfl⟩
  | contains q => exact ⟨q, rfl, rfl⟩
  | notContains q => exact ⟨q, rfl, rfl⟩
  | present spelling value spells => simp [Content.name] at hname
  | setLabels items tag => simp [Content.name] at hname
  | other other value unknown =>
    have hsub : ["field", "contains", "notContains"] ⊆ names := by decide
    exact absurd (hsub hname) unknown

/-- This one gives a truth value. -/
theorem exists_truth (h : c.name = "present") :
    ∃ spelling value, Yaml.Scalar.bool? spelling = some value ∧
      c.value = .scalar spelling .plain none ∧ c.truth? = some value := by
  cases c with
  | present spelling value spells => exact ⟨spelling, value, spells, rfl, rfl⟩
  | other other value unknown => exact absurd h (ne_of_unknown (by decide))
  | _ => simp [Content.name] at h

/-- And this one a list of texts. -/
theorem exists_texts (h : c.name = "setLabels") :
    ∃ (items : List QuotedText) (tag : Option String),
      c.value = .sequence (items.map QuotedText.node) tag ∧
        c.texts? = some (items.map QuotedText.text) := by
  cases c with
  | setLabels items tag => exact ⟨items, tag, rfl, rfl⟩
  | other other value unknown => exact absurd h (ne_of_unknown (by decide))
  | _ => simp [Content.name] at h

end Content

/-! ### Texts in quotes -/

theorem asText_quoted (q : QuotedText) : Yaml.asText q.node d k = .ok (q.text, k) := rfl

/-- What is in quotes is not nothing, whatever it is. -/
theorem asOption_quoted (q : QuotedText) :
    Yaml.asOption Yaml.asText q.node d k = .ok (some q.text, k) := by
  rcases q with ⟨text, _ | _⟩ <;> rfl

theorem resolve_quoted (q : QuotedText) :
    Yaml.Scalar.resolve q.text (if q.double then .doubleQuoted else .singleQuoted) none =
      .ok (.text q.text) := by
  rcases q with ⟨text, _ | _⟩ <;> rfl

/-- A list of texts in quotes is read item by item. -/
theorem asList_quoted (items : List QuotedText) (tag : Option String) :
    Yaml.asList Yaml.asText (.sequence (items.map QuotedText.node) tag) d k =
      .ok (items.map QuotedText.text, k) := by
  have hread : (items.map QuotedText.node).mapM Yaml.asText d k =
      .ok (items.map QuotedText.text, k) := by
    rw [List.mapM_map]
    exact Yaml.mapM_of_forall fun q _ => rfl
  exact hread

/-- A text in quotes is read as the label that has this text. -/
theorem label_quoted {q : QuotedText} {label : Label} :
    Label.ofYaml q.node d k = .ok (label, k') ↔ label.text = q.text ∧ k' = k := by
  unfold Label.ofYaml
  rw [Yaml.bind_of_ok (asText_quoted q)]
  cases hlabel : Label.ofText? q.text with
  | none =>
    refine iff_of_false Yaml.throw_ne_ok ?_
    rintro ⟨htext, _⟩
    rw [← htext, Label.ofText?_text] at hlabel
    cases hlabel
  | some l =>
    have hl := Label.ofText?_eq_some hlabel
    refine Yaml.pure_eq_ok_iff.trans (and_congr ⟨?_, fun htext => ?_⟩ eq_comm)
    · rintro rfl
      exact hl
    · rw [← htext, Label.ofText?_text] at hlabel
      exact (Option.some.inj hlabel).symm

/-- Texts in quotes are read as the labels that have them. -/
theorem mapM_labels {items : List QuotedText} {labels : List Label} :
    (items.map QuotedText.node).mapM Label.ofYaml d k = .ok (labels, k') ↔
      labels.map Label.text = items.map QuotedText.text ∧ k' = k := by
  induction items generalizing labels with
  | nil => rw [List.map_nil, Yaml.mapM_nil_eq_ok_iff, List.map_nil, List.map_eq_nil_iff]
  | cons q items ih =>
    rw [List.map_cons, Yaml.mapM_cons_eq_ok_iff]
    simp only [label_quoted]
    constructor
    · rintro ⟨label, _, rest, ⟨hlabel, rfl⟩, hrest, rfl⟩
      rcases ih.1 hrest with ⟨htexts, rfl⟩
      exact ⟨by rw [List.map_cons, List.map_cons, hlabel, htexts], rfl⟩
    · rintro ⟨htexts, rfl⟩
      rcases List.map_eq_cons_iff.1 htexts with ⟨label, rest, rfl, hlabel, hrest⟩
      exact ⟨label, _, rest, ⟨hlabel, rfl⟩, ih.2 ⟨hrest, rfl⟩, rfl⟩

/-! ## The reader of documents -/

/-- The text of the first field of a name. -/
def text? (w : WrittenRule) (name : String) : Option String := (w.content? name).bind Content.text?

/-- The truth value that the rule tests for. -/
def truth? (w : WrittenRule) : Option Bool := (w.content? "present").bind Content.truth?

/-- The labels that the rule sets, as they are written. -/
def texts? (w : WrittenRule) : Option (List String) := (w.content? "setLabels").bind Content.texts?

/-- The draft that a document has of a rule. -/
def draft (w : WrittenRule) : Draft.Classifier :=
  ⟨(w.text? "field").getD "", w.text? "contains", w.text? "notContains", w.truth?,
    w.texts?.getD []⟩

theorem optional_text {name : String} (hname : name ∈ ["field", "contains", "notContains"])
    (w : WrittenRule) :
    Yaml.optional w.record name "" Yaml.asText d k = .ok ((w.text? name).getD "", k) := by
  refine optional_record (fun o => o.getD "") fun c hc => ?_
  rcases Content.exists_text hname hc with ⟨q, hvalue, htext⟩
  exact ⟨q.text, htext, hvalue ▸ asText_quoted q⟩

theorem optional_pattern {name : String} (hname : name ∈ ["field", "contains", "notContains"])
    (w : WrittenRule) :
    Yaml.optional w.record name none (Yaml.asOption Yaml.asText) d k = .ok (w.text? name, k) := by
  refine optional_record id fun c hc => ?_
  rcases Content.exists_text hname hc with ⟨q, hvalue, htext⟩
  exact ⟨q.text, htext, hvalue ▸ asOption_quoted q⟩

theorem optional_truth (w : WrittenRule) :
    Yaml.optional w.record "present" none (Yaml.asOption Yaml.asBool) d k = .ok (w.truth?, k) := by
  refine optional_record id fun c hc => ?_
  rcases Content.exists_truth hc with ⟨spelling, value, hspells, hvalue, htruth⟩
  exact ⟨value, htruth, hvalue ▸ Yaml.asOption_of_bool? hspells⟩

theorem optional_texts (w : WrittenRule) :
    Yaml.optional w.record "setLabels" [] (Yaml.asList Yaml.asText) d k =
      .ok (w.texts?.getD [], k) := by
  refine optional_record (fun o => o.getD []) fun c hc => ?_
  rcases Content.exists_texts hc with ⟨items, tag, hvalue, htexts⟩
  exact ⟨_, htexts, hvalue ▸ asList_quoted items tag⟩

/-- In a document a rule is read if no field is written twice. -/
theorem ofYaml_draft {c : Draft.Classifier} :
    Draft.Classifier.ofYaml w.node d k = .ok (c, k') ↔
      w.Once names ∧ c = w.draft ∧ k' = k := by
  unfold Draft.Classifier.ofYaml
  rw [Yaml.bind_eq_ok_iff]
  simp only [asRecord_node]
  constructor
  · rintro ⟨fields, k₁, ⟨honce, rfl, rfl⟩, hrest⟩
    rw [Yaml.bind_of_ok (optional_text (by decide) w),
      Yaml.bind_of_ok (optional_pattern (by decide) w),
      Yaml.bind_of_ok (optional_pattern (by decide) w),
      Yaml.bind_of_ok (optional_truth w), Yaml.bind_of_ok (optional_texts w),
      Yaml.pure_eq_ok_iff] at hrest
    exact ⟨honce, hrest.1.symm, hrest.2.symm⟩
  · rintro ⟨honce, rfl, rfl⟩
    refine ⟨w.record, k', ⟨honce, rfl, rfl⟩, ?_⟩
    rw [Yaml.bind_of_ok (optional_text (by decide) w),
      Yaml.bind_of_ok (optional_pattern (by decide) w),
      Yaml.bind_of_ok (optional_pattern (by decide) w),
      Yaml.bind_of_ok (optional_truth w), Yaml.bind_of_ok (optional_texts w)]
    rfl

/-! ## The reader of profiles -/

/-- Takes a field for what it stands for. -/
def followField (f : String × Yaml.Node) : Yaml.Reading (String × Yaml.Node) := do
  return (f.1, ← Yaml.follow f.2)

/-- Whether a field is neither the field nor the labels of a rule. -/
def isBeside (f : String × Yaml.Node) : Bool := !(["field", "setLabels"].contains f.1)

/-- Takes the fields beside the field and the labels of a rule for what they stand for. -/
def readBeside (fields : List (String × Yaml.Node)) :
    Yaml.Reading (List (String × Yaml.Node)) := do
  let further ← (fields.filter isBeside).mapM followField
  further.forM fun f => Yaml.checkPlainData ClassifierRule.maxFieldDepth f.2
  return further

/-- Whether the fields beside the field and the labels of a rule stand for something, all of them,
when some aliases have been followed before. -/
def PlainBeside (w : WrittenRule) (d : Yaml.Document) (k : Nat) : Prop :=
  ∃ further k', readBeside w.record d k = .ok (further, k')

theorem followField_fst {f b : String × Yaml.Node} (h : followField f d k = .ok (b, k')) :
    b.1 = f.1 := by
  rcases Yaml.bind_eq_ok_iff.1 h with ⟨value, k₁, _, hpure⟩
  rw [← (Yaml.pure_eq_ok_iff.1 hpure).1]

/-- The fields that make tests are told by their names. -/
theorem Content.isSome_test? (c : Content) : c.test?.isSome = Matcher.names.contains c.name := by
  cases c with
  | other name value unknown =>
    have hsub : Matcher.names ⊆ names := by decide
    have hname : Matcher.names.contains name = false := by
      rw [Bool.eq_false_iff]
      intro hmem
      exact unknown (hsub (List.contains_iff_mem.1 hmem))
    exact hname.symm
  | _ => rfl

/-- A test is no alias. -/
theorem followField_of_test {c : Content} (h : c.test?.isSome = true) :
    followField (c.name, c.value) d k = .ok ((c.name, c.value), k) := by
  cases c with
  | contains q => rfl
  | notContains q => rfl
  | present spelling value spells => rfl
  | _ => contradiction

/-- The first field that makes a test is found among those beside the field and the labels. -/
theorem find?_further {cs : List Content} {further : List (String × Yaml.Node)}
    (h : ((cs.map fun c => (c.name, c.value)).filter isBeside).mapM followField d k =
      .ok (further, k')) :
    (further.find? fun f => Matcher.names.contains f.1) =
      (cs.find? fun c => c.test?.isSome).map fun c => (c.name, c.value) := by
  induction cs generalizing k further with
  | nil =>
    rcases Yaml.mapM_nil_eq_ok_iff.1 h with ⟨rfl, _⟩
    rfl
  | cons c cs ih =>
    rw [List.map_cons] at h
    -- the fields of the rule itself are no tests
    cases hbeside : isBeside (c.name, c.value) with
    | false =>
      rw [List.filter_cons_of_neg (by simp [hbeside])] at h
      have htest : c.test?.isSome = false := by
        cases c <;> first | rfl | contradiction
      rw [List.find?_cons_of_neg (by simp [htest])]
      exact ih h
    | true =>
      rw [List.filter_cons_of_pos hbeside] at h
      rcases Yaml.mapM_cons_eq_ok_iff.1 h with ⟨b, k₁, rest, hb, hrest, rfl⟩
      have htest : Matcher.names.contains b.1 = c.test?.isSome := by
        rw [c.isSome_test?, followField_fst hb]
      cases hc : c.test?.isSome with
      | true =>
        rw [followField_of_test hc] at hb
        cases hb
        simp only [List.find?_cons, htest, hc, Option.map_some]
      | false =>
        simp only [List.find?_cons, htest, hc]
        exact ih hrest

/-- The first test is that of the first field that makes one. -/
theorem head?_tests (w : WrittenRule) :
    w.tests.head? = (w.contents.find? fun c => c.test?.isSome).bind Content.test? := by
  unfold tests
  induction w.contents with
  | nil => rfl
  | cons c cs ih =>
    cases hc : c.test? with
    | none => rw [List.filterMap_cons_none hc, List.find?_cons_of_neg (by simp [hc]), ih]
    | some m => rw [List.filterMap_cons_some hc, List.find?_cons_of_pos (by simp [hc])]; simp [hc]

/-- The test that a field makes is the one that is read of it. -/
theorem ofYamlField_of_test {c : Content} {m : Matcher} (h : c.test? = some m) :
    Matcher.ofYamlField c.name c.value d k = .ok (m, k) := by
  cases c with
  | contains q =>
    cases h
    exact Yaml.bind_of_ok (Yaml.asScalar_of_resolve (resolve_quoted q))
  | notContains q =>
    cases h
    exact Yaml.bind_of_ok (Yaml.asScalar_of_resolve (resolve_quoted q))
  | present spelling value spells =>
    cases h
    exact Yaml.bind_of_ok (Yaml.asScalar_of_resolve (Yaml.resolve_of_bool? spells))
  | _ => contradiction

/-- A text that must not be left out. -/
theorem required_text {w : WrittenRule} {s : String} :
    Yaml.required w.record "field" Yaml.asText d k = .ok (s, k') ↔
      w.text? "field" = some s ∧ k' = k := by
  rw [required_record]
  unfold text?
  cases hc : w.content? "field" with
  | none => simp
  | some c =>
    rcases Content.exists_text (by decide) (name_of_content? hc) with ⟨q, hvalue, htext⟩
    simp only [Option.some.injEq, exists_eq_left', hvalue, asText_quoted, Option.bind_some, htext,
      Except.ok.injEq, Prod.mk.injEq]
    exact and_congr_right' eq_comm

/-- Nor must the labels. -/
theorem required_texts {w : WrittenRule} {labels : List Label} :
    Yaml.required w.record "setLabels" (Yaml.asList Label.ofYaml) d k = .ok (labels, k') ↔
      w.texts? = some (labels.map Label.text) ∧ k' = k := by
  rw [required_record]
  unfold texts?
  cases hc : w.content? "setLabels" with
  | none => simp
  | some c =>
    rcases Content.exists_texts (name_of_content? hc) with ⟨items, tag, hvalue, htexts⟩
    have hread : Yaml.asList Label.ofYaml (.sequence (items.map QuotedText.node) tag) d k =
        (items.map QuotedText.node).mapM Label.ofYaml d k := rfl
    simp only [Option.some.injEq, exists_eq_left', hvalue, hread, mapM_labels, Option.bind_some,
      htexts]
    exact and_congr_left' eq_comm

/-- What is beside a rule is first taken for what it stands for, and then checked. -/
theorem readBeside_iff {fields further : List (String × Yaml.Node)} :
    readBeside fields d k = .ok (further, k') ↔
      ∃ k₁, (fields.filter isBeside).mapM followField d k = .ok (further, k₁) ∧
        ∃ u, (further.forM fun f => Yaml.checkPlainData ClassifierRule.maxFieldDepth f.2) d k₁ =
          .ok (u, k') := by
  unfold readBeside
  simp only [Yaml.bind_eq_ok_iff, Yaml.pure_eq_ok_iff]
  constructor
  · rintro ⟨_, k₁, hfollow, u, k₂, hcheck, rfl, rfl⟩
    exact ⟨k₁, hfollow, u, hcheck⟩
  · rintro ⟨k₁, hfollow, u, hcheck⟩
    exact ⟨further, k₁, hfollow, u, k', hcheck, rfl, rfl⟩

/-- Reads the first test among the fields beside the field and the labels. -/
def readTest (further : List (String × Yaml.Node)) (field : String) (setLabels : List Label) :
    Yaml.Reading ClassifierRule :=
  match further.find? fun f => Matcher.names.contains f.1 with
  | some (name, v) => do return ⟨field, ← Matcher.ofYamlField name v, setLabels⟩
  | none => throw (.missing "contains, notContains or present")

/-- The first test that is written is the one of the rule. -/
theorem readTest_iff {k₀ k₁ : Nat} {further : List (String × Yaml.Node)}
    (hfollow : (w.record.filter isBeside).mapM followField d k₀ = .ok (further, k₁))
    {field : String} {setLabels : List Label} {r : ClassifierRule} :
    readTest further field setLabels d k = .ok (r, k') ↔
      ∃ m, w.tests.head? = some m ∧ r = ⟨field, m, setLabels⟩ ∧ k' = k := by
  unfold readTest
  rw [find?_further hfollow, head?_tests]
  cases hfind : w.contents.find? fun c => c.test?.isSome with
  | none =>
    refine iff_of_false Yaml.throw_ne_ok ?_
    rintro ⟨m, hm, _⟩
    cases hm
  | some c =>
    have hsome : c.test?.isSome = true := by simpa using List.find?_some hfind
    rcases Option.isSome_iff_exists.1 hsome with ⟨m, hm⟩
    simp only [Option.map_some, Option.bind_some, hm, Option.some.injEq, exists_eq_left',
      Yaml.bind_eq_ok_iff, ofYamlField_of_test hm, Yaml.pure_eq_ok_iff, Except.ok.injEq,
      Prod.mk.injEq]
    constructor
    · rintro ⟨_, _, ⟨rfl, rfl⟩, rfl, rfl⟩
      exact ⟨rfl, rfl⟩
    · rintro ⟨rfl, rfl⟩
      exact ⟨m, k', ⟨rfl, rfl⟩, rfl, rfl⟩

/-- In a profile a rule is read if it has a field and labels, each written once, and a test, and
what is beside them stands for something. Of several tests the first one counts. -/
theorem ofYaml_rule {r : ClassifierRule} :
    ClassifierRule.ofYaml w.node d k = .ok (r, k') ↔
      w.Once ["field", "setLabels"] ∧
        (∃ further, readBeside w.record d k = .ok (further, k')) ∧
          w.text? "field" = some r.field ∧ w.texts? = some (r.setLabels.map Label.text) ∧
            w.tests.head? = some r.matcher := by
  have hrun : ClassifierRule.ofYaml w.node d k =
      (Yaml.asRecord ["field", "setLabels"] w.node >>= fun fields =>
        (fields.filter isBeside).mapM followField >>= fun further =>
          (further.forM fun f => Yaml.checkPlainData ClassifierRule.maxFieldDepth f.2) >>= fun _ =>
            Yaml.required fields "field" Yaml.asText >>= fun field =>
              Yaml.required fields "setLabels" (Yaml.asList Label.ofYaml) >>= fun setLabels =>
                readTest further field setLabels) d k := rfl
  rw [hrun]
  simp only [Yaml.bind_eq_ok_iff, asRecord_node, readBeside_iff]
  constructor
  · rintro ⟨_, _, ⟨honce, rfl, rfl⟩, further, k₂, hfollow, u, k₃, hcheck, field, k₄, hfield,
      labels, k₅, hlabels, htest⟩
    rcases required_text.1 hfield with ⟨htext, rfl⟩
    rcases required_texts.1 hlabels with ⟨htexts, rfl⟩
    rcases (readTest_iff hfollow).1 htest with ⟨m, hm, rfl, rfl⟩
    exact ⟨honce, ⟨further, k₂, hfollow, u, hcheck⟩, htext, htexts, hm⟩
  · rintro ⟨honce, ⟨further, k₂, hfollow, u, hcheck⟩, hfield, hlabels, htest⟩
    exact ⟨w.record, k, ⟨honce, rfl, rfl⟩, further, k₂, hfollow, u, k', hcheck,
      r.field, k', required_text.2 ⟨hfield, rfl⟩,
      r.setLabels, k', required_texts.2 ⟨hlabels, rfl⟩,
      (readTest_iff hfollow).2 ⟨r.matcher, htest, rfl, rfl⟩⟩

end WrittenRule

end ToolGate
