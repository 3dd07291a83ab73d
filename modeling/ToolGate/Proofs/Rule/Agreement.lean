import ToolGate.Proofs.Draft.Document
import ToolGate.Proofs.Policy.Classified
import ToolGate.Proofs.Rule.Written

/-!
# One rule, two readers

What a written classifier rule means in a document and what it means in a profile. A document with
the rule has no finding for it if the rule makes one test, names a field and sets labels. A profile
is then read with the same rule, as long as what else is written beside it stands for something. But
a profile is read with more: the first of several tests counts there, and neither field nor labels
are looked at any further.

* `WrittenRule.tests_perm_draft`: the tests that are written and those that a draft has;
* `WrittenRule.draft_eq_iff`: the writings of a proper rule;
* `WrittenRule.profile_and_document`: when the two readers agree;
* `WrittenRule.profile_reads_more`: that they do not always.
-/

namespace ToolGate

namespace WrittenRule

variable {w : WrittenRule} {d : Yaml.Document} {k k' : Nat}

/-! ## One test -/

namespace Content

variable {c : Content}

/-- A field of this name makes a test by its text. -/
theorem test?_of_contains (h : c.name = "contains") : c.test? = c.text?.map .contains := by
  cases c with
  | contains q => rfl
  | other other value unknown => exact absurd h (ne_of_unknown (by decide))
  | _ => simp [Content.name] at h

/-- So does one of this name. -/
theorem test?_of_notContains (h : c.name = "notContains") :
    c.test? = c.text?.map .notContains := by
  cases c with
  | notContains q => rfl
  | other other value unknown => exact absurd h (ne_of_unknown (by decide))
  | _ => simp [Content.name] at h

/-- And one of this name by its truth value. -/
theorem test?_of_present (h : c.name = "present") : c.test? = c.truth?.map .present := by
  cases c with
  | present spelling value spells => rfl
  | other other value unknown => exact absurd h (ne_of_unknown (by decide))
  | _ => simp [Content.name] at h

end Content

/-- The tests of the fields of one name. -/
def testsNamed (name : String) (cs : List Content) : List Matcher :=
  (cs.filter fun c => c.name == name).filterMap Content.test?

/-- Every test is one of the fields of its name. -/
theorem tests_perm (cs : List Content) :
    (cs.filterMap Content.test?).Perm
      (testsNamed "contains" cs ++ (testsNamed "notContains" cs ++ testsNamed "present" cs)) := by
  induction cs with
  | nil => exact .nil
  | cons c cs ih =>
    cases c with
    | field q => exact ih
    | setLabels items tag => exact ih
    | contains q => exact ih.cons _
    -- the test of this field is moved behind those of the names before its own
    | notContains q => exact (ih.cons (.notContains q.text)).trans List.perm_middle.symm
    | present spelling value spells =>
      exact ((ih.cons (.present value)).trans List.perm_middle.symm).trans
        (List.perm_middle.symm.append_left _)
    | other name value unknown =>
      have hnone : ∀ known ∈ names, testsNamed known (.other name value unknown :: cs) =
          testsNamed known cs := by
        intro known hknown
        unfold testsNamed
        rw [List.filter_cons_of_neg]
        simpa using Content.ne_of_unknown hknown
      rw [hnone _ (by decide), hnone _ (by decide), hnone _ (by decide)]
      exact ih

/-- What is there once at most is found or not. -/
theorem filter_of_countP_le {α : Type} {p : α → Bool} {l : List α} (h : l.countP p ≤ 1) :
    l.filter p = (l.find? p).toList := by
  rw [List.countP_eq_length_filter] at h
  rw [← List.head?_filter]
  match l.filter p, h with
  | [], _ => rfl
  | [a], _ => rfl

/-- A name that is written once at most gives the test of its field, or none. -/
theorem testsNamed_of_once {α : Type} {get : Content → Option α} {f : α → Matcher}
    {name : String} (hcount : w.contents.countP (fun c => c.name == name) ≤ 1)
    (h : ∀ c : Content, c.name = name → c.test? = (get c).map f) :
    testsNamed name w.contents = ((w.content? name).bind get).toList.map f := by
  unfold testsNamed
  rw [filter_of_countP_le hcount]
  change (w.content? name).toList.filterMap Content.test? = _
  cases hc : w.content? name with
  | none => rfl
  | some c =>
    have htest := h c (name_of_content? hc)
    cases hget : get c <;> simp [htest, hget]

/-- If no test is written twice, the draft has the tests that are written. -/
theorem tests_perm_draft (h : w.Once Matcher.names) : w.tests.Perm w.draft.tests := by
  have hcontains := testsNamed_of_once (h "contains" (by decide))
    fun c => Content.test?_of_contains (c := c)
  have hnotContains := testsNamed_of_once (h "notContains" (by decide))
    fun c => Content.test?_of_notContains (c := c)
  have hpresent := testsNamed_of_once (h "present" (by decide))
    fun c => Content.test?_of_present (c := c)
  have hperm := tests_perm w.contents
  rw [hcontains, hnotContains, hpresent, ← List.append_assoc] at hperm
  exact hperm

/-- A rule with one test does not write one twice. -/
theorem once_of_tests {m : Matcher} (h : w.tests = [m]) : w.Once Matcher.names := by
  intro name hname
  have hcount : w.contents.countP (fun c => c.name == name) ≤
      w.contents.countP fun c => c.test?.isSome := by
    refine List.countP_mono_left fun c _ hc => ?_
    rw [c.isSome_test?, List.contains_iff_mem]
    exact eq_of_beq hc ▸ hname
  have hlength : w.tests.length = w.contents.countP fun c => c.test?.isSome := by
    unfold tests
    exact List.length_filterMap_eq_countP ..
  rw [h] at hlength
  simpa [← hlength] using hcount

/-! ## One rule, two readers -/

theorem tests_draft (r : ClassifierRule) : r.draft.tests = [r.matcher] := by
  rcases r with ⟨field, _ | _ | _, setLabels⟩ <;> rfl

/-- What makes a written rule the writing of a rule with one test. -/
theorem draft_eq_iff {r : ClassifierRule} (h : r.Proper) :
    (w.Once names ∧ w.draft = r.draft) ↔
      w.Once ["field", "setLabels"] ∧ w.text? "field" = some r.field ∧
        w.texts? = some (r.setLabels.map Label.text) ∧ w.tests = [r.matcher] := by
  constructor
  · rintro ⟨honce, hdraft⟩
    have hnames : w.Once Matcher.names := fun name hname =>
      honce name ((by decide : Matcher.names ⊆ names) hname)
    have htests : w.tests = [r.matcher] := by
      have hperm := tests_perm_draft hnames
      rw [hdraft, tests_draft] at hperm
      exact List.perm_singleton.1 hperm
    have hfield : (w.text? "field").getD "" = r.field := congrArg Draft.Classifier.field hdraft
    have hlabels : w.texts?.getD [] = r.setLabels.map Label.text :=
      congrArg Draft.Classifier.setLabels hdraft
    refine ⟨fun name hname => honce name ((by decide : ["field", "setLabels"] ⊆ names) hname),
      ?_, ?_, htests⟩
    · -- a blank field would be left for one that is not there
      cases htext : w.text? "field" with
      | some s =>
        rw [htext] at hfield
        exact congrArg some hfield
      | none =>
        rw [htext] at hfield
        have hblank := h.field
        rw [← hfield] at hblank
        exact absurd rfl hblank
    · cases htexts : w.texts? with
      | some raws =>
        rw [htexts] at hlabels
        exact congrArg some hlabels
      | none =>
        rw [htexts] at hlabels
        exact absurd (List.map_eq_nil_iff.1 hlabels.symm) h.setLabels
  · rintro ⟨honce, hfield, hlabels, htests⟩
    have htests' : w.draft.tests = [r.matcher] := by
      have hperm := tests_perm_draft (once_of_tests htests)
      rw [htests] at hperm
      exact (List.singleton_perm.1 hperm).symm
    have hdraftField : w.draft.field = r.field := by
      unfold draft
      rw [hfield]
      rfl
    have hdraftLabels : w.draft.setLabels = r.setLabels.map Label.text := by
      unfold draft
      rw [hlabels]
      rfl
    have hdraft := Draft.Classifier.draft_of_tests htests' hdraftLabels.symm
    rw [hdraftField] at hdraft
    refine ⟨fun name hname => ?_, hdraft.symm⟩
    have hcases : ∀ name ∈ names, name ∈ Matcher.names ∨ name ∈ ["field", "setLabels"] := by
      decide
    rcases hcases name hname with hname | hname
    · exact once_of_tests htests name hname
    · exact honce name hname

/-- The draft of a rule is valid if the rule is proper. -/
theorem valid_draft_iff {r : ClassifierRule} : r.draft.Valid ↔ r.Proper := by
  constructor
  · intro hvalid
    refine ⟨hvalid.field, fun hnone => hvalid.setLabels ?_⟩
    exact List.map_eq_nil_iff.2 hnone
  · intro hproper
    refine ⟨hproper.field, ?_, ?_, ?_⟩
    · rw [← Draft.Classifier.length_tests, tests_draft]
      rfl
    · exact mt List.map_eq_nil_iff.1 hproper.setLabels
    · intro raw hraw
      rcases List.mem_map.1 hraw with ⟨label, _, rfl⟩
      rw [← Label.isSome_ofText?_iff, Label.ofText?_text]
      rfl

/-- Rules with one draft are one rule. -/
theorem draft_injective {r r' : ClassifierRule} (h : r.draft = r'.draft) : r = r' := by
  have htext : Function.Injective Label.text := by
    intro label label' heq
    have hlabel := Label.ofText?_text label
    rw [heq, Label.ofText?_text] at hlabel
    exact (Option.some.inj hlabel).symm
  have hfield : r.field = r'.field := congrArg Draft.Classifier.field h
  have hlabels : r.setLabels = r'.setLabels :=
    List.map_injective_iff.2 htext (congrArg Draft.Classifier.setLabels h)
  have hmatcher : r.matcher = r'.matcher := by
    have htests := congrArg Draft.Classifier.tests h
    rw [tests_draft, tests_draft] at htests
    exact List.singleton_inj.1 htests
  cases r
  cases r'
  simp_all

/-- A document has the rules that are proper, each for its own draft. -/
theorem document?_eq_some_iff {c : Draft.Classifier} {r : ClassifierRule} :
    c.document? = some r ↔ c = r.draft ∧ r.Proper := by
  constructor
  · intro hdocument
    have hvalid : c.Valid := by
      unfold Draft.Classifier.document? at hdocument
      split at hdocument
      · rename_i hnone
        exact (c.findings_eq_nil_iff "").1 (List.isEmpty_iff.1 hnone)
      · cases hdocument
    rcases Draft.Classifier.keepsSome_document c hvalid with ⟨r', hr', rfl⟩
    rw [hr'] at hdocument
    cases hdocument
    exact ⟨rfl, valid_draft_iff.1 hvalid⟩
  · rintro ⟨rfl, hproper⟩
    rcases Draft.Classifier.keepsSome_document _ (valid_draft_iff.2 hproper) with ⟨r', hr', heq⟩
    rw [hr', draft_injective heq]

/-- Whether a profile is read with a rule at this place. -/
def InProfile (w : WrittenRule) (d : Yaml.Document) (k : Nat) (r : ClassifierRule) : Prop :=
  ∃ k', ClassifierRule.ofYaml w.node d k = .ok (r, k')

/-- Whether a document is read with a rule at this place, and nothing is found to be wrong there. -/
def InDocument (w : WrittenRule) (d : Yaml.Document) (k : Nat) (r : ClassifierRule) : Prop :=
  ∃ c k', Draft.Classifier.ofYaml w.node d k = .ok (c, k') ∧ (∀ path, c.findings path = []) ∧
    c.document? = some r

/-- What a profile must be read with, by the fields that are written. -/
theorem inProfile_iff {r : ClassifierRule} :
    w.InProfile d k r ↔
      w.Once ["field", "setLabels"] ∧ w.PlainBeside d k ∧ w.text? "field" = some r.field ∧
        w.texts? = some (r.setLabels.map Label.text) ∧ w.tests.head? = some r.matcher := by
  unfold InProfile PlainBeside
  simp only [ofYaml_rule]
  constructor
  · rintro ⟨k', honce, ⟨further, hbeside⟩, hrest⟩
    exact ⟨honce, ⟨further, k', hbeside⟩, hrest⟩
  · rintro ⟨honce, ⟨further, k', hbeside⟩, hrest⟩
    exact ⟨k', honce, ⟨further, hbeside⟩, hrest⟩

/-- A document is read with a proper rule if the draft of the rule is written. -/
theorem inDocument_iff {r : ClassifierRule} :
    w.InDocument d k r ↔ (w.Once names ∧ w.draft = r.draft) ∧ r.Proper := by
  unfold InDocument
  simp only [ofYaml_draft, document?_eq_some_iff]
  constructor
  · rintro ⟨_, _, ⟨honce, rfl, _⟩, _, hdraft, hproper⟩
    exact ⟨⟨honce, hdraft⟩, hproper⟩
  · rintro ⟨⟨honce, hdraft⟩, hproper⟩
    refine ⟨w.draft, k, ⟨honce, rfl, rfl⟩, fun path => ?_, hdraft, hproper⟩
    rw [Draft.Classifier.findings_eq_nil_iff, hdraft]
    exact valid_draft_iff.2 hproper

/-! ### What is beside a rule -/

theorem followField_of_stands {f : String × Yaml.Node} (h : Yaml.Stands f.2) :
    followField f d k = .ok (f, k) := by
  rcases f with ⟨name, value⟩
  rcases h with ⟨text, style, tag, v, rfl, _⟩
  rfl

/-- Scalars that stand for something pass the check. -/
theorem forM_checkPlainData {fields : List (String × Yaml.Node)} (h : ∀ f ∈ fields, Yaml.Stands f.2) :
    (fields.forM fun f => Yaml.checkPlainData ClassifierRule.maxFieldDepth f.2) d k =
      .ok ((), k) := by
  induction fields with
  | nil => rfl
  | cons f fields ih =>
    have hfirst := Yaml.checkPlainData_of_stands (d := d) (k := k)
      (h f List.mem_cons_self) ClassifierRule.maxFieldDepth
    have hrest := ih fun f' hf' => h f' (List.mem_cons_of_mem f hf')
    exact (Yaml.bind_of_ok hfirst).trans hrest

/-- Scalars beside the field and the labels of a rule are no trouble if they stand for something. -/
theorem plainBeside_of_stands
    (h : ∀ name value unknown, Content.other name value unknown ∈ w.contents → Yaml.Stands value)
    (d : Yaml.Document) (k : Nat) : w.PlainBeside d k := by
  have hstands : ∀ f ∈ w.record.filter isBeside, Yaml.Stands f.2 := by
    intro f hf
    rcases List.mem_filter.1 hf with ⟨hmem, hbeside⟩
    rcases List.mem_map.1 hmem with ⟨c, hc, rfl⟩
    cases c with
    | contains q => exact ⟨_, _, _, _, rfl, resolve_quoted q⟩
    | notContains q => exact ⟨_, _, _, _, rfl, resolve_quoted q⟩
    | present spelling value spells => exact ⟨_, _, _, _, rfl, Yaml.resolve_of_bool? spells⟩
    | other name value unknown => exact h name value unknown hc
    | _ => contradiction
  have hfollow : (w.record.filter isBeside).mapM followField d k =
      .ok ((w.record.filter isBeside).map id, k) :=
    Yaml.mapM_of_forall fun f hf => followField_of_stands (hstands f hf)
  rw [List.map_id] at hfollow
  exact ⟨_, k, readBeside_iff.2 ⟨k, hfollow, (), forM_checkPlainData hstands⟩⟩

/-! ### Agreement -/

/-- What is promised of the two ways in which a written rule is read, wherever it is written and
however many aliases have been followed before. -/
structure Agreement (w : WrittenRule) : Prop where
  /-- A document that is read with a rule and finds nothing wrong with it, and a profile that is
  read with one, agree if the rule is proper and makes one test, and if what is beside it stands for
  something. -/
  agree : ∀ d k d' k' r, (w.InDocument d k r ∧ w.PlainBeside d' k') ↔
    (w.InProfile d' k' r ∧ r.Proper ∧ w.tests = [r.matcher])
  /-- In a document nothing is found to be wrong with proper rules that make one test only. -/
  document : ∀ d k r, w.InDocument d k r → r.Proper ∧ w.tests = [r.matcher]
  /-- Whatever nothing is found to be wrong with is a rule of the document. -/
  unreported : ∀ d k c k', Draft.Classifier.ofYaml w.node d k = .ok (c, k') →
    (∀ path, c.findings path = []) → ∃ r, w.InDocument d k r
  /-- In a profile there must be a test as well, but the first of several counts. -/
  profile : ∀ d k r, w.InProfile d k r → w.PlainBeside d k ∧ w.tests.head? = some r.matcher
  /-- Nothing has to be asked of what is beside a rule if that is nothing but scalars. -/
  plain : (∀ name value unknown, Content.other name value unknown ∈ w.contents → Yaml.Stands value) →
    ∀ d k, w.PlainBeside d k

/-- Whatever classifier rule is written with texts in quotes and a plain truth value: a profile is
read with it whenever nothing is found to be wrong with it in a document and what is beside it
stands for something, and with the same rule. In a profile it need not be proper, and it may make
further tests behind the first one. -/
theorem profile_and_document (w : WrittenRule) : Agreement w where
  agree d k d' k' r := by
    constructor
    · rintro ⟨hdocument, hbeside⟩
      rcases inDocument_iff.1 hdocument with ⟨hdraft, hproper⟩
      rcases (draft_eq_iff hproper).1 hdraft with ⟨honce, hfield, hlabels, htests⟩
      have hfirst : w.tests.head? = some r.matcher := by
        rw [htests]
        rfl
      exact ⟨inProfile_iff.2 ⟨honce, hbeside, hfield, hlabels, hfirst⟩, hproper, htests⟩
    · rintro ⟨hprofile, hproper, htests⟩
      rcases inProfile_iff.1 hprofile with ⟨honce, hbeside, hfield, hlabels, _⟩
      have hdraft := (draft_eq_iff hproper).2 ⟨honce, hfield, hlabels, htests⟩
      exact ⟨inDocument_iff.2 ⟨hdraft, hproper⟩, hbeside⟩
  document d k r hdocument := by
    rcases inDocument_iff.1 hdocument with ⟨hdraft, hproper⟩
    rcases (draft_eq_iff hproper).1 hdraft with ⟨_, _, _, htests⟩
    exact ⟨hproper, htests⟩
  unreported d k c k' hread hfindings := by
    have hvalid : c.Valid := (c.findings_eq_nil_iff "").1 (hfindings "")
    rcases Draft.Classifier.keepsSome_document c hvalid with ⟨r, hr, _⟩
    exact ⟨r, c, k', hread, hfindings, hr⟩
  profile d k r hprofile := by
    rcases inProfile_iff.1 hprofile with ⟨_, hbeside, _, _, hfirst⟩
    exact ⟨hbeside, hfirst⟩
  plain := plainBeside_of_stands

/-- A rule with two tests, of which a profile takes the first, and a rule without a field that sets
no labels. -/
theorem profile_reads_more :
    (¬∀ (w : WrittenRule) (d : Yaml.Document) (k : Nat),
      (∃ r, w.InProfile d k r) ↔ ∃ r, w.InDocument d k r) ∧
      (¬∀ (w : WrittenRule) (d : Yaml.Document) (k : Nat) (r : ClassifierRule),
        w.InProfile d k r → w.tests.length = 1) ∧
        ¬∀ (w : WrittenRule) (d : Yaml.Document) (k : Nat) (r : ClassifierRule),
          w.InProfile d k r → r.Proper := by
  let label : Label := ⟨"scope:internal", by decide +kernel⟩
  let written (cs : List Content) : WrittenRule := ⟨cs.map fun c => ⟨c, .plain, none⟩, none⟩
  let field : Content := .field ⟨"to", false⟩
  let present : Content := .present "true" true rfl
  let two := written [field, .contains ⟨"acme.com", false⟩, present,
    .setLabels [⟨"scope:internal", false⟩] none]
  let improper := written [.field ⟨" ", false⟩, present, .setLabels [] none]
  -- of two tests the first one is read
  have htwo : ∀ d k, two.InProfile d k ⟨"to", .contains "acme.com", [label]⟩ := by
    intro d k
    refine inProfile_iff.2 ⟨?_, plainBeside_of_stands ?_ d k, rfl, rfl, rfl⟩
    · unfold Once
      decide
    · intro name value unknown hmem
      simp [two, written, contents, field, present] at hmem
  have himproper : ∀ d k, improper.InProfile d k ⟨" ", .present true, []⟩ := by
    intro d k
    refine inProfile_iff.2 ⟨?_, plainBeside_of_stands ?_ d k, rfl, rfl, rfl⟩
    · unfold Once
      decide
    · intro name value unknown hmem
      simp [improper, written, contents, present] at hmem
  have htests : two.tests.length = 2 := rfl
  let d : Yaml.Document := .empty
  refine ⟨fun h => ?_, fun h => ?_, fun h => ?_⟩
  · rcases (h two d 0).1 ⟨_, htwo d 0⟩ with ⟨r, hdocument⟩
    rcases inDocument_iff.1 hdocument with ⟨hdraft, hproper⟩
    rcases (draft_eq_iff hproper).1 hdraft with ⟨_, _, _, hone⟩
    rw [hone] at htests
    cases htests
  · have hone := h two d 0 _ (htwo d 0)
    rw [hone] at htests
    cases htests
  · have hproper := h improper d 0 _ (himproper d 0)
    exact hproper.setLabels rfl

end WrittenRule

end ToolGate
