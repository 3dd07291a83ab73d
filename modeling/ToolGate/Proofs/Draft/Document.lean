import ToolGate.Draft.Check
import ToolGate.Proofs.Draft.Defects

/-!
# Documents say what their drafts say

A document is written back as a draft by writing every typed value in it as its text. The document
of a draft without findings is written back as that very draft. So although typing leaves out what
it cannot type, nothing is ever missing from a document that is released: every part that would be
left out has a finding.

* `Document.draft`: the draft that a document is written back as;
* `Keeps`, `KeepsSome`: typing that loses nothing of what is valid;
* `Draft.keeps_document`: the typing of whole drafts is so;
* `Draft.check_faithful`: checking gives such a document, or the findings if there are any.
-/

namespace ToolGate

/-! ## Writing documents back -/

/-- The values that a map has for the hints. -/
def Draft.HintFields.ofMap (m : HintMap) : Draft.HintFields :=
  ⟨m.get? .readOnly, m.get? .destructive, m.get? .idempotent, m.get? .openWorld⟩

def Override.draft (o : Override) : Draft.Override where
  toHintFields := .ofMap o.hints
  verb := o.verb.map Word.name
  labels := o.labels.map (List.map Label.text)

def ClassifierRule.draft (r : ClassifierRule) : Draft.Classifier where
  field := r.field
  contains := match r.matcher with
    | .contains s => some s
    | _ => none
  notContains := match r.matcher with
    | .notContains s => some s
    | _ => none
  present := match r.matcher with
    | .present b => some b
    | _ => none
  setLabels := r.setLabels.map Label.text

def Condition.draft (c : Condition) : Draft.Condition where
  toHintFields := .ofMap c.hints
  verb := c.verb.map Word.name
  labels := c.labels.map Label.text
  mode := c.mode

def PolicyRule.draft (r : PolicyRule) : Draft.Rule where
  name := r.name
  description := r.description
  condition := r.condition.draft
  action := Word.name r.action
  approvers := r.approvers
  timeout := r.timeout
  priority := r.priority.toNat

/-- The draft that says the same as a document. -/
def Document.draft (doc : Document) : Draft where
  version := doc.version
  tenantVars := doc.tenantVars
  profiles := doc.profiles.map ProfileId.text
  toolOverrides := doc.toolOverrides.mapValues Override.draft
  classifierOverrides := doc.classifierOverrides.mapValues (List.map ClassifierRule.draft)
  policyRules := doc.policyRules.map PolicyRule.draft

/-! ## Typing that loses nothing -/

variable {α β : Type}

/-- What is typed of something valid is written back as it was. -/
def Keeps (type : α → β) (write : β → α) (valid : α → Prop) : Prop :=
  ∀ a, valid a → write (type a) = a

/-- Something valid is typed, and what is typed of it is written back as it was. -/
def KeepsSome (type? : α → Option β) (write : β → α) (valid : α → Prop) : Prop :=
  ∀ a, valid a → ∃ b, type? a = some b ∧ write b = a

namespace KeepsSome

variable {type? : α → Option β} {write : β → α} {valid : α → Prop}

/-- A text that is valid exactly if it is the text of a value. -/
theorem of_isSome_iff (hvalid : ∀ a, (type? a).isSome ↔ valid a)
    (hwrite : ∀ a b, type? a = some b → write b = a) : KeepsSome type? write valid := by
  intro a ha
  rcases Option.isSome_iff_exists.1 ((hvalid a).2 ha) with ⟨b, hb⟩
  exact ⟨b, hb, hwrite a b hb⟩

/-- From a list of valid items none is left out. -/
theorem filterMap (h : KeepsSome type? write valid) :
    Keeps (List.filterMap type?) (List.map write) (fun l => ∀ a ∈ l, valid a) := by
  intro l hl
  induction l with
  | nil => rfl
  | cons a l ih =>
    rw [List.forall_mem_cons] at hl
    rcases h a hl.1 with ⟨b, hb, hwrite⟩
    rw [List.filterMap_cons_some hb, List.map_cons, hwrite, ih hl.2]

/-- What is given is not taken for nothing. -/
theorem bind (h : KeepsSome type? write valid) :
    Keeps (fun o : Option α => o.bind type?) (Option.map write)
      (fun o => ∀ a, o = some a → valid a) := by
  intro o ho
  cases o with
  | none => rfl
  | some a =>
    rcases h a (ho a rfl) with ⟨b, hb, hwrite⟩
    simp only [Option.bind_some, hb, Option.map_some, hwrite]

end KeepsSome

namespace Keeps

variable {type : α → β} {write : β → α} {valid : α → Prop}

/-- What may be left out, if it is given. -/
theorem option (h : Keeps type write valid) :
    Keeps (Option.map type) (Option.map write) (fun o => ∀ a, o = some a → valid a) := by
  intro o ho
  cases o with
  | none => rfl
  | some a => rw [Option.map_some, Option.map_some, h a (ho a rfl)]

/-- The keys of a map stay as they are, so its values decide. -/
theorem map {κ : Type} [Ord κ] [Std.TransOrd κ] [Std.LawfulEqOrd κ] (h : Keeps type write valid) :
    Keeps (SortedMap.mapValues (κ := κ) type) (SortedMap.mapValues write)
      (fun m => ∀ k a, m.get? k = some a → valid a) := by
  intro m hm
  apply SortedMap.ext_get?
  intro k
  rw [SortedMap.get?_mapValues, SortedMap.get?_mapValues]
  cases hk : m.get? k with
  | none => rfl
  | some a => rw [Option.map_some, Option.map_some, h a (hm k a hk)]

/-- The values of all tools. -/
theorem tools (h : Keeps type write valid) :
    Keeps (ToolMap.mapValues type) (ToolMap.mapValues write)
      (fun m => ∀ s t a, m.find? s t = some a → valid a) := by
  intro m hm
  refine h.map.map m fun s n hn t a ha => hm s t a ?_
  unfold ToolMap.find?
  rw [hn, Option.bind_some, ha]

end Keeps

/-! ## Vocabularies -/

theorem keepsSome_label : KeepsSome Label.ofText? Label.text Label.Written :=
  .of_isSome_iff Label.isSome_ofText?_iff fun _ _ h => Label.ofText?_eq_some h

theorem keepsSome_profileId : KeepsSome ProfileId.parse? ProfileId.text ProfileId.Written :=
  .of_isSome_iff ProfileId.isSome_parse?_iff fun _ _ h => ProfileId.parse?_eq_some h

theorem keepsSome_verb : KeepsSome (Word.ofName? (α := Verb)) Word.name (· ∈ Draft.verbNames) :=
  .of_isSome_iff Draft.isName_verb_iff fun _ _ h => Word.ofName?_eq_some_iff.1 h

theorem keepsSome_action :
    KeepsSome (Word.ofName? (α := Action)) Word.name (· ∈ Draft.actionNames) :=
  .of_isSome_iff Draft.isName_action_iff fun _ _ h => Word.ofName?_eq_some_iff.1 h

namespace Draft

theorem keeps_verb : Keeps verb? (Option.map Word.name)
    (fun o => ∀ raw, o = some raw → raw ∈ verbNames) :=
  keepsSome_verb.bind

theorem keeps_labels : Keeps labelsOf (List.map Label.text)
    (fun l => ∀ raw ∈ l, Label.Written raw) :=
  keepsSome_label.filterMap

/-- A priority in range is typed as the number. -/
theorem exists_priority {n : Int} (hn : 0 ≤ n ∧ n ≤ 999) :
    ∃ m, priority? n = some m ∧ (m.toNat : Int) = n := by
  refine ⟨UInt16.ofNat n.toNat, ?_, ?_⟩
  · unfold priority?
    rw [if_pos ((isPriority_iff n).2 hn)]
  · -- sixteen bits hold every number up to 999, so nothing is cut off
    have hsmall : (UInt16.ofNat n.toNat).toNat = n.toNat :=
      UInt16.toNat_ofNat_of_lt' (by change n.toNat < 65536; omega)
    rw [hsmall]
    omega

/-! ## Parts of a draft -/

/-- The map of given hints has the values that are given, and no others. -/
theorem HintFields.get?_hints (f : HintFields) (h : Hint) :
    f.hints.get? h =
      match h with
      | .readOnly => f.readOnly
      | .destructive => f.destructive
      | .idempotent => f.idempotent
      | .openWorld => f.openWorld := by
  -- whether a hint comes into the map depends on which of the four are given
  rcases f with ⟨_ | r, _ | d, _ | i, _ | o⟩ <;> cases h <;> rfl

theorem HintFields.ofMap_hints (f : HintFields) : ofMap f.hints = f := by
  unfold ofMap
  simp only [get?_hints]

/-- A valid override says the same when it is typed. -/
theorem Override.keeps_document : Keeps document ToolGate.Override.draft Valid := by
  intro o h
  unfold document ToolGate.Override.draft
  rw [keeps_verb o.verb h.verb, keeps_labels.option o.labels h.labels, o.ofMap_hints]

namespace Classifier

/-- A rule with one test is the rule with that test and no other. -/
theorem draft_of_tests {c : Classifier} {m : Matcher} (h : c.tests = [m]) {setLabels : List Label}
    (hlabels : setLabels.map Label.text = c.setLabels) :
    (ClassifierRule.mk c.field m setLabels).draft = c := by
  rcases c with ⟨field, contains, notContains, present, labels⟩
  unfold tests at h
  -- two tests or none are no list of one; what is left is one case for each test
  cases contains <;> cases notContains <;> cases present <;> simp at h
  all_goals
    subst h
    unfold ClassifierRule.draft
    rw [hlabels]

theorem findings_eq_nil_iff (p : String) (c : Classifier) : c.findings p = [] ↔ c.Valid := by
  rw [(c.tells_findings p).eq_nil_iff, valid_iff]

/-- A valid classifier rule is typed, and says the same. -/
theorem keepsSome_document : KeepsSome document? ClassifierRule.draft Valid := by
  intro c h
  have hnone : (c.findings "").isEmpty = true :=
    List.isEmpty_iff.2 ((c.findings_eq_nil_iff "").2 h)
  rcases List.length_eq_one_iff.1 (c.length_tests.trans h.test) with ⟨m, hm⟩
  refine ⟨⟨c.field, m, labelsOf c.setLabels⟩, ?_, ?_⟩
  · unfold document?
    rw [if_pos hnone, hm]
    rfl
  · exact draft_of_tests hm (keeps_labels c.setLabels h.labels)

end Classifier

theorem Condition.draft_document {c : Condition}
    (hverb : ∀ raw, c.verb = some raw → raw ∈ verbNames)
    (hlabels : ∀ raw ∈ c.labels, Label.Written raw) : c.document.draft = c := by
  unfold document ToolGate.Condition.draft
  rw [keeps_verb c.verb hverb, keeps_labels c.labels hlabels, c.ofMap_hints]

/-- A valid policy rule is typed, and says the same. -/
theorem Rule.keepsSome_document : KeepsSome document? PolicyRule.draft Valid := by
  intro r h
  rcases keepsSome_action r.action h.action with ⟨action, haction, hname⟩
  rcases exists_priority h.priority with ⟨priority, hpriority, hnumber⟩
  refine ⟨⟨r.name, r.description, r.condition.document, action, r.approvers, r.timeout, priority⟩,
    ?_, ?_⟩
  · unfold document?
    rw [haction, hpriority]
    rfl
  · unfold PolicyRule.draft
    rw [Condition.draft_document h.verb h.labels, hname, hnumber]

/-! ## Drafts -/

/-- What is typed of a valid draft says what the draft says. -/
theorem keeps_document : Keeps document Document.draft Valid := by
  intro d h
  unfold document Document.draft
  rw [keepsSome_profileId.filterMap d.profiles h.profiles,
    Override.keeps_document.tools d.toolOverrides h.toolOverrides,
    Classifier.keepsSome_document.filterMap.tools d.classifierOverrides h.classifierOverrides,
    Rule.keepsSome_document.filterMap d.policyRules h.policyRules]

/-- The document of a draft without findings is written back as a valid draft, so whatever is
required of drafts holds of it. -/
theorem valid_draft_document {d : Draft} (h : d.findings = []) : d.document.draft.Valid := by
  have hvalid : d.Valid := d.findings_eq_nil_iff.1 h
  rw [keeps_document d hvalid]
  exact hvalid

/-- Checking a draft gives a document that says exactly what the draft says if the draft has no
findings, and all its findings otherwise. -/
theorem check_faithful (d : Draft) :
    match d.check with
    | .ok doc => d.findings = [] ∧ doc.draft = d
    | .error findings => findings ≠ [] ∧ findings = d.findings := by
  unfold check
  cases hfindings : d.findings with
  | nil => exact ⟨rfl, keeps_document d (d.findings_eq_nil_iff.1 hfindings)⟩
  | cons f fs => exact ⟨List.cons_ne_nil f fs, rfl⟩

end Draft

end ToolGate
