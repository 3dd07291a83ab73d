import Mathlib.Data.Set.Card
import ToolGate.Proofs.Draft.Valid

/-!
# One finding for every defect

The findings of a draft and its defects correspond one to one: every requirement that is missed
somewhere gives one finding, at the path of its place, whatever else is wrong with the draft.

* `Finding.Tells`: findings that stand for bad things one to one;
* `Finding.tells_flatMap`: findings collected over a list stand for the bad things of its items;
* `Draft.tells_findings`: the findings of a draft stand for what the draft violates;
* `Draft.findings_complete`: a draft without findings is valid, and else there are as many findings
  as defects.
-/

namespace ToolGate

namespace Finding

variable {α δ ε ι : Type} {fs gs : List Finding}

/-- Findings stand for bad things one to one, each finding at the path of its thing. -/
def Tells (fs : List Finding) (bad : δ → Prop) (path : δ → String) : Prop :=
  ∃ l : List δ, l.Nodup ∧ (∀ x, x ∈ l ↔ bad x) ∧ fs.map (·.path) = l.map path

namespace Tells

variable {bad : δ → Prop} {path : δ → String}

/-- There are no findings if nothing is bad. -/
theorem eq_nil_iff (h : Tells fs bad path) : fs = [] ↔ ∀ x, ¬bad x := by
  rcases h with ⟨l, _, hmem, hpath⟩
  have hlength : fs.length = l.length := by simpa using congrArg List.length hpath
  rw [← List.length_eq_zero_iff, hlength, List.length_eq_zero_iff, List.eq_nil_iff_forall_not_mem]
  simp only [hmem]

/-- There are as many findings as bad things. -/
theorem encard_eq (h : Tells fs bad path) : {x | bad x}.encard = fs.length := by
  classical
  rcases h with ⟨l, hnodup, hmem, hpath⟩
  have hlength : fs.length = l.length := by simpa using congrArg List.length hpath
  have hset : {x | bad x} = (l.toFinset : Set δ) := by
    ext x
    simp [hmem]
  rw [hset, Set.encard_coe_eq_coe_finsetCard, List.toFinset_card_of_nodup hnodup, hlength]

theorem congr {bad' : δ → Prop} (h : Tells fs bad path) (hbad : ∀ x, bad x ↔ bad' x) :
    Tells fs bad' path := by
  rcases h with ⟨l, hnodup, hmem, hpath⟩
  exact ⟨l, hnodup, fun x => (hmem x).trans (hbad x), hpath⟩

/-- The bad things may be called by other names. -/
theorem map (h : Tells fs bad path) {g : δ → ε} (hg : Function.Injective g) {path' : ε → String}
    (hpath' : ∀ x, path' (g x) = path x) : Tells fs (fun y => ∃ x, y = g x ∧ bad x) path' := by
  rcases h with ⟨l, hnodup, hmem, hpath⟩
  refine ⟨l.map g, hnodup.map hg, fun y => ?_, ?_⟩
  · constructor
    · intro hy
      rcases List.mem_map.1 hy with ⟨x, hx, rfl⟩
      exact ⟨x, rfl, (hmem x).1 hx⟩
    · rintro ⟨x, rfl, hx⟩
      exact List.mem_map.2 ⟨x, (hmem x).2 hx, rfl⟩
  · rw [hpath, List.map_map]
    exact List.map_congr_left fun x _ => (hpath' x).symm

/-- Findings about different things add up. -/
theorem append {bad' : δ → Prop} (hf : Tells fs bad path) (hg : Tells gs bad' path)
    (hdisjoint : ∀ x, bad x → ¬bad' x) : Tells (fs ++ gs) (fun x => bad x ∨ bad' x) path := by
  rcases hf with ⟨l, hnodup, hmem, hpath⟩
  rcases hg with ⟨l', hnodup', hmem', hpath'⟩
  refine ⟨l ++ l', ?_, fun x => ?_, ?_⟩
  · refine hnodup.append hnodup' fun x hx hx' => ?_
    exact hdisjoint x ((hmem x).1 hx) ((hmem' x).1 hx')
  · rw [List.mem_append, hmem, hmem']
  · rw [List.map_append, List.map_append, hpath, hpath']

end Tells

/-! ## Collecting findings -/

/-- One requirement gives one finding if it is missed. -/
theorem tells_expect (path : δ → String) (x : δ) {p : String} (hx : path x = p) (fine : Bool)
    (message : String) :
    Tells (expect fine p message) (fun y => y = x ∧ fine = false) path := by
  unfold expect
  cases fine with
  | true => exact ⟨[], List.nodup_nil, by simp, rfl⟩
  | false => exact ⟨[x], List.nodup_singleton x, by simp, by simp [hx]⟩

/-- If every item of a list has a key of its own, the findings of all items together stand for what
is bad about each of them. -/
theorem tells_flatMap (key : ε → ι) (path : ι → δ → String) {f : ε → List Finding}
    {bad : ε → δ → Prop} (h : ∀ e, Tells (f e) (bad e) (path (key e))) {l : List ε}
    (hkey : (l.map key).Nodup) :
    Tells (l.flatMap f) (fun x : ι × δ => ∃ e ∈ l, key e = x.1 ∧ bad e x.2)
      (fun x => path x.1 x.2) := by
  induction l with
  | nil => exact ⟨[], List.nodup_nil, by simp, rfl⟩
  | cons e l ih =>
    rw [List.map_cons, List.nodup_cons] at hkey
    have hhead : Tells (f e) (fun x => ∃ y, x = (key e, y) ∧ bad e y) (fun x => path x.1 x.2) :=
      (h e).map (fun x y hxy => (Prod.mk.inj hxy).2) (fun _ => rfl)
    -- what the head says of its key is said by no later item
    have hdisjoint : ∀ x : ι × δ, (∃ y, x = (key e, y) ∧ bad e y) →
        ¬∃ d ∈ l, key d = x.1 ∧ bad d x.2 := by
      rintro _ ⟨y, rfl, _⟩ ⟨d, hd, hdkey, _⟩
      exact hkey.1 (List.mem_map.2 ⟨d, hd, hdkey⟩)
    rw [List.flatMap_cons]
    refine (hhead.append (ih hkey.2) hdisjoint).congr fun x => ?_
    constructor
    · rintro (⟨y, rfl, hbad⟩ | ⟨d, hd, hdkey, hbad⟩)
      · exact ⟨e, List.mem_cons_self, rfl, hbad⟩
      · exact ⟨d, List.mem_cons_of_mem e hd, hdkey, hbad⟩
    · rintro ⟨d, hd, hdkey, hbad⟩
      rcases List.mem_cons.1 hd with rfl | hd
      · exact Or.inl ⟨x.2, Prod.ext hdkey.symm rfl, hbad⟩
      · exact Or.inr ⟨d, hd, hdkey, hbad⟩

/-- The findings of the items of a list. -/
theorem tells_items {f : String → α → List Finding} {bad : α → δ → Prop}
    {path : String → δ → String} (h : ∀ p a, Tells (f p a) (bad a) (path p)) (p : String)
    (as : List α) :
    Tells (items f p as) (fun x : Nat × δ => ∃ a, as[x.1]? = some a ∧ bad a x.2)
      (fun x => path (item p x.1) x.2) := by
  have hkey : (as.zipIdx.map Prod.snd).Nodup := by
    rw [List.zipIdx_map_snd]
    exact List.nodup_range'
  -- the place in the list is the key of an item
  refine (tells_flatMap Prod.snd (fun i => path (item p i))
    (fun e => h (item p e.2) e.1) hkey).congr fun x => ?_
  constructor
  · rintro ⟨⟨a, i⟩, ha, rfl, hbad⟩
    exact ⟨a, List.mem_zipIdx_iff_getElem?.1 ha, hbad⟩
  · rintro ⟨a, ha, hbad⟩
    exact ⟨(a, x.1), List.mem_zipIdx_iff_getElem?.2 ha, rfl, hbad⟩

/-- The findings of the tools of a map. -/
theorem tells_tools {f : String → α → List Finding} {bad : α → δ → Prop}
    {path : String → δ → String} (h : ∀ p a, Tells (f p a) (bad a) (path p)) (p : String)
    (m : ToolMap α) :
    Tells (tools f p m)
      (fun x : (String × String) × δ => ∃ a, m.find? x.1.1 x.1.2 = some a ∧ bad a x.2)
      (fun x => path (p ++ "." ++ x.1.1 ++ "." ++ x.1.2) x.2) := by
  refine (tells_flatMap (fun e : String × String × α => (e.1, e.2.1))
    (fun k => path (p ++ "." ++ k.1 ++ "." ++ k.2))
    (fun e => h (p ++ "." ++ e.1 ++ "." ++ e.2.1) e.2.2) m.nodup_keys).congr fun x => ?_
  constructor
  · rintro ⟨⟨s, t, a⟩, ha, hx, hbad⟩
    rw [← hx]
    exact ⟨a, ToolMap.mem_triples.1 ha, hbad⟩
  · rintro ⟨a, ha, hbad⟩
    exact ⟨(x.1.1, x.1.2, a), ToolMap.mem_triples.2 ha, rfl, hbad⟩

end Finding

namespace Draft

open Finding

variable {δ : Type} (path : δ → String) {p : String}

/-! ## Verbs and labels -/

/-- A verb that is none is one bad thing. -/
theorem tells_verb (x : δ) (hx : path x = p) (verb : Option String) :
    Tells (verbFindings p verb) (fun y => y = x ∧ ∃ raw, verb = some raw ∧ raw ∉ verbNames)
      path := by
  cases verb with
  | none => exact ⟨[], List.nodup_nil, by simp, rfl⟩
  | some raw =>
    refine (tells_expect path x hx _ _).congr fun y => ?_
    rw [← Bool.not_eq_true, isName_verb_iff]
    simp

/-- Every label that is none is one bad thing, by its place in the list. -/
theorem tells_labels (g : Nat → δ) (hg : Function.Injective g) (hpath : ∀ j, path (g j) = item p j)
    (raws : List String) :
    Tells (items labelFindings p raws)
      (fun y => ∃ j, y = g j ∧ ∃ raw, raws[j]? = some raw ∧ ¬Label.Written raw) path := by
  have hlabel : ∀ p raw, Tells (labelFindings p raw) (fun _ : Unit => ¬Label.Written raw)
      (fun _ => p) := by
    intro p raw
    have hexpect : Tells (labelFindings p raw)
        (fun y => y = () ∧ Label.isLabel raw.toList = false) (fun _ => p) :=
      tells_expect (fun _ => p) () rfl _ _
    refine hexpect.congr fun _ => ?_
    rw [← Bool.not_eq_true, Label.isLabel_iff]
    simp
  refine ((tells_items hlabel p raws).map (g := fun x : Nat × Unit => g x.1)
    (fun x y hxy => Prod.ext (hg hxy) rfl) (fun x => hpath x.1)).congr fun y => ?_
  constructor
  · rintro ⟨⟨j, _⟩, rfl, hbad⟩
    exact ⟨j, rfl, hbad⟩
  · rintro ⟨j, rfl, hbad⟩
    exact ⟨(j, ()), rfl, hbad⟩

/-! ## Parts of a draft -/

/-- The findings of an override stand for what it violates. -/
theorem Override.tells_findings (p : String) (o : Override) :
    Tells (o.findings p) o.Violates (Defect.path p) := by
  have hverb := tells_verb (Defect.path p) .verb rfl o.verb
  have hlabels := tells_labels (Defect.path p) .label (fun _ _ h => Defect.label.inj h)
    (fun _ => rfl) (o.labels.getD [])
  refine (hverb.append hlabels ?_).congr fun x => ?_
  · rintro _ ⟨rfl, _⟩ ⟨j, hj, _⟩
    cases hj
  · cases x with
    | verb => simp [Violates]
    | label j => cases hl : o.labels <;> simp [Violates, hl]

/-- Those of a classifier rule for what the rule violates. -/
theorem Classifier.tells_findings (p : String) (c : Classifier) :
    Tells (c.findings p) c.Violates (Defect.path p) := by
  have hfield := tells_expect (Defect.path p) .field rfl (!Text.isBlankText c.field)
    "classifier field must not be empty"
  have htest := tells_expect (Defect.path p) .test rfl (c.tests.length == 1)
    ("expected exactly one of contains, notContains, present (found " ++
      toString c.tests.length ++ ")")
  have hsome := tells_expect (Defect.path p) .setLabels rfl (!c.setLabels.isEmpty)
    "setLabels must not be empty"
  have hlabels := tells_labels (Defect.path p) .label (fun _ _ h => Defect.label.inj h)
    (fun _ => rfl) c.setLabels
  -- the requirements of a rule are about different things, whatever holds of them
  refine ((((hfield.append htest ?_).append hsome ?_).append hlabels ?_)).congr fun x => ?_
  · rintro _ ⟨rfl, _⟩ ⟨h, _⟩
    cases h
  · rintro _ (⟨rfl, _⟩ | ⟨rfl, _⟩) ⟨h, _⟩ <;> cases h
  · rintro _ ((⟨rfl, _⟩ | ⟨rfl, _⟩) | ⟨rfl, _⟩) ⟨j, h, _⟩ <;> cases h
  · cases x with
    | field => simp [Violates, ← isBlankText_eq_false_iff]
    | test => simp [Violates, length_tests]
    | setLabels => simp [Violates]
    | label j => simp [Violates]

/-- And those of a policy rule for what that violates. -/
theorem Rule.tells_findings (p : String) (r : Rule) :
    Tells (r.findings p) r.Violates (Defect.path p) := by
  have hname := tells_expect (Defect.path p) .name rfl (!Text.isBlankText r.name)
    "rule name must not be empty"
  have hverb := tells_verb (Defect.path p) .verb rfl r.condition.verb
  have hlabels := tells_labels (Defect.path p) .label (fun _ _ h => Defect.label.inj h)
    (fun _ => rfl) r.condition.labels
  have haction := tells_expect (Defect.path p) .action rfl (Word.isName Action r.action)
    ("invalid action '" ++ r.action ++ "': expected one of allow, deny, evaluateExternally")
  have hpriority := tells_expect (Defect.path p) .priority rfl (isPriority r.priority)
    ("priority " ++ toString r.priority ++ " out of range 0..=" ++
      toString PolicyRule.maxPriority)
  have happrovers := tells_expect (Defect.path p) .approvers rfl
    (!(asksSomebody r.action && r.approvers.all Text.isBlankText))
    "approvers are required for action 'evaluateExternally'"
  have hwhen := hverb.append hlabels (by
    rintro _ ⟨rfl, _⟩ ⟨j, h, _⟩
    cases h)
  -- the checks are made one after another, and no two of them tell of the same defect
  refine ((((hname.append hwhen ?_).append haction ?_).append hpriority ?_).append
    happrovers ?_).congr fun x => ?_
  · rintro _ ⟨rfl, _⟩ (⟨h, _⟩ | ⟨j, h, _⟩) <;> cases h
  · rintro _ (⟨rfl, _⟩ | ⟨rfl, _⟩ | ⟨j, rfl, _⟩) ⟨h, _⟩ <;> cases h
  · rintro _ ((⟨rfl, _⟩ | ⟨rfl, _⟩ | ⟨j, rfl, _⟩) | ⟨rfl, _⟩) ⟨h, _⟩ <;> cases h
  · rintro _ (((⟨rfl, _⟩ | ⟨rfl, _⟩ | ⟨j, rfl, _⟩) | ⟨rfl, _⟩) | ⟨rfl, _⟩) ⟨h, _⟩ <;> cases h
  · cases x with
    | name => simp [Violates, ← isBlankText_eq_false_iff]
    | verb => simp [Violates]
    | label j => simp [Violates]
    | action => simp [Violates, ← isName_action_iff]
    | priority => simp [Violates, ← isPriority_iff]
    | approvers => simp [Violates, ← isBlankText_eq_false_iff, asksSomebody_iff]

/-! ## Drafts -/

/-- The findings of a draft stand for what it violates. -/
theorem tells_findings (d : Draft) : Tells d.findings d.Violates Defect.path := by
  have hversion := tells_expect Defect.path .version rfl (d.version == supportedVersion)
    ("unsupported version '" ++ d.version ++ "': expected '" ++ supportedVersion ++ "'")
  have hprofile : ∀ p raw, Tells (profileFindings p raw)
      (fun _ : Unit => ¬ProfileId.Written raw) (fun _ => p) := by
    intro p raw
    have hexpect : Tells (profileFindings p raw)
        (fun y => y = () ∧ (ProfileId.parse? raw).isSome = false) (fun _ => p) :=
      tells_expect (fun _ => p) () rfl _ _
    refine hexpect.congr fun _ => ?_
    rw [← Bool.not_eq_true, ProfileId.isSome_parse?_iff]
    simp
  have hprofiles : Tells (items profileFindings "profiles" d.profiles)
      (fun y => ∃ x : Nat × Unit, y = .profile x.1 ∧
        ∃ raw, d.profiles[x.1]? = some raw ∧ ¬ProfileId.Written raw) Defect.path :=
    (tells_items hprofile "profiles" d.profiles).map
      (fun _ _ h => Prod.ext (Defect.profile.inj h) rfl) (fun _ => rfl)
  have hoverrides : Tells (tools Override.findings "toolOverrides" d.toolOverrides)
      (fun y => ∃ x : (String × String) × Override.Defect, y = .override x.1.1 x.1.2 x.2 ∧
        ∃ o, d.toolOverrides.find? x.1.1 x.1.2 = some o ∧ o.Violates x.2) Defect.path :=
    (tells_tools Override.tells_findings "toolOverrides" d.toolOverrides).map
      (fun _ _ h => by
        rcases Defect.override.inj h with ⟨hs, ht, hx⟩
        exact Prod.ext (Prod.ext hs ht) hx)
      (fun _ => rfl)
  have hclassifiers : Tells
      (tools (items Classifier.findings) "classifierOverrides" d.classifierOverrides)
      (fun y => ∃ x : (String × String) × Nat × Classifier.Defect,
        y = .classifier x.1.1 x.1.2 x.2.1 x.2.2 ∧
        ∃ rules, d.classifierOverrides.find? x.1.1 x.1.2 = some rules ∧
          ∃ c, rules[x.2.1]? = some c ∧ c.Violates x.2.2) Defect.path :=
    (tells_tools (tells_items Classifier.tells_findings) "classifierOverrides"
      d.classifierOverrides).map
      (fun _ _ h => by
        rcases Defect.classifier.inj h with ⟨hs, ht, hi, hx⟩
        exact Prod.ext (Prod.ext hs ht) (Prod.ext hi hx))
      (fun _ => rfl)
  have hrules : Tells (items Rule.findings "policyRules" d.policyRules)
      (fun y => ∃ x : Nat × Rule.Defect, y = .rule x.1 x.2 ∧
        ∃ r, d.policyRules[x.1]? = some r ∧ r.Violates x.2) Defect.path :=
    (tells_items Rule.tells_findings "policyRules" d.policyRules).map
      (fun _ _ h => by
        rcases Defect.rule.inj h with ⟨hi, hx⟩
        exact Prod.ext hi hx)
      (fun _ => rfl)
  -- a defect names the part of the draft it is in, so no two parts share one
  refine ((((hversion.append hprofiles ?_).append hoverrides ?_).append hclassifiers ?_).append
    hrules ?_).congr fun x => ?_
  · rintro _ ⟨rfl, _⟩ ⟨_, h, _⟩
    cases h
  · rintro _ (⟨rfl, _⟩ | ⟨_, rfl, _⟩) ⟨_, h, _⟩ <;> cases h
  · rintro _ ((⟨rfl, _⟩ | ⟨_, rfl, _⟩) | ⟨_, rfl, _⟩) ⟨_, h, _⟩ <;> cases h
  · rintro _ (((⟨rfl, _⟩ | ⟨_, rfl, _⟩) | ⟨_, rfl, _⟩) | ⟨_, rfl, _⟩) ⟨_, h, _⟩ <;> cases h
  · cases x with
    | version => simp [Violates, supportedVersion]
    | profile i => simp [Violates]
    | override s t x => simp [Violates]
    | classifier s t i x => simp [Violates]
    | rule i x => simp [Violates]

/-- A draft has no findings exactly if it is valid. -/
theorem findings_eq_nil_iff (d : Draft) : d.findings = [] ↔ d.Valid := by
  rw [d.tells_findings.eq_nil_iff, valid_iff]

/-- A draft is free of findings exactly if it is valid; and whatever is wrong with it, its findings
are as many as its defects and stand for them one to one. -/
theorem findings_complete (d : Draft) :
    (d.findings = [] ↔ d.Valid) ∧
    {x | d.Violates x}.encard = d.findings.length ∧
    ∃ defects : List Defect, defects.Nodup ∧ (∀ x, x ∈ defects ↔ d.Violates x) ∧
      d.findings.map (·.path) = defects.map Defect.path :=
  ⟨d.findings_eq_nil_iff, d.tells_findings.encard_eq, d.tells_findings⟩

end Draft

end ToolGate
