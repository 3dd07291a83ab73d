import ToolGate.Proofs.Json.Record
import ToolGate.Proofs.Vocabulary

/-!
# Canonical texts read back

The canonical text of a policy is read as that policy, so different policies have different texts,
and reading any text and writing what was read gives a text that is not changed by doing so again.
Each part of a policy is taken back from its JSON form by its own reader: left out fields count as
the values for which they are left out, and the hints that stand beside the fields of a condition
are told from them by name.

* `ClassifierRule.readsBack`, `Condition.readsBack`, `PolicyRule.readsBack`: the parts of a policy;
* `Annotation.readsBack_with`: annotations, also where hints are given as false;
* `Policy.readsBack_with`: whole policies;
* `Policy.canonical_roundtrip`: canonical texts.
-/

namespace ToolGate

open Json (ReadsBack)

theorem Json.readsBack_labels : ReadsBack ofLabels (asList Label.ofJson) := readsBack_label.list

/-! ## Hints -/

def Json.ofHints (given : HintMap) : List (String × Json) :=
  given.entries.map fun e => (Word.name e.1, .bool e.2)

theorem Json.asMap_ofHints (given : HintMap) :
    asMap wordOfName asBool (.object (ofHints given)) = .ok given :=
  readsBack_bool.asMap Word.name wordOfName_name given

theorem Json.membersArePlain_ofHints (given : HintMap) : MembersArePlain (ofHints given) := by
  refine (membersArePlain_iff _).2 fun m hm => ?_
  rcases List.mem_map.1 hm with ⟨e, _, rfl⟩
  trivial

namespace HintSet

theorem increasing_all : (Word.all (α := Hint)).Pairwise (fun h j => compare h j = .lt) := by
  decide

/-- The hints that hold, given as true. -/
def toMap (s : HintSet) : HintMap where
  entries := s.toList.map fun h => (h, true)
  increasing := List.pairwise_map.2 (increasing_all.filter _)

/-- All hints, given as what they are. -/
def explicit (s : HintSet) : HintMap where
  entries := (Word.all (α := Hint)).map fun h => (h, s.contains h)
  increasing := List.pairwise_map.2 increasing_all

/-- The hints that hold say which set it is. -/
theorem ofMap_toMap (s : HintSet) : ofMap s.toMap = s := by
  apply ext_contains
  intro h
  rw [Bool.eq_iff_iff, contains_ofMap, ← SortedMap.mem_entries]
  simp [toMap, toList, Word.mem_all]

/-- So do all hints, given as what they are. -/
theorem ofMap_explicit (s : HintSet) : ofMap s.explicit = s := by
  apply ext_contains
  intro h
  rw [Bool.eq_iff_iff, contains_ofMap, ← SortedMap.mem_entries]
  simp [explicit, Word.mem_all]

end HintSet

/-! ## Annotations -/

namespace Annotation

/-- The members of an annotation with given hints in the place of its own. -/
def fieldsWith (given : HintMap) (a : Annotation) : List (String × Json) :=
  [("annotations", .object (Json.ofHints given))] ++
    Json.optionalField "verb" (fun v => .text (Word.name v)) a.verb ++
    [("labels", Json.ofLabels a.labels)]

/-- The JSON form of an annotation with given hints in the place of its own. -/
def jsonWith (given : HintMap) (a : Annotation) : Json := .object (a.fieldsWith given)

theorem toJson_eq (a : Annotation) : a.toJson = a.jsonWith a.hints.toMap := by
  simp [toJson, jsonWith, fieldsWith, Json.ofHints, HintSet.toMap, Function.comp_def]

/-- The fields of an annotation, of which the verb may be left out. -/
theorem names_fieldsWith (given : HintMap) (a : Annotation) :
    List.Sublist ((a.fieldsWith given).map (·.1)) ["annotations", "verb", "labels"] := by
  unfold fieldsWith
  rw [List.map_append, List.map_append]
  exact ((List.Sublist.refl ["annotations"]).append (Json.names_optionalField "verb" _ _)).append
    (List.Sublist.refl ["labels"])

/-- Of the given hints the true ones hold. -/
theorem ofJson_jsonWith (given : HintMap) (a : Annotation) :
    ofJson (a.jsonWith given) = .ok { a with hints := .ofMap given } := by
  have hmembers := Json.asRecord_of_nodup ["annotations", "verb", "labels"]
    ((a.names_fieldsWith given).nodup (by decide))
  have hannotations : Json.required (a.fieldsWith given) "annotations"
      (Json.asMap Json.wordOfName Json.asBool) = .ok given := by
    unfold Json.required
    simp [fieldsWith, Json.asMap_ofHints]
  have hverb : Json.optional (a.fieldsWith given) "verb" none (Json.asOption Json.asWord) =
      .ok a.verb :=
    Json.readsBack_word.ifGiven (by simp) (by simp [fieldsWith])
  have hlabels : Json.optional (a.fieldsWith given) "labels" [] (Json.asList Label.ofJson) =
      .ok a.labels :=
    Json.readsBack_labels.given (by simp [fieldsWith])
  unfold jsonWith ofJson
  simp only [bind, Except.bind, hmembers, hannotations, hverb, hlabels, pure, Except.pure]

/-- An annotation is written plainly. -/
theorem plain_jsonWith (given : HintMap) (a : Annotation) : (a.jsonWith given).Plain := by
  have hhints : Json.MembersArePlain [("annotations", .object (Json.ofHints given))] :=
    ⟨Json.membersArePlain_ofHints given, trivial⟩
  have hverb := Json.membersArePlain_optionalField "verb"
    (Json.readsBack_word (α := Verb)).plain a.verb
  have hlabels : Json.MembersArePlain [("labels", Json.ofLabels a.labels)] :=
    ⟨Json.readsBack_labels.plain a.labels, trivial⟩
  exact Json.membersArePlain_append (Json.membersArePlain_append hhints hverb) hlabels

/-- An annotation is read back from any given hints of which its own are the true ones. -/
theorem readsBack_with {given : Annotation → HintMap}
    (hgiven : ∀ a, HintSet.ofMap (given a) = a.hints) :
    ReadsBack (fun a => a.jsonWith (given a)) ofJson where
  read_write a := by rw [ofJson_jsonWith, hgiven]
  plain a := plain_jsonWith (given a) a

end Annotation

/-! ## Classifier rules -/

theorem Matcher.ofField_toField (m : Matcher) :
    Matcher.ofField m.toField.1 m.toField.2 = .ok m := by
  cases m <;> rfl

theorem Matcher.contains_names (m : Matcher) : Matcher.names.contains m.toField.1 = true := by
  cases m <;> simp [Matcher.names, Matcher.toField]

/-- Lists of labels are not nested. -/
theorem Json.isWhole_ofLabels (depth : Nat) (ls : List Label) :
    (ofLabels ls).isWhole (depth + 1) = true := by
  change areWhole depth (ls.map fun l => .text l.text) = true
  induction ls with
  | nil => rfl
  | cons l ls ih => exact ih

namespace ClassifierRule

def fields (r : ClassifierRule) : List (String × Json) :=
  [("field", .text r.field), r.matcher.toField, ("setLabels", Json.ofLabels r.setLabels)]

/-- A rule is not nested so deeply that it would be refused. -/
theorem checkWhole_fields (r : ClassifierRule) : Json.checkWhole 4 (.object r.fields) = .ok () := by
  unfold Json.checkWhole fields
  rw [if_pos]
  cases r.matcher <;>
    simp [Json.isWhole, Json.membersAreWhole, Matcher.toField, Json.maxDepth,
      Json.isWhole_ofLabels]

/-- `field` names no test, so the test of the rule is the first member that does. -/
theorem find?_names_fields (r : ClassifierRule) :
    r.fields.find? (fun m => Matcher.names.contains m.1) = some r.matcher.toField := by
  unfold fields
  rw [List.find?_cons_of_neg (by simp [Matcher.names]), List.find?_cons_of_pos]
  exact r.matcher.contains_names

/-- A rule is read back from its own form. -/
theorem ofJson_toJson (r : ClassifierRule) : ofJson r.toJson = .ok r := by
  have hmembers : Json.asMembers ["field", "setLabels"] (.object r.fields) = .ok r.fields := by
    apply Json.asMembers_of_nodup
    cases hm : r.matcher <;> simp [fields, hm, Matcher.toField]
  have hfield : Json.required r.fields "field" Json.asText = .ok r.field :=
    Json.readsBack_text.required (by simp [fields])
  have hlabels : Json.required r.fields "setLabels" (Json.asList Label.ofJson) =
      .ok r.setLabels := by
    apply Json.readsBack_labels.required
    cases hm : r.matcher <;> simp [fields, hm, Matcher.toField]
  change ofJson (.object r.fields) = .ok r
  unfold ofJson
  simp only [bind, Except.bind, r.checkWhole_fields, hmembers, hfield, r.find?_names_fields,
    Matcher.ofField_toField, hlabels, pure, Except.pure]

theorem readsBack : ReadsBack toJson ofJson where
  read_write := ofJson_toJson
  plain r := by
    refine ⟨trivial, ?_, Json.readsBack_labels.plain r.setLabels, trivial⟩
    cases r.matcher <;> trivial

end ClassifierRule

/-! ## Conditions -/

namespace Condition

/-- The fields of a condition that are no hints. -/
def known : List String := ["verb", "labels", "match"]

def fields (c : Condition) : List (String × Json) :=
  Json.optionalField "verb" (fun v => .text (Word.name v)) c.verb ++
    (if c.labels.isEmpty then [] else [("labels", Json.ofLabels c.labels)]) ++
    (if c.mode.isAll then [] else [("match", .text (Word.name c.mode))])

theorem toJson_eq (c : Condition) : c.toJson = .object (Json.ofHints c.hints ++ c.fields) := by
  unfold toJson fields Json.ofHints
  rw [List.append_assoc, List.append_assoc, List.append_assoc]

/-- The fields of a condition, which may all be left out. -/
theorem names_fields (c : Condition) : List.Sublist (c.fields.map (·.1)) known := by
  unfold fields
  rw [List.map_append, List.map_append]
  exact ((Json.names_optionalField "verb" _ _).append (Json.names_unless _ "labels" _)).append
    (Json.names_unless _ "match" _)

theorem not_known_of_mem_ofHints {given : HintMap} {m : String × Json}
    (hm : m ∈ Json.ofHints given) : m.1 ∉ known := by
  rcases List.mem_map.1 hm with ⟨⟨h, value⟩, _, rfl⟩
  have hname : Word.name h ∉ known := by cases h <;> decide
  exact hname

theorem known_of_mem_fields {c : Condition} {m : String × Json} (hm : m ∈ c.fields) :
    m.1 ∈ known :=
  c.names_fields.subset (List.mem_map_of_mem hm)

/-- No known field is repeated, as no hint has the name of one. -/
theorem asMembers_fields (c : Condition) :
    Json.asMembers known (.object (Json.ofHints c.hints ++ c.fields)) =
      .ok (Json.ofHints c.hints ++ c.fields) := by
  refine Json.asMembers_of_count fun k hk => ?_
  have hhints : (Json.ofHints c.hints).countP (fun m => m.1 == k) = 0 := by
    rw [List.countP_eq_zero]
    intro m hm heq
    exact not_known_of_mem_ofHints hm (by rwa [beq_iff_eq.1 heq])
  have hnames := List.nodup_iff_count.1 (c.names_fields.nodup (by decide)) k
  rw [List.count, List.countP_map] at hnames
  rw [List.countP_append, hhints, Nat.zero_add]
  exact hnames

/-- What is no known field is a hint. -/
theorem filter_known (c : Condition) :
    (Json.ofHints c.hints ++ c.fields).filter (fun m => !known.contains m.1) =
      Json.ofHints c.hints := by
  rw [List.filter_append, List.filter_eq_self.2, List.filter_eq_nil_iff.2, List.append_nil]
  · intro m hm
    simp [known_of_mem_fields hm]
  · intro m hm
    simp [not_known_of_mem_ofHints hm]

/-- A known field is looked up beside the hints. -/
theorem field?_ofHints_append (given : HintMap) (ms : List (String × Json)) {k : String}
    (hk : k ∈ known) : Json.field? (Json.ofHints given ++ ms) k = Json.field? ms k := by
  have hnone : (Json.ofHints given).find? (fun m => m.1 == k) = none := by
    rw [List.find?_eq_none]
    intro m hm heq
    exact not_known_of_mem_ofHints hm (by rwa [beq_iff_eq.1 heq])
  rw [Json.field?_append]
  unfold Json.field?
  rw [hnone]
  rfl

/-- A condition is read back from its own form. -/
theorem ofJson_toJson (c : Condition) : ofJson c.toJson = .ok c := by
  rw [toJson_eq]
  have hfield : ∀ k ∈ known, Json.field? (Json.ofHints c.hints ++ c.fields) k =
      Json.field? c.fields k := fun k hk => field?_ofHints_append c.hints c.fields hk
  have hverb : Json.optional (Json.ofHints c.hints ++ c.fields) "verb" none
      (Json.asOption Json.asWord) = .ok c.verb :=
    Json.readsBack_word.ifGiven (by simp)
      (by rw [hfield "verb" (by decide)]; simp [fields])
  have hlabels : Json.optional (Json.ofHints c.hints ++ c.fields) "labels" []
      (Json.asList Label.ofJson) = .ok c.labels :=
    Json.readsBack_labels.unlessDefault (p := _ = []) id
      (by rw [hfield "labels" (by decide)]; simp [fields])
  have hall : c.mode.isAll = true → c.mode = .all := by
    cases c.mode <;> simp [MatchMode.isAll]
  have hmode : Json.optional (Json.ofHints c.hints ++ c.fields) "match" .all Json.asWord =
      .ok c.mode :=
    Json.readsBack_word.unlessDefault hall
      (by rw [hfield "match" (by decide)]; simp [fields])
  -- the hints are what is left of the members when the known fields are taken out
  have hmembers := c.asMembers_fields
  have hhints := Json.asMap_ofHints c.hints
  rw [← c.filter_known] at hhints
  unfold known at hmembers hhints
  unfold ofJson
  simp only [bind, Except.bind, hmembers, hhints, hverb, hlabels, hmode, pure, Except.pure]

/-- Conditions are read back. -/
theorem readsBack : ReadsBack toJson ofJson where
  read_write := ofJson_toJson
  plain c := by
    have hverb := Json.membersArePlain_optionalField "verb"
      (Json.readsBack_word (α := Verb)).plain c.verb
    have hlabels := Json.membersArePlain_unless c.labels.isEmpty "labels"
      (Json.readsBack_labels.plain c.labels)
    have hmode := Json.membersArePlain_unless c.mode.isAll "match"
      (Json.readsBack_word.plain c.mode)
    rw [toJson_eq]
    exact Json.membersArePlain_append (Json.membersArePlain_ofHints c.hints)
      (Json.membersArePlain_append (Json.membersArePlain_append hverb hlabels) hmode)

end Condition

/-! ## Policy rules -/

namespace PolicyRule

/-- Priorities are read back, as each of them fits its width. -/
theorem readsBack_priority :
    ReadsBack (fun n : UInt16 => Json.ofNat n.toNat) priorityOfJson where
  read_write n := by
    have hn : n.toNat < 65536 := n.toNat_lt
    unfold Json.ofNat priorityOfJson
    simp only
    rw [if_pos (by omega), Int.toNat_natCast, UInt16.ofNat_toNat]
  plain n := by
    have hn : n.toNat < 65536 := n.toNat_lt
    refine ⟨n.toNat, rfl, ?_⟩
    unfold Json.Number.fits64
    rw [Bool.and_eq_true, decide_eq_true_eq, decide_eq_true_eq]
    omega

def fields (r : PolicyRule) : List (String × Json) :=
  [("name", .text r.name)] ++
    Json.optionalField "description" .text r.description ++
    [("when", r.condition.toJson), ("action", .text (Word.name r.action))] ++
    (if r.approvers.isEmpty then [] else [("approvers", .array (r.approvers.map .text))]) ++
    Json.optionalField "timeout" .text r.timeout ++
    [("priority", Json.ofNat r.priority.toNat)]

/-- The fields of a rule in their order, of which three may be left out. -/
theorem names_fields (r : PolicyRule) : List.Sublist (r.fields.map (·.1))
    ["name", "description", "when", "action", "approvers", "timeout", "priority"] := by
  unfold fields
  simp only [List.map_append]
  have hdescription := (List.Sublist.refl ["name"]).append
    (Json.names_optionalField "description" Json.text r.description)
  have haction := hdescription.append (List.Sublist.refl ["when", "action"])
  have happrovers := haction.append (Json.names_unless (r.approvers.isEmpty = true) "approvers"
    (.array (r.approvers.map .text)))
  have htimeout := happrovers.append (Json.names_optionalField "timeout" Json.text r.timeout)
  exact htimeout.append (List.Sublist.refl ["priority"])

/-- A policy rule is read back from its own form. -/
theorem ofJson_toJson (r : PolicyRule) : ofJson r.toJson = .ok r := by
  have hmembers := Json.asRecord_of_nodup
    ["name", "description", "when", "action", "approvers", "timeout", "priority"]
    (r.names_fields.nodup (by decide))
  have hname : Json.required r.fields "name" Json.asText = .ok r.name :=
    Json.readsBack_text.required (by simp [fields])
  have hdescription : Json.optional r.fields "description" none (Json.asOption Json.asText) =
      .ok r.description :=
    Json.readsBack_text.ifGiven (by simp) (by simp [fields])
  have hcondition : Json.optional r.fields "when" Condition.empty Condition.ofJson =
      .ok r.condition :=
    Condition.readsBack.given (by simp [fields])
  have haction : Json.required r.fields "action" Json.asWord = .ok r.action :=
    Json.readsBack_word.required (by simp [fields])
  have happrovers : Json.optional r.fields "approvers" [] (Json.asList Json.asText) =
      .ok r.approvers :=
    Json.readsBack_text.list.unlessDefault (p := r.approvers = []) id (by simp [fields])
  have htimeout : Json.optional r.fields "timeout" none (Json.asOption Json.asText) =
      .ok r.timeout :=
    Json.readsBack_text.ifGiven (by simp) (by simp [fields])
  have hpriority : Json.required r.fields "priority" priorityOfJson = .ok r.priority :=
    readsBack_priority.required (by simp [fields])
  change ofJson (.object r.fields) = .ok r
  unfold ofJson
  simp only [bind, Except.bind, hmembers, hname, hdescription, hcondition, haction, happrovers,
    htimeout, hpriority, pure, Except.pure]

/-- Policy rules are read back. -/
theorem readsBack : ReadsBack toJson ofJson where
  read_write := ofJson_toJson
  plain r := by
    have hname : Json.MembersArePlain [("name", .text r.name)] := ⟨trivial, trivial⟩
    have hdescription := Json.membersArePlain_optionalField "description"
      Json.readsBack_text.plain r.description
    have haction : Json.MembersArePlain
        [("when", r.condition.toJson), ("action", .text (Word.name r.action))] :=
      ⟨Condition.readsBack.plain r.condition, trivial, trivial⟩
    have happrovers := Json.membersArePlain_unless r.approvers.isEmpty "approvers"
      (Json.readsBack_text.list.plain r.approvers)
    have htimeout := Json.membersArePlain_optionalField "timeout"
      Json.readsBack_text.plain r.timeout
    have hpriority : Json.MembersArePlain [("priority", Json.ofNat r.priority.toNat)] :=
      ⟨readsBack_priority.plain r.priority, trivial⟩
    have hbefore := Json.membersArePlain_append (Json.membersArePlain_append hname hdescription)
      haction
    exact Json.membersArePlain_append (Json.membersArePlain_append
      (Json.membersArePlain_append hbefore happrovers) htimeout) hpriority

end PolicyRule

/-! ## Policies -/

namespace Policy

/-- The members of a policy with given hints in the place of each annotation's own. -/
def fieldsWith (given : Annotation → HintMap) (p : Policy) : List (String × Json) :=
  [("version", .text p.version),
   ("toolAnnotations", Json.ofToolMap (fun a => a.jsonWith (given a)) p.annotations),
   ("classifiers", Json.ofToolMap (fun rs => .array (rs.map ClassifierRule.toJson)) p.classifiers),
   ("policyRules", .array (p.rules.map PolicyRule.toJson))]

/-- The JSON form of a policy with given hints in the place of each annotation's own. -/
def jsonWith (given : Annotation → HintMap) (p : Policy) : Json := .object (p.fieldsWith given)

theorem toJson_eq (p : Policy) : p.toJson = p.jsonWith fun a => a.hints.toMap := by
  unfold toJson jsonWith fieldsWith
  rw [funext Annotation.toJson_eq]

/-- No field of a policy is repeated. -/
theorem nodup_fieldsWith (given : Annotation → HintMap) (p : Policy) :
    ((p.fieldsWith given).map (·.1)).Nodup := by
  have hnames : (p.fieldsWith given).map (·.1) =
      ["version", "toolAnnotations", "classifiers", "policyRules"] := rfl
  rw [hnames]
  decide

/-- A policy is read back however the hints of its annotations are given, as long as the ones given
as true are those that hold. -/
theorem readsBack_with {given : Annotation → HintMap}
    (hgiven : ∀ a, HintSet.ofMap (given a) = a.hints) : ReadsBack (jsonWith given) ofJson where
  read_write p := by
    have htools := ReadsBack.toolMap <| Annotation.readsBack_with hgiven
    have hmembers := Json.asRecord_of_nodup
      ["version", "toolAnnotations", "classifiers", "policyRules"] (p.nodup_fieldsWith given)
    have hversion : Json.required (p.fieldsWith given) "version" Json.asText = .ok p.version :=
      Json.readsBack_text.required (by simp [fieldsWith])
    have hannotations : Json.required (p.fieldsWith given) "toolAnnotations"
        (Json.asToolMap Annotation.ofJson) = .ok p.annotations :=
      htools.required (by simp [fieldsWith])
    have hclassifiers : Json.required (p.fieldsWith given) "classifiers"
        (Json.asToolMap (Json.asList ClassifierRule.ofJson)) = .ok p.classifiers :=
      ClassifierRule.readsBack.list.toolMap.required (by simp [fieldsWith])
    have hrules : Json.required (p.fieldsWith given) "policyRules"
        (Json.asList PolicyRule.ofJson) = .ok p.rules :=
      PolicyRule.readsBack.list.required (by simp [fieldsWith])
    unfold jsonWith ofJson
    simp only [bind, Except.bind, hmembers, hversion, hannotations, hclassifiers, hrules, pure,
      Except.pure]
  plain p := by
    have htools := ReadsBack.toolMap <| Annotation.readsBack_with hgiven
    exact ⟨trivial, htools.plain p.annotations,
      ClassifierRule.readsBack.list.toolMap.plain p.classifiers,
      PolicyRule.readsBack.list.plain p.rules, trivial⟩

/-- The text of a JSON form that is read back is read as the policy. -/
theorem parse_pretty {write : Policy → Json} (h : ReadsBack write ofJson) (p : Policy) :
    parse (write p).pretty = .ok p := by
  unfold parse
  rw [Json.parse_pretty (h.plain p)]
  exact h.read_write p

/-- The canonical text of a policy is read as it. -/
theorem parse_render (p : Policy) : parse p.render = .ok p := by
  unfold render
  rw [toJson_eq]
  exact parse_pretty (readsBack_with fun a => HintSet.ofMap_toMap a.hints) p

/-- The text of a policy that also says which hints do not hold. -/
def explicitText (p : Policy) : String := (p.jsonWith fun a => a.hints.explicit).pretty

theorem parse_explicitText (p : Policy) : parse p.explicitText = .ok p :=
  parse_pretty (readsBack_with fun a => HintSet.ofMap_explicit a.hints) p

/-- The canonical text of a policy is read as the policy, so no other policy has it. What any text
is read as is read again from its own canonical text, which writing it again does not change. A text
that also gives the hints that do not hold, as false, stands for the same policy. -/
theorem canonical_roundtrip :
    (∀ p : Policy, parse p.render = .ok p) ∧
    (∀ p q : Policy, p.render = q.render ↔ p = q) ∧
    (∀ t : String, (parse t).bind (fun p => parse p.render) = parse t) ∧
    (∀ t : String, (parse t).bind (fun p => (parse p.render).map render) = (parse t).map render) ∧
    (∀ p : Policy, parse p.explicitText = .ok p) := by
  refine ⟨parse_render, fun p q => ⟨fun h => ?_, congrArg render⟩, fun t => ?_, fun t => ?_,
    parse_explicitText⟩
  · have hread := parse_render q
    rw [← h, parse_render] at hread
    exact Except.ok.inj hread
  · cases parse t with
    | error e => rfl
    | ok p => simp only [Except.bind, parse_render]
  · cases parse t with
    | error e => rfl
    | ok p => simp only [Except.bind, parse_render]

end Policy

end ToolGate
