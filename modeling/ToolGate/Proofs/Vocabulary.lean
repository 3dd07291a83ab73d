import ToolGate.Profile.Id
import ToolGate.Proofs.ToolMap
import ToolGate.Text.Blank
import ToolGate.Vocabulary.Hint
import ToolGate.Vocabulary.Label

/-!
# Written forms

What the texts of labels and profile ids look like, said without the scans that read them, and what
given hints do to a set of hints.

* `Label.isLabel_iff`: a label is two sides with a colon between them;
* `ProfileId.isSome_parse?_iff`: a profile id is an organisation, `/security-` and a service;
* `Word.isName_iff`: the names of a vocabulary are those of its words;
* `HintSet.contains_apply`: a given hint is as it is given, every other one as it was.
-/

namespace ToolGate

/-! ## Labels -/

namespace Label

/-- A text of the form `category:value`. -/
def Written (raw : String) : Prop :=
  ∃ category value, raw.toList = category ++ ':' :: value ∧
    isSide category = true ∧ isSide value = true

/-- One side of a label consists of small letters, digits and dashes. -/
theorem isNext_of_mem_side {cs : List Char} (h : isSide cs = true) : ∀ c ∈ cs, isNext c = true := by
  cases cs with
  | nil => simp
  | cons d ds =>
    simp only [isSide, Bool.and_eq_true, List.all_eq_true] at h
    have hd : isNext d = true := by simp [isNext, h.1]
    intro c hc
    rcases List.mem_cons.1 hc with rfl | hc
    · exact hd
    · exact h.2 c hc

theorem ne_colon_of_isSide {cs : List Char} (h : isSide cs = true) : ∀ c ∈ cs, c ≠ ':' := by
  rintro c hc rfl
  have hnext := isNext_of_mem_side h ':' hc
  exact absurd hnext (by decide)

/-- A label is two sides with a colon between them. -/
theorem isLabel_iff (raw : String) : isLabel raw.toList = true ↔ Written raw := by
  constructor
  · intro h
    unfold isLabel at h
    have hcut := List.takeWhile_append_dropWhile (p := (· != ':')) (l := raw.toList)
    split at h
    · contradiction
    · rename_i c value hdrop
      -- the walk over the category stops at a colon and nowhere else
      have hc : c = ':' := by
        have hhead := List.head_dropWhile_not (· != ':') (l := raw.toList) (by simp [hdrop])
        simpa [hdrop] using hhead
      rw [hdrop, hc] at hcut
      rw [Bool.and_eq_true] at h
      exact ⟨before raw.toList, value, hcut.symm, h.1, h.2⟩
  · rintro ⟨category, value, hraw, hcategory, hvalue⟩
    have hne : ∀ c ∈ category, (c != ':') = true := by
      intro c hc
      simpa using ne_colon_of_isSide hcategory c hc
    have hdrop : raw.toList.dropWhile (· != ':') = ':' :: value := by
      rw [hraw, List.dropWhile_append_of_pos hne]
      rfl
    have htake : before raw.toList = category := by
      unfold before
      rw [hraw, List.takeWhile_append_of_pos hne]
      simp
    unfold isLabel
    rw [hdrop, htake]
    simp [hcategory, hvalue]

theorem isSome_ofText?_iff (raw : String) : (ofText? raw).isSome ↔ Written raw := by
  rw [ofText?_isSome, isLabel_iff]

end Label

/-! ## Profile ids -/

namespace ProfileId

/-- A text of the form `<org>/security-<service>`. -/
def Written (raw : String) : Prop :=
  ∃ org service, raw = org ++ "/security-" ++ service ∧
    isOrg org.toList = true ∧ isService service.toList = true

/-- A profile id is an organisation, `/security-` and a service. -/
theorem isSome_parse?_iff (raw : String) : (parse? raw).isSome ↔ Written raw := by
  constructor
  · intro h
    rcases Option.isSome_iff_exists.1 h with ⟨id, hid⟩
    exact ⟨id.org, id.service, (parse?_eq_some hid).symm, id.org_ok, id.service_ok⟩
  · rintro ⟨org, service, rfl, horg, hservice⟩
    have hparse := parse?_text ⟨org, service, horg, hservice⟩
    exact Option.isSome_iff_exists.2 ⟨_, hparse⟩

end ProfileId

/-! ## Closed vocabularies -/

theorem Word.isName_iff {α : Type} [Word α] (raw : String) :
    isName α raw = true ↔ raw ∈ (all (α := α)).map name := by
  unfold isName
  rw [Option.isSome_iff_exists, List.mem_map]
  constructor
  · rintro ⟨a, ha⟩
    exact ⟨a, mem_all a, ofName?_eq_some_iff.1 ha⟩
  · rintro ⟨a, _, ha⟩
    exact ⟨a, ofName?_eq_some_iff.2 ha⟩

/-! ## Blank texts -/

theorem Text.isBlankText_iff (s : String) : isBlankText s = true ↔ trim s.toList = [] := by
  rw [trim_eq_nil_iff]
  rfl

/-! ## Hints -/

namespace HintSet

/-- A given hint is as it is given, every other one as it was. -/
theorem contains_apply (s : HintSet) (given : HintMap) (h : Hint) :
    (s.apply given).contains h = (given.get? h).getD (s.contains h) := by
  have hstep : ∀ (s : HintSet) (e : Hint × Bool) (h : Hint),
      some ((s.set e.1 e.2).contains h) = if e.1 = h then some e.2 else some (s.contains h) := by
    intro s e h
    rw [contains_set]
    by_cases he : e.1 = h <;> simp [he]
  have hwalk := view_foldl_of_nodup (fun (s : HintSet) h => some (s.contains h)) Prod.fst
    (fun e _ => some e.2) hstep given.nodup_keys s h
  rw [SortedMap.find?_entries] at hwalk
  unfold apply
  cases hg : given.get? h with
  | none => simpa [hg] using hwalk
  | some value => simpa [hg] using hwalk

/-- Of given hints the true ones hold. -/
theorem contains_ofMap (given : HintMap) (h : Hint) :
    (ofMap given).contains h = true ↔ given.get? h = some true := by
  unfold ofMap
  rw [contains_apply, contains_empty]
  cases given.get? h <;> simp

end HintSet

end ToolGate
