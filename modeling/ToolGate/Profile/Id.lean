/-!
# Profile ids

A profile is imported by an id `<org>/security-<service>`. The organisation starts with an ASCII
letter or digit and goes on with those, `_`, `.` and `-`; the service starts with a small ASCII
letter or a digit and goes on with those, `_` and `-`. Only the service takes part in looking a
profile up.

* `ProfileId.parse?_text`: an id's text reads back as that id;
* `ProfileId.parse?_eq_some`: only an id's own text reads as it.
-/

namespace ToolGate

namespace ProfileId

def isLowerOrDigit (c : Char) : Bool := ('a' ≤ c && c ≤ 'z') || ('0' ≤ c && c ≤ '9')

def isLetterOrDigit (c : Char) : Bool := isLowerOrDigit c || ('A' ≤ c && c ≤ 'Z')

def isOrg : List Char → Bool
  | [] => false
  | c :: cs =>
    isLetterOrDigit c && cs.all (fun c => isLetterOrDigit c || c == '_' || c == '.' || c == '-')

def isService : List Char → Bool
  | [] => false
  | c :: cs => isLowerOrDigit c && cs.all (fun c => isLowerOrDigit c || c == '_' || c == '-')

/-- What stands between the organisation and the service. -/
def separator : List Char := "/security-".toList

end ProfileId

/-- The id of a community profile. -/
structure ProfileId where
  org : String
  service : String
  org_ok : ProfileId.isOrg org.toList = true
  service_ok : ProfileId.isService service.toList = true
deriving DecidableEq

namespace ProfileId

/-- The written form of an id. -/
def text (id : ProfileId) : String := id.org ++ "/security-" ++ id.service

/-- The rest of a list after a given beginning. -/
def stripBeginning : (beginning cs : List Char) → Option (List Char)
  | [], cs => some cs
  | _ :: _, [] => none
  | b :: bs, c :: cs => if b = c then stripBeginning bs cs else none

/-- The id of a text: the organisation ends at the first slash. -/
def parse? (raw : String) : Option ProfileId :=
  let org := raw.toList.takeWhile (· != '/')
  match stripBeginning separator (raw.toList.dropWhile (· != '/')) with
  | none => none
  | some service =>
    if h : isOrg org = true ∧ isService service = true then
      some ⟨String.ofList org, String.ofList service, by simp [h.1], by simp [h.2]⟩
    else none

theorem stripBeginning_append (beginning cs : List Char) :
    stripBeginning beginning (beginning ++ cs) = some cs := by
  induction beginning with
  | nil => rfl
  | cons b bs ih => simp [stripBeginning, ih]

theorem eq_append_of_stripBeginning {beginning cs rest : List Char}
    (h : stripBeginning beginning cs = some rest) : cs = beginning ++ rest := by
  fun_induction stripBeginning beginning cs <;> simp_all

theorem ne_slash_of_isOrg {cs : List Char} (h : isOrg cs = true) : ∀ c ∈ cs, c ≠ '/' := by
  rintro c hc rfl
  cases cs with
  | nil => simp [isOrg] at h
  | cons d ds =>
    simp only [isOrg, Bool.and_eq_true, List.all_eq_true] at h
    rcases List.mem_cons.1 hc with rfl | hm
    · exact absurd h.1 (by decide)
    · exact absurd (h.2 _ hm) (by decide)

theorem takeWhile_append_slash {cs : List Char} (h : ∀ c ∈ cs, c ≠ '/') (rest : List Char) :
    (cs ++ '/' :: rest).takeWhile (· != '/') = cs ∧
      (cs ++ '/' :: rest).dropWhile (· != '/') = '/' :: rest := by
  induction cs with
  | nil => simp
  | cons c cs ih =>
    have hc : c ≠ '/' := h c (by simp)
    have := ih (fun d hd => h d (by simp [hd]))
    simp [hc, this]

theorem toList_text (id : ProfileId) :
    id.text.toList = id.org.toList ++ '/' :: ("security-".toList ++ id.service.toList) := by
  have hsep : "/security-".toList = '/' :: "security-".toList := by decide +kernel
  simp [text, hsep]

/-- An id's text reads back as that id. -/
theorem parse?_text (id : ProfileId) : parse? id.text = some id := by
  have hs := takeWhile_append_slash (ne_slash_of_isOrg id.org_ok)
    ("security-".toList ++ id.service.toList)
  have hsep : separator = '/' :: "security-".toList := by decide +kernel
  have hstrip : stripBeginning separator
      ('/' :: ("security-".toList ++ id.service.toList)) = some id.service.toList := by
    rw [hsep, ← List.cons_append]
    exact stripBeginning_append _ _
  unfold parse?
  simp only [toList_text, hs.1, hs.2, hstrip]
  simp [id.org_ok, id.service_ok]

/-- Only an id's own text reads as it. -/
theorem parse?_eq_some {raw : String} {id : ProfileId} (h : parse? raw = some id) :
    id.text = raw := by
  unfold parse? at h
  dsimp only at h
  split at h
  · contradiction
  · rename_i service hstrip
    split at h
    · cases h
      have happ := eq_append_of_stripBeginning hstrip
      apply String.toList_injective
      have hsep : "/security-".toList = separator := rfl
      simp only [text, String.toList_append, String.toList_ofList, hsep, List.append_assoc]
      rw [← happ, List.takeWhile_append_dropWhile]
    · contradiction

end ProfileId

end ToolGate
