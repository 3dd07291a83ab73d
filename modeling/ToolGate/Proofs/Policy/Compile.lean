import ToolGate.Policy.Compile
import ToolGate.Proofs.Fallible
import ToolGate.Proofs.Profile.Resolver

/-!
# Compiling documents

A text is compiled in stages, and the first stage that fails tells why: the text is no document, the
document has findings, or an id of a profile has no answer.

* `run_compile_of_findings`, `compile_of_valid`: the stages behind the reading of a text;
* `compileText_of_unreadable`, `compileText_of_findings`, `compileText_of_valid`: all stages;
* `compileText_eq_ok_iff`: when a text is compiled, and to what;
* `compileFile_of_unread`, `compileFile_of_read`: the document in a file.
-/

namespace ToolGate.Policy

/-! ## Drafts -/

/-- Findings are told before any profile is looked up. -/
theorem run_compile_of_findings {d : Draft} (hfindings : d.findings ≠ []) (lookup : Lookup)
    (r : Resolver) : (compile lookup d).run r = (.error (.invalid d.findings), r) := by
  have hcheck : d.check = .error d.findings := by
    unfold Draft.check
    split
    · contradiction
    · rfl
  unfold compile
  simp only [hcheck]
  rfl

/-- A draft without findings is merged with the profiles that its ids are resolved to. -/
theorem run_compile_of_valid {d : Draft} (hfindings : d.findings = []) (lookup : Lookup)
    (r : Resolver) :
    (compile lookup d).run r =
      match (Resolver.resolveAll lookup d.document.profiles).run r with
      | (.ok profiles, r) => (.ok (.of (merge d.document profiles d.document.tenantVars)), r)
      | (.error e, r) => (.error e, r) := by
  have hcheck : d.check = .ok d.document := by
    unfold Draft.check
    rw [hfindings]
  unfold compile
  simp only [hcheck]
  rw [run_bind_state]
  rcases (Resolver.resolveAll lookup d.document.profiles).run r with ⟨_ | _, _⟩ <;> rfl

/-- A draft without findings is merged with the profiles that its ids are answered with, or the
first reason is told why one of them has no profile. -/
theorem compile_of_valid {d : Draft} (hfindings : d.findings = []) (lookup : Lookup)
    (r : Resolver) :
    ((compile lookup d).run r).1 =
      (d.document.profiles.mapM (Resolver.answer lookup r)).map
        fun profiles => .of (merge d.document profiles d.document.tenantVars) := by
  rw [run_compile_of_valid hfindings, ← Resolver.resolveAll_answers]
  rcases (Resolver.resolveAll lookup d.document.profiles).run r with ⟨_ | _, _⟩ <;> rfl

/-! ## Texts -/

/-- A text that is no document is told so, and no profile is looked up. -/
theorem compileText_of_unreadable {text : String} {e : Yaml.Error} (h : Draft.parse text = .error e)
    (lookup : Lookup) (r : Resolver) :
    (compileText lookup text).run r = (.error (.parse e), r) := by
  unfold compileText
  rw [h]
  rfl

/-- The text of a draft is compiled like the draft. -/
theorem compileText_of_draft {text : String} {d : Draft} (h : Draft.parse text = .ok d)
    (lookup : Lookup) : compileText lookup text = compile lookup d := by
  unfold compileText
  rw [h]

/-- The findings of a document are told in place of its policy. -/
theorem compileText_of_findings {text : String} {d : Draft} (h : Draft.parse text = .ok d)
    (hfindings : d.findings ≠ []) (lookup : Lookup) (r : Resolver) :
    (compileText lookup text).run r = (.error (.invalid d.findings), r) := by
  rw [compileText_of_draft h]
  exact run_compile_of_findings hfindings lookup r

/-- What compiling a document without findings gives, and what has been found of profiles then. -/
theorem run_compileText_of_valid {text : String} {d : Draft} (h : Draft.parse text = .ok d)
    (hfindings : d.findings = []) (lookup : Lookup) (r : Resolver) :
    (compileText lookup text).run r =
      match (Resolver.resolveAll lookup d.document.profiles).run r with
      | (.ok profiles, r) => (.ok (.of (merge d.document profiles d.document.tenantVars)), r)
      | (.error e, r) => (.error e, r) := by
  rw [compileText_of_draft h]
  exact run_compile_of_valid hfindings lookup r

/-- What compiling it gives, by the answers to its profile ids. -/
theorem compileText_of_valid {text : String} {d : Draft} (h : Draft.parse text = .ok d)
    (hfindings : d.findings = []) (lookup : Lookup) (r : Resolver) :
    ((compileText lookup text).run r).1 =
      (d.document.profiles.mapM (Resolver.answer lookup r)).map
        fun profiles => .of (merge d.document profiles d.document.tenantVars) := by
  rw [compileText_of_draft h]
  exact compile_of_valid hfindings lookup r

/-- A text is compiled exactly if it is a document without findings whose profile ids have answers,
and then it is compiled to what these are merged to. -/
theorem compileText_eq_ok_iff {lookup : Lookup} {text : String} {r : Resolver}
    {out : Compiled} :
    ((compileText lookup text).run r).1 = .ok out ↔
      ∃ d profiles, (Draft.parse text = .ok d ∧ d.findings = []) ∧
        d.document.profiles.mapM (Resolver.answer lookup r) = .ok profiles ∧
        out = .of (merge d.document profiles d.document.tenantVars) := by
  constructor
  · intro h
    rcases hparse : Draft.parse text with e | d
    · rw [compileText_of_unreadable hparse] at h
      contradiction
    by_cases hfindings : d.findings = []
    · rw [compileText_of_valid hparse hfindings] at h
      rcases hanswers : d.document.profiles.mapM (Resolver.answer lookup r) with e | profiles
      · rw [hanswers] at h
        contradiction
      · rw [hanswers] at h
        cases h
        exact ⟨d, profiles, ⟨rfl, hfindings⟩, hanswers, rfl⟩
    · rw [compileText_of_findings hparse hfindings] at h
      contradiction
  · rintro ⟨d, profiles, ⟨hparse, hfindings⟩, hanswers, rfl⟩
    rw [compileText_of_valid hparse hfindings, hanswers]
    rfl

/-- A text that is compiled to a policy is compiled to the policy with its text and summary. -/
theorem compileText_eq_ok_of_policy {lookup : Lookup} {text : String} {r : Resolver} {p : Policy}
    (h : ((compileText lookup text).run r).1.map (·.policy) = .ok p) :
    ((compileText lookup text).run r).1 = .ok (.of p) := by
  rcases hcompiled : ((compileText lookup text).run r).1 with e | out
  · rw [hcompiled] at h
    cases h
  · rcases compileText_eq_ok_iff.1 hcompiled with ⟨d, profiles, _, _, rfl⟩
    rw [hcompiled] at h
    cases h
    rfl

/-! ## Files -/

/-- A file that is not read fails with its path. -/
theorem compileFile_of_unread {t : Files.Tree} {path : String} {e : Files.Fault}
    (h : t.read path = .error e) (lookup : Lookup) :
    compileFile t lookup path = throw (.io path e) := by
  unfold compileFile readDraft
  rw [h]

/-- The document in a file is compiled like the text of the file. -/
theorem compileFile_of_read {t : Files.Tree} {path text : String} (h : t.read path = .ok text)
    (lookup : Lookup) : compileFile t lookup path = compileText lookup text := by
  unfold compileFile readDraft compileText
  rw [h]
  rcases hparse : Draft.parse text with e | d
  · simp only [hparse]
  · simp only [hparse]

end ToolGate.Policy
