/-!
# Steps that may fail

A step over a state either gives a value or fails, and leaves a state behind in both cases. What one
run of such steps does, from one state, is said step by step.

* `run_bind_state`: a step after another one;
* `run_adapt_state`, `run_tryCatch_state`: a step whose failure is told in other words or handled;
* `run_bind_eq_ok_iff`: two steps that do not fail;
* `mem_iff_of_mapM_eq_ok`, `exists_mem_of_mapM_eq_error`: a step for every item of a list.
-/

namespace ToolGate

universe u

variable {σ ε ε' α β : Type u}

theorem run_get_state (s : σ) : (get : ExceptT ε (StateM σ) σ).run s = (.ok s, s) := rfl

theorem run_modify_state (f : σ → σ) (s : σ) :
    (modify f : ExceptT ε (StateM σ) PUnit).run s = (.ok ⟨⟩, f s) := rfl

/-- After a failure the next step is not taken. -/
theorem run_bind_state (x : ExceptT ε (StateM σ) α) (f : α → ExceptT ε (StateM σ) β) (s : σ) :
    (x >>= f).run s =
      match x.run s with
      | (.ok a, s) => (f a).run s
      | (.error e, s) => (.error e, s) := by
  change ExceptT.bindCont f (x.run s).1 (x.run s).2 = _
  rcases x.run s with ⟨_ | _, _⟩ <;> rfl

theorem run_adapt_state (f : ε → ε') (x : ExceptT ε (StateM σ) α) (s : σ) :
    (x.adapt f).run s = ((x.run s).1.mapError f, (x.run s).2) := rfl

theorem mapError_ok (f : ε → ε') (a : α) : (Except.ok a : Except ε α).mapError f = .ok a := rfl

theorem mapError_error (f : ε → ε') (e : ε) :
    (Except.error e : Except ε α).mapError f = .error (f e) := rfl

/-- A failure is handled in the state that it left behind. -/
theorem run_tryCatch_state (x : ExceptT ε (StateM σ) α) (f : ε → ExceptT ε (StateM σ) α) (s : σ) :
    (tryCatch x f).run s =
      match x.run s with
      | (.ok a, s) => (.ok a, s)
      | (.error e, s) => (f e).run s := by
  change (match (x.run s).1 with
    | Except.ok a => (pure (Except.ok a) : StateM σ (Except ε α))
    | Except.error e => f e) (x.run s).2 = _
  rcases x.run s with ⟨_ | _, _⟩ <;> rfl

theorem run_bind_eq_ok_iff {x : ExceptT ε (StateM σ) α} {f : α → ExceptT ε (StateM σ) β} {s s' : σ}
    {b : β} :
    (x >>= f).run s = (.ok b, s') ↔
      ∃ a s₁, x.run s = (.ok a, s₁) ∧ (f a).run s₁ = (.ok b, s') := by
  rw [run_bind_state]
  constructor
  · intro h
    split at h
    · exact ⟨_, _, ‹_›, h⟩
    · cases h
  · rintro ⟨a, s₁, hx, hf⟩
    rw [hx]
    exact hf

theorem run_adapt_eq_ok_iff {f : ε → ε'} {x : ExceptT ε (StateM σ) α} {s s' : σ} {a : α} :
    (x.adapt f).run s = (.ok a, s') ↔ x.run s = (.ok a, s') := by
  rw [run_adapt_state]
  rcases x.run s with ⟨_ | _, _⟩ <;> constructor <;> intro h <;> cases h <;> rfl

/-! ## One step for every item of a list -/

section Items

variable {f : α → Except ε β} {l : List α} {bs : List β}

theorem mapM_cons_eq_ok_iff {a : α} {cs : List β} :
    (a :: l).mapM f = .ok cs ↔ ∃ b bs, f a = .ok b ∧ l.mapM f = .ok bs ∧ cs = b :: bs := by
  rw [List.mapM_cons]
  constructor
  · intro h
    rcases ha : f a with e | b
    · rw [ha] at h
      cases h
    · rcases hl : l.mapM f with e | bs
      · rw [ha, hl] at h
        cases h
      · rw [ha, hl] at h
        cases h
        exact ⟨b, bs, rfl, rfl, rfl⟩
  · rintro ⟨b, bs, ha, hl, rfl⟩
    rw [ha, hl]
    rfl

/-- The results are those of the items. -/
theorem mem_iff_of_mapM_eq_ok (h : l.mapM f = .ok bs) {b : β} : b ∈ bs ↔ ∃ a ∈ l, f a = .ok b := by
  induction l generalizing bs with
  | nil =>
    cases h
    simp
  | cons a l ih =>
    rcases mapM_cons_eq_ok_iff.1 h with ⟨c, cs, ha, hl, rfl⟩
    have hb : b = c ↔ f a = .ok b := by
      rw [ha, Except.ok.injEq]
      exact eq_comm
    rw [List.mem_cons, ih hl, hb]
    simp only [List.mem_cons, exists_eq_or_imp]

/-- If something is made of every item of a list, each result is made of one of the items. -/
theorem exists_mem_of_mapM_eq_ok (h : l.mapM f = .ok bs) : ∀ b ∈ bs, ∃ a ∈ l, f a = .ok b := by
  intro b hb
  exact (mem_iff_of_mapM_eq_ok h).1 hb

/-- Something is made of every item. -/
theorem exists_of_mapM_eq_ok (h : l.mapM f = .ok bs) : ∀ a ∈ l, ∃ b, f a = .ok b := by
  induction l generalizing bs with
  | nil =>
    intro a ha
    cases ha
  | cons a l ih =>
    rcases mapM_cons_eq_ok_iff.1 h with ⟨b, cs, ha, hl, rfl⟩
    intro a' ha'
    rcases List.mem_cons.1 ha' with rfl | ha'
    · exact ⟨b, ha⟩
    · exact ih hl a' ha'

/-- What fails for a list fails for one of its items. -/
theorem exists_mem_of_mapM_eq_error {e : ε} (h : l.mapM f = .error e) :
    ∃ a ∈ l, f a = .error e := by
  induction l with
  | nil => cases h
  | cons a l ih =>
    rw [List.mapM_cons] at h
    rcases ha : f a with e' | b
    · rw [ha] at h
      cases h
      exact ⟨a, List.mem_cons_self, ha⟩
    · rcases hl : l.mapM f with e' | cs
      · rw [ha, hl] at h
        cases h
        rcases ih hl with ⟨a', ha', hfa'⟩
        exact ⟨a', List.mem_cons_of_mem a ha', hfa'⟩
      · rw [ha, hl] at h
        cases h

end Items

end ToolGate
