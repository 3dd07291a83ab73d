import ToolGate.Proofs.Route.Refinement

/-!
# What a change asks of a store

A change asks for the table and may then ask that another one is saved. What it asks for depends on
the answers and on nothing else, so its dialog can be held with whatever answers, which may answer as
it likes, also another thing each time it is asked.

* `Change.Course`, `Change.course_play`: the ways in which the dialog can go;
* `Error.during_of_failure`: in which words a failure of the store is told;
* `Change.Conduct`, `Change.Course.conduct`: which calls there are, and what the change answers;
* `Change.conduct_of_calls`: each of the six changes, under its name.
-/

namespace ToolGate.Route

variable {σ : Type} {c : Change} {s : σ}

/-! ## Calls -/

namespace Call

def isLoad : Call → Bool
  | .load _ => true
  | .save _ _ => false

/-- The table that a call asks to save. -/
def saved? : Call → Option Table
  | .load _ => none
  | .save t _ => some t

/-- The failure that a call is answered with. -/
def failure? : Call → Option Error
  | .load (.error e) | .save _ (.error e) => some e
  | .load (.ok _) | .save _ (.ok _) => none

end Call

namespace Change

/-! ## The dialog of a change -/

/-- The ways in which the dialog of a change can go, each with its calls and its result. -/
inductive Course (b : Backend σ) (c : Change) (s : σ) : Played σ Outcome → Prop where
  | unread {e s₁} (hload : b.load s = (.error e, s₁)) :
    Course b c s ⟨[.load (.error e)], .error (e.during c.operation), s₁⟩
  | refused {t e s₁} (hload : b.load s = (.ok t, s₁)) (happly : c.apply t = .error e) :
    Course b c s ⟨[.load (.ok t)], .error e, s₁⟩
  | idle {t o s₁} (hload : b.load s = (.ok t, s₁)) (happly : c.apply t = .ok (o, t)) :
    Course b c s ⟨[.load (.ok t)], .ok o, s₁⟩
  | unsaved {t o t' e s₁ s₂} (hload : b.load s = (.ok t, s₁)) (happly : c.apply t = .ok (o, t'))
    (hne : t' ≠ t) (hsave : b.save t' s₁ = (.error e, s₂)) :
    Course b c s
      ⟨[.load (.ok t), .save t' (.error e)], .error (e.during c.operation), s₂⟩
  | saved {t o t' s₁ s₂} (hload : b.load s = (.ok t, s₁)) (happly : c.apply t = .ok (o, t'))
    (hne : t' ≠ t) (hsave : b.save t' s₁ = (.ok (), s₂)) :
    Course b c s ⟨[.load (.ok t), .save t' (.ok ())], .ok o, s₂⟩

/-- The dialog goes in one of these ways, whatever answers it. -/
theorem course_play (b : Backend σ) (c : Change) (s : σ) : Course b c s (c.dialog.play b s) := by
  -- the cases are those of the two answers and of the operation between them
  unfold dialog Dialog.play
  rcases hload : b.load s with ⟨e | t, s₁⟩ <;> simp only
  · exact .unread hload
  · unfold dialogFrom
    rcases happly : c.apply t with e | ⟨o, t'⟩ <;> simp only
    · exact .refused hload happly
    · by_cases hsame : t' = t
      · rw [if_pos hsame]
        subst hsame
        exact .idle hload happly
      · rw [if_neg hsame]
        unfold Dialog.play
        rcases hsave : b.save t' s₁ with ⟨e | _, s₂⟩
        · exact .unsaved hload happly hsame hsave
        · exact .saved hload happly hsame hsave

end Change

/-! ## Refusals and failures -/

namespace Error

/-- The key about which an operation on a table was refused; a failure of a store is about none. -/
def refusedKey? : Error → Option Key
  | .alreadyExists k | .notFound k _ | .invalidState k _ => some k
  | .transport _ | .io _ _ | .serialization _ => none

/-- The texts that tell the cause of a failure of a store. -/
def causes : Error → List String
  | .transport cause => [cause.message]
  | .io path cause => [path, cause]
  | .serialization cause => [cause.message]
  | .alreadyExists _ | .notFound _ _ | .invalidState _ _ => []

/-- Whether an error tells a failure of a store as one of an operation: it can be tried again, it
names the operation, and its message has the cause in it. -/
structure Attributes (operation : String) (failure e : Error) : Prop where
  transport : ∃ cause, e = .transport cause ∧ cause.operation = operation ∧
    ∀ text ∈ failure.causes, text.toList <:+: cause.message.toList
  isRetryable : e.isRetryable = true

/-- A text that other texts stand before is a part of all of them together. -/
theorem infix_append_of_right (before text : String) : text.toList <:+: (before ++ text).toList := by
  rw [String.toList_append]
  exact (List.suffix_append _ _).isInfix

/-- A failure of a store is told as one of the operation, with its cause. -/
theorem during_of_failure {e : Error} (he : e.refusedKey? = none) (operation : String) :
    Attributes operation e (e.during operation) := by
  cases e with
  | alreadyExists k => cases he
  | notFound k what => cases he
  | invalidState k reason => cases he
  | transport cause =>
    -- a failure that already tells the operation is not told twice
    by_cases hsame : cause.operation = operation
    · have hduring : (transport cause).during operation = .transport cause := if_pos hsame
      rw [hduring]
      refine ⟨⟨cause, rfl, hsame, ?_⟩, rfl⟩
      simp [causes]
    · have hduring : (transport cause).during operation =
          .transport ⟨operation, cause.operation ++ ": " ++ cause.message⟩ := if_neg hsame
      rw [hduring]
      refine ⟨⟨_, rfl, rfl, ?_⟩, rfl⟩
      simpa only [causes, List.forall_mem_singleton] using infix_append_of_right _ _
  | io path cause =>
    refine ⟨⟨_, rfl, rfl, ?_⟩, rfl⟩
    intro text htext
    rcases List.mem_pair.1 htext with rfl | rfl
    · rw [String.append_assoc, String.toList_append]
      exact (List.prefix_append _ _).isInfix
    · exact infix_append_of_right _ _
  | serialization cause =>
    refine ⟨⟨_, rfl, rfl, ?_⟩, rfl⟩
    simpa only [causes, List.forall_mem_singleton] using infix_append_of_right _ _

end Error

namespace Change

/-- Only an operation on a table refuses anything, and it is about its own key that it does. -/
theorem refusedKey?_of_apply {t : Table} {e : Error} (h : c.apply t = .error e) :
    e.refusedKey? = some c.key := by
  -- what an operation can refuse depends on whether its key has a group
  cases hg : t.get? c.key with
  | none =>
    cases c
    all_goals simp only [key] at hg
    case register k b => simp [apply, Table.register_of_free b hg, Except.map] at h
    case stack k b =>
      rw [apply, Table.stack_of_free b hg] at h
      cases h
      rfl
    case setMode k m =>
      rw [apply, Table.setMode_of_free m hg] at h
      cases h
      rfl
    case unstack k p =>
      rw [apply, Table.unstack_of_free p hg] at h
      cases h
      rfl
    case clear k => simp [apply] at h
    case ensure k b => simp [apply, Table.ensure_of_free b hg, Except.map] at h
  | some g =>
    cases c
    all_goals simp only [key] at hg
    case register k b =>
      rw [apply, Table.register_of_get? b hg] at h
      cases h
      rfl
    case stack k b => simp [apply, Table.stack_of_get? b hg, Except.map] at h
    case setMode k m =>
      rw [apply, Table.setMode_of_get? m hg] at h
      -- the mode `single` and a group of one check are refused in the same way
      split at h
      · cases h
        rfl
      · split at h <;> cases h
        rfl
    case unstack k p =>
      rw [apply, Table.unstack_of_get? p hg] at h
      split at h <;> cases h
      rfl
    case clear k => simp [apply] at h
    case ensure k b => simp [apply, Table.ensure_of_get? b hg, Except.map] at h

/-! ## Which calls there are, and what is answered -/

/-- What is promised of a change that is told as `operation`, whatever its calls are answered. -/
structure Conduct (operation : String) (b : Backend σ) (c : Change) (s : σ)
    (p : Played σ Outcome) : Prop where
  /-- The table is loaded before anything else, -/
  loads_first : p.calls.head? = some (.load (b.load s).1)
  /-- and not a second time. -/
  loads_once : p.calls.countP Call.isLoad = 1
  /-- No more than one table is saved, -/
  saves_at_most_once : (p.calls.filterMap Call.saved?).length ≤ 1
  /-- and that is what the operation makes of the loaded one, if this is another table. -/
  saves_iff : ∀ t', t' ∈ p.calls.filterMap Call.saved? ↔
    ∃ t o, (b.load s).1 = .ok t ∧ c.apply t = .ok (o, t') ∧ t' ≠ t
  /-- A refusal of the operation is about its key. It is answered as it is, and nothing is saved. -/
  refused : ∀ t e, (b.load s).1 = .ok t → c.apply t = .error e →
    e.refusedKey? = some c.key ∧ p.result = .error e ∧ p.calls.filterMap Call.saved? = []
  /-- A failure of the store, at the load or at the save, is answered as one of the operation. -/
  failed : ∀ call ∈ p.calls, ∀ e, call.failure? = some e → e.refusedKey? = none →
    ∃ e', p.result = .error e' ∧ Error.Attributes operation e e'
  /-- Nothing but what the operation did is answered otherwise, and only if no call has failed. -/
  result_eq_ok_iff : ∀ o, p.result = .ok o ↔
    (∃ t t', (b.load s).1 = .ok t ∧ c.apply t = .ok (o, t')) ∧
      ∀ call ∈ p.calls, call.failure? = none

section Courses

variable {b : Backend σ} {p : Played σ Outcome}

/-- There is one call, which loads, or a second one behind it, which saves. -/
theorem Course.calls_cases (h : Course b c s p) :
    p.calls = [.load (b.load s).1] ∨ ∃ t' a, p.calls = [.load (b.load s).1, .save t' a] := by
  cases h with
  | unread hload | refused hload happly | idle hload happly =>
    rw [hload]
    exact .inl rfl
  | unsaved hload | saved hload =>
    rw [hload]
    exact .inr ⟨_, _, rfl⟩

/-- A table is saved exactly if it is what the operation makes of the loaded one, and another one.
-/
theorem Course.saves_iff (h : Course b c s p) (t' : Table) :
    t' ∈ p.calls.filterMap Call.saved? ↔
      ∃ t o, (b.load s).1 = .ok t ∧ c.apply t = .ok (o, t') ∧ t' ≠ t := by
  cases h with
  | unread hload => simp [Call.saved?, hload]
  | refused hload happly => simp [Call.saved?, hload, happly]
  | idle hload happly =>
    -- what the operation makes of the table is the table itself, so it is not another one
    simp only [List.filterMap_cons, Call.saved?, List.filterMap_nil, List.not_mem_nil, false_iff]
    rintro ⟨t, o, hload', happly', hne⟩
    rw [hload] at hload'
    cases hload'
    rw [happly] at happly'
    cases happly'
    exact hne rfl
  | unsaved hload happly hne | saved hload happly hne =>
    simp only [List.filterMap_cons, Call.saved?, List.filterMap_nil, List.mem_singleton]
    constructor
    · rintro rfl
      exact ⟨_, _, by rw [hload], happly, hne⟩
    · rintro ⟨t, o, hload', happly', _⟩
      rw [hload] at hload'
      cases hload'
      rw [happly] at happly'
      cases happly'
      rfl

/-- A refusal is answered as it is, and nothing is saved. -/
theorem Course.of_refused (h : Course b c s p) {t : Table} {e : Error}
    (hload : (b.load s).1 = .ok t) (happly : c.apply t = .error e) :
    p.result = .error e ∧ p.calls.filterMap Call.saved? = [] := by
  cases h with
  | unread hload' =>
    rw [hload'] at hload
    cases hload
  | refused hload' happly' =>
    rw [hload'] at hload
    cases hload
    rw [happly'] at happly
    cases happly
    exact ⟨rfl, rfl⟩
  | idle hload' happly' | unsaved hload' happly' | saved hload' happly' =>
    rw [hload'] at hload
    cases hload
    rw [happly'] at happly
    cases happly

/-- A call that fails is the last one, and its failure is told as one of the operation. -/
theorem Course.of_failed (h : Course b c s p) {call : Call} (hcall : call ∈ p.calls) {e : Error}
    (hfailure : call.failure? = some e) : p.result = .error (e.during c.operation) := by
  cases h with
  | unread hload =>
    rw [List.mem_singleton] at hcall
    subst hcall
    cases hfailure
    rfl
  | refused hload | idle hload =>
    rw [List.mem_singleton] at hcall
    subst hcall
    cases hfailure
  | unsaved hload =>
    rcases List.mem_pair.1 hcall with rfl | rfl <;> cases hfailure
    rfl
  | saved hload => rcases List.mem_pair.1 hcall with rfl | rfl <;> cases hfailure

/-- Success is what the operation says of the loaded table, if no call has failed. -/
theorem Course.result_eq_ok_iff (h : Course b c s p) (o : Outcome) :
    p.result = .ok o ↔
      (∃ t t', (b.load s).1 = .ok t ∧ c.apply t = .ok (o, t')) ∧
        ∀ call ∈ p.calls, call.failure? = none := by
  cases h with
  | unread hload => simp [hload]
  | refused hload happly => simp [hload, happly]
  | idle hload happly => simp [hload, happly, Call.failure?]
  | unsaved hload happly => simp [Call.failure?]
  | saved hload happly => simp [hload, happly, Call.failure?]

/-- Whichever way the dialog goes, it keeps the promise. -/
theorem Course.conduct (h : Course b c s p) : Conduct c.operation b c s p where
  loads_first := by
    rcases h.calls_cases with hcalls | ⟨_, _, hcalls⟩ <;> rw [hcalls] <;> rfl
  loads_once := by
    rcases h.calls_cases with hcalls | ⟨_, _, hcalls⟩ <;> rw [hcalls] <;> rfl
  saves_at_most_once := by
    rcases h.calls_cases with hcalls | ⟨_, _, hcalls⟩ <;> rw [hcalls]
    · exact Nat.zero_le 1
    · exact Nat.le_refl 1
  saves_iff := h.saves_iff
  refused _ _ hload happly := ⟨refusedKey?_of_apply happly, h.of_refused hload happly⟩
  failed _ hcall e hfailure he :=
    ⟨e.during c.operation, h.of_failed hcall hfailure, Error.during_of_failure he c.operation⟩
  result_eq_ok_iff := h.result_eq_ok_iff

end Courses

/-- What is promised of a change under a name. To run it on a store is to hold its dialog with this
store, so that the promise is also one about every run. -/
structure Conducted (operation : String) (c : Change) : Prop where
  dialog : ∀ (σ : Type) (b : Backend σ) (s : σ), Conduct operation b c s (c.dialog.play b s)
  run : ∀ (σ : Type) (store : Store σ) (s : σ), (c.run store).run s =
    ((c.dialog.play store.backend s).result, (c.dialog.play store.backend s).state)

/-- Each change keeps the promise under its own name. -/
theorem conducted (c : Change) : Conducted c.operation c where
  dialog _ b s := (course_play b c s).conduct
  run _ _ _ := rfl

/-- Whatever a store answers, and even if each call changes what it answers next: a change loads the
table once and saves no more than one, which is the one that its operation makes of the loaded one.
A refusal is answered as it is and a failure as one of the operation, by its name, and success is
answered only where no call has failed. -/
theorem conduct_of_calls (k : Key) (b : Binding) (m : Mode) (p : Protocol) :
    Conducted "register_route" (.register k b) ∧ Conducted "stack_route" (.stack k b) ∧
      Conducted "set_mode" (.setMode k m) ∧ Conducted "unstack_route" (.unstack k p) ∧
        Conducted "clear_routes" (.clear k) ∧ Conducted "ensure_route" (.ensure k b) := by
  refine ⟨?_, ?_, ?_, ?_, ?_, ?_⟩
  · exact conducted (.register k b)
  · exact conducted (.stack k b)
  · exact conducted (.setMode k m)
  · exact conducted (.unstack k p)
  · exact conducted (.clear k)
  · exact conducted (.ensure k b)

example :
    let t := Files.Tree.empty.put ["state"] .directory
    (((Change.stack ⟨"docs", "*"⟩ ⟨.approval, "a", "e"⟩).run (.file "state")).run t).1 =
      .error (.transport ⟨"stack_route", "state: Is a directory (os error 21)"⟩) := by
  decide +kernel

end Change

end ToolGate.Route
