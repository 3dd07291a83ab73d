import ToolGate.Yaml.Reader

/-!
# Reading step by step

A reading that gives a value gives one in each of its steps, and goes on from where the step before
it has left off. Scalars are read where they stand: they are no aliases, and nothing is counted for
them.

* `Yaml.bind_eq_ok_iff`, `Yaml.mapM_cons_eq_ok_iff`: readings one after the other;
* `Yaml.asOption_of_bool?`: what spells a truth value is read as one, and not as null;
* `Yaml.Stands`, `Yaml.checkPlainData_of_stands`: scalars that stand for something.
-/

namespace ToolGate.Yaml

variable {α β : Type} {d : Document} {k k' : Nat}

/-! ## Steps -/

theorem bind_of_ok {x : Reading α} {f : α → Reading β} {a : α} (h : x d k = .ok (a, k')) :
    (x >>= f) d k = f a d k' := by
  have hbind : (x >>= f) d k = (x d k).bind fun a => f a.1 d a.2 := rfl
  rw [hbind, h]
  rfl

/-- Two steps give a value if both do. -/
theorem bind_eq_ok_iff {x : Reading α} {f : α → Reading β} {b : β} :
    (x >>= f) d k = .ok (b, k') ↔ ∃ a k₁, x d k = .ok (a, k₁) ∧ f a d k₁ = .ok (b, k') := by
  have hbind : (x >>= f) d k = (x d k).bind fun a => f a.1 d a.2 := rfl
  rw [hbind]
  rcases x d k with e | ⟨a, k₁⟩
  · simp [Except.bind]
  · constructor
    · intro hf
      exact ⟨a, k₁, rfl, hf⟩
    · rintro ⟨_, _, heq, hf⟩
      cases heq
      exact hf

theorem pure_eq_ok_iff {a b : α} :
    (pure a : Reading α) d k = .ok (b, k') ↔ a = b ∧ k = k' := by
  have hpure : (pure a : Reading α) d k = .ok (a, k) := rfl
  rw [hpure, Except.ok.injEq, Prod.mk.injEq]

theorem throw_ne_ok {e : Error} {a : α} : ¬(throw e : Reading α) d k = .ok (a, k') := nofun

theorem mapM_nil_eq_ok_iff {f : α → Reading β} {bs : List β} :
    ([] : List α).mapM f d k = .ok (bs, k') ↔ bs = [] ∧ k' = k := by
  rw [List.mapM_nil, pure_eq_ok_iff]
  exact ⟨fun h => ⟨h.1.symm, h.2.symm⟩, fun h => ⟨h.1.symm, h.2.symm⟩⟩

/-- The first item is read, and then the others. -/
theorem mapM_cons_eq_ok_iff {f : α → Reading β} {a : α} {as : List α} {bs : List β} :
    (a :: as).mapM f d k = .ok (bs, k') ↔
      ∃ b k₁ cs, f a d k = .ok (b, k₁) ∧ as.mapM f d k₁ = .ok (cs, k') ∧ bs = b :: cs := by
  rw [List.mapM_cons]
  simp only [bind_eq_ok_iff, pure_eq_ok_iff]
  constructor
  · rintro ⟨b, k₁, hb, cs, k₂, hcs, rfl, rfl⟩
    exact ⟨b, k₁, cs, hb, hcs, rfl⟩
  · rintro ⟨b, k₁, cs, hb, hcs, rfl⟩
    exact ⟨b, k₁, hb, cs, k', hcs, rfl, rfl⟩

/-- What is read of every item without following an alias is read of the list. -/
theorem mapM_of_forall {f : α → Reading β} {g : α → β} {as : List α}
    (h : ∀ a ∈ as, f a d k = .ok (g a, k)) : as.mapM f d k = .ok (as.map g, k) := by
  induction as with
  | nil => rfl
  | cons a as ih =>
    have hrest := ih fun a' ha' => h a' (List.mem_cons_of_mem a ha')
    exact mapM_cons_eq_ok_iff.2 ⟨_, _, _, h a List.mem_cons_self, hrest, rfl⟩

/-! ## Scalars -/

variable {text : String} {style : Style} {tag : Option String}

/-- A spelling of a truth value is none of null. -/
theorem not_null_of_bool? {value : Bool} (h : Scalar.bool? text = some value) :
    ¬(text = "" ∨ Scalar.isNull text = true) := by
  rintro (rfl | hnull)
  · simp [Scalar.bool?] at h
  · simp only [Scalar.isNull, List.contains_iff_mem, List.mem_cons, List.not_mem_nil,
      or_false] at hnull
    rcases hnull with rfl | rfl | rfl | rfl <;> simp [Scalar.bool?] at h

theorem resolve_of_bool? {value : Bool} (h : Scalar.bool? text = some value) :
    Scalar.resolve text .plain none = .ok (.bool value) := by
  simp [Scalar.resolve, Scalar.ofPlain, not_null_of_bool? h, h]

/-- A truth value is read where nothing may stand as well. -/
theorem asOption_of_bool? {value : Bool} (h : Scalar.bool? text = some value) :
    asOption asBool (.scalar text .plain none) d k = .ok (some value, k) := by
  have hnull : (Node.scalar text .plain none).isNull = .ok false := by
    simp [Node.isNull, not_null_of_bool? h]
  have hbool : asBool (.scalar text .plain none) d k = .ok (value, k) := by
    unfold asBool
    rw [bind_of_ok rfl]
    simp only [spelling?, true_or, if_true, Option.bind_some, h]
    rfl
  unfold asOption
  rw [bind_of_ok rfl, hnull, bind_of_ok rfl]
  simp only [Bool.false_eq_true, if_false]
  rw [bind_of_ok hbool]
  rfl

/-- A scalar is read as what it stands for. -/
theorem asScalar_of_resolve {v : Scalar} (h : Scalar.resolve text style tag = .ok v) :
    asScalar (.scalar text style tag) d k = .ok (v, k) := by
  unfold asScalar
  rw [bind_of_ok rfl]
  simp only [h]
  rfl

/-- Whether a node is a scalar that stands for something. -/
def Stands (n : Node) : Prop :=
  ∃ text style tag v, n = .scalar text style tag ∧ Scalar.resolve text style tag = .ok v

/-- A scalar that stands for something is plain data at any depth. -/
theorem checkPlainData_of_stands {n : Node} (h : Stands n) (depth : Nat) :
    checkPlainData depth n d k = .ok ((), k) := by
  rcases h with ⟨text, style, tag, v, rfl, hresolve⟩
  have hshape : shape (.scalar text style tag) d k = .ok (.scalar v, k) := by
    unfold shape
    rw [bind_of_ok rfl]
    exact bind_of_ok (asScalar_of_resolve hresolve)
  cases depth <;> exact bind_of_ok hshape

end ToolGate.Yaml
