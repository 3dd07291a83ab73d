import ToolGate.Proofs.Route.Refinement

/-!
# Two changes at the same time

A change takes two steps on the store: it loads the table, and it saves the one that it has made of
it, unless that is the same. Between the steps of one client another one may take its own. As long
as never both have loaded and not yet saved, two changes go as one after the other. Otherwise both
work on the table that was there at first, and of what they do to it only the later save is left.

* `Change.advance_twice`: the two steps are the change;
* `Race.step_of_serial`, `Race.step_of_overlapped`: one step of one client;
* `Race.run_goes`: steps in any order;
* `Race.outcome`: what two changes come to, whatever the order of their steps is;
* `Race.loses_update`: which is not always what they come to one after the other.
-/

namespace ToolGate.Route

variable {σ : Type} {store : Store σ} {holds : σ → Table → Prop} {s : σ} {t u : Table}

/-! ## Steps of one change -/

/-- How far a change has come. -/
inductive Progress where
  | waiting
  /-- The table was loaded, and another one was made of it that is not yet saved. -/
  | loaded (outcome : Outcome) (t : Table)
  | done (result : Except Error Outcome)
deriving DecidableEq

/-- Whether a table was loaded and another one is not yet saved. -/
def Progress.isLoaded : Progress → Bool
  | .loaded _ _ => true
  | _ => false

namespace Change

/-- How far a change has come when it has loaded the table. -/
def afterLoad (store : Store σ) (c : Change) (s : σ) : Progress :=
  match store.load s with
  | .error e => .done (.error (e.during c.operation))
  | .ok t =>
    match c.apply t with
    | .error e => .done (.error e)
    | .ok (o, t') => if t' = t then .done (.ok o) else .loaded o t'

/-- The next step of a change. -/
def advance (store : Store σ) (c : Change) : Progress → σ → Progress × σ
  | .waiting, s => (c.afterLoad store s, s)
  | .loaded o t, s =>
    match store.save t s with
    | (.error e, s) => (.done (.error (e.during c.operation)), s)
    | (.ok (), s) => (.done (.ok o), s)
  | .done r, s => (.done r, s)

/-- A change that is alone with the store is done after two steps. -/
theorem advance_twice (store : Store σ) (c : Change) (s : σ) :
    c.advance store (c.advance store .waiting s).1 (c.advance store .waiting s).2 =
      (.done ((c.run store).run s).1, ((c.run store).run s).2) := by
  -- the first step loads, and what is left depends on what it has come to as in a run
  change c.advance store (c.afterLoad store s) s = _
  rw [run_eq]
  unfold afterLoad
  rcases store.load s with e | t
  · rfl
  · rcases hc : c.apply t with e | ⟨o, t'⟩ <;> simp only [hc]
    · rfl
    · by_cases hsame : t' = t
      · rw [if_pos hsame, if_pos hsame]
        rfl
      · rw [if_neg hsame, if_neg hsame]
        change (match store.save t' s with
          | (.error e, s) => (.done (.error (e.during c.operation)), s)
          | (.ok (), s) => (.done (.ok o), s) : Progress × σ) = _
        rcases store.save t' s with ⟨e | _, s'⟩ <;> rfl

/-- A change that has loaded the table is done, if it leaves the table as it is, or has the other
table to save. -/
theorem afterLoad_of_keeps (hstore : store.Keeps holds) (hs : holds s t) (c : Change) :
    (c.afterLoad store s = .done (c.result t) ∧ c.next t = t) ∨
      ∃ o, c.afterLoad store s = .loaded o (c.next t) ∧ c.result t = .ok o ∧ c.next t ≠ t := by
  unfold afterLoad
  rw [hstore.load hs]
  rcases hc : c.apply t with e | ⟨o, t'⟩ <;> simp only [hc]
  · exact .inl ⟨by rw [result_of_error hc], next_of_error hc⟩
  · rw [result_of_ok hc, next_of_ok hc]
    by_cases hsame : t' = t
    · -- the same table is not saved again
      exact .inl ⟨if_pos hsame, hsame⟩
    · exact .inr ⟨o, if_neg hsame, rfl, hsame⟩

/-- A change with a table to save succeeds, and its table is held. -/
theorem advance_loaded_of_keeps (hstore : store.Keeps holds) (hs : holds s u) (ht : t.WellFormed)
    (c : Change) (o : Outcome) :
    ∃ s', c.advance store (.loaded o t) s = (.done (.ok o), s') ∧ holds s' t := by
  rcases hstore.save hs ht with ⟨s', hsave, hs'⟩
  refine ⟨s', ?_, hs'⟩
  unfold advance
  simp only [hsave]

end Change

/-! ## Steps of two changes -/

/-- Two changes on one store. -/
structure Race (σ : Type) where
  first : Progress
  second : Progress
  state : σ
deriving DecidableEq

inductive Client where
  | first
  | second
deriving DecidableEq, Repr

namespace Race

/-- Neither client has taken a step. -/
def start (s : σ) : Race σ := ⟨.waiting, .waiting, s⟩

def step (store : Store σ) (c d : Change) (r : Race σ) : Client → Race σ
  | .first =>
    let next := c.advance store r.first r.state
    ⟨next.1, r.second, next.2⟩
  | .second =>
    let next := d.advance store r.second r.state
    ⟨r.first, next.1, next.2⟩

/-- The steps of the clients in a given order. -/
def run (store : Store σ) (c d : Change) (r : Race σ) (turns : List Client) : Race σ :=
  turns.foldl (step store c d) r

/-- Whether both clients have loaded the table and not yet saved theirs. -/
def bothLoaded (r : Race σ) : Bool := r.first.isLoaded && r.second.isLoaded

/-- Whether it comes to that on the way. -/
def overlaps (store : Store σ) (c d : Change) (r : Race σ) : List Client → Bool
  | [] => false
  | turn :: turns =>
    (r.step store c d turn).bothLoaded || overlaps store c d (r.step store c d turn) turns

end Race

/-! ## What steps keep -/

/-- How far two changes are and which table is held, as long as all goes as if one of them came
after the other, from a table `t` on. -/
inductive Serial (t : Table) : Change → Change → Progress → Progress → Table → Prop where
  | start {c d} : Serial t c d .waiting .waiting t
  | loaded {c d o} (ho : c.result t = .ok o) (hc : c.next t ≠ t) :
    Serial t c d (.loaded o (c.next t)) .waiting t
  | done {c d} : Serial t c d (.done (c.result t)) .waiting (c.next t)
  | doneLoaded {c d o} (ho : d.result (c.next t) = .ok o) :
    Serial t c d (.done (c.result t)) (.loaded o (d.next (c.next t))) (c.next t)
  | bothDone {c d} :
    Serial t c d (.done (c.result t)) (.done (d.result (c.next t))) (d.next (c.next t))
  | swap {c d p q} {u : Table} (h : Serial t c d p q u) : Serial t d c q p u

/-- The same from the moment on at which both have loaded the table `t` and not yet saved. -/
inductive Overlapped (t : Table) : Change → Change → Progress → Progress → Table → Prop where
  | bothLoaded {c d o o'} (ho : c.result t = .ok o) (ho' : d.result t = .ok o')
    (hc : c.next t ≠ t) (hd : d.next t ≠ t) :
    Overlapped t c d (.loaded o (c.next t)) (.loaded o' (d.next t)) t
  | doneLoaded {c d o} (ho : d.result t = .ok o) (hc : c.next t ≠ t) (hd : d.next t ≠ t) :
    Overlapped t c d (.done (c.result t)) (.loaded o (d.next t)) (c.next t)
  | bothDone {c d} (hc : c.next t ≠ t) (hd : d.next t ≠ t) :
    Overlapped t c d (.done (c.result t)) (.done (d.result t)) (d.next t)
  | swap {c d p q} {u : Table} (h : Overlapped t c d p q u) : Overlapped t d c q p u

namespace Race

/-- How two changes have gone from a table `t` on, where both have been seen loaded or not. -/
def Goes (holds : σ → Table → Prop) (t : Table) (c d : Change) (overlapped : Bool) (r : Race σ) :
    Prop :=
  ∃ u, holds r.state u ∧
    if overlapped then Overlapped t c d r.first r.second u else Serial t c d r.first r.second u

variable {c d : Change} {p q : Progress}

/-- It does not matter which of the two is called the first. -/
theorem Goes.swap {b : Bool} (h : Goes holds t c d b ⟨p, q, s⟩) : Goes holds t d c b ⟨q, p, s⟩ := by
  rcases h with ⟨u, hs, h⟩
  refine ⟨u, hs, ?_⟩
  cases b with
  | false => exact Serial.swap h
  | true => exact Overlapped.swap h

/-- Nor does it for whether both are loaded. -/
theorem Goes.swap_bothLoaded (h : Goes holds t c d (bothLoaded ⟨p, q, s⟩) ⟨p, q, s⟩) :
    Goes holds t d c (bothLoaded ⟨q, p, s⟩) ⟨q, p, s⟩ := by
  have hcomm : bothLoaded ⟨q, p, s⟩ = bothLoaded ⟨p, q, s⟩ := Bool.and_comm _ _
  rw [hcomm]
  exact h.swap

theorem step_first (store : Store σ) (c d : Change) (p q : Progress) (s : σ) :
    step store c d ⟨p, q, s⟩ .first = ⟨(c.advance store p s).1, q, (c.advance store p s).2⟩ := rfl

theorem step_second (store : Store σ) (c d : Change) (p q : Progress) (s : σ) :
    step store c d ⟨p, q, s⟩ .second = ⟨p, (d.advance store q s).1, (d.advance store q s).2⟩ := rfl

theorem advance_waiting (store : Store σ) (c : Change) (s : σ) :
    c.advance store .waiting s = (c.afterLoad store s, s) := rfl

/-- The first step of all. -/
theorem Goes.start (hstore : store.Keeps holds) (hs : holds s t) (c d : Change) :
    Goes holds t c d (bothLoaded ⟨c.afterLoad store s, .waiting, s⟩)
      ⟨c.afterLoad store s, .waiting, s⟩ := by
  rcases c.afterLoad_of_keeps hstore hs with ⟨hload, hnext⟩ | ⟨o, hload, ho, hc⟩ <;> rw [hload]
  · exact ⟨c.next t, hnext.symm ▸ hs, .done⟩
  · exact ⟨t, hs, .loaded ho hc⟩

/-- A step from where two changes go as one after the other: they still do so, or both are loaded
now. -/
theorem step_of_serial (hstore : store.Keeps holds) (ht : t.WellFormed) (h : Serial t c d p q u)
    (hs : holds s u) (turn : Client) :
    Goes holds t c d (step store c d ⟨p, q, s⟩ turn).bothLoaded
      (step store c d ⟨p, q, s⟩ turn) := by
  induction h generalizing turn with
  | @start c d =>
    cases turn with
    | first => exact .start hstore hs c d
    | second => exact (Goes.start hstore hs d c).swap_bothLoaded
  | @loaded c d o ho hc =>
    cases turn with
    | first =>
      have hwell := Change.wellFormed_next ht c
      rcases c.advance_loaded_of_keeps hstore hs hwell o with ⟨s', hstep, hs'⟩
      rw [step_first, hstep, ← ho]
      exact ⟨_, hs', .done⟩
    | second =>
      rw [step_second, advance_waiting]
      rcases d.afterLoad_of_keeps hstore hs with ⟨hload, hd⟩ | ⟨o', hload, ho', hd⟩ <;> rw [hload]
      · -- the second client changes nothing and so came first
        have ho' : c.result (d.next t) = .ok o := by rwa [hd]
        have hserial := Serial.doneLoaded ho'
        rw [hd] at hserial
        exact ⟨t, hs, hserial.swap⟩
      · -- the second client has another table to save as well, and it has not seen the first one's
        exact ⟨t, hs, .bothLoaded ho ho' hc hd⟩
  | @done c d =>
    cases turn with
    | first => exact ⟨_, hs, .done⟩
    | second =>
      rw [step_second, advance_waiting]
      rcases d.afterLoad_of_keeps hstore hs with ⟨hload, hd⟩ | ⟨o, hload, ho, hd⟩ <;> rw [hload]
      · -- the second client has loaded what the first one has saved and leaves it as it is
        exact ⟨d.next (c.next t), hd.symm ▸ hs, .bothDone⟩
      · exact ⟨_, hs, .doneLoaded ho⟩
  | @doneLoaded c d o ho =>
    cases turn with
    | first => exact ⟨_, hs, .doneLoaded ho⟩
    | second =>
      have hwell := Change.wellFormed_next (Change.wellFormed_next ht c) d
      rcases d.advance_loaded_of_keeps hstore hs hwell o with ⟨s', hstep, hs'⟩
      rw [step_second, hstep, ← ho]
      exact ⟨_, hs', .bothDone⟩
  | bothDone => cases turn <;> exact ⟨_, hs, .bothDone⟩
  | swap _ ih =>
    cases turn with
    -- with the names changed, the step is one of the other client
    | first => exact (ih hs .second).swap_bothLoaded
    | second => exact (ih hs .first).swap_bothLoaded

/-- A step after both were loaded: what is saved takes the place of whatever was saved meanwhile. -/
theorem step_of_overlapped (hstore : store.Keeps holds) (ht : t.WellFormed)
    (h : Overlapped t c d p q u) (hs : holds s u) (turn : Client) :
    Goes holds t c d true (step store c d ⟨p, q, s⟩ turn) := by
  induction h generalizing turn with
  | @bothLoaded c d o o' ho ho' hc hd =>
    cases turn with
    | first =>
      rcases c.advance_loaded_of_keeps hstore hs (Change.wellFormed_next ht c) o with
        ⟨s', hstep, hs'⟩
      rw [step_first, hstep, ← ho]
      exact ⟨_, hs', .doneLoaded ho' hc hd⟩
    | second =>
      rcases d.advance_loaded_of_keeps hstore hs (Change.wellFormed_next ht d) o' with
        ⟨s', hstep, hs'⟩
      rw [step_second, hstep, ← ho']
      -- it was the second client that saved first, so it takes the part of the first one
      exact ⟨_, hs', .swap (.doneLoaded ho hd hc)⟩
  | @doneLoaded c d o ho hc hd =>
    cases turn with
    | first => exact ⟨_, hs, .doneLoaded ho hc hd⟩
    | second =>
      rcases d.advance_loaded_of_keeps hstore hs (Change.wellFormed_next ht d) o with
        ⟨s', hstep, hs'⟩
      rw [step_second, hstep, ← ho]
      exact ⟨_, hs', .bothDone hc hd⟩
  -- nothing happens any more
  | bothDone hc hd => cases turn <;> exact ⟨_, hs, .bothDone hc hd⟩
  | swap _ ih =>
    cases turn with
    | first => exact (ih hs .second).swap
    | second => exact (ih hs .first).swap

/-- Steps in any order. -/
theorem run_goes (hstore : store.Keeps holds) (ht : t.WellFormed) {b : Bool} {r : Race σ}
    (h : Goes holds t c d b r) (turns : List Client) :
    Goes holds t c d (b || overlaps store c d r turns) (run store c d r turns) := by
  -- by induction on the turns; the flag says which of the two invariants holds, and once both were
  -- loaded this is never forgotten
  induction turns generalizing b r with
  | nil =>
    rw [overlaps, Bool.or_false]
    exact h
  | cons turn turns ih =>
    rcases h with ⟨u, hs, h⟩
    cases b with
    | false => exact ih (step_of_serial hstore ht h hs turn)
    | true => exact ih (step_of_overlapped hstore ht h hs turn)

end Race

/-! ## What two changes come to -/

/-- The results of two changes one after the other and the state after them. -/
def Change.inTurn (store : Store σ) (c d : Change) (s : σ) :
    (Except Error Outcome × Except Error Outcome) × σ :=
  ((((c.run store).run s).1, ((d.run store).run ((c.run store).run s).2).1),
    ((d.run store).run ((c.run store).run s).2).2)

/-- One change after the other answers as on the tables, the second one as on the table after the
first. -/
theorem Change.inTurn_of_keeps (hstore : store.Keeps holds) (hs : holds s t) (ht : t.WellFormed)
    (c d : Change) :
    (c.inTurn store d s).1 = (c.result t, d.result (c.next t)) ∧
      holds (c.inTurn store d s).2 (d.next (c.next t)) := by
  rcases run_of_keeps hstore hs ht c with ⟨s₁, hrun, hs₁⟩
  rcases run_of_keeps hstore hs₁ (wellFormed_next ht c) d with ⟨s₂, hrun₂, hs₂⟩
  unfold inTurn
  rw [hrun, hrun₂]
  exact ⟨rfl, hs₂⟩

variable {c d : Change} {p q : Progress} {r₁ r₂ : Except Error Outcome}

/-- When both are done, one of them came after the other, in one of the two orders. -/
theorem Serial.of_done (h : Serial t c d p q u) (hp : p = .done r₁) (hq : q = .done r₂) :
    (r₁ = c.result t ∧ r₂ = d.result (c.next t) ∧ u = d.next (c.next t)) ∨
      (r₂ = d.result t ∧ r₁ = c.result (d.next t) ∧ u = c.next (d.next t)) := by
  induction h generalizing r₁ r₂ with
  | bothDone =>
    cases hp
    cases hq
    exact .inl ⟨rfl, rfl, rfl⟩
  | swap _ ih => exact (ih hq hp).symm
  | _ => contradiction

/-- When both are done, each has answered as on the first table, and one of the tables is left. -/
theorem Overlapped.of_done (h : Overlapped t c d p q u) (hp : p = .done r₁) (hq : q = .done r₂) :
    (c.next t ≠ t ∧ d.next t ≠ t) ∧ (r₁ = c.result t ∧ r₂ = d.result t) ∧
      (u = c.next t ∨ u = d.next t) := by
  induction h generalizing r₁ r₂ with
  | bothDone hc hd =>
    cases hp
    cases hq
    exact ⟨⟨hc, hd⟩, ⟨rfl, rfl⟩, .inr rfl⟩
  | swap _ ih =>
    rcases ih hq hp with ⟨hne, hr, hu⟩
    exact ⟨hne.symm, hr.symm, hu.symm⟩
  -- in every other case one of them is not done
  | _ => contradiction

namespace Race

/-- Two changes whose steps come in any order, on a store that keeps tables and holds `t`. Unless
both are loaded and not yet saved at some time, the results and the table that is held at the end
are those of one change after the other, in one of the two orders. Otherwise both have changed `t`,
each with the result that it has alone, and what one of them has made of `t` is not in the table at
the end. -/
theorem outcome (hstore : store.Keeps holds) (hs : holds s t) (ht : t.WellFormed) (c d : Change)
    (turns : List Client) {s' : σ}
    (hend : run store c d (start s) turns = ⟨.done r₁, .done r₂, s'⟩) :
    (overlaps store c d (start s) turns = false →
      (∃ u, (c.inTurn store d s).1 = (r₁, r₂) ∧ holds (c.inTurn store d s).2 u ∧ holds s' u) ∨
        ∃ u, (d.inTurn store c s).1 = (r₂, r₁) ∧ holds (d.inTurn store c s).2 u ∧ holds s' u) ∧
    (overlaps store c d (start s) turns = true →
      (c.next t ≠ t ∧ d.next t ≠ t) ∧
        (r₁ = ((c.run store).run s).1 ∧ r₂ = ((d.run store).run s).1) ∧
          (holds s' (c.next t) ∨ holds s' (d.next t))) := by
  have hstart : Goes holds t c d false (start s) := ⟨t, hs, .start⟩
  have hgoes := run_goes hstore ht hstart turns
  rw [hend, Bool.false_or] at hgoes
  -- the invariant of the whole run, at the place where both are done
  rcases hgoes with ⟨u, hu, hplaces⟩
  constructor
  · intro hover
    rw [hover] at hplaces
    rcases Serial.of_done hplaces rfl rfl with ⟨rfl, rfl, rfl⟩ | ⟨rfl, rfl, rfl⟩
    · rcases Change.inTurn_of_keeps hstore hs ht c d with ⟨hresults, hheld⟩
      exact .inl ⟨_, hresults, hheld, hu⟩
    · rcases Change.inTurn_of_keeps hstore hs ht d c with ⟨hresults, hheld⟩
      exact .inr ⟨_, hresults, hheld, hu⟩
  · -- here both have loaded the table `t`, so each run of its own answers the same
    intro hover
    rw [hover] at hplaces
    rcases Overlapped.of_done hplaces rfl rfl with ⟨hne, ⟨rfl, rfl⟩, hu'⟩
    rcases Change.run_of_keeps hstore hs ht c with ⟨_, hc, _⟩
    rcases Change.run_of_keeps hstore hs ht d with ⟨_, hd, _⟩
    refine ⟨hne, ⟨by rw [hc], by rw [hd]⟩, ?_⟩
    rcases hu' with rfl | rfl
    · exact .inl hu
    · exact .inr hu

/-- Two registrations of groups, both of which load the empty table before one of them saves. -/
theorem outcome_of_registrations :
    let c : Change := .register ⟨"docs", "search"⟩ ⟨.approval, "a", "e"⟩
    let d : Change := .register ⟨"docs", "index"⟩ ⟨.identity, "i", "e"⟩
    let turns : List Client := [.first, .second, .first, .second]
    run .memory c d (start ∅) turns = ⟨.done (.ok .registered), .done (.ok .registered), d.next ∅⟩ ∧
      overlaps .memory c d (start ∅) turns = true ∧
      (c.next ∅ ≠ ∅ ∧ d.next ∅ ≠ ∅) ∧
      (.ok .registered = ((c.run .memory).run ∅).1 ∧ .ok .registered = ((d.run .memory).run ∅).1) ∧
      (d.next ∅ = c.next ∅ ∨ d.next ∅ = d.next ∅) := by
  intro c d turns
  -- the run is computed; what it comes to is promised
  have hend : run .memory c d (start ∅) turns =
      ⟨.done (.ok .registered), .done (.ok .registered), d.next ∅⟩ := by decide +kernel
  have hover : overlaps .memory c d (start ∅) turns = true := by decide +kernel
  have houtcome := outcome Store.memory_keeps rfl Table.wellFormed_empty c d turns hend
  exact ⟨hend, hover, houtcome.2 hover⟩

/-- Two clients register groups of two tools; both load the empty table before one of them saves.
Both are told that their group is there, but one of the groups is not. -/
theorem loses_update :
    ¬ ∀ (t : Table) (c d : Change) (turns : List Client) (o₁ o₂ : Outcome) (t' : Table),
      run .memory c d (start t) turns = ⟨.done (.ok o₁), .done (.ok o₂), t'⟩ →
        c.inTurn .memory d t = ((.ok o₁, .ok o₂), t') ∨
          d.inTurn .memory c t = ((.ok o₂, .ok o₁), t') := by
  intro h
  have hturn := h ∅ (.register ⟨"docs", "search"⟩ ⟨.approval, "a", "e"⟩)
    (.register ⟨"docs", "index"⟩ ⟨.identity, "i", "e"⟩) [.first, .second, .first, .second]
    .registered .registered _ rfl
  -- neither order leads to the table in which the first group is missing
  revert hturn
  decide +kernel

end Race

end ToolGate.Route
