import Mathlib.Data.List.Forall2
import ToolGate.Proofs.Files.Save
import ToolGate.Proofs.Route.RoundTrip
import ToolGate.Route.Change

/-!
# Routes in files and in memory

A store keeps tables if it loads the one that it holds and, where a table with groups in form is
saved, holds that one from then on. A store in memory does, and so does one in a file that can be
saved, as its tables are read back. What a change or a look at the groups answers, and which table
it leaves, is then decided by the table that is held, so no run of them tells such stores apart.

* `Change.run_of_keeps`: one change;
* `Store.file_keeps`: stores in files keep tables;
* `Request.runAll_of_keeps`: runs of changes and looks, against runs in memory;
* `Store.file_refines_memory`: files against memory.
-/

namespace ToolGate.Route

variable {σ : Type} {store : Store σ} {holds : σ → Table → Prop} {s : σ} {t : Table}

/-! ## Stores that keep tables -/

namespace Store

/-- A store that holds tables in its states: it loads the one that it holds, and it can be given
another one. -/
structure Keeps (store : Store σ) (holds : σ → Table → Prop) : Prop where
  load : ∀ {s t}, holds s t → store.load s = .ok t
  save : ∀ {s t t'}, holds s t → t'.WellFormed →
    ∃ s', store.save t' s = (.ok (), s') ∧ holds s' t'

/-- A store in memory holds its state. -/
theorem memory_keeps : memory.Keeps fun s t => s = t where
  load h := by rw [← h]; rfl
  save _ _ := ⟨_, rfl, rfl⟩

/-- A file holds a table that is read from it, as long as it can be saved. -/
def FileHolds (path : String) (tree : Files.Tree) (t : Table) : Prop :=
  loadFile path tree = .ok t ∧ tree.CanSave path

/-- The stored text of a table is loaded as the table. -/
theorem loadFile_of_read {path : String} {tree : Files.Tree} (ht : t.WellFormed)
    (h : tree.read path = .ok t.render) : loadFile path tree = .ok t := by
  unfold loadFile
  rw [if_pos (Files.Tree.holds_of_read h), h]
  simp only [Table.parse_render ht]

/-- Whatever is in a file, a table that it is read as has groups in form. -/
theorem wellFormed_of_loadFile {path : String} {tree : Files.Tree}
    (h : loadFile path tree = .ok t) : t.WellFormed := by
  unfold loadFile at h
  split at h
  · rcases hread : tree.read path with e | s
    · rw [hread] at h
      cases h
    rcases hparse : Table.parse s with e | u
    · simp only [hread, hparse] at h
      cases h
    · simp only [hread, hparse] at h
      cases h
      exact Table.wellFormed_of_parse hparse
  · cases h
    exact Table.wellFormed_empty

/-- Where there is no file, there are no routes. -/
theorem loadFile_of_not_holds {path : String} {tree : Files.Tree} (h : tree.holds path = false) :
    loadFile path tree = .ok ∅ := by
  unfold loadFile
  rw [h]
  rfl

/-- A file that can be saved once can be saved again, and is read back. -/
theorem file_keeps (path : String) : (file path).Keeps (FileHolds path) where
  load h := h.1
  save {tree _ t'} h ht := by
    rcases Files.Tree.save_of_canSave h.2 t'.render with ⟨tree', hsave, hread, hagain⟩
    refine ⟨tree', ?_, loadFile_of_read ht hread, hagain⟩
    exact run_adapt_eq_ok_iff.2 hsave

end Store

/-! ## One change -/

namespace Change

/-- What a run does, step by step: nothing is saved after a failure or a refusal, nor if the table
is the same. -/
theorem run_eq (store : Store σ) (c : Change) (s : σ) :
    (c.run store).run s =
      match store.load s with
      | .error e => (.error (e.during c.operation), s)
      | .ok t =>
        match c.apply t with
        | .error e => (.error e, s)
        | .ok (o, t') =>
          if t' = t then (.ok o, s)
          else
            match store.save t' s with
            | (.error e, s') => (.error (e.during c.operation), s')
            | (.ok (), s') => (.ok o, s') := by
  have hrun : (c.run store).run s =
      ((c.dialog.play store.backend s).result, (c.dialog.play store.backend s).state) := rfl
  rw [hrun]
  simp only [dialog, Dialog.play, Store.backend, Played.after]
  -- the dialog goes on as the store and the operation answer
  cases store.load s with
  | error e => rfl
  | ok t =>
    simp only [dialogFrom]
    cases c.apply t with
    | error e => rfl
    | ok r =>
      by_cases hsame : r.2 = t
      · -- the dialog ends here, without a second call
        simp only [if_pos hsame, Dialog.play]
      · simp only [if_neg hsame, Dialog.play, Played.after]
        rcases store.save r.2 s with ⟨e | ⟨⟩, s'⟩
        · rfl
        · rfl

/-- On a store that keeps tables, a change answers what it does to the table that is held, and the
store then holds the table after it. -/
theorem run_of_keeps (hstore : store.Keeps holds) (hs : holds s t) (ht : t.WellFormed)
    (c : Change) :
    ∃ s', (c.run store).run s = (c.result t, s') ∧ holds s' (c.next t) := by
  rw [run_eq, hstore.load hs]
  have hnext := wellFormed_next ht c
  rcases hc : c.apply t with e | ⟨o, t'⟩ <;> simp only [hc]
  · rw [result_of_error hc, next_of_error hc]
    exact ⟨s, rfl, hs⟩
  · rw [result_of_ok hc]
    -- a store takes only tables with groups in form, which the next one is
    rw [next_of_ok hc] at hnext ⊢
    by_cases hsame : t' = t
    · -- nothing is saved, and nothing has to be
      rw [if_pos hsame, hsame]
      exact ⟨s, rfl, hs⟩
    · rcases hstore.save hs hnext with ⟨s', hsave, hs'⟩
      rw [if_neg hsame, hsave]
      exact ⟨s', rfl, hs'⟩

/-- In memory, what is saved only when the table is another one is always the table after the
change. -/
theorem run_memory (ht : t.WellFormed) (c : Change) :
    (c.run .memory).run t = (c.result t, c.next t) := by
  rcases run_of_keeps Store.memory_keeps rfl ht c with ⟨t', hrun, rfl⟩
  exact hrun

end Change

/-! ## Runs -/

/-- What is asked of a store: a change, or the groups of one service or of all. -/
inductive Request where
  | change (c : Change)
  | list (service : Option String)
deriving DecidableEq, Repr

/-- What a request is answered with. -/
inductive Answer where
  | changed (outcome : Outcome)
  | listed (groups : List (Key × Group))
deriving DecidableEq, Repr

namespace Request

/-- The answer to a request and the state after it. -/
def run (store : Store σ) : Request → σ → Except Error Answer × σ
  | .change c, s => (((c.run store).run s).1.map .changed, ((c.run store).run s).2)
  | .list service, s => ((store.list service s).map .listed, s)

theorem run_change (store : Store σ) (c : Change) (s : σ) :
    (change c).run store s =
      (((c.run store).run s).1.map .changed, ((c.run store).run s).2) := rfl

/-- The answers to requests one after another, each with the state after it. -/
def runAll (store : Store σ) : List Request → σ → List (Except Error Answer × σ)
  | [], _ => []
  | q :: qs, s => q.run store s :: runAll store qs (q.run store s).2

/-- A store that keeps tables answers a request as memory does, and then holds the table that memory
has. -/
theorem run_of_keeps (hstore : store.Keeps holds) (hs : holds s t) (ht : t.WellFormed)
    (q : Request) :
    (q.run store s).1 = (q.run .memory t).1 ∧ holds (q.run store s).2 (q.run .memory t).2 ∧
      (q.run .memory t).2.WellFormed := by
  cases q with
  | change c =>
    rcases Change.run_of_keeps hstore hs ht c with ⟨s', hrun, hs'⟩
    rw [run_change, run_change, hrun, Change.run_memory ht]
    exact ⟨rfl, hs', Change.wellFormed_next ht c⟩
  | list service =>
    refine ⟨?_, hs, ht⟩
    -- a look does nothing but load, and both load the same table
    change (store.list service s).map _ = (Store.memory.list service t).map _
    unfold Store.list
    rw [hstore.load hs]
    rfl

/-- A run on a store that keeps tables goes as the run in memory, and after every request the store
holds the table that memory has. -/
theorem runAll_of_keeps (hstore : store.Keeps holds) (hs : holds s t) (ht : t.WellFormed)
    (qs : List Request) :
    List.Forall₂ (fun r m => r.1 = m.1 ∧ holds r.2 m.2) (runAll store qs s)
      (runAll .memory qs t) := by
  -- by induction on the requests, from any state in which the store holds the table
  induction qs generalizing s t with
  | nil => exact .nil
  | cons q qs ih =>
    rcases run_of_keeps hstore hs ht q with ⟨hanswer, hs', ht'⟩
    exact .cons ⟨hanswer, hs'⟩ (ih hs' ht')

end Request

namespace Store

/-- The file at a path holds the text of a table, or there is none and the table is empty. From
there, if the file can be saved, all requests are answered as in memory, and after each of them the
table of the file is the one in memory. -/
theorem file_refines_memory {t : Table} (ht : t.Reachable) {path : String} {tree : Files.Tree}
    (hsave : tree.CanSave path)
    (hfile : tree.read path = .ok t.render ∨ (t = ∅ ∧ tree.holds path = false))
    (qs : List Request) :
    (file path).load tree = .ok t ∧
      List.Forall₂ (fun f m => f.1 = m.1 ∧ (file path).load f.2 = .ok m.2)
        (Request.runAll (file path) qs tree) (Request.runAll memory qs t) := by
  have hload : loadFile path tree = .ok t := by
    -- either way the file is loaded as the table at the beginning
    rcases hfile with hread | ⟨rfl, hnone⟩
    · exact loadFile_of_read ht.wellFormed hread
    · exact loadFile_of_not_holds hnone
  refine ⟨hload, ?_⟩
  have hruns := Request.runAll_of_keeps (file_keeps path) ⟨hload, hsave⟩ ht.wellFormed qs
  exact hruns.imp fun _ _ h => ⟨h.1, h.2.1⟩

/-- A file in a directory that is not there yet, with a refused change on the way. -/
theorem file_refines_memory_from_no_file :
    let path := "state/routes.json"
    let k : Key := ⟨"docs", "search"⟩
    let approval : Binding := ⟨.approval, "a", "e"⟩
    let flow : Binding := ⟨.flow, "f", "e"⟩
    let qs : List Request := [.change (.register k approval), .change (.setMode k .all),
      .change (.ensure k flow), .list none]
    Files.Tree.empty.CanSave path ∧ Files.Tree.empty.holds path = false ∧
      (file path).load .empty = .ok ∅ ∧
      List.Forall₂ (fun f m => f.1 = m.1 ∧ (file path).load f.2 = .ok m.2)
        (Request.runAll (file path) qs .empty) (Request.runAll memory qs ∅) ∧
      (Request.runAll memory qs ∅).map (·.1) =
        [.ok (.changed .registered), .error (.invalidState k (Table.tooSmall .all 1)),
          .ok (.changed (.ensured .stacked)), .ok (.listed [(k, ⟨.all, [approval, flow]⟩)])] := by
  intro path k approval flow qs
  have hsave : Files.Tree.empty.CanSave path := ⟨"", by decide +kernel⟩
  have hnone : Files.Tree.empty.holds path = false := by decide +kernel
  have hrefines := file_refines_memory (.stored []) hsave (.inr ⟨rfl, hnone⟩) qs
  exact ⟨hsave, hnone, hrefines.1, hrefines.2, by decide +kernel⟩

end Store

end ToolGate.Route
