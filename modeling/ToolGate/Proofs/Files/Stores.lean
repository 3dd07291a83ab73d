import ToolGate.Proofs.Files.Staging
import ToolGate.Proofs.Policy.Release
import ToolGate.Proofs.Route.Idle
import ToolGate.Proofs.Route.Refinement

/-!
# Stores in files touch their file only

A store in a file is asked to change its routes or to take a policy while the tree around it may be
in any state: directories may be missing or stand in the way, and the file may be no text, no table,
or a table that somebody laid out by hand. A request that fails leaves all files as they were. A
request that succeeds without changing the table leaves everything as it was, down to the layout of
the file; one that changes something writes the whole new text into the one file and leaves no other
file behind. The text is read back as the table or the policy that it was written for. It makes no
difference to this whether the text goes through a staging file.

* `Route.Stores`, `Policy.Stores`: a file with the text of a table or a policy, which is read back;
* `Route.Careful`, `Policy.Careful`: what is promised of a store of either kind;
* `Route.careful_of_savesWhole`: what follows from the way in which the store saves;
* `stores_touch_their_file_only`: stores of both kinds, at any path.
-/

namespace ToolGate

open Files (Tree)

/-! ## Stores of routes -/

namespace Route

/-- A store in a file that saves through staging files. -/
def Store.staged (stage : String → String) (path : String) : Store Tree where
  load := loadFile path
  save t := ((Tree.saveStaged stage path t.render).adapt fun e => .io e.path e.fault.message).run

/-- A table is saved as its text, and a fault is told with its path. -/
theorem Store.save_file (path : String) (u : Table) (t : Tree) :
    (Store.file path).save u t =
      (((Tree.save path u.render).run t).1.mapError fun e => .io e.path e.fault.message,
        ((Tree.save path u.render).run t).2) :=
  run_adapt_state _ _ t

theorem Store.save_staged (stage : String → String) (path : String) (u : Table) (t : Tree) :
    (Store.staged stage path).save u t =
      (((Tree.saveStaged stage path u.render).run t).1.mapError fun e => .io e.path e.fault.message,
        ((Tree.saveStaged stage path u.render).run t).2) :=
  run_adapt_state _ _ t

/-- After a step the file of a store has the text of a table, from which the table is read back, and
no other file is touched. -/
structure Stores (store : Store Tree) (path : String) (t t' : Tree) (u : Table) : Prop where
  written : t.Written t' path u.render
  parsed : Table.parse u.render = .ok u
  loaded : store.load t' = .ok u

/-- What is promised of requests to a store in a file. -/
structure Careful (store : Store Tree) (path : String) : Prop where
  /-- A request that fails leaves all files as they were. -/
  failed : ∀ (t : Tree) (q : Request) (e : Error) (t' : Tree),
    q.run store t = (.error e, t') → t.SameFiles t'
  /-- A look leaves everything as it was. -/
  listed : ∀ (t : Tree) (service : Option String), ((Request.list service).run store t).2 = t
  /-- A change that leaves the table as it is succeeds and leaves everything as it was. -/
  idle : ∀ (t : Tree) (c : Change) (u : Table) (o : Outcome),
    store.load t = .ok u → c.apply u = .ok (o, u) → (c.run store).run t = (.ok o, t)
  /-- A change that succeeds was applied to the table of the file. If it finds nothing to do,
  everything is left as it was, and otherwise the file gets the text of the new table, which is read
  back from it. -/
  changed : ∀ (t : Tree) (c : Change) (o : Outcome) (t' : Tree),
    (c.run store).run t = (.ok o, t') →
      ∃ u, store.load t = .ok u ∧ c.apply u = .ok (o, c.next u) ∧ (c.next u = u ↔ c.Idle u) ∧
        (c.next u = u → t' = t) ∧ (c.next u ≠ u → Stores store path t t' (c.next u))

section Careful

variable {ε : Type} {store : Store Tree} {path : String}
  {save : String → Tree → Except ε Unit × Tree} {f : ε → Error}

/-- What a store that reads its file has written there. -/
theorem stores_of_written (hload : store.load = Store.loadFile path) {t t' : Tree} {u : Table}
    (hu : u.WellFormed) (h : t.Written t' path u.render) : Stores store path t t' u where
  written := h
  parsed := Table.parse_render hu
  loaded := by
    rw [hload]
    exact Store.loadFile_of_read hu h.read

/-- A change to a store that fails or saves the table as a whole. -/
theorem Change.run_of_savesWhole (hload : store.load = Store.loadFile path)
    (hsaves : Tree.SavesWhole save path)
    (hstore : ∀ u t, store.save u t = ((save u.render t).1.mapError f, (save u.render t).2))
    (c : Change) (t : Tree) :
    (∃ e t', (c.run store).run t = (.error e, t') ∧ t.SameFiles t') ∨
      ∃ u o t', (c.run store).run t = (.ok o, t') ∧ store.load t = .ok u ∧
        c.apply u = .ok (o, c.next u) ∧ (c.next u = u → t' = t) ∧
        (c.next u ≠ u → Stores store path t t' (c.next u)) := by
  rw [Change.run_eq]
  -- nothing is written before the table has been read and the change applied to it
  rcases hread : store.load t with e | u
  · exact .inl ⟨_, t, rfl, .refl t⟩
  -- what was read has groups in form, so what the change makes of it has them too
  have hform : (c.next u).WellFormed := by
    rw [hload] at hread
    exact Change.wellFormed_next (Store.wellFormed_of_loadFile hread) c
  rcases happly : c.apply u with e | ⟨o, u'⟩
  · exact .inl ⟨e, t, by simp only [happly], .refl t⟩
  have hnext : c.next u = u' := Change.next_of_ok happly
  simp only [happly]
  by_cases hsame : u' = u
  · rw [if_pos hsame]
    exact .inr ⟨u, o, t, rfl, rfl, by rw [happly, hnext], fun _ => rfl,
      fun hne => absurd (hnext.trans hsame) hne⟩
  · -- the table is another one, so it is saved, or nothing is
    rw [if_neg hsame, hstore]
    rcases hsave : save u'.render t with ⟨e | ⟨⟩, t'⟩
    · exact .inl ⟨_, t', rfl, hsaves.failed hsave⟩
    · have hwritten : t.Written t' path (c.next u).render := by
        rw [hnext]
        exact hsaves.saved hsave
      exact .inr ⟨u, o, t', rfl, rfl, by rw [happly, hnext],
        fun heq => absurd (hnext.symm.trans heq) hsame,
        fun _ => stores_of_written hload hform hwritten⟩

/-- A store that reads its file and saves it as a whole keeps the promises. -/
theorem careful_of_savesWhole (hload : store.load = Store.loadFile path)
    (hsaves : Tree.SavesWhole save path)
    (hstore : ∀ u t, store.save u t = ((save u.render t).1.mapError f, (save u.render t).2)) :
    Careful store path where
  failed t q e t' h := by
    cases q with
    | list service =>
      have hsame : t = t' := congrArg Prod.snd h
      rw [← hsame]
      exact .refl t
    | change c =>
      rw [Request.run_change] at h
      -- a change that is refused has not saved, and a save that fails leaves the files
      rcases Change.run_of_savesWhole hload hsaves hstore c t with
        ⟨e', t₁, hrun, hsame⟩ | ⟨u, o, t₁, hrun, _⟩
      · rw [hrun] at h
        cases h
        exact hsame
      · rw [hrun] at h
        cases h
  listed _ _ := rfl
  idle t c u o hread happly := by
    rw [Change.run_eq, hread]
    simp only [happly, if_true]
  changed t c o t' h := by
    rcases Change.run_of_savesWhole hload hsaves hstore c t with
      ⟨e', t₁, hrun, _⟩ | ⟨u, o', t₁, hrun, hread, happly, hidle, hwritten⟩
    · rw [hrun] at h
      cases h
    · rw [hrun] at h
      cases h
      have heffect := Change.apply_eq_ok_iff.1 happly
      exact ⟨u, hread, happly, heffect.eq_iff_idle, hidle, hwritten⟩

end Careful

end Route

/-! ## Stores of policies -/

namespace Policy

/-- A store in a file that saves through staging files. -/
def Store.staged (stage : String → String) (path : String) : Store Tree where
  get := readFile path
  set p := ((Tree.saveStaged stage path p.render).adapt fun e =>
    .at_ setOperation e.path e.fault.message).run

/-- A policy is saved as its canonical text, and a fault is told with its path. -/
theorem Store.set_file (path : String) (p : Policy) (t : Tree) :
    (Store.file path).set p t =
      (((Tree.save path p.render).run t).1.mapError fun e =>
        .at_ setOperation e.path e.fault.message, ((Tree.save path p.render).run t).2) :=
  run_adapt_state _ _ t

theorem Store.set_staged (stage : String → String) (path : String) (p : Policy) (t : Tree) :
    (Store.staged stage path).set p t =
      (((Tree.saveStaged stage path p.render).run t).1.mapError fun e =>
        .at_ setOperation e.path e.fault.message,
        ((Tree.saveStaged stage path p.render).run t).2) :=
  run_adapt_state _ _ t

/-- After a step the file of a store has the text of a policy, from which the policy is read back,
and no other file is touched. -/
structure Stores (store : Store Tree) (path : String) (t t' : Tree) (p : Policy) : Prop where
  written : t.Written t' path p.render
  parsed : Policy.parse p.render = .ok p
  fetched : store.get t' = .ok (some p)

/-- What is promised of setting the policy of a store in a file. -/
structure Careful (store : Store Tree) (path : String) : Prop where
  failed : ∀ (t : Tree) (p : Policy) (e : TransportError) (t' : Tree),
    store.set p t = (.error e, t') → t.SameFiles t'
  stored : ∀ (t : Tree) (p : Policy) (t' : Tree),
    store.set p t = (.ok (), t') → Stores store path t t' p

/-- A store of policies that saves its file as a whole keeps the promises. -/
theorem careful_of_savesWhole {ε : Type} {store : Store Tree} {path : String}
    {save : String → Tree → Except ε Unit × Tree} {f : ε → TransportError}
    (hget : store.get = Store.readFile path) (hsaves : Tree.SavesWhole save path)
    (hstore : ∀ p t, store.set p t = ((save p.render t).1.mapError f, (save p.render t).2)) :
    Careful store path where
  failed t p e t' h := by
    rw [hstore] at h
    rcases hsave : save p.render t with ⟨e' | ⟨⟩, t₁⟩
    · rw [hsave] at h
      cases h
      exact hsaves.failed hsave
    · rw [hsave] at h
      cases h
  stored t p t' h := by
    rw [hstore] at h
    rcases hsave : save p.render t with ⟨e' | ⟨⟩, t₁⟩
    · rw [hsave] at h
      cases h
    · rw [hsave] at h
      cases h
      have hwritten : t.Written t₁ path p.render := hsaves.saved hsave
      refine ⟨hwritten, parse_render p, ?_⟩
      rw [hget]
      exact Store.readFile_of_read hwritten.read

end Policy

/-! ## Both kinds -/

/-- Stores of routes and of policies touch no file but their own, and that one only to give it the
whole text of what is new, at any path and in any tree, and whatever staging files they use. -/
theorem stores_touch_their_file_only (path : String) (stage : String → String) :
    (Route.Careful (Route.Store.file path) path ∧
      Route.Careful (Route.Store.staged stage path) path) ∧
    Policy.Careful (Policy.Store.file path) path ∧
      Policy.Careful (Policy.Store.staged stage path) path := by
  have hsave := Tree.savesWhole_save path
  have hstaged := Tree.savesWhole_saveStaged stage path
  refine ⟨⟨?_, ?_⟩, ?_, ?_⟩
  · exact Route.careful_of_savesWhole rfl hsave (Route.Store.save_file path)
  · exact Route.careful_of_savesWhole rfl hstaged (Route.Store.save_staged stage path)
  · exact Policy.careful_of_savesWhole rfl hsave (Policy.Store.set_file path)
  · exact Policy.careful_of_savesWhole rfl hstaged (Policy.Store.set_staged stage path)

/-- A table on one line, as somebody wrote it by hand: a check that is there already leaves the line
as it is, and another one is stored with the text of both. A policy is stored beside it, but not
where there is a directory. -/
theorem stores_touch_their_file_only_in_state :
    let path := "state/routes.json"
    let line := "[\x7b\"service\":\"docs\",\"tool\":\"*\",\"mode\":\"single\",\"bindings\":" ++
      "[\x7b\"protocol\":\"approval\",\"instanceRef\":\"a\",\"endpointRef\":\"e\"\x7d]\x7d]"
    let t := (Tree.empty.put ["state"] .directory).put ["state", "routes.json"] (.file (.text line))
    let stage := fun directory => directory ++ "/.tmp"
    let store := Route.Store.staged stage path
    let approval : Route.Binding := ⟨.approval, "b", "e"⟩
    let flow : Route.Binding := ⟨.flow, "f", "e"⟩
    let p : Policy := ⟨"1.0", ∅, ∅, []⟩
    ((Route.Change.stack ⟨"docs", "*"⟩ approval).run store).run t =
        (.ok (.stacked .alreadyBound), t) ∧
      (∃ t', ((Route.Change.stack ⟨"docs", "*"⟩ flow).run store).run t =
          (.ok (.stacked .added), t') ∧
        t.Written t' path ("[\n  \x7b\n    \"service\": \"docs\",\n    \"tool\": \"*\",\n" ++
          "    \"mode\": \"all\",\n    \"bindings\": [\n      \x7b\n" ++
          "        \"protocol\": \"approval\",\n        \"instanceRef\": \"a\",\n" ++
          "        \"endpointRef\": \"e\"\n      \x7d,\n      \x7b\n" ++
          "        \"protocol\": \"flow\",\n        \"instanceRef\": \"f\",\n" ++
          "        \"endpointRef\": \"e\"\n      \x7d\n    ]\n  \x7d\n]")) ∧
      (∃ t', (Policy.Store.staged stage "state/policy.json").set p t = (.ok (), t') ∧
        t.Written t' "state/policy.json" ("\x7b\n  \"version\": \"1.0\",\n" ++
          "  \"toolAnnotations\": \x7b\x7d,\n  \"classifiers\": \x7b\x7d,\n" ++
          "  \"policyRules\": []\n\x7d")) ∧
      ∃ e t', (Policy.Store.staged stage "state").set p t = (.error e, t') ∧ t.SameFiles t' := by
  intro path line t stage store approval flow p
  have hroutes := (stores_touch_their_file_only path stage).1.2
  have hload : store.load t = .ok (Route.Table.ofRows
      [⟨⟨"docs", "*"⟩, ⟨.single, [⟨.approval, "a", "e"⟩]⟩⟩]) := by decide +kernel
  refine ⟨?_, ?_, ?_, ?_⟩
  · apply hroutes.idle _ _ _ _ hload
    decide +kernel
  · have hrun : (((Route.Change.stack ⟨"docs", "*"⟩ flow).run store).run t).1 =
        .ok (.stacked .added) := by decide +kernel
    rcases hroutes.changed t _ _ _ (Prod.ext hrun rfl) with ⟨u, hu, _, _, _, hstores⟩
    rw [hload] at hu
    cases hu
    refine ⟨_, Prod.ext hrun rfl, ?_⟩
    -- what is promised is written is the text of the new table, and that is computed
    convert (hstores (by decide +kernel)).written using 1
    decide +kernel
  · have hpolicies := (stores_touch_their_file_only "state/policy.json" stage).2.2
    have hset : ((Policy.Store.staged stage "state/policy.json").set p t).1 = .ok () := by
      decide +kernel
    refine ⟨_, Prod.ext hset rfl, ?_⟩
    convert (hpolicies.stored t p _ (Prod.ext hset rfl)).written using 1
    decide +kernel
  · have hpolicies := (stores_touch_their_file_only "state" stage).2.2
    have hset : ((Policy.Store.staged stage "state").set p t).1.toOption = none := by decide +kernel
    rcases hresult : (Policy.Store.staged stage "state").set p t with ⟨e | ⟨⟩, t'⟩
    · exact ⟨e, t', rfl, hpolicies.failed t p e t' hresult⟩
    · rw [hresult] at hset
      cases hset

end ToolGate
