import ToolGate.Files.Staging
import ToolGate.Proofs.Files.Save

/-!
# What a save does to files

A save that fails leaves all files as they were, though it may have made directories, and a save
that succeeds gives one file its text and leaves the other files as they were. That is so for a save
as a whole and also for its steps through a staging file, of which nothing is left in either case.

* `Tree.SameFiles`, `Tree.Written`: what may become of a tree;
* `Tree.sameFiles_makeDirectories`: directories are made, and files stay;
* `Tree.walk_put_file`: what one more file changes about where a path leads;
* `Tree.saveStaged_eq_save`: the staging file makes no difference, once it is there;
* `Tree.savesWhole_save`, `Tree.savesWhole_saveStaged`: what saves do.
-/

namespace ToolGate.Files

/-- What a file holds; a directory holds no content. -/
def Entry.content? : Entry → Option Content
  | .file c => some c
  | .directory => none

namespace Tree

variable {t t₁ t' : Tree} {place : Place}

/-! ## Files of a tree -/

/-- What the file at a place holds, if there is one. -/
def file? (t : Tree) (place : Place) : Option Content := (t.entry? place).bind Entry.content?

theorem file?_put (t : Tree) (hplace : place ≠ []) (e : Entry) (p : Place) :
    (t.put place e).file? p = if place = p then e.content? else t.file? p := by
  unfold file?
  rw [entry?_put t hplace]
  split <;> rfl

/-- A tree with the files of another one and at least its directories. -/
structure SameFiles (t t' : Tree) : Prop where
  directories : t.Extends t'
  files : ∀ p, t'.file? p = t.file? p

theorem SameFiles.refl (t : Tree) : t.SameFiles t := ⟨.refl t, fun _ => rfl⟩

theorem SameFiles.trans (h : t.SameFiles t₁) (h' : t₁.SameFiles t') : t.SameFiles t' :=
  ⟨h.directories.trans h'.directories, fun p => (h'.files p).trans (h.files p)⟩

/-- A tree in which a path leads to a file with a text, with the other files of another tree and at
least its directories. -/
structure Written (t t' : Tree) (path text : String) : Prop where
  directories : t.Extends t'
  file : ∃ place, t'.locate path = .ok (.taken place (.file (.text text))) ∧
    ∀ p, p ≠ place → t'.file? p = t.file? p

theorem Written.read {path text : String} (h : t.Written t' path text) :
    t'.read path = .ok text := by
  rcases h.file with ⟨place, hlocate, _⟩
  unfold Tree.read
  rw [hlocate]

/-- What is written after directories were made is written. -/
theorem SameFiles.written {path text : String} (h : t.SameFiles t₁)
    (h' : t₁.Written t' path text) : t.Written t' path text := by
  rcases h'.file with ⟨place, hlocate, hother⟩
  refine ⟨h.directories.trans h'.directories, place, hlocate, ?_⟩
  intro p hp
  exact (hother p hp).trans (h.files p)

/-! ## Making directories -/

/-- A place is free if it has no entry. -/
theorem spotAt_eq_free {q : Place} (h : t.spotAt place = .free q) :
    q = place ∧ t.entry? place = none := by
  unfold spotAt at h
  split at h
  · contradiction
  · rename_i hentry
    cases h
    exact ⟨rfl, hentry⟩

/-- A part of a path that leads to no entry leads to a place without one. -/
theorem entry?_of_step_free {p q : Place} {part : String}
    (hstep : t.step (.taken p .directory) part = .ok (.free q)) :
    q ≠ [] ∧ t.entry? q = none := by
  rcases step_of_file? hstep rfl with ⟨hq, _, hall⟩
  have hspot : t.spotAt q = .free q := Except.ok.inj ((hall t).symm.trans hstep)
  exact ⟨hq, (spotAt_eq_free hspot).2⟩

/-- A directory in a free place takes no file away. -/
theorem sameFiles_put_directory (hplace : place ≠ []) (hfree : t.entry? place = none) :
    t.SameFiles (t.put place .directory) := by
  have hentry : t.entry? place ≠ some .directory := by
    intro h
    rw [hfree] at h
    cases h
  refine ⟨extends_put hplace hentry .directory, fun p => ?_⟩
  rw [file?_put t hplace]
  split
  · rename_i hp
    subst hp
    unfold file?
    rw [hfree]
    rfl
  · rfl

/-- Directories are made in free places only, before a failure as well. -/
theorem sameFiles_makeAlong (place : Place) (way : List String) (t : Tree) :
    t.SameFiles ((makeAlong place way).run t).2 := by
  -- by induction on the names to come, from the directory and the tree so far
  induction way generalizing place t with
  | nil => exact .refl t
  | cons name way ih =>
    rw [run_makeAlong_cons]
    rcases hstep : t.step (.taken place .directory) name with e | ⟨next, _ | _⟩ | next
    · exact .refl t
    · exact .refl t
    · exact ih next t
    · rcases entry?_of_step_free hstep with ⟨hnext, hfree⟩
      exact (sameFiles_put_directory hnext hfree).trans (ih next (t.put next .directory))

/-- Making the directories of a path leaves all files as they were. -/
theorem sameFiles_makeDirectories (path : String) (t : Tree) :
    t.SameFiles ((makeDirectories path).run t).2 := by
  rw [run_makeDirectories]
  split
  · exact .refl t
  · split
    · exact .refl t
    · exact sameFiles_makeAlong _ _ t

/-! ## Saving as a whole -/

/-- What a way of saving texts at a path does to files. -/
structure SavesWhole {ε : Type} (save : String → Tree → Except ε Unit × Tree) (path : String) :
    Prop where
  failed : ∀ {t t' text e}, save text t = (.error e, t') → t.SameFiles t'
  saved : ∀ {t t' text}, save text t = (.ok (), t') → t.Written t' path text

/-- The two steps of a save, each of which tells its path when it fails. -/
theorem run_save (path text : String) (t : Tree) :
    (save path text).run t =
      match (makeDirectories (Path.directory path)).run t with
      | (.error e, t₁) => (.error ⟨Path.directory path, e⟩, t₁)
      | (.ok (), t₁) =>
        (((replaceFile path text).run t₁).1.mapError (⟨path, ·⟩),
          ((replaceFile path text).run t₁).2) := by
  unfold save
  rw [run_bind_state, run_adapt_state]
  rcases (makeDirectories (Path.directory path)).run t with ⟨e | _, t₁⟩ <;> rfl

/-- A file is replaced or everything stays. -/
theorem run_replaceFile_of_error {path text : String} {e : Fault}
    (h : (replaceFile path text).run t = (.error e, t')) : t' = t := by
  rw [run_replaceFile] at h
  split at h
  · cases h
    rfl
  · cases h

/-- A replaced file is written, and nothing else is. -/
theorem written_of_replaceFile {path text : String}
    (h : (replaceFile path text).run t = (.ok (), t')) : t.Written t' path text := by
  rcases run_replaceFile_eq_ok_iff.1 h with ⟨_, s, place, hlocate, hfile, rfl⟩
  have hplace : place ≠ [] := (walk_put (locate_eq_ok_iff.1 hlocate).2 hfile .directory).1
  rcases locate_put hlocate hfile (.file (.text text)) with ⟨hext, hput⟩
  refine ⟨hext, place, hput, ?_⟩
  intro p hp
  rw [file?_put t hplace, if_neg (Ne.symm hp)]

/-- A save leaves all files as they were, or writes one. -/
theorem savesWhole_save (path : String) :
    SavesWhole (fun text => (save path text).run) path where
  failed {t t' text e} h := by
    -- whichever of the two steps fails, nothing but directories has been made by then
    have hmade := sameFiles_makeDirectories (Path.directory path) t
    simp only [run_save] at h
    rcases hmake : (makeDirectories (Path.directory path)).run t with ⟨fault | ⟨⟩, t₁⟩
    · rw [hmake] at h hmade
      cases h
      exact hmade
    · rw [hmake] at h hmade
      simp only at h
      rcases hreplace : (replaceFile path text).run t₁ with ⟨fault | ⟨⟩, t₂⟩
      · rw [hreplace] at h
        cases h
        rw [run_replaceFile_of_error hreplace]
        exact hmade
      · rw [hreplace] at h
        cases h
  saved {t t' text} h := by
    have hmade := sameFiles_makeDirectories (Path.directory path) t
    rcases run_save_eq_ok_iff.1 h with ⟨t₁, hmake, hreplace⟩
    rw [hmake] at hmade
    exact hmade.written (written_of_replaceFile hreplace)

/-! ## One more file -/

/-- Where a path leads without a file and where it leads with one more: both times to the same, or
both times nowhere, or to the file. -/
inductive SpotWith (place : Place) (c : Content) : Except Fault Spot → Except Fault Spot → Prop
  | same (s : Spot) : SpotWith place c (.ok s) (.ok s)
  | nowhere (e e' : Fault) : SpotWith place c (.error e) (.error e')
  | here : SpotWith place c (.ok (.free place)) (.ok (.taken place (.file c)))

/-- From a place that is no directory, a walk is the same in every tree. -/
theorem walk_eq_of_file? {s : Spot} (hs : s.file? = some place) (t t' : Tree)
    (parts : List String) : t.walk s parts = t'.walk s parts := by
  cases parts with
  | nil => rfl
  | cons part parts =>
    rw [walk_cons, walk_cons]
    rcases s with ⟨q, _ | _⟩ | q
    · rfl
    · cases hs
    · rfl

/-- A file that is put in a free place is met by the walks that came to that place, and by no
others. -/
theorem walk_put_file (hplace : place ≠ []) (hfree : t.entry? place = none) (c : Content)
    (parts : List String) (p : Place) :
    SpotWith place c (t.walk (.taken p .directory) parts)
      ((t.put place (.file c)).walk (.taken p .directory) parts) := by
  -- both walks take the same steps until one of them comes to the place
  induction parts generalizing p with
  | nil => exact .same _
  | cons part parts ih =>
    rw [walk_cons, walk_cons]
    rcases step_cases p part with ⟨e, hall⟩ | ⟨q, hall⟩ | hall
    · rw [hall, hall]
      exact .nowhere e e
    · rw [hall, hall]
      exact ih q
    · rw [hall, hall]
      by_cases hpart : place = p ++ [part]
      · -- the place itself, behind which there is nothing in either tree
        have hspot : t.spotAt (p ++ [part]) = .free place := by
          unfold spotAt
          rw [← hpart, hfree]
        rw [hspot, ← hpart, spotAt_put t hplace]
        cases parts with
        | nil => exact .here
        | cons next parts => exact .nowhere .notFound .notDirectory
      · have hspot : (t.put place (.file c)).spotAt (p ++ [part]) = t.spotAt (p ++ [part]) := by
          unfold spotAt
          rw [entry?_put t hplace, if_neg hpart]
        rw [hspot]
        change SpotWith place c (t.walk _ parts) ((t.put place (.file c)).walk _ parts)
        cases hfile : (t.spotAt (p ++ [part])).file? with
        | some q =>
          rw [walk_eq_of_file? hfile (t.put place (.file c)) t]
          cases t.walk (t.spotAt (p ++ [part])) parts with
          | error e => exact .nowhere e e
          | ok s => exact .same s
        | none =>
          rcases hs : t.spotAt (p ++ [part]) with ⟨q, _ | _⟩ | q
          · rw [hs] at hfile
            cases hfile
          · exact ih q
          · rw [hs] at hfile
            cases hfile

/-- What one more file changes about where a path leads. -/
theorem locate_put_file (hplace : place ≠ []) (hfree : t.entry? place = none) (c : Content)
    (path : String) :
    SpotWith place c (t.locate path) ((t.put place (.file c)).locate path) := by
  unfold locate
  cases refusal? path with
  | some e => exact .nowhere e e
  | none => exact walk_put_file hplace hfree c (Path.segments path) _

/-- A walk that comes to no entry comes to a place without one. -/
theorem entry?_of_walk_free {parts : List String} {p : Place}
    (hwalk : t.walk (.taken p .directory) parts = .ok (.free place)) :
    place ≠ [] ∧ t.entry? place = none := by
  induction parts generalizing p with
  | nil => cases hwalk
  | cons part parts ih =>
    rw [walk_cons] at hwalk
    rcases hstep : t.step (.taken p .directory) part with e | ⟨q, _ | _⟩ | q
    · rw [hstep] at hwalk
      cases hwalk
    · rw [hstep] at hwalk
      have hover := walk_of_file? (t := t) (s := .taken q (.file _)) rfl hwalk
      cases hover.2
    · rw [hstep] at hwalk
      exact ih hwalk
    · rw [hstep] at hwalk
      have hover := walk_of_file? (t := t) (s := .free q) rfl hwalk
      cases hover.2
      exact entry?_of_step_free hstep

theorem entry?_of_locate_free {path : String} (h : t.locate path = .ok (.free place)) :
    place ≠ [] ∧ t.entry? place = none :=
  entry?_of_walk_free (locate_eq_ok_iff.1 h).2

/-! ## Saving through a staging file -/

/-- Of two entries that are put at one place the later one stays. -/
theorem put_put (t : Tree) (place : Place) (e e' : Entry) :
    (t.put place e).put place e' = t.put place e' := by
  unfold put
  congr 1
  apply SortedMap.ext_get?
  intro p
  rw [SortedMap.get?_insert, SortedMap.get?_insert, SortedMap.get?_insert]
  split <;> rfl

/-- What is put in a free place can be taken away. -/
theorem erase_put (hplace : place ≠ []) (hfree : t.entry? place = none) (e : Entry) :
    (t.put place e).erase place = t := by
  have hnone : t.entries.get? place = none := by
    cases place with
    | nil => contradiction
    | cons name names => exact hfree
  have hentries : (t.entries.insert place e).erase place = t.entries := by
    apply SortedMap.ext_get?
    intro p
    rw [SortedMap.get?_erase, SortedMap.get?_insert]
    split
    · rename_i hp
      rw [← hp, hnone]
    · rfl
  unfold put erase
  rw [hentries]

/-- A file that was put in a free place is moved as if it had never been there. -/
theorem move_put (hplace : place ≠ []) (hfree : t.entry? place = none) (e : Entry)
    (target : Place) : (t.put place e).move place target = t.put target e := by
  unfold move
  rw [entry?_put t hplace, if_pos rfl]
  simp only
  rw [erase_put hplace hfree]

/-- A file is made where its path leads to no entry. -/
theorem run_createFile (path : String) (t : Tree) :
    (createFile path).run t =
      match t.locate path with
      | .error e => (.error e, t)
      | .ok (.taken _ _) => (.error .exists_, t)
      | .ok (.free place) => (.ok place, t.put place (.file (.text ""))) := by
  unfold createFile
  rw [run_bind_state, run_get_state]
  simp only
  rcases t.locate path with e | ⟨q, _⟩ | q <;> rfl

/-- A file in a free place changes nothing about which place a path can be given a file at. -/
theorem target_put_file (hplace : place ≠ []) (hfree : t.entry? place = none) (c : Content)
    (r : Refusals) (path : String) :
    (∃ e e', target r t path = .error e ∧ target r (t.put place (.file c)) path = .error e') ∨
      ∃ q, target r t path = .ok q ∧ target r (t.put place (.file c)) path = .ok q := by
  unfold target
  split
  · exact .inl ⟨_, _, rfl, rfl⟩
  · exact .inl ⟨_, _, rfl, rfl⟩
  have hspots := locate_put_file hplace hfree c (Path.withoutSlashes path)
  generalize t.locate (Path.withoutSlashes path) = without at hspots ⊢
  generalize (t.put place (.file c)).locate (Path.withoutSlashes path) = within at hspots ⊢
  cases hspots with
  | same s =>
    -- one spot gives one answer, whichever it is
    rcases s with ⟨q, _ | _⟩ | q <;> simp only
    · split
      · exact .inl ⟨_, _, rfl, rfl⟩
      · exact .inr ⟨q, rfl, rfl⟩
    · split
      · exact .inl ⟨_, _, rfl, rfl⟩
      · split
        · exact .inl ⟨_, _, rfl, rfl⟩
        · exact .inl ⟨_, _, rfl, rfl⟩
    · split
      · exact .inl ⟨_, _, rfl, rfl⟩
      · exact .inr ⟨q, rfl, rfl⟩
  | nowhere e e' => exact .inl ⟨e, e', rfl, rfl⟩
  | here =>
    simp only
    split
    · exact .inl ⟨_, _, rfl, rfl⟩
    · exact .inr ⟨place, rfl, rfl⟩

/-- A file is moved to the target of a path. -/
theorem run_moveFile (source : Place) (path : String) (t : Tree) :
    (moveFile source path).run t =
      match moveTarget t path with
      | .error e => (.error e, t)
      | .ok place => (.ok (), t.move source place) := by
  unfold moveFile
  rw [run_bind_state, run_get_state]
  simp only
  cases moveTarget t path <;> rfl

/-- Moving a finished staging file to a path, and taking it away if it cannot be moved, is replacing
the file of the path in the tree without it. -/
theorem moveFile_eq_replaceFile (hplace : place ≠ []) (hfree : t.entry? place = none)
    (path text : String) :
    (∃ e e', (moveFile place path).run (t.put place (.file (.text text))) =
        (.error e, t.put place (.file (.text text))) ∧
      (replaceFile path text).run t = (.error e', t)) ∨
    ∃ t', (moveFile place path).run (t.put place (.file (.text text))) = (.ok (), t') ∧
      (replaceFile path text).run t = (.ok (), t') := by
  rw [run_moveFile, run_replaceFile]
  unfold moveTarget
  rcases target_put_file hplace hfree (.text text) ⟨.invalidArgument, .busy, .notDirectory⟩ path
    with ⟨e, e', hwithout, hwithin⟩ | ⟨q, hwithout, hwithin⟩
  · rw [hwithout, hwithin]
    exact .inl ⟨e', e, rfl, rfl⟩
  · rw [hwithout, hwithin]
    exact .inr ⟨_, rfl, by rw [move_put hplace hfree]⟩

/-- The steps of a save through a staging file, which is taken away if it cannot be moved. -/
theorem run_saveStaged (stage : String → String) (path text : String) (t : Tree) :
    (saveStaged stage path text).run t =
      match (makeDirectories (Path.directory path)).run t with
      | (.error e, t₁) => (.error ⟨Path.directory path, e⟩, t₁)
      | (.ok (), t₁) =>
        match (createFile (stage (Path.directory path))).run t₁ with
        | (.error e, t₂) => (.error ⟨Path.directory path, e⟩, t₂)
        | (.ok source, t₂) =>
          match (moveFile source path).run (t₂.put source (.file (.text text))) with
          | (.error e, t₃) => (.error ⟨path, e⟩, t₃.erase source)
          | (.ok (), t₃) => (.ok (), t₃) := by
  unfold saveStaged
  rw [run_bind_state, run_adapt_state]
  rcases (makeDirectories (Path.directory path)).run t with ⟨e | ⟨⟩, t₁⟩
  · rfl
  simp only [mapError_ok]
  rw [run_bind_state, run_adapt_state]
  rcases (createFile (stage (Path.directory path))).run t₁ with ⟨e | source, t₂⟩
  · rfl
  simp only [mapError_ok]
  rw [run_bind_state, run_modify_state]
  simp only
  rw [run_tryCatch_state, run_adapt_state]
  rcases (moveFile source path).run (t₂.put source (.file (.text text))) with ⟨e | ⟨⟩, t₃⟩ <;> rfl

/-- A staging file that cannot be made is told, and nothing but directories has been made. -/
theorem saveStaged_of_fault {stage : String → String} {path : String} {e : Fault}
    (hmake : (makeDirectories (Path.directory path)).run t = (.ok (), t₁))
    (hcreate : ((createFile (stage (Path.directory path))).run t₁).1 = .error e) (text : String) :
    (saveStaged stage path text).run t = (.error ⟨Path.directory path, e⟩, t₁) := by
  rw [run_saveStaged, hmake]
  simp only
  rw [run_createFile] at hcreate ⊢
  rcases hlocate : t₁.locate (stage (Path.directory path)) with fault | ⟨q, _⟩ | q
  all_goals
    rw [hlocate] at hcreate
    cases hcreate
  · rfl
  · rfl

/-- Once there is a staging file it makes no difference: a save through it succeeds when a save as a
whole does, and leaves the same tree in every case. -/
theorem saveStaged_eq_save {stage : String → String} {path : String}
    (hmake : (makeDirectories (Path.directory path)).run t = (.ok (), t₁))
    (hcreate : ((createFile (stage (Path.directory path))).run t₁).1 = .ok place) (text : String) :
    ((saveStaged stage path text).run t).2 = ((save path text).run t).2 ∧
      (((saveStaged stage path text).run t).1 = .ok () ↔
        ((save path text).run t).1 = .ok ()) := by
  rw [run_saveStaged, run_save, hmake]
  simp only
  rw [run_createFile] at hcreate ⊢
  rcases hlocate : t₁.locate (stage (Path.directory path)) with e | ⟨q, _⟩ | q
  · rw [hlocate] at hcreate
    cases hcreate
  · rw [hlocate] at hcreate
    cases hcreate
  · rcases entry?_of_locate_free hlocate with ⟨hq, hfree⟩
    simp only
    -- the text takes the place of the empty file, in the place that was free before
    rw [put_put]
    rcases moveFile_eq_replaceFile hq hfree path text with
      ⟨e, e', hmove, hreplace⟩ | ⟨t', hmove, hreplace⟩
    · rw [hmove, hreplace]
      simp only
      rw [erase_put hq hfree]
      exact ⟨rfl, by simp [mapError_error]⟩
    · rw [hmove, hreplace]
      exact ⟨rfl, by simp [mapError_ok]⟩

/-- A save through a staging file fails with all files as they were, or it goes as a save as a
whole. -/
theorem saveStaged_fails_or_eq (stage : String → String) (path text : String) (t : Tree) :
    ((∃ e, ((saveStaged stage path text).run t).1 = .error e) ∧
        t.SameFiles ((saveStaged stage path text).run t).2) ∨
      ((saveStaged stage path text).run t).2 = ((save path text).run t).2 ∧
        (((saveStaged stage path text).run t).1 = .ok () ↔
          ((save path text).run t).1 = .ok ()) := by
  have hmade := sameFiles_makeDirectories (Path.directory path) t
  rcases hmake : (makeDirectories (Path.directory path)).run t with ⟨e | ⟨⟩, t₁⟩
  · rw [run_saveStaged, run_save, hmake]
    exact .inr ⟨rfl, Iff.rfl⟩
  · rcases hcreate : ((createFile (stage (Path.directory path))).run t₁).1 with e | place
    · rw [hmake] at hmade
      rw [saveStaged_of_fault hmake hcreate]
      exact .inl ⟨⟨_, rfl⟩, hmade⟩
    · exact .inr (saveStaged_eq_save hmake hcreate text)

/-- A save through a staging file leaves all files as they were, or writes one. -/
theorem savesWhole_saveStaged (stage : String → String) (path : String) :
    SavesWhole (fun text => (saveStaged stage path text).run) path where
  failed {t t' text e} h := by
    change (saveStaged stage path text).run t = (.error e, t') at h
    -- where staging does not fail, all ends as in a save without it
    rcases saveStaged_fails_or_eq stage path text t with ⟨_, hsame⟩ | ⟨htree, hok⟩
    · rw [h] at hsame
      exact hsame
    · rw [h] at htree hok
      rcases hsave : (save path text).run t with ⟨e' | ⟨⟩, t₁⟩
      · rw [hsave] at htree
        have hsame := (savesWhole_save path).failed hsave
        change t' = t₁ at htree
        rw [htree]
        exact hsame
      · rw [hsave] at hok
        cases hok.2 rfl
  saved {t t' text} h := by
    change (saveStaged stage path text).run t = (.ok (), t') at h
    rcases saveStaged_fails_or_eq stage path text t with ⟨⟨e, herror⟩, _⟩ | ⟨htree, hok⟩
    · rw [h] at herror
      cases herror
    · rw [h] at htree hok
      apply (savesWhole_save path).saved
      exact Prod.ext (hok.1 rfl) htree.symm

end Tree

end ToolGate.Files
