import ToolGate.Proofs.Files.Staging

/-!
# Sound trees

In a sound tree everything that has a place is in a directory, and so is whoever looks at it. The
tree with nothing in it is sound, and saving texts leaves a sound tree behind, as does failing to.

* `Tree.Sound`, `Tree.sound_empty`, `Tree.sound_save`: sound trees and where they come from;
* `Tree.Sound.step`, `Tree.Sound.walk`: walks in a sound tree end at what is there.
-/

namespace ToolGate.Files.Tree

variable {t : Tree} {place : Place}

/-- A tree in which only directories have something in them, under names that are not too long. -/
structure Sound (t : Tree) : Prop where
  current : t.entry? t.current = some .directory
  above : ∀ place, (t.entry? place).isSome → t.entry? place.dropLast = some .directory
  nameSize : ∀ place name, (t.entry? (place ++ [name])).isSome → name.utf8ByteSize ≤ maxNameSize

/-- In the empty tree only the top has a place. -/
theorem sound_empty : empty.Sound := by
  have hentry : ∀ place, (empty.entry? place).isSome → place = [] := by
    intro place h
    cases place with
    | nil => rfl
    | cons name place => cases h
  refine ⟨rfl, fun place h => ?_, fun place name h => ?_⟩
  · rw [hentry place h]
    rfl
  · have := hentry _ h
    simp at this

/-- A directory may be given a new name, and an old one that is no directory may be given another
entry. -/
theorem Sound.put (h : t.Sound) {name : String} (hplace : t.entry? place = some .directory)
    (hname : name.utf8ByteSize ≤ maxNameSize)
    (hentry : t.entry? (place ++ [name]) ≠ some .directory) (e : Entry) :
    (t.put (place ++ [name]) e).Sound := by
  have hne : place ++ [name] ≠ [] := by simp
  have hext := extends_put hne hentry e
  refine ⟨hext.directory h.current, fun p hp => ?_, fun p part hp => ?_⟩
  · rw [entry?_put t hne] at hp
    split at hp
    · rename_i heq
      rw [← heq, List.dropLast_concat]
      exact hext.directory hplace
    · exact hext.directory (h.above p hp)
  · rw [entry?_put t hne] at hp
    split at hp
    · rename_i heq
      rcases List.append_inj' heq rfl with ⟨_, hpart⟩
      cases hpart
      exact hname
    · exact h.nameSize p part hp

/-! ## Walks -/

/-- The end of a walk as it is in the tree: the entry of a place, or a place in a directory that may
be given one. -/
inductive Spot.In (t : Tree) : Spot → Prop where
  | taken {place : Place} {e : Entry} (entry : t.entry? place = some e) : In t (.taken place e)
  | free {place : Place} {name : String} (directory : t.entry? place = some .directory)
    (size : name.utf8ByteSize ≤ maxNameSize) (none : t.entry? (place ++ [name]) = none) :
    In t (.free (place ++ [name]))

/-- One part of a path leads to what is in the tree. -/
theorem Sound.step (h : t.Sound) {s s' : Spot} (hs : s.In t) {part : String}
    (hstep : t.step s part = .ok s') : s'.In t := by
  cases hs with
  | free directory size none => contradiction
  | @taken p e entry =>
    cases e with
    | file c => contradiction
    | directory =>
      unfold Tree.step at hstep
      simp only at hstep
      split at hstep
      · cases hstep
        exact .taken entry
      split at hstep
      · cases hstep
        -- two dots: what is above an entry of a sound tree is a directory
        exact .taken (h.above p (by rw [entry]; rfl))
      split at hstep
      · contradiction
      rename_i hshort
      split at hstep
      · rename_i hentry
        cases hstep
        exact .taken hentry
      · rename_i hentry
        cases hstep
        exact .free entry (Nat.not_lt.1 hshort) hentry

/-- So does any number of them. -/
theorem Sound.walk (h : t.Sound) {s s' : Spot} (hs : s.In t) {parts : List String}
    (hwalk : t.walk s parts = .ok s') : s'.In t := by
  induction parts generalizing s with
  | nil =>
    cases hwalk
    exact hs
  | cons part parts ih =>
    rw [walk_cons] at hwalk
    cases hstep : t.step s part with
    | error e =>
      rw [hstep] at hwalk
      contradiction
    | ok s₁ =>
      rw [hstep] at hwalk
      exact ih (h.step hs hstep) hwalk

/-- A walk begins at a directory. -/
theorem Sound.origin (h : t.Sound) (path : String) :
    (Spot.taken (t.origin path) .directory).In t := by
  unfold Tree.origin
  split
  · exact .taken rfl
  · exact .taken h.current

theorem Sound.locate (h : t.Sound) {path : String} {s : Spot} (hlocate : t.locate path = .ok s) :
    s.In t :=
  h.walk (h.origin path) (locate_eq_ok_iff.1 hlocate).2

/-! ## Saving -/

/-- A place for a file at the end of a walk may be given any entry. -/
theorem Sound.put_of_file? (h : t.Sound) {s : Spot} (hs : s.In t) (hfile : s.file? = some place)
    (e : Entry) : (t.put place e).Sound := by
  cases hs with
  | free directory size none =>
    cases hfile
    refine h.put directory size ?_ e
    rw [none]
    simp
  | @taken p e' entry =>
    cases e' with
    | directory => contradiction
    | file c =>
      obtain rfl : p = place := Option.some.inj hfile
      have hne : p ≠ [] := by
        rintro rfl
        cases entry
      have hsome : (t.entry? p).isSome := by
        rw [entry]
        rfl
      have hdirectory := h.above p hsome
      -- the place is that of a name in a directory
      have hsplit : p.dropLast ++ [p.getLast hne] = p := List.dropLast_concat_getLast hne
      rw [← hsplit] at hsome entry ⊢
      refine h.put hdirectory (h.nameSize _ _ hsome) ?_ e
      rw [entry]
      simp

/-- Directories are made in directories, before a failure as well. -/
theorem sound_makeAlong (h : t.Sound) (hplace : t.entry? place = some .directory)
    (way : List String) : ((makeAlong place way).run t).2.Sound := by
  induction way generalizing place t with
  | nil => exact h
  | cons name way ih =>
    rw [run_makeAlong_cons]
    rcases hstep : t.step (.taken place .directory) name with e | s
    · exact h
    · have hs := h.step (.taken hplace) hstep
      rcases s with ⟨next, _ | _⟩ | next
      · exact h
      · cases hs with
        | taken hnext => exact ih h hnext
      · have hnext := (entry?_of_step_free hstep).1
        refine ih (h.put_of_file? hs rfl .directory) ?_
        rw [entry?_put t hnext, if_pos rfl]

/-- Making the directories of a path keeps a tree sound. -/
theorem sound_makeDirectories (h : t.Sound) (path : String) :
    ((makeDirectories path).run t).2.Sound := by
  rw [run_makeDirectories]
  split
  · exact h
  · split
    · exact h
    · rcases h.origin path with ⟨horigin⟩
      exact sound_makeAlong h horigin _

/-- So does replacing a file. -/
theorem sound_replaceFile (h : t.Sound) (path text : String) :
    ((replaceFile path text).run t).2.Sound := by
  rcases hrun : (replaceFile path text).run t with ⟨e | ⟨⟩, t'⟩
  · rw [run_replaceFile_of_error hrun]
    exact h
  · rcases run_replaceFile_eq_ok_iff.1 hrun with ⟨_, s, place, hlocate, hfile, rfl⟩
    exact h.put_of_file? (h.locate hlocate) hfile _

/-- Saving a text keeps a tree sound, and so does failing to save one. -/
theorem sound_save (h : t.Sound) (path text : String) : ((save path text).run t).2.Sound := by
  -- after the first step the tree is sound, whether it has failed or not
  have hmade := sound_makeDirectories h (Path.directory path)
  rw [run_save]
  rcases hmake : (makeDirectories (Path.directory path)).run t with ⟨e | ⟨⟩, t₁⟩
  · rw [hmake] at hmade
    exact hmade
  · rw [hmake] at hmade
    exact sound_replaceFile hmade path text

end ToolGate.Files.Tree
