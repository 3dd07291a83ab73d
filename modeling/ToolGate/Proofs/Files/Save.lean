import ToolGate.Files.Tree
import ToolGate.Proofs.Fallible
import ToolGate.SortedMap.Lemmas

/-!
# Saving texts in files

Saving makes the directories that are missing and then gives the file its text. A directory that was
made stays, and the file is written where its path leads, so a path at which one text can be saved
takes any text, is read back as the last one, and takes the next one.

* `Tree.step_cases`: where one part of a path leads;
* `Tree.run_makeAlong_again`: directories are made once;
* `Tree.walk_put`: where a file has been put, its path leads;
* `Tree.CanSave`: the paths at which texts can be saved;
* `Tree.save_of_canSave`: saving a text at such a path.
-/

namespace ToolGate.Files.Tree

variable {t t' t₁ : Tree} {place : Place}

/-! ## Entries -/

theorem entry?_put (t : Tree) (hplace : place ≠ []) (e : Entry) (p : Place) :
    entry? (t.put place e) p = if place = p then some e else t.entry? p := by
  cases p with
  | nil => simp [ entry?, hplace]
  | cons name p => exact SortedMap.get?_insert t.entries place (name :: p) e

/-- A tree with the directories of another one and the same current directory. -/
structure Extends (t t' : Tree) : Prop where
  current : t'.current = t.current
  directory : ∀ {p}, t.entry? p = some .directory → t'.entry? p = some .directory

theorem Extends.refl (t : Tree) : t.Extends t := ⟨rfl, id⟩

theorem Extends.trans (h : t.Extends t₁) (h' : t₁.Extends t') : t.Extends t' :=
  ⟨h'.current.trans h.current, fun hp => h'.directory (h.directory hp)⟩

theorem Extends.origin (h : t.Extends t') (path : String) : t'.origin path = t.origin path := by
  unfold Tree.origin
  rw [h.current]

/-- An entry at a place that is no directory takes no directory away. -/
theorem extends_put (hplace : place ≠ []) (h : t.entry? place ≠ some .directory) (e : Entry) :
    t.Extends (t.put place e) := by
  refine ⟨rfl, fun {p} hp => ?_⟩
  rw [entry?_put t hplace, if_neg]
  · exact hp
  · rintro rfl
    exact h hp

/-! ## Walks -/

def spotAt (t : Tree) (place : Place) : Spot :=
  match t.entry? place with
  | some e => .taken place e
  | none => .free place

/-- The place that may be given a file: it is free or has one. -/
def Spot.file? : Spot → Option Place
  | .free place | .taken place (.file _) => some place
  | .taken _ .directory => none

/-- A place is a directory if its entry is one. -/
theorem spotAt_eq_directory {q : Place} (h : t.spotAt place = .taken q .directory) :
    q = place ∧ t.entry? place = some .directory := by
  unfold spotAt at h
  split at h
  · rename_i hentry
    cases h
    exact ⟨rfl, hentry⟩
  · contradiction

/-- A place that may be given a file has no directory. -/
theorem file?_spotAt {q : Place} (h : (t.spotAt place).file? = some q) :
    q = place ∧ t.entry? place ≠ some .directory := by
  unfold spotAt at h
  split at h
  · rename_i e hentry
    cases e with
    | file c =>
      cases h
      simp [hentry]
    | directory => contradiction
  · rename_i hentry
    cases h
    simp [hentry]

theorem spotAt_put (t : Tree) (hplace : place ≠ []) (e : Entry) :
    (t.put place e).spotAt place = .taken place e := by
  unfold spotAt
  rw [entry?_put t hplace, if_pos rfl]

/-- In every tree a part of a path leads nowhere, to a fixed directory, or to a name. -/
theorem step_cases (p : Place) (part : String) :
    (∃ e, ∀ t : Tree, t.step (.taken p .directory) part = .error e) ∨
      (∃ q, ∀ t : Tree, t.step (.taken p .directory) part = .ok (.taken q .directory)) ∨
      ∀ t : Tree, t.step (.taken p .directory) part = .ok (t.spotAt (p ++ [part])) := by
  unfold step spotAt
  by_cases hidle : part = "" ∨ part = "."
  · exact .inr (.inl ⟨p, fun _ => if_pos hidle⟩)
  by_cases hup : part = ".."
  · exact .inr (.inl ⟨p.dropLast, fun _ => (if_neg hidle).trans (if_pos hup)⟩)
  by_cases hlong : maxNameSize < part.utf8ByteSize
  · exact .inl ⟨.nameTooLong, fun _ =>
      (if_neg hidle).trans ((if_neg hup).trans (if_pos hlong))⟩
  · refine .inr (.inr fun t => ?_)
    simp only [if_neg hidle, if_neg hup, if_neg hlong]
    cases t.entry? (p ++ [part]) <;> rfl

/-- A step to a directory is the same where the directories are kept. -/
theorem Extends.step (h : t.Extends t') {p q : Place} {part : String}
    (hstep : t.step (.taken p .directory) part = .ok (.taken q .directory)) :
    t'.step (.taken p .directory) part = .ok (.taken q .directory) := by
  rcases step_cases p part with ⟨e, hall⟩ | ⟨r, hall⟩ | hall
  · rw [hall] at hstep
    contradiction
  · rw [hall] at hstep ⊢
    exact hstep
  · rw [hall] at hstep ⊢
    rcases spotAt_eq_directory (Except.ok.inj hstep) with ⟨rfl, hentry⟩
    unfold spotAt
    rw [h.directory hentry]

/-- A step to a place for a file comes to that place in every tree. -/
theorem step_of_file? {p : Place} {part : String} {s : Spot}
    (hstep : t.step (.taken p .directory) part = .ok s) (hs : s.file? = some place) :
    place ≠ [] ∧ t.entry? place ≠ some .directory ∧
      ∀ t : Tree, t.step (.taken p .directory) part = .ok (t.spotAt place) := by
  rcases step_cases p part with ⟨e, hall⟩ | ⟨q, hall⟩ | hall
  · rw [hall] at hstep
    contradiction
  · rw [hall] at hstep
    cases hstep
    contradiction
  · rw [hall] at hstep
    cases hstep
    rcases file?_spotAt hs with ⟨rfl, hentry⟩
    exact ⟨by simp, hentry, hall⟩

theorem walk_cons (t : Tree) (s : Spot) (part : String) (parts : List String) :
    t.walk s (part :: parts) = (t.step s part).bind fun s => t.walk s parts := rfl

/-- A walk goes on from a directory only. -/
theorem walk_of_file? {s s' : Spot} (hs : s.file? = some place) {parts : List String}
    (hwalk : t.walk s parts = .ok s') : parts = [] ∧ s' = s := by
  cases parts with
  | nil =>
    cases hwalk
    exact ⟨rfl, rfl⟩
  | cons part parts => rcases s with ⟨q, _ | _⟩ | q <;> contradiction

/-- A walk that ends at a place for a file ends there in every tree that has the same directories
and an entry in that place. -/
theorem walk_put {parts : List String} {p : Place} {s : Spot}
    (hwalk : t.walk (.taken p .directory) parts = .ok s) (hs : s.file? = some place) (e : Entry) :
    place ≠ [] ∧ t.entry? place ≠ some .directory ∧
      (t.put place e).walk (.taken p .directory) parts = .ok (.taken place e) := by
  induction parts generalizing p with
  | nil =>
    cases hwalk
    contradiction
  | cons part parts ih =>
    rw [walk_cons] at hwalk
    cases hstep : t.step (.taken p .directory) part with
    | error fault =>
      rw [hstep] at hwalk
      contradiction
    | ok s₁ =>
      rw [hstep] at hwalk
      change t.walk s₁ parts = .ok s at hwalk
      cases hfile : s₁.file? with
      | some q =>
        -- the walk is over
        rcases walk_of_file? hfile hwalk with ⟨rfl, rfl⟩
        cases hs.symm.trans hfile
        rcases step_of_file? hstep hs with ⟨hplace, hentry, hall⟩
        refine ⟨hplace, hentry, ?_⟩
        rw [walk_cons, hall, spotAt_put t hplace]
        rfl
      | none =>
        rcases s₁ with ⟨q, _ | _⟩ | q
        · contradiction
        · rcases ih hwalk with ⟨hplace, hentry, hrest⟩
          refine ⟨hplace, hentry, ?_⟩
          rw [walk_cons, (extends_put hplace hentry e).step hstep]
          exact hrest
        · contradiction

/-! ## Making directories -/

theorem run_makeAlong_cons (t : Tree) (place : Place) (name : String) (way : List String) :
    (makeAlong place (name :: way)).run t =
      match t.step (.taken place .directory) name with
      | .error e => (.error e, t)
      | .ok (.taken next .directory) => (makeAlong next way).run t
      | .ok (.taken _ (.file _)) => (.error (if way = [] then .exists_ else .notDirectory), t)
      | .ok (.free next) => (makeAlong next way).run (t.put next .directory) := by
  rw [makeAlong, run_bind_state, run_get_state]
  simp only
  rcases t.step (.taken place .directory) name with e | ⟨next, _ | _⟩ | next <;> rfl

/-- Directories that have been made stay, and making them again changes nothing, whatever else has
been made or written meanwhile. -/
theorem run_makeAlong_again {way : List String}
    (h : (makeAlong place way).run t = (.ok (), t₁)) :
    t.Extends t₁ ∧ ∀ t', t₁.Extends t' → (makeAlong place way).run t' = (.ok (), t') := by
  induction way generalizing place t with
  | nil =>
    cases h
    exact ⟨.refl _, fun _ _ => rfl⟩
  | cons name way ih =>
    rw [run_makeAlong_cons] at h
    cases hstep : t.step (.taken place .directory) name with
    | error e =>
      rw [hstep] at h
      cases h
    | ok s =>
      rw [hstep] at h
      rcases s with ⟨next, _ | _⟩ | next
      · cases h
      · rcases ih h with ⟨hext, hagain⟩
        refine ⟨hext, fun t' ht' => ?_⟩
        rw [run_makeAlong_cons, (hext.trans ht').step hstep]
        exact hagain t' ht'
      · -- the directory is made, so that the same step leads to it from now on
        rcases ih h with ⟨hext, hagain⟩
        rcases step_of_file? hstep rfl with ⟨hplace, hentry, hall⟩
        have hmade : (t.put next .directory).step (.taken place .directory) name =
            .ok (.taken next .directory) := by
          rw [hall, spotAt_put t hplace]
        refine ⟨(extends_put hplace hentry .directory).trans hext, fun t' ht' => ?_⟩
        rw [run_makeAlong_cons, (hext.trans ht').step hmade]
        exact hagain t' ht'

/-! ## Saving -/

/-- Directories are made along a path that is neither empty nor refused. -/
theorem run_makeDirectories (t : Tree) (path : String) :
    (makeDirectories path).run t =
      if path = "" then (.ok (), t)
      else
        match refusal? path with
        | some e => (.error e, t)
        | none => (makeAlong (t.origin path) (Path.steps path)).run t := by
  unfold makeDirectories
  by_cases hempty : path = ""
  · rw [if_pos hempty, if_pos hempty]
    rfl
  · rw [if_neg hempty, if_neg hempty]
    cases refusal? path <;> rfl

/-- The directories of a path are made once. -/
theorem run_makeDirectories_again {path : String}
    (h : (makeDirectories path).run t = (.ok (), t₁)) :
    t.Extends t₁ ∧ ∀ t', t₁.Extends t' → (makeDirectories path).run t' = (.ok (), t') := by
  rw [run_makeDirectories] at h
  split at h
  · rename_i hempty
    cases h
    refine ⟨.refl t, fun t' _ => ?_⟩
    rw [run_makeDirectories, if_pos hempty]
  · rename_i hne
    split at h
    · cases h
    · rename_i hrefusal
      rcases run_makeAlong_again h with ⟨hext, hagain⟩
      refine ⟨hext, fun t' ht' => ?_⟩
      rw [run_makeDirectories, if_neg hne, hrefusal, (hext.trans ht').origin]
      exact hagain t' ht'

/-- The paths that are not refused before the walk. -/
theorem refusal?_eq_none_iff {path : String} :
    refusal? path = none ↔
      '\x00' ∉ path.toList ∧ path ≠ "" ∧ isTooLong path = false := by
  unfold refusal?
  by_cases hnull : '\x00' ∈ path.toList
  · simp [hnull]
  by_cases hempty : path = ""
  · simp [hempty]
  cases isTooLong path <;> simp [hnull, hempty]

/-- A path that is refused is refused with whatever comes behind it. -/
theorem refusal?_of_append {path rest : String} (hne : path ≠ "")
    (h : refusal? (path ++ rest) = none) : refusal? path = none := by
  rw [refusal?_eq_none_iff, String.toList_append, List.mem_append, not_or] at h
  rcases h with ⟨⟨hnull, -⟩, -, hshort⟩
  refine refusal?_eq_none_iff.2 ⟨hnull, hne, ?_⟩
  simp only [isTooLong, decide_eq_false_iff_not, String.utf8ByteSize_append] at hshort ⊢
  omega

/-- A path leads somewhere by a walk along its parts, unless it is refused before. -/
theorem locate_eq_ok_iff {path : String} {s : Spot} :
    t.locate path = .ok s ↔ refusal? path = none ∧
      t.walk (.taken (t.origin path) .directory) (Path.segments path) = .ok s := by
  unfold locate
  cases refusal? path <;> simp

/-- A path that leads to a place for a file leads to the file once there is one. -/
theorem locate_put {path : String} {s : Spot} (h : t.locate path = .ok s)
    (hs : s.file? = some place) (e : Entry) :
    t.Extends (t.put place e) ∧ (t.put place e).locate path = .ok (.taken place e) := by
  rcases locate_eq_ok_iff.1 h with ⟨hrefusal, hwalk⟩
  rcases walk_put hwalk hs e with ⟨hplace, hentry, hput⟩
  have hext := extends_put hplace hentry e
  refine ⟨hext, locate_eq_ok_iff.2 ⟨hrefusal, ?_⟩⟩
  rw [hext.origin]
  exact hput

/-- A path that does not end in a slash is left as it is. -/
theorem withoutSlashes_of_not_asksDirectory {path : String}
    (h : Path.asksDirectory path = false) : Path.withoutSlashes path = path := by
  unfold Path.asksDirectory at h
  unfold Path.withoutSlashes
  rw [List.getLast?_eq_head?_reverse] at h
  cases hrev : path.toList.reverse with
  | nil =>
    have hempty : path = "" := by simpa using hrev
    rw [hempty]
    rfl
  | cons c cs =>
    rw [hrev] at h
    have hc : c ≠ '/' := by simpa using h
    have hchars : (c :: cs).reverse = path.toList := by rw [← hrev, List.reverse_reverse]
    have hlast : (c :: cs).dropWhile (· == '/') = c :: cs := by simp [hc]
    rw [hlast]
    simp only [hchars, String.ofList_toList]

/-- A path can be given a file if it leads to a place for one and does not ask for a directory. -/
theorem target_eq_ok_iff {r : Refusals} {path : String} :
    target r t path = .ok place ↔
      Path.asksDirectory path = false ∧ ∃ s, t.locate path = .ok s ∧ s.file? = some place := by
  have hbare : Path.asksDirectory path = false →
      t.locate (Path.withoutSlashes path) = t.locate path := by
    intro hslash
    rw [withoutSlashes_of_not_asksDirectory hslash]
  unfold target
  cases hrefusal : refusal? path with
  | some e =>
    -- what is refused before the walk leads nowhere
    have hnowhere : t.locate path = .error e := by
      unfold locate
      rw [hrefusal]
    cases e <;> simp [hnowhere]
  | none =>
    cases hslash : Path.asksDirectory path with
    | true =>
      rcases t.locate (Path.withoutSlashes path) with e | ⟨q, _ | _⟩ | q <;> simp
      split <;> simp
    | false =>
      rw [hbare hslash]
      rcases t.locate path with e | ⟨q, _ | _⟩ | q <;> simp [Spot.file?]
      split <;> simp

/-- A file is replaced at the target of its path. -/
theorem run_replaceFile (t : Tree) (path text : String) :
    (replaceFile path text).run t =
      match moveTarget t path with
      | .error e => (.error e, t)
      | .ok place => (.ok (), t.put place (.file (.text text))) := by
  unfold replaceFile
  rw [run_bind_state, run_get_state]
  simp only
  cases moveTarget t path <;> rfl

/-- When a file is replaced, and what the tree is then. -/
theorem run_replaceFile_eq_ok_iff {path text : String} :
    (replaceFile path text).run t = (.ok (), t') ↔
      Path.asksDirectory path = false ∧ ∃ s place, t.locate path = .ok s ∧ s.file? = some place ∧
        t' = t.put place (.file (.text text)) := by
  rw [run_replaceFile]
  constructor
  · intro h
    cases htarget : moveTarget t path with
    | error e =>
      rw [htarget] at h
      cases h
    | ok place =>
      rw [htarget] at h
      cases h
      rcases target_eq_ok_iff.1 htarget with ⟨hslash, s, hlocate, hfile⟩
      exact ⟨hslash, s, place, hlocate, hfile, rfl⟩
  · rintro ⟨hslash, s, place, hlocate, hfile, rfl⟩
    have htarget : moveTarget t path = .ok place :=
      target_eq_ok_iff.2 ⟨hslash, s, hlocate, hfile⟩
    rw [htarget]

/-- A save makes the directory of the file, and then the file is replaced. -/
theorem run_save_eq_ok_iff {path text : String} :
    (save path text).run t = (.ok (), t') ↔
      ∃ t₁, (makeDirectories (Path.directory path)).run t = (.ok (), t₁) ∧
        (replaceFile path text).run t₁ = (.ok (), t') := by
  unfold save
  rw [run_bind_eq_ok_iff]
  simp only [run_adapt_eq_ok_iff]
  exact ⟨fun ⟨_, t₁, h⟩ => ⟨t₁, h⟩, fun ⟨t₁, h⟩ => ⟨(), t₁, h⟩⟩

/-- The paths at which a text can be saved. -/
def CanSave (t : Tree) (path : String) : Prop :=
  ∃ text, ((save path text).run t).1 = .ok ()

/-- Where one text can be saved, every text can be saved. The file then has the text, and further
texts can be saved. -/
theorem save_of_canSave {path : String} (h : t.CanSave path) (text : String) :
    ∃ t', (save path text).run t = (.ok (), t') ∧ t'.read path = .ok text ∧ t'.CanSave path := by
  rcases h with ⟨former, h⟩
  rcases run_save_eq_ok_iff.1 (Prod.ext h rfl) with ⟨t₁, hmake, hreplace⟩
  rcases run_replaceFile_eq_ok_iff.1 hreplace with ⟨hslash, s, place, hlocate, hfile, -⟩
  -- the second save meets the directories that the first one has made
  rcases run_makeDirectories_again hmake with ⟨-, hagain⟩
  rcases locate_put hlocate hfile (.file (.text text)) with ⟨hext, hput⟩
  have hsave : (save path text).run t = (.ok (), t₁.put place (.file (.text text))) :=
    run_save_eq_ok_iff.2 ⟨t₁, hmake,
      run_replaceFile_eq_ok_iff.2 ⟨hslash, s, place, hlocate, hfile, rfl⟩⟩
  -- the directories are there, and the path leads to the file
  have hnext : (replaceFile path text).run (t₁.put place (.file (.text text))) = (.ok (), _) :=
    run_replaceFile_eq_ok_iff.2 ⟨hslash, _, place, hput, rfl, rfl⟩
  have hsaveAgain := run_save_eq_ok_iff.2 ⟨_, hagain _ hext, hnext⟩
  refine ⟨_, hsave, ?_, text, congrArg Prod.fst hsaveAgain⟩
  unfold read
  rw [hput]

theorem holds_of_read {path text : String} (h : t.read path = .ok text) : t.holds path = true := by
  unfold read at h
  unfold holds
  split at h <;> first | contradiction | simp [*]

end ToolGate.Files.Tree
