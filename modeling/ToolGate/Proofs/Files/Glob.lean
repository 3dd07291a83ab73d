import ToolGate.Files.Glob
import ToolGate.Proofs.Files.Path
import ToolGate.Proofs.Files.Sound

/-!
# Names with an ending inside a directory

The pattern of a star and an ending, below the path of a directory, is read as a whole, the path
included. If the path has no character that means something in a pattern, it leads where the path
leads, and the pattern is matched by the names in that directory that have the ending.

* `Glob.IsPlain`: characters that stand for themselves in a pattern;
* `Glob.fits_star_iff`: the names that a star and an ending match;
* `Glob.places_join`: where a star and an ending lead to below a directory;
* `Tree.mem_children_iff`, `Tree.nodup_children`: what a directory holds.
-/

namespace ToolGate.Files

namespace Glob

/-! ## Patterns without wildcards -/

/-- Whether a character stands for itself in a pattern. -/
def IsPlain (c : Char) : Prop := c ≠ '*' ∧ c ≠ '?' ∧ c ≠ '['

instance : DecidablePred IsPlain := fun _ => inferInstanceAs (Decidable (_ ∧ _ ∧ _))

/-- The name of a pattern that is a text without wildcards. -/
def Name.plain (cs : List Char) : Name := .items (cs.map .literal)

/-- A star and an ending. -/
def ending (cs : List Char) : List Item := .anyChars :: cs.map .literal

variable {cs : List Char}

theorem isPlain_of_all (h : cs.all (fun c => decide (IsPlain c)) = true) : ∀ c ∈ cs, IsPlain c := by
  intro c hc
  exact of_decide_eq_true (List.all_eq_true.1 h c hc)

/-- Plain characters are read one by one. -/
theorem check_append (hcs : ∀ c ∈ cs, IsPlain c) (position : Nat) (fresh : Bool)
    (ds : List Char) :
    ∃ position' fresh', check position fresh (cs ++ ds) = check position' fresh' ds := by
  induction cs generalizing position fresh with
  | nil => exact ⟨position, fresh, rfl⟩
  | cons c cs ih =>
    rcases hcs c List.mem_cons_self with ⟨hstar, _, hbracket⟩
    have hread : check position fresh (c :: (cs ++ ds)) =
        check (position + 1) (c == '/') (cs ++ ds) := by
      rw [check] <;> simp [hstar, hbracket]
    rcases ih (fun d hd => hcs d (List.mem_cons_of_mem c hd)) (position + 1) (c == '/') with
      ⟨position', fresh', hrest⟩
    exact ⟨position', fresh', hread.trans hrest⟩

theorem check_plain (hcs : ∀ c ∈ cs, IsPlain c) (position : Nat) (fresh : Bool) :
    check position fresh cs = .ok () := by
  rcases check_append hcs position fresh [] with ⟨position', fresh', hread⟩
  rw [List.append_nil] at hread
  rw [hread, check]

/-- A pattern of a star and plain characters is not refused. -/
theorem check_star (hcs : ∀ c ∈ cs, IsPlain c) (position : Nat) (fresh : Bool) :
    check position fresh ('*' :: cs) = .ok () := by
  cases cs with
  | nil => rw [check, check] <;> simp
  | cons c cs =>
    -- no second star follows
    have hstar := (hcs c List.mem_cons_self).1
    rw [check, check_plain hcs] <;> simp [hstar]

/-- Plain characters are read as themselves. -/
theorem items_plain (hcs : ∀ c ∈ cs, IsPlain c) (position : Nat) :
    items position cs = .ok (cs.map .literal) := by
  induction cs generalizing position with
  | nil => rw [items]; rfl
  | cons c cs ih =>
    rcases hcs c List.mem_cons_self with ⟨hstar, hmark, hbracket⟩
    have hrest := ih (fun d hd => hcs d (List.mem_cons_of_mem c hd)) (position + 1)
    have hread : items position (c :: cs) = (items (position + 1) cs).map (.literal c :: ·) := by
      rw [items] <;> simp [hstar, hmark, hbracket]
    rw [hread, hrest]
    rfl

/-- A name of plain characters is one text. -/
theorem name_plain (hcs : ∀ c ∈ cs, IsPlain c) : name cs = .ok (.plain cs) := by
  unfold name
  rw [if_neg, items_plain hcs]
  · rfl
  · rintro rfl
    exact (hcs '*' List.mem_cons_self).1 rfl

/-- A name of a star and an ending. -/
theorem name_star (hcs : ∀ c ∈ cs, IsPlain c) : name ('*' :: cs) = .ok (.items (ending cs)) := by
  unfold name
  rw [if_neg, items, items_plain hcs]
  · rfl
  · intro heq
    cases heq
    exact (hcs '*' List.mem_cons_self).1 rfl

/-- Names of plain characters, one after another. -/
theorem mapM_name_plain {parts : List (List Char)} (h : ∀ part ∈ parts, ∀ c ∈ part, IsPlain c) :
    parts.mapM name = .ok (parts.map .plain) := by
  induction parts with
  | nil => rfl
  | cons part parts ih =>
    have hpart := name_plain (h part List.mem_cons_self)
    have hrest := ih fun part' hpart' => h part' (List.mem_cons_of_mem part hpart')
    exact mapM_cons_eq_ok_iff.2 ⟨_, _, hpart, hrest, rfl⟩

/-- Below a plain path a star and an ending are read as such. -/
theorem parse_join {path suffix : String} (hpath : ∀ c ∈ path.toList, IsPlain c)
    (hsuffix : ∀ c ∈ suffix.toList, IsPlain c) (hslash : '/' ∉ suffix.toList) :
    parse (Path.join path ("*" ++ suffix)) =
      .ok ((Path.above path).map .plain ++ [.items (ending suffix.toList)]) := by
  have hname : ("*" ++ suffix).toList = '*' :: suffix.toList := by
    rw [String.toList_append]
    rfl
  have hnoslash : '/' ∉ ("*" ++ suffix).toList := by
    rw [hname, List.mem_cons, not_or]
    exact ⟨by decide, hslash⟩
  have hcheck : check 0 true (Path.join path ("*" ++ suffix)).toList = .ok () := by
    have hfront : ∀ c ∈ (Path.front path).toList, IsPlain c := by
      intro c hc
      rcases Path.mem_front hc with hc | rfl
      · exact hpath c hc
      · exact ⟨by decide, by decide, by decide⟩
    rw [Path.join_eq path hnoslash, String.toList_append, hname]
    rcases check_append hfront 0 true ('*' :: suffix.toList) with ⟨position, fresh, hread⟩
    rw [hread, check_star hsuffix]
  have habove : (Path.above path).mapM name = .ok ((Path.above path).map .plain) :=
    mapM_name_plain fun part hpart c hc => hpath c (Path.subset_of_mem_above hpart hc)
  unfold parse
  rw [hcheck, Path.split_join path hnoslash, List.mapM_append, habove, hname, List.mapM_cons,
    name_star hsuffix]
  rfl

/-! ## What a star and an ending match -/

/-- A star takes any number of characters, and leaves an end of the name. -/
theorem anyRest_iff {p : List Char → Bool} :
    anyRest p cs = true ↔ ∃ ds, ds <:+ cs ∧ p ds = true := by
  induction cs with
  | nil =>
    unfold anyRest
    simp
  | cons c cs ih =>
    unfold anyRest
    rw [Bool.or_eq_true, ih]
    constructor
    · rintro (hall | ⟨ds, hds, hrest⟩)
      · exact ⟨c :: cs, List.suffix_refl _, hall⟩
      · exact ⟨ds, hds.trans (List.suffix_cons c cs), hrest⟩
    · rintro ⟨ds, hds, hp⟩
      rcases List.suffix_cons_iff.1 hds with rfl | hds
      · exact .inl hp
      · exact .inr ⟨ds, hds, hp⟩

/-- A star and an ending match the names that end so. -/
theorem fits_star_iff {ds : List Char} : fits (ending cs) ds = true ↔ cs <:+ ds := by
  unfold ending fits
  rw [anyRest_iff]
  simp only [fits_literals, beq_iff_eq]
  constructor
  · rintro ⟨_, hsuffix, rfl⟩
    exact hsuffix
  · intro hsuffix
    exact ⟨cs, hsuffix, rfl⟩

end Glob

/-! ## What a directory holds -/

namespace Tree

variable {t : Tree} {place : Place} {name : String}

/-- The directory that the names below a path are in. -/
def inner? (t : Tree) (path : String) : Option Place :=
  match t.walk (.taken (t.origin path) .directory) ((Path.above path).map String.ofList) with
  | .ok (.taken place .directory) => some place
  | _ => none

/-- The walk along the parts before the names. -/
theorem inner?_eq_some_iff {path : String} :
    t.inner? path = some place ↔
      t.walk (.taken (t.origin path) .directory) ((Path.above path).map String.ofList) =
        .ok (.taken place .directory) := by
  unfold inner?
  constructor
  · intro hinner
    split at hinner
    · rename_i hwalk
      cases hinner
      exact hwalk
    · cases hinner
  · intro hwalk
    rw [hwalk]

theorem entry?_of_inner? (h : t.Sound) {path : String} (hinner : t.inner? path = some place) :
    t.entry? place = some .directory := by
  rcases h.walk (h.origin path) (inner?_eq_some_iff.1 hinner) with ⟨hentry⟩
  exact hentry

theorem entry?_append (t : Tree) (place : Place) (name : String) :
    t.entry? (place ++ [name]) = t.entries.get? (place ++ [name]) := by
  cases place <;> rfl

/-- The names of a directory are the last ones of the places right below it. -/
theorem append_of_mem_children {p : Place} {e e' : Entry}
    (h : (match p.getLast? with
      | some name => if p.dropLast = place then some (name, e) else none
      | none => none) = some (name, e')) : p = place ++ [name] ∧ e = e' := by
  split at h
  · rename_i last hlast
    split at h
    · rename_i hplace
      cases h
      rcases List.getLast?_eq_some_iff.1 hlast with ⟨q, rfl⟩
      rw [List.dropLast_concat] at hplace
      exact ⟨by rw [hplace], rfl⟩
    · contradiction
  · contradiction

/-- A directory holds the names that it leads to. -/
theorem mem_children_iff {e : Entry} :
    (name, e) ∈ t.children place ↔ t.entry? (place ++ [name]) = some e := by
  rw [entry?_append, ← SortedMap.mem_entries]
  unfold children
  rw [List.mem_filterMap]
  constructor
  · rintro ⟨⟨p, e'⟩, hmem, hname⟩
    rcases append_of_mem_children hname with ⟨rfl, rfl⟩
    exact hmem
  · intro hmem
    exact ⟨_, hmem, by simp⟩

/-- A directory holds every name once. -/
theorem nodup_children (t : Tree) (place : Place) : ((t.children place).map Prod.fst).Nodup := by
  unfold children
  rw [List.Nodup, List.pairwise_map, List.pairwise_filterMap]
  refine t.entries.increasing.imp ?_
  rintro ⟨p, e⟩ ⟨p', e'⟩ hlt ⟨name, _⟩ hname ⟨name', _⟩ hname' rfl
  -- one name makes one place, and the places are different
  rcases append_of_mem_children hname with ⟨rfl, _⟩
  rcases append_of_mem_children hname' with ⟨rfl, _⟩
  rw [Std.compare_self] at hlt
  contradiction

end Tree

/-! ## Where a pattern leads -/

namespace Glob

open ToolGate.Files.Tree (Spot)

variable {t : Tree} {place : Place}

/-- A name of plain characters is followed as a text. -/
theorem literal?_plain (cs : List Char) : literal? (cs.map .literal) = some cs := by
  induction cs with
  | nil => rfl
  | cons c cs ih =>
    unfold literal? at ih ⊢
    rw [List.map_cons, List.mapM_cons, ih]
    rfl

/-- Nothing is matched inside what is no directory. -/
theorem expand_of_ne_directory {r : Reach} (h : t.entry? r.place ≠ some .directory)
    (is : List Item) (names : List Name) : expand t r (.items is :: names) = [] := by
  unfold expand follow
  split
  · contradiction
  · rfl

/-- From a directory a name of plain characters leads to one path. -/
theorem follow_plain {r : Reach} (hplace : t.entry? r.place = some .directory)
    (part : List Char) : follow t r (part.map .literal) = literal t r (String.ofList part) := by
  unfold follow
  simp only [hplace, literal?_plain]

/-! ### Paths that are listed -/

/-- A directory is listed unless its path is refused. -/
theorem canList_iff {path : String} :
    canList path = true ↔ '\x00' ∉ path.toList ∧ Tree.isTooLong path = false := by
  unfold canList
  rw [Option.isNone_iff_eq_none, Tree.refusal?_eq_none_iff]
  unfold Path.orCurrent
  split
  · rename_i hempty
    rw [hempty]
    decide
  · rename_i hne
    simp [hne]

/-- Below a path that is refused no directory can be listed. -/
theorem canList_foldl_of_refusal {path : String} (hne : path ≠ "")
    (hrefused : (Tree.refusal? path).isSome = true) {names : List String}
    (hnames : ∀ name ∈ names, '/' ∉ name.toList) :
    canList (names.foldl Path.join path) = false := by
  rcases Path.foldl_join_eq_append hnames path with ⟨rest, hjoined⟩
  rw [hjoined, ← Bool.not_eq_true]
  intro hlist
  have hnot : path ++ rest ≠ "" := fun hempty => hne (String.append_eq_empty_iff.1 hempty).1
  unfold canList Path.orCurrent at hlist
  rw [if_neg hnot, Option.isNone_iff_eq_none] at hlist
  rw [Tree.refusal?_of_append hne hlist] at hrefused
  contradiction

/-- Inside a directory a star and an ending lead to the names with that ending. -/
theorem follow_star {r : Reach} (hplace : t.entry? r.place = some .directory) (cs : List Char) :
    follow t r (ending cs) =
      if canList r.path then
        (((t.children r.place).map Prod.fst).filter fun name => cs.isSuffixOf name.toList).map
          fun name => r.below [name]
      else [] := by
  have hfits : ∀ name : String, fits (ending cs) name.toList = cs.isSuffixOf name.toList := by
    intro name
    rw [Bool.eq_iff_iff, fits_star_iff, List.isSuffixOf_iff_suffix]
  have hinside : follow t r (ending cs) = if canList r.path then inside t (ending cs) r else [] := by
    unfold follow
    rw [hplace]
    rfl
  rw [hinside]
  unfold inside
  cases canList r.path with
  | true =>
    rw [List.filter_map, List.map_map]
    simp only [hfits]
    rfl
  | false => rfl

/-- A directory that cannot be listed has no names for a pattern. -/
theorem follow_star_of_not_canList {path : String} (h : canList path = false) (q : Place)
    (cs : List Char) : follow t ⟨path, q⟩ (ending cs) = [] := by
  by_cases hplace : t.entry? q = some .directory
  · rw [follow_star hplace]
    simp only [h, Bool.false_eq_true, if_false]
  · have hexpand := expand_of_ne_directory (r := ⟨path, q⟩) hplace (ending cs) []
    simpa [expand] using hexpand

/-! ### Plain names before the last one -/

/-- What is listed where a walk has ended, which a path stands for. -/
def listed (t : Tree) (path : String) (cs : List Char) : Except Fault Tree.Spot → List Reach
  | .ok (.taken q .directory) => follow t ⟨path, q⟩ (ending cs)
  | _ => []

/-- Nothing is listed where a walk to such a directory has ended. -/
theorem listed_of_not_canList {path : String} (h : canList path = false) (cs : List Char)
    (ended : Except Fault Tree.Spot) : listed t path cs ended = [] := by
  unfold listed
  split
  · exact follow_star_of_not_canList h _ cs
  · rfl

/-- A walk does not come to a directory by way of a file or of nothing. -/
theorem listed_of_file? {s : Tree.Spot} {place : Place} (h : s.file? = some place)
    (parts : List String) (path : String) (cs : List Char) :
    listed t path cs (t.walk s parts) = [] := by
  unfold listed
  split
  · rename_i hwalk
    rcases Tree.walk_of_file? h hwalk with ⟨_, rfl⟩
    cases h
  · rfl

/-- Plain names of a pattern are walked along. A path that is refused on the way is part of the one
that is listed in the end, so it is enough that this one is not refused. -/
theorem expand_plain (h : t.Sound) {parts : List (List Char)} (hparts : ∀ part ∈ parts, '/' ∉ part)
    {r : Reach} (hplace : t.entry? r.place = some .directory)
    (hstart : r.path = "" → parts.head? ≠ some []) (cs : List Char) :
    expand t r (parts.map .plain ++ [.items (ending cs)]) =
      listed t ((parts.map String.ofList).foldl Path.join r.path) cs
        (t.walk (.taken r.place .directory) (parts.map String.ofList)) := by
  -- by induction on the names, from the directory that has been come to
  induction parts generalizing r with
  | nil => simp [expand, listed, Tree.walk, pure, Except.pure]
  | cons part parts ih =>
    have hname : '/' ∉ (String.ofList part).toList := by
      rw [String.toList_ofList]
      exact hparts part List.mem_cons_self
    have hrest : ∀ part' ∈ parts, '/' ∉ part' := fun part' hpart' =>
      hparts part' (List.mem_cons_of_mem part hpart')
    have hnames : ∀ name ∈ parts.map String.ofList, '/' ∉ name.toList := by
      intro name hmem
      rcases List.mem_map.1 hmem with ⟨part', hpart', rfl⟩
      rw [String.toList_ofList]
      exact hrest part' hpart'
    have hne : Path.join r.path (String.ofList part) ≠ "" := by
      rw [Path.join_eq r.path hname]
      intro hempty
      rcases String.append_eq_empty_iff.1 hempty with ⟨hfront, hpart⟩
      have hpath : r.path = "" := Path.front_eq_empty_iff.1 hfront
      have hnil : part = [] := by simpa using hpart
      exact hstart hpath (by rw [hnil]; rfl)
    have hexpand : expand t r ((part :: parts).map .plain ++ [.items (ending cs)]) =
        (follow t r (part.map .literal)).flatMap fun p =>
          expand t p (parts.map .plain ++ [.items (ending cs)]) := rfl
    rw [hexpand, follow_plain hplace, List.map_cons, Tree.walk_cons, List.foldl_cons]
    by_cases hrefused : String.ofList part ≠ "." ∧ String.ofList part ≠ ".." ∧
        (Tree.refusal? (Path.join r.path (String.ofList part))).isSome = true
    · -- the path up to here is refused, and with it the one that is to be listed
      have hlist := canList_foldl_of_refusal hne hrefused.2.2 hnames
      have hliteral : literal t r (String.ofList part) = [] := if_pos hrefused
      rw [hliteral, listed_of_not_canList hlist]
      rfl
    · unfold literal
      simp only [if_neg hrefused]
      rcases hstep : t.step (.taken r.place .directory) (String.ofList part) with e | s
      · rfl
      have hs := h.step (.taken hplace) hstep
      rcases s with ⟨next, c | _⟩ | next
      · have hdirectory : t.entry? next ≠ some .directory := by
          rcases hs with ⟨hentry⟩
          rw [hentry]
          simp
        have hnone : expand t ⟨Path.join r.path (String.ofList part), next⟩
            (parts.map .plain ++ [.items (ending cs)]) = [] := by
          cases parts <;> exact expand_of_ne_directory hdirectory _ _
        simp only [List.flatMap_singleton]
        exact hnone.trans (listed_of_file? (s := .taken next (.file c)) rfl _ _ cs).symm
      · rcases hs with ⟨hentry⟩
        simp only [List.flatMap_singleton]
        exact ih hrest hentry (fun hempty => absurd hempty hne)
      · exact (listed_of_file? (s := .free next) rfl _ _ cs).symm

/-- The parts of a path lead to the directory that the path leads to. -/
theorem expand_above (h : t.Sound) (path : String) (cs : List Char) :
    expand t (origin t path) ((Path.above path).map .plain ++ [.items (ending cs)]) =
      match t.inner? path with
      | some q => follow t ⟨Path.reached path, q⟩ (ending cs)
      | none => [] := by
  have hparts : ∀ part ∈ Path.above path, '/' ∉ part := fun part hpart =>
    Path.notMem_of_mem_split ((List.dropLast_sublist _).subset hpart)
  have hstart : (origin t path).path = "" → (Path.above path).head? ≠ some [] := by
    intro hpath hhead
    rcases List.head?_eq_some_iff.1 hhead with ⟨parts, hparts⟩
    have habsolute : Path.isAbsolute path = true := Path.isAbsolute_iff_above.2 ⟨parts, hparts⟩
    have htop : (origin t path).path = "/" := if_pos habsolute
    rw [htop] at hpath
    revert hpath
    decide
  rcases h.origin path with ⟨horigin⟩
  have hplace : (origin t path).place = t.origin path := rfl
  rw [expand_plain h hparts horigin hstart, hplace]
  unfold Tree.inner? Path.reached listed
  rcases t.walk (.taken (t.origin path) .directory) ((Path.above path).map String.ofList) with
    e | ⟨q, _ | _⟩ | q <;> rfl

end Glob

namespace Tree

open Glob (IsPlain)

variable {t : Tree} {path name suffix : String}

/-- The names that have an ending in the list of the directory of a path. -/
def namesWith (t : Tree) (path suffix : String) : List String :=
  match t.inner? path with
  | some place =>
    if Glob.canList (Path.reached path) then
      ((t.children place).map Prod.fst).filter fun name => suffix.toList.isSuffixOf name.toList
    else []
  | none => []

/-- No name is listed twice. -/
theorem nodup_namesWith (t : Tree) (path suffix : String) : (t.namesWith path suffix).Nodup := by
  unfold namesWith
  split
  · split
    · exact (nodup_children t _).filter _
    · exact List.nodup_nil
  · exact List.nodup_nil

/-- The names that are listed, told from the entries of the tree. -/
theorem mem_namesWith_iff :
    name ∈ t.namesWith path suffix ↔
      suffix.toList <:+ name.toList ∧ Glob.canList (Path.reached path) = true ∧
        ∃ place, t.inner? path = some place ∧ (t.entry? (place ++ [name])).isSome := by
  unfold namesWith
  cases t.inner? path with
  | none => simp
  | some place =>
    cases hlist : Glob.canList (Path.reached path) with
    | false => simp
    | true =>
      simp only [if_true, true_and, List.mem_filter, List.mem_map, List.isSuffixOf_iff_suffix,
        Option.some.injEq, exists_eq_left', Option.isSome_iff_exists]
      constructor
      · rintro ⟨⟨⟨_, e⟩, hmem, rfl⟩, hsuffix⟩
        exact ⟨hsuffix, e, mem_children_iff.1 hmem⟩
      · rintro ⟨hsuffix, e, hentry⟩
        exact ⟨⟨_, mem_children_iff.2 hentry, rfl⟩, hsuffix⟩

/-- A walk to a name begins where the one to its directory does. -/
theorem origin_join (t : Tree) (path : String) (h : '/' ∉ name.toList) :
    t.origin (Path.join path name) = t.origin path := by
  unfold Tree.origin
  rw [Path.isAbsolute_join path h]

/-- A star and an ending below a plain path lead to the names there that have the ending. -/
theorem places_join (h : t.Sound) (hpath : ∀ c ∈ path.toList, IsPlain c)
    (hsuffix : ∀ c ∈ suffix.toList, IsPlain c) (hslash : '/' ∉ suffix.toList) :
    ∃ places, Glob.places t (Path.join path ("*" ++ suffix)) = .ok places ∧
      places.map List.getLast? = (t.namesWith path suffix).map some := by
  have hnoslash : '/' ∉ ("*" ++ suffix).toList := by
    rw [String.toList_append, List.mem_append, not_or]
    exact ⟨by decide, hslash⟩
  have horigin : Glob.origin t (Path.join path ("*" ++ suffix)) = Glob.origin t path := by
    unfold Glob.origin
    rw [Path.isAbsolute_join path hnoslash, origin_join t path hnoslash]
  unfold Glob.places
  rw [Glob.parse_join hpath hsuffix hslash, horigin]
  refine ⟨_, rfl, ?_⟩
  simp only
  rw [Glob.expand_above h]
  unfold namesWith
  -- where there is no directory there is nothing to be listed
  cases hinner : t.inner? path with
  | none => rfl
  | some place =>
    have hplace : t.entry? place = some .directory := entry?_of_inner? h hinner
    have hfollow := Glob.follow_star (r := ⟨Path.reached path, place⟩) hplace suffix.toList
    simp only [hfollow]
    split
    · simp only [List.map_map]
      exact List.map_congr_left fun _ _ => List.getLast?_concat
    · rfl

theorem holds_iff : t.holds path = true ↔ ∃ q e, t.locate path = .ok (.taken q e) := by
  unfold holds
  rcases t.locate path with fault | ⟨q, e⟩ | q <;> simp

/-- A name leads from a directory to its entry. -/
theorem step_name (h : t.Sound) (place : Place) (hname : name ≠ "" ∧ name ≠ "." ∧ name ≠ "..") :
    (∃ q e, t.step (.taken place .directory) name = .ok (.taken q e)) ↔
      (t.entry? (place ++ [name])).isSome := by
  rcases hname with ⟨hempty, hdot, hdots⟩
  unfold step
  simp only [hempty, hdot, hdots, or_self, if_false]
  constructor
  · rintro ⟨q, e, hstep⟩
    split at hstep
    · cases hstep
    · split at hstep
      · rename_i hentry
        rw [hentry]
        rfl
      · cases hstep
  · intro hentry
    have hsize : ¬maxNameSize < name.utf8ByteSize := Nat.not_lt.2 (h.nameSize _ _ hentry)
    rcases Option.isSome_iff_exists.1 hentry with ⟨e, he⟩
    exact ⟨place ++ [name], e, by rw [if_neg hsize, he]⟩

/-- A walk to a name goes by way of the directory that the name is in. -/
theorem locate_join (t : Tree) (path : String) (hslash : '/' ∉ name.toList) (spot : Spot) :
    t.locate (Path.join path name) = .ok spot ↔
      refusal? (Path.join path name) = none ∧
        ∃ place, t.inner? path = some place ∧
          t.step (.taken place .directory) name = .ok spot := by
  have hsegments : Path.segments (Path.join path name) =
      (Path.above path).map String.ofList ++ [name] := by
    unfold Path.segments
    rw [Path.split_join path hslash, List.map_append, List.map_singleton, String.ofList_toList]
  have hlast : ∀ s : Spot, t.walk s [name] = t.step s name := by
    intro s
    rw [walk_cons]
    cases t.step s name <;> rfl
  simp only [inner?_eq_some_iff]
  rw [locate_eq_ok_iff, origin_join t path hslash, hsegments, walk_append]
  refine and_congr_right fun _ => ?_
  rcases t.walk (.taken (t.origin path) .directory) ((Path.above path).map String.ofList) with
    fault | s
  · simp [Except.bind]
  · simp only [Except.bind, hlast]
    -- a step is taken from a directory only
    rcases s with ⟨place, c | _⟩ | place
    · simp [step]
    · simp
    · simp [step]

/-- The path of a name below another path leads to an entry exactly if there is one of that name. -/
theorem holds_join_iff (h : t.Sound) (path : String) (hslash : '/' ∉ name.toList)
    (hname : name ≠ "" ∧ name ≠ "." ∧ name ≠ "..") :
    t.holds (Path.join path name) = true ↔
      refusal? (Path.join path name) = none ∧
        ∃ place, t.inner? path = some place ∧ (t.entry? (place ++ [name])).isSome := by
  rw [holds_iff]
  simp only [locate_join t path hslash]
  constructor
  · rintro ⟨q, e, hrefusal, place, hinner, hstep⟩
    exact ⟨hrefusal, place, hinner, (step_name h place hname).1 ⟨q, e, hstep⟩⟩
  · rintro ⟨hrefusal, place, hinner, hentry⟩
    rcases (step_name h place hname).2 hentry with ⟨q, e, hstep⟩
    exact ⟨q, e, hrefusal, place, hinner, hstep⟩

/-- The path of a name is refused if it is too long or if the directory cannot be listed. -/
theorem refusal?_join_eq_none_iff (path : String) (hslash : '/' ∉ name.toList) (hname : name ≠ "")
    (hnull : '\x00' ∉ name.toList) :
    refusal? (Path.join path name) = none ↔
      isTooLong (Path.join path name) = false ∧ Glob.canList (Path.reached path) = true := by
  rw [refusal?_eq_none_iff, Glob.canList_iff, Path.mem_reached_iff path (by decide)]
  rw [Path.join_eq path hslash, String.toList_append, List.mem_append,
    Path.mem_front_iff path (by decide)]
  have hne : Path.front path ++ name ≠ "" := by
    intro hempty
    exact hname (String.append_eq_empty_iff.1 hempty).2
  constructor
  · rintro ⟨hnull', -, hshort⟩
    have hreached := Path.size_reached_le path
    refine ⟨hshort, fun hmem => hnull' (.inl hmem), ?_⟩
    simp only [isTooLong, decide_eq_false_iff_not, String.utf8ByteSize_append] at hshort ⊢
    omega
  · rintro ⟨hshort, hpath, -⟩
    exact ⟨not_or.2 ⟨hpath, hnull⟩, hne, hshort⟩

end Tree

end ToolGate.Files
