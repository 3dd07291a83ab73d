import ToolGate.Files.Path

/-!
# Paths below a directory

The path of a name below a directory is the path of the directory, with a slash behind it where there
is none, and the name. So its parts are those of the directory and the name. A pattern comes to the
directory by joining these parts again, one by one, which leaves nothing out but slashes.

* `Path.join_eq`, `Path.split_join`: the path of a name below a directory, and its parts;
* `Path.isAbsolute_iff_above`: where a path begins, told from its parts;
* `Path.foldl_join_eq_append`, `Path.mem_foldl_join_iff`, `Path.size_foldl_join_le`: names joined one
  by one;
* `Path.mem_reached_iff`, `Path.size_reached_le`: the path of a directory joined again.
-/

namespace ToolGate.Files

namespace Path

/-- What stands before a name in its path below a directory. -/
def front (directory : String) : String :=
  if directory = "" then ""
  else if asksDirectory directory then directory
  else directory ++ "/"

/-- The parts of the path of a name below a directory that are before the name. -/
def above (directory : String) : List (List Char) := (split (front directory).toList).dropLast

variable {directory name : String}

/-- A text without slashes is one part. -/
theorem split_of_notMem {cs : List Char} (h : '/' ∉ cs) : split cs = [cs] := by
  induction cs with
  | nil => rfl
  | cons c cs ih =>
    rw [List.mem_cons, not_or] at h
    unfold split
    rw [if_neg (Ne.symm h.1), ih h.2]

/-- The parts have no characters of their own. -/
theorem subset_of_mem_split {cs part : List Char} (h : part ∈ split cs) : part ⊆ cs := by
  induction cs generalizing part with
  | nil =>
    rw [List.mem_singleton.1 h]
    exact List.Subset.refl _
  | cons c cs ih =>
    unfold split at h
    split at h
    · rcases List.mem_cons.1 h with rfl | h
      · exact List.nil_subset _
      · exact List.subset_cons_of_subset c (ih h)
    · split at h
      · rw [List.mem_singleton.1 h]
        exact List.cons_subset_cons c (List.nil_subset _)
      · rename_i first parts hsplit
        rcases List.mem_cons.1 h with rfl | h
        · exact List.cons_subset_cons c (ih (hsplit ▸ List.mem_cons_self))
        · exact List.subset_cons_of_subset c (ih (hsplit ▸ List.mem_cons_of_mem _ h))

/-- A path without slashes does not begin at the top. -/
theorem not_isAbsolute (h : '/' ∉ name.toList) : isAbsolute name = false := by
  unfold isAbsolute
  rw [beq_eq_false_iff_ne]
  intro hhead
  exact h (List.mem_of_mem_head? (Option.mem_def.2 hhead))

/-- The path of a name is what stands before it, and the name. -/
theorem join_eq (directory : String) (h : '/' ∉ name.toList) :
    join directory name = front directory ++ name := by
  unfold join front
  rw [not_isAbsolute h]
  by_cases hempty : directory = ""
  · simp [hempty]
  · cases asksDirectory directory <;> simp [hempty]

/-- There is nothing before the name, or it ends in a slash. -/
theorem front_cases (directory : String) :
    front directory = "" ∨ ∃ cs, (front directory).toList = cs ++ ['/'] := by
  unfold front
  split
  · exact .inl rfl
  · split
    · rename_i hslash
      exact .inr (List.getLast?_eq_some_iff.1 (eq_of_beq hslash))
    · exact .inr ⟨directory.toList, by simp⟩

/-- Nothing stands before names in the empty path. -/
theorem front_eq_empty_iff : front directory = "" ↔ directory = "" := by
  unfold front
  by_cases hempty : directory = ""
  · simp [hempty]
  · cases asksDirectory directory <;> simp [hempty]

/-- A slash may be added to the path of a directory. -/
theorem mem_front {c : Char} (h : c ∈ (front directory).toList) :
    c ∈ directory.toList ∨ c = '/' := by
  unfold front at h
  split at h
  · cases h
  split at h
  · exact .inl h
  · rw [String.toList_append] at h
    exact (List.mem_append.1 h).imp_right List.mem_singleton.1

/-- Other characters are those of the path. -/
theorem mem_front_iff (directory : String) {c : Char} (hc : c ≠ '/') :
    c ∈ (front directory).toList ↔ c ∈ directory.toList := by
  refine ⟨fun hmem => (mem_front hmem).resolve_right hc, fun hmem => ?_⟩
  unfold front
  split
  · rename_i hempty
    rw [hempty] at hmem
    exact hmem
  · split
    · exact hmem
    · rw [String.toList_append]
      exact List.mem_append_left _ hmem

/-- The parts of the path of a name end in the name. -/
theorem split_join (directory : String) (h : '/' ∉ name.toList) :
    split (join directory name).toList = above directory ++ [name.toList] := by
  unfold above
  rw [join_eq directory h, String.toList_append]
  rcases front_cases directory with hfront | ⟨cs, hfront⟩
  · rw [hfront]
    exact split_of_notMem h
  · rw [hfront, List.append_assoc, List.singleton_append, split_append_slash, split_append_slash,
      split_of_notMem h]
    exact congrArg (· ++ _) List.dropLast_concat.symm

/-- The path of a name begins where that of its directory does. -/
theorem isAbsolute_join (directory : String) (h : '/' ∉ name.toList) :
    isAbsolute (join directory name) = isAbsolute directory := by
  rw [join_eq directory h]
  unfold front
  split
  · rename_i hempty
    rw [hempty, String.empty_append, not_isAbsolute h]
    rfl
  · rename_i hne
    rcases List.exists_cons_of_ne_nil (mt String.toList_eq_nil_iff.1 hne) with ⟨c, cs, hcs⟩
    unfold isAbsolute
    split <;> simp [hcs]

/-- The parts before the name have no characters but those of the directory. -/
theorem subset_of_mem_above {part : List Char} (h : part ∈ above directory) :
    part ⊆ directory.toList := by
  unfold above front at h
  split at h
  · cases h
  split at h
  · exact subset_of_mem_split ((List.dropLast_sublist _).subset h)
  · have hsplit : split (directory ++ "/").toList = split directory.toList ++ [[]] := by
      rw [String.toList_append]
      exact split_append_slash _ []
    rw [hsplit, List.dropLast_concat] at h
    exact subset_of_mem_split h

/-- No part has a slash. -/
theorem notMem_of_mem_split {cs part : List Char} (h : part ∈ split cs) : '/' ∉ part := by
  induction cs generalizing part with
  | nil =>
    rw [List.mem_singleton.1 h]
    exact List.not_mem_nil
  | cons c cs ih =>
    unfold split at h
    split at h
    · rcases List.mem_cons.1 h with rfl | h
      · exact List.not_mem_nil
      · exact ih h
    · rename_i hc
      split at h
      · rw [List.mem_singleton.1 h, List.mem_singleton]
        exact Ne.symm hc
      · rename_i first parts hsplit
        rcases List.mem_cons.1 h with rfl | h
        · rw [List.mem_cons, not_or]
          exact ⟨Ne.symm hc, ih (hsplit ▸ List.mem_cons_self)⟩
        · exact ih (hsplit ▸ List.mem_cons_of_mem _ h)

/-- The parts before the name, each with the slash behind it, are all that is before the name. -/
theorem flatMap_above (directory : String) :
    (above directory).flatMap (fun part => part ++ ['/']) = (front directory).toList := by
  -- a slash behind each part, not only between them, makes one at the end
  have hsplit : ∀ cs : List Char, (split cs).flatMap (fun part => part ++ ['/']) = cs ++ ['/'] := by
    intro cs
    induction cs with
    | nil => rfl
    | cons c cs ih =>
      unfold split
      split
      · rename_i hc
        rw [hc, List.flatMap_cons, ih]
        rfl
      · cases hparts : split cs with
        | nil =>
          rw [hparts] at ih
          cases cs <;> cases ih
        | cons part parts =>
          rw [hparts, List.flatMap_cons] at ih
          rw [List.flatMap_cons, List.cons_append, List.cons_append, ih]
          rfl
  unfold above
  rcases front_cases directory with hfront | ⟨cs, hfront⟩
  · rw [hfront]
    rfl
  · rw [hfront, split_append_slash, split, List.dropLast_concat]
    exact hsplit cs

/-! ### Names joined one by one -/

/-- A name is added behind a path. -/
theorem join_eq_append (directory : String) (h : '/' ∉ name.toList) :
    ∃ rest, join directory name = directory ++ rest := by
  rw [join_eq directory h]
  unfold front
  split
  · rename_i hempty
    exact ⟨name, by rw [hempty]⟩
  · split
    · exact ⟨name, rfl⟩
    · exact ⟨"/" ++ name, by rw [String.append_assoc]⟩

variable {names : List String}

/-- Names are added behind a path. -/
theorem foldl_join_eq_append (h : ∀ name ∈ names, '/' ∉ name.toList) (directory : String) :
    ∃ rest, names.foldl join directory = directory ++ rest := by
  induction names generalizing directory with
  | nil => exact ⟨"", by simp⟩
  | cons name names ih =>
    rw [List.forall_mem_cons] at h
    rcases join_eq_append directory h.1 with ⟨rest, hrest⟩
    rcases ih h.2 (join directory name) with ⟨more, hmore⟩
    exact ⟨rest ++ more, by rw [List.foldl_cons, hmore, hrest, String.append_assoc]⟩

/-- Nothing but slashes comes between names that are joined. -/
theorem mem_foldl_join_iff (h : ∀ name ∈ names, '/' ∉ name.toList) (directory : String) {c : Char}
    (hc : c ≠ '/') :
    c ∈ (names.foldl join directory).toList ↔
      c ∈ directory.toList ∨ ∃ name ∈ names, c ∈ name.toList := by
  induction names generalizing directory with
  | nil => simp
  | cons name names ih =>
    rw [List.forall_mem_cons] at h
    rw [List.foldl_cons, ih h.2, join_eq directory h.1, String.toList_append, List.mem_append,
      mem_front_iff directory hc]
    simp [or_assoc]

/-- Names with a slash behind each. -/
def slashed (names : List String) : String := String.join (names.map (· ++ "/"))

/-- The slash behind a name takes one byte. -/
theorem size_slashed_cons (name : String) (names : List String) :
    (slashed (name :: names)).utf8ByteSize =
      name.utf8ByteSize + 1 + (slashed names).utf8ByteSize := by
  have hslash : "/".utf8ByteSize = 1 := by decide
  unfold slashed
  rw [List.map_cons, String.join_cons, String.utf8ByteSize_append, String.utf8ByteSize_append,
    hslash]

/-- Joining adds one slash to each name at most. -/
theorem size_foldl_join_le (h : ∀ name ∈ names, '/' ∉ name.toList) (directory : String) :
    (names.foldl join directory).utf8ByteSize ≤
      directory.utf8ByteSize + (slashed names).utf8ByteSize := by
  induction names generalizing directory with
  | nil => simp
  | cons name names ih =>
    rw [List.forall_mem_cons] at h
    have hrest := ih h.2 (join directory name)
    have hslash : "/".utf8ByteSize = 1 := by decide
    have hfront : (front directory).utf8ByteSize ≤ directory.utf8ByteSize + 1 := by
      unfold front
      split
      · simp
      · split
        · omega
        · rw [String.utf8ByteSize_append]
          omega
    rw [join_eq directory h.1, String.utf8ByteSize_append] at hrest
    rw [List.foldl_cons, size_slashed_cons, join_eq directory h.1]
    omega

/-- The path of a directory as a pattern comes to it, part by part. -/
def reached (path : String) : String :=
  ((above path).map String.ofList).foldl join (if isAbsolute path then "/" else "")

/-- What stands before names begins where the path does. -/
theorem isAbsolute_front (directory : String) : isAbsolute (front directory) = isAbsolute directory := by
  have hjoin : join directory "" = front directory := by
    rw [join_eq directory (by decide), String.append_empty]
  rw [← hjoin]
  exact isAbsolute_join directory (by decide)

/-- A path begins at the top if nothing is before its first slash. -/
theorem isAbsolute_iff_above {path : String} :
    isAbsolute path = true ↔ ∃ parts, above path = [] :: parts := by
  rw [← isAbsolute_front]
  unfold isAbsolute
  rw [← flatMap_above]
  cases habove : above path with
  | nil => simp
  | cons part parts =>
    have hpart : part ∈ split (front path).toList := by
      apply (List.dropLast_sublist _).subset
      unfold above at habove
      rw [habove]
      exact List.mem_cons_self
    have hslash : '/' ∉ part := notMem_of_mem_split hpart
    cases part with
    | nil => simp
    | cons c cs =>
      have hc : c ≠ '/' := fun heq => hslash (heq ▸ List.mem_cons_self)
      simp [hc]

theorem noSlash_of_mem_above {name : String} (h : name ∈ (above directory).map String.ofList) :
    '/' ∉ name.toList := by
  rcases List.mem_map.1 h with ⟨part, hpart, rfl⟩
  rw [String.toList_ofList]
  exact notMem_of_mem_split ((List.dropLast_sublist _).subset hpart)

/-- What is reached has the characters of the path, some slashes apart. -/
theorem mem_reached_iff (path : String) {c : Char} (hc : c ≠ '/') :
    c ∈ (reached path).toList ↔ c ∈ path.toList := by
  have hstart : c ∉ (if isAbsolute path then "/" else "").toList := by
    split <;> simp [hc]
  unfold reached
  rw [mem_foldl_join_iff (fun _ => noSlash_of_mem_above) _ hc, or_iff_right hstart]
  constructor
  · rintro ⟨name, hname, hmem⟩
    rcases List.mem_map.1 hname with ⟨part, hpart, rfl⟩
    rw [String.toList_ofList] at hmem
    exact subset_of_mem_above hpart hmem
  · intro hmem
    rw [← mem_front_iff path hc, ← flatMap_above, List.mem_flatMap] at hmem
    rcases hmem with ⟨part, hpart, hmem⟩
    rcases List.mem_append.1 hmem with hmem | hmem
    · exact ⟨String.ofList part, List.mem_map_of_mem hpart, by rwa [String.toList_ofList]⟩
    · exact absurd (List.mem_singleton.1 hmem) hc

/-- What stands before a name is the names before it, with a slash behind each. -/
theorem front_eq_slashed (directory : String) :
    front directory = slashed ((above directory).map String.ofList) := by
  have hslashed : ∀ parts : List (List Char),
      String.ofList (parts.flatMap fun part => part ++ ['/']) =
        slashed (parts.map String.ofList) := by
    intro parts
    unfold slashed
    induction parts with
    | nil => rfl
    | cons part parts ih =>
      rw [List.flatMap_cons, String.ofList_append, String.ofList_append, ih, List.map_cons,
        List.map_cons, String.join_cons]
  rw [← hslashed, flatMap_above, String.ofList_toList]

/-- What is reached is not longer than what stands before the names below the path. -/
theorem size_reached_le (path : String) :
    (reached path).utf8ByteSize ≤ (front path).utf8ByteSize := by
  have hnames : ∀ name ∈ (above path).map String.ofList, '/' ∉ name.toList :=
    fun _ => noSlash_of_mem_above
  unfold reached
  rw [front_eq_slashed]
  split
  · rename_i habsolute
    -- the first part is the empty one before the first slash, and adds nothing to the top
    rcases isAbsolute_iff_above.1 habsolute with ⟨parts, hparts⟩
    rw [hparts] at hnames ⊢
    rw [List.map_cons, List.forall_mem_cons] at hnames
    have hrest := size_foldl_join_le hnames.2 (join "/" "")
    have htop : (join "/" "").utf8ByteSize = 1 := by decide
    have hempty : (String.ofList []).utf8ByteSize = 0 := by decide
    rw [htop] at hrest
    rw [List.map_cons, List.foldl_cons, size_slashed_cons, hempty]
    exact hrest
  · have hle := size_foldl_join_le hnames ""
    rwa [show "".utf8ByteSize = 0 by decide, Nat.zero_add] at hle

end Path

end ToolGate.Files
