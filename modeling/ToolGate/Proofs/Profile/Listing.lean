import Mathlib.Data.List.Nodup
import ToolGate.Profile.Catalog
import ToolGate.Proofs.Files.Glob

/-!
# What a directory of profiles lists

A directory lists the services that have a file there, and a service is looked up by the path of its
file. The list is made with a pattern that begins with the path of the directory. As long as no
character of this path means something in a pattern, the services of ids that are listed are those
that are found. They are listed once each, in order; only `.yaml` is listed twice if there are both
a file `.yaml` and a file `.yaml.yaml`, since the first one has no name but its ending.

* `Path.stem_append`: a name without its ending;
* `Catalog.services_directory`: the list in terms of the names in the directory;
* `Catalog.lists_what_it_finds`: what is listed is what is found;
* `Catalog.lists_other_than_it_finds`: that it is not so in every directory.
-/

namespace ToolGate

namespace Files.Path

/-- What is before the last dot is the stem, unless it is nothing. -/
theorem stem_append {name ending : String} (hname : name ≠ "") (hending : '.' ∉ ending.toList) :
    stem (name ++ "." ++ ending) = name := by
  rcases List.exists_cons_of_ne_nil (mt String.toList_eq_nil_iff.1 hname) with ⟨c, cs, hcs⟩
  have htext : (name ++ "." ++ ending).toList = c :: (cs ++ '.' :: ending.toList) := by
    simp [hcs]
  have hdrop : (cs ++ '.' :: ending.toList).reverse.dropWhile (· != '.') = '.' :: cs.reverse := by
    rw [List.reverse_append, List.reverse_cons, List.append_assoc,
      List.dropWhile_append_of_pos]
    · simp
    · intro d hd
      rw [bne_iff_ne]
      rintro rfl
      exact hending (List.mem_reverse.1 hd)
  unfold stem
  rw [htext]
  simp only [hdrop]
  simp [← hcs]

end Files.Path

namespace Catalog

open Files (Tree)
open Files.Glob (IsPlain isPlain_of_all)
open Files.Tree (isTooLong)

variable {t : Tree} {path : String}

/-! ## Files of services -/

/-- The ending of the files of services. -/
def ending : String := ".yaml"

/-- What a directory lists, with the file names in whichever order. -/
theorem services_directory (h : t.Sound) (hpath : ∀ c ∈ path.toList, IsPlain c) :
    (directory path).services t =
      .ok ((t.namesWith path ending).map Files.Path.stem).mergeSort := by
  have hplain : ∀ c ∈ ending.toList, IsPlain c := isPlain_of_all (by decide)
  rcases Tree.places_join h hpath hplain (by decide) with ⟨places, hplaces, hnames⟩
  have hpattern : "*" ++ ending = "*.yaml" := by decide
  rw [hpattern] at hplaces
  have hstems : (places.filterMap fun p => p.getLast?.map Files.Path.stem) =
      (t.namesWith path ending).map Files.Path.stem := by
    have hmap : (places.filterMap fun p => p.getLast?.map Files.Path.stem) =
        (places.map List.getLast?).filterMap (Option.map Files.Path.stem) := by
      rw [List.filterMap_map]
      rfl
    rw [hmap, hnames, List.filterMap_map]
    exact congrFun List.filterMap_eq_map _
  unfold services
  simp only [hplaces, hstems]

/-- File names that are in order are listed as they are. -/
theorem services_of_ordered (h : t.Sound) (hpath : ∀ c ∈ path.toList, IsPlain c)
    {names : List String} (hnames : (t.namesWith path ending).map Files.Path.stem = names)
    (hordered : names.Pairwise fun a b => decide (a ≤ b) = true) :
    (directory path).services t = .ok names := by
  rw [services_directory h hpath, hnames, List.mergeSort_of_pairwise hordered]

/-- The stem of a file of the directory is what the ending was added to, unless that was nothing. -/
theorem stem_ending (service : String) :
    Files.Path.stem (service ++ ending) = if service = "" then ending else service := by
  split
  · rename_i hempty
    rw [hempty]
    decide
  · rename_i hne
    have hdot : service ++ ending = service ++ "." ++ "yaml" := by
      rw [String.append_assoc]
      exact congrArg (service ++ ·) (by decide)
    rw [hdot]
    exact Files.Path.stem_append hne (by decide)

theorem exists_of_mem_namesWith {name : String} (h : name ∈ t.namesWith path ending) :
    ∃ service, name = service ++ ending := by
  rcases (Tree.mem_namesWith_iff.1 h).1 with ⟨cs, hcs⟩
  refine ⟨String.ofList cs, String.toList_injective ?_⟩
  rw [String.toList_append, String.toList_ofList, hcs]

/-- The path of the file of a service leads to an entry if the file is there, unless the path is too
long. -/
theorem holds_entryPath_iff (h : t.Sound) (path : String) {service : String}
    (hslash : '/' ∉ service.toList) (hnull : '\x00' ∉ service.toList) :
    t.holds (entryPath path service) = true ↔
      isTooLong (entryPath path service) = false ∧ service ++ ending ∈ t.namesWith path ending := by
  have hslash' : '/' ∉ (service ++ ending).toList := by
    rw [String.toList_append, List.mem_append, not_or]
    exact ⟨hslash, by decide⟩
  have hnull' : '\x00' ∉ (service ++ ending).toList := by
    rw [String.toList_append, List.mem_append, not_or]
    exact ⟨hnull, by decide⟩
  -- names of one or two characters are too short to have the ending
  have hlength : ∀ name : String, name.toList.length < 5 → service ++ ending ≠ name := by
    rintro name hlt rfl
    rw [String.toList_append, List.length_append] at hlt
    have hfive : ending.toList.length = 5 := by decide
    omega
  have hname : service ++ ending ≠ "" ∧ service ++ ending ≠ "." ∧ service ++ ending ≠ ".." :=
    ⟨hlength _ (by decide), hlength _ (by decide), hlength _ (by decide)⟩
  have hsuffix : ending.toList <:+ (service ++ ending).toList := by
    rw [String.toList_append]
    exact List.suffix_append _ _
  have hholds := Tree.holds_join_iff h path hslash' hname
  rw [Tree.refusal?_join_eq_none_iff path hslash' hname.1 hnull', and_assoc] at hholds
  rw [Tree.mem_namesWith_iff]
  simp only [hsuffix, true_and]
  exact hholds

/-- The path of the file without a name is the shorter one. -/
theorem isTooLong_entryPath_empty (h : isTooLong (entryPath path ending) = false) :
    isTooLong (entryPath path "") = false := by
  unfold isTooLong entryPath at *
  rw [Files.Path.join_eq path (by decide), String.utf8ByteSize_append, decide_eq_false_iff_not]
    at h ⊢
  have hsize : ("" ++ ".yaml").utf8ByteSize ≤ (ending ++ ".yaml").utf8ByteSize := by decide
  omega

/-- A service of a directory is looked up by the path of its file. -/
theorem lookup_directory_eq_none_iff {service : String} :
    (directory path).lookup t service = .ok none ↔
      t.holds (entryPath path service) = false := by
  unfold lookup
  simp only
  cases t.holds (entryPath path service) with
  | false => simp
  | true =>
    cases readEntry t (entryPath path service) <;> simp [Except.map]

/-! ## What is listed -/

/-- What is promised of the names that a directory lists. -/
structure Listing (t : Tree) (path : String) (names : List String) : Prop where
  /-- Of the services of ids those are listed that have an entry. One with a path that is too long
  is not found, even if it is listed. -/
  mem_iff : ∀ service, ProfileId.isService service.toList = true →
    ((directory path).lookup t service ≠ .ok none ↔
      service ∈ names ∧ isTooLong (entryPath path service) = false)
  ordered : names.Pairwise (· ≤ ·)
  /-- No name is listed twice unless there are files for no name and for the ending itself. -/
  once_iff : isTooLong (entryPath path ending) = false →
    (names.Pairwise (· < ·) ↔
      ¬(t.holds (entryPath path "") = true ∧ t.holds (entryPath path ending) = true))

/-- A service of an id begins with a letter or a digit. -/
theorem ne_of_isService {service : String} (h : ProfileId.isService service.toList = true) :
    service ≠ "" ∧ service ≠ ending ∧ '/' ∉ service.toList ∧ '\x00' ∉ service.toList := by
  -- characters that the grammar has no place for
  have hother : ∀ c, ProfileId.isLowerOrDigit c = false → c ≠ '_' → c ≠ '-' →
      c ∉ service.toList := by
    intro c hletter hunderscore hdash hmem
    cases hservice : service.toList with
    | nil =>
      rw [hservice] at hmem
      cases hmem
    | cons d ds =>
      rw [hservice] at h hmem
      simp only [ProfileId.isService, Bool.and_eq_true, List.all_eq_true] at h
      rcases List.mem_cons.1 hmem with rfl | hmem
      · rw [h.1] at hletter
        cases hletter
      · simpa [hletter, hunderscore, hdash] using h.2 c hmem
  refine ⟨?_, ?_, hother '/' (by decide) (by decide) (by decide),
    hother '\x00' (by decide) (by decide) (by decide)⟩
  · rintro rfl
    contradiction
  · rintro rfl
    revert h
    decide

/-- A service that is neither empty nor the ending is listed for its own file only. -/
theorem mem_stems_iff {service : String} (hne : service ≠ "") (hending : service ≠ ending) :
    service ∈ (t.namesWith path ending).map Files.Path.stem ↔
      service ++ ending ∈ t.namesWith path ending := by
  rw [List.mem_map]
  constructor
  · rintro ⟨name, hmem, hstem⟩
    rcases exists_of_mem_namesWith hmem with ⟨former, rfl⟩
    rw [stem_ending] at hstem
    split at hstem
    · exact absurd hstem.symm hending
    · rw [← hstem]
      exact hmem
  · intro hmem
    exact ⟨_, hmem, by rw [stem_ending, if_neg hne]⟩

/-- Only the files without a name and with the ending for a name have one stem. -/
theorem nodup_stems_iff :
    ((t.namesWith path ending).map Files.Path.stem).Nodup ↔
      ¬(ending ∈ t.namesWith path ending ∧ ending ++ ending ∈ t.namesWith path ending) := by
  have hsame : Files.Path.stem ending = Files.Path.stem (ending ++ ending) := by decide
  constructor
  · rintro hnodup ⟨hone, htwo⟩
    have heq := List.inj_on_of_nodup_map hnodup hone htwo hsame
    revert heq
    decide
  · intro hnot
    refine List.Nodup.map_on ?_ (Tree.nodup_namesWith t path ending)
    intro name hname name' hname' hstem
    rcases exists_of_mem_namesWith hname with ⟨service, rfl⟩
    rcases exists_of_mem_namesWith hname' with ⟨service', rfl⟩
    rw [stem_ending, stem_ending] at hstem
    -- two stems are equal without being the names themselves only if one of them is the ending
    by_cases hempty : service = "" <;> by_cases hempty' : service' = ""
    · rw [hempty, hempty']
    · rw [if_pos hempty, if_neg hempty'] at hstem
      rw [hempty, String.empty_append] at hname
      rw [← hstem] at hname'
      exact absurd ⟨hname, hname'⟩ hnot
    · rw [if_neg hempty, if_pos hempty'] at hstem
      rw [hempty', String.empty_append] at hname'
      rw [hstem] at hname
      exact absurd ⟨hname', hname⟩ hnot
    · rw [if_neg hempty, if_neg hempty'] at hstem
      rw [hstem]

/-- Names in order are in strict order if none comes twice. -/
theorem pairwise_lt_iff_nodup {names : List String} (h : names.Pairwise (· ≤ ·)) :
    names.Pairwise (· < ·) ↔ names.Nodup := by
  constructor
  · intro hlt
    refine hlt.imp ?_
    rintro a _ hlt rfl
    exact String.lt_irrefl a hlt
  · intro hnodup
    refine (h.and hnodup).imp ?_
    rintro a b ⟨hle, hne⟩
    refine Decidable.byContradiction fun hlt => ?_
    exact hne (String.le_antisymm hle (String.not_lt.1 hlt))

/-- Whatever is in a directory whose path means nothing but itself in a pattern: it lists the
services of ids that are found there and no others, in order, and no name twice unless there are
both a file `.yaml` and a file `.yaml.yaml`. -/
theorem lists_what_it_finds (h : t.Sound) (hpath : ∀ c ∈ path.toList, IsPlain c) :
    ∃ names, (directory path).services t = .ok names ∧ Listing t path names := by
  have hordered : (((t.namesWith path ending).map Files.Path.stem).mergeSort).Pairwise (· ≤ ·) := by
    have htrans : ∀ a b c : String, decide (a ≤ b) = true → decide (b ≤ c) = true →
        decide (a ≤ c) = true := by
      simp only [decide_eq_true_eq]
      intro a b c hab hbc
      exact String.le_trans hab hbc
    have htotal : ∀ a b : String, (decide (a ≤ b) || decide (b ≤ a)) = true := by
      simp only [Bool.or_eq_true, decide_eq_true_eq]
      exact String.le_total
    have hsorted := List.pairwise_mergeSort htrans htotal
      ((t.namesWith path ending).map Files.Path.stem)
    simpa only [decide_eq_true_eq] using hsorted
  refine ⟨_, services_directory h hpath, ?_, hordered, ?_⟩
  · intro service hservice
    rcases ne_of_isService hservice with ⟨hne, hending, hslash, hnull⟩
    rw [List.mem_mergeSort, mem_stems_iff hne hending, Ne, lookup_directory_eq_none_iff,
      Bool.not_eq_false, holds_entryPath_iff h path hslash hnull, and_comm]
  · -- the two files that may have one stem are the one without a name and the one that has the
    -- ending for a name
    intro hshort
    have hempty : t.holds (entryPath path "") = true ↔ _ :=
      holds_entryPath_iff h path (by decide) (by decide)
    have htwice : t.holds (entryPath path ending) = true ↔ _ :=
      holds_entryPath_iff h path (by decide) (by decide)
    rw [isTooLong_entryPath_empty hshort, String.empty_append] at hempty
    rw [hshort] at htwice
    rw [pairwise_lt_iff_nodup hordered, (List.mergeSort_perm _ _).nodup_iff, nodup_stems_iff,
      hempty, htwice]
    simp

/-- A directory with the files of two services, made by saving them. -/
theorem lists_docs_and_gmail :
    let t := ((Tree.save "catalog/gmail.yaml" "service: gmail").run
      ((Tree.save "catalog/docs.yaml" "service: docs").run .empty).2).2
    (t.Sound ∧ ∀ c ∈ "catalog".toList, IsPlain c) ∧
      (∃ names, (directory "catalog").services t = .ok names ∧ Listing t "catalog" names) ∧
        (directory "catalog").services t = .ok ["docs", "gmail"] := by
  intro t
  have hsound : t.Sound := Tree.sound_save (Tree.sound_save Tree.sound_empty _ _) _ _
  have hplain : ∀ c ∈ "catalog".toList, IsPlain c := isPlain_of_all (by decide)
  exact ⟨⟨hsound, hplain⟩, lists_what_it_finds hsound hplain,
    services_of_ordered hsound hplain (by decide +kernel) (by decide)⟩

/-- In a directory with brackets in its name a service is found that is not listed, and of two files
with nothing but endings for names one stem is listed twice. -/
theorem lists_other_than_it_finds :
    (¬ ∀ (t : Tree) (path : String) (names : List String), t.Sound →
      (directory path).services t = .ok names →
        ∀ service, ProfileId.isService service.toList = true →
          (service ∈ names ↔ (directory path).lookup t service ≠ .ok none)) ∧
      ¬ ∀ (t : Tree) (path : String) (names : List String), t.Sound →
        (directory path).services t = .ok names → names.Pairwise (· < ·) := by
  constructor
  · intro h
    -- the brackets are read as a class of characters, which the directory does not match
    let t := ((Tree.save "cat[1]/gmail.yaml" "service: gmail").run .empty).2
    have hsound : t.Sound := Tree.sound_save Tree.sound_empty _ _
    -- the pattern asks for the directory `cat1`, the lookup for `cat[1]`
    have hnames : (directory "cat[1]").services t = .ok [] := by decide +kernel
    have hfound : (directory "cat[1]").lookup t "gmail" ≠ .ok none := by decide +kernel
    have hlisted := (h t "cat[1]" [] hsound hnames "gmail" (by decide)).2 hfound
    cases hlisted
  · intro h
    let t := ((Tree.save "catalog/.yaml.yaml" "service: b").run
      ((Tree.save "catalog/.yaml" "service: a").run .empty).2).2
    have hsound : t.Sound := Tree.sound_save (Tree.sound_save Tree.sound_empty _ _) _ _
    have hnames : (directory "catalog").services t = .ok [".yaml", ".yaml"] :=
      services_of_ordered hsound (isPlain_of_all (by decide)) (by decide +kernel) (by decide)
    have hordered := h t "catalog" _ hsound hnames
    revert hordered
    decide

end Catalog

end ToolGate
